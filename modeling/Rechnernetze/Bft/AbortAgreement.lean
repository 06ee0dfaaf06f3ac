import Rechnernetze.Bft.NetworkTheorems
import Rechnernetze.Bft.ServerTheorems

/-!
# An acknowledged abort

A client that is interrupted at any moment sends ABRs until one is acknowledged. Everything
under way to the server then consists of datagrams from before the interrupt followed by ABRs,
so the server that answers an ABR has seen the last of the former. `AbortInv` says so of every
state of every run; at the end of the handler's loop the server holds no session, and nothing
under way can open one or change a file (`AbortInv.step_after`).
-/

namespace Rechnernetze.Bft

open Lib BftDatagram ClientState

/-- A damaged datagram, or one the client sends as long as it is not interrupted. -/
def BeforeAbort (crc : Bytes → UInt32) (u : Upload) (w : Bytes) : Prop :=
  Damaged crc w ∨ ∃ call d, call ≠ .abr ∧ OfCall crc u call d ∧ w = d.wire

/-- A damaged datagram or the ABR of `signalHandler`. -/
def AbortOnly (crc : Bytes → UInt32) (w : Bytes) : Prop :=
  Damaged crc w ∨ w = (abrDatagram crc).wire

/-- `signalHandler` would take the datagram for the acknowledgement of its ABR. -/
def EndsHandler (crc : Bytes → UInt32) (w : Bytes) : Prop :=
  (receive w).checkIntegrity crc = true ∧ (receive w).isACKFor (abrDatagram crc) = true

/-- The loop of the handler has ended with an acknowledgement of the ABR, or one is under way. -/
def Acknowledged (crc : Bytes → UInt32) (net : Net Unit) : Prop :=
  (net.client ()).pc = .exited .abortAcknowledged ∨ ∃ w ∈ net.toClient (), EndsHandler crc w

/-- The server has no session. -/
def ServerState.Vacant (s : ServerState) : Prop := ∀ c, s.status ≠ .running (some c)

section
variable {crc : Bytes → UInt32} {opts : ServerOptions} {fs fs₀ : FileSystem} {u : Upload}
  {net net' : Net Unit} {action : Action Unit} {w : Bytes} {d : BftDatagram} {call : Call}
  {currentClient : Option ClientData} {env : Env} {input : ServerInput} {out : Outcome}

theorem vacant_idle : ServerState.Vacant ⟨fs, .running none⟩ := by
  intro c hc
  cases hc

theorem vacant_stopped {cause : Stop} : ServerState.Vacant ⟨fs, .stopped cause⟩ := by
  intro c hc
  cases hc

theorem wellFormed_abrDatagram (crc : Bytes → UInt32) : (abrDatagram crc).WellFormed crc :=
  wellFormed_init ..

theorem ClientState.OfCall.flags_ne_ABR (h : OfCall crc u call d) (hcall : call ≠ .abr) :
    d.flags ≠ Flags.ABR := by
  have hmem := h.flags_mem hcall
  intro hABR
  rw [hABR] at hmem
  revert hmem
  decide

/-- An intact datagram from before the interrupt. -/
theorem BeforeAbort.receive_intact (hw : BeforeAbort crc u w)
    (hcheck : (receive w).checkIntegrity crc = true) :
    ∃ call, call ≠ .abr ∧ OfCall crc u call (receive w) := by
  rcases hw with hw | ⟨call, d, hcall, h, rfl⟩
  · rw [hw.2] at hcheck
    cases hcheck
  · rw [h.wellFormed.receive_wire]
    exact ⟨call, hcall, h⟩

theorem not_beforeAbort_abr : ¬ BeforeAbort crc u (abrDatagram crc).wire := by
  intro hw
  have habr := wellFormed_abrDatagram crc
  obtain ⟨call, hcall, h⟩ := hw.receive_intact
    (by rw [habr.receive_wire]; exact habr.checkIntegrity)
  rw [habr.receive_wire] at h
  exact h.flags_ne_ABR hcall rfl

/-! ## What the server answers -/

/-- The acknowledgement of the ABR has the flags `ABR` and `ACK`. -/
theorem not_endsHandler_of_flags (hd : d.WellFormed crc) (h : d.flags ≠ Flags.ABR ||| Flags.ACK) :
    ¬ EndsHandler crc d.wire := by
  rintro ⟨-, hack⟩
  rw [hd.receive_wire] at hack
  exact h (flags_of_isACKFor hack)

/-- **No answer to an earlier datagram** is taken for the acknowledgement of the ABR. -/
theorem BeforeAbort.not_endsHandler (hw : BeforeAbort crc u w)
    (hturn : Turn crc opts fs ⟨u.address, w, env⟩ currentClient out) :
    ∀ x ∈ out.sends, ¬ EndsHandler crc x.2.wire := by
  intro x hx
  rcases hturn.reply x hx with h | ⟨-, sqn, h⟩ | ⟨hcheck, h⟩ <;> rw [h]
  · refine not_endsHandler_of_flags (wellFormed_init ..) ?_
    show Flags.ABR ≠ _
    decide
  · refine not_endsHandler_of_flags (wellFormed_init ..) ?_
    show (if sqn then Flags.AGN ||| Flags.SQN else Flags.AGN) ≠ _
    cases sqn <;> decide
  · obtain ⟨call, hcall, hcallOf⟩ := hw.receive_intact hcheck
    refine not_endsHandler_of_flags (wellFormed_createACK _) ?_
    intro hflags
    refine (hcallOf.flags hcall).2 ?_
    rw [hflags]
    decide

/-! ## What the server does with an ABR -/

/-- **An ABR of the owner**, or of anybody else while no session is open, leaves no session. -/
theorem vacant_of_abr (howner : ∀ c, currentClient = some c → c.address = u.address)
    (hturn : Turn crc opts fs ⟨u.address, (abrDatagram crc).wire, env⟩ currentClient out) :
    out.state.Vacant := by
  have habr := wellFormed_abrDatagram crc
  have hrecv : (receive (abrDatagram crc).wire).checkIntegrity crc = true ∧
      (receive (abrDatagram crc).wire).flags = Flags.ABR := by
    rw [habr.receive_wire]
    exact ⟨habr.checkIntegrity, rfl⟩
  have hSYN : (receive (abrDatagram crc).wire).flags ≠ Flags.SYN := by
    rw [hrecv.2]
    decide
  have hnot : ∀ c, ¬ Accepts crc c ⟨u.address, (abrDatagram crc).wire, env⟩ :=
    fun c haccept => haccept.2.2.1 hrecv.2
  intro c hc
  -- the turn is one for an ABR, which a session of its host does not outlive
  cases hturn with
  | abortIgnored _ _ hother =>
    cases hc
    exact hother c rfl (congrArg SockaddrIn.sinAddr (howner c rfl).symm)
  | again hcheck => exact absurd hcheck (by rw [hrecv.1]; decide)
  | opened _ h => exact hSYN h
  | busy _ h => exact hSYN h
  | refused _ _ h => exact h hrecv.2
  | duplicate _ _ h => exact h hrecv.2
  | written haccept => exact hnot _ haccept
  | ignored haccept => exact hnot _ haccept
  | nullDereference => cases hc
  | notOpened => cases hc
  | aborted => cases hc
  | abortFailed => cases hc
  | fin => cases hc
  | finFailed => cases hc
  | writeFailed => cases hc

/-- What is left of a channel after the interrupt does nothing to a server without a session. -/
theorem AbortOnly.turn_idle (hw : AbortOnly crc w)
    (hturn : Turn crc opts fs ⟨u.address, w, env⟩ none out) :
    out.state.Vacant ∧ out.state.fs = fs := by
  rcases hw with hw | rfl
  · cases hturn with
    | nullDereference => exact ⟨vacant_stopped, rfl⟩
    | opened hcheck => exact absurd hcheck (by rw [hw.2]; decide)
    | notOpened hcheck => exact absurd hcheck (by rw [hw.2]; decide)
    | abortIgnored => exact ⟨vacant_idle, rfl⟩
    | refused => exact ⟨vacant_idle, rfl⟩
  · have hnobody : ∀ c, (none : Option ClientData) = some c → c.address = u.address := nofun
    refine ⟨vacant_of_abr hnobody hturn, ?_⟩
    have habr := wellFormed_abrDatagram crc
    cases hturn with
    | nullDereference => rfl
    | notOpened _ hSYN =>
      rw [habr.receive_wire] at hSYN
      exact absurd hSYN (by decide : Flags.ABR ≠ Flags.SYN)
    | opened _ hSYN =>
      rw [habr.receive_wire] at hSYN
      exact absurd hSYN (by decide : Flags.ABR ≠ Flags.SYN)
    | abortIgnored => rfl
    | refused => rfl

/-- A damaged datagram opens no session. -/
theorem vacant_of_damaged (hw : Damaged crc w)
    (hturn : Turn crc opts fs ⟨u.address, w, env⟩ currentClient out)
    (hvacant : ∀ c, currentClient ≠ some c) : out.state.Vacant := by
  cases currentClient with
  | none => exact (AbortOnly.turn_idle (Or.inl hw) hturn).1
  | some c => exact absurd rfl (hvacant c)

/-! ## The end of the handler's loop -/

/-- The loop ends with an acknowledgement of the ABR only. -/
theorem ClientState.Move.endsHandler {s s' : ClientState} {event : ClientEvent}
    {sends : List (SockaddrIn × Bytes)} (h : Move crc u s event s' sends)
    (hs : InHand crc u s.pc) (hnew : s'.pc = .exited .abortAcknowledged) :
    ∃ sender w errnoAgain, event = .datagram sender w errnoAgain ∧ EndsHandler crc w := by
  have htimeout : ∀ (t : ClientState) (call : Call) (d : BftDatagram) (k : ℕ),
      (t.onTimeout u call d k).pc ≠ .exited .abortAcknowledged := by
    intro t call d k
    rcases onTimeout_cases u t call d k with ⟨k', h'⟩ | ⟨-, e, -, he, h'⟩ <;> rw [h']
    · nofun
    · exact fun h => he (PC.exited.inj h)
  cases h with
  | sigint => cases hnew
  | send => cases hnew
  | sendError => cases hnew
  | timeout => exact absurd hnew (htimeout _ _ _ _)
  | receiveError => cases hnew
  | @response call d k sender bytes errnoAgain hpc hbytes =>
    rw [hpc] at hs
    have hanswer := onResponse_cases crc { s with serverAddr := sender } call d
      (BftDatagram.receive bytes)
    generalize ClientState.onResponse crc _ _ _ _ = t at hanswer hnew
    cases hanswer with
    | again => cases hnew
    | busy => cases hnew
    | acknowledged hcall =>
      cases call with
      | abr => exact absurd rfl hcall
      | _ => cases hnew
    | abortAcknowledged hcall hcheck hack =>
      subst hcall
      obtain rfl : d = abrDatagram crc := hs
      exact ⟨sender, bytes, errnoAgain, rfl, hcheck, hack⟩
  | emptyAgain => exact absurd hnew (htimeout _ _ _ _)
  | emptyError => cases hnew
  | openFile => cases hnew
  | @read fault =>
    obtain ⟨call, d, -, hpc'⟩ := onRead_pc crc u s fault
    rw [hpc'] at hnew
    cases hnew

/-- A client that has ended takes no step. -/
theorem ClientState.Move.not_of_exited {s s' : ClientState} {event : ClientEvent}
    {sends : List (SockaddrIn × Bytes)} (h : Move crc u s event s' sends) (e : Exit) :
    s.pc ≠ .exited e := by
  intro hpc
  cases h with
  | sigint hint =>
    rw [hpc] at hint
    cases hint
  | send h' | sendError h' | timeout h' | receiveError h' | response h' | emptyAgain h'
  | emptyError h' | openFile h' | read h' =>
    rw [hpc] at h'
    cases h'

/-! ## Where acknowledgements come from -/

theorem Acknowledged.of_client {event : ClientEvent} {s : ClientState}
    {sends : List (SockaddrIn × Bytes)} (hinHand : InHand crc u (net.client ()).pc)
    (hevent : event.isDatagram = false) (hmove : Move crc u (net.client ()) event s sends)
    (h : Acknowledged crc (net.afterClient (fun _ => u) () s sends)) : Acknowledged crc net := by
  rcases h with hpc | h
  · rw [Net.client_afterClient, Net.update_unit] at hpc
    obtain ⟨sender, w, errnoAgain, rfl, -⟩ := hmove.endsHandler hinHand hpc
    cases hevent
  · exact Or.inr h

theorem Acknowledged.of_clientReceive {errnoAgain : Bool} {rest : List Bytes} {s : ClientState}
    (hinHand : InHand crc u (net.client ()).pc) (hchannel : net.toClient () = w :: rest)
    (hmove : Move crc u (net.client ()) (.datagram u.serverAddr w errnoAgain) s [])
    (h : Acknowledged crc
      ((net.setChannel () .toClient rest).afterClient (fun _ => u) () s [])) :
    Acknowledged crc net := by
  right
  rw [hchannel]
  rcases h with hpc | ⟨w', hw', hends⟩
  · -- the loop has ended, so the answer was the acknowledgement
    rw [Net.client_afterClient, Net.update_unit] at hpc
    obtain ⟨sender, w', errnoAgain, ⟨⟩, hends⟩ := hmove.endsHandler hinHand hpc
    exact ⟨w, List.mem_cons_self .., hends⟩
  · rw [Net.toClient_afterClient, Net.toClient_setChannel_toClient, Net.update_unit] at hw'
    exact ⟨w', List.mem_cons_of_mem _ hw', hends⟩

theorem not_endsHandler_of_damaged (hw : Damaged crc w) : ¬ EndsHandler crc w := by
  rintro ⟨hcheck, -⟩
  rw [hw.2] at hcheck
  cases hcheck

theorem Acknowledged.of_fault {direction : Direction} {f : Fault Bytes}
    (hf : f.Yields (Damaged crc))
    (h : Acknowledged crc (net.setChannel () direction (f.apply (net.channel () direction)))) :
    Acknowledged crc net := by
  cases direction with
  | toServer => exact h
  | toClient =>
    refine h.imp id ?_
    rintro ⟨w, hw, hends⟩
    rw [Net.toClient_setChannel_toClient, Net.update_unit] at hw
    by_contra hnone
    refine Fault.forall_mem_apply (P := fun w => ¬ EndsHandler crc w) ?_
      (fun w' hw' hends' => hnone ⟨w', hw', hends'⟩) w hw hends
    cases f with
    | damage n b => exact not_endsHandler_of_damaged hf
    | _ => trivial

/-! ## Runs -/

/-- The invariant of one client, whether it is interrupted or not, and its server. -/
structure AbortInv (crc : Bytes → UInt32) (u : Upload) (net : Net Unit) : Prop where
  inHand : InHand crc u (net.client ()).pc
  owner : ∀ c, net.server.status = .running (some c) → c.address = u.address
  /-- ABRs come last. -/
  toServer : Segmented (BeforeAbort crc u) (AbortOnly crc) (net.toServer ())
  /-- Before the interrupt there are no ABRs and no acknowledgements of them. -/
  before : ¬ Aborting (net.client ()).pc →
    (∀ w ∈ net.toServer (), BeforeAbort crc u w) ∧ ∀ w ∈ net.toClient (), ¬ EndsHandler crc w
  /-- Once an acknowledgement is under way, or has ended the loop, nothing else is left. -/
  after : Acknowledged crc net → net.server.Vacant ∧ ∀ w ∈ net.toServer (), AbortOnly crc w

theorem AbortInv.initial : AbortInv crc u (Net.initial (fun _ => u) crc fs₀) where
  inHand := rfl
  owner := nofun
  toServer := .nil
  before _ := ⟨nofun, nofun⟩
  after := by
    rintro (h | ⟨w, hw, -⟩)
    · cases h
    · cases hw

/-- A step of the client. -/
theorem AbortInv.client {event : ClientEvent} {s : ClientState}
    {sends : List (SockaddrIn × Bytes)} (h : AbortInv crc u net)
    (hevent : event.isDatagram = false) (hmove : Move crc u (net.client ()) event s sends) :
    AbortInv crc u (net.afterClient (fun _ => u) () s sends) := by
  obtain ⟨hinHand, howner, htoServer, hbefore, hafter⟩ := h
  have hsends := hmove.sends_ofCall hinHand
  set l := (sends.filter fun x => x.1 = u.serverAddr).map (·.2) with hl
  -- what is sent is an ABR or not, as the client has been interrupted or not
  have habr : Aborting (net.client ()).pc → ∀ w ∈ l, AbortOnly crc w := by
    intro haborting w hw
    obtain ⟨x, hx, rfl⟩ := List.mem_map.mp hw
    obtain ⟨call, d, hd, hwire, hcall⟩ := hsends x (List.mem_of_mem_filter hx)
    obtain rfl : call = .abr := hcall.mpr haborting
    obtain rfl : d = abrDatagram crc := hd
    exact Or.inr hwire
  have hnotAbr : ¬ Aborting (net.client ()).pc → ∀ w ∈ l, BeforeAbort crc u w := by
    intro hrunning w hw
    obtain ⟨x, hx, rfl⟩ := List.mem_map.mp hw
    obtain ⟨call, d, hd, hwire, hcall⟩ := hsends x (List.mem_of_mem_filter hx)
    exact Or.inr ⟨call, d, fun h => hrunning (hcall.mp h), hd, hwire⟩
  have hall : ∀ P : Bytes → Prop, (∀ w ∈ net.toServer (), P w) → (∀ w ∈ l, P w) →
      ∀ w ∈ net.toServer () ++ l, P w := by
    intro P h₁ h₂ w hw
    rcases List.mem_append.mp hw with h' | h'
    · exact h₁ w h'
    · exact h₂ w h'
  refine ⟨?_, howner, ?_, ?_, ?_⟩ <;>
    simp only [Net.client_afterClient, Net.toServer_afterClient, Net.toClient_afterClient,
      Net.server_afterClient, Net.update_unit, ← hl]
  · exact hmove.inHand hinHand
  · by_cases haborting : Aborting (net.client ()).pc
    · exact htoServer.append (habr haborting)
    · exact .of_forall_left (hall _ (hbefore haborting).1 (hnotAbr haborting))
  · intro hrunning
    have hrunning' : ¬ Aborting (net.client ()).pc := fun h' => hrunning (hmove.aborting h')
    exact ⟨hall _ (hbefore hrunning').1 (hnotAbr hrunning'), (hbefore hrunning').2⟩
  · intro hacknowledged
    have hold := hacknowledged.of_client hinHand hevent hmove
    obtain ⟨hvacant, honly⟩ := hafter hold
    have haborting : Aborting (net.client ()).pc := by
      rcases hold with hpc | ⟨w, hw, hends⟩
      · rw [hpc]
        trivial
      · by_contra hrunning
        exact (hbefore hrunning).2 w hw hends
    exact ⟨hvacant, hall _ honly (habr haborting)⟩

/-- An answer reaches the client. -/
theorem AbortInv.clientReceive {errnoAgain : Bool} {rest : List Bytes} {s : ClientState}
    (h : AbortInv crc u net) (hchannel : net.toClient () = w :: rest)
    (hmove : Move crc u (net.client ()) (.datagram u.serverAddr w errnoAgain) s []) :
    AbortInv crc u ((net.setChannel () .toClient rest).afterClient (fun _ => u) () s []) := by
  obtain ⟨hinHand, howner, htoServer, hbefore, hafter⟩ := h
  rw [hchannel] at hbefore
  refine ⟨?_, howner, ?_, ?_, ?_⟩ <;>
    simp only [Net.client_afterClient, Net.toServer_afterClient, Net.toClient_afterClient,
      Net.server_afterClient, Net.server_setChannel, Net.toServer_setChannel_toClient,
      Net.toClient_setChannel_toClient, Net.update_unit, List.filter_nil, List.map_nil,
      List.append_nil]
  · exact hmove.inHand hinHand
  · exact htoServer
  · intro hrunning
    obtain ⟨hearly, hno⟩ := hbefore fun h' => hrunning (hmove.aborting h')
    exact ⟨hearly, fun w' hw' => hno w' (List.mem_cons_of_mem _ hw')⟩
  · exact fun hacknowledged => hafter (hacknowledged.of_clientReceive hinHand hchannel hmove)

/-- The server takes a turn. -/
theorem AbortInv.serverReceive {rest : List Bytes} (h : AbortInv crc u net)
    (hstatus : net.server.status = .running currentClient)
    (hchannel : net.toServer () = w :: rest)
    (hturn : Turn crc opts net.server.fs ⟨u.address, w, env⟩ currentClient out) :
    AbortInv crc u ((net.setChannel () .toServer rest).afterServer (fun _ => u) out) := by
  obtain ⟨hinHand, howner, htoServer, hbefore, hafter⟩ := h
  have howner' : ∀ c, currentClient = some c → c.address = u.address := by
    intro c hc
    exact howner c (by rw [hstatus, hc])
  rw [hchannel] at htoServer hbefore hafter
  -- an answer that ends the loop and was not under way before answers an ABR
  have hquiet : BeforeAbort crc u w → ∀ w' ∈ net.toClient () ++
      (out.sends.filter fun x => x.1 = u.address).map (·.2.wire), EndsHandler crc w' →
      w' ∈ net.toClient () := by
    intro hw w' hw' hends
    rcases List.mem_append.mp hw' with h' | h'
    · exact h'
    · obtain ⟨x, hx, rfl⟩ := List.mem_map.mp h'
      exact absurd hends (hw.not_endsHandler hturn x (List.mem_of_mem_filter hx))
  refine ⟨?_, ?_, ?_, ?_, ?_⟩ <;>
    simp only [Net.client_afterServer, Net.client_setChannel, Net.server_afterServer,
      Net.toServer_afterServer, Net.toServer_setChannel_toServer, Net.toClient_afterServer,
      Net.toClient_setChannel_toServer, Net.update_unit]
  · exact hinHand
  · exact hturn.owner rfl howner'
  · exact htoServer.tail
  · intro hrunning
    obtain ⟨hearly, hno⟩ := hbefore hrunning
    have hw := hearly w (List.mem_cons_self ..)
    exact ⟨fun w' hw' => hearly w' (List.mem_cons_of_mem _ hw'),
      fun w' hw' hends => hno w' (hquiet hw w' hw' hends) hends⟩
  · intro hended
    by_cases hw : BeforeAbort crc u w
    · -- no acknowledgement is new, so nothing but ABRs was left, and this one is damaged
      obtain ⟨hvacant, honly⟩ := hafter (hended.imp_right fun ⟨w', hw', hends⟩ =>
        ⟨w', hquiet hw w' hw' hends, hends⟩)
      refine ⟨?_, fun w' hw' => honly w' (List.mem_cons_of_mem _ hw')⟩
      rcases honly w (List.mem_cons_self ..) with hdamaged | rfl
      · refine vacant_of_damaged hdamaged hturn fun c hc => hvacant c ?_
        rw [hstatus, hc]
      · exact absurd hw not_beforeAbort_abr
    · -- the first ABR: order is kept, so only ABRs follow
      have honly := htoServer.forall_of_head hw
      refine ⟨?_, fun w' hw' => honly w' (List.mem_cons_of_mem _ hw')⟩
      rcases honly w (List.mem_cons_self ..) with hdamaged | rfl
      · exact absurd (Or.inl hdamaged) hw
      · exact vacant_of_abr howner' hturn

/-- A fault of a channel. -/
theorem AbortInv.fault {direction : Direction} {f : Fault Bytes} (h : AbortInv crc u net)
    (hf : f.Yields (Damaged crc)) :
    AbortInv crc u (net.setChannel () direction (f.apply (net.channel () direction))) := by
  obtain ⟨hinHand, howner, htoServer, hbefore, hafter⟩ := h
  have hyields : ∀ P : Bytes → Prop, (∀ w, Damaged crc w → P w) → f.Yields P := by
    intro P hP
    cases f with
    | damage n b => exact hP b hf
    | _ => trivial
  have hearly := hyields (BeforeAbort crc u) fun w hw => Or.inl hw
  have honly := hyields (AbortOnly crc) fun w hw => Or.inl hw
  have hno := hyields (fun w => ¬ EndsHandler crc w) fun w hw => not_endsHandler_of_damaged hw
  cases direction with
  | toServer =>
    refine ⟨hinHand, howner, ?_, ?_, ?_⟩ <;>
      simp only [Net.client_setChannel, Net.server_setChannel, Net.toServer_setChannel_toServer,
        Net.toClient_setChannel_toServer, Net.channel, Net.update_unit]
    · exact htoServer.fault hearly honly
    · exact fun hrunning => ⟨Fault.forall_mem_apply hearly (hbefore hrunning).1,
        (hbefore hrunning).2⟩
    · intro hacknowledged
      obtain ⟨hvacant, hleft⟩ := hafter (hacknowledged.of_fault hf)
      exact ⟨hvacant, Fault.forall_mem_apply honly hleft⟩
  | toClient =>
    refine ⟨hinHand, howner, htoServer, ?_, ?_⟩ <;>
      simp only [Net.client_setChannel, Net.server_setChannel, Net.toServer_setChannel_toClient,
        Net.toClient_setChannel_toClient, Net.channel, Net.update_unit]
    · exact fun hrunning => ⟨(hbefore hrunning).1, Fault.forall_mem_apply hno (hbefore hrunning).2⟩
    · exact fun hacknowledged => hafter (hacknowledged.of_fault hf)

/-- **Every step keeps the invariant.** -/
theorem AbortInv.step (h : AbortInv crc u net)
    (hstep : netStep crc opts (fun _ => u) net action = some net') : AbortInv crc u net' := by
  cases netStep_cases hstep with
  | client hevent hmove => exact h.client hevent hmove
  | clientReceive hchannel hmove => exact h.clientReceive hchannel hmove
  | serverReceive hstatus hchannel => exact h.serverReceive hstatus hchannel (turn_cases ..)
  | fault hf => exact h.fault hf

/-- After the end of the handler's loop nothing happens to the server's sessions and files. -/
theorem AbortInv.step_after (h : AbortInv crc u net)
    (hpc : (net.client ()).pc = .exited .abortAcknowledged)
    (hstep : netStep crc opts (fun _ => u) net action = some net') :
    (net'.client ()).pc = .exited .abortAcknowledged ∧ net'.server.fs = net.server.fs := by
  cases netStep_cases hstep with
  | client hevent hmove => exact absurd hpc (hmove.not_of_exited _)
  | clientReceive hchannel hmove => exact absurd hpc (hmove.not_of_exited _)
  | @serverReceive i env currentClient w rest hstatus hchannel =>
    refine ⟨hpc, ?_⟩
    obtain ⟨hvacant, honly⟩ := h.after (Or.inl hpc)
    have hw : AbortOnly crc w := by
      refine honly w ?_
      rw [hchannel]
      exact List.mem_cons_self ..
    cases currentClient with
    | none => exact (hw.turn_idle (turn_cases crc opts net.server.fs none ⟨u.address, w, env⟩)).2
    | some c => exact absurd hstatus (hvacant c)
  | fault hf =>
    rw [Net.client_setChannel, Net.server_setChannel]
    exact ⟨hpc, rfl⟩

end

end Rechnernetze.Bft
