import Rechnernetze.Bft.CutTurn

/-!
# Interrupts of the server and of its clients

Whoever is interrupted, and wherever it is in its code: an upload that a client takes for finished
is stored, and stays so (`finished_upload_stays_stored`). A session that is open when the server
ends is never taken for a finished upload (`interrupted_session_never_finishes`).

`InterruptInv` is the invariant: a client is somewhere in its transfer or has given it up
(`ClientSide`), and the server is somewhere in the transfer too, or has ended and left its file
complete or its FIN unacknowledged (`ServerSide`).
-/

namespace Rechnernetze.Bft

open Lib BftDatagram ClientState

section
variable {crc : Bytes → UInt32} {opts : ServerOptions} {fs₀ : FileSystem} {u : Upload} {w : Bytes}
  {p r : ℕ} {fwd bwd : List Bytes} {a : SockaddrIn}

/-! ## The client -/

/-- The client is somewhere in its transfer, where `P r` holds of the number `r` of datagrams the
server has accepted, or it has been interrupted or has ended. -/
inductive ClientSide (crc : Bytes → UInt32) (u : Upload) (P : ℕ → Prop) (client : ClientState)
    (fwd bwd : List Bytes) : Prop
  | transferring {p r : ℕ} (hlink : Link crc u p r fwd bwd) (hclient : ClientAt crc u client p)
      (hserver : P r) : ClientSide crc u P client fwd bwd
  | givenUp (haborting : Aborting client.pc) (hinHand : InHand crc u client.pc)
      (hown : ∀ w ∈ fwd, Own crc u w) : ClientSide crc u P client fwd bwd

variable {P Q : ℕ → Prop} {client client' : ClientState} {event : ClientEvent}
  {sends : List (SockaddrIn × Bytes)} {sender : SockaddrIn} {errnoAgain : Bool}

theorem Link.own (h : Link crc u p r fwd bwd) : ∀ w ∈ fwd, Own crc u w := by
  intro w hw
  rcases h.forall_fwd w hw with h' | h'
  · exact Or.inl h'
  · exact Or.inr (Or.inr h')

theorem ClientSide.own (h : ClientSide crc u P client fwd bwd) : ∀ w ∈ fwd, Own crc u w := by
  cases h with
  | transferring hlink => exact Link.own hlink
  | givenUp _ _ hown => exact hown

theorem ClientSide.mono (h : ClientSide crc u P client fwd bwd) (hPQ : ∀ r, P r → Q r) :
    ClientSide crc u Q client fwd bwd := by
  cases h with
  | transferring hlink hclient hserver => exact .transferring hlink hclient (hPQ _ hserver)
  | givenUp haborting hinHand hown => exact .givenUp haborting hinHand hown

/-- A client that has given up sends ABRs. -/
theorem sends_aborting (hmove : Move crc u client event client' sends)
    (haborting : Aborting client.pc) (hinHand : InHand crc u client.pc) :
    ∀ w ∈ (sends.filter fun x => x.1 = a).map (·.2), w = (abrDatagram crc).wire := by
  intro w hw
  obtain ⟨x, hx, rfl⟩ := List.mem_map.mp hw
  obtain ⟨call, d, hd, hwire, hcall⟩ := hmove.sends_ofCall hinHand x (List.mem_of_mem_filter hx)
  obtain rfl : call = .abr := hcall.mpr haborting
  obtain rfl : d = abrDatagram crc := hd
  exact hwire

/-- **A step of the client**, or an interrupt of it. -/
theorem ClientSide.move (h : ClientSide crc u P client fwd bwd)
    (hmove : Move crc u client event client' sends)
    (hevent : event = .sigint ∨ event.Undisturbed) (hdatagram : event.isDatagram = false) :
    ClientSide crc u P client' (fwd ++ (sends.filter fun x => x.1 = a).map (·.2)) bwd := by
  cases h with
  | transferring hlink hclient hserver =>
    rcases hevent with rfl | hevent
    · cases hmove
      refine .givenUp rfl rfl ?_
      rw [List.filter_nil, List.map_nil, List.append_nil]
      exact Link.own hlink
    · obtain ⟨hclient', hlink'⟩ := hclient.move hlink hmove hevent hdatagram
      exact .transferring hlink' hclient' hserver
  | givenUp haborting hinHand hown =>
    refine .givenUp (hmove.aborting haborting) (hmove.inHand hinHand) fun w hw => ?_
    rcases List.mem_append.mp hw with h' | h'
    · exact hown w h'
    · exact Or.inr (Or.inl (sends_aborting hmove haborting hinHand w h'))

/-- The client receives an answer. -/
theorem ClientSide.receive (h : ClientSide crc u P client fwd (w :: bwd))
    (hmove : Move crc u client (.datagram sender w errnoAgain) client' []) :
    ClientSide crc u P client' fwd bwd := by
  cases h with
  | transferring hlink hclient hserver =>
    obtain ⟨p', hclient', hlink'⟩ := hclient.receive hlink hmove
    exact .transferring hlink' hclient' hserver
  | givenUp haborting hinHand hown =>
    exact .givenUp (hmove.aborting haborting) (hmove.inHand hinHand) hown

theorem ClientSide.fault_fwd {f : Fault Bytes} (h : ClientSide crc u P client fwd bwd)
    (hf : f.Yields (Damaged crc)) : ClientSide crc u P client (f.apply fwd) bwd := by
  cases h with
  | transferring hlink hclient hserver => exact .transferring (hlink.fault_fwd hf) hclient hserver
  | givenUp haborting hinHand hown =>
    refine .givenUp haborting hinHand (Fault.forall_mem_apply ?_ hown)
    cases f with
    | damage i b => exact Or.inl hf
    | _ => trivial

theorem ClientSide.fault_bwd {f : Fault Bytes} (h : ClientSide crc u P client fwd bwd)
    (hf : f.Yields (Damaged crc)) : ClientSide crc u P client fwd (f.apply bwd) := by
  cases h with
  | transferring hlink hclient hserver =>
    refine .transferring (hlink.fault_bwd ?_) hclient hserver
    cases f with
    | damage i b => exact Or.inl hf
    | _ => trivial
  | givenUp haborting hinHand hown => exact .givenUp haborting hinHand hown

/-- What `signalHandler` of the server sends is a refusal. -/
theorem Link.notified (h : Link crc u p r fwd bwd) (currentClient : Option ClientData)
    (a : SockaddrIn) : Link crc u p r fwd
      (bwd ++ ((notifyClient crc currentClient).filter fun x => x.1 = a).map (·.2.wire)) := by
  have hsilent : Link crc u p r fwd (bwd ++ []) := by rwa [List.append_nil]
  cases currentClient with
  | none => exact hsilent
  | some c =>
    by_cases hc : c.address = a
    · rw [notifyClient, List.filter_cons_of_pos (by simpa using hc)]
      exact h.reply_nack refusal_ABR
    · rw [notifyClient, List.filter_cons_of_neg (by simpa using hc)]
      exact hsilent

theorem ClientSide.notified (h : ClientSide crc u P client fwd bwd)
    (currentClient : Option ClientData) (a : SockaddrIn) : ClientSide crc u P client fwd
      (bwd ++ ((notifyClient crc currentClient).filter fun x => x.1 = a).map (·.2.wire)) := by
  cases h with
  | transferring hlink hclient hserver =>
    exact .transferring (Link.notified hlink currentClient a) hclient hserver
  | givenUp haborting hinHand hown => exact .givenUp haborting hinHand hown

/-- The datagram opens no session. -/
def OpensNothing (crc : Bytes → UInt32) (w : Bytes) : Prop :=
  (receive w).checkIntegrity crc = true → (receive w).flags ≠ Flags.SYN

theorem opensNothing_of_damaged (hw : Damaged crc w) : OpensNothing crc w := by
  intro hcheck
  rw [hw.2] at hcheck
  cases hcheck

theorem opensNothing_abr : OpensNothing crc (abrDatagram crc).wire := by
  intro _
  rw [(wellFormed_abrDatagram crc).receive_wire]
  exact (by decide : Flags.ABR ≠ Flags.SYN)

/-- **A client that has finished** has its FIN accepted, and its SYN is no longer under way. -/
theorem ClientSide.finished (h : ClientSide crc u P client fwd bwd) (hpc : client.pc = .finished) :
    (∃ r, P r ∧ ¬ u.Unfinished r) ∧ ∀ w ∈ fwd, OpensNothing crc w := by
  cases h with
  | givenUp haborting =>
    rw [hpc] at haborting
    exact haborting.elim
  | @transferring p r hlink hclient hserver =>
    obtain ⟨k, rfl, hle⟩ : ∃ k, p = k + 2 ∧ u.source.length ≤ maxPayloadSize * k := by
      cases hclient with
      | repeating hpc' => obtain ⟨n, h' | h'⟩ := hpc' <;> rw [h'] at hpc <;> cases hpc
      | opening hpc' => rw [hpc'] at hpc; cases hpc
      | reading hpc' => rw [hpc'] at hpc; cases hpc
      | @finished k _ hle => exact ⟨k, rfl, hle⟩
      | exited hpc' => rw [hpc'] at hpc; cases hpc
    -- the server has accepted `r ≥ k + 2` datagrams, and `k` of data are all there are
    refine ⟨⟨r, hserver, fun hopen => ?_⟩, fun w hw => ?_⟩
    · have hr : k + 2 ≤ r := hlink.le_and_le.1
      have hlt := hopen (r - 2) (by omega)
      have hmono : maxPayloadSize * k ≤ maxPayloadSize * (r - 2) :=
        Nat.mul_le_mul_left _ (by omega)
      omega
    · have hregular : ∀ k, OpensNothing crc (u.datagram crc (k + 1)).wire := by
        intro k _
        rw [(Upload.wellFormed_datagram crc u (k + 1)).receive_wire]
        exact (Upload.flags_datagram_succ crc u k).1
      -- what is under way is damaged, or one of the last two datagrams
      rcases hlink.recent_fwd w hw with h' | ⟨k', hk', rfl⟩ | rfl
      · exact opensNothing_of_damaged h'
      · obtain rfl : k' = k + 1 := by omega
        exact hregular k
      · exact hregular (k + 1)

end

/-! ## The network -/

section
variable {ι : Type} [DecidableEq ι] {crc : Bytes → UInt32} {opts : ServerOptions}
  {fs₀ : FileSystem} {up : ι → Upload} {s s' : InterruptibleNet ι} {net net' : Net ι}
  {action : Action ι} {i : ι} {cut : Cut}

/-- The steps of the network with interrupts. -/
inductive InterruptMove (crc : Bytes → UInt32) (opts : ServerOptions) (up : ι → Upload)
    (s : InterruptibleNet ι) : InterruptibleAction ι → InterruptibleNet ι → Prop
  | net {action : Action ι} {net' : Net ι}
      (hserver : s.terminated = true → action.ofServer = false)
      (hmove : NetMove crc opts up s.net action net') :
      InterruptMove crc opts up s (.net action) ⟨net', s.terminated⟩
  | terminate {currentClient : Option ClientData} (hlive : s.terminated = false)
      (hstatus : s.net.server.status = .running currentClient) :
      InterruptMove crc opts up s .terminate
        (.ended crc up s.net ⟨[], s.net.server.fs, currentClient⟩)
  | terminateDuring {i : ι} {env : Env} {moment : Moment} {currentClient : Option ClientData}
      {w : Bytes} {rest : List Bytes} {cut : Cut} (hlive : s.terminated = false)
      (hstatus : s.net.server.status = .running currentClient)
      (hchannel : s.net.toServer i = w :: rest)
      (hcut : CutOff crc opts s.net.server.fs currentClient ⟨(up i).address, w, env⟩ cut) :
      InterruptMove crc opts up s (.terminateDuring i env moment)
        (.ended crc up (s.net.setChannel i .toServer rest) cut)

/-- **Inversion of a step.** -/
theorem interruptStep_cases {action : InterruptibleAction ι}
    (h : interruptStep crc opts up s action = some s') :
    InterruptMove crc opts up s action s' := by
  unfold interruptStep at h
  cases action with
  | net action =>
    dsimp only at h
    split at h
    · cases h
    · rename_i hserver
      obtain ⟨net', hstep, rfl⟩ := Option.map_eq_some_iff.mp h
      refine .net (fun hterminated => ?_) (netStep_cases hstep)
      by_contra hof
      exact hserver ⟨hterminated, (Bool.not_eq_false _).mp hof⟩
  | terminate =>
    dsimp only at h
    split at h
    · rename_i hlive hstatus
      cases h
      exact .terminate hlive hstatus
    · cases h
  | terminateDuring i env moment =>
    dsimp only at h
    split at h
    · rename_i hlive hstatus hchannel
      obtain ⟨cut, hcut, rfl⟩ := Option.map_eq_some_iff.mp h
      exact .terminateDuring hlive hstatus hchannel (cutTurn_cases hcut)
    · cases h

/-- **A step that is not the server's** keeps every client in its transfer, or makes it give up. -/
theorem clientSide_step {P : ι → ℕ → Prop}
    (h : ∀ j, ClientSide crc (up j) (P j) (net.client j) (net.toServer j) (net.toClient j))
    (hmove : NetMove crc opts up net action net')
    (hwork : (InterruptibleAction.net action).FilesWork) (hserver : action.ofServer = false) :
    net'.server = net.server ∧
      ∀ j, ClientSide crc (up j) (P j) (net'.client j) (net'.toServer j) (net'.toClient j) := by
  cases hmove with
  | @client i event s sends hevent hmove =>
    refine ⟨rfl, fun j => ?_⟩
    have hj := h j
    by_cases hji : j = i
    · subst hji
      have hj' := hj.move (a := (up j).serverAddr) hmove hwork hevent
      simpa using hj'
    · simpa [Function.update_of_ne hji] using hj
  | @clientReceive i errnoAgain w rest s hchannel hmove =>
    refine ⟨by simp, fun j => ?_⟩
    have hj := h j
    by_cases hji : j = i
    · subst hji
      rw [hchannel] at hj
      have hj' := hj.receive hmove
      simpa using hj'
    · simpa [Function.update_of_ne hji] using hj
  | serverReceive => cases hserver
  | @fault i direction f hf =>
    refine ⟨by simp, fun j => ?_⟩
    have hj := h j
    by_cases hji : j = i
    · subst hji
      cases direction with
      | toServer => simpa [Net.channel] using hj.fault_fwd hf
      | toClient => simpa [Net.channel] using hj.fault_bwd hf
    · cases direction <;> simpa [Function.update_of_ne hji] using hj

/-- The server's part of a transfer. As long as it lives it is somewhere in it; ended, it has left
the complete file if it has accepted the FIN. -/
inductive ServerSide (opts : ServerOptions) (fs₀ : FileSystem) (u : Upload)
    (server : ServerState) : Bool → ℕ → Prop
  | living {r : ℕ} (hserver : ServerAt True opts fs₀ u server r) :
      ServerSide opts fs₀ u server false r
  | ended {r : ℕ} (hleft : ¬ u.Unfinished r → Stored opts fs₀ u server.fs) :
      ServerSide opts fs₀ u server true r

/-- The invariant of the network with interrupts. -/
structure InterruptInv (crc : Bytes → UInt32) (opts : ServerOptions) (fs₀ : FileSystem)
    (up : ι → Upload) (s : InterruptibleNet ι) : Prop where
  dirsLE : FileSystem.DirsLE s.net.server.fs fs₀
  session : s.terminated = false → ∀ c, s.net.server.status = .running (some c) →
    ∃ i, Belongs opts fs₀ (up i) c
  client : ∀ i, ClientSide crc (up i) (ServerSide opts fs₀ (up i) s.net.server s.terminated)
    (s.net.client i) (s.net.toServer i) (s.net.toClient i)

omit [DecidableEq ι] in
theorem InterruptInv.initial :
    InterruptInv crc opts fs₀ up ⟨Net.initial up crc fs₀, false⟩ where
  dirsLE := .refl fs₀
  session := nofun
  client _ := .transferring LinkInv.init (.repeating ⟨0, Or.inl rfl⟩ .syn rfl)
    (.living (.waiting (not_heldBy_of_none rfl)))

omit [DecidableEq ι] in
/-- The host of a client tells whose session it is. -/
theorem InterruptInv.belongs (hdistinct : Distinct up) (h : InterruptInv crc opts fs₀ up s)
    (hlive : s.terminated = false) {currentClient : Option ClientData}
    (hstatus : s.net.server.status = .running currentClient) (i : ι) :
    ∀ c, currentClient = some c → (up i).address.sinAddr = c.address.sinAddr →
      Belongs opts fs₀ (up i) c := by
  rintro c rfl hip
  obtain ⟨j, hj⟩ := h.session hlive c hstatus
  rw [hj.address] at hip
  rw [hdistinct.address i j hip]
  exact hj

/-- A turn of the server. -/
theorem InterruptInv.serverReceive (hdistinct : Distinct up) {env : Env} {w : Bytes}
    {rest : List Bytes} {currentClient : Option ClientData}
    (h : InterruptInv crc opts fs₀ up ⟨net, false⟩)
    (hstatus : net.server.status = .running currentClient)
    (hchannel : net.toServer i = w :: rest) (henv : env.writeLimit = none) :
    InterruptInv crc opts fs₀ up ⟨(net.setChannel i .toServer rest).afterServer up
      (iteration crc opts net.server.fs currentClient ⟨(up i).address, w, env⟩), false⟩ := by
  have hbelongs := h.belongs hdistinct rfl hstatus i
  obtain ⟨hdirs, hsession, hclient⟩ := h
  obtain ⟨⟨fs, status⟩, client, toServer, toClient⟩ := net
  obtain rfl : status = .running currentClient := hstatus
  dsimp only at hdirs hsession hclient hchannel ⊢
  have hown : Own crc (up i) w :=
    (hclient i).own w (by rw [hchannel]; exact List.mem_cons_self ..)
  have honly := own_turn env hown hdirs hbelongs
  refine ⟨honly.dirsLE.trans hdirs, fun _ c' hc' => ?_, fun j => ?_⟩
  · rcases iteration_session hc' with ⟨c, hc, hsame⟩ | ⟨-, hcheck, hSYN, haddress, hpath, hloc⟩
    · obtain ⟨j, hj⟩ := hsession rfl c (by rw [hc])
      exact ⟨j, hj.sameFile hsame⟩
    · -- a new session is that of the client whose SYN has opened it
      have hname := hown.filename hcheck hSYN
      dsimp only at hpath
      rw [hname] at hpath
      exact ⟨i, haddress, hpath, hpath ▸ FileSystem.resolve_mono hdirs hloc⟩
  · simp only [Net.client_afterServer, Net.client_setChannel, Net.toServer_afterServer,
      Net.toServer_setChannel_toServer, Net.toClient_afterServer,
      Net.toClient_setChannel_toServer, Net.server_afterServer]
    by_cases hji : j = i
    · subst hji
      rw [Function.update_self]
      have hj := hclient j
      rw [hchannel] at hj
      cases hj with
      | transferring hlink hclient hserver =>
        cases hserver with
        | living hserver =>
          obtain ⟨r', replies, hsends, hlink', hserver', -⟩ := hserver.turn hlink hdirs
            (fun c hc hip => (hbelongs c hc hip.symm).address) henv fun _ _ _ => trivial
          refine .transferring (r := r') ?_ hclient (.living hserver')
          rw [hsends, filter_replies hdistinct, if_pos rfl]
          exact hlink'
      | givenUp haborting hinHand hown =>
        exact .givenUp haborting hinHand fun w' hw' => hown w' (List.mem_cons_of_mem _ hw')
    · -- a turn for another client touches neither the channels nor the file of this one
      obtain ⟨replies, hsends⟩ := own_replies crc opts fs w env
        fun c hc hip => (hbelongs c hc hip).address
      rw [Function.update_of_ne hji, hsends, filter_replies hdistinct, if_neg hji,
        List.append_nil]
      refine (hclient j).mono fun r hr => ?_
      cases hr with
      | living hserver =>
        refine .living (hserver.frame rfl honly ?_ ?_)
        · exact fun heq => hji (hdistinct.address j i (congrArg SockaddrIn.sinAddr heq))
        · intro l hl
          exact storage_location_ne (fun heq => hji (hdistinct.filename j i heq.symm)) hl

omit [DecidableEq ι] in
/-- The server has ended. -/
theorem InterruptInv.ended (hdirs : FileSystem.DirsLE cut.fs fs₀)
    (hclient : ∀ j, ClientSide crc (up j)
      (fun r => ¬ (up j).Unfinished r → Stored opts fs₀ (up j) cut.fs) (net.client j)
      (net.toServer j)
      (net.toClient j ++ (cut.sends.filter fun x => x.1 = (up j).address).map (·.2.wire))) :
    InterruptInv crc opts fs₀ up (.ended crc up net cut) := by
  refine ⟨hdirs, nofun, fun j => ?_⟩
  have htoClient : (InterruptibleNet.ended crc up net cut).net.toClient j
      = net.toClient j ++ (cut.sends.filter fun x => x.1 = (up j).address).map (·.2.wire) ++
        ((notifyClient crc cut.currentClient).filter fun x => x.1 = (up j).address).map
          (·.2.wire) := by
    show net.toClient j ++ ((cut.sends ++ notifyClient crc cut.currentClient).filter _).map _ = _
    rw [List.filter_append, List.map_append, List.append_assoc]
  rw [htoClient]
  exact ((hclient j).mono fun r hleft => .ended hleft).notified _ _

omit [DecidableEq ι] in
/-- The signal strikes between two turns. -/
theorem InterruptInv.terminate (h : InterruptInv crc opts fs₀ up ⟨net, false⟩)
    (currentClient : Option ClientData) :
    InterruptInv crc opts fs₀ up (.ended crc up net ⟨[], net.server.fs, currentClient⟩) := by
  refine .ended h.dirsLE fun j => ?_
  rw [List.filter_nil, List.map_nil, List.append_nil]
  refine (h.client j).mono fun r hr => ?_
  cases hr with
  | living hserver => exact hserver.leftBy

/-- It strikes in a turn. -/
theorem InterruptInv.terminateDuring (hdistinct : Distinct up) {env : Env} {w : Bytes}
    {rest : List Bytes} {currentClient : Option ClientData}
    (h : InterruptInv crc opts fs₀ up ⟨net, false⟩)
    (hstatus : net.server.status = .running currentClient)
    (hchannel : net.toServer i = w :: rest) (henv : env.writeLimit = none)
    (hcut : CutOff crc opts net.server.fs currentClient ⟨(up i).address, w, env⟩ cut) :
    InterruptInv crc opts fs₀ up (.ended crc up (net.setChannel i .toServer rest) cut) := by
  have hbelongs := h.belongs hdistinct rfl hstatus i
  obtain ⟨hdirs, -, hclient⟩ := h
  obtain ⟨⟨fs, status⟩, client, toServer, toClient⟩ := net
  obtain rfl : status = .running currentClient := hstatus
  dsimp only at hdirs hclient hchannel hcut ⊢
  have hown : Own crc (up i) w :=
    (hclient i).own w (by rw [hchannel]; exact List.mem_cons_self ..)
  have hframe : ∀ l, fs₀.resolve (storagePath opts (up i).filename) ≠ .ok l →
      FileSystem.DirsLE cut.fs fs ∧ cut.fs.node l = fs.node l :=
    fun l hl => hcut.frame hdirs (hown.not_names hl)
      fun c hc hip => (hbelongs c hc hip).elsewhere hl
  obtain ⟨l, hl⟩ := exists_other_location fs₀ (storagePath opts (up i).filename)
  refine .ended ((hframe l hl).1.trans hdirs) fun j => ?_
  simp only [Net.client_setChannel, Net.toServer_setChannel_toServer,
    Net.toClient_setChannel_toServer]
  by_cases hji : j = i
  · subst hji
    rw [Function.update_self]
    have hj := hclient j
    rw [hchannel] at hj
    cases hj with
    | transferring hlink hclient hserver =>
      cases hserver with
      | living hserver =>
        obtain ⟨r', replies, hsends, hlink', hleft⟩ := hserver.cutOff hlink hdirs
          (fun c hc hip => (hbelongs c hc hip).address) henv hcut
        refine .transferring (r := r') ?_ hclient hleft
        rw [hsends, filter_replies hdistinct, if_pos rfl]
        exact hlink'
    | givenUp haborting hinHand hown =>
      exact .givenUp haborting hinHand fun w' hw' => hown w' (List.mem_cons_of_mem _ hw')
  · -- the answers of the turn go to client `i`
    have hsilent : (cut.sends.filter fun x => x.1 = (up j).address).map (·.2.wire) = [] := by
      rcases hcut.sends with hsends | hsends
      · rw [hsends]
        rfl
      · obtain ⟨replies, hreplies⟩ := own_replies crc opts fs w env
          fun c hc hip => (hbelongs c hc hip).address
        rw [hsends, hreplies, filter_replies hdistinct, if_neg hji]
    rw [Function.update_of_ne hji, hsilent, List.append_nil]
    refine (hclient j).mono fun r hr => ?_
    cases hr with
    | living hserver =>
      intro hfin
      obtain ⟨l, hloc, hnode⟩ := hserver.leftBy hfin
      have hother := storage_location_ne (fun heq => hji (hdistinct.filename j i heq.symm)) hloc
      exact ⟨l, hloc, (hframe l hother).2.trans hnode⟩

/-- **Every step keeps the invariant**, whoever is interrupted. -/
theorem InterruptInv.step (hdistinct : Distinct up) (h : InterruptInv crc opts fs₀ up s)
    {action : InterruptibleAction ι} (hwork : action.FilesWork)
    (hstep : interruptStep crc opts up s action = some s') :
    InterruptInv crc opts fs₀ up s' := by
  obtain ⟨net, terminated⟩ := s
  cases interruptStep_cases hstep with
  | @net action net' hserver hmove =>
    cases hof : action.ofServer with
    | false =>
      obtain ⟨heq, hclient⟩ := clientSide_step h.client hmove hwork hof
      refine ⟨?_, fun hlive c hc => ?_, fun j => ?_⟩ <;> dsimp only at * <;> rw [heq] at *
      · exact h.dirsLE
      · exact h.session hlive c hc
      · exact hclient j
    | true =>
      cases hmove with
      | serverReceive hstatus hchannel =>
        obtain rfl : terminated = false := by
          by_contra hterminated
          rw [hserver ((Bool.not_eq_false _).mp hterminated)] at hof
          cases hof
        exact h.serverReceive hdistinct hstatus hchannel hwork
      | _ => cases hof
  | terminate hlive hstatus =>
    obtain rfl : terminated = false := hlive
    exact h.terminate _
  | terminateDuring hlive hstatus hchannel hcut =>
    obtain rfl : terminated = false := hlive
    exact h.terminateDuring hdistinct hstatus hchannel hwork hcut

/-! ## A finished upload -/

/-- The upload of client `i` is stored at `l`, and nothing under way or to come concerns it. -/
structure Kept (crc : Bytes → UInt32) (up : ι → Upload) (i : ι) (l : Location)
    (s : InterruptibleNet ι) : Prop where
  node : s.net.server.fs.node l = some (.regular (up i).source)
  free : s.terminated = false → ¬ s.net.server.HeldBy (up i).address
  toServer : ∀ w ∈ s.net.toServer i, OpensNothing crc w
  client : (s.net.client i).pc = .finished ∨ Aborting (s.net.client i).pc
  inHand : InHand crc (up i) (s.net.client i).pc

omit [DecidableEq ι] in
theorem InterruptInv.kept (h : InterruptInv crc opts fs₀ up s)
    (hpc : (s.net.client i).pc = .finished) :
    ∃ l, fs₀.resolve (storagePath opts (up i).filename) = .ok l ∧ Kept crc up i l s := by
  obtain ⟨⟨r, hserver, hfin⟩, htoServer⟩ := (h.client i).finished hpc
  obtain ⟨⟨l, hloc, hnode⟩, hfree⟩ : Stored opts fs₀ (up i) s.net.server.fs ∧
      (s.terminated = false → ¬ s.net.server.HeldBy (up i).address) := by
    generalize s.terminated = terminated at hserver
    cases hserver with
    | living hserver =>
      exact ⟨hserver.leftBy hfin, fun _ hheld => hfin (hserver.unfinished hheld)⟩
    | ended hleft => exact ⟨hleft hfin, nofun⟩
  refine ⟨l, hloc, hnode, hfree, htoServer, Or.inl hpc, ?_⟩
  rw [hpc]
  trivial

omit [DecidableEq ι] in
/-- What the finished client sends, if it is interrupted, and what it receives changes nothing. -/
theorem Kept.move {l : Location} {event : ClientEvent} {client' : ClientState}
    {sends : List (SockaddrIn × Bytes)} {a : SockaddrIn} (h : Kept crc up i l s)
    (hmove : Move crc (up i) (s.net.client i) event client' sends) :
    Aborting client'.pc ∧ InHand crc (up i) client'.pc ∧
      ∀ w ∈ (sends.filter fun x => x.1 = a).map (·.2), OpensNothing crc w := by
  rcases h.client with hpc | haborting
  · cases hmove with
    | sigint => exact ⟨rfl, rfl, nofun⟩
    | send h' | sendError h' | timeout h' | receiveError h' | response h' | emptyAgain h'
    | emptyError h' | openFile h' | read h' =>
      rw [hpc] at h'
      cases h'
  · refine ⟨hmove.aborting haborting, hmove.inHand h.inHand, fun w hw => ?_⟩
    rw [sends_aborting hmove haborting h.inHand w hw]
    exact opensNothing_abr

/-- A turn of the server, whole or cut off, does not concern the file. -/
theorem Kept.elsewhere (hdistinct : Distinct up) {l : Location} {j : ι} {w : Bytes} (env : Env)
    {rest : List Bytes} {currentClient : Option ClientData} (hinv : InterruptInv crc opts fs₀ up s)
    (h : Kept crc up i l s) (hloc : fs₀.resolve (storagePath opts (up i).filename) = .ok l)
    (hlive : s.terminated = false) (hstatus : s.net.server.status = .running currentClient)
    (hchannel : s.net.toServer j = w :: rest) :
    ¬ Names crc opts fs₀ l ⟨(up j).address, w, env⟩ ∧
      ∀ c, currentClient = some c → (up j).address.sinAddr = c.address.sinAddr →
        Elsewhere fs₀ l c := by
  have hw : w ∈ s.net.toServer j := by
    rw [hchannel]
    exact List.mem_cons_self ..
  by_cases hji : j = i
  · subst hji
    -- nothing of this client opens a session, and it holds none
    refine ⟨fun hnames => h.toServer w hw hnames.1 hnames.2.1, ?_⟩
    rintro c rfl hip
    exact absurd ⟨c, hstatus, (hinv.belongs hdistinct hlive hstatus j c rfl hip).address⟩
      (h.free hlive)
  · have hother := storage_location_ne (fun heq => hji (hdistinct.filename j i heq)) hloc
    exact ⟨((hinv.client j).own w hw).not_names hother,
      fun c hc hip => (hinv.belongs hdistinct hlive hstatus j c hc hip).elsewhere hother⟩

/-- A turn that leaves the location alone and does not give client `i` a session. -/
theorem Kept.serverReceive (hdistinct : Distinct up) {l : Location} {j : ι} {w : Bytes}
    {env : Env} {rest : List Bytes} {currentClient : Option ClientData}
    (hinv : InterruptInv crc opts fs₀ up ⟨net, false⟩) (h : Kept crc up i l ⟨net, false⟩)
    (hloc : fs₀.resolve (storagePath opts (up i).filename) = .ok l)
    (hstatus : net.server.status = .running currentClient)
    (hchannel : net.toServer j = w :: rest) :
    Kept crc up i l ⟨(net.setChannel j .toServer rest).afterServer up
      (iteration crc opts net.server.fs currentClient ⟨(up j).address, w, env⟩), false⟩ := by
  obtain ⟨hinput, hserved⟩ := h.elsewhere hdistinct env hinv hloc rfl hstatus hchannel
  have htoServer : ∀ w' ∈ Function.update net.toServer j rest i, OpensNothing crc w' := by
    intro w' hw'
    by_cases hji : i = j
    · subst hji
      rw [Function.update_self] at hw'
      exact h.toServer w' (by rw [hchannel]; exact List.mem_cons_of_mem _ hw')
    · rw [Function.update_of_ne hji] at hw'
      exact h.toServer w' hw'
  refine ⟨?_, ?_, htoServer, h.client, h.inHand⟩
  · exact (iteration_frame hinv.dirsLE hinput hserved).2.trans h.node
  · rintro - ⟨c', hc', haddress⟩
    -- a session that was there belongs to another client, and a new one takes a SYN
    rcases iteration_session hc' with ⟨c, hc, hsame⟩ | ⟨-, hcheck, hSYN, hsender, -⟩
    · exact h.free rfl ⟨c, hstatus.trans (by rw [hc]), hsame.address.symm.trans haddress⟩
    · have hij : j = i := hdistinct.address j i (by rw [← haddress, hsender])
      subst hij
      exact h.toServer w (by rw [hchannel]; exact List.mem_cons_self ..) hcheck hSYN

/-- **Every step keeps the file.** -/
theorem Kept.step (hdistinct : Distinct up) {l : Location}
    (hinv : InterruptInv crc opts fs₀ up s) (h : Kept crc up i l s)
    (hloc : fs₀.resolve (storagePath opts (up i).filename) = .ok l)
    {action : InterruptibleAction ι} (hstep : interruptStep crc opts up s action = some s') :
    Kept crc up i l s' := by
  obtain ⟨net, terminated⟩ := s
  cases interruptStep_cases hstep with
  | @net action net' hserver hmove =>
    cases hmove with
    | @client j event client' sends hevent hmove =>
      by_cases hji : i = j
      · subst hji
        obtain ⟨haborting, hinHand, hsends⟩ := h.move (a := (up i).serverAddr) hmove
        refine ⟨h.node, h.free, ?_, ?_, ?_⟩ <;>
          simp only [Net.client_afterClient, Net.toServer_afterClient, Function.update_self]
        · intro w hw
          rcases List.mem_append.mp hw with h' | h'
          · exact h.toServer w h'
          · exact hsends w h'
        · exact Or.inr haborting
        · exact hinHand
      · obtain ⟨hnode, hfree, htoServer, hclient, hinHand⟩ := h
        refine ⟨hnode, hfree, ?_, ?_, ?_⟩ <;>
          simp only [Net.client_afterClient, Net.toServer_afterClient,
            Function.update_of_ne hji] <;> assumption
    | @clientReceive j errnoAgain w rest client' hchannel hmove =>
      by_cases hji : i = j
      · subst hji
        obtain ⟨haborting, hinHand, -⟩ := h.move (a := (up i).serverAddr) hmove
        refine ⟨h.node, h.free, ?_, ?_, ?_⟩ <;>
          simp only [Net.client_afterClient, Net.toServer_afterClient, Function.update_self,
            Net.toServer_setChannel_toClient, List.filter_nil, List.map_nil, List.append_nil]
        · exact h.toServer
        · exact Or.inr haborting
        · exact hinHand
      · obtain ⟨hnode, hfree, htoServer, hclient, hinHand⟩ := h
        refine ⟨hnode, hfree, ?_, ?_, ?_⟩ <;>
          simp only [Net.client_afterClient, Net.toServer_afterClient,
            Net.toServer_setChannel_toClient, Net.client_setChannel,
            Function.update_of_ne hji] <;> assumption
    | serverReceive hstatus hchannel =>
      obtain rfl : terminated = false := by
        by_contra hterminated
        cases hserver ((Bool.not_eq_false _).mp hterminated)
      exact h.serverReceive hdistinct hinv hloc hstatus hchannel
    | @fault j direction f hf =>
      obtain ⟨hnode, hfree, htoServer, hclient, hinHand⟩ := h
      refine ⟨by simpa using hnode, by simpa using hfree, ?_, by simpa using hclient,
        by simpa using hinHand⟩
      cases direction with
      | toClient => exact htoServer
      | toServer =>
        by_cases hji : i = j
        · subst hji
          have hyields : f.Yields (OpensNothing crc) := by
            cases f with
            | damage n b => exact opensNothing_of_damaged hf
            | _ => trivial
          simpa [Net.channel] using Fault.forall_mem_apply hyields htoServer
        · simpa [Function.update_of_ne hji] using htoServer
  | terminate hlive hstatus =>
    exact ⟨h.node, fun hno => Bool.noConfusion hno, h.toServer, h.client, h.inHand⟩
  | @terminateDuring j env moment currentClient w rest cut hlive hstatus hchannel hcut =>
    obtain ⟨hinput, hserved⟩ := h.elsewhere hdistinct env hinv hloc hlive hstatus hchannel
    refine ⟨?_, fun hno => Bool.noConfusion hno, ?_, h.client, h.inHand⟩
    · exact (hcut.frame hinv.dirsLE hinput hserved).2.trans h.node
    · intro w' hw'
      by_cases hji : i = j
      · subst hji
        have hw'' : w' ∈ Function.update net.toServer i rest i := hw'
        rw [Function.update_self] at hw''
        exact h.toServer w' (by rw [hchannel]; exact List.mem_cons_of_mem _ hw'')
      · have hw'' : w' ∈ Function.update net.toServer j rest i := hw'
        rw [Function.update_of_ne hji] at hw''
        exact h.toServer w' hw''

/-- **A finished upload stays stored.** One server, any number of clients on different hosts with
differently named files, and any interleaving of their steps with losses, repetitions and damages;
the server and the clients may be interrupted at any time, the server at any point of a turn. From
the moment a client has passed the call for its FIN, its source bytes are stored under its name,
whatever happens afterwards. -/
theorem finished_upload_stays_stored (crc : Bytes → UInt32) (opts : ServerOptions)
    (fs₀ : FileSystem) (up : ι → Upload) (hdistinct : Distinct up) (s t : InterruptibleNet ι)
    (hrun : Reaches (interruptStep crc opts up) (fun _ action => action.FilesWork)
      ⟨Net.initial up crc fs₀, false⟩ s)
    (i : ι) (hpc : (s.net.client i).pc = .finished)
    (hlater : Reaches (interruptStep crc opts up) (fun _ action => action.FilesWork) s t) :
    ∃ l, fs₀.resolve (storagePath opts (up i).filename) = .ok l ∧
      t.net.server.fs.node l = some (.regular (up i).source) := by
  have hinv : InterruptInv crc opts fs₀ up s := by
    refine hrun.invariant .initial fun _ _ _ h hwork hstep => ?_
    exact h.step hdistinct hwork hstep
  obtain ⟨l, hloc, hkept⟩ := hinv.kept hpc
  have hboth : InterruptInv crc opts fs₀ up t ∧ Kept crc up i l t := by
    refine hlater.invariant (I := fun t => InterruptInv crc opts fs₀ up t ∧ Kept crc up i l t)
      ⟨hinv, hkept⟩ fun _ _ _ h hwork hstep => ?_
    exact ⟨h.1.step hdistinct hwork hstep, h.2.step hdistinct h.1 hloc hstep⟩
  exact ⟨l, hloc, hboth.2.node⟩

/-! ## An interrupted session -/

/-- The server has ended before it has accepted the FIN of client `i`. -/
structure Orphaned (crc : Bytes → UInt32) (up : ι → Upload) (i : ι) (s : InterruptibleNet ι) :
    Prop where
  terminated : s.terminated = true
  client : ∀ j, ClientSide crc (up j) (fun r => j = i → (up j).Unfinished r) (s.net.client j)
    (s.net.toServer j) (s.net.toClient j)

omit [DecidableEq ι] in
theorem InterruptInv.orphaned (h : InterruptInv crc opts fs₀ up ⟨net, false⟩)
    (hheld : net.server.HeldBy (up i).address) (currentClient : Option ClientData) :
    Orphaned crc up i (.ended crc up net ⟨[], net.server.fs, currentClient⟩) := by
  refine ⟨rfl, fun j => ?_⟩
  have hj : ClientSide crc (up j) (fun r => j = i → (up j).Unfinished r) (net.client j)
      (net.toServer j) (net.toClient j) := by
    refine (h.client j).mono fun r hr => ?_
    rintro rfl
    cases hr with
    | living hserver => exact hserver.unfinished hheld
  exact hj.notified currentClient (up j).address

theorem Orphaned.step (h : Orphaned crc up i s) {action : InterruptibleAction ι}
    (hwork : action.FilesWork) (hstep : interruptStep crc opts up s action = some s') :
    Orphaned crc up i s' := by
  obtain ⟨hterminated, hclient⟩ := h
  cases interruptStep_cases hstep with
  | net hserver hmove =>
    exact ⟨hterminated, (clientSide_step hclient hmove hwork (hserver hterminated)).2⟩
  | terminate hlive => exact absurd hterminated (by rw [hlive]; decide)
  | terminateDuring hlive => exact absurd hterminated (by rw [hlive]; decide)

/-- **An interrupted session is never taken for a finished upload.** Clients and channels as before.
If the server is interrupted between two turns while the session of client `i` is open, then client
`i` never passes the call for its FIN, whatever is under way by then. -/
theorem interrupted_session_never_finishes (crc : Bytes → UInt32) (opts : ServerOptions)
    (fs₀ : FileSystem) (up : ι → Upload) (hdistinct : Distinct up) (s s' t : InterruptibleNet ι)
    (hrun : Reaches (interruptStep crc opts up) (fun _ action => action.FilesWork)
      ⟨Net.initial up crc fs₀, false⟩ s)
    (i : ι) (hheld : s.net.server.HeldBy (up i).address)
    (hsigint : interruptStep crc opts up s .terminate = some s')
    (hlater : Reaches (interruptStep crc opts up) (fun _ action => action.FilesWork) s' t) :
    (t.net.client i).pc ≠ .finished := by
  have hinv : InterruptInv crc opts fs₀ up s := by
    refine hrun.invariant .initial fun _ _ _ h hwork hstep => ?_
    exact h.step hdistinct hwork hstep
  have hs' : Orphaned crc up i s' := by
    obtain ⟨net, terminated⟩ := s
    cases interruptStep_cases hsigint with
    | terminate hlive =>
      obtain rfl : terminated = false := hlive
      exact hinv.orphaned hheld _
  have ht : Orphaned crc up i t := by
    refine hlater.invariant hs' fun _ _ _ h hwork hstep => ?_
    exact h.step hwork hstep
  intro hpc
  obtain ⟨⟨r, hopen, hfin⟩, -⟩ := (ht.client i).finished hpc
  exact hfin (hopen rfl)

end

/-! ## A run with an interrupt -/

theorem Smooth.filesWork_net {crc : Bytes → UInt32} {net : Net Unit} {action : Action Unit}
    (h : Smooth crc net action) : (InterruptibleAction.net action).FilesWork := by
  cases action with
  | client i event => exact Or.inr h.1
  | serverReceive i env => exact h.1.2
  | clientReceive => trivial
  | fault => trivial

/-- A run without interrupts. -/
theorem reaches_net {crc : Bytes → UInt32} {opts : ServerOptions} {u : Upload}
    {net net' : Net Unit} (h : Reaches (netStep crc opts fun _ => u) (Smooth crc) net net') :
    Reaches (interruptStep crc opts fun _ : Unit => u) (fun _ action => action.FilesWork)
      ⟨net, false⟩ ⟨net', false⟩ := by
  refine h.map (fun net => InterruptibleNet.mk net false) InterruptibleAction.net ?_
  intro t action v _ hok hstep
  exact ⟨hok.filesWork_net, by simp [interruptStep, hstep]⟩

/-- The server is interrupted. -/
theorem interruptStep_terminate (crc : Bytes → UInt32) (opts : ServerOptions) (u : Upload)
    (net : Net Unit) {currentClient : Option ClientData}
    (h : net.server.status = .running currentClient) :
    interruptStep crc opts (fun _ : Unit => u) ⟨net, false⟩ .terminate
      = some (.ended crc (fun _ => u) net ⟨[], net.server.fs, currentClient⟩) := by
  simp [interruptStep, h]

/-- A file of one byte is uploaded, and then the server is interrupted. -/
theorem example_stays_stored :
    ∃ t : InterruptibleNet Unit, t.terminated = true ∧
      ∃ l, exampleFs.resolve (storagePath exampleOpts (exampleUpload [1]).filename) = .ok l ∧
        t.net.server.fs.node l = some (.regular (exampleUpload [1]).source) := by
  obtain ⟨net, hrun, hpc, hidle⟩ := exists_finishing_run CRC.crc32 exampleOpts (exampleUpload [1])
    replace_exampleFs
  refine ⟨_, rfl, finished_upload_stays_stored CRC.crc32 exampleOpts exampleFs
    (fun _ => exampleUpload [1]) (distinct_unit _) ⟨net, false⟩ _ (reaches_net hrun) () hpc
    (.tail (a := .terminate) .refl trivial (interruptStep_terminate _ _ _ net hidle))⟩

/-- The client goes on when the server has ended. -/
theorem interruptStep_of_netStep {crc : Bytes → UInt32} {opts : ServerOptions} {u : Upload}
    {net net' : Net Unit} {action : Action Unit} (hclient : ¬ action.ofServer)
    (h : netStep crc opts (fun _ => u) net action = some net') :
    interruptStep crc opts (fun _ : Unit => u) ⟨net, true⟩ (.net action) = some ⟨net', true⟩ := by
  simp [interruptStep, h, hclient]

/-- Whatever the checksum function: the server is interrupted when the session of the same upload
is open; the client still sends its byte, and gives up when the ABR arrives. -/
theorem exists_run_orphaned (crc : Bytes → UInt32) :
    ∃ s s' t : InterruptibleNet Unit,
      Reaches (interruptStep crc exampleOpts fun _ : Unit => exampleUpload [1])
        (fun _ action => action.FilesWork)
        ⟨Net.initial (fun _ => exampleUpload [1]) crc exampleFs, false⟩ s ∧
      s.net.server.HeldBy (exampleUpload [1]).address ∧
      interruptStep crc exampleOpts (fun _ : Unit => exampleUpload [1]) s .terminate = some s' ∧
      Reaches (interruptStep crc exampleOpts fun _ : Unit => exampleUpload [1])
        (fun _ action => action.FilesWork) s' t ∧
      (t.net.client ()).pc = .exited .serverBusy := by
  let u := exampleUpload [1]
  have habr : (BftDatagram.ABR crc).WellFormed crc := wellFormed_init ..
  have hreplace : exampleFs.replace (storagePath exampleOpts u.filename)
      = .ok (exampleStored [], [[115], [97]]) := replace_exampleFs
  obtain ⟨net, hrun, hready⟩ := reaches_ready_zero crc hreplace
  cases hready with
  | @intro fs c l s hsession hpc hfile hsqn haddr =>
    let d := u.datagram crc 1
    let server : ServerState := ⟨fs, .running (some c)⟩
    let s₁ : ClientState := { s with
      pc := .send .data d 0
      file := (s.file.read maxPayloadSize none).2 }
    let s₂ : ClientState := { s₁ with pc := .receive .data d 0 }
    let s₃ : ClientState := { s₂ with serverAddr := u.serverAddr, pc := .exited .serverBusy }
    have hended : InterruptibleNet.ended crc (fun _ => u) (.single server s [] [])
        ⟨[], fs, some c⟩ = ⟨.single server s [] [(BftDatagram.ABR crc).wire], true⟩ := by
      simp [InterruptibleNet.ended, notifyClient, hsession.address, Net.afterServer, Net.single,
        server]
    have hread : clientStep crc u s (.read none) = some (s₁, []) := by
      simp only [clientStep, hpc]
      rw [hfile.onRead_data hsqn (by decide)]
    have hbusy : clientStep crc u s₂ (.datagram u.serverAddr (BftDatagram.ABR crc).wire false)
        = some (s₃, []) := by
      have hrefusal : (BftDatagram.ABR crc).getFlags &&& Flags.ABR = Flags.ABR ∧
          (BftDatagram.ABR crc).getSQN = false := by
        show Flags.ABR &&& Flags.ABR = Flags.ABR ∧ _
        exact ⟨by decide, getSQN_init ..⟩
      rw [clientStep_datagram_wire rfl habr]
      exact congrArg (fun s => some (s, [])) (waitForACK_busy habr.checkIntegrity hrefusal)
    have hstep := (interruptStep_terminate crc exampleOpts u (.single server s [] []) rfl).trans
      (congrArg some hended)
    have h₁ : interruptStep crc exampleOpts (fun _ : Unit => u)
        ⟨.single server s [] [(BftDatagram.ABR crc).wire], true⟩ (.net (.client () (.read none)))
        = some ⟨.single server s₁ [] [(BftDatagram.ABR crc).wire], true⟩ :=
      interruptStep_of_netStep (by decide) (Net.netStep_single_client rfl hread)
    have h₂ : interruptStep crc exampleOpts (fun _ : Unit => u)
        ⟨.single server s₁ [] [(BftDatagram.ABR crc).wire], true⟩ (.net (.client () (.sendto true)))
        = some ⟨.single server s₂ [d.wire] [(BftDatagram.ABR crc).wire], true⟩ :=
      interruptStep_of_netStep (by decide) (Net.netStep_single_send rfl haddr)
    have h₃ : interruptStep crc exampleOpts (fun _ : Unit => u)
        ⟨.single server s₂ [d.wire] [(BftDatagram.ABR crc).wire], true⟩
        (.net (.clientReceive () false)) = some ⟨.single server s₃ [d.wire] [], true⟩ :=
      interruptStep_of_netStep (by decide) (Net.netStep_single_clientReceive hbusy)
    have hwork₁ : InterruptibleAction.FilesWork (.net (.client () (.read none))) := Or.inr rfl
    have hwork₂ : InterruptibleAction.FilesWork (.net (.client () (.sendto true))) :=
      Or.inr trivial
    have hwork₃ : InterruptibleAction.FilesWork (.net (.clientReceive () false)) := trivial
    exact ⟨_, _, _, reaches_net hrun, ⟨c, rfl, hsession.address⟩, hstep,
      .tail (.tail (.tail .refl hwork₁ h₁) hwork₂ h₂) hwork₃ h₃, rfl⟩

theorem example_interrupted_session :
    ∃ t : InterruptibleNet Unit, (t.net.client ()).pc = .exited .serverBusy ∧
      (t.net.client ()).pc ≠ .finished := by
  obtain ⟨s, s', t, hrun, hheld, hsigint, hlater, hpc⟩ := exists_run_orphaned CRC.crc32
  exact ⟨t, hpc, interrupted_session_never_finishes CRC.crc32 exampleOpts exampleFs
    (fun _ => exampleUpload [1]) (distinct_unit _) s s' t hrun () hheld hsigint hlater⟩

end Rechnernetze.Bft
