import Rechnernetze.Bft.AllUploads
import Rechnernetze.Bft.Retransmissions

/-!
# Duplicates

The server counts in `n_duplicates` the datagrams of its client that carry the SQN of the one
before, and reports the number when the upload ends. Beside a run of the network a tally is kept for
one client: its timeouts, the responses it has refused, and the datagrams that the channel to the
server has repeated. They account for every duplicate (`nDuplicates_le`): however the steps of the
clients and the server interleave, what is counted has left the client more than once, or has been
repeated on the way.
-/

namespace Rechnernetze.Bft

open Lib BftDatagram ClientState

/-- What is counted of a run for one client. -/
structure UploadTally where
  sends : SendTally
  /-- The datagrams of the client that the channel to the server has repeated. -/
  repeats : ℕ

namespace UploadTally

/-- What can have made a datagram reach the server twice. -/
def extra (t : UploadTally) : ℕ := t.sends.timeouts + t.sends.refused + t.repeats

/-- The network takes a step; client `i` is watched. -/
def count {ι : Type} [DecidableEq ι] (crc : Bytes → UInt32) (up : ι → Upload) (i : ι)
    (net : Net ι) (t : UploadTally) : Action ι → UploadTally
  | .client j event =>
    if j = i then { t with sends := t.sends.count crc (net.client i) event } else t
  | .clientReceive j errnoAgain =>
    match net.toClient j with
    | [] => t
    | w :: _ =>
      if j = i then
        { t with
          sends := t.sends.count crc (net.client i) (.datagram (up i).serverAddr w errnoAgain) }
      else t
  | .serverReceive .. => t
  | .fault j direction f =>
    if j = i ∧ direction = .toServer then
      { t with repeats := t.repeats + f.added (net.toServer i) }
    else t

end UploadTally

/-- A step of the network, together with the tally for client `i`. -/
def countedStep {ι : Type} [DecidableEq ι] (crc : Bytes → UInt32) (opts : ServerOptions)
    (up : ι → Upload) (i : ι) (x : Net ι × UploadTally) (action : Action ι) :
    Option (Net ι × UploadTally) :=
  (netStep crc opts up x.1 action).map fun net => (net, x.2.count crc up i x.1 action)

/-- The duplicates counted in the session of the endpoint `a`, 0 if it has none. -/
def ServerState.duplicatesOf (s : ServerState) (a : SockaddrIn) : ℕ :=
  match s.status with
  | .running (some c) => if c.address = a then c.nDuplicates.toNat else 0
  | _ => 0

/-- Whether a datagram is due: the client is about to send it, or to make it. -/
def PC.pending : PC → ℕ
  | .send .. => 1
  | .openFile => 1
  | .readFile => 1
  | _ => 0

/-- The copies of the datagrams of an upload. -/
abbrev UploadCopies (crc : Bytes → UInt32) (u : Upload) :
    ℕ → ℕ → ℕ → List Bytes → ℕ → ℕ → Prop :=
  Copies fun k => (u.datagram crc k).wire

section
variable {crc : Bytes → UInt32} {opts : ServerOptions} {fs₀ fs : FileSystem} {u : Upload}
  {s s' : ClientState} {p r r' n duplicates : ℕ} {fwd bwd bwd' : List Bytes} {w : Bytes}
  {t : UploadTally} {event : ClientEvent} {sends : List (SockaddrIn × Bytes)} {a : SockaddrIn}
  {call : Call} {d : BftDatagram} {sender : SockaddrIn} {errnoAgain : Bool}

/-! ## The client -/

theorem PC.pending_le_one (pc : PC) : pc.pending ≤ 1 := by
  unfold PC.pending
  split <;> decide

theorem SendTally.awaited_iff {response : BftDatagram} (hpc : s.pc = .receive call d n) :
    SendTally.awaited crc s response = true ↔ response.checkIntegrity crc = true ∧
      response.getSQN = s.currSQN ∧ response.isACKFor d = true := by
  unfold SendTally.awaited
  rw [hpc]
  simp only [Bool.and_eq_true, beq_iff_eq, and_assoc]

/-- A copy more may be due than is accounted for, if it is counted now. -/
theorem UploadCopies.counted {t' : UploadTally} {pending' : ℕ}
    (h : UploadCopies crc u p r 0 fwd duplicates t.extra) (hextra : t'.extra = t.extra + 1)
    (hle : pending' ≤ 1) : UploadCopies crc u p r pending' fwd duplicates t'.extra := by
  rw [hextra]
  exact h.again hle

theorem UploadTally.extra_timeout (t : UploadTally) :
    { t with sends := { t.sends with timeouts := t.sends.timeouts + 1 } }.extra = t.extra + 1 := by
  simp only [UploadTally.extra]
  omega

theorem UploadTally.extra_refused (t : UploadTally) :
    { t with sends := { t.sends with refused := t.sends.refused + 1 } }.extra = t.extra + 1 := by
  simp only [UploadTally.extra]
  omega

/-- **A step of the client** leaves no copy unaccounted for. -/
theorem ClientAt.copies_move (h : ClientAt crc u s p)
    (hcopies : UploadCopies crc u p r s.pc.pending fwd duplicates t.extra)
    (hmove : Move crc u s event s' sends) (hevent : event.Undisturbed)
    (hdatagram : event.isDatagram = false) :
    UploadCopies crc u p r s'.pc.pending
      (fwd ++ (sends.filter fun x => x.1 = a).map (·.2)) duplicates
      { t with sends := t.sends.count crc s event }.extra := by
  have hsilent : ∀ {pending extra : ℕ}, UploadCopies crc u p r pending fwd duplicates extra →
      UploadCopies crc u p r pending
        (fwd ++ ([].filter fun x : SockaddrIn × Bytes => x.1 = a).map (·.2)) duplicates extra := by
    intro pending extra h'
    rw [List.filter_nil, List.map_nil, List.append_nil]
    exact h'
  cases hmove with
  | sigint => exact hevent.elim
  | @send call d n hpc =>
    obtain ⟨rfl, -, -⟩ := h.of_call (Or.inl hpc)
    rw [hpc] at hcopies
    -- what goes to another address is no copy under way to the server
    by_cases ha : s.serverAddr = a
    · rw [List.filter_cons_of_pos (by simpa using ha)]
      exact hcopies.send fun k hk heq => Upload.datagram_new p (Or.inr ⟨k, hk, heq⟩)
    · rw [List.filter_cons_of_neg (by simpa using ha)]
      exact hsilent (hcopies.silent (Nat.zero_le _))
  | sendError hpc => exact hsilent (hcopies.silent (Nat.zero_le _))
  | timeout hpc =>
    rw [hpc] at hcopies
    exact hsilent (UploadCopies.counted hcopies t.extra_timeout (PC.pending_le_one _))
  | receiveError hpc => exact hsilent (hcopies.silent (Nat.zero_le _))
  | response | emptyAgain | emptyError => cases hdatagram
  | openFile hpc =>
    rw [hpc] at hcopies
    exact hsilent hcopies
  | @read fault hpc =>
    rw [hpc] at hcopies
    exact hsilent (hcopies.silent (PC.pending_le_one _))

/-- **An answer** that the client takes for no acknowledgement is counted; with one that it takes
for an acknowledgement it moves on. -/
theorem ClientAt.copies_receive (h : ClientAt crc u s p) (hlink : Link crc u p r fwd (w :: bwd))
    (hcopies : UploadCopies crc u p r s.pc.pending fwd duplicates t.extra)
    (hmove : Move crc u s (.datagram sender w errnoAgain) s' []) :
    ∃ p', ClientAt crc u s' p' ∧ Link crc u p' r fwd bwd ∧
      UploadCopies crc u p' r s'.pc.pending fwd duplicates
        { t with sends := t.sends.count crc s (.datagram sender w errnoAgain) }.extra := by
  cases hmove with
  | @emptyAgain call d n _ hpc =>
    rw [hpc] at hcopies
    exact ⟨p, h.onTimeout hpc sender, hlink.tail_bwd,
      UploadCopies.counted hcopies t.extra_timeout (PC.pending_le_one _)⟩
  | emptyError hpc =>
    rw [hpc] at hcopies
    exact ⟨p, .exited rfl, hlink.tail_bwd,
      UploadCopies.counted hcopies t.extra_timeout (Nat.zero_le _)⟩
  | @response call d n _ _ _ hpc hbytes =>
    obtain ⟨rfl, hcall, hsqn⟩ := h.of_call (Or.inr hpc)
    rw [hpc] at hcopies
    cases hawaited : SendTally.awaited crc s (BftDatagram.receive w) with
    | true =>
      have hcount : t.sends.count crc s (.datagram sender w errnoAgain) = t.sends := by
        unfold SendTally.count
        dsimp only
        rw [if_neg hbytes, if_pos hawaited]
      obtain ⟨hcheck, hSQN, hack⟩ := (SendTally.awaited_iff hpc).mp hawaited
      rw [hcount, onResponse, if_neg hcall.ne_abr]
      -- an acknowledgement with an ABR ends the client all the same
      by_cases hABR : (BftDatagram.receive w).getFlags &&& Flags.ABR = Flags.ABR ∧
          (BftDatagram.receive w).getSQN = false
      · rw [waitForACK_busy hcheck hABR]
        exact ⟨p, .exited rfl, hlink.tail_bwd, hcopies⟩
      · rw [waitForACK_acknowledged (s := { s with serverAddr := sender }) hcheck hABR hSQN hack]
        have hnew : Acknowledges crc (Upload.sqnAt p) w := by
          rw [isACKFor, decide_eq_true_eq] at hack
          exact ⟨hcheck, hack.1, hSQN.trans hsqn⟩
        obtain ⟨rfl, hlink'⟩ := hlink.advance hnew.new
        have hsqn' : (s.currSQN ^^ true) = Upload.sqnAt (p + 1) := by rw [hsqn, Upload.sqnAt_succ]
        refine ⟨p + 1, ?_, hlink', hcopies.advance (PC.pending_le_one _)⟩
        cases hcall with
        | syn => exact .opening rfl hsqn'
        | data hlt hfile => exact .reading rfl hfile hsqn'
        | fin hle hfile => exact .finished rfl hle
    | false =>
      have hcount : t.sends.count crc s (.datagram sender w errnoAgain)
          = { t.sends with refused := t.sends.refused + 1 } := by
        unfold SendTally.count
        dsimp only
        rw [if_neg hbytes, if_neg (by rw [hawaited]; decide)]
      have hcopies' := fun pc : PC =>
        UploadCopies.counted hcopies t.extra_refused (PC.pending_le_one pc)
      have hanswer := onResponse_cases crc { s with serverAddr := sender } call
        (u.datagram crc p) (BftDatagram.receive w)
      rw [hcount]
      generalize ClientState.onResponse crc _ _ _ _ = s' at hanswer ⊢
      cases hanswer with
      | again => exact ⟨p, .repeating ⟨0, Or.inl rfl⟩ hcall hsqn, hlink.tail_bwd, hcopies' _⟩
      | busy => exact ⟨p, .exited rfl, hlink.tail_bwd, hcopies' _⟩
      | acknowledged _ hcheck _ hSQN hack =>
        -- this would be the awaited one
        rw [(SendTally.awaited_iff hpc).mpr ⟨hcheck, hSQN, hack⟩] at hawaited
        cases hawaited
      | abortAcknowledged habr => exact absurd habr hcall.ne_abr

/-! ## The server -/

theorem duplicatesOf_running {c : ClientData} (ha : c.address = a) :
    ServerState.duplicatesOf ⟨fs, .running (some c)⟩ a = c.nDuplicates.toNat := by
  exact if_pos ha

theorem duplicatesOf_of_not_heldBy {s : ServerState} (h : ¬ s.HeldBy a) : s.duplicatesOf a = 0 := by
  unfold ServerState.duplicatesOf
  split
  · rename_i c hstatus
    exact if_neg fun ha => h ⟨c, hstatus, ha⟩
  · rfl

/-- Only a session whose place in the transfer fits its SQN is held by the client. -/
theorem ServerAt.sqn {c : ClientData}
    (h : ServerAt True opts fs₀ u ⟨fs, .running (some c)⟩ r) (ha : c.address = u.address) :
    c.currentSQN = Upload.sqnAt r := by
  have hheld : ServerState.HeldBy ⟨fs, .running (some c)⟩ u.address := ⟨c, rfl, ha⟩
  cases h with
  | waiting hfree => exact absurd hheld hfree
  | session hstatus hsession =>
    cases hstatus
    exact hsession.sqn
  | closed hfree => exact absurd hheld hfree
  | crashed _ hstatus => cases hstatus

/-- What the server counts as a duplicate is the datagram it has accepted last. -/
theorem previous_of_duplicate {c : ClientData} (hlink : Link crc u p r (w :: fwd) bwd)
    (hsqn : c.currentSQN = Upload.sqnAt r) (hcheck : (receive w).checkIntegrity crc = true)
    (hne : (receive w).getSQN ≠ c.currentSQN) :
    ∃ k, k + 1 = r ∧ w = (u.datagram crc k).wire := by
  rcases hlink.head_fwd with hnoise | hprev | rfl
  · rw [hnoise.2] at hcheck
    cases hcheck
  · exact hprev
  · rw [(Upload.wellFormed_datagram ..).receive_wire, Upload.getSQN_datagram] at hne
    exact absurd hsqn.symm hne

/-- **A turn of the server** leaves no copy unaccounted for: it accepts the datagram, drops it, or
counts it as a duplicate, and then it has accepted it before. -/
theorem Turn.copies {env : Env} {currentClient : Option ClientData} {out : Outcome}
    {pending extra : ℕ} (hturn : Turn crc opts fs ⟨u.address, w, env⟩ currentClient out)
    (hlink : Link crc u p r (w :: fwd) bwd) (hlink' : Link crc u p r' fwd bwd')
    (hserver : ServerAt True opts fs₀ u ⟨fs, .running currentClient⟩ r)
    (hserver' : ServerAt True opts fs₀ u out.state r')
    (hip : ∀ c, currentClient = some c → c.address.sinAddr = u.address.sinAddr →
      c.address = u.address)
    (hcopies : UploadCopies crc u p r pending (w :: fwd)
      (ServerState.duplicatesOf ⟨fs, .running currentClient⟩ u.address) extra) :
    UploadCopies crc u p r' pending fwd (out.state.duplicatesOf u.address) extra := by
  have hp := hlink.le_and_le
  have hp' := hlink'.le_and_le
  have htake : ∀ n, n ≤ ServerState.duplicatesOf ⟨fs, .running currentClient⟩ u.address →
      UploadCopies crc u p r' pending fwd n extra := fun _ => hcopies.take hp.1 hp'.2
  cases hturn with
  | nullDereference | notOpened | aborted | abortFailed | fin | finFailed | writeFailed =>
    exact htake _ (Nat.zero_le _)
  | again | busy | abortIgnored | refused | ignored => exact htake _ (Nat.le_refl _)
  | opened =>
    exact htake _ (Nat.le_of_eq (duplicatesOf_running rfl))
  | written => exact htake _ (Nat.le_refl _)
  | @duplicate c hcheck _ _ hsame hsqn =>
    have ha : c.address = u.address := hip c rfl hsame.symm
    have hsqn' : c.currentSQN = Upload.sqnAt r := hserver.sqn ha
    have ha' : { c with nDuplicates := c.nDuplicates + 1 }.address = u.address := ha
    -- the session goes on with its SQN, so it has accepted no other datagram
    have hr : r' = r := by
      have hparity : Upload.sqnAt r = Upload.sqnAt r' := hsqn'.symm.trans (hserver'.sqn ha')
      by_contra hne
      obtain rfl | rfl : r' = r + 1 ∨ r = r' + 1 := by omega
      · exact Upload.sqnAt_succ_ne r hparity
      · exact Upload.sqnAt_succ_ne r' hparity.symm
    rw [hr]
    refine hcopies.takeAgain (fun heq => ?_) ?_
    · rw [← heq]
      exact previous_of_duplicate hlink hsqn' hcheck hsqn
    · rw [duplicatesOf_running ha, duplicatesOf_running ha']
      show (c.nDuplicates + 1).toNat ≤ _
      rw [UInt32.toNat_add]
      exact Nat.mod_le ..

/-- Turns for another client count no duplicates of this one. -/
theorem OnlyFor.duplicatesOf_eq {path : Path} {a b : SockaddrIn} {s s' : ServerState}
    (honly : OnlyFor fs₀ path a s s') (hb : b ≠ a) : s'.duplicatesOf b = s.duplicatesOf b := by
  rcases honly.status with heq | hboth
  · rw [ServerState.duplicatesOf, ServerState.duplicatesOf, heq]
  · rw [duplicatesOf_of_not_heldBy (hboth b hb).1, duplicatesOf_of_not_heldBy (hboth b hb).2]

end

/-! ## Every run -/

/-- Client `i` and the server are at their places in the transfer, and every copy of a datagram is
accounted for. -/
structure Accounted {ι : Type} (crc : Bytes → UInt32) (opts : ServerOptions) (fs₀ : FileSystem)
    (up : ι → Upload) (i : ι) (net : Net ι) (t : UploadTally) : Prop where
  inv : NetInv True crc opts fs₀ up net
  copies : ∃ p r, Link crc (up i) p r (net.toServer i) (net.toClient i) ∧
    ClientAt crc (up i) (net.client i) p ∧ ServerAt True opts fs₀ (up i) net.server r ∧
    UploadCopies crc (up i) p r (net.client i).pc.pending (net.toServer i)
      (net.server.duplicatesOf (up i).address) t.extra

section
variable {ι : Type} [DecidableEq ι] {crc : Bytes → UInt32} {opts : ServerOptions}
  {fs₀ : FileSystem} {up : ι → Upload} {net net' : Net ι} {i j : ι} {action : Action ι}
  {t : UploadTally} {u : Upload} {f : Fault Bytes}

/-- Damage makes no datagram of an upload. -/
theorem yields_ne_wire (hf : f.Yields (Damaged crc)) (k : ℕ) :
    f.Yields (· ≠ (u.datagram crc k).wire) := by
  cases f with
  | damage n w =>
    rintro rfl
    exact (Upload.datagram_new (u := u) k) (Or.inl hf)
  | _ => trivial

/-- A fault of any channel keeps what is under way between client `i` and the server. -/
theorem Link.fault {direction : Direction} {p r : ℕ}
    (h : Link crc u p r (net.toServer i) (net.toClient i)) (hf : f.Yields (Damaged crc)) :
    Link crc u p r ((net.setChannel j direction (f.apply (net.channel j direction))).toServer i)
      ((net.setChannel j direction (f.apply (net.channel j direction))).toClient i) := by
  by_cases hji : j = i
  · subst hji
    cases direction with
    | toServer =>
      have h' : Link crc u p r (f.apply (net.toServer j)) (net.toClient j) := h.fault_fwd hf
      simpa [Net.channel] using h'
    | toClient =>
      have hf' : f.Yields (Refusal crc) := by
        cases f with
        | damage n b => exact Or.inl hf
        | _ => trivial
      have h' : Link crc u p r (net.toServer j) (f.apply (net.toClient j)) := h.fault_bwd hf'
      simpa [Net.channel] using h'
  · cases direction <;> simpa [Function.update_of_ne (Ne.symm hji)] using h

omit [DecidableEq ι] in
theorem Accounted.initial : Accounted crc opts fs₀ up i (Net.initial up crc fs₀) ⟨.start, 0⟩ :=
  ⟨.initial, 0, 0, LinkInv.init, .repeating ⟨0, Or.inl rfl⟩ .syn rfl,
    .waiting (not_heldBy_of_none rfl), Copies.init⟩

/-- **Every step** keeps the account. -/
theorem Accounted.step (hdistinct : Distinct up) (h : Accounted crc opts fs₀ up i net t)
    (hok : action.Undisturbed) (hstep : netStep crc opts up net action = some net') :
    Accounted crc opts fs₀ up i net' (t.count crc up i net action) := by
  have hinv := h.inv.step hdistinct hstep hok fun _ _ _ _ _ _ => trivial
  obtain ⟨hbefore, p, r, hlink, hclient, hserver, hcopies⟩ := h
  cases netStep_cases hstep with
  | @client j event s sends hevent hmove =>
    by_cases hji : j = i
    · subst hji
      obtain ⟨hclient', hlink'⟩ := hclient.move (a := (up j).serverAddr) hlink hmove hok hevent
      have hcopies' := hclient.copies_move (a := (up j).serverAddr) hcopies hmove hok hevent
      refine ⟨hinv, p, r, ?_, ?_, hserver, ?_⟩
      · simpa using hlink'
      · simpa using hclient'
      · simpa [UploadTally.count] using hcopies'
    · refine ⟨hinv, p, r, ?_, ?_, hserver, ?_⟩
      · simpa [Function.update_of_ne (Ne.symm hji)] using hlink
      · simpa [Function.update_of_ne (Ne.symm hji)] using hclient
      · simpa [UploadTally.count, hji, Function.update_of_ne (Ne.symm hji)] using hcopies
  | @clientReceive j errnoAgain w rest s hchannel hmove =>
    by_cases hji : j = i
    · subst hji
      rw [hchannel] at hlink
      obtain ⟨p', hclient', hlink', hcopies'⟩ := hclient.copies_receive hlink hcopies hmove
      refine ⟨hinv, p', r, ?_, ?_, hserver, ?_⟩
      · simpa using hlink'
      · simpa using hclient'
      · simpa [UploadTally.count, hchannel] using hcopies'
    · refine ⟨hinv, p, r, ?_, ?_, hserver, ?_⟩
      · simpa [Function.update_of_ne (Ne.symm hji)] using hlink
      · simpa [Function.update_of_ne (Ne.symm hji)] using hclient
      · simpa [UploadTally.count, hchannel, hji, Function.update_of_ne (Ne.symm hji)] using hcopies
  | @serverReceive j env currentClient w rest hstatus hchannel =>
    by_cases hji : j = i
    · subst hji
      have hip := hbefore.address_eq (i := j) hdistinct hstatus
      obtain ⟨⟨fs, status⟩, client, toServer, toClient⟩ := net
      obtain rfl : status = .running currentClient := hstatus
      obtain ⟨r', replies, hsends, hlink', hserver', -⟩ :=
        hserver.turn (hchannel ▸ hlink) hbefore.dirsLE hip hok fun _ _ _ => trivial
      have hcopies' := (turn_cases crc opts fs currentClient ⟨(up j).address, w, env⟩).copies
        (hchannel ▸ hlink) hlink' hserver hserver' hip (hchannel ▸ hcopies)
      refine ⟨hinv, p, r', ?_, hclient, hserver', ?_⟩
      · simp only [Net.toServer_afterServer, Net.toServer_setChannel_toServer,
          Net.toClient_afterServer, Net.toClient_setChannel_toServer, hsends,
          filter_replies hdistinct, if_pos, Function.update_self]
        exact hlink'
      · simpa [UploadTally.count] using hcopies'
    · -- the turn is for another client
      have haddress : (up i).address ≠ (up j).address := fun heq =>
        hji (hdistinct.address i j (congrArg SockaddrIn.sinAddr heq)).symm
      obtain ⟨p', r', replies, hsends, -, -, honly⟩ :=
        hbefore.turnDone hdistinct hstatus hchannel hok
      refine ⟨hinv, p, r, ?_, hclient, hserver.frame hstatus honly haddress fun l hl => ?_, ?_⟩
      · simp only [Net.toServer_afterServer, Net.toServer_setChannel_toServer,
          Net.toClient_afterServer, Net.toClient_setChannel_toServer, hsends,
          filter_replies hdistinct, if_neg (Ne.symm hji), Function.update_of_ne (Ne.symm hji),
          List.append_nil]
        exact hlink
      · exact storage_location_ne (fun heq => hji (hdistinct.filename j i heq)) hl
      · simpa [UploadTally.count, Function.update_of_ne (Ne.symm hji),
          honly.duplicatesOf_eq haddress] using hcopies
  | @fault j direction f hf =>
    refine ⟨hinv, p, r, hlink.fault hf, by simpa using hclient, by simpa using hserver, ?_⟩
    -- only the channel from client `i` carries copies
    by_cases hji : j = i ∧ direction = .toServer
    · obtain ⟨rfl, rfl⟩ := hji
      have hcopies' := hcopies.fault fun k => yields_ne_wire hf k
      simpa [UploadTally.count, UploadTally.extra, Net.channel, Nat.add_assoc] using hcopies'
    · have hchannel : (net.setChannel j direction (f.apply (net.channel j direction))).toServer i
          = net.toServer i := by
        cases direction with
        | toServer => exact Function.update_of_ne (fun hij => hji ⟨hij.symm, rfl⟩) ..
        | toClient => rfl
      rw [UploadTally.count, if_neg hji, hchannel]
      simpa using hcopies

end

/-- **Where duplicates come from.** One idle server, any number of clients on different hosts with
differently named files, and any interleaving of their steps with losses, repetitions, damages and
delays: the duplicates that the server has counted in the session of a client are no more than the
timeouts of this client, the responses it has refused, and the datagrams of it that the channel to
the server has repeated. -/
theorem nDuplicates_le {ι : Type} [DecidableEq ι] (crc : Bytes → UInt32) (opts : ServerOptions)
    (fs₀ : FileSystem) (up : ι → Upload) (hdistinct : Distinct up) (i : ι) (net : Net ι)
    (t : UploadTally)
    (hrun : Reaches (countedStep crc opts up i) (fun _ action => action.Undisturbed)
      (Net.initial up crc fs₀, ⟨.start, 0⟩) (net, t))
    (c : ClientData) (hsession : net.server.status = .running (some c))
    (hc : c.address = (up i).address) :
    c.nDuplicates.toNat ≤ t.sends.timeouts + t.sends.refused + t.repeats := by
  have haccounted : Accounted crc opts fs₀ up i net t := by
    refine hrun.invariant (I := fun x => Accounted crc opts fs₀ up i x.1 x.2) .initial ?_
    intro x action x' h hok hstep
    obtain ⟨net', hnet, rfl⟩ := Option.map_eq_some_iff.mp hstep
    exact h.step hdistinct hok hnet
  obtain ⟨-, p, r, hlink, -, -, hcopies⟩ := haccounted
  have hle : net.server.duplicatesOf (up i).address ≤ t.extra :=
    hcopies.duplicates_le hlink.le_and_le.1
  obtain ⟨⟨fs, status⟩, client, toServer, toClient⟩ := net
  obtain rfl : status = .running (some c) := hsession
  rwa [duplicatesOf_running hc] at hle

/-- The tally goes along with every run. -/
theorem exists_tally {ι : Type} [DecidableEq ι] {crc : Bytes → UInt32} {opts : ServerOptions}
    {up : ι → Upload} {ok : Net ι → Action ι → Prop} {net₀ net : Net ι} (i : ι) (t₀ : UploadTally)
    (hrun : Reaches (netStep crc opts up) ok net₀ net) :
    ∃ t, Reaches (countedStep crc opts up i) (fun x => ok x.1) (net₀, t₀) (net, t) := by
  induction hrun with
  | refl => exact ⟨t₀, .refl⟩
  | @tail net net' action _ hok hstep ih =>
    obtain ⟨t, ht⟩ := ih
    refine ⟨t.count crc up i net action, .tail ht hok ?_⟩
    rw [countedStep, hstep, Option.map_some]

/-- Whatever the checksum function: the channel repeats the data datagram, and the server counts
a duplicate. -/
theorem exists_run_duplicate (crc : Bytes → UInt32) :
    ∃ net : Net Unit, Reaches (netStep crc exampleOpts fun _ => exampleUpload [7])
        (fun _ action => action.Undisturbed)
        (Net.initial (fun _ => exampleUpload [7]) crc exampleFs) net ∧
      net.server.status = .running (some { exampleSessionData with nDuplicates := 1 }) := by
  let u := exampleUpload [7]
  let syn := u.datagram crc 0
  let data := exampleData crc
  let fs := (exampleStored []).append [[115], [97]] [7]
  let idle : ServerState := ⟨exampleFs, .running none⟩
  let opened : ServerState := ⟨exampleStored [], .running (some exampleSession)⟩
  let stored : ServerState := ⟨fs, .running (some exampleSessionData)⟩
  let stored' : ServerState := ⟨fs, .running (some { exampleSessionData with nDuplicates := 1 })⟩
  let s₀ : ClientState := .initial crc u
  let s₁ : ClientState := { s₀ with pc := .receive .syn syn 0 }
  let s₂ : ClientState := { s₀ with pc := .openFile, currSQN := true }
  let s₃ : ClientState := { s₂ with pc := .readFile, file := ⟨[7], true⟩ }
  let s₄ : ClientState := { s₂ with pc := .send .data data 0, file := ⟨[], false⟩ }
  let s₅ : ClientState := { s₄ with pc := .receive .data data 0 }
  have hsyn : (syn.createACK crc).WellFormed crc := wellFormed_createACK _
  have h₁ : netStep crc exampleOpts (fun _ => u) (.single idle s₀ [] [])
      (.client () (.sendto true)) = some (.single idle s₁ [syn.wire] []) :=
    Net.netStep_single_send rfl rfl
  have h₂ : netStep crc exampleOpts (fun _ => u) (.single idle s₁ [syn.wire] [])
      (.serverReceive () exampleEnv)
      = some (.single opened s₁ [] [(syn.createACK crc).wire]) :=
    Net.netStep_single_serverReceive (iteration_exampleSYN crc)
  have h₃ : netStep crc exampleOpts (fun _ => u)
      (.single opened s₁ [] [(syn.createACK crc).wire]) (.clientReceive () false)
      = some (.single opened s₂ [] []) := by
    refine Net.netStep_single_clientReceive ?_
    rw [ClientState.clientStep_datagram_wire rfl hsyn, ← hsyn.receive_wire]
    exact congrArg (fun s => some (s, []))
      (waitForACK_createACK (s := s₁) (u := u) (by decide) rfl (getSQN_init ..))
  have h₄ : netStep crc exampleOpts (fun _ => u) (.single opened s₂ [] [])
      (.client () (.openFile true)) = some (.single opened s₃ [] []) :=
    Net.netStep_single_client rfl rfl
  have h₅ : netStep crc exampleOpts (fun _ => u) (.single opened s₃ [] [])
      (.client () (.read none)) = some (.single opened s₄ [] []) :=
    Net.netStep_single_client rfl rfl
  have h₆ : netStep crc exampleOpts (fun _ => u) (.single opened s₄ [] [])
      (.client () (.sendto true)) = some (.single opened s₅ [data.wire] []) :=
    Net.netStep_single_send rfl rfl
  have h₇ : netStep crc exampleOpts (fun _ => u) (.single opened s₅ [data.wire] [])
      (.fault () .toServer (.duplicate 0))
      = some (.single opened s₅ [data.wire, data.wire] []) := by
    simp only [netStep, Fault.Yields]
    simp [Net.single, Net.setChannel, Net.channel, Fault.apply, Net.update_unit]
  have h₈ : netStep crc exampleOpts (fun _ => u)
      (.single opened s₅ [data.wire, data.wire] []) (.serverReceive () exampleEnv)
      = some (.single stored s₅ [data.wire] [(data.createACK crc).wire]) :=
    Net.netStep_single_serverReceive (iteration_exampleData crc)
  have h₉ : netStep crc exampleOpts (fun _ => u)
      (.single stored s₅ [data.wire] [(data.createACK crc).wire]) (.serverReceive () exampleEnv)
      = some (.single stored' s₅ [] [(data.createACK crc).wire, (data.createACK crc).wire]) := by
    refine Net.netStep_single_serverReceive ?_
    have hflags : data.flags = Flags.None ||| Flags.SQN := rfl
    have hsqn : data.getSQN = true := getSQN_init ..
    rw [iteration_wire (wellFormed_exampleData crc), onIntact_regular (by rw [hflags]; decide)
      (by rw [hflags]; decide)]
    exact onRegular_duplicate rfl (by rw [hsqn]; decide)
  refine ⟨_, .tail (.tail (.tail (.tail (.tail (.tail (.tail (.tail (.tail .refl ?_ h₁) ?_ h₂) ?_
    h₃) ?_ h₄) ?_ h₅) ?_ h₆) ?_ h₇) ?_ h₈) ?_ h₉, rfl⟩
  · trivial
  · exact rfl
  · trivial
  · exact rfl
  · exact rfl
  · trivial
  · trivial
  · exact rfl
  · exact rfl

/-- That duplicate is accounted for. -/
theorem example_duplicate_counted :
    ∃ (net : Net Unit) (t : UploadTally),
      net.server.status = .running (some { exampleSessionData with nDuplicates := 1 }) ∧
      (1 : UInt32).toNat ≤ t.sends.timeouts + t.sends.refused + t.repeats := by
  obtain ⟨net, hrun, hstatus⟩ := exists_run_duplicate CRC.crc32
  obtain ⟨t, hcounted⟩ := exists_tally () ⟨.start, 0⟩ hrun
  exact ⟨net, t, hstatus, nDuplicates_le CRC.crc32 exampleOpts exampleFs
    (fun _ => exampleUpload [7]) (distinct_unit _) () net t hcounted _ hstatus rfl⟩

end Rechnernetze.Bft
