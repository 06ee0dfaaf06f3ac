import Rechnernetze.Bft.Conservation
import Rechnernetze.Lib.Text

/-!
# A client that does not time out

`main` turns the option `retransmission_timeout_ms` into the `timeval` that it sets for its socket.
It is the option's time exactly, for every `int` (`receiveTimeout_eq`), and 0 stands for no timeout
at all. Then nothing puts another datagram in the place of one that was lost: as soon as one more
is lost than repeated, the upload stands still for ever (`stalled_after_loss`).
-/

namespace Rechnernetze.Bft

open Lib BftDatagram ClientState

/-! ## The timeout of the socket -/

/-- `struct timeval`. -/
structure Timeval where
  tvSec : ℤ
  tvUsec : ℤ
deriving DecidableEq

/-- What `main` passes to `setsockopt` for `SO_RCVTIMEO`; `none` is an overflow. -/
def receiveTimeout (retransmissionTimeoutMs : ℤ) : Option Timeval :=
  let timeoutSec := retransmissionTimeoutMs.tdiv 1000
  if timeoutSec = 0 then
    if IsInt (retransmissionTimeoutMs * 1000) then
      some ⟨timeoutSec, retransmissionTimeoutMs * 1000⟩
    else none
  else
    let rest := retransmissionTimeoutMs.tmod (timeoutSec * 1000)
    if IsInt (timeoutSec * 1000) ∧ IsInt (rest * 1000) then some ⟨timeoutSec, rest * 1000⟩
    else none

section
variable {ms : ℤ}

/-- Seconds and what is left of the milliseconds. -/
theorem tdiv_tmod_thousand (ms : ℤ) :
    ms.tdiv 1000 * 1000 + ms.tmod 1000 = ms ∧ (0 ≤ ms → 0 ≤ ms.tmod 1000 ∧ 0 ≤ ms.tdiv 1000) ∧
      (ms ≤ 0 → ms.tmod 1000 ≤ 0 ∧ ms.tdiv 1000 ≤ 0) ∧
      -1000 < ms.tmod 1000 ∧ ms.tmod 1000 < 1000 := by
  have hsum := Int.tdiv_mul_add_tmod ms 1000
  have hlt := Int.tmod_lt_of_pos ms (show (0 : ℤ) < 1000 by decide)
  have hlt' := Int.tmod_lt_of_pos (-ms) (show (0 : ℤ) < 1000 by decide)
  rw [Int.neg_tmod] at hlt'
  have hpos : 0 ≤ ms → 0 ≤ ms.tmod 1000 := Int.tmod_nonneg 1000
  have hneg : ms ≤ 0 → ms.tmod 1000 ≤ 0 := by
    intro h
    have h' := Int.tmod_nonneg 1000 (show (0 : ℤ) ≤ -ms by omega)
    rw [Int.neg_tmod] at h'
    omega
  refine ⟨hsum, fun h => ⟨hpos h, ?_⟩, fun h => ⟨hneg h, ?_⟩, by omega, hlt⟩
  · have hrest := hpos h
    omega
  · have hrest := hneg h
    omega

/-- The remainder for whole seconds is the remainder for one second. -/
theorem tmod_seconds (h : ms.tdiv 1000 ≠ 0) :
    ms.tmod (ms.tdiv 1000 * 1000) = ms.tmod 1000 := by
  obtain ⟨hsum, hpos, hneg, hgt, hlt⟩ := tdiv_tmod_thousand ms
  have hne : ms.tdiv 1000 * 1000 ≠ 0 := by omega
  rcases Int.le_total 0 ms with h0 | h0
  · have hsec := hpos h0
    refine ((Int.tdiv_tmod_unique (q := 1) h0 hne).mpr ⟨by omega, hsec.1, ?_⟩).2
    omega
  · have hsec := hneg h0
    refine ((Int.tdiv_tmod_unique' (q := 1) h0 hne).mpr ⟨by omega, ?_, hsec.1⟩).2
    omega

/-- **The timeout is that of the option**, without an overflow: the two ways of the code come to
the seconds of the milliseconds and what is left. -/
theorem receiveTimeout_eq (h : IsInt ms) :
    receiveTimeout ms = some ⟨ms.tdiv 1000, ms.tmod 1000 * 1000⟩ := by
  obtain ⟨hsum, hpos, hneg, hgt, hlt⟩ := tdiv_tmod_thousand ms
  unfold IsInt intMax at h
  unfold receiveTimeout
  dsimp only
  by_cases hsec : ms.tdiv 1000 = 0
  · have hms : ms = ms.tmod 1000 := by omega
    rw [if_pos hsec, if_pos (by unfold IsInt intMax; omega), ← hms]
  · rw [if_neg hsec, tmod_seconds hsec, if_pos]
    unfold IsInt intMax
    omega

/-- Only 0 stands for no timeout. -/
theorem receiveTimeout_eq_zero_iff (h : IsInt ms) :
    receiveTimeout ms = some ⟨0, 0⟩ ↔ ms = 0 := by
  obtain ⟨hsum, -⟩ := tdiv_tmod_thousand ms
  rw [receiveTimeout_eq h, Option.some.injEq, Timeval.mk.injEq]
  constructor
  · rintro ⟨hsec, husec⟩
    omega
  · rintro rfl
    exact ⟨rfl, rfl⟩

end

/-! ## Runs without a timeout -/

/-- A socket with a timeout of 0 does not time out. -/
def Action.RespectsTimeout {ι : Type} (retransmissionTimeoutMs : ι → ℤ) : Action ι → Prop
  | .client i .timeout => receiveTimeout (retransmissionTimeoutMs i) ≠ some ⟨0, 0⟩
  | _ => True

/-- No signal interrupts client `i`, and its `recvfrom` does not fail. -/
def Action.Patient {ι : Type} (i : ι) : Action ι → Prop
  | .client j event => j = i → event ≠ .sigint ∧ event ≠ .receiveError
  | _ => True

/-- Client `i` waits, and nothing is under way that it could wait for. -/
structure Stalled {ι : Type} (up : ι → Upload) (i : ι) (client : ClientState) (net : Net ι) :
    Prop where
  addressed : Addressed up net
  client_eq : net.client i = client
  waiting : client.pc.waiting = true
  toServer : net.toServer i = []
  toClient : net.toClient i = []

section
variable {ι : Type} [DecidableEq ι] {crc : Bytes → UInt32} {opts : ServerOptions}
  {up : ι → Upload} {net net' : Net ι} {i j : ι} {action : Action ι} {t : Traffic} {u : Upload}
  {client s s' : ClientState} {event : ClientEvent} {sends : List (SockaddrIn × Bytes)}
  {ms : ι → ℤ}

/-- There are three ways out of `recvfrom` without a datagram. -/
theorem ClientState.Move.event_of_waiting (h : Move crc u s event s' sends)
    (hs : s.pc.waiting = true) (hevent : event.isDatagram = false) :
    event = .timeout ∨ event = .sigint ∨ event = .receiveError := by
  cases h with
  | sigint => exact Or.inr (Or.inl rfl)
  | timeout => exact Or.inl rfl
  | receiveError => exact Or.inr (Or.inr rfl)
  | response | emptyAgain | emptyError => cases hevent
  | send hpc | sendError hpc | openFile hpc | read hpc =>
    rw [hpc] at hs
    cases hs

omit [DecidableEq ι] in
/-- None of them is open to a client without a timeout. -/
theorem not_waiting_of_move (hms : ms i = 0) (hpatient : (Action.client i event).Patient i)
    (htimeout : (Action.client i event).RespectsTimeout ms) (hevent : event.isDatagram = false)
    (hmove : Move crc u s event s' sends) : s.pc.waiting = false := by
  by_contra hwaiting
  obtain ⟨hsigint, herror⟩ := hpatient rfl
  rcases hmove.event_of_waiting ((Bool.not_eq_false _).mp hwaiting) hevent with rfl | rfl | rfl
  · refine htimeout ((receiveTimeout_eq_zero_iff ?_).mpr hms)
    rw [hms]
    decide
  · exact hsigint rfl
  · exact herror rfl

/-- **Nothing can happen to a stalled client.** -/
theorem Stalled.step (h : Stalled up i client net) (hhosts : DifferentHosts up) (hms : ms i = 0)
    (hpatient : action.Patient i) (htimeout : action.RespectsTimeout ms)
    (hstep : netStep crc opts up net action = some net') : Stalled up i client net' := by
  have haddressed := h.addressed.step hstep
  cases netStep_cases hstep with
  | @client j event s sends hevent hmove =>
    by_cases hji : j = i
    · subst hji
      -- without a timeout only a datagram ends the waiting
      have hnot := not_waiting_of_move hms hpatient htimeout hevent hmove
      rw [h.client_eq, h.waiting] at hnot
      cases hnot
    · have hij : i ≠ j := Ne.symm hji
      exact ⟨haddressed, by simpa [Function.update_of_ne hij] using h.client_eq, h.waiting,
        by simpa [Function.update_of_ne hij] using h.toServer, by simpa using h.toClient⟩
  | @clientReceive j errnoAgain w rest s hchannel hmove =>
    have hij : i ≠ j := by
      rintro rfl
      rw [h.toClient] at hchannel
      cases hchannel
    exact ⟨haddressed, by simpa [Function.update_of_ne hij] using h.client_eq, h.waiting,
      by simpa [Function.update_of_ne hij] using h.toServer,
      by simpa [Function.update_of_ne hij] using h.toClient⟩
  | @serverReceive j env currentClient w rest hstatus hchannel =>
    have hij : i ≠ j := by
      rintro rfl
      rw [h.toServer] at hchannel
      cases hchannel
    refine ⟨haddressed, h.client_eq, h.waiting, ?_, ?_⟩
    · simpa [Function.update_of_ne hij] using h.toServer
    · rw [Net.toClient_afterServer, h.addressed.filter_sends hhosts hstatus hij]
      simpa using h.toClient
  | @fault j direction f hf =>
    by_cases hji : j = i
    · subst hji
      refine ⟨haddressed, by simpa using h.client_eq, h.waiting, ?_, ?_⟩
      · cases direction with
        | toServer => simpa [Net.channel, h.toServer] using f.apply_nil
        | toClient => simpa using h.toServer
      · cases direction with
        | toServer => simpa using h.toClient
        | toClient => simpa [Net.channel, h.toClient] using f.apply_nil
    · have hij : i ≠ j := Ne.symm hji
      refine ⟨haddressed, by simpa using h.client_eq, h.waiting, ?_, ?_⟩
      · cases direction <;> simpa [Function.update_of_ne hij] using h.toServer
      · cases direction <;> simpa [Function.update_of_ne hij] using h.toClient

/-- Without a timeout the client waits for each of its answers. -/
theorem unanswered_eq_zero {net₀ : Net ι} (hms : ms i = 0)
    (hrun : Reaches (trafficStep crc opts up i)
      (fun _ action => action.Patient i ∧ action.RespectsTimeout ms) (net₀, ⟨0, 0, 0⟩) (net, t)) :
    t.unanswered = 0 := by
  refine hrun.invariant (I := fun x => x.2.unanswered = 0) rfl ?_
  intro x action x' h hok hstep
  obtain ⟨net', hnet, rfl⟩ := Option.map_eq_some_iff.mp hstep
  cases netStep_cases hnet with
  | @client j event s sends hevent hmove =>
    by_cases hji : j = i
    · subst hji
      have hnot := not_waiting_of_move hms hok.1 hok.2 hevent hmove
      show (x.2.count j x.1 (.client j event)).unanswered = 0
      rw [Traffic.count, if_neg fun h => absurd (hnot.symm.trans h.2) (by decide)]
      exact h
    · show (x.2.count i x.1 (.client j event)).unanswered = 0
      rw [Traffic.count, if_neg fun h => hji h.1]
      exact h
  | @fault j direction f hf =>
    show (x.2.count i x.1 (.fault j direction f)).unanswered = 0
    unfold Traffic.count
    dsimp only
    split
    · exact h
    · exact h
  | _ => exact h

end

/-- **An upload without a timeout stands still** as soon as one more datagram of its exchange has
been lost than repeated, in every run in which the server lives so far: the client then waits for
ever, whatever happens to the others. -/
theorem stalled_after_loss {ι : Type} [DecidableEq ι] (crc : Bytes → UInt32) (opts : ServerOptions)
    (fs₀ : FileSystem) (up : ι → Upload) (hhosts : DifferentHosts up) (ms : ι → ℤ) (i : ι)
    (hms : ms i = 0) (net net' : Net ι) (t : Traffic)
    (hrun : Reaches (trafficStep crc opts up i)
      (fun _ action => action.Patient i ∧ action.RespectsTimeout ms)
      (Net.initial up crc fs₀, ⟨0, 0, 0⟩) (net, t))
    (hlive : ∀ e, net.server.status ≠ .stopped e) (hlost : t.repeated < t.lost)
    (hlater : Reaches (netStep crc opts up)
      (fun _ action => action.Patient i ∧ action.RespectsTimeout ms) net net') :
    (net'.client i).pc.waiting = true ∧ net'.client i = net.client i ∧ net'.underWay i = 0 := by
  obtain ⟨haddressed, hbalance⟩ := balance_of_reaches hhosts hrun
  have hsum := hbalance hlive
  have hunanswered := unanswered_eq_zero hms hrun
  -- the balance leaves nothing to hold and nothing under way
  have hheld : (net.client i).pc.held = 0 := by omega
  have hnone : net.underWay i = 0 := by omega
  have hwaiting : (net.client i).pc.waiting = true := by
    unfold PC.held at hheld
    split at hheld
    · assumption
    · cases hheld
  unfold Net.underWay at hnone
  have hstalled : Stalled up i (net.client i) net :=
    ⟨haddressed, rfl, hwaiting, List.length_eq_zero_iff.mp (by omega),
      List.length_eq_zero_iff.mp (by omega)⟩
  have hlater' : Stalled up i (net.client i) net' := by
    refine hlater.invariant (I := Stalled up i (net.client i)) hstalled ?_
    intro _ action _ h hok hstep
    exact h.step hhosts hms hok.1 hok.2 hstep
  refine ⟨by rw [hlater'.client_eq]; exact hwaiting, hlater'.client_eq, ?_⟩
  rw [Net.underWay, hlater'.toServer, hlater'.toClient]
  rfl

/-- The only SYN is lost. -/
theorem example_stalled :
    ∃ net : Net Unit, (net.client ()).pc.waiting = true ∧ net.underWay () = 0 := by
  let u := exampleUpload []
  let server : ServerState := ⟨exampleFs, .running none⟩
  let s₀ : ClientState := .initial CRC.crc32 u
  let d : BftDatagram := .ofString CRC.crc32 Flags.SYN u.name false
  let s₁ : ClientState := { s₀ with pc := .receive .syn d 0 }
  let step := trafficStep CRC.crc32 exampleOpts (fun _ : Unit => u) ()
  let ok : Action Unit → Prop := fun action =>
    action.Patient () ∧ action.RespectsTimeout fun _ => 0
  have hsend : step (.single server s₀ [] [], ⟨0, 0, 0⟩) (.client () (.sendto true))
      = some (.single server s₁ [d.wire] [], ⟨0, 0, 0⟩) := by
    show (netStep ..).map _ = _
    rw [Net.netStep_single_send (u := u) (s := s₀) rfl rfl]
    rfl
  have hlose : step (.single server s₁ [d.wire] [], ⟨0, 0, 0⟩) (.fault () .toServer (.lose 0))
      = some (.single server s₁ [] [], ⟨1, 0, 0⟩) := by
    show (netStep ..).map _ = _
    simp only [netStep, Fault.Yields]
    simp [Net.single, Net.setChannel, Net.channel, Fault.apply, Net.update_unit, Traffic.count,
      Fault.added, Fault.removed]
  have hpatient : ok (.client () (.sendto true)) := ⟨fun _ => ⟨by decide, by decide⟩, trivial⟩
  have hfault : ok (.fault () .toServer (.lose 0)) := ⟨trivial, trivial⟩
  have hrun : Reaches step (fun _ => ok)
      (Net.initial (fun _ => u) CRC.crc32 exampleFs, ⟨0, 0, 0⟩)
      (.single server s₁ [] [], ⟨1, 0, 0⟩) :=
    .tail (.tail .refl hpatient hsend) hfault hlose
  have hlive : ∀ e, server.status ≠ .stopped e := by
    intro e he
    cases he
  obtain ⟨hwaiting, -, hnone⟩ := stalled_after_loss CRC.crc32 exampleOpts exampleFs (fun _ => u)
    (differentHosts_unit u) (fun _ => 0) () rfl _ _ _ hrun hlive (by decide) .refl
  exact ⟨_, hwaiting, hnone⟩

end Rechnernetze.Bft
