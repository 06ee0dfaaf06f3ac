import Rechnernetze.Bft.ClientTheorems

/-!
# Retry accounting

Beside the client runs the number of timeouts in a row. As long as no empty datagram arrives,
`retry_count` is that number (`Waiting`), so `send_and_receive_response` throws with the timeout
after the last one it is allowed, and with nothing else. It takes every result of `recvfrom` that
is not positive for a failure and asks `errno`, so an empty datagram passes for a timeout or for
an error (`retry_accounting_iff`).
-/

namespace Rechnernetze.Bft

open Lib BftDatagram ClientState

/-- The client, and the timeouts in a row since the last datagram arrived. The handler of
`SIGINT` makes a call of its own, which starts at zero. -/
structure WaitingClient where
  client : ClientState
  timeouts : ℕ

namespace WaitingClient

def initial (crc : Bytes → UInt32) (u : Upload) : WaitingClient where
  client := .initial crc u
  timeouts := 0

/-- The timeouts in a row after an event. -/
def timeoutsAfter (n : ℕ) : ClientEvent → ℕ
  | .timeout => n + 1
  | .datagram .. => 0
  | .sigint => 0
  | _ => n

def step (crc : Bytes → UInt32) (u : Upload) (s : WaitingClient) (event : ClientEvent) :
    Option WaitingClient :=
  (clientNext crc u s.client event).map fun client => ⟨client, timeoutsAfter s.timeouts event⟩

/-- The exception of `send_and_receive_response` has been thrown. -/
def Thrown : PC → Prop
  | .exited .tooManyTimeouts | .exited .abortUnanswered => True
  | _ => False

/-- What is promised of a step from `s` to `t`. -/
structure Accounted (u : Upload) (s : WaitingClient) (event : ClientEvent) (t : WaitingClient) :
    Prop where
  /-- The exception comes with the timeout after the last one allowed, and at no other time. -/
  thrown_iff : ∀ call d k, s.client.pc = .receive call d k →
    (Thrown t.client.pc ↔
      0 ≤ maxTimeouts u call ∧ (t.timeouts : ℤ) = maxTimeouts u call + 1)
  /-- A datagram is no error, and is not counted as a timeout. -/
  datagram : ∀ sender bytes errnoAgain, event = .datagram sender bytes errnoAgain →
    t.client.pc ≠ .exited .receiveError ∧
      t.client.nRetransmissions = s.client.nRetransmissions

/-- If the event is the arrival of a datagram, then of one with at least one byte. -/
def NoEmptyDatagram (event : ClientEvent) : Prop :=
  ∀ sender bytes errnoAgain, event = .datagram sender bytes errnoAgain → bytes ≠ []

/-- The retry count of the call the client is in is the number of timeouts in a row, and has not
passed the limit. -/
def RetryCounted (u : Upload) (n : ℕ) : PC → Prop
  | .send call _ k | .receive call _ k =>
    0 ≤ maxTimeouts u call → k = n ∧ (n : ℤ) ≤ maxTimeouts u call
  | .openFile | .readFile => n = 0
  | .finished | .exited _ => True

section
variable {crc : Bytes → UInt32} {u : Upload} {s t : WaitingClient} {c c' : ClientState}
  {event : ClientEvent} {sends : List (SockaddrIn × Bytes)} {call : Call}
  {d response : BftDatagram} {k n : ℕ}

theorem retryCounted_zero : RetryCounted u 0 (.send call d 0) := fun hlimit => ⟨rfl, hlimit⟩

theorem retryCounted_afterACK : RetryCounted u 0 (afterACK call) := by
  cases call <;> trivial

theorem onTimeout_retryCounted (h : RetryCounted u n (.receive call d k)) :
    RetryCounted u (n + 1) (c.onTimeout u call d k).pc := by
  unfold onTimeout
  split
  · rename_i hlimit
    exact fun h0 => absurd h0 (by omega)
  · split
    · rename_i hlimit hk
      intro h0
      obtain ⟨rfl, -⟩ := h h0
      exact ⟨rfl, by push_cast; omega⟩
    · trivial

theorem Answered.retryCounted (h : ClientState.Answered crc c call d response c') :
    RetryCounted u 0 c'.pc := by
  cases h with
  | again => exact retryCounted_zero
  | busy => trivial
  | acknowledged => exact retryCounted_afterACK
  | abortAcknowledged => trivial

theorem Move.retryCounted (h : ClientState.Move crc u c event c' sends)
    (hevent : NoEmptyDatagram event) (hc : RetryCounted u n c.pc) :
    RetryCounted u (timeoutsAfter n event) c'.pc := by
  cases h with
  | sigint => exact retryCounted_zero
  | send hpc =>
    rw [hpc] at hc
    exact hc
  | sendError => trivial
  | timeout hpc =>
    rw [hpc] at hc
    exact onTimeout_retryCounted hc
  | receiveError => trivial
  | response => exact Answered.retryCounted (onResponse_cases ..)
  | emptyAgain => exact absurd rfl (hevent _ _ _ rfl)
  | emptyError => exact absurd rfl (hevent _ _ _ rfl)
  | openFile hpc =>
    rw [hpc] at hc
    exact hc
  | read hpc =>
    rw [hpc] at hc
    obtain ⟨call, d, -, hpc'⟩ := onRead_pc crc u c _
    rw [hpc']
    exact fun hlimit => ⟨hc.symm, by rw [show n = 0 from hc]; exact hlimit⟩

theorem reaches_retryCounted
    (h : Reaches (step crc u) (fun _ event => NoEmptyDatagram event) (initial crc u) s) :
    RetryCounted u s.timeouts s.client.pc := by
  refine h.invariant (I := fun s => RetryCounted u s.timeouts s.client.pc) retryCounted_zero ?_
  intro s event t hs hevent hstep
  obtain ⟨client, hnext, rfl⟩ := Option.map_eq_some_iff.mp hstep
  obtain ⟨⟨client, sends⟩, hclient, rfl⟩ := Option.map_eq_some_iff.mp hnext
  exact Move.retryCounted (clientStep_cases hclient) hevent hs

/-! ## The steps -/

theorem onTimeout_thrown_iff (h : RetryCounted u n (.receive call d k)) :
    Thrown (c.onTimeout u call d k).pc ↔
      0 ≤ maxTimeouts u call ∧ ((n + 1 : ℕ) : ℤ) = maxTimeouts u call + 1 := by
  unfold onTimeout
  split
  · rename_i hlimit
    exact ⟨False.elim, fun h => absurd h.1 (by omega)⟩
  · rename_i hlimit
    obtain ⟨rfl, hle⟩ := h (by omega)
    split
    · rename_i hk
      exact ⟨False.elim, fun h => absurd h.2 (by omega)⟩
    · rename_i hk
      refine ⟨fun _ => ⟨by omega, by omega⟩, fun _ => ?_⟩
      dsimp only
      split <;> trivial

/-- A response ends the call, or makes it start again. -/
theorem Answered.quiet (h : ClientState.Answered crc c call d response c') :
    ¬ Thrown c'.pc ∧ c'.pc ≠ .exited .receiveError ∧
      c'.nRetransmissions = c.nRetransmissions := by
  cases h with
  | again => exact ⟨id, nofun, rfl⟩
  | busy => exact ⟨id, nofun, rfl⟩
  | acknowledged hcall =>
    cases call with
    | abr => exact absurd rfl hcall
    | syn | data | fin => exact ⟨id, nofun, rfl⟩
  | abortAcknowledged => exact ⟨id, nofun, rfl⟩

/-- A timeout is a retransmission, unless it throws. -/
theorem onTimeout_thrown_or (c : ClientState) (call : Call) (d : BftDatagram) (k : ℕ) :
    Thrown (c.onTimeout u call d k).pc ∨
      (c.onTimeout u call d k).nRetransmissions = c.nRetransmissions + 1 := by
  unfold onTimeout
  split
  · exact Or.inr rfl
  · split
    · exact Or.inr rfl
    · refine Or.inl ?_
      dsimp only
      split <;> trivial

theorem not_thrown_iff (hn : (n : ℤ) ≤ 0 ∨ (0 ≤ maxTimeouts u call → (n : ℤ) ≤ maxTimeouts u call))
    {pc : PC} (h : ¬ Thrown pc) :
    Thrown pc ↔ 0 ≤ maxTimeouts u call ∧ (n : ℤ) = maxTimeouts u call + 1 := by
  refine ⟨fun h' => absurd h' h, fun h' => ?_⟩
  omega

theorem Move.accounted (h : ClientState.Move crc u c event c' sends)
    (hc : RetryCounted u n c.pc) (hevent : NoEmptyDatagram event) :
    Accounted u ⟨c, n⟩ event ⟨c', timeoutsAfter n event⟩ := by
  cases h with
  | sigint => exact ⟨fun _ _ _ _ => not_thrown_iff (Or.inl (Int.le_refl _)) id, nofun⟩
  | send hpc =>
    refine ⟨fun _ _ _ hpc' => ?_, nofun⟩
    rw [hpc] at hpc'
    cases hpc'
  | sendError hpc =>
    refine ⟨fun _ _ _ hpc' => ?_, nofun⟩
    rw [hpc] at hpc'
    cases hpc'
  | timeout hpc =>
    rw [hpc] at hc
    refine ⟨fun call d k hpc' => ?_, nofun⟩
    rw [hpc] at hpc'
    cases hpc'
    exact onTimeout_thrown_iff hc
  | receiveError hpc =>
    rw [hpc] at hc
    refine ⟨fun call d k hpc' => ?_, nofun⟩
    rw [hpc] at hpc'
    cases hpc'
    exact not_thrown_iff (Or.inr fun h0 => (hc h0).2) id
  | @response call d k sender bytes errnoAgain hpc =>
    have hquiet := Answered.quiet
      (onResponse_cases crc { c with serverAddr := sender } call d (receive bytes))
    exact ⟨fun _ _ _ _ => not_thrown_iff (Or.inl (Int.le_refl _)) hquiet.1,
      fun _ _ _ _ => hquiet.2⟩
  | emptyAgain => exact absurd rfl (hevent _ _ _ rfl)
  | emptyError => exact absurd rfl (hevent _ _ _ rfl)
  | openFile hpc =>
    refine ⟨fun _ _ _ hpc' => ?_, nofun⟩
    rw [hpc] at hpc'
    cases hpc'
  | read hpc =>
    refine ⟨fun _ _ _ hpc' => ?_, nofun⟩
    rw [hpc] at hpc'
    cases hpc'

/-- An empty datagram is taken for a timeout or for an error. -/
theorem not_accounted_empty {sender : SockaddrIn} {errnoAgain : Bool}
    (h : ClientState.Move crc u c (.datagram sender [] errnoAgain) c' sends) :
    ¬ Accounted u ⟨c, n⟩ (.datagram sender [] errnoAgain) ⟨c', 0⟩ := by
  intro haccount
  obtain ⟨herror, hcount⟩ := haccount.datagram _ _ _ rfl
  cases h with
  | response _ hbytes => exact hbytes rfl
  | @emptyAgain call d k _ hpc =>
    rcases onTimeout_thrown_or (u := u) { c with serverAddr := sender } call d k with h | h
    · obtain ⟨h0, hlimit⟩ := (haccount.thrown_iff call d k hpc).mp h
      have : ((0 : ℕ) : ℤ) = maxTimeouts u call + 1 := hlimit
      omega
    · exact absurd (h.symm.trans hcount) (by simp)
  | emptyError => exact herror rfl

end

/-- **Retries are accounted for**, as long as no empty datagram arrives. -/
theorem retry_accounting_iff (crc : Bytes → UInt32) (u : Upload) (s : WaitingClient)
    (h : Reaches (step crc u) (fun _ event => NoEmptyDatagram event) (initial crc u) s)
    (event : ClientEvent) (t : WaitingClient) (hstep : step crc u s event = some t) :
    Accounted u s event t ↔ NoEmptyDatagram event := by
  obtain ⟨client, hnext, rfl⟩ := Option.map_eq_some_iff.mp hstep
  obtain ⟨⟨client, sends⟩, hclient, rfl⟩ := Option.map_eq_some_iff.mp hnext
  have hmove := clientStep_cases hclient
  refine ⟨fun haccount sender bytes errnoAgain hevent hbytes => ?_,
    Move.accounted hmove (reaches_retryCounted h)⟩
  subst hevent hbytes
  exact not_accounted_empty hmove haccount

/-- A client that gives up after one timeout. -/
def impatientUpload : Upload := { exampleUpload [] with maxConsecTimeouts := 0 }

/-- That client while it waits for the answer to its SYN. -/
def awaitingACK (crc : Bytes → UInt32) : ClientState :=
  { ClientState.initial crc impatientUpload with
    pc := .receive .syn (.ofString crc Flags.SYN impatientUpload.name false) 0 }

/-- One timeout, and the client gives up. -/
theorem impatient_accounted :
    Accounted impatientUpload ⟨awaitingACK CRC.crc32, 0⟩ .timeout
      ⟨{ awaitingACK CRC.crc32 with pc := .exited .tooManyTimeouts }, 1⟩ := by
  have hsent : step CRC.crc32 impatientUpload (initial CRC.crc32 impatientUpload) (.sendto true)
      = some ⟨awaitingACK CRC.crc32, 0⟩ := rfl
  have hevent : NoEmptyDatagram (.sendto true) := nofun
  exact (retry_accounting_iff CRC.crc32 impatientUpload _ (.tail .refl hevent hsent) .timeout _
    rfl).mpr nofun

/-- The server answers the SYN with an empty datagram, and the client ends with an error. -/
theorem empty_datagram_is_error :
    ¬ ∀ (u : Upload) (s : WaitingClient) (event : ClientEvent) (t : WaitingClient),
      Reaches (step CRC.crc32 u) anyStep (initial CRC.crc32 u) s →
      step CRC.crc32 u s event = some t → Accounted u s event t := by
  intro h
  have hsent : step CRC.crc32 impatientUpload (initial CRC.crc32 impatientUpload) (.sendto true)
      = some ⟨awaitingACK CRC.crc32, 0⟩ := rfl
  have haccount := h impatientUpload _ (.datagram exampleServer [] false) _
    (.tail .refl trivial hsent) rfl
  exact (haccount.datagram _ _ _ rfl).1 rfl

end WaitingClient

end Rechnernetze.Bft
