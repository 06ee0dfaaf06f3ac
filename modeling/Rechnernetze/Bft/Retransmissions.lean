import Mathlib.Algebra.Ring.Nat
import Rechnernetze.Bft.ClientTheorems

/-!
# The number of retransmissions

A datagram is sent again after a timeout, in `send_and_receive_response`, and after a response
that is not its acknowledgement, in `send_datagram_and_wait_for_ACK`. Only the first loop counts
`nRetransmissions`. Beside the client runs a `SendTally` of all of it: the number reported at
the end of `main` is right exactly if every response was the acknowledgement awaited and the
timeouts fit the counter (`nRetransmissions_eq_iff`).
-/

namespace Rechnernetze.Bft

open Lib BftDatagram ClientState

/-- What is counted of a run of the client. -/
structure SendTally where
  /-- Calls of `sendto` that have sent their datagram. -/
  sent : ℕ
  /-- The datagrams made: the SYN, one for each data chunk, and the FIN. -/
  made : ℕ
  /-- Timeouts, and empty datagrams that pass for one. -/
  timeouts : ℕ
  /-- Responses that are not the acknowledgement awaited. -/
  refused : ℕ

namespace SendTally

/-- Before the SYN is sent. -/
def start : SendTally := ⟨0, 1, 0, 0⟩

/-- The response is the acknowledgement the client waits for. -/
def awaited (crc : Bytes → UInt32) (s : ClientState) (response : BftDatagram) : Bool :=
  match s.pc with
  | .receive _ d _ =>
    response.checkIntegrity crc && response.getSQN == s.currSQN && response.isACKFor d
  | _ => false

/-- The client in state `s` takes a step. -/
def count (crc : Bytes → UInt32) (s : ClientState) (t : SendTally) : ClientEvent → SendTally
  | .sendto true => { t with sent := t.sent + 1 }
  | .read _ => { t with made := t.made + 1 }
  | .timeout => { t with timeouts := t.timeouts + 1 }
  | .datagram _ bytes _ =>
    if bytes = [] then { t with timeouts := t.timeouts + 1 }
    else if awaited crc s (receive bytes) then t
    else { t with refused := t.refused + 1 }
  | _ => t

end SendTally

/-- A step of the client, together with the tally. -/
def talliedStep (crc : Bytes → UInt32) (u : Upload) (s : ClientState × SendTally)
    (event : ClientEvent) : Option (ClientState × SendTally) :=
  (clientNext crc u s.1 event).map fun client => (client, s.2.count crc s.1 event)

/-- Whether a datagram is due to be sent. -/
def PC.due : PC → ℕ
  | .send .. => 1
  | _ => 0

/-- **Where every datagram sent comes from**, as long as the upload goes on: it is the first of
its call, or there was a timeout or a response that was refused. Only the timeouts have been
counted. -/
def Balanced (s : ClientState) (t : SendTally) : Prop :=
  ¬ Aborting s.pc → t.sent + s.pc.due = t.made + t.timeouts + t.refused ∧
    s.nRetransmissions.toNat = t.timeouts % 2 ^ 32

section
variable {crc : Bytes → UInt32} {u : Upload} {s s' : ClientState} {t : SendTally}
  {event : ClientEvent} {sends : List (SockaddrIn × Bytes)} {call : Call}
  {d response : BftDatagram} {k : ℕ} {sender : SockaddrIn}

theorem Balanced.onTimeout (hs : Balanced s t) (hpc : s.pc = .receive call d k) :
    Balanced ({ s with serverAddr := sender }.onTimeout u call d k)
      { t with timeouts := t.timeouts + 1 } := by
  rcases onTimeout_cases u { s with serverAddr := sender } call d k
    with ⟨k', h⟩ | ⟨-, e, -, -, h⟩ <;> rw [h]
  · intro hcall
    have hbalance := hs (by rw [hpc]; exact hcall)
    rw [hpc] at hbalance
    obtain ⟨hsent, hcount⟩ := hbalance
    change t.sent + 0 = t.made + t.timeouts + t.refused at hsent
    refine ⟨?_, ?_⟩
    · show t.sent + 1 = t.made + (t.timeouts + 1) + t.refused
      omega
    · show (s.nRetransmissions + 1).toNat = (t.timeouts + 1) % 2 ^ 32
      rw [UInt32.toNat_add, hcount]
      show (t.timeouts % 2 ^ 32 + 1) % 2 ^ 32 = _
      omega
  · exact fun h => absurd trivial h

/-- The acknowledgement awaited ends the call. -/
theorem Balanced.onAwaited (hs : Balanced s t) (hpc : s.pc = .receive call d k)
    (hawaited : SendTally.awaited crc s response = true) :
    Balanced ({ s with serverAddr := sender }.onResponse crc call d response) t := by
  unfold SendTally.awaited at hawaited
  rw [hpc] at hawaited
  simp only [Bool.and_eq_true, beq_iff_eq] at hawaited
  obtain ⟨⟨hcheck, hSQN⟩, hack⟩ := hawaited
  unfold onResponse
  split
  · rename_i hcall
    rw [handlerResponse_acknowledged hcheck hack]
    exact fun h => absurd trivial h
  · rename_i hcall
    by_cases hABR : response.getFlags &&& Flags.ABR = Flags.ABR ∧ response.getSQN = false
    · rw [waitForACK_busy hcheck hABR]
      exact fun h => absurd trivial h
    · rw [waitForACK_acknowledged (s := { s with serverAddr := sender }) hcheck hABR hSQN hack]
      intro _
      have hbalance := hs (by rw [hpc]; exact hcall)
      rw [hpc] at hbalance
      cases call with
      | abr => exact absurd rfl hcall
      | syn | data | fin => exact hbalance

/-- Any other response makes the client send its datagram again. -/
theorem Balanced.onRefused (hs : Balanced s t) (hpc : s.pc = .receive call d k)
    (hawaited : SendTally.awaited crc s response = false) :
    Balanced ({ s with serverAddr := sender }.onResponse crc call d response)
      { t with refused := t.refused + 1 } := by
  have hanswer := onResponse_cases crc { s with serverAddr := sender } call d response
  generalize ClientState.onResponse crc _ _ _ _ = s' at hanswer ⊢
  cases hanswer with
  | again =>
    intro hcall
    have hbalance := hs (by rw [hpc]; exact hcall)
    rw [hpc] at hbalance
    obtain ⟨hsent, hcount⟩ := hbalance
    change t.sent + 0 = t.made + t.timeouts + t.refused at hsent
    refine ⟨?_, hcount⟩
    show t.sent + 1 = t.made + t.timeouts + (t.refused + 1)
    omega
  | busy => exact fun h => absurd trivial h
  | acknowledged _ hcheck _ hSQN hack =>
    unfold SendTally.awaited at hawaited
    rw [hpc] at hawaited
    dsimp only at hawaited hSQN
    rw [hcheck, hSQN, hack] at hawaited
    simp at hawaited
  | abortAcknowledged => exact fun h => absurd trivial h

theorem Balanced.move (h : Move crc u s event s' sends) (hs : Balanced s t) :
    Balanced s' (t.count crc s event) := by
  cases h with
  | sigint => exact fun h => absurd rfl h
  | send hpc =>
    intro hcall
    have hbalance := hs (by rw [hpc]; exact hcall)
    rw [hpc] at hbalance
    exact hbalance
  | sendError => exact fun h => absurd trivial h
  | timeout hpc => exact hs.onTimeout hpc
  | receiveError => exact fun h => absurd trivial h
  | @response call d k sender bytes errnoAgain hpc hbytes =>
    unfold SendTally.count
    dsimp only
    rw [if_neg hbytes]
    split
    · rename_i hawaited
      exact hs.onAwaited hpc hawaited
    · rename_i hawaited
      exact hs.onRefused hpc ((Bool.not_eq_true _).mp hawaited)
  | emptyAgain hpc => exact hs.onTimeout hpc
  | emptyError => exact fun h => absurd trivial h
  | openFile hpc =>
    intro _
    have hbalance := hs (by rw [hpc]; exact id)
    rw [hpc] at hbalance
    exact hbalance
  | @read fault hpc =>
    intro _
    obtain ⟨hsent, hcount⟩ := hs (by rw [hpc]; exact id)
    rw [hpc] at hsent
    change t.sent + 0 = t.made + t.timeouts + t.refused at hsent
    obtain ⟨call, d, -, hpc'⟩ := onRead_pc crc u s fault
    rw [hpc']
    refine ⟨?_, hcount⟩
    show t.sent + 1 = t.made + 1 + t.timeouts + t.refused
    omega

end

/-- **The number of retransmissions** of a run that reaches the end of `main`. -/
theorem nRetransmissions_eq_iff (crc : Bytes → UInt32) (u : Upload) (s : ClientState)
    (t : SendTally) (h : Reaches (talliedStep crc u) anyStep (.initial crc u, .start) (s, t))
    (hend : s.pc = .finished) :
    (s.nRetransmissions.toNat : ℤ) = t.sent - t.made ↔ t.refused = 0 ∧ t.timeouts < 2 ^ 32 := by
  have hbalanced : Balanced s t := by
    refine h.invariant (I := fun s => Balanced s.1 s.2) (fun _ => ⟨rfl, rfl⟩) ?_
    intro s event s' hs _ hstep
    obtain ⟨client, hnext, rfl⟩ := Option.map_eq_some_iff.mp hstep
    obtain ⟨⟨client, sends⟩, hclient, rfl⟩ := Option.map_eq_some_iff.mp hnext
    exact hs.move (clientStep_cases hclient)
  obtain ⟨hsent, hcount⟩ := hbalanced (by rw [hend]; exact id)
  rw [hend] at hsent
  change t.sent + 0 = t.made + t.timeouts + t.refused at hsent
  omega

/-! ## Runs of a client with an empty file -/

/-- The client waits for the answer to its SYN. -/
def afterSYN (crc : Bytes → UInt32) (n : UInt32) : ClientState :=
  { ClientState.initial crc (exampleUpload []) with
    pc := .receive .syn (.ofString crc Flags.SYN (exampleUpload []).name false) 0
    nRetransmissions := n }

/-- Its FIN has been acknowledged. -/
def afterFIN (crc : Bytes → UInt32) (n : UInt32) : ClientState :=
  { ClientState.initial crc (exampleUpload []) with
    pc := .finished
    nRetransmissions := n
    file := ⟨[], false⟩ }

section
variable {crc : Bytes → UInt32} {u : Upload} {s : ClientState} {t : SendTally} {call : Call}
  {d : BftDatagram} {k : ℕ}

theorem talliedStep_createACK (hpc : s.pc = .receive call d k) (hcall : call ≠ .abr)
    (hd : OfCall crc u call d) (hsqn : d.getSQN = s.currSQN) :
    talliedStep crc u (s, t) (.datagram s.serverAddr (d.createACK crc).wire false)
      = some ({ s with pc := afterACK call, currSQN := s.currSQN ^^ true }, t) := by
  have hack : (d.createACK crc).WellFormed crc := wellFormed_createACK d
  have hawaited : SendTally.awaited crc s (receive (d.createACK crc).wire) = true := by
    unfold SendTally.awaited
    rw [hpc, hack.receive_wire]
    dsimp only
    rw [hack.checkIntegrity, getSQN_createACK, hsqn, isACKFor_createACK (hd.flags hcall).1]
    simp
  have hcount : t.count crc s (.datagram s.serverAddr (d.createACK crc).wire false) = t := by
    unfold SendTally.count
    dsimp only
    rw [if_neg hack.wire_ne_nil, if_pos hawaited]
  have hnext : clientStep crc u s (.datagram s.serverAddr (d.createACK crc).wire false) = _ :=
    clientStep_datagram_wire hpc hack
  have hwait := waitForACK_createACK (s := s) hcall hd hsqn
  rw [hack.receive_wire] at hwait
  rw [talliedStep, clientNext, hnext, hcount, onResponse, if_neg hcall]
  exact congrArg (fun s => some (s, t)) hwait

/-- From the SYN on nothing goes wrong. -/
theorem reaches_afterFIN (crc : Bytes → UInt32) (n : UInt32) (t : SendTally) :
    Reaches (talliedStep crc (exampleUpload [])) anyStep (afterSYN crc n, t)
      (afterFIN crc n, { t with made := t.made + 1, sent := t.sent + 1 }) := by
  let fin : BftDatagram := .ofFlags crc Flags.FIN true
  let s₁ : ClientState := { afterSYN crc n with pc := .openFile, currSQN := true }
  let s₂ : ClientState := { s₁ with pc := .readFile, file := ⟨[], true⟩ }
  let s₃ : ClientState := { s₁ with pc := .send .fin fin 0, file := ⟨[], false⟩ }
  let s₄ : ClientState := { s₃ with pc := .receive .fin fin 0 }
  let t₁ : SendTally := { t with made := t.made + 1 }
  let t₂ : SendTally := { t₁ with sent := t.sent + 1 }
  have hSYN := talliedStep_createACK (u := exampleUpload []) (s := afterSYN crc n) (t := t) rfl
    nofun (show OfCall crc _ .syn _ from rfl) (getSQN_init ..)
  have hopen : talliedStep crc (exampleUpload []) (s₁, t) (.openFile true) = some (s₂, t) := rfl
  have hread : talliedStep crc (exampleUpload []) (s₂, t) (.read none) = some (s₃, t₁) := rfl
  have hsend : talliedStep crc (exampleUpload []) (s₃, t₁) (.sendto true) = some (s₄, t₂) := rfl
  have hFIN := talliedStep_createACK (u := exampleUpload []) (s := s₄) (t := t₂) rfl nofun
    (show OfCall crc _ .fin _ from ⟨true, rfl⟩) (getSQN_init ..)
  exact .tail (.tail (.tail (.tail (.tail .refl trivial hSYN) trivial hopen) trivial hread) trivial
    hsend) trivial hFIN

end

/-- One timeout, one retransmission. -/
theorem one_timeout_counted :
    ((afterFIN CRC.crc32 1).nRetransmissions.toNat : ℤ) = (3 : ℕ) - (2 : ℕ) := by
  let s₀ := ClientState.initial CRC.crc32 (exampleUpload [])
  have hsend : talliedStep CRC.crc32 (exampleUpload []) (s₀, .start) (.sendto true)
      = some (afterSYN CRC.crc32 0, ⟨1, 1, 0, 0⟩) := rfl
  have htimeout : talliedStep CRC.crc32 (exampleUpload []) (afterSYN CRC.crc32 0, ⟨1, 1, 0, 0⟩)
      .timeout = some ({ s₀ with nRetransmissions := 1 }, ⟨1, 1, 1, 0⟩) := rfl
  have hagain : talliedStep CRC.crc32 (exampleUpload []) ({ s₀ with nRetransmissions := 1 },
      ⟨1, 1, 1, 0⟩) (.sendto true) = some (afterSYN CRC.crc32 1, ⟨2, 1, 1, 0⟩) := rfl
  have hwaiting : Reaches (talliedStep CRC.crc32 (exampleUpload [])) anyStep (s₀, .start)
      (afterSYN CRC.crc32 1, ⟨2, 1, 1, 0⟩) :=
    .tail (.tail (.tail .refl trivial hsend) trivial htimeout) trivial hagain
  exact (nRetransmissions_eq_iff CRC.crc32 (exampleUpload []) (afterFIN CRC.crc32 1) ⟨3, 2, 1, 0⟩
    (hwaiting.trans (reaches_afterFIN CRC.crc32 1 ⟨2, 1, 1, 0⟩)) rfl).mpr ⟨rfl, by decide⟩

/-- Whatever the checksum function: the SYN is sent again after an AGN. -/
theorem reaches_afterFIN_again (crc : Bytes → UInt32) :
    Reaches (talliedStep crc (exampleUpload [])) anyStep
      (.initial crc (exampleUpload []), .start) (afterFIN crc 0, ⟨3, 2, 0, 1⟩) := by
  let s₀ := ClientState.initial crc (exampleUpload [])
  let response : BftDatagram := .ofFlags crc Flags.AGN false
  let d : BftDatagram := .ofString crc Flags.SYN (exampleUpload []).name false
  have hwf : response.WellFormed crc := wellFormed_init ..
  have hack : response.isACKFor d = false := by
    rw [isACKFor_of_flags (show response.flags = Flags.AGN from rfl)
      (show d.flags = Flags.SYN from rfl)]
    decide
  have hABR : ¬ (response.getFlags &&& Flags.ABR = Flags.ABR ∧ response.getSQN = false) := by
    show ¬ (Flags.AGN &&& Flags.ABR = Flags.ABR ∧ _)
    exact fun h => absurd h.1 (by decide)
  have hsend : talliedStep crc (exampleUpload []) (s₀, .start) (.sendto true)
      = some (afterSYN crc 0, ⟨1, 1, 0, 0⟩) := rfl
  have hagain : talliedStep crc (exampleUpload []) (afterSYN crc 0, ⟨1, 1, 0, 0⟩)
      (.datagram exampleServer response.wire false) = some (s₀, ⟨1, 1, 0, 1⟩) := by
    have hrefused : SendTally.awaited crc (afterSYN crc 0) (receive response.wire) = false := by
      rw [hwf.receive_wire]
      show (_ && response.isACKFor d) = false
      rw [hack, Bool.and_false]
    have hcount : SendTally.count crc (afterSYN crc 0) ⟨1, 1, 0, 0⟩
        (.datagram exampleServer response.wire false) = ⟨1, 1, 0, 1⟩ := by
      unfold SendTally.count
      dsimp only
      rw [if_neg hwf.wire_ne_nil, if_neg (by rw [hrefused]; decide)]
    rw [talliedStep, clientNext, clientStep_datagram_wire rfl hwf, hcount]
    exact congrArg (fun s => some (s, _)) (waitForACK_again (s := afterSYN crc 0) hABR hack)
  have hresend : talliedStep crc (exampleUpload []) (s₀, ⟨1, 1, 0, 1⟩) (.sendto true)
      = some (afterSYN crc 0, ⟨2, 1, 0, 1⟩) := rfl
  have hwaiting : Reaches (talliedStep crc (exampleUpload [])) anyStep (s₀, .start)
      (afterSYN crc 0, ⟨2, 1, 0, 1⟩) :=
    .tail (.tail (.tail .refl trivial hsend) trivial hagain) trivial hresend
  exact hwaiting.trans (reaches_afterFIN crc 0 ⟨2, 1, 0, 1⟩)

/-- That retransmission is not counted. -/
theorem again_not_counted :
    ¬ ∀ (u : Upload) (s : ClientState) (t : SendTally),
      Reaches (talliedStep CRC.crc32 u) anyStep (.initial CRC.crc32 u, .start) (s, t) →
      s.pc = .finished → (s.nRetransmissions.toNat : ℤ) = t.sent - t.made := by
  intro h
  have hcount := h (exampleUpload []) _ _ (reaches_afterFIN_again CRC.crc32) rfl
  have hzero : (0 : ℤ) = (3 : ℕ) - (2 : ℕ) := hcount
  exact absurd hzero (by decide)

end Rechnernetze.Bft
