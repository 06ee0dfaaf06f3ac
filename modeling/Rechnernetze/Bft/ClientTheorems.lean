import Mathlib.Tactic.Common
import Rechnernetze.Lib.Runs
import Rechnernetze.Bft.Client
import Rechnernetze.Bft.DatagramTheorems

/-!
# What the client can do

* one inversion lemma for a step (`clientStep_cases`), one for a timeout and one for the
  evaluation of a response;
* whatever happens, it sends the datagrams of its calls only (`Move.inHand`);
* the client talks to the endpoint of its options as long as nobody else talks to it
  (`talks_to_server_only`): `recvfrom` stores the sender of every datagram in
  `server_addr`.
-/

namespace Rechnernetze.Bft

open Lib BftDatagram

namespace ClientState

section
variable {crc : Bytes → UInt32} {u : Upload} {s s' : ClientState} {event : ClientEvent}
  {sends : List (SockaddrIn × Bytes)} {call : Call} {d response : BftDatagram} {k : ℕ}

/-! ## Timeouts and responses -/

/-- After a timeout the datagram is sent again, unless the limit of timeouts is reached. -/
theorem onTimeout_cases (u : Upload) (s : ClientState) (call : Call) (d : BftDatagram) (k : ℕ) :
    (∃ k', s.onTimeout u call d k
        = { s with pc := .send call d k', nRetransmissions := s.nRetransmissions + 1 }) ∨
      0 ≤ maxTimeouts u call ∧ ∃ e, e ≠ .serverBusy ∧ e ≠ .abortAcknowledged ∧
        s.onTimeout u call d k = { s with pc := .exited e } := by
  unfold onTimeout
  split
  · exact Or.inl ⟨k, rfl⟩
  · rename_i hlimit
    split
    · exact Or.inl ⟨k + 1, rfl⟩
    · refine Or.inr ⟨by omega, _, ?_, ?_, rfl⟩
      · split <;> decide
      · split <;> decide

/-- What can follow a response to the datagram `d` of `call`. -/
inductive Answered (crc : Bytes → UInt32) (s : ClientState) (call : Call)
    (d response : BftDatagram) : ClientState → Prop
  /-- The datagram is sent again. -/
  | again : Answered crc s call d response { s with pc := .send call d 0 }
  | busy (hcall : call ≠ .abr) (hcheck : response.checkIntegrity crc = true)
      (hABR : response.getFlags &&& Flags.ABR = Flags.ABR) (hSQN : response.getSQN = false) :
      Answered crc s call d response { s with pc := .exited .serverBusy }
  | acknowledged (hcall : call ≠ .abr) (hcheck : response.checkIntegrity crc = true)
      (hABR : ¬ (response.getFlags &&& Flags.ABR = Flags.ABR ∧ response.getSQN = false))
      (hSQN : response.getSQN = s.currSQN) (hack : response.isACKFor d = true) :
      Answered crc s call d response
        { s with pc := afterACK call, currSQN := s.currSQN ^^ true }
  | abortAcknowledged (hcall : call = .abr) (hcheck : response.checkIntegrity crc = true)
      (hack : response.isACKFor d = true) :
      Answered crc s call d response { s with pc := .exited .abortAcknowledged }

theorem waitForACK_cases (hcall : call ≠ .abr) :
    Answered crc s call d response (s.waitForACK crc call d response) := by
  unfold waitForACK
  split
  · exact .again
  · rename_i hcheck
    rw [Bool.not_eq_false] at hcheck
    split
    · rename_i hbusy
      exact .busy hcall hcheck hbusy.1 hbusy.2
    · rename_i hABR
      split
      · exact .again
      · rename_i hSQN
        split
        · rename_i hack
          exact .acknowledged hcall hcheck hABR (not_not.mp hSQN) hack
        · exact .again

/-- An answer that is neither a refusal nor the expected acknowledgement is ignored. -/
theorem waitForACK_again
    (hABR : ¬ (response.getFlags &&& Flags.ABR = Flags.ABR ∧ response.getSQN = false))
    (hack : response.isACKFor d = false) :
    s.waitForACK crc call d response = { s with pc := .send call d 0 } := by
  unfold waitForACK
  rw [if_neg hABR]
  split
  · rfl
  · split
    · rfl
    · rw [if_neg (by rw [hack]; decide)]

theorem waitForACK_busy (hcheck : response.checkIntegrity crc = true)
    (hABR : response.getFlags &&& Flags.ABR = Flags.ABR ∧ response.getSQN = false) :
    s.waitForACK crc call d response = { s with pc := .exited .serverBusy } := by
  rw [waitForACK, if_neg (by rw [hcheck]; decide), if_pos hABR]

theorem waitForACK_acknowledged (hcheck : response.checkIntegrity crc = true)
    (hABR : ¬ (response.getFlags &&& Flags.ABR = Flags.ABR ∧ response.getSQN = false))
    (hSQN : response.getSQN = s.currSQN) (hack : response.isACKFor d = true) :
    s.waitForACK crc call d response
      = { s with pc := afterACK call, currSQN := s.currSQN ^^ true } := by
  rw [waitForACK, if_neg (by rw [hcheck]; decide), if_neg hABR, if_neg (not_not.mpr hSQN),
    if_pos hack]

theorem handlerResponse_cases :
    Answered crc s .abr d response (s.handlerResponse crc d response) := by
  unfold handlerResponse
  split
  · exact .again
  · rename_i h
    rw [not_or, Bool.not_eq_false, Bool.not_eq_false] at h
    exact .abortAcknowledged rfl h.1 h.2

theorem handlerResponse_acknowledged (hcheck : response.checkIntegrity crc = true)
    (hack : response.isACKFor d = true) :
    s.handlerResponse crc d response = { s with pc := .exited .abortAcknowledged } := by
  rw [handlerResponse, if_neg (by rw [hcheck, hack]; decide)]

theorem onResponse_cases (crc : Bytes → UInt32) (s : ClientState) (call : Call)
    (d response : BftDatagram) :
    Answered crc s call d response (s.onResponse crc call d response) := by
  unfold onResponse
  split
  · rename_i hcall
    subst hcall
    exact handlerResponse_cases
  · rename_i hcall
    exact waitForACK_cases hcall

/-- No response changes the address or the file. -/
theorem Answered.frame (h : Answered crc s call d response s') :
    s'.serverAddr = s.serverAddr ∧ s'.file = s.file := by
  cases h <;> exact ⟨rfl, rfl⟩

/-- The SQN moves on an acknowledgement only. -/
theorem Answered.of_currSQN_ne (h : Answered crc s call d response s')
    (hne : s'.currSQN ≠ s.currSQN) :
    response.checkIntegrity crc = true ∧ response.isACKFor d = true := by
  cases h with
  | again => exact absurd rfl hne
  | busy => exact absurd rfl hne
  | acknowledged _ hcheck _ _ hack => exact ⟨hcheck, hack⟩
  | abortAcknowledged => exact absurd rfl hne

/-! ## Steps -/

/-- The steps of the client, one case for each place and event. -/
inductive Move (crc : Bytes → UInt32) (u : Upload) (s : ClientState) :
    ClientEvent → ClientState → List (SockaddrIn × Bytes) → Prop
  | sigint (h : interruptible s.pc = true) : Move crc u s .sigint (s.onSigint crc) []
  | send {call : Call} {d : BftDatagram} {k : ℕ} (hpc : s.pc = .send call d k) :
      Move crc u s (.sendto true) { s with pc := .receive call d k } [(s.serverAddr, d.wire)]
  | sendError {call : Call} {d : BftDatagram} {k : ℕ} (hpc : s.pc = .send call d k) :
      Move crc u s (.sendto false) { s with pc := .exited .sendError } []
  | timeout {call : Call} {d : BftDatagram} {k : ℕ} (hpc : s.pc = .receive call d k) :
      Move crc u s .timeout (s.onTimeout u call d k) []
  | receiveError {call : Call} {d : BftDatagram} {k : ℕ} (hpc : s.pc = .receive call d k) :
      Move crc u s .receiveError { s with pc := .exited .receiveError } []
  | response {call : Call} {d : BftDatagram} {k : ℕ} {sender : SockaddrIn}
      {bytes : Bytes} {errnoAgain : Bool} (hpc : s.pc = .receive call d k)
      (hbytes : bytes ≠ []) :
      Move crc u s (.datagram sender bytes errnoAgain)
        ({ s with serverAddr := sender }.onResponse crc call d (.receive bytes)) []
  | emptyAgain {call : Call} {d : BftDatagram} {k : ℕ} {sender : SockaddrIn}
      (hpc : s.pc = .receive call d k) :
      Move crc u s (.datagram sender [] true)
        ({ s with serverAddr := sender }.onTimeout u call d k) []
  | emptyError {call : Call} {d : BftDatagram} {k : ℕ} {sender : SockaddrIn}
      (hpc : s.pc = .receive call d k) :
      Move crc u s (.datagram sender [] false)
        { s with serverAddr := sender, pc := .exited .receiveError } []
  | openFile {ok : Bool} (hpc : s.pc = .openFile) :
      Move crc u s (.openFile ok)
        { s with pc := .readFile, file := .opened u.fs u.filePath ok } []
  | read {fault : Option ℕ} (hpc : s.pc = .readFile) :
      Move crc u s (.read fault) (s.onRead crc fault) []

/-- **Inversion of a step.** -/
theorem clientStep_cases (h : clientStep crc u s event = some (s', sends)) :
    Move crc u s event s' sends := by
  unfold clientStep at h
  cases event with
  | sigint =>
    dsimp only at h
    split at h
    · rename_i hint
      cases h
      exact .sigint hint
    · cases h
  | sendto ok =>
    dsimp only at h
    split at h
    · rename_i call d k hpc
      split at h
      · rename_i hok
        cases h
        rw [hok]
        exact .send hpc
      · rename_i hok
        cases h
        rw [(Bool.not_eq_true ok).mp hok]
        exact .sendError hpc
    · cases h
  | timeout =>
    dsimp only at h
    split at h
    · rename_i call d k hpc
      cases h
      exact .timeout hpc
    · cases h
  | receiveError =>
    dsimp only at h
    split at h
    · rename_i call d k hpc
      cases h
      exact .receiveError hpc
    · cases h
  | datagram sender bytes errnoAgain =>
    dsimp only at h
    split at h
    · rename_i call d k hpc
      split at h
      · rename_i hbytes
        cases h
        exact .response hpc hbytes
      · rename_i hbytes
        -- `recvfrom` has returned 0, and what `errno` holds decides
        obtain rfl : bytes = [] := not_not.mp hbytes
        split at h
        · rename_i hagain
          cases h
          rw [hagain]
          exact .emptyAgain hpc
        · rename_i hagain
          cases h
          rw [(Bool.not_eq_true errnoAgain).mp hagain]
          exact .emptyError hpc
    · cases h
  | openFile ok =>
    dsimp only at h
    split at h
    · rename_i hpc
      cases h
      exact .openFile hpc
    · cases h
  | read fault =>
    dsimp only at h
    split at h
    · rename_i hpc
      cases h
      exact .read hpc
    · cases h

/-- A datagram that was sent by one of the constructors is evaluated as it was built. -/
theorem clientStep_datagram_wire {sender : SockaddrIn} {errnoAgain : Bool}
    (hpc : s.pc = .receive call d k) (hresponse : response.WellFormed crc) :
    clientStep crc u s (.datagram sender response.wire errnoAgain)
      = some ({ s with serverAddr := sender }.onResponse crc call d response, []) := by
  rw [clientStep]
  simp only [hpc, if_pos hresponse.wire_ne_nil, hresponse.receive_wire]

/-! ## The end of an upload -/

/-- The client has been interrupted, or has ended. -/
def Aborting : PC → Prop
  | .send call _ _ => call = .abr
  | .receive call _ _ => call = .abr
  | .exited _ => True
  | _ => False

theorem onTimeout_aborting (s : ClientState) (hcall : call = .abr) :
    Aborting (s.onTimeout u call d k).pc := by
  rcases onTimeout_cases u s call d k with ⟨k', h⟩ | ⟨-, e, -, -, h⟩ <;> rw [h]
  · exact hcall
  · trivial

/-- There is no way back into the upload. -/
theorem Move.aborting (h : Move crc u s event s' sends) (hs : Aborting s.pc) :
    Aborting s'.pc := by
  cases h with
  | sigint => rfl
  | send hpc =>
    rw [hpc] at hs
    exact hs
  | sendError => trivial
  | timeout hpc =>
    rw [hpc] at hs
    exact onTimeout_aborting s hs
  | receiveError => trivial
  | @response call d k sender bytes errnoAgain hpc hbytes =>
    rw [hpc] at hs
    have hanswer := onResponse_cases crc { s with serverAddr := sender } call d (receive bytes)
    generalize ClientState.onResponse crc _ _ _ _ = t at hanswer ⊢
    cases hanswer with
    | again => exact hs
    | busy => trivial
    -- only a call from `main` goes on with the upload
    | acknowledged hcall => exact absurd hs hcall
    | abortAcknowledged => trivial
  | emptyAgain hpc =>
    rw [hpc] at hs
    exact onTimeout_aborting _ hs
  | emptyError => trivial
  | openFile hpc =>
    rw [hpc] at hs
    -- `main` opens the file before the handler runs
    exact hs.elim
  | read hpc =>
    rw [hpc] at hs
    exact hs.elim

/-! ## The datagram in hand -/

/-- What a call is made with. -/
def OfCall (crc : Bytes → UInt32) (u : Upload) : Call → BftDatagram → Prop
  | .syn, d => d = .ofString crc Flags.SYN u.name false
  | .data, d => ∃ data sqn, d = .ofRange crc Flags.None data sqn
  | .fin, d => ∃ sqn, d = .ofFlags crc Flags.FIN sqn
  | .abr, d => d = abrDatagram crc

/-- The client is in no call, or in one made with the right datagram. -/
def InHand (crc : Bytes → UInt32) (u : Upload) : PC → Prop
  | .send call d _ => OfCall crc u call d
  | .receive call d _ => OfCall crc u call d
  | _ => True

theorem OfCall.wellFormed (h : OfCall crc u call d) : d.WellFormed crc := by
  cases call with
  | syn =>
    obtain rfl := h
    exact wellFormed_init ..
  | data =>
    obtain ⟨data, sqn, rfl⟩ := h
    exact wellFormed_init ..
  | fin =>
    obtain ⟨sqn, rfl⟩ := h
    exact wellFormed_init ..
  | abr =>
    obtain rfl := h
    exact wellFormed_init ..

/-- The flags of everything but the ABR. -/
theorem OfCall.flags_mem (h : OfCall crc u call d) (hcall : call ≠ .abr) :
    d.flags ∈
      [Flags.SYN, Flags.None, Flags.None ||| Flags.SQN, Flags.FIN, Flags.FIN ||| Flags.SQN] := by
  cases call with
  | syn =>
    obtain rfl := h
    exact List.mem_cons_self ..
  | data =>
    obtain ⟨data, sqn, rfl⟩ := h
    rw [show (ofRange crc Flags.None data sqn).flags
      = if sqn then Flags.None ||| Flags.SQN else Flags.None from rfl]
    cases sqn <;> decide
  | fin =>
    obtain ⟨sqn, rfl⟩ := h
    rw [show (ofFlags crc Flags.FIN sqn).flags
      = if sqn then Flags.FIN ||| Flags.SQN else Flags.FIN from rfl]
    cases sqn <;> decide
  | abr => exact absurd rfl hcall

/-- It asks for an acknowledgement and carries none, and its acknowledgement does not look
like a refusal. -/
theorem OfCall.flags (h : OfCall crc u call d) (hcall : call ≠ .abr) :
    d.flags &&& Flags.ACK = 0 ∧ (d.createACK crc).flags &&& Flags.ABR ≠ Flags.ABR := by
  have hmem := h.flags_mem hcall
  have hACK : (d.createACK crc).flags
      = if d.flags &&& Flags.SQN = Flags.SQN then d.flags ||| Flags.ACK ||| Flags.SQN
        else d.flags ||| Flags.ACK := by
    have hinit : (d.createACK crc).flags
        = if d.getSQN then d.flags ||| Flags.ACK ||| Flags.SQN else d.flags ||| Flags.ACK :=
      getFlags_init ..
    rw [hinit]
    simp only [getSQN, decide_eq_true_eq]
  rw [hACK]
  -- five values are possible
  generalize d.flags = f at hmem
  simp only [List.mem_cons, List.not_mem_nil, or_false] at hmem
  rcases hmem with rfl | rfl | rfl | rfl | rfl <;> decide

/-- The acknowledgement of the datagram in hand ends the call. -/
theorem waitForACK_createACK (hcall : call ≠ .abr) (hd : OfCall crc u call d)
    (hsqn : d.getSQN = s.currSQN) :
    s.waitForACK crc call d (receive (d.createACK crc).wire)
      = { s with pc := afterACK call, currSQN := s.currSQN ^^ true } := by
  have hack : (d.createACK crc).WellFormed crc := wellFormed_createACK d
  obtain ⟨hnoACK, hnoABR⟩ := hd.flags hcall
  rw [hack.receive_wire]
  refine waitForACK_acknowledged hack.checkIntegrity (fun h => hnoABR h.1) ?_
    (isACKFor_createACK hnoACK)
  rw [getSQN_createACK, hsqn]

theorem onTimeout_inHand (s : ClientState) (h : OfCall crc u call d) :
    InHand crc u (s.onTimeout u call d k).pc := by
  rcases onTimeout_cases u s call d k with ⟨k', h'⟩ | ⟨-, e, -, -, h'⟩ <;> rw [h']
  · exact h
  · trivial

/-- A read is followed by a data datagram or the FIN. -/
theorem onRead_pc (crc : Bytes → UInt32) (u : Upload) (s : ClientState) (fault : Option ℕ) :
    ∃ call d, OfCall crc u call d ∧ (s.onRead crc fault).pc = .send call d 0 := by
  unfold onRead
  dsimp only
  split
  · exact ⟨.fin, _, ⟨_, rfl⟩, rfl⟩
  · exact ⟨.data, _, ⟨_, _, rfl⟩, rfl⟩

/-- **The client sends nothing else**, whatever happens. -/
theorem Move.inHand (h : Move crc u s event s' sends) (hs : InHand crc u s.pc) :
    InHand crc u s'.pc := by
  cases h with
  | sigint => rfl
  | send hpc =>
    rw [hpc] at hs
    exact hs
  | sendError => trivial
  | timeout hpc =>
    rw [hpc] at hs
    exact onTimeout_inHand s hs
  | receiveError => trivial
  | @response call d k sender bytes errnoAgain hpc hbytes =>
    rw [hpc] at hs
    have hanswer := onResponse_cases crc { s with serverAddr := sender } call d (receive bytes)
    generalize ClientState.onResponse crc _ _ _ _ = t at hanswer ⊢
    cases hanswer with
    | again => exact hs
    | busy => trivial
    | acknowledged => cases call <;> trivial
    | abortAcknowledged => trivial
  | emptyAgain hpc =>
    rw [hpc] at hs
    exact onTimeout_inHand _ hs
  | emptyError => trivial
  | openFile => trivial
  | @read fault =>
    obtain ⟨call, d, hd, hpc'⟩ := onRead_pc crc u s fault
    rw [hpc']
    exact hd

/-- What is sent is the datagram of a call. -/
theorem Move.sends_ofCall (h : Move crc u s event s' sends) (hs : InHand crc u s.pc) :
    ∀ x ∈ sends, ∃ call d, OfCall crc u call d ∧ x.2 = d.wire ∧
      (call = .abr ↔ Aborting s.pc) := by
  cases h with
  | @send call d k hpc =>
    rw [hpc] at hs
    intro x hx
    rw [List.mem_singleton.mp hx, hpc]
    exact ⟨call, d, hs, rfl, Iff.rfl⟩
  | _ => nofun

/-! ## Who the client talks to -/

/-- Only `recvfrom` touches the address the client sends to. -/
theorem Move.serverAddr_eq {a : SockaddrIn} (h : Move crc u s event s' sends)
    (hevent : ∀ sender bytes errnoAgain, event = .datagram sender bytes errnoAgain → sender = a)
    (hs : s.serverAddr = a) : s'.serverAddr = a := by
  -- a timeout does not touch the address
  have htimeout : ∀ (t : ClientState) (call : Call) (d : BftDatagram) (k : ℕ),
      t.serverAddr = a → (t.onTimeout u call d k).serverAddr = a := by
    intro t call d k ht
    rcases onTimeout_cases u t call d k with ⟨k', h⟩ | ⟨-, e, -, -, h⟩ <;> rw [h] <;> exact ht
  cases h with
  | timeout => exact htimeout _ _ _ _ hs
  | response hpc hbytes =>
    rw [(onResponse_cases ..).frame.1]
    exact hevent _ _ _ rfl
  | emptyAgain => exact htimeout _ _ _ _ (hevent _ _ _ rfl)
  | emptyError => exact hevent _ _ _ rfl
  | _ => exact hs

theorem Move.sends_eq (h : Move crc u s event s' sends) : ∀ x ∈ sends, x.1 = s.serverAddr := by
  cases h with
  | send hpc =>
    intro x hx
    rw [List.mem_singleton.mp hx]
  | _ => nofun

/-- The SQN moves only when an intact acknowledgement of the datagram in hand arrives. -/
theorem Move.of_currSQN_ne (h : Move crc u s event s' sends) (hne : s'.currSQN ≠ s.currSQN) :
    ∃ call d k sender bytes errnoAgain, s.pc = .receive call d k ∧
      event = .datagram sender bytes errnoAgain ∧
      (receive bytes).checkIntegrity crc = true ∧ (receive bytes).isACKFor d = true := by
  have htimeout : ∀ (t : ClientState) (call : Call) (d : BftDatagram) (k : ℕ),
      (t.onTimeout u call d k).currSQN = t.currSQN := by
    intro t call d k
    rcases onTimeout_cases u t call d k with ⟨k', h⟩ | ⟨-, e, -, -, h⟩ <;> rw [h]
  cases h with
  | timeout => exact absurd (htimeout _ _ _ _) hne
  | emptyAgain => exact absurd (htimeout _ _ _ _) hne
  | response hpc hbytes =>
    exact ⟨_, _, _, _, _, _, hpc, rfl, (onResponse_cases ..).of_currSQN_ne hne⟩
  | _ => exact absurd rfl hne

end

end ClientState

/-- The client as a state machine, its datagrams left out. -/
def clientNext (crc : Bytes → UInt32) (u : Upload) (s : ClientState) (event : ClientEvent) :
    Option ClientState :=
  (clientStep crc u s event).map (·.1)

/-- If the event is the arrival of a datagram, then that comes from the server the options
name. -/
def ClientEvent.FromServer (u : Upload) (event : ClientEvent) : Prop :=
  ∀ sender bytes errnoAgain, event = .datagram sender bytes errnoAgain → sender = u.serverAddr

open ClientState in
/-- **The client talks to its server** as long as only its server talks to it: every datagram
goes to the endpoint the options name, and the SQN moves only on an intact acknowledgement
from there. -/
theorem talks_to_server_only (crc : Bytes → UInt32) (u : Upload) (s : ClientState)
    (hrun : Reaches (clientNext crc u) (fun _ event => event.FromServer u) (.initial crc u) s)
    (event : ClientEvent) (hevent : event.FromServer u) (s' : ClientState)
    (sends : List (SockaddrIn × Bytes)) (hstep : clientStep crc u s event = some (s', sends)) :
    (∀ x ∈ sends, x.1 = u.serverAddr) ∧
      (s'.currSQN ≠ s.currSQN → ∃ call d k bytes errnoAgain, s.pc = .receive call d k ∧
        event = .datagram u.serverAddr bytes errnoAgain ∧
        (receive bytes).checkIntegrity crc = true ∧ (receive bytes).isACKFor d = true) := by
  have haddr : s.serverAddr = u.serverAddr := by
    refine hrun.invariant (I := fun s => s.serverAddr = u.serverAddr) rfl ?_
    intro t e t' ht he hnext
    obtain ⟨⟨t'', l⟩, hs, rfl⟩ := Option.map_eq_some_iff.mp hnext
    exact (clientStep_cases hs).serverAddr_eq he ht
  have hmove := clientStep_cases hstep
  refine ⟨fun x hx => (hmove.sends_eq x hx).trans haddr, fun hne => ?_⟩
  obtain ⟨call, d, k, sender, bytes, errnoAgain, hpc, rfl, hack⟩ := hmove.of_currSQN_ne hne
  obtain rfl : sender = u.serverAddr := hevent _ _ _ rfl
  exact ⟨call, d, k, bytes, errnoAgain, hpc, rfl, hack⟩

/-! ## A client with one file -/

/-- The server endpoint on the client's command line. -/
def exampleServer : SockaddrIn := ⟨9, 4000⟩

/-- The upload of the file `a` with the given content, without a limit of timeouts. -/
def exampleUpload (content : Bytes) : Upload where
  address := ⟨1, 5000⟩
  serverAddr := exampleServer
  maxConsecTimeouts := -1
  filePath := [97]
  fs := ⟨[], [([], .directory), ([[97]], .regular content)]⟩
  filePath_noNul := by decide
  dirsClosed := by
    intro l hl
    obtain rfl : l = [] := by
      by_contra hne
      simp [FileSystem.isDir, FileSystem.node, List.lookup_cons, beq_eq_false_iff_ne.mpr hne] at hl
      split at hl <;> simp at hl
    rfl
  valid := rfl

/-- Whatever the checksum function: the SYN is sent, and its acknowledgement arrives. -/
theorem exists_run_to_first_ACK (crc : Bytes → UInt32) :
    ∃ (s : ClientState) (event : ClientEvent) (s' : ClientState),
      Reaches (clientNext crc (exampleUpload []))
        (fun _ event => event.FromServer (exampleUpload [])) (.initial crc (exampleUpload [])) s ∧
      event.FromServer (exampleUpload []) ∧
      clientStep crc (exampleUpload []) s event = some (s', []) ∧ s'.currSQN ≠ s.currSQN := by
  let u := exampleUpload []
  let s₀ : ClientState := .initial crc u
  let syn : BftDatagram := .ofString crc Flags.SYN u.name false
  let s₁ : ClientState := { s₀ with pc := .receive .syn syn 0 }
  let s₂ : ClientState := { s₀ with pc := .openFile, currSQN := true }
  let ack : ClientEvent := .datagram u.serverAddr (syn.createACK crc).wire false
  have hsend : clientNext crc u s₀ (.sendto true) = some s₁ := rfl
  have hack : clientStep crc u s₁ ack = some (s₂, []) := by
    have hwf : (syn.createACK crc).WellFormed crc := wellFormed_createACK _
    have hwait : s₁.waitForACK crc .syn syn (receive (syn.createACK crc).wire) = s₂ :=
      ClientState.waitForACK_createACK (u := u) (by decide) rfl (getSQN_init ..)
    rw [hwf.receive_wire] at hwait
    rw [ClientState.clientStep_datagram_wire rfl hwf]
    exact congrArg (fun s => some (s, [])) hwait
  have hserver : ack.FromServer u := by
    intro sender bytes errnoAgain heq
    exact (ClientEvent.datagram.inj heq).1.symm
  have hnone : (ClientEvent.sendto true).FromServer u := by
    intro sender bytes errnoAgain heq
    cases heq
  exact ⟨s₁, ack, s₂, .tail .refl hnone hsend, hserver, hack, (by decide : true ≠ false)⟩

/-- The acknowledgement of the SYN moves the SQN. -/
theorem acknowledged_by_server :
    ∃ (s s' : ClientState) (event : ClientEvent), s'.currSQN ≠ s.currSQN ∧
      ∃ call d k bytes errnoAgain, s.pc = .receive call d k ∧
        event = .datagram exampleServer bytes errnoAgain ∧
        (receive bytes).checkIntegrity CRC.crc32 = true ∧ (receive bytes).isACKFor d = true := by
  obtain ⟨s, event, s', hrun, hevent, hstep, hne⟩ := exists_run_to_first_ACK CRC.crc32
  exact ⟨s, s', event, hne, (talks_to_server_only CRC.crc32 (exampleUpload []) s hrun event hevent
    s' [] hstep).2 hne⟩

/-- Whatever the checksum function: an AGN of a stranger in answer to the SYN, and the client
sends its SYN to the stranger. -/
theorem exists_run_to_stranger (crc : Bytes → UInt32) :
    ∃ (u : Upload) (s : ClientState) (event : ClientEvent) (s' : ClientState)
      (x : SockaddrIn × Bytes),
      Reaches (clientNext crc u) anyStep (.initial crc u) s ∧
      clientStep crc u s event = some (s', [x]) ∧ x.1 ≠ u.serverAddr := by
  let u := exampleUpload []
  let stranger : SockaddrIn := ⟨7, 7⟩
  let s₀ : ClientState := .initial crc u
  let d : BftDatagram := .ofString crc Flags.SYN u.name false
  let s₁ : ClientState := { s₀ with pc := .receive .syn d 0 }
  let s₂ : ClientState := { s₀ with pc := .send .syn d 0, serverAddr := stranger }
  -- an AGN is neither a refusal nor an acknowledgement, so the SYN is sent again
  let response : BftDatagram := .ofFlags crc Flags.AGN false
  have hwf : response.WellFormed crc := wellFormed_init ..
  have h₁ : clientNext crc u s₀ (.sendto true) = some s₁ := rfl
  have h₂ : clientNext crc u s₁ (.datagram stranger response.wire false) = some s₂ := by
    have hack : response.isACKFor d = false := by
      rw [isACKFor_of_flags (show response.flags = Flags.AGN from rfl)
        (show d.flags = Flags.SYN from rfl)]
      decide
    have hABR : ¬ (response.getFlags &&& Flags.ABR = Flags.ABR ∧ response.getSQN = false) := by
      show ¬ (Flags.AGN &&& Flags.ABR = Flags.ABR ∧ _)
      exact fun h => absurd h.1 (by decide)
    rw [clientNext, ClientState.clientStep_datagram_wire rfl hwf]
    exact congrArg some (ClientState.waitForACK_again hABR hack)
  have h₃ : clientStep crc u s₂ (.sendto true)
      = some ({ s₂ with pc := .receive .syn d 0 }, [(stranger, d.wire)]) := rfl
  exact ⟨u, s₂, _, _, _, .tail (.tail .refl trivial h₁) trivial h₂, h₃,
    show stranger ≠ exampleServer by decide⟩

/-- A datagram of a stranger makes the client send to the stranger. -/
theorem stranger_redirects_client :
    ¬ ∀ (u : Upload) (s : ClientState) (event : ClientEvent) (s' : ClientState)
        (sends : List (SockaddrIn × Bytes)),
      Reaches (clientNext CRC.crc32 u) anyStep (.initial CRC.crc32 u) s →
      clientStep CRC.crc32 u s event = some (s', sends) → ∀ x ∈ sends, x.1 = u.serverAddr := by
  intro h
  obtain ⟨u, s, event, s', x, hrun, hstep, hx⟩ := exists_run_to_stranger CRC.crc32
  exact hx (h u s event s' [x] hrun hstep x (List.mem_singleton_self x))

end Rechnernetze.Bft
