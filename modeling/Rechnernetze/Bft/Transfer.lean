import Mathlib.Tactic.Common
import Rechnernetze.Bft.NetworkTheorems
import Rechnernetze.Bft.ServerTheorems

/-!
# An upload is a stop-and-wait transfer

The client sends its upload as the datagrams number `0, 1, 2, …`: the SYN, one data datagram
for each chunk, and the FIN. The SQN of datagram `k` is the parity of `k`, so neighbouring
datagrams, and their acknowledgements, differ in it; that is what `Lib.LinkInv` asks for.

* `ClientAt u s p`: the client is busy with datagram `p`;
* `ServerAt u s r`: the server has accepted the datagrams below `r` of this upload, and the
  chunks among them are what it has stored;
* `Link u p r`: what is under way between the two.

A step of the client, an answer to it and a turn of the server each keep the three.
-/

namespace Rechnernetze.Bft

open Lib BftDatagram

namespace Upload

/-! ## The datagrams of an upload -/

/-- The SQN of datagram `k`. -/
def sqnAt (k : ℕ) : Bool := k % 2 = 1

theorem sqnAt_succ (k : ℕ) : sqnAt (k + 1) = (sqnAt k ^^ true) := by
  unfold sqnAt
  by_cases h : k % 2 = 1
  · have h' : ¬ (k + 1) % 2 = 1 := by omega
    simp [h, h']
  · have h' : (k + 1) % 2 = 1 := by omega
    simp [h, h']

theorem sqnAt_succ_ne (k : ℕ) : sqnAt k ≠ sqnAt (k + 1) := by
  rw [sqnAt_succ]
  cases sqnAt k <;> decide

variable (crc : Bytes → UInt32) (u : Upload)

/-- The bytes of the file that the `k`th read returns. -/
def chunk (k : ℕ) : Payload :=
  ⟨(u.source.drop (maxPayloadSize * k)).take maxPayloadSize, by
    rw [List.length_take]
    exact Nat.min_le_left ..⟩

/-- Datagram `k`: the SYN, then a data datagram for each chunk, then the FIN. -/
def datagram : ℕ → BftDatagram
  | 0 => .ofString crc Flags.SYN u.name false
  | k + 1 =>
    if maxPayloadSize * k < u.source.length then
      .ofRange crc Flags.None (u.chunk k) (sqnAt (k + 1))
    else .ofFlags crc Flags.FIN (sqnAt (k + 1))

variable {crc u} {k : ℕ}

theorem datagram_data (h : maxPayloadSize * k < u.source.length) :
    u.datagram crc (k + 1) = .ofRange crc Flags.None (u.chunk k) (sqnAt (k + 1)) := by
  rw [datagram, if_pos h]

theorem datagram_fin (h : u.source.length ≤ maxPayloadSize * k) :
    u.datagram crc (k + 1) = .ofFlags crc Flags.FIN (sqnAt (k + 1)) := by
  rw [datagram, if_neg (by omega)]

theorem wellFormed_datagram (crc : Bytes → UInt32) (u : Upload) (k : ℕ) :
    (u.datagram crc k).WellFormed crc := by
  cases k with
  | zero => exact wellFormed_init ..
  | succ k =>
    rw [datagram]
    split <;> exact wellFormed_init ..

/-- The SQN alternates. -/
theorem getSQN_datagram (crc : Bytes → UInt32) (u : Upload) (k : ℕ) :
    (u.datagram crc k).getSQN = sqnAt k := by
  cases k with
  | zero => exact getSQN_init ..
  | succ k =>
    have hNone : decide (Flags.None &&& Flags.SQN = Flags.SQN) = false := by decide
    have hFIN : decide (Flags.FIN &&& Flags.SQN = Flags.SQN) = false := by decide
    rw [datagram]
    split
    · rw [ofRange, getSQN_init, hNone, Bool.false_or]
    · rw [ofFlags, getSQN_init, hFIN, Bool.false_or]

theorem flags_data (crc : Bytes → UInt32) (data : Payload) (sqn : Bool) :
    (ofRange crc Flags.None data sqn).getFlags &&& Flags.FIN ≠ Flags.FIN ∧
      clearFlag (ofRange crc Flags.None data sqn).getFlags Flags.SQN = Flags.None ∧
      (ofRange crc Flags.None data sqn).getFlags ≠ Flags.SYN ∧
      (ofRange crc Flags.None data sqn).getFlags ≠ Flags.ABR := by
  have hf : (ofRange crc Flags.None data sqn).getFlags
      = if sqn then Flags.None ||| Flags.SQN else Flags.None := getFlags_init ..
  rw [hf]
  cases sqn <;> decide

theorem flags_fin (crc : Bytes → UInt32) (sqn : Bool) :
    (ofFlags crc Flags.FIN sqn).getFlags &&& Flags.FIN = Flags.FIN ∧
      (ofFlags crc Flags.FIN sqn).getFlags ≠ Flags.SYN ∧
      (ofFlags crc Flags.FIN sqn).getFlags ≠ Flags.ABR := by
  have hf : (ofFlags crc Flags.FIN sqn).getFlags
      = if sqn then Flags.FIN ||| Flags.SQN else Flags.FIN := getFlags_init ..
  rw [hf]
  cases sqn <;> decide

/-- After the SYN every datagram is a regular one. -/
theorem flags_datagram_succ (crc : Bytes → UInt32) (u : Upload) (k : ℕ) :
    (u.datagram crc (k + 1)).flags ≠ Flags.SYN ∧ (u.datagram crc (k + 1)).flags ≠ Flags.ABR := by
  rw [datagram]
  split
  · exact (flags_data ..).2.2
  · exact (flags_fin ..).2

theorem ofCall_datagram (crc : Bytes → UInt32) (u : Upload) (k : ℕ) :
    ∃ call, call ≠ .abr ∧ ClientState.OfCall crc u call (u.datagram crc k) := by
  cases k with
  | zero => exact ⟨.syn, nofun, rfl⟩
  | succ k =>
    rw [datagram]
    split
    · exact ⟨.data, nofun, _, _, rfl⟩
    · exact ⟨.fin, nofun, _, rfl⟩

/-- The datagrams of an upload ask for an acknowledgement and carry none, and the
acknowledgement of one does not look like a refusal. -/
theorem flags_datagram (crc : Bytes → UInt32) (u : Upload) (k : ℕ) :
    (u.datagram crc k).flags &&& Flags.ACK = 0 ∧
      ((u.datagram crc k).createACK crc).flags &&& Flags.ABR ≠ Flags.ABR := by
  obtain ⟨call, hcall, h⟩ := ofCall_datagram crc u k
  exact h.flags hcall

/-- The chunks are the source, piece by piece. -/
theorem take_append_chunk (k : ℕ) :
    u.source.take (maxPayloadSize * k) ++ (u.chunk k).1
      = u.source.take (maxPayloadSize * (k + 1)) := by
  rw [chunk, Nat.mul_succ, List.take_add]

theorem chunk_eq_nil_iff : (u.chunk k).1 = [] ↔ u.source.length ≤ maxPayloadSize * k := by
  have hpos : maxPayloadSize ≠ 0 := by decide
  simp only [chunk, List.take_eq_nil_iff, hpos, false_or, List.drop_eq_nil_iff]

/-- A validated path can be read. -/
theorem readFile_eq (u : Upload) : u.fs.readFile u.filePath = some u.source := by
  obtain ⟨l, content, hr, hn⟩ := u.exists_regular
  have hread : u.fs.readFile u.filePath = some content := by simp [FileSystem.readFile, hr, hn]
  rw [source, hread, Option.getD_some]

end Upload

/-! ## The client -/

section Client
variable {crc : Bytes → UInt32} {u : Upload} {s s' : ClientState} {p k : ℕ} {call : Call}
  {file : IFStream}

/-- The client's stream has delivered `k` chunks. -/
structure FileAt (u : Upload) (file : IFStream) (k : ℕ) : Prop where
  rest : file.rest = u.source.drop (maxPayloadSize * k)
  good : file.good = true ∨ u.source.length ≤ maxPayloadSize * k

/-- The call that sends datagram `p`, and how far the file has been read by then. -/
inductive CallAt (u : Upload) (file : IFStream) : ℕ → Call → Prop
  | syn : CallAt u file 0 .syn
  | data {k : ℕ} (hlt : maxPayloadSize * k < u.source.length) (hfile : FileAt u file (k + 1)) :
    CallAt u file (k + 1) .data
  | fin {k : ℕ} (hle : u.source.length ≤ maxPayloadSize * k) (hfile : FileAt u file k) :
    CallAt u file (k + 1) .fin

/-- The client has its datagrams below `p` acknowledged: it repeats datagram `p`, is about to
make it, or has finished or given up. -/
inductive ClientAt (crc : Bytes → UInt32) (u : Upload) (s : ClientState) : ℕ → Prop
  | repeating {p : ℕ} {call : Call}
      (hpc : ∃ n, s.pc = .send call (u.datagram crc p) n ∨
        s.pc = .receive call (u.datagram crc p) n)
      (hcall : CallAt u s.file p call) (hsqn : s.currSQN = Upload.sqnAt p) : ClientAt crc u s p
  | opening (hpc : s.pc = .openFile) (hsqn : s.currSQN = Upload.sqnAt 1) : ClientAt crc u s 1
  | reading {k : ℕ} (hpc : s.pc = .readFile) (hfile : FileAt u s.file k)
      (hsqn : s.currSQN = Upload.sqnAt (k + 1)) : ClientAt crc u s (k + 1)
  | finished {k : ℕ} (hpc : s.pc = .finished) (hle : u.source.length ≤ maxPayloadSize * k) :
      ClientAt crc u s (k + 2)
  | exited {p : ℕ} {e : Exit} (hpc : s.pc = .exited e) : ClientAt crc u s p

theorem FileAt.opened : FileAt u (.opened u.fs u.filePath true) 0 := by
  rw [IFStream.opened, u.readFile_eq]
  exact ⟨by simp, Or.inl rfl⟩

/-- A read returns the next chunk. -/
theorem FileAt.read_fst (h : FileAt u file k) :
    (file.read maxPayloadSize none).1 = (u.chunk k).1 := by
  unfold IFStream.read
  split
  · rw [h.rest]
    rfl
  · rename_i hgood
    have hle := h.good.resolve_left hgood
    exact (Upload.chunk_eq_nil_iff.mpr hle).symm

/-- Reading a chunk that is not empty takes the stream to the next one. -/
theorem FileAt.read_snd (h : FileAt u file k) (hlt : maxPayloadSize * k < u.source.length) :
    FileAt u (file.read maxPayloadSize none).2 (k + 1) := by
  have hgood : file.good = true := h.good.resolve_right (by omega)
  have hrest : file.rest.drop (file.rest.take maxPayloadSize).length
      = u.source.drop (maxPayloadSize * (k + 1)) := by
    rw [h.rest, List.length_take, List.length_drop, List.drop_drop, Nat.mul_succ]
    rcases Nat.le_total maxPayloadSize (u.source.length - maxPayloadSize * k) with hle | hle
    · rw [Nat.min_eq_left hle]
    · -- the last chunk: nothing is left either way
      rw [Nat.min_eq_right hle, List.drop_eq_nil_of_le (by omega),
        List.drop_eq_nil_of_le (by omega)]
  rw [IFStream.read, if_pos hgood]
  refine ⟨hrest, ?_⟩
  rw [Nat.mul_succ, h.rest]
  simp only [List.length_take, List.length_drop, decide_eq_true_eq]
  omega

/-- The stream stays at its end. -/
theorem FileAt.read_snd_of_le (h : FileAt u file k) (hle : u.source.length ≤ maxPayloadSize * k) :
    FileAt u (file.read maxPayloadSize none).2 k := by
  have hrest : file.rest = [] := by rw [h.rest, List.drop_eq_nil_of_le hle]
  unfold IFStream.read
  split
  · exact ⟨by simp [hrest, List.drop_eq_nil_of_le hle], Or.inr hle⟩
  · exact ⟨h.rest, Or.inr hle⟩

/-- After a read the client sends the next chunk, -/
theorem FileAt.onRead_data (h : FileAt u s.file k) (hsqn : s.currSQN = Upload.sqnAt (k + 1))
    (hlt : maxPayloadSize * k < u.source.length) :
    s.onRead crc none = { s with
      pc := .send .data (u.datagram crc (k + 1)) 0
      file := (s.file.read maxPayloadSize none).2 } := by
  have hdata : (⟨(s.file.read maxPayloadSize none).1, IFStream.length_read_le ..⟩ : Payload)
      = u.chunk k := Subtype.ext h.read_fst
  have hne : (s.file.read maxPayloadSize none).1 ≠ [] := by
    rw [h.read_fst, Ne, Upload.chunk_eq_nil_iff]
    omega
  rw [Upload.datagram_data hlt, ← hdata, ← hsqn]
  simp only [ClientState.onRead, if_neg hne]

/-- or the FIN if there is none. -/
theorem FileAt.onRead_fin (h : FileAt u s.file k) (hsqn : s.currSQN = Upload.sqnAt (k + 1))
    (hle : u.source.length ≤ maxPayloadSize * k) :
    s.onRead crc none = { s with
      pc := .send .fin (u.datagram crc (k + 1)) 0
      file := (s.file.read maxPayloadSize none).2 } := by
  have heq : (s.file.read maxPayloadSize none).1 = [] := by
    rw [h.read_fst, Upload.chunk_eq_nil_iff]
    exact hle
  rw [Upload.datagram_fin hle, ← hsqn]
  simp only [ClientState.onRead, if_pos heq]

theorem FileAt.onRead (h : FileAt u s.file k) (hsqn : s.currSQN = Upload.sqnAt (k + 1)) :
    ClientAt crc u (s.onRead crc none) (k + 1) := by
  by_cases hlt : maxPayloadSize * k < u.source.length
  · rw [h.onRead_data hsqn hlt]
    exact .repeating ⟨0, Or.inl rfl⟩ (.data hlt (h.read_snd hlt)) hsqn
  · have hle : u.source.length ≤ maxPayloadSize * k := by omega
    rw [h.onRead_fin hsqn hle]
    exact .repeating ⟨0, Or.inl rfl⟩ (.fin hle (h.read_snd_of_le hle)) hsqn

/-! ### What is under way -/

/-- What acknowledges nothing: a damaged datagram, an ABR, an AGN. -/
def Refusal (crc : Bytes → UInt32) (b : Bytes) : Prop :=
  Damaged crc b ∨ b = (BftDatagram.ABR crc).wire ∨ ∃ sqn, b = (ofFlags crc Flags.AGN sqn).wire

/-- The two channels between the client and the server. -/
def Link (crc : Bytes → UInt32) (u : Upload) : ℕ → ℕ → List Bytes → List Bytes → Prop :=
  LinkInv (fun k a => a = (u.datagram crc k).wire) (Damaged crc)
    (fun k b => b = ((u.datagram crc k).createACK crc).wire) (Refusal crc)

variable {r : ℕ} {fwd bwd : List Bytes} {w : Bytes} {d response : BftDatagram}

/-- A refusal is never taken for an acknowledgement. -/
theorem Refusal.not_isACKFor (h : Refusal crc w) (hcheck : (receive w).checkIntegrity crc = true)
    (hABR : ¬ ((receive w).getFlags &&& Flags.ABR = Flags.ABR ∧ (receive w).getSQN = false)) :
    (receive w).isACKFor d = false := by
  rcases h with h | rfl | ⟨sqn, rfl⟩
  · rw [h.2] at hcheck
    cases hcheck
  · have hwf : (BftDatagram.ABR crc).WellFormed crc := wellFormed_init ..
    rw [hwf.receive_wire] at hABR
    have hflags : (BftDatagram.ABR crc).getFlags = Flags.ABR := rfl
    have hsqn : (BftDatagram.ABR crc).getSQN = false := getSQN_init ..
    exact absurd ⟨by rw [hflags]; decide, hsqn⟩ hABR
  · have hwf : (ofFlags crc Flags.AGN sqn).WellFormed crc := wellFormed_init ..
    have hflags : (ofFlags crc Flags.AGN sqn).flags
        = if sqn then Flags.AGN ||| Flags.SQN else Flags.AGN := rfl
    have hno : ¬ (if sqn then Flags.AGN ||| Flags.SQN else Flags.AGN) &&& Flags.ACK
        = Flags.ACK := by
      cases sqn <;> decide
    rw [hwf.receive_wire, isACKFor_of_flags hflags rfl]
    simp only [hno, false_and, decide_false]

/-! ### Steps of the client -/

/-- A client in a call of `send_and_receive_response` repeats its datagram. -/
theorem ClientAt.of_call {n : ℕ} (h : ClientAt crc u s p)
    (hpc : s.pc = .send call d n ∨ s.pc = .receive call d n) :
    d = u.datagram crc p ∧ CallAt u s.file p call ∧ s.currSQN = Upload.sqnAt p := by
  cases h with
  | repeating hpc' hcall hsqn =>
    obtain ⟨n', h' | h'⟩ := hpc' <;> rcases hpc with hpc | hpc <;> rw [h'] at hpc <;> cases hpc
    · exact ⟨rfl, hcall, hsqn⟩
    · exact ⟨rfl, hcall, hsqn⟩
  | opening h' => rcases hpc with hpc | hpc <;> rw [h'] at hpc <;> cases hpc
  | reading h' => rcases hpc with hpc | hpc <;> rw [h'] at hpc <;> cases hpc
  | finished h' => rcases hpc with hpc | hpc <;> rw [h'] at hpc <;> cases hpc
  | exited h' => rcases hpc with hpc | hpc <;> rw [h'] at hpc <;> cases hpc

theorem ClientAt.onTimeout {n : ℕ} (h : ClientAt crc u s p) (hpc : s.pc = .receive call d n)
    (a : SockaddrIn) : ClientAt crc u ({ s with serverAddr := a }.onTimeout u call d n) p := by
  obtain ⟨rfl, hcall, hsqn⟩ := h.of_call (Or.inr hpc)
  rcases ClientState.onTimeout_cases u { s with serverAddr := a } call (u.datagram crc p) n
    with ⟨n', h'⟩ | ⟨-, e, -, -, h'⟩ <;> rw [h']
  · exact .repeating ⟨n', Or.inl rfl⟩ hcall hsqn
  · exact .exited rfl

/-- **A step of the client** repeats its datagram or prepares the next one. -/
theorem ClientAt.move {event : ClientEvent} {sends : List (SockaddrIn × Bytes)} {a : SockaddrIn}
    (h : ClientAt crc u s p) (hlink : Link crc u p r fwd bwd)
    (hmove : ClientState.Move crc u s event s' sends) (hevent : event.Undisturbed)
    (hdatagram : event.isDatagram = false) :
    ClientAt crc u s' p ∧
      Link crc u p r (fwd ++ (sends.filter fun x => x.1 = a).map (·.2)) bwd := by
  have hsilent : Link crc u p r (fwd ++ ([].filter fun x : SockaddrIn × Bytes => x.1 = a).map (·.2))
      bwd := by
    rw [List.filter_nil, List.map_nil, List.append_nil]
    exact hlink
  cases hmove with
  | sigint => exact hevent.elim
  | send hpc =>
    obtain ⟨rfl, hcall, hsqn⟩ := h.of_call (Or.inl hpc)
    refine ⟨.repeating ⟨_, Or.inr rfl⟩ hcall hsqn, ?_⟩
    -- what the client sends elsewhere does not reach the server
    by_cases ha : s.serverAddr = a
    · rw [List.filter_cons_of_pos (by simpa using ha)]
      exact hlink.send rfl
    · rw [List.filter_cons_of_neg (by simpa using ha)]
      exact hsilent
  | sendError hpc => exact ⟨.exited rfl, hsilent⟩
  | timeout hpc => exact ⟨h.onTimeout hpc s.serverAddr, hsilent⟩
  | receiveError hpc => exact ⟨.exited rfl, hsilent⟩
  | response => cases hdatagram
  | emptyAgain => cases hdatagram
  | emptyError => cases hdatagram
  | @openFile ok hpc =>
    obtain rfl : ok = true := hevent
    refine ⟨?_, hsilent⟩
    cases h with
    | repeating hpc' => obtain ⟨n, h' | h'⟩ := hpc' <;> rw [h'] at hpc <;> cases hpc
    | opening _ hsqn => exact .reading rfl .opened hsqn
    | reading hpc' => rw [hpc'] at hpc; cases hpc
    | finished hpc' => rw [hpc'] at hpc; cases hpc
    | exited hpc' => rw [hpc'] at hpc; cases hpc
  | @read fault hpc =>
    obtain rfl : fault = none := hevent
    refine ⟨?_, hsilent⟩
    cases h with
    | repeating hpc' => obtain ⟨n, h' | h'⟩ := hpc' <;> rw [h'] at hpc <;> cases hpc
    | opening hpc' => rw [hpc'] at hpc; cases hpc
    | @reading k _ hfile hsqn => exact hfile.onRead hsqn
    | finished hpc' => rw [hpc'] at hpc; cases hpc
    | exited hpc' => rw [hpc'] at hpc; cases hpc

/-- **An answer** makes the client repeat its datagram, move on to the next, or give up. -/
theorem ClientAt.receive {sender : SockaddrIn} {errnoAgain : Bool} (h : ClientAt crc u s p)
    (hlink : Link crc u p r fwd (w :: bwd))
    (hmove : ClientState.Move crc u s (.datagram sender w errnoAgain) s' []) :
    ∃ p', ClientAt crc u s' p' ∧ Link crc u p' r fwd bwd := by
  cases hmove with
  | emptyAgain hpc => exact ⟨p, h.onTimeout hpc sender, hlink.tail_bwd⟩
  | emptyError hpc => exact ⟨p, .exited rfl, hlink.tail_bwd⟩
  | @response call d n _ _ _ hpc hbytes =>
    obtain ⟨rfl, hcall, hsqn⟩ := h.of_call (Or.inr hpc)
    have hanswer := ClientState.onResponse_cases crc { s with serverAddr := sender } call
      (u.datagram crc p) (BftDatagram.receive w)
    generalize ClientState.onResponse crc _ _ _ _ = t at hanswer ⊢
    cases hanswer with
    | again => exact ⟨p, .repeating ⟨0, Or.inl rfl⟩ hcall hsqn, hlink.tail_bwd⟩
    | busy => exact ⟨p, .exited rfl, hlink.tail_bwd⟩
    | abortAcknowledged habr =>
      subst habr
      cases hcall
    | acknowledged _ hcheck hABR hSQN hack =>
      have hnew : ¬ (Refusal crc w ∨
          Previous (fun k b => b = ((u.datagram crc k).createACK crc).wire) p w) := by
        rintro (href | ⟨k, rfl, rfl⟩)
        · rw [href.not_isACKFor hcheck hABR] at hack
          cases hack
        · -- the acknowledgement of the datagram before carries the other SQN
          rw [(wellFormed_createACK _).receive_wire, getSQN_createACK,
            Upload.getSQN_datagram] at hSQN
          exact Upload.sqnAt_succ_ne k (hSQN.trans hsqn)
      obtain ⟨-, hlink'⟩ := hlink.advance hnew
      have hsqn' : (s.currSQN ^^ true) = Upload.sqnAt (p + 1) := by rw [hsqn, Upload.sqnAt_succ]
      refine ⟨p + 1, ?_, hlink'⟩
      cases hcall with
      | syn => exact .opening rfl hsqn'
      | data hlt hfile => exact .reading rfl hfile hsqn'
      | fin hle hfile => exact .finished rfl hle

end Client

end Rechnernetze.Bft
