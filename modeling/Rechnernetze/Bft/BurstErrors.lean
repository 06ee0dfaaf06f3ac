import Rechnernetze.Bft.DatagramTheorems
import Rechnernetze.Lib.ShiftRegister

/-!
# Burst errors

`CRC_32` is a shift register of 32 bits that is fed the bits of a text one after the other, so
its checksums of two texts that differ in a window of 32 bits only are different (`crc32_ne`).
The checksum of a datagram covers the whole object after the checksum field, whatever its size
field says, and what is not transmitted is zero on both sides. So every burst error is
detected (`burst_detected`).
-/

namespace Rechnernetze.Bft

open Lib BftDatagram ShiftRegister

/-! ## Bits -/

/-- The bits of a byte, the least significant one first. -/
def byteBits (b : UInt8) : List Bool := (List.range 8).map b.toBitVec.getLsbD

/-- The bits of a text, byte by byte. -/
def bits (data : Bytes) : List Bool := data.flatMap byteBits

/-- An error on the way: bits are flipped, but only among `length` bits from `start` on. -/
structure Burst (start length : ℕ) (sent received : Bytes) : Prop where
  length_eq : received.length = sent.length
  ne : received ≠ sent
  window : ∀ i, (bits received)[i]? ≠ (bits sent)[i]? → start ≤ i ∧ i < start + length

section
variable {data data' : Bytes} {b b' : UInt8}

theorem byteBits_inj (h : byteBits b = byteBits b') : b = b' := by
  apply UInt8.toBitVec_inj.mp
  apply BitVec.eq_of_getLsbD_eq
  intro i hi
  have hbit := congrArg (·[i]?) h
  simpa [byteBits, hi] using hbit

theorem length_bits : (bits data).length = 8 * data.length := by
  induction data with
  | nil => rfl
  | cons b data ih =>
    rw [bits, List.flatMap_cons, List.length_append, ← bits, ih, List.length_cons]
    show 8 + 8 * data.length = 8 * (data.length + 1)
    omega

theorem bits_append : bits (data ++ data') = bits data ++ bits data' := List.flatMap_append

theorem bits_take (n : ℕ) : bits (data.take n) = (bits data).take (8 * n) := by
  have hlength : (bits (data.take n)).length ≤ 8 * n := by
    rw [length_bits, List.length_take]
    omega
  have hsplit : bits data = bits (data.take n) ++ bits (data.drop n) := by
    rw [← bits_append, List.take_append_drop]
  rcases Nat.le_total n data.length with hn | hn
  · have heq : (bits (data.take n)).length = 8 * n := by
      rw [length_bits, List.length_take_of_le hn]
    rw [hsplit, ← heq, List.take_left]
  · rw [List.take_of_length_le hn, List.take_of_length_le (by rw [length_bits]; omega)]

theorem bits_drop (n : ℕ) : bits (data.drop n) = (bits data).drop (8 * n) := by
  have hsplit : bits data = (bits data).take (8 * n) ++ bits (data.drop n) := by
    rw [← bits_take, ← bits_append, List.take_append_drop]
  exact (List.append_cancel_left (hsplit.symm.trans (List.take_append_drop ..).symm))

theorem bits_inj (hlength : data.length = data'.length) (h : bits data = bits data') :
    data = data' := by
  induction data generalizing data' with
  | nil => exact (List.length_eq_zero_iff.mp hlength.symm).symm
  | cons b data ih =>
    obtain ⟨b', data', rfl⟩ := List.exists_cons_of_length_eq_add_one hlength.symm
    obtain ⟨hb, hdata⟩ := List.append_inj h (rfl : (byteBits b).length = (byteBits b').length)
    rw [byteBits_inj hb, ih (Nat.succ.inj hlength) hdata]

variable {sent received zeros : Bytes} {start length n : ℕ}

/-- What lies before the window arrives as it was sent. -/
theorem Burst.take_eq (h : Burst start length sent received) (hn : 8 * n ≤ start) :
    received.take n = sent.take n := by
  refine bits_inj (by rw [List.length_take, List.length_take, h.length_eq]) ?_
  rw [bits_take, bits_take]
  refine List.ext_getElem? fun i => ?_
  rw [List.getElem?_take, List.getElem?_take]
  split
  · rename_i hi
    by_contra hne
    exact absurd (h.window i hne).1 (by omega)
  · rfl

/-- What lies behind the window arrives as it was sent. -/
theorem Burst.drop_eq (h : Burst start length sent received) (hn : start + length ≤ 8 * n) :
    received.drop n = sent.drop n := by
  refine bits_inj (by rw [List.length_drop, List.length_drop, h.length_eq]) ?_
  rw [bits_drop, bits_drop]
  refine List.ext_getElem? fun i => ?_
  rw [List.getElem?_drop, List.getElem?_drop]
  by_contra hne
  exact absurd (h.window _ hne).2 (by omega)

/-- The error without the first `n` bytes. -/
theorem Burst.drop (h : Burst start length sent received) (hn : 8 * n ≤ start) :
    Burst (start - 8 * n) length (sent.drop n) (received.drop n) where
  length_eq := by rw [List.length_drop, List.length_drop, h.length_eq]
  ne := by
    intro heq
    refine h.ne ?_
    rw [← List.take_append_drop n received, h.take_eq hn, heq, List.take_append_drop]
  window := by
    intro i hi
    rw [bits_drop, bits_drop, List.getElem?_drop, List.getElem?_drop] at hi
    have hwindow := h.window _ hi
    omega

/-- The error behind more bytes. -/
theorem Burst.prepend (h : Burst start length sent received) (before : Bytes) :
    Burst (start + 8 * before.length) length (before ++ sent) (before ++ received) where
  length_eq := by rw [List.length_append, List.length_append, h.length_eq]
  ne := fun heq => h.ne (List.append_cancel_left heq)
  window := by
    intro i hi
    rw [bits_append, bits_append] at hi
    rcases Nat.lt_or_ge i (bits before).length with hlt | hge
    · rw [List.getElem?_append_left hlt, List.getElem?_append_left hlt] at hi
      exact absurd rfl hi
    · rw [List.getElem?_append_right hge, List.getElem?_append_right hge] at hi
      have hwindow := h.window _ hi
      rw [length_bits] at hge hwindow
      omega

/-- The error with more bytes at the end. -/
theorem Burst.append (h : Burst start length sent received) :
    Burst start length (sent ++ zeros) (received ++ zeros) where
  length_eq := by rw [List.length_append, List.length_append, h.length_eq]
  ne := fun heq => h.ne (List.append_cancel_right heq)
  window := by
    have hlength : (bits received).length = (bits sent).length := by
      rw [length_bits, length_bits, h.length_eq]
    intro i hi
    refine h.window i fun heq => hi ?_
    rw [bits_append, bits_append]
    rcases Nat.lt_or_ge i (bits received).length with hlt | hge
    · rw [List.getElem?_append_left hlt, List.getElem?_append_left (hlength ▸ hlt), heq]
    · rw [List.getElem?_append_right hge, List.getElem?_append_right (hlength ▸ hge), hlength]

end

/-! ## The checksum as a shift register -/

namespace CRC

theorem shiftBit_toBitVec (polynomial remainder : UInt32) :
    (shiftBit polynomial remainder).toBitVec = shift polynomial.toBitVec remainder.toBitVec := by
  have hlow : remainder &&& 1 = 1 ↔ remainder.toBitVec.getLsbD 0 = true := by
    rw [← UInt32.toBitVec_inj, UInt32.toBitVec_and]
    show remainder.toBitVec &&& 1#32 = 1#32 ↔ _
    rw [BitVec.and_one_eq_setWidth_ofBool_getLsbD]
    cases remainder.toBitVec.getLsbD 0 <;> decide
  unfold shiftBit shift
  by_cases h : remainder &&& 1 = 1
  · rw [if_pos h, if_pos (hlow.mp h)]
    rfl
  · rw [if_neg h, if_neg fun h' => h (hlow.mpr h')]
    rfl

theorem iterate_shiftBit_toBitVec (polynomial remainder : UInt32) (n : ℕ) :
    ((shiftBit polynomial)^[n] remainder).toBitVec
      = (shift polynomial.toBitVec)^[n] remainder.toBitVec := by
  induction n generalizing remainder with
  | zero => rfl
  | succ n ih =>
    rw [Function.iterate_succ_apply, Function.iterate_succ_apply, ih, shiftBit_toBitVec]

theorem word_byteBits (b : UInt8) : word 32 (byteBits b) = b.toUInt32.toBitVec := by
  apply BitVec.eq_of_getLsbD_eq
  intro i hi
  rw [getLsbD_word, UInt8.toBitVec_toUInt32, BitVec.getLsbD_setWidth]
  by_cases h8 : i < 8
  · simp [byteBits, hi, h8]
  · rw [BitVec.getLsbD_of_ge b.toBitVec i (by omega)]
    simp [byteBits, hi, h8]

/-- A byte is fed to the register bit by bit. -/
theorem shiftByte_toBitVec (polynomial remainder : UInt32) (b : UInt8) :
    (shiftByte polynomial remainder b).toBitVec
      = (byteBits b).foldl (feed polynomial.toBitVec) remainder.toBitVec := by
  have hlength : (byteBits b).length = 8 := rfl
  rw [shiftByte, iterate_shiftBit_toBitVec, UInt32.toBitVec_xor,
    foldl_feed_eq (by rw [hlength]; decide), word_byteBits, hlength]

theorem foldl_shiftByte_toBitVec (polynomial remainder : UInt32) (data : Bytes) :
    (data.foldl (shiftByte polynomial) remainder).toBitVec
      = (bits data).foldl (feed polynomial.toBitVec) remainder.toBitVec := by
  induction data generalizing remainder with
  | nil => rfl
  | cons b data ih =>
    have hbits : bits (b :: data) = byteBits b ++ bits data := rfl
    rw [List.foldl_cons, ih, shiftByte_toBitVec, hbits, List.foldl_append]

theorem reflect_polynomial : reflect crc_32.polynomial 32 = 0xEDB88320 := by decide

/-- **The checksum of a burst.** -/
theorem crc32_ne {data data' : Bytes} {start : ℕ} (h : Burst start 32 data data') :
    crc32 data' ≠ crc32 data := by
  intro heq
  have hremainder : calculateRemainder data' crc_32 = calculateRemainder data crc_32 :=
    (UInt32.xor_left_inj crc_32.finalXOR).mp heq
  have hregister := congrArg UInt32.toBitVec hremainder
  unfold calculateRemainder at hregister
  rw [foldl_shiftByte_toBitVec, foldl_shiftByte_toBitVec, reflect_polynomial] at hregister
  refine foldl_feed_ne (by decide) ?_ (fun hbits => h.ne (bits_inj h.length_eq hbits)) h.window
    hregister
  rw [length_bits, length_bits, h.length_eq]

end CRC

/-! ## Datagrams -/

/-- What the three constructors build. -/
inductive Built (crc : Bytes → UInt32) : BftDatagram → Prop
  | ofFlags (flags : Flags) (sqn : Bool) : Built crc (.ofFlags crc flags sqn)
  | ofRange (flags : Flags) (data : Payload) (sqn : Bool) : Built crc (.ofRange crc flags data sqn)
  | ofString (flags : Flags) (data : Payload) (sqn : Bool) :
      Built crc (.ofString crc flags data sqn)

theorem Built.wellFormed {crc : Bytes → UInt32} {d : BftDatagram} (h : Built crc d) :
    d.WellFormed crc := by
  cases h with
  | ofFlags | ofRange | ofString => exact wellFormed_init ..

/-- The checksum field and what the checksum covers, in the bytes received. -/
theorem fields_receive {w : Bytes} (hlow : 4 ≤ w.length) (hw : w.length ≤ maxDatagramSize) :
    leBytes32 (receive w).checksum = w.take 4 ∧
      (receive w).checkedBytes
        = w.drop 4 ++ List.replicate (maxDatagramSize - w.length) 0 := by
  have hobject := toBytes_receive hw
  have hsplit : w ++ List.replicate (maxDatagramSize - w.length) 0
      = w.take 4 ++ (w.drop 4 ++ List.replicate (maxDatagramSize - w.length) 0) := by
    rw [← List.append_assoc, List.take_append_drop]
  rw [hsplit, toBytes] at hobject
  refine List.append_inj hobject ?_
  rw [List.length_take_of_le hlow]
  rfl

/-- **Burst errors are detected**, among the bits after the checksum field and in the checksum
field. -/
theorem burst_detected (d : BftDatagram) (hd : Built CRC.crc32 d) (received : Bytes)
    (h : (∃ start length, 32 ≤ start ∧ length ≤ 32 ∧ Burst start length d.wire received) ∨
      Burst 0 32 d.wire received) :
    (receive received).checkIntegrity CRC.crc32 = false := by
  have hwf := hd.wellFormed
  have hlength : received.length = d.wire.length := by
    rcases h with ⟨_, _, -, -, h⟩ | h
    · exact h.length_eq
    · exact h.length_eq
  have hlow : 4 ≤ d.wire.length := by
    rw [hwf.length_wire, size, headerSize]
    omega
  have hhigh : d.wire.length ≤ maxDatagramSize := by
    rw [hwf.length_wire]
    exact hwf.size_le
  obtain ⟨hsum, hchecked⟩ := fields_receive hlow hhigh
  obtain ⟨hsum', hchecked'⟩ := fields_receive (hlength ▸ hlow) (hlength ▸ hhigh)
  rw [hwf.receive_wire] at hsum hchecked
  rw [hlength] at hchecked'
  have hcrc : CRC.crc32 d.checkedBytes = d.checksum := hwf.checksum
  refine (Bool.not_eq_true _).mp fun hcheck => ?_
  have hcrc' : CRC.crc32 (receive received).checkedBytes = (receive received).checksum :=
    (of_decide_eq_true hcheck).1
  rcases h with ⟨start, length, hstart, hle, h⟩ | h
  · -- the checksum field is the one that was sent
    have hfield : (receive received).checksum = d.checksum := by
      have hbytes : leBytes32 (receive received).checksum = leBytes32 d.checksum := by
        rw [hsum, hsum', h.take_eq hstart]
      exact leBytes32_inj hbytes
    have hburst : Burst (start - 32) 32 d.checkedBytes (receive received).checkedBytes := by
      have hmono : Burst start 32 d.wire received :=
        ⟨h.length_eq, h.ne, fun i hi => ⟨(h.window i hi).1, by have := h.window i hi; omega⟩⟩
      rw [hchecked, hchecked']
      exact (hmono.drop (n := 4) hstart).append
    refine CRC.crc32_ne hburst ?_
    rw [hcrc, hcrc', hfield]
  · -- what is covered is what was sent
    have hcovered : (receive received).checkedBytes = d.checkedBytes := by
      rw [hchecked, hchecked', h.drop_eq (n := 4) (Nat.le_refl _)]
    refine h.ne ?_
    rw [← List.take_append_drop 4 received, ← List.take_append_drop 4 d.wire, ← hsum, ← hsum',
      ← hcrc, ← hcrc', hcovered, h.drop_eq (n := 4) (Nat.le_refl _)]

/-- A FIN in which the SQN has been flipped. -/
theorem example_burst_detected :
    (receive (leBytes32 (ofFlags CRC.crc32 Flags.FIN false).checksum
      ++ [0, 0, 5, 0])).checkIntegrity CRC.crc32 = false := by
  have hbits : ∀ i < 32, (bits [0, 0, 5, 0])[i]? ≠ (bits [0, 0, 4, 0])[i]? →
      16 ≤ i ∧ i < 16 + 1 := by
    decide
  have hfields : Burst 16 1 [0, 0, 4, 0] [0, 0, 5, 0] := by
    refine ⟨rfl, by decide, fun i hi => hbits i ?_ hi⟩
    by_contra hge
    rw [List.getElem?_eq_none (Nat.not_lt.mp hge), List.getElem?_eq_none (Nat.not_lt.mp hge)]
      at hi
    exact hi rfl
  exact burst_detected (ofFlags CRC.crc32 Flags.FIN false) (.ofFlags ..) _
    (Or.inl ⟨48, 1, by decide, by decide, hfields.prepend (leBytes32 _)⟩)

end Rechnernetze.Bft
