import Rechnernetze.Bft.BurstErrors
import Rechnernetze.Lib.CyclicCode

/-!
# What the checksum detects

`CRC_32` is the remainder of a division of polynomials (`crc32_eq_remainder`). On the wire the
checksum comes first, but what it covers and the checksum together are a word of the cyclic code
all the same: an error goes undetected exactly if the error polynomial is a multiple of the
generator (`accepted_iff_dvd`). No sum of two powers of `X` below 4096 is one, so a datagram with
one or two flipped bits never passes, wherever they are (`few_errors_detected`).
-/

namespace Rechnernetze.Bft

open Lib BftDatagram ShiftRegister Polynomial

namespace CRC

/-- The generator of `CRC_32`. -/
noncomputable def generator : (ZMod 2)[X] :=
  X ^ 32 + X ^ 26 + X ^ 23 + X ^ 22 + X ^ 16 + X ^ 12 + X ^ 11 + X ^ 10 + X ^ 8 + X ^ 7 + X ^ 5
    + X ^ 4 + X ^ 2 + X + 1

/-- The initial value and the final XOR: every coefficient is 1. -/
noncomputable def allOnes : (ZMod 2)[X] := textPoly (List.replicate 32 true)

theorem generator_eq : ShiftRegister.generator (0xEDB88320#32) = generator := by
  have hplaces : places (0xEDB88320#32)
      = [false, false, false, false, false, true, false, false, true, true, false, false, false,
        false, false, true, false, false, false, true, true, true, false, true, true, false, true,
        true, false, true, true, true] := by
    decide
  rw [ShiftRegister.generator, registerPoly, hplaces]
  simp only [textPoly, coefficient, generator, List.length_cons, List.length_nil,
    Bool.false_eq_true, if_false, if_true]
  ring

theorem registerPoly_allOnes : registerPoly (0xFFFFFFFF#32) = allOnes := by
  have hplaces : places (0xFFFFFFFF#32) = List.replicate 32 true := by decide
  rw [registerPoly, hplaces, allOnes]

/-- The checksum as a register that is fed the bits. -/
theorem crc32_toBitVec (data : Bytes) :
    (crc32 data).toBitVec
      = (bits data).foldl (feed 0xEDB88320#32) 0xFFFFFFFF#32 ^^^ 0xFFFFFFFF#32 := by
  have hcalculate : crc32 data
      = data.foldl (shiftByte (reflect crc_32.polynomial 32)) 0xFFFFFFFF ^^^ 0xFFFFFFFF := rfl
  rw [hcalculate, UInt32.toBitVec_xor, foldl_shiftByte_toBitVec, reflect_polynomial]
  rfl

/-- **The checksum is a remainder.** -/
theorem crc32_eq_remainder (data : Bytes) :
    registerPoly (crc32 data).toBitVec
      = (X ^ (8 * data.length) * allOnes + X ^ 32 * textPoly (bits data)) %ₘ generator
        + allOnes := by
  rw [crc32_toBitVec, registerPoly_xor, registerPoly_foldl_feed (by decide), generator_eq,
    registerPoly_allOnes, length_bits]

end CRC

/-- The bits that the checksum covers, and the checksum behind them, in the bytes of a datagram
on the wire. The end of the payload array is not sent. -/
def codeword (w : Bytes) : List Bool :=
  bits (w.drop 4 ++ List.replicate (maxDatagramSize - w.length) 0) ++ bits (w.take 4)

section
variable {d : BftDatagram} {received w : Bytes}

theorem byteBits_toUInt8 (c : UInt32) :
    byteBits c.toUInt8 = (List.range 8).map c.toBitVec.getLsbD := by
  refine List.map_congr_left fun i hi => ?_
  have hlt : i < 8 := List.mem_range.mp hi
  rw [UInt32.toBitVec_toUInt8, BitVec.getLsbD_setWidth]
  simp [hlt]

/-- The checksum field holds the places of the register in their order. -/
theorem places_toBitVec (c : UInt32) : places c.toBitVec = bits (leBytes32 c) := by
  have h8 : ∀ i, (c >>> 8).toBitVec.getLsbD i = c.toBitVec.getLsbD (8 + i) :=
    fun i => BitVec.getLsbD_ushiftRight ..
  have h16 : ∀ i, (c >>> 16).toBitVec.getLsbD i = c.toBitVec.getLsbD (16 + i) :=
    fun i => BitVec.getLsbD_ushiftRight ..
  have h24 : ∀ i, (c >>> 24).toBitVec.getLsbD i = c.toBitVec.getLsbD (24 + i) :=
    fun i => BitVec.getLsbD_ushiftRight ..
  have hbits : bits (leBytes32 c) = byteBits c.toUInt8 ++ (byteBits (c >>> 8).toUInt8 ++
      (byteBits (c >>> 16).toUInt8 ++ (byteBits (c >>> 24).toUInt8 ++ []))) := rfl
  rw [hbits, byteBits_toUInt8, byteBits_toUInt8, byteBits_toUInt8, byteBits_toUInt8]
  simp only [funext h8, funext h16, funext h24]
  rfl

/-- What is received is the word of the code that its fields make up. -/
theorem codeword_eq (hlow : 4 ≤ w.length) (hhigh : w.length ≤ maxDatagramSize) :
    codeword w = bits (receive w).checkedBytes ++ places (receive w).checksum.toBitVec := by
  obtain ⟨hsum, hchecked⟩ := fields_receive hlow hhigh
  rw [codeword, hchecked, places_toBitVec, hsum]

theorem length_checkedBits : (bits d.checkedBytes).length = 4064 := by
  rw [length_bits, length_checkedBytes]
  rfl

/-- What the length of a built datagram says about what is received for it. -/
theorem Built.length_received (hd : Built CRC.crc32 d)
    (hlength : received.length = d.wire.length) :
    4 ≤ received.length ∧ received.length ≤ maxDatagramSize := by
  have hwf := hd.wellFormed
  rw [hlength, hwf.length_wire]
  refine ⟨?_, hwf.size_le⟩
  rw [size, headerSize]
  omega

/-- The checksum of a built datagram, as a register. -/
theorem Built.register (hd : Built CRC.crc32 d) :
    (bits d.checkedBytes).foldl (feed 0xEDB88320#32) 0xFFFFFFFF#32 ^^^ 0xFFFFFFFF#32
      = d.checksum.toBitVec := by
  have hchecksum : CRC.crc32 d.checkedBytes = d.checksum := hd.wellFormed.checksum
  rw [← CRC.crc32_toBitVec, hchecksum]

theorem checksum_iff :
    CRC.crc32 d.checkedBytes = d.checksum ↔
      (bits d.checkedBytes).foldl (feed 0xEDB88320#32) 0xFFFFFFFF#32 ^^^ 0xFFFFFFFF#32
        = d.checksum.toBitVec := by
  rw [← UInt32.toBitVec_inj, CRC.crc32_toBitVec]

/-- **Undetected errors** are the multiples of the generator. -/
theorem accepted_iff_dvd (d : BftDatagram) (hd : Built CRC.crc32 d) (received : Bytes)
    (hlength : received.length = d.wire.length) :
    (receive received).checkIntegrity CRC.crc32 = true ↔
      (receive received).size ≤ maxDatagramSize ∧
        CRC.generator ∣ textPoly (codeword d.wire) + textPoly (codeword received) := by
  obtain ⟨hlow, hhigh⟩ := hd.length_received hlength
  have hcheck : (receive received).checkIntegrity CRC.crc32 = true ↔
      CRC.crc32 (receive received).checkedBytes = (receive received).checksum ∧
        (receive received).size ≤ maxDatagramSize :=
    decide_eq_true_iff
  have hbits : (bits d.checkedBytes).length = (bits (receive received).checkedBytes).length := by
    rw [length_checkedBits, length_checkedBits]
  rw [hcheck, and_comm, checksum_iff, checksum_eq_iff_dvd (by decide) hbits hd.register,
    codeword_eq hlow hhigh, codeword_eq (hlength ▸ hlow) (hlength ▸ hhigh),
    hd.wellFormed.receive_wire, CRC.generator_eq]

/-- A damage that makes an ABR of a FIN goes undetected, so it is a multiple. -/
theorem example_accepted_iff_dvd :
    CRC.generator ∣ textPoly (codeword (ofFlags CRC.crc32 Flags.FIN false).wire)
      + textPoly (codeword (BftDatagram.ABR CRC.crc32).wire) := by
  have hABR : Built CRC.crc32 (BftDatagram.ABR CRC.crc32) := .ofFlags ..
  have haccepted : (receive (BftDatagram.ABR CRC.crc32).wire).checkIntegrity CRC.crc32 = true := by
    rw [hABR.wellFormed.receive_wire]
    exact hABR.wellFormed.checkIntegrity
  have hlength : ∀ crc,
      (BftDatagram.ABR crc).wire.length = (ofFlags crc Flags.FIN false).wire.length := fun _ => rfl
  exact ((accepted_iff_dvd (ofFlags CRC.crc32 Flags.FIN false) (.ofFlags ..)
    (BftDatagram.ABR CRC.crc32).wire (hlength _)).mp haccepted).2

/-! ## One or two flipped bits -/

theorem flips_codeword (hd : Built CRC.crc32 d) (hlength : received.length = d.wire.length) :
    flips (codeword d.wire) (codeword received) = flips (bits d.wire) (bits received) := by
  obtain ⟨hlow, -⟩ := hd.length_received hlength
  have htake : (bits (d.wire.take 4)).length = (bits (received.take 4)).length := by
    rw [length_bits, length_bits, List.length_take, List.length_take, hlength]
  have hdrop : (bits (d.wire.drop 4)).length = (bits (received.drop 4)).length := by
    rw [length_bits, length_bits, List.length_drop, List.length_drop, hlength]
  have hsplit : ∀ w : Bytes, bits w = bits (w.take 4) ++ bits (w.drop 4) := by
    intro w
    rw [← bits_append, List.take_append_drop]
  rw [hsplit d.wire, hsplit received, flips_append htake, codeword, codeword, hlength, bits_append,
    bits_append, flips_append (by rw [List.length_append, List.length_append, hdrop]),
    flips_append hdrop, flips_self, Nat.add_zero, Nat.add_comm]

/-- **One or two flipped bits are detected**, in whatever fields they are. -/
theorem few_errors_detected (d : BftDatagram) (hd : Built CRC.crc32 d) (received : Bytes)
    (hlength : received.length = d.wire.length)
    (hflips : flips (bits d.wire) (bits received) = 1 ∨
      flips (bits d.wire) (bits received) = 2) :
    (receive received).checkIntegrity CRC.crc32 = false := by
  obtain ⟨hlow, hhigh⟩ := hd.length_received hlength
  have hbits : (bits d.checkedBytes).length = (bits (receive received).checkedBytes).length := by
    rw [length_checkedBits, length_checkedBits]
  -- the powers of `X` up to the length of the word are different from 1
  have horder : comesTo (0xEDB88320#32) (one 32) 4095 (one 32) = false := by decide +kernel
  rw [← flips_codeword hd hlength, codeword_eq hlow hhigh,
    codeword_eq (hlength ▸ hlow) (hlength ▸ hhigh), hd.wellFormed.receive_wire] at hflips
  have hne := checksum_ne_of_flips (by decide) (by decide) horder
    (by rw [length_checkedBits]) hbits hd.register hflips
  refine (Bool.not_eq_true _).mp fun hcheck => hne ?_
  have hsum : CRC.crc32 (receive received).checkedBytes = (receive received).checksum :=
    (of_decide_eq_true hcheck).1
  exact checksum_iff.mp hsum

/-- A FIN in which a bit of the size and the SQN are flipped. -/
theorem example_few_errors_detected :
    (receive (leBytes32 (ofFlags CRC.crc32 Flags.FIN false).checksum
      ++ [1, 0, 5, 0])).checkIntegrity CRC.crc32 = false := by
  have hfields : flips (bits [0, 0, 4, 0]) (bits [1, 0, 5, 0]) = 2 := by decide
  refine few_errors_detected (ofFlags CRC.crc32 Flags.FIN false) (.ofFlags ..) _ rfl (Or.inr ?_)
  have hwire : (ofFlags CRC.crc32 Flags.FIN false).wire
      = leBytes32 (ofFlags CRC.crc32 Flags.FIN false).checksum ++ [0, 0, 4, 0] := rfl
  rw [hwire, bits_append, bits_append, flips_append rfl, flips_self, hfields]

end

end Rechnernetze.Bft
