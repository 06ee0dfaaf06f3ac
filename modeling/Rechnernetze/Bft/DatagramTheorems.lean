import Mathlib.Tactic.Common
import Rechnernetze.Bft.Datagram

/-!
# The datagram survives the wire

* the packed object can be read back from its bytes (`ofBytes_toBytes`);
* a datagram whose payload array is zero after the payload is received exactly as it was
  sent (`receive_wire`), although only its first `size` bytes are transmitted;
* every constructor builds such a datagram, with a valid checksum (`wellFormed_init`);
* an acknowledgement carries the flags of what it acknowledges and `ACK`
  (`flags_of_isACKFor`), and its SQN (`getSQN_createACK`).
-/

namespace Rechnernetze.Bft

open Lib

/-! ## Sets of flags -/

namespace Flags

theorem or_and (f g h : Flags) : (f ||| g) &&& h = f &&& h ||| g &&& h := by
  apply UInt16.toBitVec_inj.mp
  ext i hi
  simp [Bool.and_or_distrib_right]

theorem clearFlag_or_and (f g : Flags) : clearFlag f g ||| (f &&& g) = f := by
  apply UInt16.toBitVec_inj.mp
  ext i hi
  simp [clearFlag, ← Bool.and_or_distrib_left]

theorem or_SQN_and_SQN (f : Flags) : (f ||| SQN) &&& SQN = SQN := by
  apply UInt16.toBitVec_inj.mp
  ext i hi
  simp [SQN]
  tauto

/-- Acknowledging a datagram keeps its SQN. -/
theorem or_ACK_and_SQN (f : Flags) : (f ||| ACK) &&& SQN = f &&& SQN := by
  have hACK : ACK &&& SQN = 0 := by decide
  rw [or_and, hACK, UInt16.or_zero]

end Flags

namespace BftDatagram

/-! ## Fields and bytes -/

theorem ofLeBytes16_leBytes16 (x : UInt16) : ofLeBytes16 x.toUInt8 (x >>> 8).toUInt8 = x := by
  apply UInt16.toNat_inj.mp
  have hx := x.toNat_lt
  simp only [ofLeBytes16, UInt16.toNat_add, UInt16.toNat_mul, UInt8.toNat_toUInt16,
    UInt16.toNat_toUInt8, UInt16.toNat_shiftRight, UInt16.toNat_ofNat, Nat.shiftRight_eq_div_pow,
    Nat.reduceMod, Nat.reducePow]
  omega

theorem ofLeBytes32_leBytes32 (x : UInt32) :
    ofLeBytes32 x.toUInt8 (x >>> 8).toUInt8 (x >>> 16).toUInt8 (x >>> 24).toUInt8 = x := by
  apply UInt32.toNat_inj.mp
  have hx := x.toNat_lt
  simp only [ofLeBytes32, UInt32.toNat_add, UInt32.toNat_mul, UInt8.toNat_toUInt32,
    UInt32.toNat_toUInt8, UInt32.toNat_shiftRight, UInt32.toNat_ofNat, Nat.shiftRight_eq_div_pow,
    Nat.reduceMod, Nat.reducePow]
  omega

theorem leBytes32_inj {x y : UInt32} (h : leBytes32 x = leBytes32 y) : x = y := by
  obtain ⟨h₀, h₁, h₂, h₃, -⟩ : x.toUInt8 = y.toUInt8 ∧ (x >>> 8).toUInt8 = (y >>> 8).toUInt8 ∧
      (x >>> 16).toUInt8 = (y >>> 16).toUInt8 ∧ (x >>> 24).toUInt8 = (y >>> 24).toUInt8 ∧ True := by
    simpa [leBytes32] using h
  rw [← ofLeBytes32_leBytes32 x, h₀, h₁, h₂, h₃, ofLeBytes32_leBytes32]

/-- The object is determined by its bytes. -/
theorem ofBytes_toBytes (d : BftDatagram) : ofBytes d.toBytes d.length_toBytes = d := by
  obtain ⟨c, n, f, p, hp⟩ := d
  simp [ofBytes, toBytes, checkedBytes, leBytes32, leBytes16, headerSize,
    ofLeBytes16_leBytes16, ofLeBytes32_leBytes32]

theorem leBytes16_ofLeBytes16 (b₀ b₁ : UInt8) : leBytes16 (ofLeBytes16 b₀ b₁) = [b₀, b₁] := by
  have h₀ := b₀.toNat_lt
  have h₁ := b₁.toNat_lt
  have hnat : (ofLeBytes16 b₀ b₁).toNat = b₀.toNat + b₁.toNat * 256 := by
    simp only [ofLeBytes16, UInt16.toNat_add, UInt16.toNat_mul, UInt8.toNat_toUInt16,
      UInt16.toNat_ofNat, Nat.reduceMod, Nat.reducePow]
    omega
  refine List.cons_eq_cons.mpr ⟨?_, List.cons_eq_cons.mpr ⟨?_, rfl⟩⟩ <;>
    apply UInt8.toNat_inj.mp <;>
    simp only [UInt16.toNat_toUInt8, UInt16.toNat_shiftRight, UInt16.toNat_ofNat,
      Nat.shiftRight_eq_div_pow, Nat.reduceMod, Nat.reducePow, hnat] <;>
    omega

theorem leBytes32_ofLeBytes32 (b₀ b₁ b₂ b₃ : UInt8) :
    leBytes32 (ofLeBytes32 b₀ b₁ b₂ b₃) = [b₀, b₁, b₂, b₃] := by
  have h₀ := b₀.toNat_lt
  have h₁ := b₁.toNat_lt
  have h₂ := b₂.toNat_lt
  have h₃ := b₃.toNat_lt
  have hnat : (ofLeBytes32 b₀ b₁ b₂ b₃).toNat
      = b₀.toNat + b₁.toNat * 256 + b₂.toNat * 65536 + b₃.toNat * 16777216 := by
    simp only [ofLeBytes32, UInt32.toNat_add, UInt32.toNat_mul, UInt8.toNat_toUInt32,
      UInt32.toNat_ofNat, Nat.reduceMod, Nat.reducePow]
    omega
  refine List.cons_eq_cons.mpr ⟨?_, List.cons_eq_cons.mpr ⟨?_, List.cons_eq_cons.mpr ⟨?_,
      List.cons_eq_cons.mpr ⟨?_, rfl⟩⟩⟩⟩ <;>
    apply UInt8.toNat_inj.mp <;>
    simp only [UInt32.toNat_toUInt8, UInt32.toNat_shiftRight, UInt32.toNat_ofNat,
      Nat.shiftRight_eq_div_pow, Nat.reduceMod, Nat.reducePow, hnat] <;>
    omega

/-- Every 512 bytes are those of an object. -/
theorem toBytes_ofBytes {l : Bytes} (h : l.length = maxDatagramSize) :
    (ofBytes l h).toBytes = l := by
  obtain ⟨b₀, b₁, b₂, b₃, b₄, b₅, b₆, b₇, p, rfl⟩ : ∃ b₀ b₁ b₂ b₃ b₄ b₅ b₆ b₇ p,
      l = b₀ :: b₁ :: b₂ :: b₃ :: b₄ :: b₅ :: b₆ :: b₇ :: p := by
    match l, h with
    | b₀ :: b₁ :: b₂ :: b₃ :: b₄ :: b₅ :: b₆ :: b₇ :: p, _ =>
      exact ⟨b₀, b₁, b₂, b₃, b₄, b₅, b₆, b₇, p, rfl⟩
  show leBytes32 (ofLeBytes32 b₀ b₁ b₂ b₃)
    ++ (leBytes16 (ofLeBytes16 b₄ b₅) ++ leBytes16 (ofLeBytes16 b₆ b₇) ++ p) = _
  rw [leBytes32_ofLeBytes32, leBytes16_ofLeBytes16, leBytes16_ofLeBytes16]
  rfl

/-- The object before the reception is all zeros. -/
theorem toBytes_fresh : fresh.toBytes = List.replicate maxDatagramSize 0 := by
  have h16 : leBytes16 0 = List.replicate 2 0 := by decide
  have h32 : leBytes32 0 = List.replicate 4 0 := by decide
  show leBytes32 0 ++ (leBytes16 0 ++ leBytes16 0 ++ List.replicate maxPayloadSize 0) = _
  rw [h16, h32, List.replicate_append_replicate, List.replicate_append_replicate,
    List.replicate_append_replicate]
  rfl

/-- What is received is followed by zeros. -/
theorem toBytes_receive {w : Bytes} (hw : w.length ≤ maxDatagramSize) :
    (receive w).toBytes = w ++ List.replicate (maxDatagramSize - w.length) 0 := by
  rw [receive, toBytes_ofBytes, List.take_of_length_le hw, overlay, toBytes_fresh,
    List.drop_replicate]

/-- Dropping the header and `n` more bytes leaves the payload array from `n` on. -/
theorem drop_toBytes (d : BftDatagram) (n : ℕ) :
    d.toBytes.drop (n + headerSize) = d.payload.drop n := by
  rw [Nat.add_comm, ← List.drop_drop]
  congr 1

/-! ## Transmission of a prefix -/

/-- The payload fits and the rest of the payload array is zero. -/
structure ZeroTail (d : BftDatagram) : Prop where
  payloadSize : d.payloadSize.toNat ≤ maxPayloadSize
  zero_tail : d.payload.drop d.payloadSize.toNat
    = List.replicate (maxPayloadSize - d.payloadSize.toNat) 0

/-- What the constructors guarantee: in addition the checksum is right. -/
structure WellFormed (crc : Bytes → UInt32) (d : BftDatagram) : Prop extends ZeroTail d where
  checksum : d.calcChecksum crc = d.checksum

variable {crc : Bytes → UInt32} {d : BftDatagram}

theorem ZeroTail.size_le (h : d.ZeroTail) : d.size ≤ maxDatagramSize := by
  have := h.payloadSize
  simp only [size, maxPayloadSize, maxDatagramSize, headerSize] at this ⊢
  omega

/-- `send` transmits `size` bytes. -/
theorem ZeroTail.length_wire (h : d.ZeroTail) : d.wire.length = d.size := by
  rw [wire, List.length_take, length_toBytes]
  exact Nat.min_eq_left h.size_le

theorem ZeroTail.wire_ne_nil (h : d.ZeroTail) : d.wire ≠ [] := by
  intro hnil
  have := h.length_wire
  rw [hnil, size, headerSize] at this
  simp at this

/-- **The bytes that are not transmitted are zero at both ends.** -/
theorem ZeroTail.receive_wire (h : d.ZeroTail) : receive d.wire = d := by
  have htail : fresh.toBytes.drop d.size = d.toBytes.drop d.size := by
    rw [size, drop_toBytes, drop_toBytes, h.zero_tail]
    exact List.drop_replicate ..
  -- the transmitted prefix overwrites the fresh object up to where both are zero
  have hobj : overlay (d.wire.take maxDatagramSize) fresh.toBytes = d.toBytes := by
    rw [List.take_of_length_le (by rw [h.length_wire]; exact h.size_le), overlay, h.length_wire,
      htail, wire, List.take_append_drop]
  have hcongr : ∀ (l : Bytes) (hl : l.length = maxDatagramSize), l = d.toBytes →
      ofBytes l hl = d := by
    rintro _ _ rfl
    exact ofBytes_toBytes d
  exact hcongr _ _ hobj

theorem WellFormed.checkIntegrity (h : d.WellFormed crc) : d.checkIntegrity crc = true := by
  simp [BftDatagram.checkIntegrity, h.checksum, h.size_le]

/-- A valid checksum that is off by one is detected, whatever the checksum function. -/
theorem WellFormed.checkIntegrity_off_by_one (h : d.WellFormed crc) :
    { d with checksum := d.checksum + 1 }.checkIntegrity crc = false := by
  have hsum : calcChecksum crc { d with checksum := d.checksum + 1 } = d.checksum := h.checksum
  simp [BftDatagram.checkIntegrity, hsum]

/-! ## The constructors -/

theorem payloadSize_init (flags : Flags) (data : Payload) (sqn : Bool) :
    (init crc flags data sqn).payloadSize.toNat = data.1.length := by
  have h := data.2
  simp only [maxPayloadSize, maxDatagramSize, headerSize] at h
  simp only [init, UInt16.toNat_ofNat']
  omega

theorem wellFormed_init (flags : Flags) (data : Payload) (sqn : Bool) :
    (init crc flags data sqn).WellFormed crc where
  checksum := rfl
  payloadSize := by rw [payloadSize_init]; exact data.2
  zero_tail := by
    rw [payloadSize_init]
    simp [init, overlay]

theorem getPayload_init (flags : Flags) (data : Payload) (sqn : Bool) :
    (init crc flags data sqn).getPayload = data.1 := by
  rw [getPayload, payloadSize_init]
  simp [init, overlay]

theorem getFlags_init (flags : Flags) (data : Payload) (sqn : Bool) :
    (init crc flags data sqn).getFlags = if sqn then flags ||| Flags.SQN else flags := rfl

/-- The sent SQN: set if the flag argument had it or `sqn` was true. -/
theorem getSQN_init (flags : Flags) (data : Payload) (sqn : Bool) :
    (init crc flags data sqn).getSQN = (decide (flags &&& Flags.SQN = Flags.SQN) || sqn) := by
  cases sqn
  · simp [getSQN, init]
  · simp [getSQN, init, Flags.or_SQN_and_SQN]

/-- A datagram `d` that was built from `flags`, the bytes `data` and `sqn` arrives as it
was built. -/
structure SurvivesWire (crc : Bytes → UInt32) (d : BftDatagram) (flags : Flags) (data : Bytes)
    (sqn : Bool) : Prop where
  toBytes : (receive d.wire).toBytes = d.toBytes
  checkIntegrity : (receive d.wire).checkIntegrity crc = true
  getPayload : (receive d.wire).getPayload = data
  getFlags : (receive d.wire).getFlags = if sqn then flags ||| Flags.SQN else flags
  getSQN : (receive d.wire).getSQN = (decide (flags &&& Flags.SQN = Flags.SQN) || sqn)

theorem survivesWire_init (flags : Flags) (data : Payload) (sqn : Bool) :
    SurvivesWire crc (init crc flags data sqn) flags data.1 sqn := by
  have hwf : (init crc flags data sqn).WellFormed crc := wellFormed_init flags data sqn
  constructor <;> rw [hwf.receive_wire]
  · exact hwf.checkIntegrity
  · exact getPayload_init flags data sqn
  · exact getFlags_init flags data sqn
  · exact getSQN_init flags data sqn

/-- **Round trip.** Whatever the checksum function, a datagram of any of the three
constructors is received with the same 512 bytes, passes `check_integrity` and gives back
the payload, the flags and the SQN it was built from. -/
theorem wire_round_trip (crc : Bytes → UInt32) (flags : Flags) (data : Payload) (sqn : Bool) :
    SurvivesWire crc (ofRange crc flags data sqn) flags data.1 sqn ∧
      SurvivesWire crc (ofString crc flags data sqn) flags data.1 sqn ∧
      SurvivesWire crc (ofFlags crc flags sqn) flags [] sqn :=
  ⟨survivesWire_init flags data sqn, survivesWire_init flags data sqn,
    survivesWire_init flags ⟨[], Nat.zero_le _⟩ sqn⟩

/-! ## Answers -/

/-- `is_ACK_for` looks at the flags of the two datagrams only. -/
theorem isACKFor_of_flags {response original : BftDatagram} {f g : Flags}
    (hf : response.flags = f) (hg : original.flags = g) :
    response.isACKFor original = decide (f &&& Flags.ACK = Flags.ACK ∧
      clearFlag f Flags.ACK = g ∧
      decide (f &&& Flags.SQN = Flags.SQN) = decide (g &&& Flags.SQN = Flags.SQN)) := by
  subst hf hg
  rfl

/-- What `is_ACK_for` accepts has the flags of the original and `ACK`. -/
theorem flags_of_isACKFor {response original : BftDatagram}
    (h : response.isACKFor original = true) :
    response.flags = original.flags ||| Flags.ACK := by
  rw [isACKFor_of_flags rfl rfl, decide_eq_true_eq] at h
  obtain ⟨hACK, hclear, -⟩ := h
  rw [← hclear]
  nth_rewrite 1 [← Flags.clearFlag_or_and response.flags Flags.ACK]
  rw [hACK]

theorem wellFormed_createACK (d : BftDatagram) : (d.createACK crc).WellFormed crc :=
  wellFormed_init ..

theorem getSQN_createACK (d : BftDatagram) : (d.createACK crc).getSQN = d.getSQN := by
  have hinit : (d.createACK crc).getSQN
      = (decide ((d.flags ||| Flags.ACK) &&& Flags.SQN = Flags.SQN) || d.getSQN) :=
    getSQN_init ..
  rw [hinit, Flags.or_ACK_and_SQN]
  exact Bool.or_self _

/-- The acknowledgement of a datagram without `ACK` is one for it. -/
theorem isACKFor_createACK {d : BftDatagram} (h : d.flags &&& Flags.ACK = 0) :
    (d.createACK crc).isACKFor d = true := by
  have hclear : clearFlag (d.flags ||| Flags.ACK) Flags.ACK = d.flags := by
    rw [clearFlag, Flags.or_and, UInt16.and_not_self, UInt16.or_zero]
    have hsplit := Flags.clearFlag_or_and d.flags Flags.ACK
    rw [h, UInt16.or_zero] at hsplit
    exact hsplit
  have hACK : (d.flags ||| Flags.ACK) &&& Flags.ACK = Flags.ACK := by
    rw [Flags.or_and, h, UInt16.zero_or, UInt16.and_self]
  have hflags : (d.createACK crc).flags = d.flags ||| Flags.ACK := by
    have hinit : (d.createACK crc).flags
        = if d.getSQN then d.flags ||| Flags.ACK ||| Flags.SQN else d.flags ||| Flags.ACK :=
      getFlags_init ..
    rw [hinit]
    split
    · -- the SQN bit that the constructor merges in is there already
      rename_i hsqn
      have hSQN : d.flags &&& Flags.SQN = Flags.SQN := by simpa [getSQN] using hsqn
      have hor := Flags.clearFlag_or_and (d.flags ||| Flags.ACK) Flags.SQN
      rw [Flags.or_ACK_and_SQN, hSQN] at hor
      rw [← hor, UInt16.or_assoc, UInt16.or_self]
    · rfl
  rw [isACKFor_of_flags hflags rfl]
  simp only [hACK, hclear, Flags.or_ACK_and_SQN, decide_true, and_self]

end BftDatagram

end Rechnernetze.Bft
