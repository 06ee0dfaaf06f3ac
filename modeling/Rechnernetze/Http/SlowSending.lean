import Rechnernetze.Http.Connection
import Rechnernetze.Http.Snatch

/-!
# Slow sending

The loop of `send_slow` sends a message in blocks of `n_bytes`, the last one cut to what is left.
It is right where the block is shorter than the message and the sums fit an `int`. A block that
is longer, or negative, takes the shortcut through `send`, and then the loop as well: the message
is sent twice. A block of zero bytes is sent for ever (`transmits_once_iff`).
-/

namespace Rechnernetze.Http

open Lib

namespace Connection

section
variable {message : Bytes} {fuel : ℕ} {bytesSent nBytes : ℤ} {blocks blocks' : List Bytes}

/-! ## A turn -/

theorem length_slowBlock {block : Bytes} (h : slowBlock message bytesSent nBytes = some block) :
    block.length = toSizeT nBytes := by
  unfold slowBlock at h
  dsimp only at h
  split at h
  · rename_i hle
    rw [← Option.some.inj h]
    exact List.length_take_of_le hle
  · exact nomatch h

theorem slowTurn_cases {n : ℤ} {block : Bytes}
    (h : slowTurn message bytesSent nBytes = some (n, block)) :
    IsInt (bytesSent + nBytes) ∧ n = cutBlock message bytesSent nBytes ∧
      block.length = toSizeT n := by
  unfold slowTurn at h
  dsimp only at h
  split at h
  · rename_i hInt
    obtain ⟨block', hblock, heq⟩ := Option.map_eq_some_iff.mp h
    obtain ⟨rfl, rfl⟩ := Prod.mk.inj heq
    exact ⟨hInt.1, rfl, length_slowBlock hblock⟩
  · exact nomatch h

theorem cutBlock_short (h : toSizeT (bytesSent + nBytes) < message.length) :
    cutBlock message bytesSent nBytes = nBytes := if_neg (Nat.not_le.mpr h)

/-- A block that lies in the message is sent as it is. -/
theorem slowTurn_eq {b n : ℕ} (hle : b + n ≤ message.length)
    (hsum : IsInt (b + nBytes)) (hcut : cutBlock message b nBytes = n)
    (hfit : ((b + n : ℕ) : ℤ) ≤ intMax) :
    slowTurn message b nBytes = some ((n : ℤ), (message.drop b).take n) := by
  unfold intMax at hfit
  -- nothing wraps around below the largest `int`
  have hb : toSizeT b = b := by unfold toSizeT; omega
  have hn : toSizeT n = n := by unfold toSizeT; omega
  have hlength : ((message.drop b).take n).length = n := by
    rw [List.length_take, List.length_drop]
    omega
  have hblock : slowBlock message b n = some ((message.drop b).take n) := by
    unfold slowBlock
    rw [hb, hn]
    dsimp only
    rw [if_pos (by rw [List.length_append, hlength]; omega),
      List.take_append_of_le_length (by rw [hlength]), List.take_of_length_le (by rw [hlength])]
  have hInt : IsInt (b + nBytes) ∧ IsInt n ∧ IsInt (b + n) := by
    refine ⟨hsum, ?_, ?_⟩ <;> unfold IsInt intMax <;> omega
  unfold slowTurn
  dsimp only
  rw [hcut, if_pos hInt, hblock]
  rfl

/-! ## The loop -/

theorem sendSlowLoop_done (h : message.length ≤ toSizeT bytesSent) :
    sendSlowLoop message (fuel + 1) bytesSent nBytes blocks = some (.returned blocks) := by
  rw [sendSlowLoop, if_neg (Nat.not_lt.mpr h)]

/-- The bytes sent reach as far as the loop has come. -/
theorem length_le_of_returned
    (h : sendSlowLoop message fuel bytesSent nBytes blocks = some (.returned blocks')) :
    message.length + blocks.flatten.length ≤ toSizeT bytesSent + blocks'.flatten.length := by
  induction fuel generalizing bytesSent nBytes blocks with
  | zero => cases h
  | succ fuel ih =>
    unfold sendSlowLoop at h
    split at h
    · split at h
      · cases h
      · rename_i n block hblock
        have hlength : block.length = toSizeT n := (slowTurn_cases hblock).2.2
        -- a block is as long as the step of the counter, modulo the size of a `size_t`
        have hrest := ih h
        rw [List.flatten_append, List.length_append, List.flatten_singleton, hlength] at hrest
        have hsum := toSizeT_add_le bytesSent n
        omega
    · cases h
      omega

/-- The loop goes on for ever, or leaves the language, where no sum reaches the end of the
message. -/
theorem not_returned {P : ℤ → Prop} (hP : ∀ b, P b → toSizeT b < message.length)
    (hstep : ∀ b, P b → IsInt (b + nBytes) → P (b + nBytes)) (h : P bytesSent) :
    sendSlowLoop message fuel bytesSent nBytes blocks ≠ some (.returned blocks') := by
  induction fuel generalizing bytesSent blocks with
  | zero => nofun
  | succ fuel ih =>
    rw [sendSlowLoop, if_pos (hP _ h)]
    split
    · nofun
    · rename_i n block hblock
      obtain ⟨hsum, rfl, -⟩ := slowTurn_cases hblock
      -- the next sum is short of the end, too, so the block is not cut
      have hnext := hstep _ h hsum
      rw [cutBlock_short (hP _ hnext)]
      exact ih hnext

/-- Blocks of `n` bytes, `q` of which cover the message, leave nothing out and send nothing
twice. `i` of them have been sent. -/
theorem returned_of_cover {n q : ℕ} (hcover : message.length ≤ n * q)
    (hfit : ((n * q : ℕ) : ℤ) ≤ intMax) (i j : ℕ) (hij : i + j = q) (blocks : List Bytes)
    (hblocks : blocks.flatten = message.take (n * i)) :
    ∃ blocks', sendSlowLoop message (j + 1) (n * i : ℕ) n blocks
        = some (.returned blocks') ∧ blocks'.flatten = message := by
  unfold intMax at hfit
  induction j generalizing i blocks with
  | zero =>
    obtain rfl : i = q := hij
    have hdone : message.length ≤ toSizeT (n * i : ℕ) := by
      unfold toSizeT
      omega
    exact ⟨blocks, sendSlowLoop_done hdone, hblocks.trans (List.take_of_length_le hcover)⟩
  | succ j ih =>
    have hnext : n * (i + 1) ≤ n * q := Nat.mul_le_mul_left n (by omega)
    rw [Nat.mul_succ] at hnext
    have hsum : IsInt ((n * i : ℕ) + (n : ℤ)) := by
      unfold IsInt intMax
      omega
    have hb : toSizeT (n * i : ℕ) = n * i := by unfold toSizeT; omega
    have hend : toSizeT ((n * i : ℕ) + (n : ℤ)) = n * i + n := by unfold toSizeT; omega
    rcases Nat.lt_or_ge (n * i) message.length with hlt | hge
    · rcases Nat.lt_or_ge (n * i + n) message.length with hshort | hlast
      · -- a whole block
        have hturn := slowTurn_eq (Nat.le_of_lt hshort) hsum (cutBlock_short (hend ▸ hshort))
          (by unfold intMax; omega)
        rw [sendSlowLoop, if_pos (by rw [hb]; exact hlt), hturn]
        dsimp only
        refine ih (i + 1) (by omega) _ ?_
        rw [List.flatten_append, hblocks, List.flatten_singleton, ← List.take_add]
        rfl
      · -- what is left
        obtain ⟨r, hr⟩ := Nat.exists_eq_add_of_le (Nat.le_of_lt hlt)
        have hcut : cutBlock message (n * i : ℕ) n = r := by
          unfold cutBlock
          rw [if_pos (hend ▸ hlast), toInt_of_le (by unfold intMax; omega)]
          omega
        have hturn := slowTurn_eq (by omega) hsum hcut (by unfold intMax; omega)
        have hdone : message.length ≤ toSizeT ((n * i : ℕ) + (r : ℤ)) := by
          unfold toSizeT
          omega
        rw [sendSlowLoop, if_pos (by rw [hb]; exact hlt), hturn]
        refine ⟨_, sendSlowLoop_done hdone, ?_⟩
        rw [List.flatten_append, hblocks, List.flatten_singleton, ← List.take_add,
          List.take_of_length_le (by omega)]
    · exact ⟨blocks, sendSlowLoop_done (by rw [hb]; exact hge),
        hblocks.trans (List.take_of_length_le hge)⟩

end

/-! ## The message as a whole -/

/-- The whole blocks of `nBytes` bytes that cover a message, in bytes. -/
def coveringLength (message : Bytes) (nBytes : ℤ) : ℤ :=
  nBytes * ((message.length + nBytes - 1) / nBytes)

/-- The blocks handed to `::send` are the message, and the call returns. -/
def TransmitsOnce (message : Bytes) (nBytes : ℤ) : Prop :=
  ∃ fuel blocks, sendSlow fuel message nBytes = some (.returned blocks) ∧ blocks.flatten = message

section
variable {message : Bytes} {n : ℕ} {nBytes : ℤ}

theorem lt_blocks_iff {length i : ℕ} (hn : 0 < n) :
    i < (length + n - 1) / n ↔ n * i < length := by
  rw [← Nat.succ_le_iff, Nat.le_div_iff_mul_le hn, Nat.succ_mul, Nat.mul_comm i n]
  omega

theorem transmitsOnce_nil : TransmitsOnce [] nBytes := by
  refine ⟨1, [[]], ?_, rfl⟩
  have hshortcut : ([] : Bytes).length ≤ toSizeT nBytes := Nat.zero_le _
  unfold sendSlow
  rw [if_pos hshortcut]
  exact sendSlowLoop_done (Nat.zero_le _)

/-- The shortcut sends the message, and the loop sends it again. -/
theorem not_transmitsOnce_of_shortcut (hne : message ≠ [])
    (h : message.length ≤ toSizeT nBytes) : ¬ TransmitsOnce message nBytes := by
  rintro ⟨fuel, blocks, hreturn, hflatten⟩
  unfold sendSlow at hreturn
  rw [if_pos h] at hreturn
  have hlength := length_le_of_returned hreturn
  have hzero : toSizeT 0 = 0 := rfl
  rw [hflatten, List.flatten_singleton, hzero] at hlength
  have hpos : 0 < message.length := List.length_pos_iff.mpr hne
  omega

theorem sendSlow_of_not_shortcut {fuel : ℕ} (h : toSizeT nBytes < message.length) :
    sendSlow fuel message nBytes = sendSlowLoop message fuel 0 nBytes [] := by
  unfold sendSlow
  rw [if_neg (Nat.not_le.mpr h)]

/-- Blocks of no or less than no bytes never reach the end. -/
theorem not_transmitsOnce_of_nonpos (h : toSizeT nBytes < message.length) (hn : nBytes ≤ 0)
    (hInt : IsInt nBytes) : ¬ TransmitsOnce message nBytes := by
  rintro ⟨fuel, blocks, hreturn, -⟩
  rw [sendSlow_of_not_shortcut h] at hreturn
  have hpos : toSizeT 0 < message.length := Nat.lt_of_le_of_lt (Nat.zero_le _) h
  rcases Int.lt_or_eq_of_le hn with hneg | rfl
  · -- each sum is a smaller `size_t` than the one before
    refine not_returned (P := fun b => b = 0 ∨ b ≤ nBytes ∧ IsInt b) ?_ ?_ (Or.inl rfl) hreturn
    · intro b hb
      rcases hb with rfl | ⟨hle, hb⟩
      · exact hpos
      · have hsize := toSizeT_of_neg (by omega) hb
        have hsize' := toSizeT_of_neg hneg hInt
        omega
    · intro b hb hsum
      exact Or.inr ⟨by omega, hsum⟩
  · -- the counter stays 0
    refine not_returned (P := fun b => b = 0) ?_ ?_ rfl hreturn
    · intro b hb
      rw [hb]
      exact hpos
    · intro b hb _
      rw [hb]
      rfl

theorem transmitsOnce_iff_of_pos (hn : 0 < n) (hlt : n < message.length)
    (hInt : IsInt n) :
    TransmitsOnce message n ↔ ((n * ((message.length + n - 1) / n) : ℕ) : ℤ) ≤ intMax := by
  unfold IsInt intMax at hInt
  have hsize : toSizeT n < message.length := by
    unfold toSizeT
    omega
  refine ⟨fun h => ?_, fun hfit => ?_⟩
  · obtain ⟨fuel, blocks, hreturn, -⟩ := h
    rw [sendSlow_of_not_shortcut hsize] at hreturn
    by_contra hover
    -- the sum overflows before the last block
    refine not_returned (P := fun b => ∃ i : ℕ, b = (n * i : ℕ) ∧ n * i < message.length ∧
      b ≤ intMax) ?_ ?_ ⟨0, rfl, by omega, by unfold intMax; omega⟩ hreturn
    · rintro b ⟨i, rfl, hi, hb⟩
      unfold intMax at hb
      unfold toSizeT
      omega
    · rintro b ⟨i, rfl, hi, hb⟩ hsum
      have hnext : i + 1 < (message.length + n - 1) / n := by
        have hi' : i < (message.length + n - 1) / n := (lt_blocks_iff hn).mpr hi
        rcases Nat.lt_or_eq_of_le (Nat.succ_le_of_lt hi') with hlt' | heq
        · exact hlt'
        · rw [← heq] at hover
          have hle := hsum.2
          rw [Nat.mul_succ] at hover
          omega
      refine ⟨i + 1, ?_, (lt_blocks_iff hn).mp hnext, hsum.2⟩
      rw [Nat.mul_succ]
      omega
  · have hcover : message.length ≤ n * ((message.length + n - 1) / n) :=
      Nat.not_lt.mp fun h => Nat.lt_irrefl _ ((lt_blocks_iff hn).mpr h)
    obtain ⟨blocks, hreturn, hflatten⟩ := returned_of_cover hcover hfit 0 _ (Nat.zero_add _) []
      rfl
    exact ⟨_, blocks, (sendSlow_of_not_shortcut hsize).trans hreturn, hflatten⟩

end

/-- **Slow sending transmits the message once** exactly if it is empty, or the block is shorter
than it and the sums fit an `int`. -/
theorem transmits_once_iff (message slowString : Bytes) (info : Snatch.SlowInfo)
    (h : Snatch.parseSlowInfo slowString = .ok info) :
    TransmitsOnce message info.bytes ↔ message = [] ∨
      0 < info.bytes ∧ info.bytes < message.length ∧
        coveringLength message info.bytes ≤ intMax := by
  -- the option was read by `stoi`
  have hInt : IsInt info.bytes := by
    unfold Snatch.parseSlowInfo at h
    dsimp only [bind, Except.bind] at h
    split at h
    · cases h
    · rename_i n hn
      split at h
      · cases h
      · cases h
        exact isInt_of_stoi hn
  by_cases hnil : message = []
  · rw [hnil]
    exact ⟨fun _ => Or.inl rfl, fun _ => transmitsOnce_nil⟩
  have hpos : 0 < message.length := List.length_pos_iff.mpr hnil
  rcases Nat.lt_or_ge (toSizeT info.bytes) message.length with hlong | hshortcut
  · rcases Int.lt_or_le 0 info.bytes with hn | hn
    · -- blocks that are shorter than the message
      obtain ⟨n, hcast⟩ := Int.eq_ofNat_of_zero_le (Int.le_of_lt hn)
      have hsize := toSizeT_of_nonneg (Int.le_of_lt hn) hInt
      have hcover : coveringLength message n
          = ((n * ((message.length + n - 1) / n) : ℕ) : ℤ) := by
        unfold coveringLength
        rw [Nat.cast_mul, Int.natCast_ediv, Nat.cast_sub (by omega)]
        push_cast
        rfl
      rw [hcast] at hn hInt hsize hlong ⊢
      have hlt : n < message.length := by omega
      rw [hcover, transmitsOnce_iff_of_pos (by omega) hlt hInt]
      constructor
      · exact fun hfit => Or.inr ⟨hn, by omega, hfit⟩
      · rintro (h | ⟨-, -, hfit⟩)
        · exact absurd h hnil
        · exact hfit
    · -- no blocks, or negative ones
      refine ⟨fun h' => absurd h' (not_transmitsOnce_of_nonpos hlong hn hInt), ?_⟩
      rintro (h' | ⟨h0, -⟩)
      · exact absurd h' hnil
      · omega
  · -- one block takes the whole message, or the block is negative and counts as a large one
    refine ⟨fun h' => absurd h' (not_transmitsOnce_of_shortcut hnil hshortcut), ?_⟩
    rintro (h' | ⟨h0, hlt, -⟩)
    · exact absurd h' hnil
    · have hsize := toSizeT_of_nonneg (Int.le_of_lt h0) hInt
      omega

/-- A message of five bytes in blocks of two. -/
theorem example_transmitsOnce : TransmitsOnce (ascii "GET /") 2 :=
  (transmits_once_iff (ascii "GET /") (ascii "2,100") ⟨2, 100⟩ rfl).mpr
    (Or.inr ⟨by decide, by decide, by decide⟩)

/-- A message of five bytes in one block of five is sent twice. -/
theorem one_block_sent_twice :
    ¬ ∀ (message slowString : Bytes) (info : Snatch.SlowInfo),
      Snatch.parseSlowInfo slowString = .ok info → TransmitsOnce message info.bytes := by
  intro h
  exact not_transmitsOnce_of_shortcut (by decide) (by decide)
    (h (ascii "GET /") (ascii "5,100") ⟨5, 100⟩ rfl)

end Connection

end Rechnernetze.Http
