import Mathlib.Algebra.CharP.Two
import Mathlib.Algebra.Field.ZMod
import Mathlib.Algebra.Polynomial.Div
import Mathlib.Tactic.LinearCombination
import Mathlib.Tactic.Ring
import Rechnernetze.Lib.ShiftRegister

/-!
# Shift registers divide polynomials

A text of bits is a polynomial over the field of two elements, its first bit the highest
coefficient, and so is a register, its lowest place the highest coefficient. Feeding a text to a
register divides: what the register holds at the end is the remainder of the text, moved up by
the width of the register, modulo the generator (`registerPoly_foldl_feed`). So a text followed
by its checksum stands for a multiple of the generator, up to a constant, and an error passes
exactly if the generator divides it (`checksum_eq_iff_dvd`).
-/

namespace Rechnernetze.Lib

open Polynomial

namespace ShiftRegister

/-! ## Texts as polynomials -/

noncomputable def coefficient (b : Bool) : (ZMod 2)[X] := if b then 1 else 0

/-- The polynomial of a text, the first bit the highest coefficient. -/
noncomputable def textPoly : List Bool → (ZMod 2)[X]
  | [] => 0
  | b :: l => coefficient b * X ^ l.length + textPoly l

/-- The places of a register, the lowest one first. -/
def places {w : ℕ} (r : BitVec w) : List Bool := (List.range w).map r.getLsbD

/-- The polynomial of a register. -/
noncomputable def registerPoly {w : ℕ} (r : BitVec w) : (ZMod 2)[X] := textPoly (places r)

/-- The polynomial that is added in a shift, with its leading coefficient. -/
noncomputable def generator {w : ℕ} (g : BitVec w) : (ZMod 2)[X] := X ^ w + registerPoly g

section
variable {w n : ℕ} {g r s : BitVec w} {l l' : List Bool} {b : Bool} {p q : (ZMod 2)[X]}

theorem coefficient_xor {a b : Bool} : coefficient (a ^^ b) = coefficient a + coefficient b := by
  cases a <;> cases b <;> simp [coefficient, CharTwo.add_self_eq_zero]

theorem textPoly_append : textPoly (l ++ l') = textPoly l * X ^ l'.length + textPoly l' := by
  induction l with
  | nil => simp [textPoly]
  | cons b l ih =>
    rw [List.cons_append, textPoly, ih, textPoly, List.length_append, pow_add]
    ring

theorem textPoly_concat : textPoly (l ++ [b]) = X * textPoly l + coefficient b := by
  rw [textPoly_append]
  simp [textPoly, mul_comm]

theorem textPoly_zipWith_xor (hlength : l.length = l'.length) :
    textPoly (List.zipWith (· ^^ ·) l l') = textPoly l + textPoly l' := by
  induction l generalizing l' with
  | nil =>
    obtain rfl : l' = [] := List.length_eq_zero_iff.mp hlength.symm
    simp [textPoly]
  | cons a l ih =>
    obtain ⟨b, l', rfl⟩ := List.exists_cons_of_length_eq_add_one hlength.symm
    have htail : l.length = l'.length := Nat.succ.inj hlength
    have hzip : (List.zipWith (· ^^ ·) l l').length = l.length := by
      rw [List.length_zipWith, htail, Nat.min_self]
    rw [List.zipWith_cons_cons, textPoly, ih htail, coefficient_xor, textPoly, textPoly, hzip,
      htail]
    ring

theorem textPoly_replicate_false : textPoly (List.replicate n false) = 0 := by
  induction n with
  | zero => rfl
  | succ n ih =>
    rw [List.replicate_succ, textPoly, ih]
    simp [coefficient]

theorem degree_textPoly_lt : (textPoly l).degree < l.length := by
  induction l with
  | nil => simp [textPoly]
  | cons b l ih =>
    have hle : l.length < (b :: l).length := Nat.lt_succ_self _
    refine lt_of_le_of_lt (degree_add_le _ _) (max_lt ?_ (ih.trans (Nat.cast_lt.mpr hle)))
    cases b with
    | false => simp [coefficient]
    | true =>
      rw [coefficient, if_pos rfl, one_mul, degree_X_pow]
      exact Nat.cast_lt.mpr hle

theorem textPoly_injective (hlength : l.length = l'.length) (h : textPoly l = textPoly l') :
    l = l' := by
  induction l generalizing l' with
  | nil => exact (List.length_eq_zero_iff.mp hlength.symm).symm
  | cons a l ih =>
    obtain ⟨b, l', rfl⟩ := List.exists_cons_of_length_eq_add_one hlength.symm
    have htail : l.length = l'.length := Nat.succ.inj hlength
    -- the highest coefficient is the first bit
    have hhigh : ∀ (c : Bool) (t : List Bool), t.length = l.length →
        (textPoly (c :: t)).coeff l.length = if c then 1 else 0 := by
      intro c t ht
      have hrest : (textPoly t).coeff l.length = 0 := by
        rw [← ht]
        exact coeff_eq_zero_of_degree_lt degree_textPoly_lt
      rw [textPoly, coeff_add, hrest, ht, coeff_mul_X_pow', if_pos (le_refl _), Nat.sub_self,
        add_zero]
      cases c <;> simp [coefficient]
    have hfirst : a = b := by
      have hcoeff := congrArg (coeff · l.length) h
      simp only [hhigh a l rfl, hhigh b l' htail.symm] at hcoeff
      cases a <;> cases b <;> simp_all
    subst hfirst
    rw [textPoly, textPoly, htail] at h
    rw [ih htail (add_left_cancel h)]

/-! ## Registers as polynomials -/

theorem length_places : (places r).length = w := by
  rw [places, List.length_map, List.length_range]

theorem degree_registerPoly_lt : (registerPoly r).degree < w := by
  have h := degree_textPoly_lt (l := places r)
  rwa [length_places] at h

theorem registerPoly_injective (h : registerPoly r = registerPoly s) : r = s := by
  have hplaces := textPoly_injective (by rw [length_places, length_places]) h
  apply BitVec.eq_of_getLsbD_eq
  intro i hi
  have hbit := congrArg (·[i]?) hplaces
  simpa [places, hi] using hbit

theorem registerPoly_xor : registerPoly (r ^^^ s) = registerPoly r + registerPoly s := by
  have hplaces : places (r ^^^ s) = List.zipWith (· ^^ ·) (places r) (places s) := by
    rw [places, places, places, List.zipWith_map, List.zipWith_self]
    exact List.map_congr_left fun i _ => BitVec.getLsbD_xor
  rw [registerPoly, hplaces, textPoly_zipWith_xor (by rw [length_places, length_places])]
  rfl

theorem registerPoly_ushiftRight :
    registerPoly (r >>> 1) = X * registerPoly r + coefficient (r.getLsbD 0) * X ^ w := by
  cases w with
  | zero =>
    obtain rfl : r = 0#0 := BitVec.eq_nil r
    simp [registerPoly, places, textPoly, coefficient]
  | succ n =>
    set t := (List.range n).map fun i => r.getLsbD (i + 1) with ht
    have hr : places r = r.getLsbD 0 :: t := by
      rw [places, List.range_succ_eq_map, List.map_cons, List.map_map]
      rfl
    have hshift : places (r >>> 1) = t ++ [false] := by
      rw [places, List.range_succ, List.map_append, List.map_singleton,
        BitVec.getLsbD_ushiftRight, BitVec.getLsbD_of_ge r _ (by omega)]
      refine congrArg (· ++ [false]) (List.map_congr_left fun i _ => ?_)
      rw [BitVec.getLsbD_ushiftRight]
      exact congrArg r.getLsbD (Nat.add_comm 1 i)
    have hlength : t.length = n := by rw [ht, List.length_map, List.length_range]
    -- what was the highest coefficient is twice there
    have htwice : coefficient (r.getLsbD 0) * X ^ (n + 1)
        + coefficient (r.getLsbD 0) * X ^ (n + 1) = 0 := CharTwo.add_self_eq_zero _
    rw [registerPoly, hshift, textPoly_concat, registerPoly, hr, textPoly, hlength]
    have hfalse : coefficient false = 0 := rfl
    rw [hfalse, pow_succ']
    rw [pow_succ'] at htwice
    linear_combination -htwice

theorem registerPoly_shift :
    registerPoly (shift g r)
      = X * registerPoly r + coefficient (r.getLsbD 0) * generator g := by
  unfold shift
  cases hlow : r.getLsbD 0 with
  | false =>
    have hzero : coefficient false = 0 := rfl
    rw [if_neg Bool.false_ne_true, registerPoly_ushiftRight, hlow, hzero, zero_mul, zero_mul]
  | true =>
    have hone : coefficient true = 1 := rfl
    rw [if_pos rfl, registerPoly_xor, registerPoly_ushiftRight, hlow, hone, generator]
    ring

theorem registerPoly_lowest (hw : 0 < w) :
    registerPoly (lowest w b) = coefficient b * X ^ (w - 1) := by
  obtain ⟨n, rfl⟩ := Nat.exists_eq_add_one_of_ne_zero (Nat.ne_of_gt hw)
  have hplaces : places (lowest (n + 1) b) = b :: List.replicate n false := by
    rw [places, List.range_succ_eq_map, List.map_cons, getLsbD_lowest, List.map_map]
    refine congrArg₂ _ (by simp) ?_
    rw [List.eq_replicate_iff]
    refine ⟨by rw [List.length_map, List.length_range], fun c hc => ?_⟩
    obtain ⟨i, -, rfl⟩ := List.mem_map.mp hc
    simp [getLsbD_lowest]
  rw [registerPoly, hplaces, textPoly, textPoly_replicate_false, List.length_replicate, add_zero,
    Nat.add_sub_cancel]

/-- A bit that is fed multiplies by `X` and adds the bit `w` places up, up to a multiple of the
generator. -/
theorem registerPoly_feed (hw : 0 < w) :
    generator g ∣ registerPoly (feed g r b) - (X * registerPoly r + coefficient b * X ^ w) := by
  have hpow : (X : (ZMod 2)[X]) * X ^ (w - 1) = X ^ w := by
    rw [← pow_succ', Nat.sub_add_cancel hw]
  refine ⟨coefficient ((r ^^^ lowest w b).getLsbD 0), ?_⟩
  rw [feed, registerPoly_shift, registerPoly_xor, registerPoly_lowest hw]
  linear_combination coefficient b * hpow

theorem monic_generator : (generator g).Monic :=
  monic_X_pow_add degree_registerPoly_lt

theorem degree_generator : (generator g).degree = w := by
  rw [generator, degree_add_eq_left_of_degree_lt, degree_X_pow]
  rw [degree_X_pow]
  exact degree_registerPoly_lt

theorem registerPoly_modByMonic : registerPoly r %ₘ generator g = registerPoly r := by
  rw [modByMonic_eq_self_iff monic_generator, degree_generator]
  exact degree_registerPoly_lt

theorem dvd_foldl_feed (hw : 0 < w) :
    generator g ∣ registerPoly (l.foldl (feed g) r)
      - (X ^ l.length * registerPoly r + X ^ w * textPoly l) := by
  induction l generalizing r with
  | nil => simp [textPoly]
  | cons b l ih =>
    obtain ⟨q, hq⟩ := registerPoly_feed (g := g) (r := r) (b := b) hw
    obtain ⟨q', hq'⟩ := ih (r := feed g r b)
    refine ⟨q' + X ^ l.length * q, ?_⟩
    rw [List.foldl_cons, List.length_cons, textPoly]
    linear_combination hq' + X ^ l.length * hq

/-- **Feeding a text is a division** by the generator. -/
theorem registerPoly_foldl_feed (hw : 0 < w) :
    registerPoly (l.foldl (feed g) r)
      = (X ^ l.length * registerPoly r + X ^ w * textPoly l) %ₘ generator g := by
  rw [← registerPoly_modByMonic (g := g) (r := l.foldl (feed g) r)]
  exact modByMonic_eq_of_dvd_sub monic_generator (dvd_foldl_feed hw)

/-! ## Checksums -/

theorem dvd_registerPoly_iff : generator g ∣ registerPoly r ↔ r = 0#w := by
  have hzero : registerPoly (0#w) = 0 := by
    have h := registerPoly_xor (r := 0#w) (s := 0#w)
    rwa [CharTwo.add_self_eq_zero, BitVec.xor_zero] at h
  rw [← modByMonic_eq_zero_iff_dvd monic_generator, registerPoly_modByMonic, ← hzero]
  exact ⟨fun h => registerPoly_injective h, fun h => congrArg _ h⟩

/-- **Errors that pass.** Beside a text with its checksum `c` another text of the same length has
the checksum `c'` exactly if the generator divides the error. -/
theorem checksum_eq_iff_dvd {c c' f : BitVec w} (hw : 0 < w) (hlength : l.length = l'.length)
    (hc : l.foldl (feed g) r ^^^ f = c) :
    l'.foldl (feed g) r ^^^ f = c' ↔
      generator g ∣ textPoly (l ++ places c) + textPoly (l' ++ places c') := by
  obtain ⟨q, hq⟩ := dvd_foldl_feed (g := g) (r := r) (l := l) hw
  obtain ⟨q', hq'⟩ := dvd_foldl_feed (g := g) (r := r) (l := l') hw
  have htext : ∀ (t : List Bool) (s : BitVec w),
      textPoly (t ++ places s) = textPoly t * X ^ w + registerPoly s := by
    intro t s
    rw [textPoly_append, length_places, registerPoly]
  have htwo : (2 : (ZMod 2)[X]) = 0 := CharTwo.two_eq_zero
  have hsum : textPoly (l ++ places c) + textPoly (l' ++ places c')
      = registerPoly (l'.foldl (feed g) r ^^^ f ^^^ c') + generator g * (q - q') := by
    rw [htext, htext, ← hc, registerPoly_xor, registerPoly_xor, registerPoly_xor]
    rw [hlength] at hq
    linear_combination hq - hq' + (textPoly l * X ^ w) * htwo
  rw [hsum, dvd_add_left (dvd_mul_right _ _), dvd_registerPoly_iff, BitVec.xor_eq_zero_iff]

/-! ## Few errors -/

/-- How many bits of two texts differ. -/
def flips (l l' : List Bool) : ℕ := (l.zip l').countP fun bits => bits.1 ≠ bits.2

theorem flips_cons {a b : Bool} :
    flips (a :: l) (b :: l') = flips l l' + if a = b then 0 else 1 := by
  rw [flips, List.zip_cons_cons, List.countP_cons, flips]
  cases a <;> cases b <;> rfl

theorem flips_append {m m' : List Bool} (hlength : l.length = l'.length) :
    flips (l ++ m) (l' ++ m') = flips l l' + flips m m' := by
  rw [flips, List.zip_append hlength, List.countP_append]
  rfl

theorem flips_self : flips l l = 0 := by
  induction l with
  | nil => rfl
  | cons b l ih => rw [flips_cons, ih, if_pos rfl]

theorem eq_of_flips_eq_zero (hlength : l.length = l'.length) (h : flips l l' = 0) : l = l' := by
  induction l generalizing l' with
  | nil => exact (List.length_eq_zero_iff.mp hlength.symm).symm
  | cons a l ih =>
    obtain ⟨b, l', rfl⟩ := List.exists_cons_of_length_eq_add_one hlength.symm
    rw [flips_cons] at h
    split at h
    · rename_i hab
      rw [hab, ih (Nat.succ.inj hlength) h]
    · omega

/-- A bit that is flipped adds its power of `X` to the error. -/
theorem textPoly_cons_add_of_ne {a b : Bool} (hlength : l.length = l'.length) (hab : a ≠ b) :
    textPoly (a :: l) + textPoly (b :: l') = X ^ l.length + (textPoly l + textPoly l') := by
  rw [textPoly, textPoly, ← hlength]
  cases a <;> cases b
  · exact absurd rfl hab
  · simp only [coefficient]
    simp only [Bool.false_eq_true, if_false, if_true]
    ring
  · simp only [coefficient]
    simp only [Bool.false_eq_true, if_false, if_true]
    ring
  · exact absurd rfl hab

theorem textPoly_cons_add_of_eq (hlength : l.length = l'.length) :
    textPoly (b :: l) + textPoly (b :: l') = textPoly l + textPoly l' := by
  have htwice : coefficient b * X ^ l.length + coefficient b * X ^ l.length = 0 :=
    CharTwo.add_self_eq_zero _
  rw [textPoly, textPoly, ← hlength]
  linear_combination htwice

theorem exists_of_flips_eq_one (hlength : l.length = l'.length) (h : flips l l' = 1) :
    ∃ i < l.length, textPoly l + textPoly l' = X ^ i := by
  induction l generalizing l' with
  | nil => cases h
  | cons a l ih =>
    obtain ⟨b, l', rfl⟩ := List.exists_cons_of_length_eq_add_one hlength.symm
    have htail : l.length = l'.length := Nat.succ.inj hlength
    have hlt : l.length < (a :: l).length := Nat.lt_succ_self _
    rw [flips_cons] at h
    by_cases hab : a = b
    · rw [if_pos hab] at h
      obtain ⟨i, hi, heq⟩ := ih htail h
      subst hab
      exact ⟨i, hi.trans hlt, by rw [textPoly_cons_add_of_eq htail, heq]⟩
    · rw [if_neg hab] at h
      obtain rfl := eq_of_flips_eq_zero htail (Nat.succ.inj h)
      refine ⟨l.length, hlt, ?_⟩
      rw [textPoly_cons_add_of_ne htail hab, CharTwo.add_self_eq_zero, add_zero]

theorem exists_of_flips_eq_two (hlength : l.length = l'.length) (h : flips l l' = 2) :
    ∃ i j, i < j ∧ j < l.length ∧ textPoly l + textPoly l' = X ^ i + X ^ j := by
  induction l generalizing l' with
  | nil => cases h
  | cons a l ih =>
    obtain ⟨b, l', rfl⟩ := List.exists_cons_of_length_eq_add_one hlength.symm
    have htail : l.length = l'.length := Nat.succ.inj hlength
    have hlt : l.length < (a :: l).length := Nat.lt_succ_self _
    rw [flips_cons] at h
    by_cases hab : a = b
    · rw [if_pos hab] at h
      obtain ⟨i, j, hij, hj, heq⟩ := ih htail h
      subst hab
      exact ⟨i, j, hij, hj.trans hlt, by rw [textPoly_cons_add_of_eq htail, heq]⟩
    · rw [if_neg hab] at h
      obtain ⟨i, hi, heq⟩ := exists_of_flips_eq_one htail (Nat.succ.inj h)
      exact ⟨i, l.length, hi, hlt, by rw [textPoly_cons_add_of_ne htail hab, heq, add_comm]⟩

/-! ## The order of the generator -/

/-- The register of the polynomial 1. -/
def one (w : ℕ) : BitVec w := BitVec.twoPow w (w - 1)

theorem registerPoly_one (hw : 0 < w) : registerPoly (one w) = 1 := by
  obtain ⟨n, rfl⟩ := Nat.exists_eq_add_one_of_ne_zero (Nat.ne_of_gt hw)
  have hplaces : places (one (n + 1)) = List.replicate n false ++ [true] := by
    rw [places, List.range_succ, List.map_append, List.map_singleton]
    refine congrArg₂ (· ++ ·) ?_ ?_
    · rw [List.eq_replicate_iff]
      refine ⟨by rw [List.length_map, List.length_range], fun c hc => ?_⟩
      obtain ⟨i, hi, rfl⟩ := List.mem_map.mp hc
      have hne : n ≠ i := Nat.ne_of_gt (List.mem_range.mp hi)
      simp [one, BitVec.getLsbD_twoPow, hne]
    · simp [one]
  rw [registerPoly, hplaces, textPoly_concat, textPoly_replicate_false]
  simp [coefficient]

/-- Every shift multiplies by `X`. -/
theorem dvd_iterate_shift (k : ℕ) :
    generator g ∣ registerPoly ((shift g)^[k] r) - X ^ k * registerPoly r := by
  induction k with
  | zero => simp
  | succ k ih =>
    obtain ⟨q, hq⟩ := ih
    refine ⟨X * q + coefficient (((shift g)^[k] r).getLsbD 0), ?_⟩
    rw [Function.iterate_succ_apply', registerPoly_shift, pow_succ']
    linear_combination X * hq

theorem dvd_X_pow_iff (hw : 0 < w) (i : ℕ) :
    generator g ∣ X ^ i ↔ (shift g)^[i] (one w) = 0#w := by
  have h := dvd_iterate_shift (g := g) (r := one w) i
  rw [registerPoly_one hw, mul_one] at h
  rw [← dvd_registerPoly_iff (g := g)]
  exact (dvd_iff_dvd_of_dvd_sub h).symm

theorem dvd_X_pow_add_X_pow_iff (hw : 0 < w) (i j : ℕ) :
    generator g ∣ X ^ i + X ^ j ↔ (shift g)^[i] (one w) = (shift g)^[j] (one w) := by
  obtain ⟨q, hq⟩ := dvd_iterate_shift (g := g) (r := one w) i
  obtain ⟨q', hq'⟩ := dvd_iterate_shift (g := g) (r := one w) j
  rw [registerPoly_one hw, mul_one] at hq hq'
  have h : generator g ∣ registerPoly ((shift g)^[i] (one w) ^^^ (shift g)^[j] (one w))
      - (X ^ i + X ^ j) := by
    refine ⟨q + q', ?_⟩
    rw [registerPoly_xor]
    linear_combination hq + hq'
  rw [← BitVec.xor_eq_zero_iff, ← dvd_registerPoly_iff (g := g)]
  exact (dvd_iff_dvd_of_dvd_sub h).symm

/-- One of the next `n` shifts of `r` leads to `s`. -/
def comesTo (g s : BitVec w) : ℕ → BitVec w → Bool
  | 0, _ => false
  | n + 1, r => shift g r = s || comesTo g s n (shift g r)

theorem iterate_shift_ne {k : ℕ} (h : comesTo g s n r = false) (hpos : 0 < k) (hk : k ≤ n) :
    (shift g)^[k] r ≠ s := by
  induction n generalizing r k with
  | zero => omega
  | succ n ih =>
    rw [comesTo, Bool.or_eq_false_iff] at h
    obtain ⟨k, rfl⟩ := Nat.exists_eq_add_one_of_ne_zero (Nat.ne_of_gt hpos)
    rw [Function.iterate_succ_apply]
    rcases Nat.eq_zero_or_pos k with rfl | hk'
    · exact of_decide_eq_false h.1
    · exact ih h.2 hk' (Nat.le_of_succ_le_succ hk)

/-- **One or two flipped bits** do not pass, as long as the text with its checksum is not longer
than the powers of `X` are different from 1. -/
theorem checksum_ne_of_flips {c c' f : BitVec w} (hw : 0 < w) (hg : g.getLsbD (w - 1) = true)
    (horder : comesTo g (one w) n (one w) = false) (hn : l.length + w ≤ n + 1)
    (hlength : l.length = l'.length) (hc : l.foldl (feed g) r ^^^ f = c)
    (hflips : flips (l ++ places c) (l' ++ places c') = 1 ∨
      flips (l ++ places c) (l' ++ places c') = 2) :
    l'.foldl (feed g) r ^^^ f ≠ c' := by
  have hinjective := shift_injective hg
  have htotal : (l ++ places c).length = (l' ++ places c').length := by
    rw [List.length_append, List.length_append, length_places, length_places, hlength]
  rw [Ne, checksum_eq_iff_dvd hw hlength hc]
  rcases hflips with h | h
  · obtain ⟨i, -, heq⟩ := exists_of_flips_eq_one htotal h
    rw [heq, dvd_X_pow_iff hw]
    intro hzero
    -- nothing but zero is shifted to zero
    have hfixed : (shift g)^[i] (0#w) = 0#w := by
      refine Function.iterate_fixed ?_ i
      simp [shift]
    have hone : one w = 0#w := (hinjective.iterate i) (hzero.trans hfixed.symm)
    have hbit := congrArg (BitVec.getLsbD · (w - 1)) hone
    simp [one, hw] at hbit
  · obtain ⟨i, j, hij, hj, heq⟩ := exists_of_flips_eq_two htotal h
    rw [heq, dvd_X_pow_add_X_pow_iff hw]
    intro hsame
    rw [show j = i + (j - i) by omega, Function.iterate_add_apply] at hsame
    rw [List.length_append, length_places] at hj
    exact iterate_shift_ne horder (by omega) (by omega) ((hinjective.iterate i) hsame).symm

end

end ShiftRegister

end Rechnernetze.Lib
