import Mathlib.Logic.Function.Iterate

/-!
# Shift registers

A register of `w` bits that is fed a text bit by bit: the bit is added to the lowest place and
the register is shifted to the right, with a polynomial added whenever a one is shifted out.
A window of at most `w` bits can as well be added at once before it is shifted through
(`foldl_feed_eq`). Where the highest coefficient of the polynomial is one nothing is lost in a
shift, so texts that differ in such a window only leave different registers
(`foldl_feed_ne`).
-/

namespace Rechnernetze.Lib

namespace ShiftRegister

variable {w : ℕ} {g r r' : BitVec w} {l l' : List Bool}

/-- One shift. -/
def shift (g r : BitVec w) : BitVec w := if r.getLsbD 0 then (r >>> 1) ^^^ g else r >>> 1

/-- A bit in the lowest place. -/
def lowest (w : ℕ) (b : Bool) : BitVec w := (BitVec.ofBool b).setWidth w

/-- The register after one more bit. -/
def feed (g r : BitVec w) (b : Bool) : BitVec w := shift g (r ^^^ lowest w b)

/-- The first `w` bits of a text, the first one in the lowest place. -/
def word (w : ℕ) : List Bool → BitVec w
  | [] => 0
  | b :: l => (word w l <<< 1) ^^^ lowest w b

/-! ## Windows -/

theorem getLsbD_lowest {b : Bool} {i : ℕ} :
    (lowest w b).getLsbD i = (decide (i = 0) && decide (0 < w) && b) := by
  rw [lowest, BitVec.getLsbD_setWidth]
  by_cases hi : i = 0
  · simp [hi]
  · simp [hi]

theorem getLsbD_word {i : ℕ} : (word w l).getLsbD i = (decide (i < w) && l.getD i false) := by
  induction l generalizing i with
  | nil => simp [word]
  | cons b l ih =>
    rw [word, BitVec.getLsbD_xor, BitVec.getLsbD_shiftLeft, getLsbD_lowest, ih]
    cases i with
    | zero => simp
    | succ i =>
      by_cases hi : i + 1 < w
      · simp [hi, Nat.lt_of_succ_lt hi]
      · simp [hi]

/-- A text of at most `w` bits can be read back. -/
theorem word_inj (hlength : l.length = l'.length) (hl : l.length ≤ w)
    (h : word w l = word w l') : l = l' := by
  refine List.ext_getElem hlength fun i hi hi' => ?_
  have hbit := congrArg (BitVec.getLsbD · i) h
  have hiw : i < w := Nat.lt_of_lt_of_le hi hl
  simp only [getLsbD_word, hiw, decide_true, Bool.true_and, List.getD_eq_getElem?_getD,
    List.getElem?_eq_getElem hi, List.getElem?_eq_getElem hi', Option.getD_some] at hbit
  exact hbit

/-- What is added one place higher is added to the shifted register. -/
theorem shift_xor_shiftLeft {x : BitVec w} (hx : x.getLsbD (w - 1) = false) :
    shift g (r ^^^ (x <<< 1)) = shift g r ^^^ x := by
  have hlow : (r ^^^ (x <<< 1)).getLsbD 0 = r.getLsbD 0 := by simp
  have hshift : (x <<< 1) >>> 1 = x := by
    apply BitVec.eq_of_getLsbD_eq
    intro i hi
    rw [BitVec.getLsbD_ushiftRight, BitVec.getLsbD_shiftLeft]
    by_cases hlast : 1 + i < w
    · simp [hlast]
    · rw [show i = w - 1 by omega, hx]
      simp
      omega
  unfold shift
  rw [hlow, BitVec.ushiftRight_xor_distrib, hshift]
  split
  · rw [BitVec.xor_assoc, BitVec.xor_comm x, ← BitVec.xor_assoc]
  · rfl

/-- **A window at once.** -/
theorem foldl_feed_eq (hl : l.length ≤ w) :
    l.foldl (feed g) r = (shift g)^[l.length] (r ^^^ word w l) := by
  induction l generalizing r with
  | nil =>
    rw [word]
    simp
  | cons b l ih =>
    have hlength : l.length < w := hl
    have hhigh : (word w l).getLsbD (w - 1) = false := by
      rw [getLsbD_word, List.getD_eq_getElem?_getD, List.getElem?_eq_none (by omega)]
      exact Bool.and_false _
    have hstep : shift g (r ^^^ word w (b :: l)) = feed g r b ^^^ word w l := by
      rw [word, BitVec.xor_comm (word w l <<< 1), ← BitVec.xor_assoc, shift_xor_shiftLeft hhigh,
        feed]
    rw [List.foldl_cons, ih (Nat.le_of_lt hlength), List.length_cons,
      Function.iterate_succ_apply, hstep]

/-! ## Nothing is lost -/

theorem shift_injective (hg : g.getLsbD (w - 1) = true) : Function.Injective (shift g) := by
  have hw : 0 < w := by
    by_contra h
    rw [BitVec.getLsbD_of_ge g (w - 1) (by omega)] at hg
    cases hg
  -- the bit that is shifted out shows in the highest place
  have hout : ∀ r : BitVec w, (shift g r).getLsbD (w - 1) = r.getLsbD 0 := by
    intro r
    have hzero : (r >>> 1).getLsbD (w - 1) = false := by
      rw [BitVec.getLsbD_ushiftRight]
      exact BitVec.getLsbD_of_ge r _ (by omega)
    unfold shift
    split
    · rename_i hr
      rw [BitVec.getLsbD_xor, hzero, hg, hr]
      rfl
    · rename_i hr
      rw [hzero, (Bool.not_eq_true _).mp hr]
  intro r r' h
  have hlow : r.getLsbD 0 = r'.getLsbD 0 := by rw [← hout, h, hout]
  have hrest : r >>> 1 = r' >>> 1 := by
    unfold shift at h
    rw [hlow] at h
    split at h
    · exact (BitVec.xor_left_inj _).mp h
    · exact h
  apply BitVec.eq_of_getLsbD_eq
  intro i hi
  cases i with
  | zero => exact hlow
  | succ i =>
    have hbit := congrArg (BitVec.getLsbD · i) hrest
    simp only [BitVec.getLsbD_ushiftRight] at hbit
    rwa [Nat.add_comm] at hbit

theorem feed_injective (hg : g.getLsbD (w - 1) = true) {b : Bool} :
    Function.Injective fun r => feed g r b := fun _ _ h =>
  (BitVec.xor_left_inj _).mp (shift_injective hg h)

theorem foldl_feed_injective (hg : g.getLsbD (w - 1) = true) :
    Function.Injective fun r => l.foldl (feed g) r := by
  induction l with
  | nil => exact fun _ _ h => h
  | cons b l ih => exact fun _ _ h => feed_injective hg (ih h)

/-- Different windows of one length leave different registers. -/
theorem foldl_feed_window_ne (hg : g.getLsbD (w - 1) = true) (hlength : l.length = l'.length)
    (hl : l.length ≤ w) (hne : l ≠ l') : l.foldl (feed g) r ≠ l'.foldl (feed g) r := by
  intro h
  rw [foldl_feed_eq hl, foldl_feed_eq (hlength ▸ hl), ← hlength] at h
  have hsum := (shift_injective hg).iterate l.length h
  exact hne (word_inj hlength hl ((BitVec.xor_right_inj _).mp hsum))

/-- **Bursts.** Texts of one length that differ, but only in a window of `w` bits, leave
different registers. -/
theorem foldl_feed_ne (hg : g.getLsbD (w - 1) = true) {start : ℕ}
    (hlength : l.length = l'.length) (hne : l ≠ l')
    (hwindow : ∀ i, l[i]? ≠ l'[i]? → start ≤ i ∧ i < start + w) :
    l.foldl (feed g) r ≠ l'.foldl (feed g) r := by
  have hsplit : ∀ l : List Bool,
      l = l.take start ++ ((l.drop start).take w ++ (l.drop start).drop w) := by
    intro l
    rw [List.take_append_drop, List.take_append_drop]
  have hbefore : l.take start = l'.take start := by
    refine List.ext_getElem? fun i => ?_
    rw [List.getElem?_take, List.getElem?_take]
    split
    · rename_i hi
      by_contra h
      exact absurd (hwindow i h).1 (by omega)
    · rfl
  have hbehind : (l.drop start).drop w = (l'.drop start).drop w := by
    refine List.ext_getElem? fun i => ?_
    rw [List.drop_drop, List.drop_drop, List.getElem?_drop, List.getElem?_drop]
    by_contra h
    exact absurd (hwindow _ h).2 (by omega)
  have hinside : (l.drop start).take w ≠ (l'.drop start).take w := by
    intro h
    refine hne ?_
    rw [hsplit l, hsplit l', hbefore, h, hbehind]
  rw [hsplit l, hsplit l', hbefore, hbehind]
  simp only [List.foldl_append]
  refine fun h => foldl_feed_window_ne hg ?_ (List.length_take_le _ _) hinside
    (foldl_feed_injective hg h)
  rw [List.length_take, List.length_take, List.length_drop, List.length_drop, hlength]

end ShiftRegister

end Rechnernetze.Lib
