import Rechnernetze.Lib.Regex

/-!
# Scanning instead of backtracking

What an expression does can often be said without its search. A word either begins the input or
not (`exec_literal`); a greedy loop over one character goes to its end where nothing else can
follow (`exec_star_of_refuses`); a lazy one tries the ends of the input from left to right
(`exec_star_lazy`).
-/

namespace Rechnernetze.Lib

section
variable {α β : Type*} {p : α → Bool} {f g : List α → List α → Option β} {s w t : List α} {x : β}

/-- The text before the first `a` and the text behind it. -/
def cutAt [DecidableEq α] (a : α) : List α → Option (List α × List α)
  | [] => none
  | b :: s => if b = a then some ([], s) else (cutAt a s).map fun x => (b :: x.1, x.2)

theorem cutAt_eq_some_iff [DecidableEq α] {a : α} :
    cutAt a s = some (w, t) ↔ a ∉ w ∧ w ++ a :: t = s := by
  induction s generalizing w with
  | nil => simp [cutAt]
  | cons b s ih =>
    rw [cutAt]
    by_cases hb : b = a
    · rw [if_pos hb, hb]
      constructor
      · intro h
        obtain ⟨rfl, rfl⟩ := Prod.mk.inj (Option.some.inj h)
        exact ⟨List.not_mem_nil, rfl⟩
      · rintro ⟨hw, h⟩
        cases w with
        | nil => rw [(List.cons.inj h).2]
        | cons c w => exact absurd (List.cons.inj h).1 fun hc => hw (by simp [hc])
    · rw [if_neg hb, Option.map_eq_some_iff]
      constructor
      · rintro ⟨⟨w', t'⟩, h, heq⟩
        obtain ⟨rfl, rfl⟩ := Prod.mk.inj heq
        obtain ⟨hw, rfl⟩ := ih.mp h
        exact ⟨fun h => (List.mem_cons.mp h).elim (fun h => hb h.symm) hw, rfl⟩
      · rintro ⟨hw, h⟩
        cases w with
        | nil => exact absurd (List.cons.inj h).1.symm hb
        | cons c w =>
          obtain ⟨rfl, hs⟩ := List.cons.inj h
          exact ⟨(w, t), ih.mpr ⟨fun h => hw (List.mem_cons_of_mem _ h), hs⟩, rfl⟩

/-- The first success of `f` over the ways to divide the text, the shortest beginning first. The
beginning has characters with `p` only. -/
def firstSplit (p : α → Bool) (f : List α → List α → Option β) : List α → Option β
  | [] => f [] []
  | a :: s =>
    (f [] (a :: s)).or (if p a then firstSplit p (fun w rest => f (a :: w) rest) s else none)

theorem firstSplit_eq_some (h : firstSplit p f s = some x) :
    ∃ w rest, w ++ rest = s ∧ (∀ a ∈ w, p a = true) ∧ f w rest = some x := by
  induction s generalizing f with
  | nil => exact ⟨[], [], rfl, nofun, h⟩
  | cons a s ih =>
    rcases Option.or_eq_some_iff.mp h with hstop | ⟨-, hmore⟩
    · exact ⟨[], a :: s, rfl, nofun, hstop⟩
    · split at hmore
      · rename_i ha
        obtain ⟨w, rest, rfl, hw, hf⟩ := ih hmore
        exact ⟨a :: w, rest, rfl, List.forall_mem_cons.mpr ⟨ha, hw⟩, hf⟩
      · cases hmore

theorem firstSplit_congr (h : ∀ w rest, w ++ rest = s → f w rest = g w rest) :
    firstSplit p f s = firstSplit p g s := by
  induction s generalizing f g with
  | nil => exact h [] [] rfl
  | cons a s ih =>
    have hmore := ih fun w rest hs => h (a :: w) rest (by rw [List.cons_append, hs])
    rw [firstSplit, firstSplit, h [] (a :: s) rfl, hmore]

theorem map_firstSplit {γ : Type*} (e : β → γ) :
    (firstSplit p f s).map e = firstSplit p (fun w rest => (f w rest).map e) s := by
  induction s generalizing f with
  | nil => rfl
  | cons a s ih =>
    rw [firstSplit, firstSplit, Option.map_or]
    split
    · rw [ih]
    · rfl

end

namespace Regex

variable {α β : Type*} {p : α → Bool} {input w : List α} {c : Captures α}
  {k : List α → Captures α → Option β} {n : ℕ} {a : α}

section
variable [DecidableEq α]

theorem exec_literal :
    (literal w).exec input c k = (input.dropPrefix? w).bind fun rest => k rest c := by
  refine Option.ext fun x => ?_
  rw [exec_literal_eq_some, Option.bind_eq_some_iff]
  constructor
  · rintro ⟨rest, rfl, hk⟩
    exact ⟨rest, List.dropPrefix?_append_of_beq _ (beq_self_eq_true w), hk⟩
  · rintro ⟨rest, hrest, hk⟩
    obtain ⟨w', rfl, hw⟩ := List.dropPrefix?_eq_some_iff.mp hrest
    exact ⟨rest, by rw [beq_iff_eq.mp hw], hk⟩

theorem exec_opt_literal :
    (opt (literal w)).exec input c k
      = ((input.dropPrefix? w).bind fun rest => k rest c).or (k input c) := by
  rw [exec_opt, exec_literal]

theorem exec_lit_cons : (lit a).exec (a :: input) c k = k input c := by
  rw [lit, exec_char_cons, if_pos (decide_eq_true rfl)]

theorem exec_lit_cons_of_ne {b : α} (h : b ≠ a) : (lit a).exec (b :: input) c k = none := by
  rw [lit, exec_char_cons, if_neg]
  exact fun hb => h (of_decide_eq_true hb)

end

/-- **A greedy loop without a way back**: nothing that begins with a character of the loop can
follow it. -/
theorem exec_star_of_refuses (h : ∀ a rest, p a = true → k (a :: rest) c = none) :
    (star true (char p)).exec input c k = k (input.dropWhile p) c := by
  induction input with
  | nil => exact exec_star_char_nil
  | cons a input ih =>
    cases ha : p a with
    | false => rw [exec_star_char_of_neg ha, List.dropWhile_cons_of_neg (by simp [ha])]
    | true =>
      rw [exec_star_char_greedy ha, h a input ha, Option.or_none, ih,
        List.dropWhile_cons_of_pos ha]

theorem exec_plus_of_refuses (h : ∀ a rest, p a = true → k (a :: rest) c = none) :
    (plus true (char p)).exec input c k
      = if input.takeWhile p = [] then none else k (input.dropWhile p) c := by
  rw [plus, exec_seq]
  cases input with
  | nil => rfl
  | cons a input =>
    rw [exec_char_cons]
    by_cases ha : p a = true
    · rw [if_pos ha, exec_star_of_refuses h, List.takeWhile_cons_of_pos ha,
        List.dropWhile_cons_of_pos ha, if_neg (List.cons_ne_nil _ _)]
    · rw [if_neg ha, List.takeWhile_cons_of_neg ha, if_pos rfl]

/-- **A lazy loop** tries the ends of the input from left to right. -/
theorem exec_star_lazy :
    (star false (char p)).exec input c k = firstSplit p (fun _ rest => k rest c) input := by
  induction input with
  | nil => exact exec_star_char_nil
  | cons a input ih =>
    rw [firstSplit]
    cases ha : p a with
    | false => rw [exec_star_char_of_neg ha, if_neg (by simp), Option.or_none]
    | true => rw [exec_star_char_lazy ha, if_pos rfl, ih]

end Regex

end Rechnernetze.Lib
