import Mathlib.Computability.Language
import Mathlib.Logic.Function.Basic

/-!
# Backtracking regular expressions

A backtracking matcher tries the ways an expression can match a beginning of the input one
after the other: a greedy loop first goes on and then stops, a lazy one the other way round.
`Regex.run` lists these ways in that order, with what they leave of the input and what their
groups have captured, and a whole match is the first way that leaves nothing. `exec` is the
first success of a continuation over `run`. It has an equation for each constructor, and where
a loop stops is read off these equations.
-/

namespace Rechnernetze.Lib

/-- Regular expressions over characters of type `α`. -/
inductive Regex (α : Type*) where
  | eps
  | char (p : α → Bool)
  | seq (r s : Regex α)
  /-- `r?`. -/
  | opt (r : Regex α)
  /-- `r*`, or `r*?` where not greedy. -/
  | star (greedy : Bool) (r : Regex α)
  /-- A capturing group with its number. -/
  | group (n : ℕ) (r : Regex α)

/-- What each group has captured last, nothing where it has not taken part. -/
abbrev Captures (α : Type*) := ℕ → List α

namespace Regex

variable {α : Type*}

/-- `r+`, or `r+?` where not greedy. -/
def plus (greedy : Bool) (r : Regex α) : Regex α := seq r (star greedy r)

/-- The character `a`. -/
def lit [DecidableEq α] (a : α) : Regex α := char (· = a)

/-- The characters of `w` one after the other. -/
def literal [DecidableEq α] (w : List α) : Regex α := w.foldr (fun a r => seq (lit a) r) eps

/-- The iterations of a loop with the given body, at most `n`. An iteration that matches
nothing is not made. -/
def iterate (body : List α → Captures α → List (List α × Captures α)) (greedy : Bool) :
    ℕ → List α → Captures α → List (List α × Captures α)
  | 0, input, c => [(input, c)]
  | n + 1, input, c =>
    let again := ((body input c).filter fun x => x.1.length < input.length).flatMap
      fun x => iterate body greedy n x.1 x.2
    if greedy then again ++ [(input, c)] else (input, c) :: again

/-- The ways in which the expression can match a beginning of the input. -/
def run : Regex α → List α → Captures α → List (List α × Captures α)
  | eps, input, c => [(input, c)]
  | char p, input, c =>
    match input with
    | [] => []
    | a :: rest => if p a then [(rest, c)] else []
  | seq r s, input, c => (r.run input c).flatMap fun x => s.run x.1 x.2
  | opt r, input, c => r.run input c ++ [(input, c)]
  | star greedy r, input, c => iterate r.run greedy input.length input c
  | group n r, input, c =>
    (r.run input c).map fun x =>
      (x.1, Function.update x.2 n (input.take (input.length - x.1.length)))

/-- The first success of `k` over the ways to match. -/
def exec {β : Type*} (r : Regex α) (input : List α) (c : Captures α)
    (k : List α → Captures α → Option β) : Option β :=
  (r.run input c).findSome? fun x => k x.1 x.2

/-- Nothing is left to match. -/
def atEnd (rest : List α) (c : Captures α) : Option (Captures α) :=
  if rest.isEmpty then some c else none

/-- A match of the whole input, with what the groups have captured. -/
def fullMatch (r : Regex α) (input : List α) : Option (Captures α) :=
  r.exec input (fun _ => []) atEnd

/-! ## What an expression matches -/

/-- The words the expression matches. -/
def language : Regex α → Language α
  | eps => 1
  | char p => {w | ∃ a, p a = true ∧ w = [a]}
  | seq r s => r.language * s.language
  | opt r => r.language + 1
  | star _ r => KStar.kstar r.language
  | group _ r => r.language

/-- The numbers of the groups in the expression. -/
def groups : Regex α → List ℕ
  | eps => []
  | char _ => []
  | seq r s => r.groups ++ s.groups
  | opt r => r.groups
  | star _ r => r.groups
  | group n r => n :: r.groups

section
variable {r s : Regex α} {p : α → Bool} {input rest w : List α} {c c' : Captures α}
  {greedy : Bool} {n : ℕ} {a : α}

theorem mem_language_char : w ∈ (char p).language ↔ ∃ a, p a = true ∧ w = [a] := Iff.rfl

theorem mem_language_lit [DecidableEq α] : [a] ∈ (lit a).language :=
  mem_language_char.mpr ⟨a, decide_eq_true rfl, rfl⟩

theorem mem_language_seq :
    w ∈ (seq r s).language ↔ ∃ u ∈ r.language, ∃ v ∈ s.language, u ++ v = w := Language.mem_mul

theorem mem_language_opt : w ∈ (opt r).language ↔ w ∈ r.language ∨ w = [] := by
  rw [language, Language.mem_add, Language.mem_one]

theorem mem_language_star_char :
    w ∈ (star greedy (char p)).language ↔ ∀ a ∈ w, p a = true := by
  rw [language, Language.mem_kstar]
  constructor
  · rintro ⟨L, rfl, hL⟩ a ha
    obtain ⟨y, hy, hay⟩ := List.mem_flatten.mp ha
    obtain ⟨b, hb, rfl⟩ := hL y hy
    rw [List.mem_singleton.mp hay]
    exact hb
  · intro hw
    refine ⟨w.map fun a => [a], ?_, ?_⟩
    · rw [← List.flatMap_def, List.flatMap_singleton']
    · intro y hy
      obtain ⟨a, ha, rfl⟩ := List.mem_map.mp hy
      exact ⟨a, hw a ha, rfl⟩

theorem mem_iterate_succ {body : List α → Captures α → List (List α × Captures α)}
    (h : (rest, c') ∈ iterate body greedy (n + 1) input c) :
    (∃ rest₁ c₁, (rest₁, c₁) ∈ body input c ∧ (rest, c') ∈ iterate body greedy n rest₁ c₁) ∨
      rest = input ∧ c' = c := by
  have hcases : (rest, c') ∈ ((body input c).filter fun x => x.1.length < input.length).flatMap
      (fun x => iterate body greedy n x.1 x.2) ∨ (rest, c') = (input, c) := by
    unfold iterate at h
    cases greedy with
    | true => simpa using h
    | false => simpa [or_comm] using h
  rcases hcases with hagain | hstop
  · obtain ⟨⟨rest₁, c₁⟩, hfirst, hmore⟩ := List.mem_flatMap.mp hagain
    exact Or.inl ⟨rest₁, c₁, (List.mem_filter.mp hfirst).1, hmore⟩
  · exact Or.inr (Prod.mk.inj hstop)

/-- A way to match leaves an end of the input, and what it has used is in the language. -/
theorem mem_iterate {body : List α → Captures α → List (List α × Captures α)} {l : Language α}
    (hbody : ∀ input c rest c', (rest, c') ∈ body input c → ∃ w ∈ l, w ++ rest = input)
    (h : (rest, c') ∈ iterate body greedy n input c) :
    ∃ w ∈ KStar.kstar l, w ++ rest = input := by
  induction n generalizing input c with
  | zero =>
    obtain ⟨rfl, rfl⟩ := Prod.mk.inj (List.mem_singleton.mp h)
    exact ⟨[], Language.nil_mem_kstar l, rfl⟩
  | succ n ih =>
    rcases mem_iterate_succ h with ⟨rest₁, c₁, hfirst, hmore⟩ | ⟨rfl, -⟩
    · obtain ⟨u, hu, rfl⟩ := hbody _ _ _ _ hfirst
      obtain ⟨v, hv, hrest⟩ := ih hmore
      obtain ⟨L, rfl, hL⟩ := Language.mem_kstar.mp hv
      refine ⟨(u :: L).flatten, Language.join_mem_kstar ?_, ?_⟩
      · intro y hy
        rcases List.mem_cons.mp hy with rfl | hy
        · exact hu
        · exact hL y hy
      · rw [List.flatten_cons, List.append_assoc, hrest]
    · exact ⟨[], Language.nil_mem_kstar l, rfl⟩

/-- **Soundness.** -/
theorem mem_run (h : (rest, c') ∈ r.run input c) : ∃ w ∈ r.language, w ++ rest = input := by
  induction r generalizing input rest c c' with
  | eps =>
    obtain ⟨rfl, rfl⟩ := Prod.mk.inj (List.mem_singleton.mp h)
    exact ⟨[], Language.nil_mem_one, rfl⟩
  | char p =>
    cases input with
    | nil => cases h
    | cons a input =>
      by_cases ha : p a = true
      · rw [run, if_pos ha] at h
        obtain ⟨rfl, rfl⟩ := Prod.mk.inj (List.mem_singleton.mp h)
        exact ⟨[a], ⟨a, ha, rfl⟩, rfl⟩
      · rw [run, if_neg ha] at h
        cases h
  | seq r s ihr ihs =>
    obtain ⟨⟨rest₁, c₁⟩, h₁, h₂⟩ := List.mem_flatMap.mp h
    obtain ⟨u, hu, rfl⟩ := ihr h₁
    obtain ⟨v, hv, rfl⟩ := ihs h₂
    exact ⟨u ++ v, Language.append_mem_mul hu hv, List.append_assoc ..⟩
  | opt r ih =>
    rcases List.mem_append.mp h with h | h
    · obtain ⟨w, hw, hrest⟩ := ih h
      exact ⟨w, mem_language_opt.mpr (Or.inl hw), hrest⟩
    · obtain ⟨rfl, rfl⟩ := Prod.mk.inj (List.mem_singleton.mp h)
      exact ⟨[], mem_language_opt.mpr (Or.inr rfl), rfl⟩
  | star greedy r ih => exact mem_iterate (fun _ _ _ _ => ih) h
  | group n r ih =>
    obtain ⟨⟨rest₁, c₁⟩, h₁, heq⟩ := List.mem_map.mp h
    obtain ⟨rfl, -⟩ := Prod.mk.inj heq
    exact ih h₁

/-- Groups outside the expression keep what they have captured. -/
theorem captures_of_mem_run (h : (rest, c') ∈ r.run input c) (hn : n ∉ r.groups) :
    c' n = c n := by
  induction r generalizing input rest c c' with
  | eps => rw [(Prod.mk.inj (List.mem_singleton.mp h)).2]
  | char p =>
    cases input with
    | nil => cases h
    | cons a input =>
      by_cases ha : p a = true
      · rw [run, if_pos ha] at h
        rw [(Prod.mk.inj (List.mem_singleton.mp h)).2]
      · rw [run, if_neg ha] at h
        cases h
  | seq r s ihr ihs =>
    rw [groups, List.mem_append, not_or] at hn
    obtain ⟨⟨rest₁, c₁⟩, h₁, h₂⟩ := List.mem_flatMap.mp h
    exact (ihs h₂ hn.2).trans (ihr h₁ hn.1)
  | opt r ih =>
    rcases List.mem_append.mp h with h | h
    · exact ih h hn
    · rw [(Prod.mk.inj (List.mem_singleton.mp h)).2]
  | star greedy r ih =>
    -- iteration by iteration
    have hiterate : ∀ m input rest c c', (rest, c') ∈ iterate r.run greedy m input c →
        c' n = c n := by
      intro m
      induction m with
      | zero =>
        intro input rest c c' h
        rw [(Prod.mk.inj (List.mem_singleton.mp h)).2]
      | succ m ihm =>
        intro input rest c c' h
        rcases mem_iterate_succ h with ⟨rest₁, c₁, hfirst, hmore⟩ | ⟨-, rfl⟩
        · rw [ihm _ _ _ _ hmore, ih hfirst hn]
        · rfl
    exact hiterate _ _ _ _ _ h
  | group k r ih =>
    rw [groups, List.mem_cons, not_or] at hn
    obtain ⟨⟨rest₁, c₁⟩, h₁, heq⟩ := List.mem_map.mp h
    obtain ⟨rfl, rfl⟩ := Prod.mk.inj heq
    exact (Function.update_of_ne hn.1 ..).trans (ih h₁ hn.2)

end

/-! ## The first success -/

section
variable {β : Type*} {r s : Regex α} {p : α → Bool} {input rest l : List α} {c : Captures α}
  {k : List α → Captures α → Option β} {greedy : Bool} {m n : ℕ} {a : α} {x : β}

theorem findSome?_flatMap {γ δ : Type*} (l : List γ) (f : γ → List δ) (g : δ → Option β) :
    (l.flatMap f).findSome? g = l.findSome? fun a => (f a).findSome? g := by
  induction l with
  | nil => rfl
  | cons a l ih =>
    rw [List.flatMap_cons, List.findSome?_append, ih, List.findSome?_cons]
    cases (f a).findSome? g <;> rfl

theorem findSome?_filter {γ : Type*} (l : List γ) (q : γ → Bool) (g : γ → Option β) :
    (l.filter q).findSome? g = l.findSome? fun a => if q a then g a else none := by
  induction l with
  | nil => rfl
  | cons a l ih =>
    by_cases ha : q a = true
    · rw [List.filter_cons_of_pos ha, List.findSome?_cons, List.findSome?_cons, if_pos ha, ih]
    · rw [List.filter_cons_of_neg ha, List.findSome?_cons, if_neg ha, ih]

theorem exec_eps : eps.exec input c k = k input c := by
  simp [exec, run]

theorem exec_char_nil : (char p).exec [] c k = none := rfl

theorem exec_char_cons : (char p).exec (a :: rest) c k = if p a then k rest c else none := by
  rw [exec, run]
  split <;> simp

theorem exec_seq :
    (seq r s).exec input c k = r.exec input c fun rest c' => s.exec rest c' k :=
  findSome?_flatMap ..

theorem exec_opt : (opt r).exec input c k = (r.exec input c k).or (k input c) := by
  rw [exec, run, List.findSome?_append, List.findSome?_singleton]
  rfl

theorem exec_group :
    (group n r).exec input c k = r.exec input c fun rest c' =>
      k rest (Function.update c' n (input.take (input.length - rest.length))) :=
  List.findSome?_map ..

/-- More iterations than the input has characters are never made. -/
theorem iterate_of_le {body : List α → Captures α → List (List α × Captures α)}
    (hn : input.length ≤ n) (hm : input.length ≤ m) :
    iterate body greedy n input c = iterate body greedy m input c := by
  -- on the empty input no iteration takes anything
  have hnil : ∀ c : Captures α, (body [] c).filter (fun x => x.1.length < ([] : List α).length)
      = [] := fun c => List.filter_eq_nil_iff.mpr fun _ _ => by simp
  have hzero : ∀ n (c : Captures α), iterate body greedy n [] c = [([], c)] := by
    intro n c
    cases n with
    | zero => rfl
    | succ n =>
      rw [iterate, hnil]
      cases greedy <;> rfl
  induction n generalizing m input c with
  | zero =>
    obtain rfl := List.length_eq_zero_iff.mp (Nat.le_zero.mp hn)
    rw [hzero, hzero]
  | succ n ih =>
    cases m with
    | zero =>
      obtain rfl := List.length_eq_zero_iff.mp (Nat.le_zero.mp hm)
      rw [hzero, hzero]
    | succ m =>
      have hagain : ((body input c).filter fun x => x.1.length < input.length).flatMap
            (fun x => iterate body greedy n x.1 x.2)
          = ((body input c).filter fun x => x.1.length < input.length).flatMap
            fun x => iterate body greedy m x.1 x.2 := by
        refine List.flatMap_congr fun x hx => ?_
        have hlt : x.1.length < input.length := by simpa using (List.mem_filter.mp hx).2
        exact ih (by omega) (by omega)
      simp only [iterate, hagain]

/-- **A loop** makes one iteration more, or stops; a greedy one tries the former first. -/
theorem exec_star (r : Regex α) (greedy : Bool) (input : List α) (c : Captures α)
    (k : List α → Captures α → Option β) :
    (star greedy r).exec input c k =
      let again := r.exec input c fun rest c' =>
        if rest.length < input.length then (star greedy r).exec rest c' k else none
      if greedy then again.or (k input c) else (k input c).or again := by
  have hrun : (star greedy r).run input c = iterate r.run greedy (input.length + 1) input c :=
    iterate_of_le (Nat.le_refl _) (Nat.le_succ _)
  -- what the loop does after its first iteration is the loop again
  have hagain : (((r.run input c).filter fun x => x.1.length < input.length).flatMap
        fun x => iterate r.run greedy input.length x.1 x.2).findSome? (fun x => k x.1 x.2)
      = r.exec input c fun rest c' =>
        if rest.length < input.length then (star greedy r).exec rest c' k else none := by
    rw [findSome?_flatMap, findSome?_filter, exec]
    congr 1
    funext x
    by_cases hx : x.1.length < input.length
    · rw [if_pos (decide_eq_true hx), if_pos hx, exec, run,
        iterate_of_le (Nat.le_of_lt hx) (Nat.le_refl _)]
    · rw [if_neg (by simpa using hx), if_neg hx]
  rw [exec, hrun, iterate]
  cases greedy with
  | true =>
    simp only [if_true]
    rw [List.findSome?_append, hagain, List.findSome?_singleton]
  | false =>
    simp only [Bool.false_eq_true, if_false]
    rw [List.findSome?_cons, hagain]
    cases k input c <;> rfl

theorem exists_mem_run (h : r.exec input c k = some x) :
    ∃ rest c', (rest, c') ∈ r.run input c ∧ k rest c' = some x := by
  obtain ⟨⟨rest, c'⟩, hmem, hk⟩ := List.exists_of_findSome?_eq_some h
  exact ⟨rest, c', hmem, hk⟩

/-- A success comes from a word of the language. -/
theorem exec_eq_some (h : r.exec input c k = some x) :
    ∃ w ∈ r.language, ∃ rest c', w ++ rest = input ∧ k rest c' = some x := by
  obtain ⟨rest, c', hmem, hk⟩ := exists_mem_run h
  obtain ⟨w, hw, hrest⟩ := mem_run hmem
  exact ⟨w, hw, rest, c', hrest, hk⟩

/-- **Completeness.** Where the continuation always succeeds after some word of the language,
there is a success. -/
theorem exec_isSome {w : List α} (hw : w ∈ r.language) (hk : ∀ c', (k rest c').isSome) :
    (r.exec (w ++ rest) c k).isSome := by
  induction r generalizing w rest c k with
  | eps =>
    obtain rfl := (Language.mem_one _).mp hw
    rw [exec_eps]
    exact hk c
  | char p =>
    obtain ⟨a, ha, rfl⟩ := hw
    rw [List.singleton_append, exec_char_cons, if_pos ha]
    exact hk c
  | seq r s ihr ihs =>
    obtain ⟨u, hu, v, hv, rfl⟩ := mem_language_seq.mp hw
    rw [exec_seq, List.append_assoc]
    exact ihr hu fun c' => ihs hv hk
  | opt r ih =>
    rw [exec_opt, Option.isSome_or, Bool.or_eq_true]
    rcases mem_language_opt.mp hw with hw | rfl
    · exact Or.inl (ih hw hk)
    · exact Or.inr (hk c)
  | star greedy r ih =>
    -- the word is divided into iterations that are not empty
    obtain ⟨L, rfl, hL⟩ := Language.mem_kstar_iff_exists_nonempty.mp hw
    clear hw
    induction L generalizing c with
    | nil =>
      rw [exec_star]
      cases greedy with
      | true => exact (Option.isSome_or.trans ((Bool.or_eq_true ..).mpr (Or.inr (hk c))))
      | false => exact (Option.isSome_or.trans ((Bool.or_eq_true ..).mpr (Or.inl (hk c))))
    | cons u L ihL =>
      have hu := hL u (List.mem_cons_self ..)
      -- the iteration takes something, so the loop goes on behind it
      have hagain : (r.exec (u ++ (L.flatten ++ rest)) c fun rest' c' =>
          if rest'.length < (u ++ (L.flatten ++ rest)).length then
            (star greedy r).exec rest' c' k else none).isSome := by
        refine ih hu.1 fun c' => ?_
        have hlt : (L.flatten ++ rest).length < (u ++ (L.flatten ++ rest)).length := by
          have hpos := List.length_pos_of_ne_nil hu.2
          simp only [List.length_append]
          omega
        rw [if_pos hlt]
        exact ihL fun y hy => hL y (List.mem_cons_of_mem _ hy)
      rw [exec_star, List.flatten_cons, List.append_assoc]
      cases greedy with
      | true => exact (Option.isSome_or.trans ((Bool.or_eq_true ..).mpr (Or.inl hagain)))
      | false => exact (Option.isSome_or.trans ((Bool.or_eq_true ..).mpr (Or.inr hagain)))
  | group n r ih =>
    rw [exec_group]
    exact ih hw fun c' => hk _

/-- **What is matched as a whole** is what the language holds. -/
theorem fullMatch_isSome_iff : (r.fullMatch input).isSome ↔ input ∈ r.language := by
  constructor
  · intro h
    obtain ⟨c', hc'⟩ := Option.isSome_iff_exists.mp h
    obtain ⟨w, hw, rest, c'', rfl, hend⟩ := exec_eq_some hc'
    unfold atEnd at hend
    split at hend
    · rename_i hrest
      rwa [List.isEmpty_iff.mp hrest, List.append_nil]
    · cases hend
  · intro h
    have hexec : (r.exec (input ++ []) (fun _ => []) atEnd).isSome := exec_isSome h fun _ => rfl
    rwa [List.append_nil] at hexec

/-! ### Characters and words -/

theorem atEnd_eq_some {c' : Captures α} : atEnd rest c = some c' ↔ rest = [] ∧ c = c' := by
  unfold atEnd
  split
  · rename_i hrest
    simp [List.isEmpty_iff.mp hrest]
  · rename_i hrest
    simp [List.isEmpty_iff.not.mp hrest]

theorem exec_char_eq_some :
    (char p).exec input c k = some x ↔
      ∃ a rest, a :: rest = input ∧ p a = true ∧ k rest c = some x := by
  cases input with
  | nil => simp [exec_char_nil]
  | cons a l =>
    rw [exec_char_cons]
    by_cases ha : p a = true <;> simp [ha]

section
variable [DecidableEq α] {w : List α}

theorem exec_lit_eq_some :
    (lit a).exec input c k = some x ↔ ∃ rest, a :: rest = input ∧ k rest c = some x := by
  rw [lit, exec_char_eq_some]
  constructor
  · rintro ⟨b, rest, rfl, hb, hk⟩
    rw [of_decide_eq_true hb]
    exact ⟨rest, rfl, hk⟩
  · rintro ⟨rest, rfl, hk⟩
    exact ⟨a, rest, rfl, decide_eq_true rfl, hk⟩

theorem exec_literal_eq_some :
    (literal w).exec input c k = some x ↔ ∃ rest, w ++ rest = input ∧ k rest c = some x := by
  induction w generalizing input with
  | nil => simp [literal, exec_eps]
  | cons a w ih =>
    show (seq (lit a) (literal w)).exec input c k = some x ↔ _
    rw [exec_seq, exec_lit_eq_some]
    constructor
    · rintro ⟨rest, rfl, hrest⟩
      obtain ⟨rest', rfl, hk⟩ := ih.mp hrest
      exact ⟨rest', rfl, hk⟩
    · rintro ⟨rest, rfl, hk⟩
      exact ⟨w ++ rest, rfl, ih.mpr ⟨rest, rfl, hk⟩⟩

end

/-- What a group captures. -/
theorem take_length_sub (w rest : List α) :
    (w ++ rest).take ((w ++ rest).length - rest.length) = w := by
  rw [List.length_append, Nat.add_sub_cancel, List.take_left]

/-! ### Loops over one character -/

theorem exec_star_char_nil : (star greedy (char p)).exec [] c k = k [] c := by
  rw [exec_star, exec_char_nil]
  cases greedy with
  | true => rfl
  | false => exact Option.or_none

theorem exec_star_char_of_neg (ha : p a = false) :
    (star greedy (char p)).exec (a :: l) c k = k (a :: l) c := by
  rw [exec_star, exec_char_cons, ha]
  cases greedy with
  | true => rfl
  | false => exact Option.or_none

theorem exec_star_char_greedy (ha : p a = true) :
    (star true (char p)).exec (a :: l) c k
      = ((star true (char p)).exec l c k).or (k (a :: l) c) := by
  rw [exec_star, exec_char_cons, if_pos ha]
  simp

theorem exec_star_char_lazy (ha : p a = true) :
    (star false (char p)).exec (a :: l) c k
      = (k (a :: l) c).or ((star false (char p)).exec l c k) := by
  rw [exec_star, exec_char_cons, if_pos ha]
  simp

theorem exec_star_char_eq_none :
    (star greedy (char p)).exec input c k = none ↔
      ∀ w rest, w ++ rest = input → (∀ a ∈ w, p a = true) → k rest c = none := by
  constructor
  · intro h w rest hinput hw
    induction w generalizing input with
    | nil =>
      rw [List.nil_append] at hinput
      subst hinput
      rw [exec_star] at h
      cases greedy with
      | true => exact (Option.or_eq_none_iff.mp h).2
      | false => exact (Option.or_eq_none_iff.mp h).1
    | cons a w ih =>
      subst hinput
      have ha : p a = true := hw a (List.mem_cons_self ..)
      refine ih ?_ rfl fun b hb => hw b (List.mem_cons_of_mem _ hb)
      rw [List.cons_append] at h
      cases greedy with
      | true =>
        rw [exec_star_char_greedy ha] at h
        exact (Option.or_eq_none_iff.mp h).1
      | false =>
        rw [exec_star_char_lazy ha] at h
        exact (Option.or_eq_none_iff.mp h).2
  · intro h
    cases hexec : (star greedy (char p)).exec input c k with
    | none => rfl
    | some x =>
      -- a loop over one character captures nothing
      induction input with
      | nil =>
        rw [exec_star_char_nil, h [] [] rfl nofun] at hexec
        cases hexec
      | cons a l ih =>
        have hstop : k (a :: l) c = none := h [] (a :: l) rfl nofun
        by_cases ha : p a = true
        · have hmore : (star greedy (char p)).exec l c k = some x := by
            cases greedy with
            | true =>
              rw [exec_star_char_greedy ha, hstop, Option.or_none] at hexec
              exact hexec
            | false =>
              rw [exec_star_char_lazy ha, hstop, Option.none_or] at hexec
              exact hexec
          refine ih (fun w rest hl hw => h (a :: w) rest (by rw [List.cons_append, hl]) ?_) hmore
          intro b hb
          rcases List.mem_cons.mp hb with rfl | hb
          · exact ha
          · exact hw b hb
        · rw [exec_star_char_of_neg ((Bool.not_eq_true _).mp ha), hstop] at hexec
          cases hexec

/-- **A greedy loop over one character** stops as late as it can. -/
theorem exec_star_greedy_eq_some :
    (star true (char p)).exec input c k = some x ↔
      ∃ w rest, w ++ rest = input ∧ (∀ a ∈ w, p a = true) ∧ k rest c = some x ∧
        ∀ e rest', e ≠ [] → e ++ rest' = rest → (∀ a ∈ e, p a = true) → k rest' c = none := by
  induction input with
  | nil =>
    rw [exec_star_char_nil]
    constructor
    · intro h
      refine ⟨[], [], rfl, nofun, h, fun e rest' hne he => ?_⟩
      exact absurd (List.append_eq_nil_iff.mp he).1 hne
    · rintro ⟨w, rest, hw, -, hk, -⟩
      rwa [(List.append_eq_nil_iff.mp hw).2] at hk
  | cons a l ih =>
    cases ha : p a with
    | false =>
      rw [exec_star_char_of_neg ha]
      constructor
      · intro h
        refine ⟨[], a :: l, rfl, nofun, h, fun e rest' hne he hp => ?_⟩
        obtain ⟨b, e, rfl⟩ := List.exists_cons_of_ne_nil hne
        obtain ⟨rfl, -⟩ := List.cons.inj he
        rw [hp b (List.mem_cons_self ..)] at ha
        cases ha
      · rintro ⟨w, rest, hinput, hw, hk, -⟩
        cases w with
        | nil => rwa [← hinput]
        | cons b w =>
          obtain ⟨rfl, -⟩ := List.cons.inj hinput
          rw [hw b (List.mem_cons_self ..)] at ha
          cases ha
    | true =>
      rw [exec_star_char_greedy ha]
      constructor
      · intro h
        -- going on has been tried first
        rcases Option.or_eq_some_iff.mp h with hmore | ⟨hnone, hk⟩
        · obtain ⟨w, rest, rfl, hw, hk, hlater⟩ := ih.mp hmore
          exact ⟨a :: w, rest, rfl, List.forall_mem_cons.mpr ⟨ha, hw⟩, hk, hlater⟩
        · refine ⟨[], a :: l, rfl, nofun, hk, fun e rest' hne he hp => ?_⟩
          obtain ⟨b, e, rfl⟩ := List.exists_cons_of_ne_nil hne
          exact exec_star_char_eq_none.mp hnone e rest' (List.cons.inj he).2
            (List.forall_mem_cons.mp hp).2
      · rintro ⟨w, rest, hinput, hw, hk, hlater⟩
        cases w with
        | nil =>
          rw [List.nil_append] at hinput
          subst hinput
          have hnone : (star true (char p)).exec l c k = none :=
            exec_star_char_eq_none.mpr fun e rest' he hp =>
              hlater (a :: e) rest' (List.cons_ne_nil _ _) (by rw [List.cons_append, he])
                (List.forall_mem_cons.mpr ⟨ha, hp⟩)
          rw [hnone, hk, Option.none_or]
        | cons b w =>
          obtain ⟨rfl, hl⟩ := List.cons.inj hinput
          rw [ih.mpr ⟨w, rest, hl, (List.forall_mem_cons.mp hw).2, hk, hlater⟩, Option.some_or]

/-- **A lazy loop over one character** stops as early as it can. -/
theorem exec_star_lazy_eq_some :
    (star false (char p)).exec input c k = some x ↔
      ∃ w rest, w ++ rest = input ∧ (∀ a ∈ w, p a = true) ∧ k rest c = some x ∧
        ∀ w' e, e ≠ [] → w' ++ e = w → k (e ++ rest) c = none := by
  have hsuffix : ∀ {w' e : List α}, e ≠ [] → w' ++ e = [] → False := fun hne he =>
    hne (List.append_eq_nil_iff.mp he).2
  induction input with
  | nil =>
    rw [exec_star_char_nil]
    constructor
    · intro h
      exact ⟨[], [], rfl, nofun, h, fun w' e hne he => (hsuffix hne he).elim⟩
    · rintro ⟨w, rest, hw, -, hk, -⟩
      rwa [(List.append_eq_nil_iff.mp hw).2] at hk
  | cons a l ih =>
    cases ha : p a with
    | false =>
      rw [exec_star_char_of_neg ha]
      constructor
      · intro h
        exact ⟨[], a :: l, rfl, nofun, h, fun w' e hne he => (hsuffix hne he).elim⟩
      · rintro ⟨w, rest, hinput, hw, hk, -⟩
        cases w with
        | nil => rwa [← hinput]
        | cons b w =>
          obtain ⟨rfl, -⟩ := List.cons.inj hinput
          rw [hw b (List.mem_cons_self ..)] at ha
          cases ha
    | true =>
      rw [exec_star_char_lazy ha]
      constructor
      · intro h
        -- stopping has been tried first
        rcases Option.or_eq_some_iff.mp h with hstop | ⟨hnone, hmore⟩
        · exact ⟨[], a :: l, rfl, nofun, hstop, fun w' e hne he => (hsuffix hne he).elim⟩
        · obtain ⟨w, rest, rfl, hw, hk, hearlier⟩ := ih.mp hmore
          refine ⟨a :: w, rest, rfl, List.forall_mem_cons.mpr ⟨ha, hw⟩, hk, ?_⟩
          intro w' e hne he
          cases w' with
          | nil =>
            rw [List.nil_append] at he
            rw [he]
            exact hnone
          | cons b w' => exact hearlier w' e hne (List.cons.inj he).2
      · rintro ⟨w, rest, hinput, hw, hk, hearlier⟩
        cases w with
        | nil =>
          rw [List.nil_append] at hinput
          rw [← hinput, hk, Option.some_or]
        | cons b w =>
          obtain ⟨rfl, rfl⟩ := List.cons.inj hinput
          have hnone : k (b :: (w ++ rest)) c = none :=
            hearlier [] (b :: w) (List.cons_ne_nil _ _) rfl
          show (k (b :: (w ++ rest)) c).or _ = some x
          rw [hnone, Option.none_or]
          refine ih.mpr ⟨w, rest, rfl, (List.forall_mem_cons.mp hw).2, hk, fun w' e hne he => ?_⟩
          exact hearlier (b :: w') e hne (by rw [List.cons_append, he])

/-- A greedy loop takes the whole of a word, where it cannot take what follows. -/
theorem exec_star_greedy_append {w : List α} (hw : ∀ a ∈ w, p a = true)
    (hrest : ∀ a, rest.head? = some a → p a = false) (hk : k rest c = some x) :
    (star true (char p)).exec (w ++ rest) c k = some x := by
  refine exec_star_greedy_eq_some.mpr ⟨w, rest, rfl, hw, hk, fun e rest' hne he hp => ?_⟩
  obtain ⟨a, e, rfl⟩ := List.exists_cons_of_ne_nil hne
  have hstop := hrest a (by rw [← he]; rfl)
  rw [hp a (List.mem_cons_self ..)] at hstop
  cases hstop

section
variable [DecidableEq α] {w : List α}

theorem exec_opt_literal_append (hk : k rest c = some x) :
    (opt (literal w)).exec (w ++ rest) c k = some x := by
  rw [exec_opt, exec_literal_eq_some.mpr ⟨rest, rfl, hk⟩, Option.some_or]

theorem exec_opt_literal_neg (h : ¬ w <+: input) :
    (opt (literal w)).exec input c k = k input c := by
  have hnone : (literal w).exec input c k = none := by
    rw [Option.eq_none_iff_forall_ne_some]
    intro y hy
    obtain ⟨rest, hrest, -⟩ := exec_literal_eq_some.mp hy
    exact h ⟨rest, hrest⟩
  rw [exec_opt, hnone, Option.none_or]

end

end

end Regex

end Rechnernetze.Lib
