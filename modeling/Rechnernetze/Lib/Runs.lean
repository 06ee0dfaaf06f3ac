import Mathlib.Data.List.Induction

/-!
# Runs of a partial step function

A system is a type of states `σ`, a type of actions `α` and a partial step function:
`step s a = none` says that action `a` is not enabled in `s`. A run is a sequence of
enabled actions. The run-level statements of the development are about `Reaches`: the
states reached by a run each step of which meets a side condition `ok` on the state
before the step and the action taken. A statement about the whole of one run is about `Run`.
-/

namespace Rechnernetze.Lib

section Runs
variable {σ α : Type*} (step : σ → α → Option σ) (ok ok' : σ → α → Prop)

/-- `Reaches step ok s t`: some run leads from `s` to `t`, and each of its steps meets
`ok`. -/
inductive Reaches (s : σ) : σ → Prop
  | refl : Reaches s s
  | tail {t u : σ} {a : α} : Reaches s t → ok t a → step t a = some u → Reaches s u

/-- No side condition on the steps. -/
def anyStep : σ → α → Prop := fun _ _ => True

variable {step ok ok'}

/-- **Invariant rule.** What holds at the start and is preserved by every step that meets
`ok` holds wherever a run leads. -/
theorem Reaches.invariant {I : σ → Prop} {s t : σ} (h : Reaches step ok s t) (h0 : I s)
    (hstep : ∀ t a u, I t → ok t a → step t a = some u → I u) : I t := by
  induction h with
  | refl => exact h0
  | tail _ hok hs ih => exact hstep _ _ _ ih hok hs

theorem Reaches.mono {s t : σ} (h : Reaches step ok s t) (hok : ∀ t a, ok t a → ok' t a) :
    Reaches step ok' s t := by
  induction h with
  | refl => exact .refl
  | tail _ h1 hs ih => exact .tail ih (hok _ _ h1) hs

theorem Reaches.trans {s t u : σ} (h : Reaches step ok s t) (h' : Reaches step ok t u) :
    Reaches step ok s u := by
  induction h' with
  | refl => exact h
  | tail _ hok hs ih => exact .tail ih hok hs

/-- **Refinement rule.** What takes each step from the states of a run to a step or to nothing
takes the run to a run. -/
theorem Reaches.map_stutter {σ' α' : Type*} {step' : σ' → α' → Option σ'} {ok' : σ' → α' → Prop}
    {s t : σ} (f : σ → σ') (h : Reaches step ok s t)
    (hstep : ∀ t a u, Reaches step ok s t → ok t a → step t a = some u →
      f u = f t ∨ ∃ a', ok' (f t) a' ∧ step' (f t) a' = some (f u)) :
    Reaches step' ok' (f s) (f t) := by
  induction h with
  | refl => exact .refl
  | tail hrun hok hs ih =>
    rcases hstep _ _ _ hrun hok hs with heq | ⟨a', hok', hs'⟩
    · rw [heq]
      exact ih
    · exact .tail ih hok' hs'

/-- **Embedding rule.** What takes the steps from the states of a run to steps takes the run to a
run. -/
theorem Reaches.map {σ' α' : Type*} {step' : σ' → α' → Option σ'} {ok' : σ' → α' → Prop}
    {s t : σ} (f : σ → σ') (g : α → α') (h : Reaches step ok s t)
    (hstep : ∀ t a u, Reaches step ok s t → ok t a → step t a = some u →
      ok' (f t) (g a) ∧ step' (f t) (g a) = some (f u)) :
    Reaches step' ok' (f s) (f t) :=
  h.map_stutter f fun t a u hrun hok hs => Or.inr ⟨g a, hstep t a u hrun hok hs⟩

/-- A list of enabled actions is a run. -/
theorem Reaches.of_foldlM_of_forall {s t : σ} {l : List α} (h : l.foldlM step s = some t)
    (hok : ∀ l' u a, l' ++ [a] <+: l → l'.foldlM step s = some u → ok u a) :
    Reaches step ok s t := by
  induction l using List.reverseRecOn generalizing t with
  | nil =>
    obtain rfl := Option.some.inj h
    exact .refl
  | append_singleton l a ih =>
    rw [List.foldlM_append] at h
    obtain ⟨u, hbefore, hlast⟩ := Option.bind_eq_some_iff.mp h
    obtain ⟨t', hstep, hend⟩ := Option.bind_eq_some_iff.mp hlast
    obtain rfl := Option.some.inj hend
    refine .tail (ih hbefore fun l' u a' hl' => ?_) (hok l u a (List.prefix_refl _) hbefore) hstep
    exact hok l' u a' (hl'.trans (List.prefix_append ..))

theorem Reaches.of_foldlM {s t : σ} {l : List α} (h : l.foldlM step s = some t) :
    Reaches step anyStep s t :=
  .of_foldlM_of_forall h fun _ _ _ _ _ => trivial

variable (step) in
/-- A run, by its actions. -/
structure Run (s : σ) where
  actions : List α
  enabled : (actions.foldlM step s).isSome

namespace Run
variable {s t : σ} {a : α}

/-- The run comes to the state `t`. -/
def Visits (r : Run step s) (t : σ) : Prop :=
  ∃ l, l <+: r.actions ∧ l.foldlM step s = some t

/-- The run takes the action `a` in the state `t`. -/
def Takes (r : Run step s) (t : σ) (a : α) : Prop :=
  ∃ l, l ++ [a] <+: r.actions ∧ l.foldlM step s = some t

theorem Takes.visits {r : Run step s} (h : r.Takes t a) : r.Visits t := by
  obtain ⟨l, hl, ht⟩ := h
  exact ⟨l, (List.prefix_append ..).trans hl, ht⟩

theorem Takes.step_visits {r : Run step s} (h : r.Takes t a) :
    ∃ u, step t a = some u ∧ r.Visits u := by
  obtain ⟨l, ⟨l', hl⟩, ht⟩ := h
  have henabled := r.enabled
  rw [← hl, List.foldlM_append, List.foldlM_append, ht] at henabled
  cases hstep : step t a with
  | none =>
    rw [Option.bind_eq_bind, Option.bind_some, List.foldlM_cons, hstep] at henabled
    cases henabled
  | some u =>
    refine ⟨u, rfl, l ++ [a], ⟨l', hl⟩, ?_⟩
    rw [List.foldlM_append, ht, Option.bind_eq_bind, Option.bind_some, List.foldlM_cons, hstep]
    rfl

/-- A run that meets a side condition in each of its steps. -/
theorem Visits.reaches {r : Run step s} (h : r.Visits t) (hok : ∀ t a, r.Takes t a → ok t a) :
    Reaches step ok s t := by
  obtain ⟨l, hl, ht⟩ := h
  exact .of_foldlM_of_forall ht fun l' u a hl' hu => hok u a ⟨l', hl'.trans hl, hu⟩

end Run

/-- **Measure rule.** Where every action that meets `quiet` lowers a number, a run of such actions
is no longer than the number at its start. -/
theorem length_add_le_of_lowers {quiet : α → Prop} {measure : σ → ℕ} {s t : σ} {l : List α}
    (hlowers : ∀ s a u, quiet a → step s a = some u → measure u < measure s)
    (hl : ∀ a ∈ l, quiet a) (ht : l.foldlM step s = some t) :
    l.length + measure t ≤ measure s := by
  induction l generalizing s with
  | nil =>
    obtain rfl := Option.some.inj ht
    exact Nat.le_of_eq (Nat.zero_add _)
  | cons a l ih =>
    obtain ⟨u, hu, ht⟩ := Option.bind_eq_some_iff.mp ht
    have hlt := hlowers s a u (hl a (List.mem_cons_self ..)) hu
    have hle := ih (fun b hb => hl b (List.mem_cons_of_mem _ hb)) ht
    rw [List.length_cons]
    omega

end Runs

section Fixed
variable {σ α : Type*} {step : σ → α → Option σ} {s : σ} {l : List α}

/-- Actions that do not change the state. -/
theorem foldlM_of_fixed (h : ∀ a ∈ l, step s a = some s) : l.foldlM step s = some s := by
  induction l with
  | nil => rfl
  | cons a l ih =>
    have ha : step s a = some s := h a (List.mem_cons_self ..)
    have hl : l.foldlM step s = some s := ih fun b hb => h b (List.mem_cons_of_mem _ hb)
    rw [List.foldlM_cons, ha]
    exact hl

/-- A list of actions leaves the state alone all the way exactly if each of them does. -/
theorem forall_prefix_foldlM_iff :
    (∀ l', l' <+: l → l'.foldlM step s = some s) ↔ ∀ a ∈ l, step s a = some s := by
  refine ⟨fun h a ha => ?_, fun h l' hl' => ?_⟩
  · -- compare the prefixes before and after `a`
    obtain ⟨l₁, l₂, rfl⟩ := List.append_of_mem ha
    have h₁ : l₁.foldlM step s = some s := h l₁ (List.prefix_append ..)
    have h₂ : (l₁ ++ [a]).foldlM step s = some s := by
      refine h (l₁ ++ [a]) ⟨l₂, ?_⟩
      rw [List.append_assoc, List.singleton_append]
    rw [List.foldlM_append, h₁] at h₂
    simpa using h₂
  · exact foldlM_of_fixed fun a ha => h a (hl'.subset ha)

end Fixed

end Rechnernetze.Lib
