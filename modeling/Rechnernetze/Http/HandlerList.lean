import Rechnernetze.Http.Shutdown

/-!
# The list of handler threads while the server runs

A handler thread that has sent its response takes its entry off the list, as long as the flag is
set. The bad-request return and an exception lead past the lines that do so, and then the entry
of a thread that has returned stays on the list. A run keeps the list in order exactly if none
of its threads takes one of these ways (`handler_list_iff`).
-/

namespace Rechnernetze.Http

open Lib

namespace HandlerThreads

/-- The handler thread `n` has not reached the lines that remove it. -/
def State.Running (s : State) (n : ℕ) : Prop :=
  s.stage? n = some .handling ∨ s.stage? n = some .responded

/-- The handler thread `n` has left `handle_incoming_request`. -/
def State.Returned (s : State) (n : ℕ) : Prop :=
  s.stage? n = some .leaving ∨ s.stage? n = some .ended

/-- The list is in order. -/
structure Accounted (s : State) : Prop where
  returned : ∀ n, s.Returned n → some n ∉ s.runningHandlerThreads
  running : ∀ n, s.Running n → s.runningHandlerThreads.count (some n) = 1

/-- A handler thread that is done with its request while the flag is set goes on to the lines
that remove it. -/
def Completes (s : State) (a : Action) : Prop :=
  s.removeHandlerThreadsOnCompletion = true → ∀ n ending, a = .handle n ending →
    ending = .completed

/-- As long as the flag is set, who has returned has no entry. -/
def Cleared (s : State) : Prop :=
  s.removeHandlerThreadsOnCompletion = true → ∀ n, s.Returned n →
    some n ∉ s.runningHandlerThreads

section
variable {s s' : State} {a : Action} {n m : ℕ} {x : Stage} {ending : Ending}

theorem returned_setStage (h : (s.setStage n x).Returned m) :
    n = m ∧ (x = .leaving ∨ x = .ended) ∨ s.Returned m := by
  unfold State.Returned at h ⊢
  rw [stage?_setStage] at h
  by_cases hnm : n = m
  · rw [if_pos hnm] at h
    refine Or.inl ⟨hnm, ?_⟩
    rcases h with h | h
    · obtain ⟨_, -, hx⟩ := Option.map_eq_some_iff.mp h
      exact Or.inl hx
    · obtain ⟨_, -, hx⟩ := Option.map_eq_some_iff.mp h
      exact Or.inr hx
  · rw [if_neg hnm] at h
    exact Or.inr h

theorem Owned.count_eq_one (hI : Owned s) (hn : s.Running n) :
    s.runningHandlerThreads.count (some n) = 1 := by
  have hpos := List.count_pos_iff.mpr (hI.present n hn)
  have hconserved := hI.conserved n
  split at hconserved
  · omega
  · omega

/-- In the join loop the flag is not set any more. -/
theorem Inv.flag_clear (hI : Inv s)
    (hmain : (∃ i, s.main = .joining i) ∨ s.main = .joined) :
    s.removeHandlerThreadsOnCompletion = false := by
  have hphase := hI.phase
  unfold Phase at hphase
  rcases hmain with ⟨i, hmain⟩ | hmain
  · rw [hmain] at hphase
    exact hphase.1.2
  · rw [hmain] at hphase
    exact hphase.1.2

/-! ## What a step keeps -/

/-- **A step** in which no thread leaves before the lines that remove it. -/
theorem Cleared.move (h : Cleared s) (hI : Inv s) (hok : Completes s a) (hmove : Move s a s') :
    Cleared s' := by
  -- a step after the flag has been cleared
  have hclear : s.removeHandlerThreadsOnCompletion = false →
      s'.removeHandlerThreadsOnCompletion = s.removeHandlerThreadsOnCompletion → Cleared s' := by
    intro hfalse heq hflag
    rw [heq, hfalse] at hflag
    cases hflag
  cases hmove with
  | quit | listenerJoined | accepted | acceptFailed | closed => exact h
  | flagCleared hmain => exact fun hflag => nomatch hflag
  | skipped hmain => exact hclear (hI.flag_clear (Or.inl ⟨_, hmain⟩)) rfl
  | joined hmain => exact hclear (hI.flag_clear (Or.inl ⟨_, hmain⟩)) rfl
  | loopLeft hmain => exact hclear (hI.flag_clear (Or.inl ⟨_, hmain⟩)) rfl
  | returned hmain => exact hclear (hI.flag_clear (Or.inr hmain)) rfl
  | started hlistener hfresh =>
    intro hflag m hm hmem
    unfold State.Returned at hm
    rw [stage?_concat rfl] at hm
    by_cases hnew : m = s.handlers.length
    · rw [if_pos hnew] at hm
      rcases hm with hm | hm <;> cases hm
    · rw [if_neg hnew] at hm
      rcases List.mem_append.mp hmem with hmem | hmem
      · exact h hflag m hm hmem
      · exact hnew (Option.some.inj (List.mem_singleton.mp hmem))
  | responded hstage =>
    intro hflag m hm
    rcases returned_setStage hm with ⟨-, hx⟩ | hm
    · rcases hx with hx | hx <;> cases hx
    · exact h hflag m hm
  | refused hstage => exact fun hflag => nomatch hok hflag _ _ rfl
  | failed hstage => exact fun hflag => nomatch hok hflag _ _ rfl
  | @removed n handler hhandler hstage hflag =>
    obtain ⟨l₁, l₂, hsplit, heq⟩ := hI.owned.removeHandlerThread_eq hhandler hstage
    have hn : s.Running n := Or.inr (by rw [stage?_of_getElem? hhandler, hstage])
    have hcount := hI.owned.count_eq_one hn
    rw [hsplit, List.count_append, List.count_cons_self] at hcount
    rw [heq]
    intro _ m hm hmem
    have hmem' : some m ∈ l₁ ++ l₂ := hmem
    rcases returned_setStage hm with ⟨rfl, -⟩ | hm
    · have hpos := List.count_pos_iff.mpr hmem'
      rw [List.count_append] at hpos
      omega
    · refine h hflag m hm ?_
      rw [hsplit]
      exact (List.sublist_cons_self ..).append_left l₁ |>.mem hmem'
  | kept hstage hflag => exact hclear hflag rfl
  | finished hstage =>
    intro hflag m hm
    rcases returned_setStage hm with ⟨rfl, -⟩ | hm
    · exact h hflag _ (Or.inl hstage)
    · exact h hflag m hm

/-- **A run** none of whose threads leaves before these lines. -/
theorem reaches_accounted (hrun : Reaches step Completes initial s)
    (hflag : s.removeHandlerThreadsOnCompletion = true) : Accounted s := by
  have hboth : Inv s ∧ Cleared s := by
    refine hrun.invariant (I := fun s => Inv s ∧ Cleared s) ⟨inv_initial, ?_⟩
      fun t a u hI hok hstep => ?_
    · intro _ n hn
      rcases hn with hn | hn <;> cases hn
    · have hmove := step_cases hstep
      exact ⟨hI.1.move hmove, hI.2.move hI.1 hok hmove⟩
  exact ⟨hboth.2 hflag, fun n hn => hboth.1.owned.count_eq_one hn⟩

/-- A thread that leaves before these lines leaves its entry behind. -/
theorem not_accounted_of_handle (hI : Owned s) (hstep : step s (.handle n ending) = some s')
    (hending : ending ≠ .completed) : ¬ Accounted s' := by
  intro h
  have hleft : ∀ {t : State}, Accounted t → s.stage? n = some .handling →
      t.handlers = (s.setStage n .leaving).handlers →
      t.runningHandlerThreads = s.runningHandlerThreads → False := by
    intro t ht hstage hhandlers hthreads
    refine ht.returned n (Or.inl ?_) ?_
    · have hsame : t.stage? n = (s.setStage n .leaving).stage? n := by
        unfold State.stage?
        rw [hhandlers]
      rw [hsame, stage?_setStage, if_pos rfl, hstage]
      rfl
    · rw [hthreads]
      exact hI.present n (Or.inl hstage)
  cases step_cases hstep with
  | responded hstage => exact hending rfl
  | refused hstage => exact hleft h hstage rfl rfl
  | failed hstage => exact hleft h hstage rfl rfl

end

/-- **The list of handler threads** is in order wherever a run comes to with the flag set, exactly
if every thread that is done with its request while the flag is set goes on to the lines that
remove it. -/
theorem handler_list_iff (r : Run step initial) :
    (∀ s, r.Visits s → s.removeHandlerThreadsOnCompletion = true → Accounted s) ↔
      ∀ s a, r.Takes s a → Completes s a := by
  constructor
  · rintro h s a htakes hflag n ending rfl
    obtain ⟨s', hstep, hvisits⟩ := htakes.step_visits
    by_contra hending
    have hrun : Reaches step anyStep initial s := htakes.visits.reaches fun _ _ _ => trivial
    refine not_accounted_of_handle (reaches_inv hrun).owned hstep hending (h s' hvisits ?_)
    cases step_cases hstep with
    | responded => exact hflag
    | refused => exact hflag
    | failed => exact hflag
  · exact fun h s hvisits hflag => reaches_accounted (hvisits.reaches h) hflag

/-- One connection, of which no request is received. -/
def refusedRun : List Action := [.accept true, .start 7, .handle 0 .refused, .finish 0]

/-- The state in which that run ends: the entry of the thread is still there. -/
def refusedEnded : State where
  main := .serving
  listening := true
  listener := .accepting
  removeHandlerThreadsOnCompletion := true
  runningHandlerThreads := [some 0]
  handlers := [⟨7, .ended⟩]
  log := [.sent 0]

theorem refused_handler_stays :
    ¬ ∀ s, Reaches step anyStep initial s → s.removeHandlerThreadsOnCompletion = true →
      Accounted s := by
  intro h
  have hrun : Reaches step anyStep initial refusedEnded := .of_foldlM (l := refusedRun) (by decide)
  exact (h refusedEnded hrun rfl).returned 0 (Or.inr rfl) (List.mem_singleton_self _)

end HandlerThreads

end Rechnernetze.Http
