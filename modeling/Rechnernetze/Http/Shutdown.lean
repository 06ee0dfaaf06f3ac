import Mathlib.Tactic.Common
import Rechnernetze.Http.HandlerThreads
import Rechnernetze.Lib.Runs

/-!
# The shutdown of `http_server`

Every handler thread that has been started is represented by one entry of the list until the
thread removes it or `main` joins the thread (`Inv.conserved`), whatever the order of steps.
The flag is cleared and the listener has ended before the join loop begins, so the list stays
as it is while `main` goes through it (`handlers_released_once`).
-/

namespace Rechnernetze.Http

open Lib

namespace HandlerThreads

variable {s s' : State} {a : Action} {n m : ℕ} {h : Handler} {t : Thread} {log : List Event}

/-! ## What a step can do -/

/-- Everything a step can do. -/
inductive Move (s : State) : Action → State → Prop
  | quit (hmain : s.main = .serving) :
      Move s .main { s with main := .listenerShutDown, listening := false }
  | listenerJoined (hmain : s.main = .listenerShutDown) (hlistener : s.listener = .ended) :
      Move s .main { s with main := .listenerJoined }
  | flagCleared (hmain : s.main = .listenerJoined) :
      Move s .main { s with main := .joining 0, removeHandlerThreadsOnCompletion := false }
  | skipped {i : ℕ} (hmain : s.main = .joining i)
      (hentry : s.runningHandlerThreads[i]? = some none) :
      Move s .main { s with main := .joining (i + 1) }
  | joined {i n : ℕ} (hmain : s.main = .joining i)
      (hentry : s.runningHandlerThreads[i]? = some (some n)) (hended : s.stage? n = some .ended) :
      Move s .main
        { s with
          main := .joining (i + 1)
          runningHandlerThreads := s.runningHandlerThreads.set i none
          log := .joined n :: s.log }
  | loopLeft {i : ℕ} (hmain : s.main = .joining i) (hentry : s.runningHandlerThreads[i]? = none) :
      Move s .main { s with main := .joined }
  | returned (hmain : s.main = .joined) :
      Move s .main
        { s with
          main := .returned
          runningHandlerThreads := []
          log := s.runningHandlerThreads.map .destroyed ++ s.log }
  | accepted (hlistener : s.listener = .accepting) :
      Move s (.accept true) { s with listener := .accepted }
  | acceptFailed (hlistener : s.listener = .accepting) : Move s (.accept false) s
  | closed (hlistener : s.listener = .accepting) (hlistening : s.listening = false) :
      Move s .close { s with listener := .ended }
  | started {id : ThreadId} (hlistener : s.listener = .accepted) (hfresh : s.Fresh id) :
      Move s (.start id)
        { s with
          listener := .accepting
          runningHandlerThreads := s.runningHandlerThreads ++ [some s.handlers.length]
          handlers := s.handlers ++ [⟨id, .handling⟩] }
  | responded {n : ℕ} (hstage : s.stage? n = some .handling) :
      Move s (.handle n .completed) ((s.setStage n .responded).record (.sent n))
  | refused {n : ℕ} (hstage : s.stage? n = some .handling) :
      Move s (.handle n .refused) ((s.setStage n .leaving).record (.sent n))
  | failed {n : ℕ} (hstage : s.stage? n = some .handling) :
      Move s (.handle n (.failed .exception)) (s.setStage n .leaving)
  | removed {n : ℕ} {h : Handler} (hhandler : s.handlers[n]? = some h)
      (hstage : h.stage = .responded) (hflag : s.removeHandlerThreadsOnCompletion = true) :
      Move s (.complete n) ((s.removeHandlerThread n h.id).setStage n .leaving)
  | kept {n : ℕ} (hstage : s.stage? n = some .responded)
      (hflag : s.removeHandlerThreadsOnCompletion = false) :
      Move s (.complete n) (s.setStage n .leaving)
  | finished {n : ℕ} (hstage : s.stage? n = some .leaving) :
      Move s (.finish n) (s.setStage n .ended)

theorem main_cases (hstep : mainStep s = some s') : Move s .main s' := by
  unfold mainStep at hstep
  split at hstep
  · rename_i hmain
    cases hstep
    exact .quit hmain
  · rename_i hmain
    split at hstep
    · rename_i hlistener
      cases hstep
      exact .listenerJoined hmain hlistener
    · cases hstep
  · rename_i hmain
    cases hstep
    exact .flagCleared hmain
  · rename_i i hmain
    split at hstep
    · rename_i hentry
      cases hstep
      exact .loopLeft hmain hentry
    · rename_i hentry
      cases hstep
      exact .skipped hmain hentry
    · rename_i n hentry
      split at hstep
      · rename_i hended
        cases hstep
        exact .joined hmain hentry hended
      · cases hstep
  · rename_i hmain
    cases hstep
    exact .returned hmain
  · cases hstep

/-- **Inversion of a step.** -/
theorem step_cases (hstep : step s a = some s') : Move s a s' := by
  cases a with
  | main => exact main_cases hstep
  | accept ok =>
    simp only [step] at hstep
    split at hstep
    · rename_i hlistener
      cases ok with
      | true =>
        cases hstep
        exact .accepted hlistener
      | false =>
        cases hstep
        exact .acceptFailed hlistener
    · cases hstep
  | close =>
    simp only [step] at hstep
    split at hstep
    · rename_i hlistener
      cases hstep
      exact .closed hlistener.1 hlistener.2
    · cases hstep
  | start id =>
    simp only [step] at hstep
    split at hstep
    · rename_i hlistener
      cases hstep
      exact .started hlistener.1 hlistener.2
    · cases hstep
  | handle n ending =>
    simp only [step] at hstep
    split at hstep
    · rename_i hstage
      cases ending with
      | completed =>
        cases hstep
        exact .responded hstage
      | refused =>
        cases hstep
        exact .refused hstage
      | failed failure =>
        cases failure with
        | exception =>
          cases hstep
          exact .failed hstage
        | blocked => cases hstep
      | undefined => cases hstep
    · cases hstep
  | complete n =>
    simp only [step, Option.bind_eq_some_iff] at hstep
    obtain ⟨h, hhandler, hstep⟩ := hstep
    split at hstep
    · rename_i hstage
      obtain rfl := Option.some.inj hstep
      split
      · rename_i hflag
        exact .removed hhandler hstage hflag
      · rename_i hflag
        refine .kept ?_ ((Bool.not_eq_true _).mp hflag)
        rw [State.stage?, hhandler, Option.map_some, hstage]
    · cases hstep
  | finish n =>
    simp only [step] at hstep
    split at hstep
    · rename_i hstage
      cases hstep
      exact .finished hstage
    · cases hstep

/-! ## Stages and ids -/

theorem stage?_of_getElem? (hhandler : s.handlers[n]? = some h) : s.stage? n = some h.stage := by
  rw [State.stage?, hhandler]
  rfl

theorem stage?_setStage {x : Stage} :
    (s.setStage n x).stage? m = if n = m then (s.stage? m).map fun _ => x else s.stage? m := by
  unfold State.stage? State.setStage
  rw [List.getElem?_modify]
  by_cases hnm : n = m
  · rw [if_pos hnm]
    simp only [hnm, if_true]
    cases s.handlers[m]? with
    | none => rfl
    | some h => rfl
  · rw [if_neg hnm]
    simp only [hnm, if_false]
    cases s.handlers[m]? with
    | none => rfl
    | some h => rfl

theorem id?_setStage {x : Stage} : (s.setStage n x).id? m = s.id? m := by
  unfold State.id? State.setStage
  rw [List.getElem?_modify]
  cases s.handlers[m]? with
  | none => rfl
  | some h =>
    show some (if n = m then { h with stage := x } else h).id = some h.id
    split
    · rfl
    · rfl

/-- A thread that has not ended keeps its id in use when it goes on. -/
theorem inUse_of_setStage {x y : Stage} (hstage : s.stage? n = some x) (hx : x ≠ .ended)
    (huse : (s.setStage n y).InUse m) : s.InUse m := by
  unfold State.InUse at huse ⊢
  rw [stage?_setStage] at huse
  by_cases hnm : n = m
  · subst hnm
    rw [hstage]
    exact Or.inl fun hended => hx (Option.some.inj hended)
  · rw [if_neg hnm] at huse
    exact huse

/-! ## The invariant of the list -/

/-- The event takes the handler thread `n` off the list. -/
def Event.releases (n : ℕ) : Event → Bool
  | .detached _ entry => entry = some n
  | .joined m => m = n
  | _ => false

theorem countP_releases_joined :
    (.joined n :: log).countP (Event.releases m)
      = log.countP (Event.releases m) + if n = m then 1 else 0 := by
  rw [List.countP_cons]
  simp [Event.releases]

theorem countP_releases_removed :
    (.destroyed none :: .detached n (some n) :: log).countP (Event.releases m)
      = log.countP (Event.releases m) + if n = m then 1 else 0 := by
  rw [List.countP_cons, List.countP_cons]
  simp [Event.releases]

/-- Every entry is detached by its own thread, after the response. -/
def Lawful : List Event → Prop
  | [] => True
  | .detached n entry :: log => (entry = some n ∧ .sent n ∈ log) ∧ Lawful log
  | _ :: log => Lawful log

/-- Who is represented in the list. -/
structure Owned (s : State) : Prop where
  /-- A thread that has been started is represented by one entry, or was released once. -/
  conserved : ∀ n, s.log.countP (Event.releases n) + s.runningHandlerThreads.count (some n)
    = if n < s.handlers.length then 1 else 0
  distinct : ∀ m n id, s.InUse m → s.InUse n → s.id? m = some id → s.id? n = some id → m = n
  present : ∀ n, s.stage? n = some .handling ∨ s.stage? n = some .responded →
    some n ∈ s.runningHandlerThreads
  sent : ∀ n, s.stage? n = some .responded → .sent n ∈ s.log
  lawful : Lawful s.log

theorem owned_initial : Owned initial where
  conserved := fun n => rfl
  distinct := fun m n id _ _ h => by cases h
  present := fun n h => by rcases h with h | h <;> cases h
  sent := fun n h => by cases h
  lawful := trivial

theorem Owned.record_sent (hI : Owned s) : Owned (s.record (.sent n)) where
  conserved := fun m => by
    have hcount : (s.record (.sent n)).log.countP (Event.releases m)
        = s.log.countP (Event.releases m) := List.countP_cons_of_neg (by simp [Event.releases])
    rw [hcount]
    exact hI.conserved m
  distinct := hI.distinct
  present := hI.present
  sent := fun m h => List.mem_cons_of_mem _ (hI.sent m h)
  lawful := hI.lawful

/-- A handler thread goes on, but not to the lines that remove it. -/
theorem Owned.setStage (hI : Owned s) {x y : Stage} (hstage : s.stage? n = some x)
    (hx : x ≠ .ended) (hy : y ≠ .handling)
    (hresponded : y = .responded → x = .handling ∧ .sent n ∈ s.log) :
    Owned (s.setStage n y) where
  conserved := fun m => by
    have hlength : (s.setStage n y).handlers.length = s.handlers.length := List.length_modify ..
    rw [hlength]
    exact hI.conserved m
  distinct := fun m k id hm hk hidm hidk => by
    rw [id?_setStage] at hidm hidk
    exact hI.distinct m k id (inUse_of_setStage hstage hx hm) (inUse_of_setStage hstage hx hk)
      hidm hidk
  present := fun m hm => by
    rw [stage?_setStage] at hm
    by_cases hnm : n = m
    · subst hnm
      rw [if_pos rfl, hstage] at hm
      rcases hm with hm | hm
      · exact absurd (Option.some.inj hm) hy
      · obtain ⟨rfl, -⟩ := hresponded (Option.some.inj hm)
        exact hI.present n (Or.inl hstage)
    · rw [if_neg hnm] at hm
      exact hI.present m hm
  sent := fun m hm => by
    rw [stage?_setStage] at hm
    by_cases hnm : n = m
    · subst hnm
      rw [if_pos rfl, hstage] at hm
      exact (hresponded (Option.some.inj hm)).2
    · rw [if_neg hnm] at hm
      exact hI.sent m hm
  lawful := hI.lawful

/-- The invariant does not look at where `main` and the listener are. -/
theorem Owned.congr (hI : Owned s) (hthreads : s'.runningHandlerThreads = s.runningHandlerThreads)
    (hhandlers : s'.handlers = s.handlers) (hlog : s'.log = s.log) : Owned s' := by
  obtain ⟨conserved, distinct, present, sent, lawful⟩ := hI
  cases s
  cases s'
  cases hthreads
  cases hhandlers
  cases hlog
  exact ⟨conserved, distinct, present, sent, lawful⟩

/-! ## The listener starts a thread -/

theorem getElem?_concat (l : List Handler) :
    (l ++ [h])[m]? = if m = l.length then some h else l[m]? := by
  rcases Nat.lt_trichotomy m l.length with hlt | heq | hgt
  · rw [if_neg (by omega), List.getElem?_append_left hlt]
  · rw [if_pos heq, heq, List.getElem?_concat_length]
  · rw [if_neg (by omega), List.getElem?_eq_none (by simp; omega), List.getElem?_eq_none hgt.le]

theorem stage?_concat (hhandlers : s'.handlers = s.handlers ++ [h]) :
    s'.stage? m = if m = s.handlers.length then some h.stage else s.stage? m := by
  unfold State.stage?
  rw [hhandlers, getElem?_concat]
  split
  · rfl
  · rfl

theorem id?_concat (hhandlers : s'.handlers = s.handlers ++ [h]) :
    s'.id? m = if m = s.handlers.length then some h.id else s.id? m := by
  unfold State.id?
  rw [hhandlers, getElem?_concat]
  split
  · rfl
  · rfl

/-- A thread that was there before does not use the id of a new one. -/
theorem id?_ne_of_fresh {id : ThreadId} (hfresh : s.Fresh id) (huse : s.InUse m) :
    s.id? m ≠ some id := by
  intro hid
  obtain ⟨h, hhandler, -⟩ := Option.map_eq_some_iff.mp hid
  exact hfresh m (List.getElem?_eq_some_iff.mp hhandler).1 huse hid

theorem count_concat_some (l : List Thread) :
    (l ++ [some n]).count (some m) = l.count (some m) + if m = n then 1 else 0 := by
  rw [List.count_append, List.count_singleton]
  by_cases hm : m = n
  · rw [if_pos hm, if_pos (by rw [hm, beq_self_eq_true])]
  · rw [if_neg hm, if_neg fun h => hm (Option.some.inj (eq_of_beq h)).symm]

theorem Owned.started (hI : Owned s) {id : ThreadId} {listener : Listener} (hfresh : s.Fresh id) :
    Owned { s with
      listener := listener
      runningHandlerThreads := s.runningHandlerThreads ++ [some s.handlers.length]
      handlers := s.handlers ++ [⟨id, .handling⟩] } := by
  set s' : State := { s with
    listener := listener
    runningHandlerThreads := s.runningHandlerThreads ++ [some s.handlers.length]
    handlers := s.handlers ++ [⟨id, .handling⟩] } with hs'
  have hhandlers : s'.handlers = s.handlers ++ [⟨id, .handling⟩] := rfl
  have hstage : ∀ m, s'.stage? m
      = if m = s.handlers.length then some .handling else s.stage? m :=
    fun m => stage?_concat hhandlers
  have hid : ∀ m, s'.id? m = if m = s.handlers.length then some id else s.id? m :=
    fun m => id?_concat hhandlers
  -- the threads from before are in use as before
  have huse : ∀ m, m ≠ s.handlers.length → s'.InUse m → s.InUse m := by
    intro m hm hm'
    unfold State.InUse at hm' ⊢
    rw [hstage, if_neg hm] at hm'
    refine hm'.imp_right fun hmem => ?_
    rcases List.mem_append.mp hmem with hmem | hmem
    · exact hmem
    · exact absurd (Option.some.inj (List.mem_singleton.mp hmem)) hm
  constructor
  · intro m
    have hcount := hI.conserved m
    have hlength : s'.handlers.length = s.handlers.length + 1 := by
      rw [hs', List.length_append, List.length_singleton]
    have hthreads : s'.runningHandlerThreads.count (some m)
        = s.runningHandlerThreads.count (some m) + if m = s.handlers.length then 1 else 0 :=
      count_concat_some s.runningHandlerThreads
    rw [hthreads, hlength, ← Nat.add_assoc]
    show s.log.countP _ + _ + _ = _
    rw [hcount]
    split_ifs <;> omega
  · -- the new thread has an id of its own
    intro m k id' hm hk hmid hkid
    rw [hid] at hmid hkid
    by_cases hmnew : m = s.handlers.length
    · by_cases hknew : k = s.handlers.length
      · rw [hmnew, hknew]
      · rw [if_pos hmnew] at hmid
        rw [if_neg hknew, ← hmid] at hkid
        exact absurd hkid (id?_ne_of_fresh hfresh (huse k hknew hk))
    · by_cases hknew : k = s.handlers.length
      · rw [if_pos hknew] at hkid
        rw [if_neg hmnew, ← hkid] at hmid
        exact absurd hmid (id?_ne_of_fresh hfresh (huse m hmnew hm))
      · rw [if_neg hmnew] at hmid
        rw [if_neg hknew] at hkid
        exact hI.distinct m k id' (huse m hmnew hm) (huse k hknew hk) hmid hkid
  · intro m hm
    by_cases hmnew : m = s.handlers.length
    · rw [hmnew]
      exact List.mem_append_right _ (List.mem_singleton_self _)
    · rw [hstage, if_neg hmnew] at hm
      exact List.mem_append_left _ (hI.present m hm)
  · intro m hm
    rw [hstage] at hm
    by_cases hmnew : m = s.handlers.length
    · rw [if_pos hmnew] at hm
      cases hm
    · rw [if_neg hmnew] at hm
      exact hI.sent m hm
  · exact hI.lawful

/-! ## A thread removes itself -/

/-- The id of a running thread leads to its own entry. -/
theorem Owned.entry_eq (hI : Owned s) (hhandler : s.handlers[n]? = some h)
    (hrunning : h.stage ≠ .ended) (ht : t ∈ s.runningHandlerThreads)
    (hid : s.getId t = some h.id) : t = some n := by
  obtain ⟨m, rfl, hm⟩ := Option.bind_eq_some_iff.mp hid
  have huse : s.InUse n := by
    refine Or.inl ?_
    rw [stage?_of_getElem? hhandler]
    exact fun hended => hrunning (Option.some.inj hended)
  have hn : s.id? n = some h.id := by rw [State.id?, hhandler, Option.map_some]
  rw [hI.distinct m n h.id (Or.inr ht) huse hm hn]

theorem Owned.removeHandlerThread_eq (hI : Owned s) (hhandler : s.handlers[n]? = some h)
    (hstage : h.stage = .responded) :
    ∃ l₁ l₂, s.runningHandlerThreads = l₁ ++ some n :: l₂ ∧
      s.removeHandlerThread n h.id
        = { s with
            runningHandlerThreads := l₁ ++ l₂
            log := .destroyed none :: .detached n (some n) :: s.log } := by
  have hrunning : h.stage ≠ .ended := by
    rw [hstage]
    decide
  have hpresent : some n ∈ s.runningHandlerThreads :=
    hI.present n (Or.inr (by rw [stage?_of_getElem? hhandler, hstage]))
  -- its own entry has the id, and no other entry can have it
  have hown : s.getId (some n) = some h.id := by
    show s.id? n = some h.id
    rw [State.id?, hhandler, Option.map_some]
  obtain ⟨t, l₁, l₂, -, hid, hsplit, herase⟩ :=
    List.exists_of_eraseP (p := fun t => s.getId t = some h.id) hpresent (decide_eq_true hown)
  have ht : t ∈ s.runningHandlerThreads := by
    rw [hsplit]
    exact List.mem_append_right _ (List.mem_cons_self ..)
  obtain rfl := hI.entry_eq hhandler hrunning ht (of_decide_eq_true hid)
  refine ⟨l₁, l₂, hsplit, ?_⟩
  unfold State.removeHandlerThread
  cases hfind : s.runningHandlerThreads.find? fun t => s.getId t = some h.id with
  | none => exact absurd (decide_eq_true hown) (List.find?_eq_none.mp hfind _ hpresent)
  | some t =>
    obtain rfl := hI.entry_eq hhandler hrunning (List.mem_of_find?_eq_some hfind)
      (of_decide_eq_true
        (List.find?_some (p := fun t => s.getId t = some h.id) hfind))
    rw [← herase]

theorem Owned.removed (hI : Owned s) (hhandler : s.handlers[n]? = some h)
    (hstage : h.stage = .responded) :
    Owned ((s.removeHandlerThread n h.id).setStage n .leaving) := by
  obtain ⟨l₁, l₂, hsplit, heq⟩ := hI.removeHandlerThread_eq hhandler hstage
  have hn : s.stage? n = some .responded := by rw [stage?_of_getElem? hhandler, hstage]
  rw [heq]
  set s' : State := { s with
    runningHandlerThreads := l₁ ++ l₂
    log := .destroyed none :: .detached n (some n) :: s.log } with hs'
  have hmem : ∀ m, some m ∈ l₁ ++ l₂ → some m ∈ s.runningHandlerThreads := by
    intro m hm
    rw [hsplit]
    exact (List.sublist_cons_self ..).append_left l₁ |>.mem hm
  have huse : ∀ m, (s'.setStage n .leaving).InUse m → s.InUse m := by
    intro m hm
    have hm' : s'.InUse m := inUse_of_setStage (s := s') (x := .responded) hn (by decide) hm
    exact hm'.imp_right (hmem m)
  -- the other threads stay where they are
  have hother : ∀ m x, x ≠ .leaving → (s'.setStage n .leaving).stage? m = some x →
      n ≠ m ∧ s.stage? m = some x := by
    intro m x hx hm
    rw [stage?_setStage] at hm
    by_cases hnm : n = m
    · subst hnm
      rw [if_pos rfl] at hm
      obtain ⟨_, -, hleaving⟩ := Option.map_eq_some_iff.mp hm
      exact absurd hleaving.symm hx
    · rw [if_neg hnm] at hm
      exact ⟨hnm, hm⟩
  constructor
  · intro m
    have hcount := hI.conserved m
    have hlength : (s'.setStage n .leaving).handlers.length = s.handlers.length :=
      List.length_modify ..
    have hthreads : s.runningHandlerThreads.count (some m)
        = (l₁ ++ l₂).count (some m) + if n = m then 1 else 0 := by
      rw [hsplit, List.count_append, List.count_cons, List.count_append, Nat.add_assoc]
      simp
    have hlog : (s'.setStage n .leaving).log.countP (Event.releases m)
        = s.log.countP (Event.releases m) + if n = m then 1 else 0 := countP_releases_removed
    rw [hlength, hlog]
    show _ + (l₁ ++ l₂).count (some m) = _
    omega
  · intro m k id hm hk hmid hkid
    rw [id?_setStage] at hmid hkid
    exact hI.distinct m k id (huse m hm) (huse k hk) hmid hkid
  · intro m hm
    have hm' : n ≠ m ∧ (s.stage? m = some .handling ∨ s.stage? m = some .responded) := by
      rcases hm with hm | hm
      · exact ⟨(hother m _ (by decide) hm).1, Or.inl (hother m _ (by decide) hm).2⟩
      · exact ⟨(hother m _ (by decide) hm).1, Or.inr (hother m _ (by decide) hm).2⟩
    have hpresent := hI.present m hm'.2
    show some m ∈ l₁ ++ l₂
    rw [hsplit] at hpresent
    rcases List.mem_append.mp hpresent with hm | hm
    · exact List.mem_append_left _ hm
    · rcases List.mem_cons.mp hm with heq | hm
      · exact absurd (Option.some.inj heq).symm hm'.1
      · exact List.mem_append_right _ hm
  · intro m hm
    have hsent := hI.sent m (hother m _ (by decide) hm).2
    exact List.mem_cons_of_mem _ (List.mem_cons_of_mem _ hsent)
  · exact ⟨⟨rfl, hI.sent n hn⟩, hI.lawful⟩

/-! ## `main` joins and returns -/

/-- The entry of a thread that has ended is joined. -/
theorem Owned.joined (hI : Owned s) {i : ℕ} {main : Main}
    (hentry : s.runningHandlerThreads[i]? = some (some n)) (hended : s.stage? n = some .ended) :
    Owned { s with
      main := main
      runningHandlerThreads := s.runningHandlerThreads.set i none
      log := .joined n :: s.log } := by
  obtain ⟨hi, hget⟩ := List.getElem?_eq_some_iff.mp hentry
  -- one entry of thread `n` less
  have hcount : ∀ m, (s.runningHandlerThreads.set i none).count (some m)
      = s.runningHandlerThreads.count (some m) - if n = m then 1 else 0 := by
    intro m
    rw [List.count_set hi, hget]
    simp
  constructor
  · intro m
    have hconserved := hI.conserved m
    have hlog : (Event.joined n :: s.log).countP (Event.releases m)
        = s.log.countP (Event.releases m) + if n = m then 1 else 0 := countP_releases_joined
    have hpos : 0 < s.runningHandlerThreads.count (some n) :=
      List.count_pos_iff.mpr (List.mem_of_getElem? hentry)
    have hset := hcount m
    show (Event.joined n :: s.log).countP _ + (s.runningHandlerThreads.set i none).count _
      = if m < s.handlers.length then 1 else 0
    rw [← hconserved]
    by_cases hnm : n = m
    · subst hnm
      rw [if_pos rfl] at hlog hset
      omega
    · rw [if_neg hnm] at hlog hset
      omega
  · intro m k id hm hk hmid hkid
    have huse : ∀ m, some m ∈ s.runningHandlerThreads.set i none →
        some m ∈ s.runningHandlerThreads := by
      intro m hm
      rcases List.mem_or_eq_of_mem_set hm with hm | hm
      · exact hm
      · cases hm
    exact hI.distinct m k id (hm.imp_right (huse m)) (hk.imp_right (huse k)) hmid hkid
  · intro m hm
    -- a thread that has ended has no work left
    have hnm : n ≠ m := by
      rintro rfl
      have hm' : s.stage? n = some .handling ∨ s.stage? n = some .responded := hm
      rw [hended] at hm'
      rcases hm' with h | h <;> cases h
    have hpresent := hI.present m hm
    show some m ∈ s.runningHandlerThreads.set i none
    rw [← List.count_pos_iff, hcount, if_neg hnm]
    exact List.count_pos_iff.mpr hpresent
  · exact fun m hm => List.mem_cons_of_mem _ (hI.sent m hm)
  · exact hI.lawful

/-- The list is destroyed when no entry represents a thread any more. -/
theorem Owned.returned (hI : Owned s) (hnone : ∀ t ∈ s.runningHandlerThreads, t = none)
    {main : Main} :
    Owned { s with
      main := main
      runningHandlerThreads := []
      log := s.runningHandlerThreads.map .destroyed ++ s.log } := by
  have habsent : ∀ m, some m ∉ s.runningHandlerThreads := fun m hm => by cases hnone _ hm
  have hlawful : ∀ l : List Thread, Lawful (l.map .destroyed ++ s.log) := by
    intro l
    induction l with
    | nil => exact hI.lawful
    | cons t l ih => exact ih
  constructor
  · intro m
    have hconserved := hI.conserved m
    -- empty entries release nobody
    have hlog : (s.runningHandlerThreads.map Event.destroyed).countP (Event.releases m) = 0 := by
      rw [List.countP_map, List.countP_eq_zero]
      exact fun t _ => Bool.false_ne_true
    rw [List.count_eq_zero_of_not_mem (habsent m)] at hconserved
    show (s.runningHandlerThreads.map Event.destroyed ++ s.log).countP _ + 0 = _
    rw [List.countP_append, hlog, Nat.zero_add]
    exact hconserved
  · intro m k id hm hk hmid hkid
    have huse : ∀ m, s.stage? m ≠ some .ended ∨ some m ∈ ([] : List Thread) → s.InUse m :=
      fun m h => h.imp_right (absurd · List.not_mem_nil)
    exact hI.distinct m k id (huse m hm) (huse k hk) hmid hkid
  · exact fun m hm => absurd (hI.present m hm) (habsent m)
  · exact fun m hm => List.mem_append_right _ (hI.sent m hm)
  · exact hlawful _

/-! ## The phases of `main` -/

/-- What has happened before `main` is where it is. -/
def Phase (s : State) : Prop :=
  match s.main with
  | .serving | .listenerShutDown => True
  | .listenerJoined => s.listener = .ended
  | .joining i =>
    (s.listener = .ended ∧ s.removeHandlerThreadsOnCompletion = false) ∧
      ∀ t ∈ s.runningHandlerThreads.take i, t = none
  | .joined | .returned =>
    (s.listener = .ended ∧ s.removeHandlerThreadsOnCompletion = false) ∧
      ∀ t ∈ s.runningHandlerThreads, t = none

/-- While the listener runs `main` has not come to the list. -/
theorem Phase.of_listener (h : Phase s) (hlistener : s.listener ≠ .ended)
    (hmain : s'.main = s.main) : Phase s' := by
  unfold Phase at h ⊢
  rw [hmain]
  cases hphase : s.main with
  | serving | listenerShutDown => trivial
  | listenerJoined =>
    rw [hphase] at h
    exact absurd h hlistener
  | joining | joined | returned =>
    rw [hphase] at h
    exact absurd h.1.1 hlistener

/-- While the flag is set `main` has not come to the list. -/
theorem Phase.of_flag (h : Phase s) (hflag : s.removeHandlerThreadsOnCompletion = true)
    (hmain : s'.main = s.main) (hlistener : s'.listener = s.listener) : Phase s' := by
  unfold Phase at h ⊢
  rw [hmain, hlistener]
  cases hphase : s.main with
  | serving | listenerShutDown => trivial
  | listenerJoined =>
    rw [hphase] at h
    exact h
  | joining | joined | returned =>
    rw [hphase] at h
    have hclear := h.1.2
    rw [hflag] at hclear
    cases hclear

/-- The invariant of the program. -/
structure Inv (s : State) : Prop where
  owned : Owned s
  phase : Phase s
  destroyed : ∀ t, .destroyed t ∈ s.log → t = none

theorem Phase.main (h : Phase s) (hmove : Move s .main s') : Phase s' := by
  unfold Phase at h ⊢
  cases hmove with
  | quit hmain => trivial
  | listenerJoined hmain hlistener => exact hlistener
  | flagCleared hmain =>
    rw [hmain] at h
    exact ⟨⟨h, rfl⟩, fun t ht => by cases ht⟩
  | @skipped i hmain hentry =>
    rw [hmain] at h
    refine ⟨h.1, fun t ht => ?_⟩
    have ht' : t ∈ s.runningHandlerThreads.take (i + 1) := ht
    -- the entry was empty before
    rw [List.take_add_one, hentry, List.mem_append] at ht'
    rcases ht' with ht' | ht'
    · exact h.2 t ht'
    · exact List.mem_singleton.mp ht'
  | @joined i n hmain hentry hended =>
    rw [hmain] at h
    refine ⟨h.1, fun t ht => ?_⟩
    have ht' : t ∈ (s.runningHandlerThreads.set i none).take (i + 1) := ht
    have hi := (List.getElem?_eq_some_iff.mp hentry).1
    rw [List.take_add_one, List.take_set_of_le (le_refl i), List.getElem?_set_self hi,
      List.mem_append] at ht'
    rcases ht' with ht' | ht'
    · exact h.2 t ht'
    · exact List.mem_singleton.mp ht'
  | loopLeft hmain hentry =>
    rw [hmain] at h
    refine ⟨h.1, ?_⟩
    -- the loop has come to the end of the list
    have htake := h.2
    rwa [List.take_of_length_le (List.getElem?_eq_none_iff.mp hentry)] at htake
  | returned hmain =>
    rw [hmain] at h
    exact ⟨h.1, fun t ht => by cases ht⟩

theorem inv_initial : Inv initial where
  owned := owned_initial
  phase := trivial
  destroyed := fun t h => by cases h

/-- **Every step keeps the invariant.** -/
theorem Inv.move (hI : Inv s) (hmove : Move s a s') : Inv s' := by
  obtain ⟨howned, hphase, hdestroyed⟩ := hI
  -- an event that destroys nothing
  have hcons : ∀ e : Event, (∀ t, e ≠ .destroyed t) →
      ∀ t, .destroyed t ∈ e :: s.log → t = none := by
    intro e he t ht
    rcases List.mem_cons.mp ht with heq | ht
    · exact absurd heq.symm (he t)
    · exact hdestroyed t ht
  cases hmove with
  | quit hmain => exact ⟨howned.congr rfl rfl rfl, hphase.main (.quit hmain), hdestroyed⟩
  | listenerJoined hmain hlistener =>
    exact ⟨howned.congr rfl rfl rfl, hphase.main (.listenerJoined hmain hlistener), hdestroyed⟩
  | flagCleared hmain =>
    exact ⟨howned.congr rfl rfl rfl, hphase.main (.flagCleared hmain), hdestroyed⟩
  | skipped hmain hentry =>
    exact ⟨howned.congr rfl rfl rfl, hphase.main (.skipped hmain hentry), hdestroyed⟩
  | joined hmain hentry hended =>
    exact ⟨howned.joined hentry hended, hphase.main (.joined hmain hentry hended),
      hcons _ fun t => Event.noConfusion⟩
  | loopLeft hmain hentry =>
    exact ⟨howned.congr rfl rfl rfl, hphase.main (.loopLeft hmain hentry), hdestroyed⟩
  | returned hmain =>
    have hnone : ∀ t ∈ s.runningHandlerThreads, t = none := by
      have h := hphase
      unfold Phase at h
      rw [hmain] at h
      exact h.2
    refine ⟨howned.returned hnone, hphase.main (.returned hmain), fun t ht => ?_⟩
    rcases List.mem_append.mp ht with ht | ht
    · obtain ⟨t', ht', heq⟩ := List.mem_map.mp ht
      rw [← Event.destroyed.inj heq]
      exact hnone t' ht'
    · exact hdestroyed t ht
  | accepted hlistener =>
    exact ⟨howned.congr rfl rfl rfl, hphase.of_listener (by rw [hlistener]; decide) rfl, hdestroyed⟩
  | acceptFailed hlistener => exact ⟨howned, hphase, hdestroyed⟩
  | closed hlistener hlistening =>
    exact ⟨howned.congr rfl rfl rfl, hphase.of_listener (by rw [hlistener]; decide) rfl, hdestroyed⟩
  | started hlistener hfresh =>
    exact ⟨howned.started hfresh, hphase.of_listener (by rw [hlistener]; decide) rfl, hdestroyed⟩
  -- the response is recorded before the stage in which the thread may detach itself
  | @responded n hstage =>
    refine ⟨?_, hphase, hcons _ fun t => Event.noConfusion⟩
    exact (howned.record_sent (n := n)).setStage (y := .responded) hstage (by decide) (by decide)
      fun _ => ⟨rfl, List.mem_cons_self ..⟩
  | refused hstage =>
    exact ⟨(howned.setStage (y := .leaving) hstage (by decide) (by decide)
      fun h => by cases h).record_sent, hphase,
      hcons _ fun t => Event.noConfusion⟩
  | failed hstage =>
    exact ⟨howned.setStage hstage (by decide) (by decide) (fun h => by cases h), hphase, hdestroyed⟩
  | removed hhandler hstage hflag =>
    obtain ⟨l₁, l₂, -, heq⟩ := howned.removeHandlerThread_eq hhandler hstage
    refine ⟨howned.removed hhandler hstage, ?_, ?_⟩
    · rw [heq]
      exact hphase.of_flag hflag rfl rfl
    · rw [heq]
      intro t ht
      rcases List.mem_cons.mp ht with hnone | ht
      · exact Event.destroyed.inj hnone
      · exact hcons _ (fun t => Event.noConfusion) t ht
  | kept hstage hflag =>
    exact ⟨howned.setStage hstage (by decide) (by decide) (fun h => by cases h), hphase, hdestroyed⟩
  | finished hstage =>
    exact ⟨howned.setStage hstage (by decide) (by decide) (fun h => by cases h), hphase, hdestroyed⟩

theorem reaches_inv (hrun : Reaches step anyStep initial s) : Inv s :=
  hrun.invariant inv_initial fun _ _ _ hI _ hstep => hI.move (step_cases hstep)

/-! ## The shutdown -/

/-- The handler thread `n` was released once: `main` has joined it, or it has detached its own
entry of the list after it had sent its response. -/
def ReleasedOnce (log : List Event) (n : ℕ) : Prop :=
  ∃ later e earlier, log = later ++ e :: earlier ∧
    (e = .joined n ∨ e = .detached n (some n) ∧ .sent n ∈ earlier) ∧
    ∀ e' ∈ later ++ earlier, e'.releases n = false

theorem Lawful.of_append {l : List Event} (h : Lawful (l ++ log)) : Lawful log := by
  induction l with
  | nil => exact h
  | cons e l ih =>
    cases e with
    | detached => exact ih h.2
    | sent | joined | destroyed => exact ih h

theorem releasedOnce_of_count (hlawful : Lawful log)
    (hcount : log.countP (Event.releases n) = 1) : ReleasedOnce log n := by
  have hpos : 0 < log.countP (Event.releases n) := by omega
  obtain ⟨e, he, hreleases⟩ := List.countP_pos_iff.mp hpos
  obtain ⟨later, earlier, rfl⟩ := List.append_of_mem he
  refine ⟨later, e, earlier, rfl, ?_, fun e' he' => ?_⟩
  · have hsuffix := hlawful.of_append
    cases e with
    | joined m =>
      rw [show m = n from of_decide_eq_true hreleases]
      exact Or.inl rfl
    | detached m entry =>
      obtain ⟨⟨rfl, hsent⟩, -⟩ := hsuffix
      have hmn : some m = some n := of_decide_eq_true hreleases
      rw [Option.some.inj hmn] at hsent ⊢
      exact Or.inr ⟨rfl, hsent⟩
    | sent | destroyed => cases hreleases
  · rw [List.countP_append, List.countP_cons_of_pos hreleases] at hcount
    have hzero : (later ++ earlier).countP (Event.releases n) = 0 := by
      rw [List.countP_append]
      omega
    exact (Bool.not_eq_true _).mp (List.countP_eq_zero.mp hzero e' he')

/-- The step of `main` that joins the thread at `i`. -/
def JoinsAt (s s' : State) (i : ℕ) : Prop :=
  ∃ n, s.runningHandlerThreads[i]? = some (some n) ∧
    s'.runningHandlerThreads = s.runningHandlerThreads.set i none

/-- While `main` is in the join loop no entry is added or erased. -/
theorem Inv.entries_kept (hI : Inv s) {i : ℕ} (hmain : s.main = .joining i) (hmove : Move s a s') :
    s'.runningHandlerThreads = s.runningHandlerThreads ∨ a = .main ∧ JoinsAt s s' i := by
  have hphase := hI.phase
  unfold Phase at hphase
  rw [hmain] at hphase
  obtain ⟨⟨hended, hclear⟩, -⟩ := hphase
  cases hmove with
  | joined hmain' hentry =>
    rw [hmain] at hmain'
    obtain rfl := Main.joining.inj hmain'
    exact Or.inr ⟨rfl, _, hentry, rfl⟩
  | returned hmain' =>
    rw [hmain] at hmain'
    cases hmain'
  | started hlistener =>
    rw [hended] at hlistener
    cases hlistener
  | removed _ _ hflag =>
    rw [hclear] at hflag
    cases hflag
  | _ => exact Or.inl rfl

/-- **The shutdown.** When `main` leaves the join loop every handler thread was released once,
while `main` is in the loop no entry is added or erased, and no object of the list is destroyed
while it is joinable. -/
theorem handlers_released_once (s : State) (hrun : Reaches step anyStep initial s) :
    (s.main = .joined → ∀ n < s.handlers.length, ReleasedOnce s.log n) ∧
      (∀ i, s.main = .joining i → ∀ a s', step s a = some s' →
        s'.runningHandlerThreads = s.runningHandlerThreads ∨ a = .main ∧ JoinsAt s s' i) ∧
      ∀ t, .destroyed t ∈ s.log → t = none := by
  have hI := reaches_inv hrun
  refine ⟨fun hmain n hn => ?_, fun i hmain a s' hstep => hI.entries_kept hmain (step_cases hstep),
    hI.destroyed⟩
  have hphase := hI.phase
  unfold Phase at hphase
  rw [hmain] at hphase
  have habsent : some n ∉ s.runningHandlerThreads := fun hmem => by cases hphase.2 _ hmem
  have hcount := hI.owned.conserved n
  rw [List.count_eq_zero_of_not_mem habsent, if_pos hn] at hcount
  exact releasedOnce_of_count hI.owned.lawful hcount

/-- Two connections, of which the second sends no request, and the shutdown. -/
def exampleRun : List Action :=
  [.accept true, .start 7, .accept true, .handle 0 .completed, .start 8, .complete 0,
    .handle 1 .refused, .main, .finish 0, .close, .main, .main, .finish 1, .main, .main]

/-- The state in which that run ends. -/
def exampleJoined : State where
  main := .joined
  listening := false
  listener := .ended
  removeHandlerThreadsOnCompletion := false
  runningHandlerThreads := [none]
  handlers := [⟨7, .ended⟩, ⟨8, .ended⟩]
  log := [.joined 1, .sent 1, .destroyed none, .detached 0 (some 0), .sent 0]

theorem example_released_once :
    ReleasedOnce exampleJoined.log 0 ∧ ReleasedOnce exampleJoined.log 1 := by
  have hrun : Reaches step anyStep initial exampleJoined :=
    .of_foldlM (l := exampleRun) (by decide)
  have hreleased := (handlers_released_once exampleJoined hrun).1 rfl
  exact ⟨hreleased 0 (by decide), hreleased 1 (by decide)⟩

end HandlerThreads

end Rechnernetze.Http
