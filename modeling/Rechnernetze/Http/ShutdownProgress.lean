import Mathlib.Data.Fintype.EquivFin
import Rechnernetze.Http.Shutdown

/-!
# The shutdown comes to its end

Once `main` has shut the listener down and no connection is accepted any more, every step of
`main`, the listener or a handler thread takes the program nearer to its end (`Move.left_lt`), and
as long as `main` has not returned there is one that can be taken, unless `main` waits for a handler
thread whose request never comes to an end: `recv` and the opening of a pipe have no timeout, and
nothing shuts an accepted socket down (`exists_step`). So the shutdown ends after a bounded number
of steps, and `main` has returned by then if there is no such handler thread
(`shutdown_completes`).
-/

namespace Rechnernetze.Http

open Lib

namespace HandlerThreads

/-! ## The steps that are left -/

/-- The steps a handler thread still takes. -/
def Stage.left : Stage → ℕ
  | .handling => 3
  | .responded => 2
  | .leaving => 1
  | .ended => 0

/-- The steps `main` still takes when there are `n` entries in the list. -/
def Main.left (n : ℕ) : Main → ℕ
  | .serving => n + 5
  | .listenerShutDown => n + 4
  | .listenerJoined => n + 3
  | .joining i => n - i + 2
  | .joined => 1
  | .returned => 0

/-- The steps the listener still takes, and those of the handler thread it is about to start and of
`main` for its entry. -/
def Listener.left : Listener → ℕ
  | .accepting => 1
  | .accepted => 6
  | .ended => 0

def stagesLeft (handlers : List Handler) : ℕ := (handlers.map fun h => h.stage.left).sum

def State.left (s : State) : ℕ :=
  s.main.left s.runningHandlerThreads.length + s.listener.left + stagesLeft s.handlers

/-- No connection is accepted, and the requests of the `endless` handler threads do not come to
an end. -/
def Action.Quiet (endless : ℕ → Prop) : Action → Prop
  | .accept _ => False
  | .handle n _ => ¬ endless n
  | _ => True

section
variable {s s' : State} {a : Action} {n m : ℕ} {x y : Stage} {endless : ℕ → Prop}

theorem Main.left_mono {main : Main} (h : m ≤ n) : main.left m ≤ main.left n := by
  cases main <;> simp only [Main.left] <;> omega

theorem stagesLeft_modify {handlers : List Handler}
    (hstage : (handlers[n]?).map Handler.stage = some x) :
    stagesLeft (handlers.modify n fun h => { h with stage := y }) + x.left
      = stagesLeft handlers + y.left := by
  unfold stagesLeft
  induction handlers generalizing n with
  | nil => cases hstage
  | cons h handlers ih =>
    cases n with
    | zero =>
      obtain rfl : h.stage = x := Option.some.inj hstage
      rw [List.modify_zero_cons, List.map_cons, List.map_cons, List.sum_cons, List.sum_cons]
      show y.left + (handlers.map fun h => h.stage.left).sum + h.stage.left = _
      omega
    | succ n =>
      have hrest := ih (n := n) hstage
      rw [List.modify_succ_cons, List.map_cons, List.map_cons, List.sum_cons, List.sum_cons]
      omega

/-- A handler thread goes on. -/
theorem left_setStage_lt (hstage : s.stage? n = some x) (hlt : y.left < x.left) :
    (s.setStage n y).left < s.left := by
  have hsum := stagesLeft_modify (y := y) hstage
  show s.main.left s.runningHandlerThreads.length + s.listener.left
    + stagesLeft (s.handlers.modify n fun h => { h with stage := y }) < _
  rw [State.left]
  omega

/-- The removal of an entry leaves no more to do. -/
theorem left_removeHandlerThread_le {id : ThreadId} :
    (s.removeHandlerThread n id).left ≤ s.left := by
  unfold State.removeHandlerThread
  split
  · exact Nat.le_refl _
  · have hlength := (List.eraseP_sublist (p := fun t => s.getId t = some id)
      (l := s.runningHandlerThreads)).length_le
    have hmain : s.main.left _ ≤ s.main.left _ := Main.left_mono hlength
    unfold State.left
    dsimp only
    omega

theorem stage?_removeHandlerThread {id : ThreadId} :
    (s.removeHandlerThread n id).stage? m = s.stage? m := by
  unfold State.removeHandlerThread
  split
  · rfl
  · rfl

/-- **Every step but an accept** leaves less to do. -/
theorem Move.left_lt (h : Move s a s') (hquiet : a.Quiet endless) : s'.left < s.left := by
  cases h with
  | quit hmain =>
    simp only [State.left, hmain, Main.left]
    omega
  | listenerJoined hmain =>
    simp only [State.left, hmain, Main.left]
    omega
  | flagCleared hmain =>
    simp only [State.left, hmain, Main.left]
    omega
  | skipped hmain hentry =>
    have hlt := (List.getElem?_eq_some_iff.mp hentry).1
    simp only [State.left, hmain, Main.left]
    omega
  | joined hmain hentry =>
    have hlt := (List.getElem?_eq_some_iff.mp hentry).1
    simp only [State.left, hmain, Main.left, List.length_set]
    omega
  | loopLeft hmain =>
    simp only [State.left, hmain, Main.left]
    omega
  | returned hmain =>
    simp only [State.left, hmain, Main.left]
    omega
  -- these two are no quiet steps
  | accepted => exact hquiet.elim
  | acceptFailed => exact hquiet.elim
  | closed hlistener =>
    simp only [State.left, hlistener, Listener.left]
    omega
  | started hlistener =>
    -- the new entry may have to be joined, which the step of the listener pays for
    have hmain : s.main.left (s.runningHandlerThreads.length + 1)
        ≤ s.main.left s.runningHandlerThreads.length + 1 := by
      cases s.main <;> simp only [Main.left] <;> omega
    simp only [State.left, stagesLeft, hlistener, Listener.left, List.length_append,
      List.length_singleton, List.map_append, List.map_singleton, List.sum_append,
      List.sum_singleton, Stage.left]
    omega
  | responded hstage => exact left_setStage_lt hstage (by decide)
  | refused hstage => exact left_setStage_lt hstage (by decide)
  | failed hstage => exact left_setStage_lt hstage (by decide)
  | @removed n h hhandler hstage =>
    refine Nat.lt_of_lt_of_le (left_setStage_lt (x := .responded) ?_ (by decide))
      left_removeHandlerThread_le
    rw [stage?_removeHandlerThread, stage?_of_getElem? hhandler, hstage]
  | kept hstage => exact left_setStage_lt hstage (by decide)
  | finished hstage => exact left_setStage_lt hstage (by decide)

/-! ## There is a step to take -/

/-- The socket is shut down when `main` no longer serves. -/
def ShutDown (s : State) : Prop := s.main ≠ .serving → s.listening = false

theorem ShutDown.move (h : ShutDown s) (hmove : Move s a s') : ShutDown s' := by
  cases hmove with
  | quit => exact fun _ => rfl
  | listenerJoined hmain | flagCleared hmain | skipped hmain | joined hmain | loopLeft hmain
  | returned hmain => exact fun _ => h (by rw [hmain]; nofun)
  | removed hhandler =>
    unfold State.removeHandlerThread
    split
    · exact h
    · exact h
  | _ => exact h

theorem exists_fresh (s : State) : ∃ id, s.Fresh id := by
  -- the handlers have finitely many ids
  obtain ⟨id, hid⟩ := Infinite.exists_notMem_finset (s.handlers.map Handler.id).toFinset
  refine ⟨id, fun n _ _ hn => hid ?_⟩
  obtain ⟨h, hhandler, rfl⟩ := Option.map_eq_some_iff.mp hn
  rw [List.mem_toFinset]
  exact List.mem_map_of_mem (List.mem_of_getElem? hhandler)

/-- An entry of the list represents a thread that has been started. -/
theorem Owned.lt_of_entry (hI : Owned s) (hentry : some n ∈ s.runningHandlerThreads) :
    n < s.handlers.length := by
  have hcount := hI.conserved n
  have hpos := List.count_pos_iff.mpr hentry
  split at hcount
  · assumption
  · omega

/-- A handler thread that has not ended can go on once its request comes to an end. -/
theorem exists_handler_step (hstage : s.stage? n = some x) (hx : x ≠ .ended)
    (hends : x = .handling → ¬ endless n) : ∃ a : Action, a.Quiet endless ∧ (step s a).isSome := by
  cases x with
  | handling =>
    refine ⟨.handle n .completed, hends rfl, ?_⟩
    rw [step, if_pos hstage]
    rfl
  | responded =>
    obtain ⟨h, hhandler, hresponded⟩ := Option.map_eq_some_iff.mp hstage
    refine ⟨.complete n, trivial, ?_⟩
    simp only [step, hhandler, Option.bind_some, if_pos hresponded, Option.isSome_some]
  | leaving =>
    refine ⟨.finish n, trivial, ?_⟩
    rw [step, if_pos hstage]
    rfl
  | ended => exact absurd rfl hx

/-- **Nobody waits in vain** but for a request that never comes to an end. -/
theorem exists_step (hI : Owned s) (hshut : ShutDown s) (hquit : s.main ≠ .serving)
    (hreturned : s.main ≠ .returned) (hends : ∀ n, endless n → s.stage? n ≠ some .handling) :
    ∃ a : Action, a.Quiet endless ∧ (step s a).isSome := by
  cases hmain : s.main with
  | serving => exact absurd hmain hquit
  | listenerShutDown =>
    -- `main` waits for the listener, which goes on as its socket is shut down
    cases hlistener : s.listener with
    | accepting =>
      refine ⟨.close, trivial, ?_⟩
      rw [step, if_pos ⟨hlistener, hshut hquit⟩]
      rfl
    | accepted =>
      obtain ⟨id, hfresh⟩ := exists_fresh s
      refine ⟨.start id, trivial, ?_⟩
      rw [step, if_pos ⟨hlistener, hfresh⟩]
      rfl
    | ended =>
      refine ⟨.main, trivial, ?_⟩
      simp only [step, mainStep, hmain, hlistener, if_true, Option.isSome_some]
  | listenerJoined =>
    refine ⟨.main, trivial, ?_⟩
    simp only [step, mainStep, hmain, Option.isSome_some]
  | joining i =>
    cases hentry : s.runningHandlerThreads[i]? with
    | none =>
      refine ⟨.main, trivial, ?_⟩
      simp only [step, mainStep, hmain, hentry, Option.isSome_some]
    | some t =>
      cases t with
      | none =>
        refine ⟨.main, trivial, ?_⟩
        simp only [step, mainStep, hmain, hentry, Option.isSome_some]
      | some n =>
        -- the join waits for a thread that has been started
        have hn := hI.lt_of_entry (List.mem_of_getElem? hentry)
        have hstage : s.stage? n = some (s.handlers[n]).stage :=
          stage?_of_getElem? (List.getElem?_eq_getElem hn)
        by_cases hended : (s.handlers[n]).stage = .ended
        · refine ⟨.main, trivial, ?_⟩
          rw [hended] at hstage
          simp only [step, mainStep, hmain, hentry, hstage, if_true, Option.isSome_some]
        · refine exists_handler_step hstage hended fun hhandling hendless => ?_
          exact hends n hendless (by rw [hstage, hhandling])
  | joined =>
    refine ⟨.main, trivial, ?_⟩
    simp only [step, mainStep, hmain, Option.isSome_some]
  | returned => exact absurd hmain hreturned

/-- When `main` has returned no handler thread is busy with its request. -/
theorem Inv.not_handling (hI : Inv s) (hreturned : s.main = .returned) :
    s.stage? n ≠ some .handling := by
  intro hhandling
  have hphase := hI.phase
  unfold Phase at hphase
  rw [hreturned] at hphase
  cases hphase.2 _ (hI.owned.present n (Or.inl hhandling))

/-- `main` never serves again. -/
theorem quit_of_reaches (hrun : Reaches step anyStep s s') (hquit : s.main ≠ .serving) :
    s'.main ≠ .serving := by
  refine hrun.invariant (I := fun u => u.main ≠ .serving) hquit fun u a u' hu _ hstep => ?_
  cases step_cases hstep with
  | quit | listenerJoined | flagCleared | skipped | joined | loopLeft | returned => nofun
  | removed =>
    unfold State.removeHandlerThread
    split
    · exact hu
    · exact hu
  | _ => exact hu

end

/-- **The shutdown completes.** Once `main` has shut the listener down, as many steps as are left
can be taken at most without another connection. When none can be taken any more, `main` has
returned exactly if it does not wait for a request that never comes to an end. -/
theorem shutdown_completes (endless : ℕ → Prop) (s t : State) (l : List Action)
    (hrun : Reaches step anyStep initial s) (hquit : s.main ≠ .serving)
    (hquiet : ∀ a ∈ l, a.Quiet endless) (ht : l.foldlM step s = some t) :
    l.length ≤ s.left ∧
      ((∀ a : Action, a.Quiet endless → step t a = none) →
        (t.main = .returned ↔ ∀ n, endless n → t.stage? n ≠ some .handling)) := by
  refine ⟨?_, fun hstuck => ?_⟩
  · -- the bound: every quiet step lowers what is left
    have hlowers : ∀ s a u, Action.Quiet endless a → step s a = some u → u.left < s.left :=
      fun _ _ _ hq hstep => (step_cases hstep).left_lt hq
    have hle := length_add_le_of_lowers hlowers hquiet ht
    omega
  · have hon : Reaches step anyStep s t := .of_foldlM ht
    have hI := reaches_inv (hrun.trans hon)
    have hshut : ShutDown t := (hrun.trans hon).invariant (fun h => absurd rfl h)
      fun _ _ _ h _ hstep => h.move (step_cases hstep)
    constructor
    · exact fun hreturned n _ => hI.not_handling hreturned
    · intro hends
      -- otherwise there would be a step to take
      by_contra hreturned
      obtain ⟨a, ha, hsome⟩ :=
        exists_step hI.owned hshut (quit_of_reaches hon hquit) hreturned hends
      rw [hstuck a ha] at hsome
      cases hsome

/-- Two connections, of which the second sends nothing, when `main` has just read the `q`. -/
def exampleQuit : State where
  main := .listenerShutDown
  listening := false
  listener := .accepting
  removeHandlerThreadsOnCompletion := true
  runningHandlerThreads := [some 1]
  handlers := [⟨7, .leaving⟩, ⟨8, .handling⟩]
  log := [.destroyed none, .detached 0 (some 0), .sent 0]

/-- The state in which `main` waits for the second handler thread. -/
def exampleWaiting : State where
  main := .joining 0
  listening := false
  listener := .ended
  removeHandlerThreadsOnCompletion := false
  runningHandlerThreads := [some 1]
  handlers := [⟨7, .ended⟩, ⟨8, .handling⟩]
  log := [.destroyed none, .detached 0 (some 0), .sent 0]

theorem example_shutdown_completes :
    [Action.close, .main, .finish 0, .main].length ≤ exampleQuit.left ∧
      exampleWaiting.main ≠ .returned := by
  have hrun : Reaches step anyStep initial exampleQuit :=
    .of_foldlM (l := [.accept true, .start 7, .accept true, .handle 0 .completed, .start 8,
      .complete 0, .main]) (by decide)
  have hends := shutdown_completes (fun n => n = 1) exampleQuit exampleWaiting
    [.close, .main, .finish 0, .main] hrun (by decide)
    (by simp [Action.Quiet]) (by decide)
  refine ⟨hends.1, fun hreturned => ?_⟩
  have hstuck : ∀ a : Action, a.Quiet (fun n => n = 1) → step exampleWaiting a = none := by
    intro a ha
    cases a with
    | main | close => rfl
    | accept => exact ha.elim
    | start id => rfl
    | handle n ending =>
      have hn : n ≠ 1 := ha
      rcases n with _ | _ | n
      · rfl
      · exact absurd rfl hn
      · rfl
    | complete n | finish n =>
      rcases n with _ | _ | n
      · rfl
      · rfl
      · rfl
  exact (hends.2 hstuck).mp hreturned 1 rfl rfl

end HandlerThreads

end Rechnernetze.Http
