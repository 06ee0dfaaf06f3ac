import Mathlib.Data.List.Basic

/-!
# Order-preserving lossy channels

A channel is the list of the messages in flight, the oldest first: the sender appends at
the end, the receiver takes the head. A channel that keeps the order of what it delivers
may still lose a message, repeat one in place or damage one; `Fault` names these three
faults, and delay is the absence of a delivery.

`Segmented P Q` is the shape that survives all of them: a prefix of messages that satisfy
`P`, then a suffix of messages that satisfy `Q`. Protocols whose sender moves from one
message to the next have channels of this shape (copies of the old message, then copies
of the new one). `inFlight` counts what is under way in both directions of a link.
-/

namespace Rechnernetze.Lib

variable {α : Type*}

/-- A fault of a channel that keeps the order of its messages. -/
inductive Fault (α : Type*) where
  /-- Message `i` disappears. -/
  | lose (i : ℕ)
  /-- Message `i` is delivered twice in a row. -/
  | duplicate (i : ℕ)
  /-- Message `i` becomes `a`. -/
  | damage (i : ℕ) (a : α)
deriving DecidableEq

namespace Fault

/-- The channel contents after the fault; a position past the end changes nothing. -/
def apply : Fault α → List α → List α
  | lose i, l => l.eraseIdx i
  | duplicate i, l => l.take (i + 1) ++ l.drop i
  | damage i a, l => l.set i a

theorem apply_nil (f : Fault α) : f.apply [] = [] := by
  cases f <;> simp [apply]

/-- The same fault of the channel with one more message in front. -/
def behind : Fault α → Fault α
  | lose i => lose (i + 1)
  | duplicate i => duplicate (i + 1)
  | damage i a => damage (i + 1) a

theorem apply_behind (f : Fault α) (a : α) (l : List α) :
    f.behind.apply (a :: l) = a :: f.apply l := by
  cases f <;> simp [behind, apply]

/-- What a fault puts into the channel satisfies `N`. -/
def Yields (N : α → Prop) : Fault α → Prop
  | damage _ a => N a
  | _ => True

instance (N : α → Prop) [DecidablePred N] (f : Fault α) : Decidable (f.Yields N) := by
  cases f <;> unfold Yields <;> infer_instance

theorem yields_behind {f : Fault α} {N : α → Prop} : f.behind.Yields N ↔ f.Yields N := by
  cases f <;> exact Iff.rfl

/-- A fault adds no message but the damaged one. -/
theorem forall_mem_apply {f : Fault α} {l : List α} {P : α → Prop} (hf : f.Yields P)
    (h : ∀ a ∈ l, P a) : ∀ a ∈ f.apply l, P a := by
  intro a ha
  cases f with
  | lose i => exact h a (List.mem_of_mem_eraseIdx ha)
  | duplicate i =>
    rcases List.mem_append.mp ha with h' | h'
    · exact h a (List.mem_of_mem_take h')
    · exact h a (List.mem_of_mem_drop h')
  | damage i b =>
    rcases List.mem_or_eq_of_mem_set ha with h' | rfl
    · exact h a h'
    · exact hf

/-- How many messages the fault adds. -/
def added (f : Fault α) (l : List α) : ℕ := (f.apply l).length - l.length

/-- How many messages the fault removes. -/
def removed (f : Fault α) (l : List α) : ℕ := l.length - (f.apply l).length

theorem length_apply (f : Fault α) (l : List α) :
    (f.apply l).length + f.removed l = l.length + f.added l := by
  unfold added removed
  omega

theorem length_apply_le (f : Fault α) (l : List α) :
    (f.apply l).length ≤ l.length + f.added l := by
  have hlength := f.length_apply l
  omega

/-- Nor does it add more copies of a message that damage does not produce. -/
theorem count_apply_le [DecidableEq α] {a : α} {f : Fault α} (hf : f.Yields (· ≠ a)) (l : List α) :
    (f.apply l).count a ≤ l.count a + f.added l := by
  cases f with
  | lose i =>
    exact Nat.le_add_right_of_le ((List.eraseIdx_sublist l i).count_le a)
  | duplicate i =>
    have hsplit : l.count a = (l.take i).count a + (l.drop i).count a := by
      rw [← List.count_append, List.take_append_drop]
    have hone : (l[i]?.toList).count a ≤ (l[i]?.toList).length := List.count_le_length
    have hlength : (l.take i ++ l[i]?.toList ++ l.drop i).length
        = l.length + (l[i]?.toList).length := by
      rw [List.length_append, List.length_append, List.length_take, List.length_drop]
      cases hi : l[i]? with
      | none =>
        have hle : l.length ≤ i := List.getElem?_eq_none_iff.mp hi
        simp only [Option.toList_none, List.length_nil]
        omega
      | some b =>
        have hlt : i < l.length := (List.getElem?_eq_some_iff.mp hi).1
        simp only [Option.toList_some, List.length_singleton]
        omega
    rw [added, apply, List.take_add_one, hlength, List.count_append, List.count_append]
    omega
  | damage i b =>
    have hb : b ≠ a := hf
    clear hf
    refine Nat.le_add_right_of_le ?_
    rw [apply]
    induction l generalizing i with
    | nil => exact Nat.le_refl _
    | cons c l ih =>
      cases i with
      | zero =>
        rw [List.set_cons_zero, List.count_cons_of_ne hb]
        exact List.count_le_count_cons
      | succ i =>
        rw [List.set_cons_succ, List.count_cons, List.count_cons]
        exact Nat.add_le_add_right (ih i) _

end Fault

/-- A prefix of `P`s, then a suffix of `Q`s. -/
def Segmented (P Q : α → Prop) (l : List α) : Prop :=
  ∃ pre post, l = pre ++ post ∧ (∀ a ∈ pre, P a) ∧ ∀ a ∈ post, Q a

namespace Segmented
variable {P Q P' Q' : α → Prop} {l : List α} {a : α}

theorem of_forall_left (h : ∀ a ∈ l, P a) : Segmented P Q l :=
  ⟨l, [], (List.append_nil l).symm, h, by simp⟩

theorem of_forall_right (h : ∀ a ∈ l, Q a) : Segmented P Q l :=
  ⟨[], l, rfl, by simp, h⟩

theorem nil : Segmented P Q ([] : List α) := of_forall_left (by simp)

/-- Every message satisfies one of the two predicates. -/
theorem forall_mem (h : Segmented P Q l) : ∀ a ∈ l, P a ∨ Q a := by
  obtain ⟨pre, post, rfl, h1, h2⟩ := h
  intro a ha
  rcases List.mem_append.mp ha with h' | h'
  · exact Or.inl (h1 a h')
  · exact Or.inr (h2 a h')

/-- Sending messages of the second kind. -/
theorem append {l' : List α} (h : Segmented P Q l) (h' : ∀ a ∈ l', Q a) :
    Segmented P Q (l ++ l') := by
  obtain ⟨pre, post, rfl, h1, h2⟩ := h
  refine ⟨pre, post ++ l', List.append_assoc .., h1, fun b hb => ?_⟩
  rcases List.mem_append.mp hb with hb' | hb'
  · exact h2 b hb'
  · exact h' b hb'

theorem append_right (h : Segmented P Q l) (ha : Q a) : Segmented P Q (l ++ [a]) := by
  refine h.append fun b hb => ?_
  rw [List.mem_singleton.mp hb]
  exact ha

/-- Delivering the oldest message. -/
theorem tail (h : Segmented P Q (a :: l)) : Segmented P Q l := by
  obtain ⟨pre, post, hl, h1, h2⟩ := h
  cases pre with
  | nil =>
    obtain rfl : post = a :: l := hl.symm
    exact of_forall_right fun b hb => h2 b (List.mem_cons_of_mem _ hb)
  | cons c pre =>
    obtain ⟨rfl, rfl⟩ := List.cons.inj hl
    exact ⟨pre, post, rfl, fun b hb => h1 b (List.mem_cons_of_mem _ hb), h2⟩

/-- Once the oldest message is not of the first kind, none is: order is kept. -/
theorem forall_of_head (h : Segmented P Q (a :: l)) (ha : ¬ P a) : ∀ b ∈ a :: l, Q b := by
  obtain ⟨pre, post, hl, h1, h2⟩ := h
  cases pre with
  | nil => rw [hl]; exact h2
  | cons c pre =>
    obtain ⟨rfl, rfl⟩ := List.cons.inj hl
    exact absurd (h1 _ (List.mem_cons_self ..)) ha

/-- **Faults keep the shape**, as long as a damaged message fits both segments. -/
theorem fault {f : Fault α} (h : Segmented P Q l) (hP : f.Yields P) (hQ : f.Yields Q) :
    Segmented P Q (f.apply l) := by
  obtain ⟨pre, post, rfl, h1, h2⟩ := h
  cases f with
  | lose i =>
    -- the message is lost from one of the two segments
    have key : (Fault.lose i).apply (pre ++ post)
        = if i < pre.length then (Fault.lose i).apply pre ++ post
          else pre ++ (Fault.lose (i - pre.length)).apply post := by
      simp only [Fault.apply, List.eraseIdx_append]
    rw [key]
    split
    · exact ⟨_, _, rfl, Fault.forall_mem_apply hP h1, h2⟩
    · exact ⟨_, _, rfl, h1, Fault.forall_mem_apply (f := .lose _) trivial h2⟩
  | duplicate i =>
    by_cases hi : i < pre.length
    · -- the repeated message lies in the first segment
      have key : (Fault.duplicate i).apply (pre ++ post)
          = (Fault.duplicate i).apply pre ++ post := by
        simp only [Fault.apply]
        rw [List.take_append_of_le_length (by omega), List.drop_append_of_le_length (by omega),
          List.append_assoc]
      rw [key]
      exact ⟨_, _, rfl, Fault.forall_mem_apply hP h1, h2⟩
    · have key : (Fault.duplicate i).apply (pre ++ post)
          = pre ++ (Fault.duplicate (i - pre.length)).apply post := by
        simp only [Fault.apply]
        rw [List.take_append, List.drop_append, List.take_of_length_le (by omega),
          List.drop_eq_nil_of_le (by omega), show i + 1 - pre.length = i - pre.length + 1 by omega,
          List.nil_append, List.append_assoc]
      rw [key]
      exact ⟨_, _, rfl, h1, Fault.forall_mem_apply (f := .duplicate _) trivial h2⟩
  | damage i b =>
    have key : (Fault.damage i b).apply (pre ++ post)
        = if i < pre.length then (Fault.damage i b).apply pre ++ post
          else pre ++ (Fault.damage (i - pre.length) b).apply post := by
      simp only [Fault.apply, List.set_append]
    rw [key]
    split
    · exact ⟨_, _, rfl, Fault.forall_mem_apply hP h1, h2⟩
    · exact ⟨_, _, rfl, h1, Fault.forall_mem_apply (f := .damage _ b) hQ h2⟩

end Segmented

/-! ## Counting what is under way -/

section InFlight
variable {β : Type*} {P P' : α → Bool} {Q Q' : β → Bool} {fwd : List α} {bwd answers : List β}
  {a : α} {b : β}

/-- How many of the messages under way there and back satisfy `P` and `Q`. -/
def inFlight (P : α → Bool) (Q : β → Bool) (fwd : List α) (bwd : List β) : ℕ :=
  fwd.countP P + bwd.countP Q

theorem inFlight_send : inFlight P Q (fwd ++ [a]) bwd ≤ inFlight P Q fwd bwd + 1 := by
  simp only [inFlight, List.countP_append, List.countP_singleton]
  split <;> omega

theorem inFlight_send_of_neg (ha : P a = false) :
    inFlight P Q (fwd ++ [a]) bwd = inFlight P Q fwd bwd := by
  simp [inFlight, ha]

/-- A message that counts is taken from the way back. -/
theorem inFlight_receive (hb : Q b = true) :
    inFlight P Q fwd (b :: bwd) = inFlight P Q fwd bwd + 1 := by
  rw [inFlight, inFlight, List.countP_cons_of_pos hb]
  omega

/-- **A receiver that answers each message at most once adds nothing**, as long as it answers
what does not count with what does not count. -/
theorem inFlight_answer (hone : answers.length ≤ 1)
    (hquiet : P a = false → ∀ b ∈ answers, Q b = false) :
    inFlight P Q fwd (bwd ++ answers) ≤ inFlight P Q (a :: fwd) bwd := by
  have hle : answers.countP Q ≤ 1 := Nat.le_trans (List.countP_le_length ..) hone
  simp only [inFlight, List.countP_append, List.countP_cons]
  cases ha : P a with
  | true =>
    simp only [if_true]
    omega
  | false =>
    have hzero : answers.countP Q = 0 := by
      rw [List.countP_eq_zero]
      intro b hb
      rw [hquiet ha b hb]
      decide
    omega

theorem inFlight_mono (hP : ∀ a, P a = true → P' a = true) (hQ : ∀ b, Q b = true → Q' b = true) :
    inFlight P Q fwd bwd ≤ inFlight P' Q' fwd bwd :=
  Nat.add_le_add (List.countP_mono_left fun a _ => hP a) (List.countP_mono_left fun b _ => hQ b)

/-- Nothing under way counts. -/
theorem inFlight_eq_zero (hP : ∀ a ∈ fwd, P a = false) (hQ : ∀ b ∈ bwd, Q b = false) :
    inFlight P Q fwd bwd = 0 := by
  have hfwd : fwd.countP P = 0 := by
    rw [List.countP_eq_zero]
    intro a ha
    rw [hP a ha]
    decide
  have hbwd : bwd.countP Q = 0 := by
    rw [List.countP_eq_zero]
    intro b hb
    rw [hQ b hb]
    decide
  rw [inFlight, hfwd, hbwd]

end InFlight

end Rechnernetze.Lib
