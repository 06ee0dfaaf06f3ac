import Rechnernetze.Lib.LossyFifo

/-!
# Stop-and-wait transfer over order-preserving lossy channels

A sender transfers messages number `0, 1, 2, …`: it repeats message `p` until it takes an
acknowledgement of it and then moves to message `p + 1`. A receiver that has accepted the
messages below `r` accepts message `r` and acknowledges it; it may acknowledge message
`r - 1` again. The channel in each direction keeps the order of what it delivers and may
lose, repeat and damage it.

What the messages are is left open. `data k a` says that `a` is a copy of message `k`,
`ack k b` that `b` acknowledges message `k`; `noise` and `nack` are everything else that
may be under way in the two directions (damaged messages, refusals). `LinkInv p r fwd bwd`
is what holds at every moment, and the rules below say how each step of the two parties
and each fault keeps it. `LinkInv.accept` and `LinkInv.advance` are where the two parties
learn something: an accepted message is the expected one, an acknowledgement the sender
moves on was sent for the message it repeats.
-/

namespace Rechnernetze.Lib

/-- `a` belongs to message `p - 1`. -/
def Previous {α : Type*} (data : ℕ → α → Prop) (p : ℕ) (a : α) : Prop :=
  ∃ k, k + 1 = p ∧ data k a

section StopAndWait
variable {α β : Type*} (data : ℕ → α → Prop) (noise : α → Prop)
  (ack : ℕ → β → Prop) (nack : β → Prop)

/-- The sender repeats message `p`, the receiver has accepted the messages below `r`, and
`fwd`, `bwd` are the messages under way. Either the receiver still waits for message `p`:
copies of message `p - 1` may precede those of message `p`, and nothing acknowledges
message `p`. Or it has accepted message `p`: only copies of it are under way, and
acknowledgements of message `p - 1` may precede those of message `p`. -/
inductive LinkInv : ℕ → ℕ → List α → List β → Prop
  | waiting {p : ℕ} {fwd : List α} {bwd : List β}
      (hfwd : Segmented (fun a => noise a ∨ Previous data p a) (fun a => noise a ∨ data p a) fwd)
      (hbwd : ∀ b ∈ bwd, nack b ∨ Previous ack p b) : LinkInv p p fwd bwd
  | accepted {p : ℕ} {fwd : List α} {bwd : List β}
      (hfwd : ∀ a ∈ fwd, noise a ∨ data p a)
      (hbwd : Segmented (fun b => nack b ∨ Previous ack p b) (fun b => nack b ∨ ack p b) bwd) :
      LinkInv p (p + 1) fwd bwd

namespace LinkInv
variable {data noise ack nack} {p r : ℕ} {fwd : List α} {bwd : List β} {a : α} {b : β}

theorem init : LinkInv data noise ack nack 0 0 [] [] := .waiting .nil (by simp)

/-- The receiver is never ahead of the sender by more than one message. -/
theorem le_and_le (h : LinkInv data noise ack nack p r fwd bwd) : p ≤ r ∧ r ≤ p + 1 := by
  cases h <;> omega

/-- The sender repeats its message. -/
theorem send (h : LinkInv data noise ack nack p r fwd bwd) (ha : data p a) :
    LinkInv data noise ack nack p r (fwd ++ [a]) bwd := by
  cases h with
  | waiting hfwd hbwd => exact .waiting (hfwd.append_right (Or.inr ha)) hbwd
  | accepted hfwd hbwd =>
    refine .accepted (fun c hc => ?_) hbwd
    rcases List.mem_append.mp hc with h' | h'
    · exact hfwd c h'
    · rw [List.mem_singleton.mp h']; exact Or.inr ha

/-- A fault on the way to the receiver. -/
theorem fault_fwd {f : Fault α} (h : LinkInv data noise ack nack p r fwd bwd)
    (hf : f.Yields noise) : LinkInv data noise ack nack p r (f.apply fwd) bwd := by
  have hor : ∀ Q : α → Prop, f.Yields fun a => noise a ∨ Q a := by
    intro Q
    cases f with
    | damage i c => exact Or.inl hf
    | _ => trivial
  cases h with
  | waiting hfwd hbwd => exact .waiting (hfwd.fault (hor _) (hor _)) hbwd
  | accepted hfwd hbwd => exact .accepted (Fault.forall_mem_apply (hor _) hfwd) hbwd

/-- A fault on the way back to the sender. -/
theorem fault_bwd {f : Fault β} (h : LinkInv data noise ack nack p r fwd bwd)
    (hf : f.Yields nack) : LinkInv data noise ack nack p r fwd (f.apply bwd) := by
  have hor : ∀ Q : β → Prop, f.Yields fun b => nack b ∨ Q b := by
    intro Q
    cases f with
    | damage i c => exact Or.inl hf
    | _ => trivial
  cases h with
  | waiting hfwd hbwd => exact .waiting hfwd (Fault.forall_mem_apply (hor _) hbwd)
  | accepted hfwd hbwd => exact .accepted hfwd (hbwd.fault (hor _) (hor _))

/-- Everything under way to the receiver. -/
theorem forall_fwd (h : LinkInv data noise ack nack p r fwd bwd) :
    ∀ a ∈ fwd, noise a ∨ ∃ k, data k a := by
  intro a ha
  cases h with
  | waiting hfwd hbwd =>
    rcases hfwd.forall_mem a ha with (h' | ⟨k, -, h'⟩) | (h' | h')
    · exact Or.inl h'
    · exact Or.inr ⟨k, h'⟩
    · exact Or.inl h'
    · exact Or.inr ⟨_, h'⟩
  | accepted hfwd hbwd => exact (hfwd a ha).imp_right fun h' => ⟨_, h'⟩

/-- Only the message that is repeated and the one before it are under way. -/
theorem recent_fwd (h : LinkInv data noise ack nack p r fwd bwd) :
    ∀ a ∈ fwd, noise a ∨ Previous data p a ∨ data p a := by
  intro a ha
  cases h with
  | waiting hfwd hbwd =>
    rcases hfwd.forall_mem a ha with (h' | h') | (h' | h')
    · exact Or.inl h'
    · exact Or.inr (Or.inl h')
    · exact Or.inl h'
    · exact Or.inr (Or.inr h')
  | accepted hfwd hbwd => exact (hfwd a ha).imp_right Or.inr

/-- What the receiver can be handed. -/
theorem head_fwd (h : LinkInv data noise ack nack p r (a :: fwd) bwd) :
    noise a ∨ Previous data r a ∨ data r a := by
  cases h with
  | waiting hfwd hbwd =>
    rcases hfwd.forall_mem a (List.mem_cons_self ..) with (h' | h') | (h' | h')
    · exact Or.inl h'
    · exact Or.inr (Or.inl h')
    · exact Or.inl h'
    · exact Or.inr (Or.inr h')
  | accepted hfwd hbwd =>
    rcases hfwd a (List.mem_cons_self ..) with h' | h'
    · exact Or.inl h'
    · exact Or.inr (Or.inl ⟨p, rfl, h'⟩)

/-- The receiver is handed a message. -/
theorem tail_fwd (h : LinkInv data noise ack nack p r (a :: fwd) bwd) :
    LinkInv data noise ack nack p r fwd bwd := by
  cases h with
  | waiting hfwd hbwd => exact .waiting hfwd.tail hbwd
  | accepted hfwd hbwd =>
    exact .accepted (fun c hc => hfwd c (List.mem_cons_of_mem _ hc)) hbwd

/-- The sender is handed an answer. -/
theorem tail_bwd (h : LinkInv data noise ack nack p r fwd (b :: bwd)) :
    LinkInv data noise ack nack p r fwd bwd := by
  cases h with
  | waiting hfwd hbwd =>
    exact .waiting hfwd fun c hc => hbwd c (List.mem_cons_of_mem _ hc)
  | accepted hfwd hbwd => exact .accepted hfwd hbwd.tail

/-- The receiver sends something that acknowledges no message. -/
theorem reply_nack (h : LinkInv data noise ack nack p r fwd bwd) (hb : nack b) :
    LinkInv data noise ack nack p r fwd (bwd ++ [b]) := by
  cases h with
  | waiting hfwd hbwd =>
    refine .waiting hfwd fun c hc => ?_
    rcases List.mem_append.mp hc with h' | h'
    · exact hbwd c h'
    · rw [List.mem_singleton.mp h']; exact Or.inl hb
  | accepted hfwd hbwd => exact .accepted hfwd (hbwd.append_right (Or.inl hb))

/-- The receiver acknowledges again the last message it has accepted. -/
theorem reply_previous (h : LinkInv data noise ack nack p r fwd bwd) (hb : Previous ack r b) :
    LinkInv data noise ack nack p r fwd (bwd ++ [b]) := by
  cases h with
  | waiting hfwd hbwd =>
    refine .waiting hfwd fun c hc => ?_
    rcases List.mem_append.mp hc with h' | h'
    · exact hbwd c h'
    · rw [List.mem_singleton.mp h']; exact Or.inr hb
  | accepted hfwd hbwd =>
    obtain ⟨k, hk, hb⟩ := hb
    obtain rfl : k = p := by omega
    exact .accepted hfwd (hbwd.append_right (Or.inr hb))

/-- **The receiver accepts a message.** If it can tell the message from noise and from a
copy of the last one, then it is the message the sender repeats. -/
theorem accept (h : LinkInv data noise ack nack p r (a :: fwd) bwd)
    (ha : ¬ (noise a ∨ Previous data r a)) (hb : ack r b) :
    LinkInv data noise ack nack p (r + 1) fwd (bwd ++ [b]) := by
  cases h with
  | waiting hfwd hbwd =>
    refine .accepted (fun c hc => ?_) ?_
    -- the head is new, so no copy of the message before can follow it
    · exact hfwd.forall_of_head ha c (List.mem_cons_of_mem _ hc)
    · exact (Segmented.of_forall_left hbwd).append_right (Or.inr hb)
  | accepted hfwd hbwd =>
    refine absurd ?_ ha
    rcases hfwd a (List.mem_cons_self ..) with h' | h'
    · exact Or.inl h'
    · exact Or.inr ⟨p, rfl, h'⟩

/-- **The sender moves on.** If it can tell the answer from a refusal and from an
acknowledgement of the message before, then the receiver has accepted its message. -/
theorem advance (h : LinkInv data noise ack nack p r fwd (b :: bwd))
    (hb : ¬ (nack b ∨ Previous ack p b)) :
    r = p + 1 ∧ LinkInv data noise ack nack (p + 1) r fwd bwd := by
  cases h with
  | waiting hfwd hbwd => exact absurd (hbwd b (List.mem_cons_self ..)) hb
  | accepted hfwd hbwd =>
    -- what belonged to message `p` belongs to the previous message from now on
    refine ⟨rfl, .waiting (Segmented.of_forall_left fun c hc => ?_) fun c hc => ?_⟩
    · exact (hfwd c hc).imp_right fun h' => ⟨p, rfl, h'⟩
    · exact (hbwd.forall_of_head hb c (List.mem_cons_of_mem _ hc)).imp_right fun h' => ⟨p, rfl, h'⟩

/-- **An answer under way** that is neither a refusal nor an acknowledgement of the message before:
it acknowledges the message that is repeated, and the receiver has accepted that. -/
theorem acknowledged (h : LinkInv data noise ack nack p r fwd bwd) (hmem : b ∈ bwd)
    (hb : ¬ (nack b ∨ Previous ack p b)) : r = p + 1 ∧ ack p b := by
  cases h with
  | waiting hfwd hbwd => exact absurd (hbwd b hmem) hb
  | accepted hfwd hbwd =>
    refine ⟨rfl, ?_⟩
    rcases hbwd.forall_mem b hmem with h' | h' | h'
    · exact absurd h' hb
    · exact absurd (Or.inl h') hb
    · exact h'

end LinkInv

end StopAndWait

/-! ## Counting copies -/

section Copies
variable {α : Type*} [DecidableEq α] (data : ℕ → α)

/-- How many copies of message `p - 1` are under way. -/
def stale : ℕ → List α → ℕ
  | 0, _ => 0
  | k + 1, fwd => fwd.count (data k)

/-- The sender repeats message `p`, the receiver has accepted the messages below `r`, and `pending`
is 1 if the next copy of message `p` is due. Of the copies that have reached the receiver
`duplicates` were counted as such, and `extra` counts what the sender has sent beyond the first
copy of each message and what the channel has repeated. As long as the receiver waits for message
`p`, whose first copy is accepted, the copies of message `p - 1` are extra copies already. -/
structure Copies (p r pending : ℕ) (fwd : List α) (duplicates extra : ℕ) : Prop where
  total : duplicates + fwd.length + r + pending ≤ p + 1 + extra
  waiting : r = p → duplicates + stale data p fwd ≤ extra

namespace Copies
variable {data} {p r pending pending' duplicates duplicates' extra r' : ℕ} {fwd : List α} {a : α}

theorem stale_le_length (data : ℕ → α) (p : ℕ) (fwd : List α) :
    stale data p fwd ≤ fwd.length := by
  cases p with
  | zero => exact Nat.zero_le _
  | succ k => exact List.count_le_length

theorem stale_tail_le (data : ℕ → α) (p : ℕ) (fwd : List α) (a : α) :
    stale data p fwd ≤ stale data p (a :: fwd) := by
  cases p with
  | zero => exact Nat.le_refl _
  | succ k => exact List.count_le_count_cons

theorem init : Copies data 0 0 1 [] 0 0 := ⟨Nat.le_refl _, fun _ => Nat.le_refl _⟩

/-- **No duplicate without an extra copy.** -/
theorem duplicates_le (h : Copies data p r pending fwd duplicates extra) (hle : p ≤ r) :
    duplicates ≤ extra := by
  obtain ⟨htotal, hwaiting⟩ := h
  rcases Nat.lt_or_eq_of_le hle with hlt | rfl
  · omega
  · exact Nat.le_trans (Nat.le_add_right ..) (hwaiting rfl)

/-- The sender has sent what was due. -/
theorem send (h : Copies data p r 1 fwd duplicates extra)
    (hnew : ∀ k, k + 1 = p → data p ≠ data k) :
    Copies data p r 0 (fwd ++ [data p]) duplicates extra := by
  refine ⟨?_, fun hr => ?_⟩
  · have htotal := h.total
    rw [List.length_append, List.length_singleton]
    omega
  · have hwaiting := h.waiting hr
    cases p with
    | zero => exact hwaiting
    | succ k =>
      have hcount : [data (k + 1)].count (data k) = 0 := by
        rw [List.count_eq_zero, List.mem_singleton]
        exact (hnew k rfl).symm
      rw [stale, List.count_append, hcount]
      exact hwaiting

/-- Nothing is due any more. -/
theorem silent (h : Copies data p r pending fwd duplicates extra) (hle : pending' ≤ pending) :
    Copies data p r pending' fwd duplicates extra :=
  ⟨Nat.le_trans (by omega) h.total, h.waiting⟩

/-- The sender is to send its message once more. -/
theorem again (h : Copies data p r pending fwd duplicates extra) (hle : pending' ≤ pending + 1) :
    Copies data p r pending' fwd duplicates (extra + 1) := by
  obtain ⟨htotal, hwaiting⟩ := h
  exact ⟨by omega, fun hr => Nat.le_succ_of_le (hwaiting hr)⟩

/-- The sender moves on, now that its message has been accepted. -/
theorem advance (h : Copies data p (p + 1) pending fwd duplicates extra) (hle : pending' ≤ 1) :
    Copies data (p + 1) (p + 1) pending' fwd duplicates extra := by
  have htotal := h.total
  have hstale := stale_le_length data (p + 1) fwd
  exact ⟨by omega, fun _ => by omega⟩

/-- The receiver takes a message that it does not count as a duplicate. -/
theorem take (h : Copies data p r pending (a :: fwd) duplicates extra) (hp : p ≤ r)
    (hr : r' ≤ p + 1) (hle : duplicates' ≤ duplicates) :
    Copies data p r' pending fwd duplicates' extra := by
  obtain ⟨htotal, hwaiting⟩ := h
  have hlength := stale_le_length data p fwd
  have htail := stale_tail_le data p fwd a
  rw [List.length_cons] at htotal
  refine ⟨by omega, fun hr' => ?_⟩
  rcases Nat.lt_or_eq_of_le hp with hlt | heq
  · omega
  · have hstale := hwaiting heq.symm
    omega

/-- The receiver takes a duplicate. -/
theorem takeAgain (h : Copies data p r pending (a :: fwd) duplicates extra)
    (ha : r = p → ∃ k, k + 1 = p ∧ a = data k) (hle : duplicates' ≤ duplicates + 1) :
    Copies data p r pending fwd duplicates' extra := by
  obtain ⟨htotal, hwaiting⟩ := h
  rw [List.length_cons] at htotal
  refine ⟨by omega, fun hr => ?_⟩
  obtain ⟨k, rfl, rfl⟩ := ha hr
  have hstale := hwaiting hr
  rw [stale, List.count_cons_self] at hstale
  rw [stale]
  omega

/-- The channel repeats, loses or damages. -/
theorem fault {f : Fault α} (h : Copies data p r pending fwd duplicates extra)
    (hf : ∀ k, f.Yields (· ≠ data k)) :
    Copies data p r pending (f.apply fwd) duplicates (extra + f.added fwd) := by
  obtain ⟨htotal, hwaiting⟩ := h
  have hlength := f.length_apply_le fwd
  refine ⟨by omega, fun hr => ?_⟩
  have hbefore := hwaiting hr
  cases p with
  | zero => exact Nat.le_add_right_of_le hbefore
  | succ k =>
    have hcount := Fault.count_apply_le (hf k) fwd
    rw [stale] at hbefore ⊢
    omega

end Copies

end Copies

end Rechnernetze.Lib
