import Rechnernetze.Http.ConnectionTheorems

/-!
# Every result of `recv`

`receive_bytes` keeps the result of `recv` in a `size_t`. So a -1 is the largest number there is:
as many bytes are to be inserted, and the test for an error after the loop never succeeds. And
the last three bytes are compared without asking whether there are three
(`safe_reception_iff`).
-/

namespace Rechnernetze.Http

open Lib

namespace RecvResult

/-- The result as the `size_t` it is stored in. -/
def size : RecvResult → ℕ
  | .error => toSizeT (-1)
  | .bytes data => data.length

/-- The bytes `recv` reports. -/
def data : RecvResult → Bytes
  | .error => []
  | .bytes data => data

end RecvResult

namespace Connection

/-- A turn of the loop of `receive_bytes`: `result_buffer` before it, and what `recv` gives. -/
structure ReceiveTurn where
  before : Bytes
  result : RecvResult

namespace ReceiveTurn

def after (t : ReceiveTurn) : Bytes := t.before ++ t.result.data

/-- The range inserted is what `recv` reports. -/
def InsertsData (t : ReceiveTurn) : Prop := t.result.size = t.result.data.length

/-- `result_buffer.end() - 3`, if the loop gets to it, lies in the buffer. -/
def LooksInside (t : ReceiveTurn) : Prop := 0 < t.result.size → 3 ≤ t.after.length

/-- The loop goes on after the turn. -/
def GoesOn (t : ReceiveTurn) : Prop :=
  0 < t.result.size ∧ t.after.drop (t.after.length - 3) = crlf ++ crlf

instance (t : ReceiveTurn) : Decidable t.InsertsData := by unfold InsertsData; infer_instance

instance (t : ReceiveTurn) : Decidable t.LooksInside := by unfold LooksInside; infer_instance

instance (t : ReceiveTurn) : Decidable t.GoesOn := by unfold GoesOn; infer_instance

end ReceiveTurn

/-- The turns of the loop, up to the first that leaves the language. -/
def receiveTurns (resultBuffer : Bytes) : List RecvResult → List ReceiveTurn
  | [] => []
  | result :: rest =>
    let t : ReceiveTurn := ⟨resultBuffer, result⟩
    t :: if t.InsertsData ∧ t.LooksInside ∧ t.GoesOn then receiveTurns t.after rest else []

/-- `if (size < 0)`, after the loop. -/
def reportsError (recvs : List RecvResult) : Bool :=
  (receiveTurns [] recvs).getLast?.any fun t => t.result.size < toSizeT 0

/-- What is promised of a reception. -/
structure SafeReception (recvs : List RecvResult) : Prop where
  inserted : ∀ t ∈ receiveTurns [] recvs, t.InsertsData
  lookBack : ∀ t ∈ receiveTurns [] recvs, t.LooksInside
  reported : (∃ t ∈ receiveTurns [] recvs, t.result = .error) → reportsError recvs = true

section
variable {resultBuffer b data : Bytes} {recvs : List RecvResult}

theorem not_insertsData_error : ¬ ReceiveTurn.InsertsData ⟨resultBuffer, .error⟩ := by
  show ¬ toSizeT (-1) = 0
  decide

/-- The last turn. -/
theorem receiveTurns_last {result : RecvResult}
    (h : ¬ ((⟨resultBuffer, result⟩ : ReceiveTurn).InsertsData ∧
      (⟨resultBuffer, result⟩ : ReceiveTurn).LooksInside ∧
      (⟨resultBuffer, result⟩ : ReceiveTurn).GoesOn)) :
    receiveTurns resultBuffer (result :: recvs) = [⟨resultBuffer, result⟩] := by
  rw [receiveTurns, if_neg h]

/-- The loop is defined as far as its turns are, and collects what they insert. -/
theorem receiveLoop_eq_ok_iff :
    receiveLoop resultBuffer recvs = .ok b ↔
      (∀ t ∈ receiveTurns resultBuffer recvs, t.InsertsData ∧ t.LooksInside) ∧
        b = resultBuffer
          ++ ((receiveTurns resultBuffer recvs).map fun t => t.result.data).flatten := by
  induction recvs generalizing resultBuffer with
  | nil =>
    rw [receiveLoop, receiveTurns, List.map_nil, List.flatten_nil, List.append_nil]
    exact ⟨fun h => ⟨List.forall_mem_nil _, (Except.ok.inj h).symm⟩,
      fun h => congrArg _ h.2.symm⟩
  | cons result recvs ih =>
    cases result with
    | error =>
      rw [receiveLoop, receiveTurns_last fun h => not_insertsData_error h.1]
      refine iff_of_false (fun h => ?_) fun h =>
        not_insertsData_error (h.1 _ (List.mem_singleton_self _)).1
      cases h
    | bytes data =>
      set t : ReceiveTurn := ⟨resultBuffer, .bytes data⟩ with ht
      have hinserts : t.InsertsData := rfl
      have hafter : t.after = resultBuffer ++ data := rfl
      -- what is left to show where the loop ends with this turn
      have hlast : t.LooksInside →
          ((.ok (resultBuffer ++ data) : Except ReceiveFault Bytes) = .ok b ↔
            (∀ t' ∈ [t], t'.InsertsData ∧ t'.LooksInside) ∧
              b = resultBuffer ++ ([t].map fun t => t.result.data).flatten) := by
        intro hlooks
        have hdata : resultBuffer ++ ([t].map fun t => t.result.data).flatten
            = resultBuffer ++ data := congrArg _ (List.append_nil data)
        rw [hdata]
        refine ⟨fun h => ⟨fun t' ht' => ?_, (Except.ok.inj h).symm⟩, fun h => congrArg _ h.2.symm⟩
        rw [List.mem_singleton.mp ht']
        exact ⟨hinserts, hlooks⟩
      rw [receiveLoop]
      split
      · -- the peer has closed its side
        rename_i hzero
        have hstop : ¬ t.GoesOn := fun h => absurd hzero (Nat.ne_of_gt h.1)
        rw [receiveTurns_last fun h => hstop h.2.2]
        exact hlast fun hpos => absurd hzero (Nat.ne_of_gt hpos)
      · rename_i hne
        split
        · rename_i hshort
          -- the comparison looks in front of the buffer
          have houtside : ¬ t.LooksInside :=
            fun h => absurd (h (Nat.pos_of_ne_zero hne)) (Nat.not_le.mpr hshort)
          rw [receiveTurns_last fun h => houtside h.2.1]
          refine iff_of_false (fun h => ?_) fun h =>
            houtside (h.1 _ (List.mem_singleton_self _)).2
          cases h
        · rename_i hlong
          have hlooks : t.LooksInside := fun _ => Nat.not_lt.mp hlong
          split
          · rename_i htail
            have hgoes : t.GoesOn := ⟨Nat.pos_of_ne_zero hne, htail⟩
            rw [ih, receiveTurns, if_pos ⟨hinserts, hlooks, hgoes⟩, List.forall_mem_cons,
              and_iff_right (show t.InsertsData ∧ t.LooksInside from ⟨hinserts, hlooks⟩),
              List.map_cons, List.flatten_cons, ← List.append_assoc]
            rfl
          · rename_i htail
            have hstop : ¬ t.GoesOn := fun h => htail h.2
            rw [receiveTurns_last fun h => hstop h.2.2]
            exact hlast hlooks

/-- Three characters are compared with four, so the loop never goes on. -/
theorem not_goesOn (t : ReceiveTurn) : ¬ t.GoesOn := by
  intro h
  have hlength := congrArg List.length h.2
  have hfour : (crlf ++ crlf).length = 4 := rfl
  rw [List.length_drop, hfour] at hlength
  omega

theorem receiveTurns_cons {result : RecvResult} :
    receiveTurns resultBuffer (result :: recvs) = [⟨resultBuffer, result⟩] :=
  receiveTurns_last fun h => not_goesOn _ h.2.2

theorem looksInside_first_iff :
    (⟨[], .bytes data⟩ : ReceiveTurn).LooksInside ↔ data = [] ∨ 3 ≤ data.length := by
  show (0 < data.length → 3 ≤ data.length) ↔ _
  rw [← List.length_eq_zero_iff]
  omega

end

/-- **Reception is safe** exactly if nothing is received, or at least three bytes first. -/
theorem safe_reception_iff (recvs : List RecvResult) :
    SafeReception recvs ↔ ∀ result, recvs.head? = some result →
      ∃ data, result = .bytes data ∧ (data = [] ∨ 3 ≤ data.length) := by
  cases recvs with
  | nil =>
    have hsafe : SafeReception [] := ⟨nofun, nofun, fun ⟨_, h, _⟩ => nomatch h⟩
    exact ⟨fun _ => nofun, fun _ => hsafe⟩
  | cons result recvs =>
    have hmem : ∀ t, t ∈ receiveTurns [] (result :: recvs) ↔ t = ⟨[], result⟩ := by
      intro t
      rw [receiveTurns_cons, List.mem_singleton]
    constructor
    · intro h result' hresult
      obtain rfl : result = result' := Option.some.inj hresult
      cases result with
      | error => exact absurd (h.inserted _ ((hmem _).mpr rfl)) not_insertsData_error
      | bytes data =>
        exact ⟨data, rfl, looksInside_first_iff.mp (h.lookBack _ ((hmem _).mpr rfl))⟩
    · intro h
      obtain ⟨data, rfl, hdata⟩ := h result rfl
      refine ⟨fun t ht => ?_, fun t ht => ?_, fun ⟨t, ht, herror⟩ => ?_⟩
      · rw [(hmem t).mp ht]
        rfl
      · rw [(hmem t).mp ht]
        exact looksInside_first_iff.mpr hdata
      · rw [(hmem t).mp ht] at herror
        cases herror

/-- The peer resets the connection, and no error is reported. -/
theorem reset_not_reported :
    ¬ ∀ recvs : List RecvResult, (∀ data, .bytes data ∈ recvs → data.length ≤ recvBufferSize) →
      SafeReception recvs := by
  intro h
  have hsafe := h [.error] (by simp)
  have hreported := hsafe.reported ⟨_, List.mem_singleton_self _, rfl⟩
  exact absurd hreported (by decide)

end Connection

end Rechnernetze.Http
