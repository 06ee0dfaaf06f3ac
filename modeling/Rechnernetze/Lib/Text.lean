import Mathlib.Data.Nat.Digits.Lemmas
import Rechnernetze.Lib.FileSystem
import Rechnernetze.Lib.Regex

/-!
# Bytes as text

Texts are byte strings. The module has the lines of a text as `std::getline` delivers them,
decimal numbers as `std::to_string` writes and `std::stoi` reads them, and the character
classes of a `std::regex` in the "C" locale.
-/

namespace Rechnernetze.Lib

/-- The bytes of an ASCII text. -/
def ascii (s : String) : Bytes := s.toList.map fun c => c.val.toUInt8

def cr : UInt8 := 13

def lf : UInt8 := 10

/-- The byte `-`. -/
def hyphen : UInt8 := 45

/-- The byte `:`. -/
def colon : UInt8 := 58

def blank : UInt8 := 32

/-- The byte `,`. -/
def comma : UInt8 := 44

/-- The byte `.`. -/
def point : UInt8 := 46

/-- The end of a line. -/
def crlf : Bytes := [cr, lf]

/-- No line ends in the text. -/
def OneLine (s : Bytes) : Prop := cr ∉ s ∧ lf ∉ s

instance (s : Bytes) : Decidable (OneLine s) := by unfold OneLine; infer_instance

/-! ## Character classes -/

/-- What `.` matches: everything but the end of a line. -/
def isAny (b : UInt8) : Bool := b ≠ lf ∧ b ≠ cr

def isDigit (b : UInt8) : Bool := 48 ≤ b ∧ b ≤ 57

/-- `isspace`. -/
def isSpace (b : UInt8) : Bool := b = blank ∨ 9 ≤ b ∧ b ≤ 13

/-- `.`. -/
def anyChar : Regex UInt8 := .char isAny

/-- `\d`. -/
def digit : Regex UInt8 := .char isDigit

/-- `\s`. -/
def space : Regex UInt8 := .char isSpace

theorem forall_isAny_iff {s : Bytes} : (∀ a ∈ s, isAny a = true) ↔ OneLine s := by
  constructor
  · intro h
    refine ⟨fun hcr => ?_, fun hlf => ?_⟩
    · exact absurd (h cr hcr) (by decide)
    · exact absurd (h lf hlf) (by decide)
  · rintro ⟨hcr, hlf⟩ a ha
    have ha1 : a ≠ lf := fun h => hlf (h ▸ ha)
    have ha2 : a ≠ cr := fun h => hcr (h ▸ ha)
    exact decide_eq_true ⟨ha1, ha2⟩

section
variable {a : UInt8} {s t : Bytes}

theorem oneLine_cons : OneLine (a :: s) ↔ isAny a = true ∧ OneLine s := by
  rw [← forall_isAny_iff, ← forall_isAny_iff, List.forall_mem_cons]

theorem oneLine_append : OneLine (s ++ t) ↔ OneLine s ∧ OneLine t := by
  rw [← forall_isAny_iff, ← forall_isAny_iff, ← forall_isAny_iff, List.forall_mem_append]

theorem oneLine_of_digits (h : ∀ b ∈ s, isDigit b = true) : OneLine s := by
  refine ⟨fun hcr => ?_, fun hlf => ?_⟩
  · exact absurd (h cr hcr) (by decide)
  · exact absurd (h lf hlf) (by decide)

end

/-! ## Lines -/

/-- What `std::getline` delivers until the stream ends: the text up to each LF, and what follows
the last one unless that is empty. -/
def getlines : Bytes → List Bytes
  | [] => []
  | a :: s =>
    if a = lf then [] :: getlines s
    else match getlines s with
      | [] => [[a]]
      | line :: rest => (a :: line) :: rest

section
variable {w s : Bytes}

theorem getlines_line (hw : lf ∉ w) : getlines (w ++ lf :: s) = w :: getlines s := by
  induction w with
  | nil => rw [List.nil_append, getlines, if_pos rfl]
  | cons a w ih =>
    have ha : a ≠ lf := fun h => hw (h ▸ List.mem_cons_self ..)
    rw [List.cons_append, getlines, if_neg ha, ih fun h => hw (List.mem_cons_of_mem _ h)]

theorem getlines_ne_nil (h : s ≠ []) : getlines s ≠ [] := by
  obtain ⟨a, s, rfl⟩ := List.exists_cons_of_ne_nil h
  rw [getlines]
  split
  · exact List.cons_ne_nil _ _
  · split
    · exact List.cons_ne_nil _ _
    · exact List.cons_ne_nil _ _

/-- What ends with an LF keeps its lines, whatever follows. -/
theorem getlines_append (s t : Bytes) :
    getlines (s ++ [lf] ++ t) = getlines (s ++ [lf]) ++ getlines t := by
  induction s with
  | nil => rfl
  | cons a s ih =>
    rw [List.cons_append, List.cons_append, getlines, getlines, ih]
    by_cases ha : a = lf
    · rw [if_pos ha, if_pos ha, List.cons_append]
    · rw [if_neg ha, if_neg ha]
      cases hs : getlines (s ++ [lf]) with
      | nil => exact absurd hs (getlines_ne_nil (List.append_ne_nil_of_right_ne_nil _ (by decide)))
      | cons line rest => rfl

theorem takeWhile_ne_append {a : UInt8} (h : a ∉ w) : (w ++ a :: s).takeWhile (· ≠ a) = w := by
  have hw : ∀ b ∈ w, decide (b ≠ a) = true := by
    rintro b hb
    exact decide_eq_true fun hba => h (hba ▸ hb)
  rw [List.takeWhile_append_of_pos hw, List.takeWhile_cons_of_neg (by simp), List.append_nil]

end

/-! ## Decimal numbers -/

/-- The number a text of digits stands for. -/
def decimalValue (s : Bytes) : ℕ := Nat.ofDigits 10 (s.map fun b => b.toNat - 48).reverse

/-- `std::to_string`. -/
def decimal (n : ℕ) : Bytes :=
  if n = 0 then [48] else ((Nat.digits 10 n).map fun d => UInt8.ofNat (48 + d)).reverse

theorem isDigit_of_mem_decimal {n : ℕ} {b : UInt8} (hb : b ∈ decimal n) : isDigit b = true := by
  unfold decimal at hb
  split at hb
  · rw [List.mem_singleton.mp hb]
    decide
  · rw [List.mem_reverse] at hb
    obtain ⟨d, hd, rfl⟩ := List.mem_map.mp hb
    have hlt : d < 10 := Nat.digits_lt_base (by decide) hd
    interval_cases d <;> decide

/-- The largest `int`. -/
def intMax : ℤ := 2147483647

/-- The values of `int`. -/
def IsInt (n : ℤ) : Prop := -intMax - 1 ≤ n ∧ n ≤ intMax

instance (n : ℤ) : Decidable (IsInt n) := by unfold IsInt; infer_instance

/-- An `int` converted to `size_t`. -/
def toSizeT (n : ℤ) : ℕ := (n % 2 ^ 64).toNat

/-- A `size_t` converted to `int`. -/
def toInt (n : ℕ) : ℤ := Int.bmod n (2 ^ 32)

theorem toSizeT_of_nonneg {n : ℤ} (h0 : 0 ≤ n) (h : IsInt n) : (toSizeT n : ℤ) = n := by
  unfold toSizeT
  unfold IsInt intMax at h
  omega

theorem toSizeT_of_neg {n : ℤ} (h0 : n < 0) (h : IsInt n) : (toSizeT n : ℤ) = 2 ^ 64 + n := by
  unfold toSizeT
  unfold IsInt intMax at h
  omega

theorem toSizeT_add_le (m n : ℤ) : toSizeT (m + n) ≤ toSizeT m + toSizeT n := by
  unfold toSizeT
  omega

theorem toInt_of_le {n : ℕ} (h : (n : ℤ) ≤ intMax) : toInt n = n := by
  unfold intMax at h
  unfold toInt
  rw [Int.bmod_eq_of_le (by omega) (by omega)]

/-- Why `std::stoi` throws. -/
inductive StoiError where
  | invalidArgument
  | outOfRange
deriving DecidableEq

/-- `what()` of either exception. -/
def StoiError.what : StoiError → Bytes := fun _ => ascii "stoi"

/-- `std::stoi`: blanks, a sign and at least one digit; what follows is ignored. -/
def stoi (s : Bytes) : Except StoiError ℤ :=
  let s := s.dropWhile isSpace
  let digits := (if s.head? = some 43 ∨ s.head? = some 45 then s.tail else s).takeWhile isDigit
  if digits = [] then .error .invalidArgument
  else
    let value : ℤ := if s.head? = some 45 then -decimalValue digits else decimalValue digits
    if -intMax - 1 ≤ value ∧ value ≤ intMax then .ok value else .error .outOfRange

theorem isInt_of_stoi {s : Bytes} {n : ℤ} (h : stoi s = .ok n) : IsInt n := by
  have hresult : ∀ (digits : Bytes) (value : ℤ),
      (if digits = [] then Except.error StoiError.invalidArgument
        else if -intMax - 1 ≤ value ∧ value ≤ intMax then .ok value else .error .outOfRange)
          = .ok n → IsInt n := by
    intro digits value h
    split at h
    · cases h
    · split at h
      · rename_i hrange
        obtain rfl := Except.ok.inj h
        exact hrange
      · cases h
  exact hresult _ _ h

/-- A text of digits. -/
theorem stoi_of_digits {s : Bytes} (hne : s ≠ []) (hdigits : ∀ b ∈ s, isDigit b = true) :
    stoi s = if (decimalValue s : ℤ) ≤ intMax then .ok (decimalValue s : ℤ)
      else .error .outOfRange := by
  obtain ⟨a, t, rfl⟩ := List.exists_cons_of_ne_nil hne
  have ha : isDigit a = true := hdigits a (List.mem_cons_self ..)
  have hspace : ¬ isSpace a = true := by
    have hrange : 48 ≤ a ∧ a ≤ 57 := of_decide_eq_true ha
    intro h
    have hcases : a = blank ∨ 9 ≤ a ∧ a ≤ 13 := of_decide_eq_true h
    rcases hcases with rfl | hcontrol
    · exact absurd ha (by decide)
    · exact absurd (UInt8.le_trans hrange.1 hcontrol.2) (by decide)
  have hdrop : (a :: t).dropWhile isSpace = a :: t := by
    rw [List.dropWhile_cons, if_neg hspace]
  have hplus : ¬ (a :: t).head? = some 43 := by
    intro h
    rw [Option.some.inj h] at ha
    exact absurd ha (by decide)
  have hminus : ¬ (a :: t).head? = some 45 := by
    intro h
    rw [Option.some.inj h] at ha
    exact absurd ha (by decide)
  have htake : (a :: t).takeWhile isDigit = a :: t := List.takeWhile_eq_self_iff.mpr hdigits
  have hlow : -intMax - 1 ≤ (decimalValue (a :: t) : ℤ) := by
    unfold intMax
    omega
  simp only [stoi, hdrop, hplus, hminus, or_self, if_false, htake, List.cons_ne_nil, hlow,
    true_and]

end Rechnernetze.Lib
