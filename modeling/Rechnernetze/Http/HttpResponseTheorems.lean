import Rechnernetze.Http.Connection

/-!
# The round trip of a response

`parse` divides its data at the first empty line, as long as its index does not overflow
(`parse_of_firstEmptyLine`, `parse_of_no_emptyLine`). `parseWrap` does the same with all bytes
that its index reaches (`parseWrap_of_firstEmptyLine`, `parseWrap_of_late`).
-/

namespace Rechnernetze.Http

open Lib

namespace HttpResponse

/-- `data` has its first empty line after `p`, and `rest` behind that line. -/
structure FirstEmptyLine (p rest data : Bytes) : Prop where
  eq : p ++ (emptyLine ++ rest) = data
  first : ∀ q r, q ++ (emptyLine ++ r) = data → p.length ≤ q.length

section
variable {p rest data w q : Bytes} {i : ℤ} {header payload : Bytes} {a : UInt8}

theorem length_emptyLine : emptyLine.length = 4 := rfl

/-! ## Where the first empty line is -/

theorem exists_firstEmptyLine (h : emptyLine <:+: data) : ∃ p rest, FirstEmptyLine p rest data := by
  induction data with
  | nil =>
    obtain ⟨s, t, h⟩ := h
    exact absurd (congrArg List.length h) (by simp [length_emptyLine])
  | cons a data ih =>
    by_cases hpre : emptyLine <+: a :: data
    · obtain ⟨rest, hrest⟩ := hpre
      exact ⟨[], rest, hrest, fun _ _ _ => Nat.zero_le _⟩
    · obtain ⟨p, rest, heq, hfirst⟩ := ih ((List.infix_cons_iff.mp h).resolve_left hpre)
      refine ⟨a :: p, rest, by rw [List.cons_append, heq], fun q r hq => ?_⟩
      cases q with
      | nil => exact absurd ⟨r, hq⟩ hpre
      | cons b q => exact Nat.succ_le_succ (hfirst q r (List.cons.inj hq).2)

theorem FirstEmptyLine.unique {r : Bytes} (h : FirstEmptyLine p rest data)
    (h' : FirstEmptyLine q r data) : p = q ∧ rest = r := by
  have hle := h.first q r h'.eq
  have hge := h'.first p rest h.eq
  obtain ⟨hp, hrest⟩ := List.append_inj (h.eq.trans h'.eq.symm) (by omega)
  exact ⟨hp, List.append_cancel_left hrest⟩

theorem FirstEmptyLine.cons (h : FirstEmptyLine p rest data) (ha : ¬ emptyLine <+: a :: data) :
    FirstEmptyLine (a :: p) rest (a :: data) := by
  refine ⟨by rw [List.cons_append, h.eq], fun q r hq => ?_⟩
  cases q with
  | nil => exact absurd ⟨r, hq⟩ ha
  | cons b q => exact Nat.succ_le_succ (h.first q r (List.cons.inj hq).2)

/-- Before its first empty line the data can be shortened. -/
theorem FirstEmptyLine.uncons (h : FirstEmptyLine (a :: p) rest data) :
    ¬ emptyLine <+: a :: (p ++ (emptyLine ++ rest)) ∧
      FirstEmptyLine p rest (p ++ (emptyLine ++ rest)) := by
  obtain ⟨rfl, hfirst⟩ := h
  constructor
  · rintro ⟨r, hr⟩
    have hle : (a :: p).length ≤ ([] : Bytes).length := hfirst [] r hr
    exact absurd hle (by simp)
  · refine ⟨rfl, fun q r hq => ?_⟩
    have hle : (a :: p).length ≤ (a :: q).length :=
      hfirst (a :: q) r (by rw [List.cons_append, List.cons_append, hq])
    exact Nat.le_of_succ_le_succ hle

/-- An empty line begins with a CR. -/
theorem not_begins_with_emptyLine (ha : a ≠ cr) : ¬ emptyLine <+: a :: data := by
  rintro ⟨t, ht⟩
  exact ha (List.cons.inj ht).1.symm

theorem FirstEmptyLine.append_left (h : FirstEmptyLine p rest data) (hw : cr ∉ w) :
    FirstEmptyLine (w ++ p) rest (w ++ data) := by
  induction w with
  | nil => exact h
  | cons a w ih =>
    have ha : a ≠ cr := fun h' => hw (h' ▸ List.mem_cons_self ..)
    exact (ih fun h' => hw (List.mem_cons_of_mem _ h')).cons (not_begins_with_emptyLine ha)

/-- The end of a line that is followed by one that is not empty. -/
theorem FirstEmptyLine.append_crlf (h : FirstEmptyLine p rest data) (hhead : data.head? ≠ some cr) :
    FirstEmptyLine (crlf ++ p) rest (crlf ++ data) := by
  refine (h.cons (a := lf) (not_begins_with_emptyLine (by decide))).cons (a := cr) ?_
  rintro ⟨t, ht⟩
  have hdata : data = crlf ++ t := ((List.cons.inj (List.cons.inj ht).2).2).symm
  exact hhead (by rw [hdata]; rfl)

/-! ## The two loops -/

theorem scanHeader_cons (hi : i + 4 ≤ intMax) (ha : ¬ emptyLine <+: a :: rest) :
    scanHeader i header (a :: rest) = scanHeader (i + 1) (header ++ [a]) rest := by
  rw [scanHeader, if_neg (by omega), if_neg (by rwa [List.isPrefixOf_iff_prefix])]

theorem scanHeader_overflow (hi : intMax < i + 4) : scanHeader i header (a :: rest) = none := by
  rw [scanHeader, if_pos hi]

theorem scanHeader_of_firstEmptyLine (h : FirstEmptyLine p rest data) :
    scanHeader i header data
      = if i + p.length + 4 ≤ intMax then
          some (header ++ p ++ crlf, i + p.length + 4, rest)
        else none := by
  induction p generalizing data i header with
  | nil =>
    obtain ⟨rfl, -⟩ := h
    have hprefix : emptyLine.isPrefixOf (cr :: lf :: cr :: lf :: rest) = true :=
      List.isPrefixOf_iff_prefix.mpr ⟨rest, rfl⟩
    show scanHeader i header (cr :: lf :: cr :: lf :: rest) = _
    simp only [List.length_nil, Nat.cast_zero, Int.add_zero, List.append_nil]
    by_cases hi : intMax < i + 4
    · rw [scanHeader_overflow hi, if_neg (by omega)]
    · rw [scanHeader, if_neg hi, if_pos hprefix, if_pos (by omega)]
      rfl
  | cons a p ih =>
    obtain ⟨hnot, htail⟩ := h.uncons
    obtain ⟨rfl, -⟩ := h
    have hlength : ((a :: p).length : ℤ) = p.length + 1 := by
      rw [List.length_cons]
      omega
    rw [List.cons_append, hlength]
    by_cases hi : i + 4 ≤ intMax
    · rw [scanHeader_cons hi hnot, ih htail, List.append_assoc, List.append_assoc,
        List.singleton_append, List.append_assoc, List.cons_append]
      have harith : i + 1 + p.length = i + (p.length + 1) := by omega
      rw [harith]
    · rw [scanHeader_overflow (by omega), if_neg (by omega)]

theorem scanHeader_of_no_emptyLine (h : ¬ emptyLine <:+: data) :
    scanHeader i header data
      = if data = [] ∨ i + data.length + 3 ≤ intMax then
          some (header ++ data, i + data.length, [])
        else none := by
  induction data generalizing i header with
  | nil =>
    rw [if_pos (Or.inl rfl), scanHeader, List.append_nil]
    simp
  | cons a data ih =>
    rw [List.infix_cons_iff, not_or] at h
    have hlength : ((a :: data).length : ℤ) = data.length + 1 := by
      rw [List.length_cons]
      omega
    rw [hlength]
    by_cases hi : i + 4 ≤ intMax
    · rw [scanHeader_cons hi h.1, ih h.2, List.append_assoc, List.singleton_append]
      have harith : i + 1 + data.length = i + (data.length + 1) := by omega
      -- the index needs three positions more than it takes, but only where a byte is left
      have hcond : (data = [] ∨ i + (data.length + 1) + 3 ≤ intMax) ↔
          (a :: data = [] ∨ i + (data.length + 1) + 3 ≤ intMax) := by
        constructor
        · rintro (rfl | hle)
          · exact Or.inr (by simpa using by omega)
          · exact Or.inr hle
        · rintro (hnil | hle)
          · cases hnil
          · exact Or.inr hle
      simp only [harith, hcond]
    · rw [scanHeader_overflow (by omega), if_neg]
      rintro (hnil | hle)
      · cases hnil
      · omega

theorem copyPayload_eq :
    copyPayload i payload rest
      = if rest = [] ∨ i + rest.length ≤ intMax then some (payload ++ rest) else none := by
  induction rest generalizing i payload with
  | nil => rw [if_pos (Or.inl rfl), copyPayload, List.append_nil]
  | cons a rest ih =>
    have hlength : ((a :: rest).length : ℤ) = rest.length + 1 := by
      rw [List.length_cons]
      omega
    have hcond : (a :: rest = [] ∨ i + ((a :: rest).length : ℤ) ≤ intMax) ↔
        i + (rest.length + 1) ≤ intMax := by
      rw [hlength]
      simp
    simp only [hcond]
    by_cases hi : intMax < i + 1
    · rw [copyPayload, if_pos hi, if_neg (by omega)]
    · rw [copyPayload, if_neg hi, ih, List.append_assoc, List.singleton_append]
      refine if_congr ?_ rfl rfl
      constructor
      · rintro (rfl | hle)
        · simpa using by omega
        · omega
      · intro hle
        exact Or.inr (by omega)

/-! ## The constructor -/

/-- **Data with an empty line** is divided at the first one. -/
theorem parse_of_firstEmptyLine (h : FirstEmptyLine p rest data) :
    parse data
      = if (data.length : ℤ) ≤ intMax then some ⟨.NONE, p ++ crlf, rest⟩ else none := by
  have hlength : (data.length : ℤ) = p.length + 4 + rest.length := by
    rw [← h.eq, List.length_append, List.length_append, length_emptyLine]
    omega
  rw [parse, scanHeader_of_firstEmptyLine h, hlength, List.nil_append, Int.zero_add]
  by_cases hp : (p.length : ℤ) + 4 ≤ intMax
  · -- the second loop goes on with the index of the first
    rw [if_pos hp]
    show ((copyPayload (p.length + 4) [] rest).bind fun payload => _) = _
    rw [copyPayload_eq, List.nil_append]
    have hcond : (rest = [] ∨ (p.length : ℤ) + 4 + rest.length ≤ intMax) ↔
        (p.length : ℤ) + 4 + rest.length ≤ intMax := by
      constructor
      · rintro (rfl | hle)
        · simpa using hp
        · exact hle
      · exact Or.inr
    simp only [hcond]
    split
    · rfl
    · rfl
  · -- the first loop overflows before it sees the empty line
    rw [if_neg hp, if_neg (by omega)]
    rfl

/-- **Data without an empty line** is all header. -/
theorem parse_of_no_emptyLine (h : ¬ emptyLine <:+: data) :
    parse data
      = if (data.length : ℤ) + 3 ≤ intMax then some ⟨.NONE, data, []⟩ else none := by
  have hcond : (data = [] ∨ (data.length : ℤ) + 3 ≤ intMax) ↔
      (data.length : ℤ) + 3 ≤ intMax := by
    constructor
    · rintro (rfl | hle)
      · decide
      · exact hle
    · exact Or.inr
  rw [parse, scanHeader_of_no_emptyLine h, Int.zero_add]
  simp only [hcond]
  split
  · rfl
  · rfl

/-! ## The counter that wraps around -/

/-- How many positions an `int` counts from 0 on. -/
def maxCount : ℕ := 2 ^ 31

section
variable {n k : ℕ}

theorem intAdd_of_lt (h : n + k < maxCount) : intAdd n k = ((n + k : ℕ) : ℤ) := by
  unfold maxCount at h
  unfold intAdd
  rw [Int.bmod_eq_of_le (by omega) (by omega), Nat.cast_add]

/-- The sum that does not fit in an `int` is negative. -/
theorem intAdd_neg (hn : n < maxCount) (hk : k < maxCount) (h : maxCount ≤ n + k) :
    intAdd n k < 0 := by
  unfold maxCount at hn hk h
  have hmod : ((n : ℤ) + k) % ((2 ^ 32 : ℕ) : ℤ) = n + k := Int.emod_eq_of_lt (by omega) (by omega)
  unfold intAdd
  rw [Int.bmod_def, hmod, if_neg (by omega)]
  omega

/-- A sum is one that fits if it is not negative. -/
theorem lt_of_intAdd_nonneg (hn : n < maxCount) (hk : k < maxCount) (h : 0 ≤ intAdd n k) :
    n + k < maxCount := by
  by_contra hle
  have hneg := intAdd_neg hn hk (by omega)
  omega

/-- Either loop ends at a negative index. -/
theorem scanHeaderWrap_neg (hi : i < 0) : scanHeaderWrap i header data = (header, i, data) := by
  cases data with
  | nil => rfl
  | cons a data => rw [scanHeaderWrap, if_pos hi]

theorem copyPayloadWrap_neg (hi : i < 0) : copyPayloadWrap i payload rest = payload := by
  cases rest with
  | nil => rfl
  | cons a rest => rw [copyPayloadWrap, if_pos hi]

/-- The first loop passes a byte where it sees no empty line. -/
theorem scanHeaderWrap_cons (hn : n < maxCount)
    (ha : n + 4 < maxCount → ¬ emptyLine <+: a :: rest) :
    scanHeaderWrap n header (a :: rest) = scanHeaderWrap (intAdd n 1) (header ++ [a]) rest := by
  -- an index whose sum wraps around is not compared at all
  have hnot : ¬ (0 ≤ intAdd n 4 ∧ emptyLine.isPrefixOf (a :: rest)) := by
    rintro ⟨hfits, hpre⟩
    have hlt := lt_of_intAdd_nonneg (k := 4) hn (by decide) hfits
    exact ha hlt (List.isPrefixOf_iff_prefix.mp hpre)
  rw [scanHeaderWrap, if_neg (by omega), if_neg hnot]

theorem scanHeaderWrap_of_firstEmptyLine (header : Bytes) (h : FirstEmptyLine p rest data)
    (hlt : n + p.length + 4 < maxCount) :
    scanHeaderWrap n header data
      = (header ++ p ++ crlf, ((n + p.length + 4 : ℕ) : ℤ), rest) := by
  induction p generalizing data n header with
  | nil =>
    obtain ⟨rfl, -⟩ := h
    have hsum : intAdd n 4 = ((n + 4 : ℕ) : ℤ) := intAdd_of_lt (k := 4) hlt
    have hprefix : emptyLine.isPrefixOf (cr :: lf :: cr :: lf :: rest) = true :=
      List.isPrefixOf_iff_prefix.mpr ⟨rest, rfl⟩
    show scanHeaderWrap n header (cr :: lf :: cr :: lf :: rest) = _
    rw [scanHeaderWrap, if_neg (by omega), hsum, if_pos ⟨Int.natCast_nonneg _, hprefix⟩,
      List.append_nil]
    rfl
  | cons a p ih =>
    have hlength : (a :: p).length = p.length + 1 := rfl
    rw [hlength] at hlt
    have hsum : intAdd n 1 = ((n + 1 : ℕ) : ℤ) := intAdd_of_lt (k := 1) (by omega)
    obtain ⟨hnot, htail⟩ := h.uncons
    obtain ⟨rfl, -⟩ := h
    rw [List.cons_append, scanHeaderWrap_cons (by omega) fun _ => hnot, hsum,
      ih (header ++ [a]) htail (by omega), List.append_assoc header, List.singleton_append, hlength]
    have harith : n + 1 + p.length + 4 = n + (p.length + 1) + 4 := by omega
    rw [harith]

/-- Where every empty line lies too far behind to be seen, the first loop takes all bytes
that its index reaches, and the second one finds none. -/
theorem scanHeaderWrap_of_late (header : Bytes) (hn : n < maxCount)
    (hlate : ∀ q r, q ++ (emptyLine ++ r) = data → maxCount ≤ n + q.length + 4) :
    ∃ j tail, scanHeaderWrap n header data = (header ++ data.take (maxCount - n), j, tail) ∧
      (j < 0 ∨ tail = []) := by
  induction data generalizing n header with
  | nil => exact ⟨n, [], by rw [List.take_nil, List.append_nil]; rfl, Or.inr rfl⟩
  | cons a data ih =>
    have hnot : n + 4 < maxCount → ¬ emptyLine <+: a :: data := by
      rintro hlt ⟨r, hr⟩
      have hle := hlate [] r hr
      rw [List.length_nil] at hle
      omega
    rw [scanHeaderWrap_cons hn hnot]
    by_cases hlast : n + 1 < maxCount
    · have hsum : intAdd n 1 = ((n + 1 : ℕ) : ℤ) := intAdd_of_lt (k := 1) hlast
      obtain ⟨j, tail, hscan, hend⟩ := ih (header ++ [a]) hlast fun q r hq => by
        have hle := hlate (a :: q) r (by rw [List.cons_append, hq])
        rw [List.length_cons] at hle
        omega
      have htake : (a :: data).take (maxCount - n) = a :: data.take (maxCount - (n + 1)) := by
        rw [show maxCount - n = maxCount - (n + 1) + 1 by omega, List.take_succ_cons]
      rw [hsum, hscan, htake, List.append_assoc, List.singleton_append]
      exact ⟨j, tail, rfl, hend⟩
    · -- the last position: the next index is negative
      have hneg : intAdd n 1 < 0 := intAdd_neg (k := 1) hn (by decide) (by omega)
      have hone : maxCount - n = 1 := by omega
      rw [scanHeaderWrap_neg hneg, hone]
      exact ⟨_, _, rfl, Or.inl hneg⟩

theorem copyPayloadWrap_eq (hn : n < maxCount) :
    copyPayloadWrap n payload rest = payload ++ rest.take (maxCount - n) := by
  induction rest generalizing n payload with
  | nil => rw [List.take_nil, List.append_nil]; rfl
  | cons a rest ih =>
    rw [copyPayloadWrap, if_neg (by omega)]
    by_cases hlast : n + 1 < maxCount
    · have hsum : intAdd n 1 = ((n + 1 : ℕ) : ℤ) := intAdd_of_lt (k := 1) hlast
      have htake : (a :: rest).take (maxCount - n) = a :: rest.take (maxCount - (n + 1)) := by
        rw [show maxCount - n = maxCount - (n + 1) + 1 by omega, List.take_succ_cons]
      rw [hsum, ih hlast, htake, List.append_assoc, List.singleton_append]
    · have hneg : intAdd n 1 < 0 := intAdd_neg (k := 1) hn (by decide) (by omega)
      have hone : maxCount - n = 1 := by omega
      rw [copyPayloadWrap_neg hneg, hone]
      rfl

end

theorem parseWrap_eq_iff :
    parseWrap data = ⟨.NONE, header, payload⟩ ↔
      (parseWrap data).header = header ∧ (parseWrap data).payload = payload := by
  constructor
  · intro h
    rw [h]
    exact ⟨rfl, rfl⟩
  · rintro ⟨rfl, rfl⟩
    rfl

/-- **Data with an empty line in reach** is divided at the first one, and the payload ends
where the index does. -/
theorem parseWrap_of_firstEmptyLine (h : FirstEmptyLine p rest data)
    (hlt : p.length + 4 < maxCount) :
    parseWrap data = ⟨.NONE, p ++ crlf, rest.take (maxCount - (p.length + 4))⟩ := by
  have hscan : scanHeaderWrap 0 [] data = (p ++ crlf, ((p.length + 4 : ℕ) : ℤ), rest) := by
    have h0 := scanHeaderWrap_of_firstEmptyLine (n := 0) [] h (by omega)
    rwa [List.nil_append, Nat.zero_add] at h0
  rw [parseWrap, hscan]
  show (⟨.NONE, p ++ crlf, copyPayloadWrap ((p.length + 4 : ℕ) : ℤ) [] rest⟩ : HttpResponse) = _
  rw [copyPayloadWrap_eq hlt, List.nil_append]

/-- **Data without an empty line in reach** is all header, as far as the index goes. -/
theorem parseWrap_of_late
    (hlate : ∀ q r, q ++ (emptyLine ++ r) = data → maxCount ≤ q.length + 4) :
    parseWrap data = ⟨.NONE, data.take maxCount, []⟩ := by
  obtain ⟨j, tail, hscan, hend⟩ :=
    scanHeaderWrap_of_late (n := 0) [] (by decide) fun q r (hq : _ = data) => by
      have hle := hlate q r hq
      omega
  have hcopy : copyPayloadWrap j [] tail = [] := by
    rcases hend with hneg | rfl
    · exact copyPayloadWrap_neg hneg
    · rfl
  have hstart : scanHeaderWrap 0 [] data = (data.take maxCount, j, tail) := hscan
  rw [parseWrap, hstart]
  show (⟨.NONE, data.take maxCount, copyPayloadWrap j [] tail⟩ : HttpResponse) = _
  rw [hcopy]

/-- Where the counter does not overflow, it does not matter that it wraps around. -/
theorem parseWrap_of_parse {response : HttpResponse} (h : parse data = some response) :
    parseWrap data = response := by
  have hmax : intMax + 1 = maxCount := rfl
  by_cases hline : emptyLine <:+: data
  · obtain ⟨p, rest, hfirst⟩ := exists_firstEmptyLine hline
    have hlength : data.length = p.length + 4 + rest.length := by
      rw [← hfirst.eq, List.length_append, List.length_append, length_emptyLine]
      omega
    rw [parse_of_firstEmptyLine hfirst] at h
    by_cases hshort : (data.length : ℤ) ≤ intMax
    · rw [if_pos hshort] at h
      -- the positions that an `int` counts are enough for all bytes
      rw [parseWrap_of_firstEmptyLine hfirst (by omega), List.take_of_length_le (by omega)]
      exact Option.some.inj h
    · rw [if_neg hshort] at h
      cases h
  · rw [parse_of_no_emptyLine hline] at h
    by_cases hshort : (data.length : ℤ) + 3 ≤ intMax
    · rw [if_pos hshort] at h
      have hlate : ∀ q r, q ++ (emptyLine ++ r) = data → maxCount ≤ q.length + 4 := by
        intro q r hq
        exact absurd ⟨q, r, by rw [List.append_assoc, hq]⟩ hline
      rw [parseWrap_of_late hlate, List.take_of_length_le (by omega)]
      exact Option.some.inj h
    · rw [if_neg hshort] at h
      cases h

end

end HttpResponse

end Rechnernetze.Http
