import Rechnernetze.Http.HttpRequest

/-!
# What `HttpRequest` reads off a request

Which request lines the regular expression admits, and which of the ways to divide such a line
it takes: the method is as long as it can be, and the URI is everything between it and the
version (`fullMatch_statusLine`). Of the header lines that set a key the last one counts
(`lookup_foldl_parseHeaderLine`), and a range is read off its digits (`parseRange_toOption`).
-/

namespace Rechnernetze.Http

open Lib Regex

namespace HttpRequest

/-! ## The request line -/

/-- What `(HTTP/1.1)` matches; the point stands for any character. -/
def IsVersion (v : Bytes) : Prop := ∃ a, isAny a = true ∧ v = ascii "HTTP/1" ++ a :: ascii "1"

/-- What `(/.*)*` matches. -/
def IsUri (s : Bytes) : Prop := OneLine s ∧ (s = [] ∨ s.head? = some slash)

/-- A way to divide a request line. -/
structure StatusLine (m s v line : Bytes) : Prop where
  method : OneLine m
  uri : IsUri s
  version : IsVersion v
  line_eq : m ++ blank :: (s ++ blank :: (v ++ [cr])) = line

section
variable {m s v w input line rest : Bytes} {c c' : Captures UInt8}

theorem IsVersion.length (h : IsVersion v) : v.length = 8 := by
  obtain ⟨a, -, rfl⟩ := h
  rfl

theorem mem_language_uriRegex : s ∈ uriRegex.language ↔ IsUri s := by
  have hpiece : ∀ y, y ∈ (seq (lit slash) (star true anyChar)).language ↔
      ∃ t, OneLine t ∧ y = slash :: t := by
    intro y
    rw [mem_language_seq]
    constructor
    · rintro ⟨u, ⟨a, ha, rfl⟩, t, ht, rfl⟩
      rw [of_decide_eq_true ha]
      exact ⟨t, forall_isAny_iff.mp (mem_language_star_char.mp ht), rfl⟩
    · rintro ⟨t, ht, rfl⟩
      exact ⟨[slash], mem_language_lit, t,
        mem_language_star_char.mpr (forall_isAny_iff.mpr ht), rfl⟩
  constructor
  · intro hs
    obtain ⟨L, rfl, hL⟩ := Language.mem_kstar.mp hs
    refine ⟨forall_isAny_iff.mp fun a ha => ?_, ?_⟩
    · obtain ⟨y, hy, hay⟩ := List.mem_flatten.mp ha
      obtain ⟨t, ht, rfl⟩ := (hpiece y).mp (hL y hy)
      rcases List.mem_cons.mp hay with rfl | hat
      · decide
      · exact forall_isAny_iff.mpr ht a hat
    · cases L with
      | nil => exact Or.inl rfl
      | cons y L =>
        obtain ⟨t, -, rfl⟩ := (hpiece y).mp (hL y (List.mem_cons_self ..))
        exact Or.inr rfl
  · rintro ⟨hline, rfl | hhead⟩
    · exact Language.nil_mem_kstar _
    · -- one iteration is enough, as it may contain further slashes
      obtain ⟨t, rfl⟩ := List.head?_eq_some_iff.mp hhead
      have ht : OneLine t := (oneLine_cons.mp hline).2
      refine Language.mem_kstar.mpr ⟨[slash :: t], by simp, fun y hy => ?_⟩
      rw [List.mem_singleton.mp hy]
      exact (hpiece _).mpr ⟨t, ht, rfl⟩

/-- What follows the URI: a blank, the version and the CR. -/
def versionPart (input : Bytes) (c : Captures UInt8) : Option (Captures UInt8) :=
  (seq (lit blank) (seq versionRegex (lit cr))).exec input c atEnd

theorem versionPart_eq_some :
    versionPart input c = some c' ↔
      ∃ v, IsVersion v ∧ input = blank :: (v ++ [cr]) ∧ c' = Function.update c 3 v := by
  have hversion : ∀ input k, versionRegex.exec input c k = some c' ↔
      ∃ v rest, IsVersion v ∧ v ++ rest = input ∧ k rest (Function.update c 3 v) = some c' := by
    intro input k
    rw [versionRegex, exec_group, exec_seq, exec_literal_eq_some]
    constructor
    · rintro ⟨rest, rfl, h⟩
      rw [exec_seq, anyChar, exec_char_eq_some] at h
      obtain ⟨a, rest, rfl, ha, h⟩ := h
      obtain ⟨rest, rfl, h⟩ := exec_literal_eq_some.mp h
      refine ⟨ascii "HTTP/1" ++ a :: ascii "1", rest, ⟨a, ha, rfl⟩, ?_, ?_⟩
      · rw [List.append_assoc, List.cons_append]
      · rw [← List.cons_append, ← List.append_assoc, take_length_sub] at h
        exact h
    · rintro ⟨v, rest, ⟨a, ha, rfl⟩, rfl, h⟩
      refine ⟨a :: (ascii "1" ++ rest), by rw [List.append_assoc, List.cons_append], ?_⟩
      rw [exec_seq, anyChar, exec_char_eq_some]
      refine ⟨a, ascii "1" ++ rest, rfl, ha, exec_literal_eq_some.mpr ⟨rest, rfl, ?_⟩⟩
      rw [take_length_sub]
      exact h
  rw [versionPart, exec_seq, exec_lit_eq_some]
  constructor
  · rintro ⟨rest, rfl, h⟩
    rw [exec_seq, hversion] at h
    obtain ⟨v, rest, hv, rfl, h⟩ := h
    obtain ⟨rest', rfl, hend⟩ := exec_lit_eq_some.mp h
    obtain ⟨rfl, rfl⟩ := atEnd_eq_some.mp hend
    exact ⟨v, hv, rfl, rfl⟩
  · rintro ⟨v, hv, rfl, rfl⟩
    refine ⟨v ++ [cr], rfl, ?_⟩
    rw [exec_seq, hversion]
    exact ⟨v, [cr], hv, rfl, exec_lit_eq_some.mpr ⟨[], rfl, atEnd_eq_some.mpr ⟨rfl, rfl⟩⟩⟩

/-- The URI, if there is any way to match it, is what stands before the version. -/
theorem uriPart_shape (h : uriRegex.exec input c versionPart = some c') :
    ∃ s v, IsUri s ∧ IsVersion v ∧ s ++ blank :: (v ++ [cr]) = input := by
  obtain ⟨s, hs, rest, c'', rfl, hrest⟩ := exec_eq_some h
  obtain ⟨v, hv, rfl, -⟩ := versionPart_eq_some.mp hrest
  exact ⟨s, v, mem_language_uriRegex.mp hs, hv, rfl⟩

theorem uriPart_nil (hv : IsVersion v) :
    uriRegex.exec (blank :: (v ++ [cr])) c versionPart = some (Function.update c 3 v) := by
  have hnone : ∀ k, (group 2 (seq (lit slash) (star true anyChar))).exec
      (blank :: (v ++ [cr])) c k = (none : Option (Captures UInt8)) := by
    intro k
    rw [exec_group, exec_seq, lit, exec_char_cons, if_neg (by decide)]
  rw [uriRegex, exec_star, hnone, if_pos rfl, Option.none_or]
  exact versionPart_eq_some.mpr ⟨v, hv, rfl, rfl⟩

/-- **The URI** is captured as a whole, in one iteration. -/
theorem uriPart_eq (hs : IsUri s) (hv : IsVersion v) (hc : c 2 = []) :
    uriRegex.exec (s ++ blank :: (v ++ [cr])) c versionPart
      = some (Function.update (Function.update c 2 s) 3 v) := by
  obtain ⟨hline, rfl | hhead⟩ := hs
  · rw [← hc, Function.update_eq_self, hc]
    exact uriPart_nil hv
  · obtain ⟨t, rfl⟩ := List.head?_eq_some_iff.mp hhead
    have ht : OneLine t := (oneLine_cons.mp hline).2
    have hgroup : (group 2 (seq (lit slash) (star true anyChar))).exec
        (slash :: t ++ blank :: (v ++ [cr])) c (fun rest c' =>
          if rest.length < (slash :: t ++ blank :: (v ++ [cr])).length then
            uriRegex.exec rest c' versionPart else none)
        = some (Function.update (Function.update c 2 (slash :: t)) 3 v) := by
      rw [exec_group, exec_seq, exec_lit_eq_some]
      refine ⟨t ++ blank :: (v ++ [cr]), rfl, exec_star_greedy_eq_some.mpr
        ⟨t, blank :: (v ++ [cr]), rfl, forall_isAny_iff.mpr ht, ?_, ?_⟩⟩
      · -- the iteration takes all up to the version
        rw [take_length_sub, if_pos (by simp), uriPart_nil hv]
      · -- a longer iteration leaves too little for the version
        intro e rest' hne he _
        split
        · rw [Option.eq_none_iff_forall_ne_some]
          intro c'' h
          obtain ⟨s', v', -, hv', rfl⟩ := uriPart_shape h
          have hlen := congrArg List.length he
          have hpos := List.length_pos_of_ne_nil hne
          simp only [List.length_append, List.length_cons, List.length_nil, hv.length,
            hv'.length] at hlen
          omega
        · rfl
    have hstar := exec_star (group 2 (seq (lit slash) (star true anyChar))) true
      (slash :: t ++ blank :: (v ++ [cr])) c versionPart
    rw [if_pos rfl] at hstar
    rw [uriRegex, hstar, ← uriRegex, hgroup, Option.some_or]

/-- **Which division of a request line is taken**: the one with the longest method. -/
theorem fullMatch_statusLine (h : StatusLine m s v line)
    (hlongest : ∀ m' s' v', StatusLine m' s' v' line → m'.length ≤ m.length) :
    ∃ c, statusLineRegex.fullMatch line = some c ∧ c 1 = m ∧ c 2 = s ∧ c 3 = v := by
  refine ⟨Function.update (Function.update (Function.update (fun _ => []) 1 m) 2 s) 3 v, ?_,
    rfl, rfl, rfl⟩
  obtain ⟨hm, hs, hv, rfl⟩ := h
  rw [fullMatch, statusLineRegex, exec_seq, exec_group]
  refine exec_star_greedy_eq_some.mpr ⟨m, _, rfl, forall_isAny_iff.mpr hm, ?_, ?_⟩
  · rw [take_length_sub, exec_seq, exec_lit_eq_some]
    refine ⟨_, rfl, ?_⟩
    rw [exec_seq]
    exact uriPart_eq hs hv rfl
  · intro e rest' hne he hany
    rw [Option.eq_none_iff_forall_ne_some]
    intro c' hsome
    rw [exec_seq, exec_lit_eq_some] at hsome
    obtain ⟨rest, rfl, hsome⟩ := hsome
    rw [exec_seq] at hsome
    obtain ⟨s', v', hs', hv', rfl⟩ := uriPart_shape hsome
    -- a longer method would be that of another division
    have hme : OneLine (m ++ e) := oneLine_append.mpr ⟨hm, forall_isAny_iff.mp hany⟩
    have hle := hlongest (m ++ e) s' v' ⟨hme, hs', hv', by rw [List.append_assoc, he]⟩
    have hpos := List.length_pos_of_ne_nil hne
    rw [List.length_append] at hle
    omega

/-- A request line that is accepted can be divided. -/
theorem statusLine_of_fullMatch (h : statusLineRegex.fullMatch line = some c) :
    ∃ m s v, StatusLine m s v line ∧ (∀ m' s' v', StatusLine m' s' v' line →
      m'.length ≤ m.length) ∧ c 1 = m ∧ c 2 = s ∧ c 3 = v := by
  have hexec := h
  rw [fullMatch, statusLineRegex, exec_seq, exec_group] at hexec
  obtain ⟨m, rest, rfl, hm, hk, hlater⟩ := exec_star_greedy_eq_some.mp hexec
  rw [exec_seq, exec_lit_eq_some] at hk
  obtain ⟨rest, rfl, hk⟩ := hk
  rw [exec_seq] at hk
  obtain ⟨s, v, hs, hv, rfl⟩ := uriPart_shape hk
  have hline : StatusLine m s v (m ++ blank :: (s ++ blank :: (v ++ [cr]))) :=
    ⟨forall_isAny_iff.mp hm, hs, hv, rfl⟩
  have hlongest : ∀ m' s' v', StatusLine m' s' v' (m ++ blank :: (s ++ blank :: (v ++ [cr]))) →
      m'.length ≤ m.length := by
    intro m' s' v' hline'
    by_contra hlt
    rcases List.append_eq_append_iff.mp hline'.line_eq with ⟨e, rfl, he⟩ | ⟨e, rfl, he⟩
    · rw [List.length_append] at hlt
      omega
    · -- the loop would have gone on
      have hne : e ≠ [] := by
        rintro rfl
        rw [List.append_nil] at hlt
        exact hlt (Nat.le_refl _)
      have hnone := hlater e _ hne he.symm fun a ha =>
        forall_isAny_iff.mpr hline'.method a (List.mem_append_right _ ha)
      rw [exec_seq, lit, exec_char_cons, if_pos (by decide), exec_seq] at hnone
      exact Option.some_ne_none _
        ((uriPart_eq hline'.uri hline'.version rfl).symm.trans hnone)
  obtain ⟨c', hc', hcaptures⟩ := fullMatch_statusLine hline hlongest
  rw [h] at hc'
  cases hc'
  exact ⟨m, s, v, hline, hlongest, hcaptures⟩

/-! ## Header lines -/

variable {key : Bytes}

/-- What stands after the colon of a header line. -/
def valueRegex : Regex UInt8 :=
  seq (opt space) (seq (group 2 (plus true anyChar)) (lit cr))

/-- The value of a header line if it begins right after the colon. -/
def plainValue (rest : Bytes) : Option Bytes :=
  if rest.getLast? = some cr ∧ rest.dropLast ≠ [] ∧ OneLine rest.dropLast then some rest.dropLast
  else none

/-- The value of a header line, from what stands after the colon. One white space is left out
where that leaves a value. -/
def headerValue : Bytes → Option Bytes
  | [] => none
  | a :: rest => (if isSpace a then plainValue rest else none).or (plainValue (a :: rest))

theorem plainValue_eq_some : plainValue rest = some v ↔ v ++ [cr] = rest ∧ v ≠ [] ∧ OneLine v := by
  unfold plainValue
  constructor
  · intro h
    split at h
    · rename_i hvalue
      obtain rfl := Option.some.inj h
      have hne : rest ≠ [] := by
        rintro rfl
        exact nomatch hvalue.1
      rw [List.getLast?_eq_some_getLast hne] at hvalue
      refine ⟨?_, hvalue.2⟩
      rw [← Option.some.inj hvalue.1, List.dropLast_append_getLast]
    · cases h
  · rintro ⟨rfl, hne, hline⟩
    rw [List.getLast?_concat, List.dropLast_concat, if_pos ⟨rfl, hne, hline⟩]

theorem exec_plainValue :
    (seq (group 2 (plus true anyChar)) (lit cr)).exec rest c atEnd
      = (plainValue rest).map (Function.update c 2) := by
  refine Option.ext fun c' => ?_
  rw [Option.map_eq_some_iff, exec_seq, exec_group, plus, exec_seq, anyChar, exec_char_eq_some]
  constructor
  · rintro ⟨a, rest, rfl, ha, h⟩
    obtain ⟨w, rest, rfl, hw, hk, -⟩ := exec_star_greedy_eq_some.mp h
    rw [← List.cons_append, take_length_sub, exec_lit_eq_some] at hk
    obtain ⟨rest, rfl, hend⟩ := hk
    obtain ⟨rfl, rfl⟩ := atEnd_eq_some.mp hend
    exact ⟨a :: w, plainValue_eq_some.mpr ⟨rfl, List.cons_ne_nil _ _,
      forall_isAny_iff.mp (List.forall_mem_cons.mpr ⟨ha, hw⟩)⟩, rfl⟩
  · rintro ⟨v, hv, rfl⟩
    obtain ⟨rfl, hne, hline⟩ := plainValue_eq_some.mp hv
    obtain ⟨a, w, rfl⟩ := List.exists_cons_of_ne_nil hne
    obtain ⟨ha, hw⟩ := List.forall_mem_cons.mp (forall_isAny_iff.mpr hline)
    refine ⟨a, w ++ [cr], rfl, ha, exec_star_greedy_append hw ?_ ?_⟩
    · intro b hb
      rw [← Option.some.inj hb]
      decide
    · rw [take_length_sub, exec_lit_eq_some]
      exact ⟨[], rfl, atEnd_eq_some.mpr ⟨rfl, rfl⟩⟩

/-- **The value** that is captured. -/
theorem exec_valueRegex :
    valueRegex.exec rest c atEnd = (headerValue rest).map (Function.update c 2) := by
  rw [valueRegex, exec_seq, exec_opt, exec_plainValue]
  cases rest with
  | nil => rfl
  | cons a rest =>
    rw [space, exec_char_cons, exec_plainValue, headerValue]
    -- the white space is tried first, and given back if nothing is left behind it
    by_cases ha : isSpace a = true
    · rw [if_pos ha, if_pos ha]
      cases plainValue rest with
      | none => rfl
      | some v => rfl
    · rw [if_neg ha, if_neg ha]
      rfl

/-- **The key of a header line** is what stands before its first colon. -/
theorem fullMatch_of_headerValue (hkey : key ≠ []) (hkeyLine : OneLine key) (hcolon : colon ∉ key)
    (hv : headerValue rest = some v) :
    ∃ c, headerRegex.fullMatch (key ++ colon :: rest) = some c ∧ c 1 = key ∧ c 2 = v := by
  obtain ⟨a, w, rfl⟩ := List.exists_cons_of_ne_nil hkey
  obtain ⟨ha, hw⟩ := List.forall_mem_cons.mp (forall_isAny_iff.mpr hkeyLine)
  refine ⟨Function.update (Function.update (fun _ => []) 1 (a :: w)) 2 v, ?_, rfl, rfl⟩
  rw [fullMatch, headerRegex, exec_seq, exec_group, plus, exec_seq, anyChar, exec_char_eq_some]
  refine ⟨a, w ++ colon :: rest, rfl, ha, exec_star_lazy_eq_some.mpr ⟨w, colon :: rest, rfl, hw,
    ?_, fun w' e hne he => ?_⟩⟩
  · rw [take_length_sub, exec_seq, exec_lit_eq_some]
    refine ⟨rest, rfl, ?_⟩
    show valueRegex.exec rest _ atEnd = _
    rw [exec_valueRegex, hv]
    rfl
  · -- the key has no earlier colon
    obtain ⟨b, e, rfl⟩ := List.exists_cons_of_ne_nil hne
    have hb : b ≠ colon := by
      rintro rfl
      refine hcolon (List.mem_cons_of_mem _ ?_)
      rw [← he]
      exact List.mem_append_right _ (List.mem_cons_self ..)
    rw [exec_seq, lit, List.cons_append, exec_char_cons, if_neg (by simpa using hb)]

theorem headerValue_of_fullMatch (h : headerRegex.fullMatch line = some c) :
    ∃ rest, line = c 1 ++ colon :: rest ∧ headerValue rest = some (c 2) := by
  rw [fullMatch, headerRegex, exec_seq, exec_group, plus, exec_seq, anyChar,
    exec_char_eq_some] at h
  obtain ⟨a, rest, rfl, ha, h⟩ := h
  obtain ⟨w, rest, rfl, -, hk, -⟩ := exec_star_lazy_eq_some.mp h
  rw [← List.cons_append, take_length_sub, exec_seq, exec_lit_eq_some] at hk
  obtain ⟨rest, rfl, hk⟩ := hk
  have hvalue : valueRegex.exec rest _ atEnd = some c := hk
  rw [exec_valueRegex] at hvalue
  obtain ⟨v, hv, rfl⟩ := Option.map_eq_some_iff.mp hvalue
  exact ⟨rest, rfl, hv⟩

/-- The value that a line sets the header `key` to, if it sets it. -/
def headerOf (key line : Bytes) : Option Bytes :=
  if key ++ [colon] <+: line then headerValue (line.drop (key.length + 1)) else none

theorem headerOf_append : headerOf key (key ++ colon :: rest) = headerValue rest := by
  have hprefix : key ++ [colon] <+: key ++ colon :: rest :=
    ⟨rest, by rw [List.append_assoc, List.singleton_append]⟩
  have hdrop : (key ++ colon :: rest).drop (key.length + 1) = rest := by
    rw [List.drop_length_add_append, List.drop_one, List.tail_cons]
  rw [headerOf, if_pos hprefix, hdrop]

/-- One turn of the loop over the header lines, for one key. -/
theorem lookup_parseHeaderLine {headers : List (Bytes × Bytes)} (hkey : key ≠ [])
    (hkeyLine : OneLine key) (hcolon : colon ∉ key) :
    (parseHeaderLine headers line).lookup key
      = (headerOf key line).or (headers.lookup key) := by
  unfold parseHeaderLine
  cases hsets : headerOf key line with
  | none =>
    split
    · rfl
    · rename_i c hc
      obtain ⟨rest, hline, hvalue⟩ := headerValue_of_fullMatch hc
      -- the line sets another header
      have hne : key ≠ c 1 := by
        intro heq
        rw [hline, ← heq, headerOf_append, hvalue] at hsets
        cases hsets
      rw [List.lookup_cons, beq_eq_false_iff_ne.mpr hne]
      rfl
  | some v =>
    have hline : key ++ [colon] <+: line := by
      by_contra hnot
      rw [headerOf, if_neg hnot] at hsets
      cases hsets
    obtain ⟨rest, rfl⟩ := hline
    rw [List.append_assoc, List.singleton_append] at hsets ⊢
    rw [headerOf_append] at hsets
    obtain ⟨c, hc, h1, h2⟩ := fullMatch_of_headerValue hkey hkeyLine hcolon hsets
    rw [hc]
    show List.lookup key ((c 1, c 2) :: headers) = some v
    rw [List.lookup_cons, h1, h2, beq_self_eq_true]

/-- **The loop over the header lines**: the last line that sets the key counts. -/
theorem lookup_foldl_parseHeaderLine {lines : List Bytes} {headers : List (Bytes × Bytes)}
    (hkey : key ≠ []) (hkeyLine : OneLine key) (hcolon : colon ∉ key) :
    (lines.foldl parseHeaderLine headers).lookup key
      = (lines.filterMap (headerOf key)).getLast?.or (headers.lookup key) := by
  induction lines generalizing headers with
  | nil => rfl
  | cons line lines ih =>
    rw [List.foldl_cons, ih, lookup_parseHeaderLine hkey hkeyLine hcolon]
    cases hsets : headerOf key line with
    | none => rw [Option.none_or, List.filterMap_cons_none hsets]
    | some v =>
      rw [Option.some_or, List.filterMap_cons_some hsets, List.getLast?_cons]
      cases (lines.filterMap (headerOf key)).getLast? with
      | none => rfl
      | some w => rfl

/-! ## The range -/

variable {a b rangeString value data : Bytes} {range : Range} {request : HttpRequest}

/-- What `(\d+)-(\d*)` captures. -/
theorem captures_of_fullMatch_range (h : rangeRegex.fullMatch rangeString = some c) :
    rangeString = c 1 ++ hyphen :: c 2 ∧ c 1 ≠ [] ∧ (∀ d ∈ c 1, isDigit d = true) ∧
      ∀ d ∈ c 2, isDigit d = true := by
  rw [fullMatch, rangeRegex, exec_seq, exec_group, plus, exec_seq, digit, exec_char_eq_some] at h
  obtain ⟨d, rest, rfl, hd, h⟩ := h
  obtain ⟨w, rest, rfl, hw, hk, -⟩ := exec_star_greedy_eq_some.mp h
  rw [← List.cons_append, take_length_sub, exec_seq, exec_lit_eq_some] at hk
  obtain ⟨rest, rfl, hk⟩ := hk
  rw [exec_group] at hk
  obtain ⟨v, rest, rfl, hv, hend, -⟩ := exec_star_greedy_eq_some.mp hk
  rw [take_length_sub] at hend
  obtain ⟨rfl, rfl⟩ := atEnd_eq_some.mp hend
  refine ⟨?_, List.cons_ne_nil _ _, List.forall_mem_cons.mpr ⟨hd, hw⟩, hv⟩
  rw [List.append_nil]
  rfl

theorem fullMatch_range (hne : a ≠ []) (ha : ∀ d ∈ a, isDigit d = true)
    (hb : ∀ d ∈ b, isDigit d = true) :
    ∃ c, rangeRegex.fullMatch (a ++ hyphen :: b) = some c ∧ c 1 = a ∧ c 2 = b := by
  obtain ⟨d, w, rfl⟩ := List.exists_cons_of_ne_nil hne
  obtain ⟨hd, hw⟩ := List.forall_mem_cons.mp ha
  refine ⟨Function.update (Function.update (fun _ => []) 1 (d :: w)) 2 b, ?_, rfl, rfl⟩
  rw [fullMatch, rangeRegex, exec_seq, exec_group, plus, exec_seq, digit, exec_char_eq_some]
  refine ⟨d, w ++ hyphen :: b, rfl, hd, exec_star_greedy_append hw ?_ ?_⟩
  · intro e he
    rw [← Option.some.inj he]
    decide
  · rw [take_length_sub, exec_seq, exec_lit_eq_some]
    refine ⟨b, rfl, ?_⟩
    rw [exec_group]
    refine exec_star_greedy_eq_some.mpr ⟨b, [], List.append_nil b, hb, ?_, fun e rest hne he => ?_⟩
    · rw [List.length_nil, Nat.sub_zero, List.take_length]
      exact atEnd_eq_some.mpr ⟨rfl, rfl⟩
    · exact absurd (List.append_eq_nil_iff.mp he).1 hne

/-- A number of a range, with the text of the exception where it is too large. -/
theorem stoi_what (hne : a ≠ []) (hdigits : ∀ d ∈ a, isDigit d = true) :
    (stoi a).mapError StoiError.what =
      if (decimalValue a : ℤ) ≤ intMax then .ok (decimalValue a : ℤ)
      else .error (ascii "stoi") := by
  rw [stoi_of_digits hne hdigits]
  split
  · rfl
  · rfl

/-- The range that the value of the header asks for, if it asks for one; `none` if the value is
refused. -/
def rangeOf (value : Bytes) : Option (Option Range) :=
  let first := value.takeWhile isDigit
  let last := (value.dropWhile isDigit).tail
  if first ≠ [] ∧ (value.dropWhile isDigit).head? = some hyphen ∧ last.all isDigit then
    if intMax < decimalValue first ∨ intMax < decimalValue last then none
    else if last = [] then some (some ⟨decimalValue first, none⟩)
    else if decimalValue last < decimalValue first then none
    else some (some ⟨decimalValue first, some (decimalValue last)⟩)
  else some none

theorem rangeOf_append (hne : a ≠ []) (ha : ∀ d ∈ a, isDigit d = true)
    (hb : ∀ d ∈ b, isDigit d = true) :
    rangeOf (a ++ hyphen :: b) =
      if intMax < decimalValue a ∨ intMax < decimalValue b then none
      else if b = [] then some (some ⟨decimalValue a, none⟩)
      else if decimalValue b < decimalValue a then none
      else some (some ⟨decimalValue a, some (decimalValue b)⟩) := by
  have hfirst : (a ++ hyphen :: b).takeWhile isDigit = a := by
    rw [List.takeWhile_append_of_pos ha, List.takeWhile_cons_of_neg (by decide), List.append_nil]
  have hlast : (a ++ hyphen :: b).dropWhile isDigit = hyphen :: b := by
    rw [List.dropWhile_append_of_pos ha, List.dropWhile_cons_of_neg (by decide)]
  rw [rangeOf, hfirst, hlast, if_pos ⟨hne, rfl, List.all_eq_true.mpr hb⟩, List.tail_cons]

/-- **The third block** of the constructor. -/
theorem parseRange_toOption (value : Bytes) : (parseRange value).toOption = rangeOf value := by
  cases hc : rangeRegex.fullMatch value with
  | none =>
    have hparts : ¬ (value.takeWhile isDigit ≠ [] ∧
        (value.dropWhile isDigit).head? = some hyphen ∧
        (value.dropWhile isDigit).tail.all isDigit) := by
      rintro ⟨hne, hhyphen, hdigits⟩
      obtain ⟨c, hsome, -⟩ := fullMatch_range hne (fun d => List.mem_takeWhile_imp)
        (List.all_eq_true.mp hdigits)
      rw [List.cons_head?_tail hhyphen, List.takeWhile_append_dropWhile, hc] at hsome
      cases hsome
    rw [rangeOf, if_neg hparts, parseRange, hc]
    rfl
  | some c =>
    obtain ⟨hvalue, hne, h1, h2⟩ := captures_of_fullMatch_range hc
    rw [hvalue, rangeOf_append hne h1 h2, ← hvalue]
    by_cases ha : (decimalValue (c 1) : ℤ) ≤ intMax
    · have hstart := stoi_what hne h1
      rw [if_pos ha] at hstart
      by_cases hempty : c 2 = []
      · have hmax : ¬ (intMax < decimalValue (c 1) ∨ intMax < decimalValue (c 2)) := by
          rw [hempty]
          exact not_or.mpr ⟨not_lt.mpr ha, by decide⟩
        rw [if_neg hmax, if_pos hempty]
        simp only [parseRange, hc, bind, Except.bind, pure, Except.pure, hstart, if_pos hempty]
        rfl
      · by_cases hb : (decimalValue (c 2) : ℤ) ≤ intMax
        · have hstop := stoi_what hempty h2
          rw [if_pos hb] at hstop
          rw [if_neg (not_or.mpr ⟨not_lt.mpr ha, not_lt.mpr hb⟩), if_neg hempty]
          simp only [parseRange, hc, bind, Except.bind, pure, Except.pure, hstart, hstop,
            if_neg hempty, Nat.cast_lt]
          split
          · rfl
          · rfl
        · have hstop := stoi_what hempty h2
          rw [if_neg hb] at hstop
          rw [if_pos (Or.inr (not_le.mp hb))]
          simp only [parseRange, hc, bind, Except.bind, pure, Except.pure, hstart, hstop,
            if_neg hempty]
          rfl
    · have hstart := stoi_what hne h1
      rw [if_neg ha] at hstart
      rw [if_pos (Or.inl (not_le.mp ha))]
      simp only [parseRange, hc, bind, Except.bind, hstart]
      rfl

/-- A range that is read starts at 0 or later and does not end before it starts. -/
theorem parseRange_ok (h : parseRange rangeString = .ok (some range)) :
    0 ≤ range.start ∧ range.start ≤ intMax ∧
      ∀ stop, range.stop = some stop → range.start ≤ stop ∧ stop ≤ intMax := by
  have hrange : rangeOf rangeString = some (some range) := by
    rw [← parseRange_toOption, h]
    rfl
  unfold rangeOf at hrange
  dsimp only at hrange
  split_ifs at hrange with hparts hmax hempty hlt
  · obtain rfl := Option.some.inj (Option.some.inj hrange)
    exact ⟨Int.natCast_nonneg _, not_lt.mp (not_or.mp hmax).1, nofun⟩
  · obtain rfl := Option.some.inj (Option.some.inj hrange)
    refine ⟨Int.natCast_nonneg _, not_lt.mp (not_or.mp hmax).1, fun stop hstop => ?_⟩
    obtain rfl := Option.some.inj hstop
    exact ⟨Int.ofNat_le.mpr (not_lt.mp hlt), not_lt.mp (not_or.mp hmax).2⟩
  · cases hrange

/-! ## The request -/

/-- What an accepted request is made of. -/
theorem parse_ok (h : parse data = .ok request) :
    parseStatusLine ((getlines data).headD []) =
        .ok (request.method, request.uri, request.httpVersion) ∧
      request.headers = parseHeaders (getlines data).tail ∧
      ∀ range, request.range = some range →
        ∃ rangeString, parseRange rangeString = .ok (some range) := by
  unfold parse at h
  cases hs : parseStatusLine ((getlines data).headD []) with
  | error e =>
    simp only [bind, Except.bind, hs] at h
    cases h
  | ok x =>
    obtain ⟨method, uri, httpVersion⟩ := x
    simp only [bind, Except.bind, pure, Except.pure, hs] at h
    split at h
    · rename_i hlookup
      obtain rfl := Except.ok.inj h
      exact ⟨rfl, rfl, nofun⟩
    · rename_i rangeString hlookup
      cases hr : parseRange rangeString with
      | error e =>
        simp only [hr] at h
        cases h
      | ok range =>
        simp only [hr] at h
        obtain rfl := Except.ok.inj h
        refine ⟨rfl, rfl, fun range' hrange' => ⟨rangeString, ?_⟩⟩
        rw [hr, ← hrange']

/-- The URI of an accepted request is empty or begins with a slash. -/
theorem isUri_of_parse (h : parse data = .ok request) : IsUri request.uri := by
  have hstatus := (parse_ok h).1
  unfold parseStatusLine at hstatus
  split at hstatus
  · cases hstatus
  · rename_i c hc
    obtain ⟨m, s, v, hline, -, -, rfl, -⟩ := statusLine_of_fullMatch hc
    have huri := (Prod.mk.inj (Prod.mk.inj (Except.ok.inj hstatus)).2).1
    rw [← huri]
    exact hline.uri

end

end HttpRequest

end Rechnernetze.Http
