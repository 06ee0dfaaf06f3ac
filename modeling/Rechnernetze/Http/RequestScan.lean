import Rechnernetze.Http.RequestGrammar
import Rechnernetze.Lib.Scan

/-!
# Requests read without backtracking

What the constructor of `HttpRequest` makes of a text, with plain loops in place of its three
expressions (`request_eq_scan`). The request line is read from its end: the version has a fixed
length there, and the URI begins at the last blank it can begin at. A header line is read from
its beginning, and a range is two numbers.
-/

namespace Rechnernetze.Http

open Lib Regex

namespace HttpRequest

/-- What can follow the method and a blank. -/
def UriStart (s : Bytes) : Prop := s = [] ∨ s.head? = some slash

instance (s : Bytes) : Decidable (UriStart s) := by unfold UriStart; infer_instance

/-- The text divided at the last blank at which the URI can begin. -/
def splitUri : Bytes → Option (Bytes × Bytes)
  | [] => none
  | a :: s =>
    ((splitUri s).map fun x => (a :: x.1, x.2)).or
      (if a = blank ∧ UriStart s then some ([], s) else none)

/-- The version with the point replaced by any character. -/
def scanVersion (v : Bytes) : Bool :=
  isAny (v.getD 6 0) ∧ v = ascii "HTTP/1" ++ v.getD 6 0 :: ascii "1"

/-- The request line: method, URI and version. A blank, the version and a CR are its last ten
characters. -/
def scanStatusLine (line : Bytes) : Option (Bytes × Bytes × Bytes) :=
  let front := line.take (line.length - 10)
  let version := (line.drop (line.length - 9)).take 8
  if front ++ blank :: (version ++ [cr]) = line ∧ scanVersion version ∧ OneLine front then
    (splitUri front).map fun x => (x.1, x.2, version)
  else none

/-- The value behind a colon. -/
def scanValue : Bytes → Option Bytes
  | [] => none
  | a :: rest => if a = colon then headerValue rest else none

/-- A header line: the key ends before the first colon that has a value behind it. -/
def scanHeaderLine : Bytes → Option (Bytes × Bytes)
  | [] => none
  | a :: line =>
    if isAny a then
      firstSplit isAny (fun key rest => (scanValue rest).map fun value => (a :: key, value)) line
    else none

/-- The value of `Content-Range`. -/
def scanRange (value : Bytes) : Except Bytes (Option Range) :=
  let first := value.takeWhile isDigit
  let last := (value.dropWhile isDigit).tail
  if first ≠ [] ∧ (value.dropWhile isDigit).head? = some hyphen ∧ last.all isDigit then
    if intMax < decimalValue first then .error (ascii "stoi")
    else if last = [] then .ok (some ⟨decimalValue first, none⟩)
    else if intMax < decimalValue last then .error (ascii "stoi")
    else if decimalValue last < decimalValue first then
      .error (ascii "Range end can't be smaller than range start")
    else .ok (some ⟨decimalValue first, some (decimalValue last)⟩)
  else .ok none

/-- `parse`, without expressions. -/
def scan (data : Bytes) : Except Bytes HttpRequest :=
  match scanStatusLine (firstLine data) with
  | none => .error (ascii "Failed to parse Status-Line: " ++ firstLine data)
  | some (method, uri, version) =>
    let headers := ((getlines data).tail.filterMap scanHeaderLine).reverse
    let range : Except Bytes (Option Range) := match headers.lookup (ascii "Content-Range") with
      | none => .ok none
      | some value => scanRange value
    range.map fun range =>
      ⟨if method = ascii "GET" then .GET else .NONE, uri, version, headers, range⟩

section
variable {m m' s s' u v line rest value data : Bytes} {c : Captures UInt8}

/-! ## The request line -/

theorem splitUri_eq_none (h : splitUri line = none) (hs : UriStart s) :
    m ++ blank :: s ≠ line := by
  induction line generalizing m with
  | nil => exact fun heq => List.cons_ne_nil _ _ (List.append_eq_nil_iff.mp heq).2
  | cons a line ih =>
    obtain ⟨hlater, hhere⟩ := Option.or_eq_none_iff.mp h
    cases m with
    | nil =>
      intro heq
      obtain ⟨rfl, rfl⟩ := List.cons.inj heq
      rw [if_pos ⟨rfl, hs⟩] at hhere
      cases hhere
    | cons b m => exact fun heq => ih (Option.map_eq_none_iff.mp hlater) (List.cons.inj heq).2

/-- **The last blank** at which the URI can begin. -/
theorem splitUri_eq_some (h : splitUri line = some (m, s)) :
    m ++ blank :: s = line ∧ UriStart s ∧
      ∀ m' s', m' ++ blank :: s' = line → UriStart s' → m'.length ≤ m.length := by
  induction line generalizing m with
  | nil => cases h
  | cons a line ih =>
    rcases Option.or_eq_some_iff.mp h with hlater | ⟨hlater, hhere⟩
    · obtain ⟨⟨m₁, s₁⟩, hsplit, heq⟩ := Option.map_eq_some_iff.mp hlater
      obtain ⟨rfl, rfl⟩ := Prod.mk.inj heq
      obtain ⟨rfl, hs, hlast⟩ := ih hsplit
      refine ⟨rfl, hs, fun m' s' heq hs' => ?_⟩
      cases m' with
      | nil => exact Nat.zero_le _
      | cons b m' =>
        have hle := hlast m' s' (List.cons.inj heq).2 hs'
        simp only [List.length_cons]
        omega
    · split at hhere
      · rename_i hstart
        obtain ⟨rfl, rfl⟩ := Prod.mk.inj (Option.some.inj hhere)
        rw [hstart.1]
        refine ⟨rfl, hstart.2, fun m' s' heq hs' => ?_⟩
        cases m' with
        | nil => exact Nat.le_refl _
        | cons b m' =>
          exact absurd (List.cons.inj heq).2
            (splitUri_eq_none (Option.map_eq_none_iff.mp hlater) hs')
      · cases hhere

theorem scanVersion_iff : scanVersion v = true ↔ IsVersion v := by
  unfold scanVersion
  rw [decide_eq_true_iff]
  constructor
  · rintro ⟨hany, hv⟩
    exact ⟨v.getD 6 0, hany, hv⟩
  · rintro ⟨a, ha, rfl⟩
    exact ⟨ha, rfl⟩

/-- In a line with a division the last ten characters are found. -/
theorem StatusLine.scan_eq (h : StatusLine m s v line) :
    scanStatusLine line = (splitUri (m ++ blank :: s)).map fun x => (x.1, x.2, v) := by
  obtain ⟨hm, hs, hv, hline⟩ := h
  have hparts : (m ++ blank :: s) ++ (blank :: (v ++ [cr])) = line := by
    rw [← hline, List.append_assoc, List.cons_append]
  have hlength : line.length = (m ++ blank :: s).length + 10 := by
    simp only [← hparts, List.length_append, List.length_cons, List.length_nil, hv.length]
  have hten : line.length - 10 = (m ++ blank :: s).length := by omega
  have hnine : line.length - 9 = (m ++ blank :: s).length + 1 := by omega
  have hfront : line.take (line.length - 10) = m ++ blank :: s := by
    rw [hten, ← hparts, List.take_left]
  have hversion : (line.drop (line.length - 9)).take 8 = v := by
    rw [hnine, ← hparts, List.drop_length_add_append, List.drop_one, List.tail_cons,
      List.take_left' hv.length]
  have hone : OneLine (m ++ blank :: s) :=
    oneLine_append.mpr ⟨hm, oneLine_cons.mpr ⟨by decide, hs.1⟩⟩
  rw [scanStatusLine, hfront, hversion, if_pos ⟨hparts, scanVersion_iff.mpr hv, hone⟩]

theorem scanStatusLine_eq_some (h : scanStatusLine line = some (m, s, v)) :
    StatusLine m s v line ∧
      ∀ m' s' v', StatusLine m' s' v' line → m'.length ≤ m.length := by
  have hline : StatusLine m s v line := by
    unfold scanStatusLine at h
    dsimp only at h
    split at h
    · rename_i hparts
      obtain ⟨hline, hversion, hone⟩ := hparts
      obtain ⟨x, hsplit, heq⟩ := Option.map_eq_some_iff.mp h
      obtain ⟨rfl, hrest⟩ := Prod.mk.inj heq
      obtain ⟨rfl, rfl⟩ := Prod.mk.inj hrest
      obtain ⟨hfront, hs, -⟩ := splitUri_eq_some hsplit
      rw [← hfront] at hone hline
      obtain ⟨hm, hone⟩ := oneLine_append.mp hone
      refine ⟨hm, ⟨(oneLine_cons.mp hone).2, hs⟩, scanVersion_iff.mp hversion, ?_⟩
      rwa [List.append_assoc, List.cons_append] at hline
    · cases h
  refine ⟨hline, fun m' s' v' hline' => ?_⟩
  rw [hline'.scan_eq] at h
  obtain ⟨x, hsplit, heq⟩ := Option.map_eq_some_iff.mp h
  rw [← (Prod.mk.inj heq).1]
  exact (splitUri_eq_some hsplit).2.2 m' s' rfl hline'.uri.2

/-- **The first block** of the constructor. -/
theorem parseStatusLine_eq :
    parseStatusLine line = match scanStatusLine line with
      | none => .error (ascii "Failed to parse Status-Line: " ++ line)
      | some (m, s, v) => .ok (if m = ascii "GET" then .GET else .NONE, s, v) := by
  unfold parseStatusLine
  cases hscan : scanStatusLine line with
  | some x =>
    obtain ⟨m, s, v⟩ := x
    obtain ⟨hline, hlongest⟩ := scanStatusLine_eq_some hscan
    obtain ⟨c, hc, rfl, rfl, rfl⟩ := fullMatch_statusLine hline hlongest
    rw [hc]
  | none =>
    cases hmatch : statusLineRegex.fullMatch line with
    | none => rfl
    | some c =>
      obtain ⟨m, s, v, hline, -⟩ := statusLine_of_fullMatch hmatch
      rw [hline.scan_eq, Option.map_eq_none_iff] at hscan
      exact absurd rfl (splitUri_eq_none hscan hline.uri.2)

/-! ## Header lines -/

theorem exec_scanValue :
    (seq (lit colon) valueRegex).exec rest c atEnd
      = (scanValue rest).map (Function.update c 2) := by
  rw [exec_seq]
  cases rest with
  | nil => rfl
  | cons a rest =>
    rw [scanValue]
    by_cases ha : a = colon
    · rw [if_pos ha, ha, exec_lit_cons, exec_valueRegex]
    · rw [if_neg ha, exec_lit_cons_of_ne ha]
      rfl

theorem fullMatch_headerRegex :
    headerRegex.fullMatch line = (scanHeaderLine line).map fun x =>
      Function.update (Function.update (fun _ => []) 1 x.1) 2 x.2 := by
  rw [fullMatch, headerRegex, exec_seq, exec_group, plus, exec_seq, anyChar]
  cases line with
  | nil => rfl
  | cons a line =>
    rw [exec_char_cons, scanHeaderLine]
    split
    · rw [exec_star_lazy, map_firstSplit]
      refine firstSplit_congr fun key rest hline => ?_
      have hkey : (a :: line).take ((a :: line).length - rest.length) = a :: key := by
        rw [← hline, ← List.cons_append, take_length_sub]
      rw [hkey, Option.map_map]
      exact exec_scanValue
    · rfl

theorem parseHeaderLine_eq (headers : List (Bytes × Bytes)) :
    parseHeaderLine headers line = (scanHeaderLine line).toList ++ headers := by
  unfold parseHeaderLine
  rw [fullMatch_headerRegex]
  cases scanHeaderLine line with
  | none => rfl
  | some x => rfl

/-- **The second block** of the constructor. -/
theorem parseHeaders_eq (lines : List Bytes) :
    parseHeaders lines = (lines.filterMap scanHeaderLine).reverse := by
  have hloop : ∀ headers, lines.foldl parseHeaderLine headers
      = (lines.filterMap scanHeaderLine).reverse ++ headers := by
    induction lines with
    | nil => exact fun _ => rfl
    | cons line lines ih =>
      intro headers
      rw [List.foldl_cons, ih, parseHeaderLine_eq]
      cases hline : scanHeaderLine line with
      | none => rw [List.filterMap_cons_none hline]; rfl
      | some x => rw [List.filterMap_cons_some hline]; simp
  exact (hloop []).trans (List.append_nil _)

/-! ## The range -/

/-- **The third block** of the constructor. -/
theorem parseRange_eq : parseRange value = scanRange value := by
  unfold scanRange
  dsimp only
  by_cases hparts : value.takeWhile isDigit ≠ [] ∧
      (value.dropWhile isDigit).head? = some hyphen ∧
      (value.dropWhile isDigit).tail.all isDigit = true
  · obtain ⟨hne, hhyphen, hdigits⟩ := hparts
    have hfirst : ∀ d ∈ value.takeWhile isDigit, isDigit d = true := fun d => List.mem_takeWhile_imp
    have hlast := List.all_eq_true.mp hdigits
    obtain ⟨c, hc, h1, h2⟩ := fullMatch_range hne hfirst hlast
    rw [List.cons_head?_tail hhyphen, List.takeWhile_append_dropWhile] at hc
    rw [if_pos ⟨hne, hhyphen, hdigits⟩]
    simp only [parseRange, hc, h1, h2, stoi_what hne hfirst]
    by_cases ha : (decimalValue (value.takeWhile isDigit) : ℤ) ≤ intMax
    · rw [if_pos ha, if_neg (not_lt.mpr ha)]
      simp only [bind, Except.bind]
      split
      · rfl
      · rename_i hempty
        rw [stoi_what hempty hlast]
        by_cases hb : (decimalValue (value.dropWhile isDigit).tail : ℤ) ≤ intMax
        · rw [if_pos hb, if_neg (not_lt.mpr hb)]
          simp only [Nat.cast_lt]
          split
          · rfl
          · rfl
        · rw [if_neg hb, if_pos (not_le.mp hb)]
    · rw [if_neg ha, if_pos (not_le.mp ha)]
      rfl
  · have hnone : rangeRegex.fullMatch value = none := by
      rw [Option.eq_none_iff_forall_ne_some]
      intro c hc
      obtain ⟨hvalue, hne, h1, h2⟩ := captures_of_fullMatch_range hc
      refine hparts ?_
      rw [hvalue, List.takeWhile_append_of_pos h1, List.dropWhile_append_of_pos h1,
        List.takeWhile_cons_of_neg (by decide), List.dropWhile_cons_of_neg (by decide),
        List.append_nil]
      exact ⟨hne, rfl, List.all_eq_true.mpr h2⟩
    rw [if_neg hparts, parseRange, hnone]

end

/-- **Requests are read by a plain scan**, whatever the text. -/
theorem request_eq_scan (data : Bytes) : parse data = scan data := by
  simp only [parse, scan, headD_getlines, parseStatusLine_eq, parseHeaders_eq, parseRange_eq]
  cases scanStatusLine (firstLine data) with
  | none => rfl
  | some x =>
    obtain ⟨m, s, v⟩ := x
    simp only [bind, Except.bind, pure, Except.pure]
    cases ((getlines data).tail.filterMap scanHeaderLine).reverse.lookup
      (ascii "Content-Range") with
    | none => rfl
    | some value =>
      cases hrange : scanRange value with
      | error e => simp only [hrange]; rfl
      | ok range => simp only [hrange]; rfl

/-- A CR behind the first colon is a white space for the second one. -/
example : scanHeaderLine (ascii "a:b:" ++ [cr] ++ ascii "c" ++ [cr])
    = some (ascii "a:b", ascii "c") := by
  decide

end HttpRequest

end Rechnernetze.Http
