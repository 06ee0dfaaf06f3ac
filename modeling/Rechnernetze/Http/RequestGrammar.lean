import Rechnernetze.Http.HttpRequestTheorems

/-!
# The grammar of a request line

A request line is a method, a URI that starts with a slash and `HTTP/1.1`, without blanks in the
first two. The expression of `HttpRequest` admits blanks there, no URI at all and any character
for the point of the version, and a CR in the method or the URI it refuses. Apart from these
lines it is the grammar (`grammar_met_iff`): a line of the grammar has one division only
(`RequestLine.unique`).
-/

namespace Rechnernetze.Http

open Lib Regex

namespace HttpRequest

/-- A request line of the grammar, with its parts. -/
structure RequestLine (m u line : Bytes) : Prop where
  method : blank ∉ m
  uri : blank ∉ u ∧ u.head? = some slash
  line_eq : m ++ blank :: (u ++ (ascii " HTTP/1.1" ++ [cr])) = line

/-- The text up to its first LF. -/
def firstLine (data : Bytes) : Bytes := data.takeWhile (· ≠ lf)

/-- What is promised of the first block of the constructor. -/
structure GrammarMet (data : Bytes) : Prop where
  accepts_iff : (∃ r, parseStatusLine ((getlines data).headD []) = .ok r) ↔
    ∃ m u, RequestLine m u (firstLine data)
  reads : ∀ m u method uri version, RequestLine m u (firstLine data) →
    parseStatusLine ((getlines data).headD []) = .ok (method, uri, version) →
      uri = u ∧ version = ascii "HTTP/1.1" ∧ (method = .GET ↔ m = ascii "GET")
  refuses : (¬ ∃ m u, RequestLine m u (firstLine data)) →
    HttpRequest.parse data = .error (ascii "Failed to parse Status-Line: " ++ firstLine data)

/-- The expression and the grammar divide the line alike: each division that the expression
admits has no blanks in the method and the URI, a URI, and the point in the version, and those of
the grammar have no CR in the method and the URI. -/
structure Strict (line : Bytes) : Prop where
  admitted : ∀ m s v, StatusLine m s v line →
    blank ∉ m ∧ blank ∉ s ∧ s ≠ [] ∧ v = ascii "HTTP/1.1"
  oneLine : ∀ m u, RequestLine m u line → cr ∉ m ∧ cr ∉ u

section
variable {m m' s u v line data : Bytes} {c : Captures UInt8}

theorem headD_getlines (data : Bytes) : (getlines data).headD [] = firstLine data := by
  induction data with
  | nil => rfl
  | cons a data ih =>
    unfold firstLine at ih ⊢
    rw [getlines]
    by_cases ha : a = lf
    · rw [if_pos ha, ha, List.takeWhile_cons_of_neg (by decide)]
      rfl
    · rw [if_neg ha, List.takeWhile_cons, if_pos (decide_eq_true ha), ← ih]
      cases getlines data <;> rfl

theorem lf_notMem_firstLine (data : Bytes) : lf ∉ firstLine data := by
  intro h
  have hne := List.mem_takeWhile_imp h
  exact absurd rfl (of_decide_eq_true hne)

/-! ## Divisions -/

/-- **A line of the grammar has one division**, also for the expression. -/
theorem RequestLine.unique (h : RequestLine m u line) (h' : StatusLine m' s v line) :
    m' = m ∧ s = u ∧ v = ascii "HTTP/1.1" := by
  have hline : (m ++ blank :: u) ++ (blank :: (ascii "HTTP/1.1" ++ [cr]))
      = (m' ++ blank :: s) ++ (blank :: (v ++ [cr])) := by
    rw [List.append_assoc, List.append_assoc, List.cons_append, List.cons_append]
    exact h.line_eq.trans h'.line_eq.symm
  have hlength : (blank :: (ascii "HTTP/1.1" ++ [cr])).length = (blank :: (v ++ [cr])).length := by
    rw [List.length_cons, List.length_cons, List.length_append, List.length_append,
      h'.version.length]
    rfl
  obtain ⟨hparts, hend⟩ := List.append_inj' hline hlength
  obtain ⟨hm, -, hu⟩ := (List.append_cons_inj_of_notMem h.method h.uri.1).mp hparts
  exact ⟨hm.symm, hu.symm, (List.append_cancel_right (List.cons.inj hend).2).symm⟩

theorem RequestLine.statusLine (h : RequestLine m u line) (hm : OneLine m) (hu : OneLine u) :
    StatusLine m u (ascii "HTTP/1.1") line where
  method := hm
  uri := ⟨hu, Or.inr h.uri.2⟩
  version := ⟨point, by decide, rfl⟩
  line_eq := h.line_eq

theorem StatusLine.requestLine (h : StatusLine m s v line) (hm : blank ∉ m) (hs : blank ∉ s)
    (hne : s ≠ []) (hv : v = ascii "HTTP/1.1") : RequestLine m s line where
  method := hm
  uri := ⟨hs, h.uri.2.resolve_left hne⟩
  line_eq := by
    rw [← h.line_eq, hv]
    rfl

/-- Where there is a division the expression matches. -/
theorem fullMatch_of_statusLine (h : StatusLine m s v line) :
    ∃ c, statusLineRegex.fullMatch line = some c := by
  obtain ⟨hm, hs, hv, rfl⟩ := h
  refine Option.ne_none_iff_exists'.mp fun hnone => ?_
  rw [fullMatch, statusLineRegex, exec_seq, exec_group] at hnone
  have hk := exec_star_char_eq_none.mp hnone m _ rfl (forall_isAny_iff.mpr hm)
  rw [exec_seq, lit, exec_char_cons, if_pos (by decide), exec_seq] at hk
  exact Option.some_ne_none _ ((uriPart_eq hs hv rfl).symm.trans hk)

theorem parseStatusLine_eq_ok_iff :
    (∃ r, parseStatusLine line = .ok r) ↔ ∃ m s v, StatusLine m s v line := by
  unfold parseStatusLine
  constructor
  · rintro ⟨r, hr⟩
    split at hr
    · cases hr
    · rename_i c hc
      obtain ⟨m, s, v, h, -⟩ := statusLine_of_fullMatch hc
      exact ⟨m, s, v, h⟩
  · rintro ⟨m, s, v, h⟩
    obtain ⟨c, hc⟩ := fullMatch_of_statusLine h
    rw [hc]
    exact ⟨_, rfl⟩

/-- The parts of a line of the grammar, if it is accepted. -/
theorem RequestLine.parts {method : Method} {uri version : Bytes} (h : RequestLine m u line)
    (hok : parseStatusLine line = .ok (method, uri, version)) :
    uri = u ∧ version = ascii "HTTP/1.1" ∧ (method = .GET ↔ m = ascii "GET") := by
  unfold parseStatusLine at hok
  split at hok
  · cases hok
  · rename_i c hc
    obtain ⟨m', s, v, hdivision, -, h1, h2, h3⟩ := statusLine_of_fullMatch hc
    obtain ⟨rfl, rfl, rfl⟩ := h.unique hdivision
    cases hok
    rw [h1]
    refine ⟨h2, h3, ?_⟩
    split
    · rename_i hget
      exact ⟨fun _ => hget, fun _ => rfl⟩
    · rename_i hget
      exact ⟨nofun, fun h => absurd h hget⟩

theorem parse_of_refused (h : ¬ ∃ r, parseStatusLine ((getlines data).headD []) = .ok r) :
    HttpRequest.parse data = .error (ascii "Failed to parse Status-Line: " ++ firstLine data) := by
  have herror : parseStatusLine ((getlines data).headD [])
      = .error (ascii "Failed to parse Status-Line: " ++ firstLine data) := by
    unfold parseStatusLine at h ⊢
    rw [headD_getlines] at h ⊢
    split
    · rfl
    · rename_i c hc
      rw [hc] at h
      exact absurd ⟨_, rfl⟩ h
  simp only [HttpRequest.parse, herror]
  rfl

end

/-- **The grammar of request lines is met** exactly if the line is strict. -/
theorem grammar_met_iff (data : Bytes) : GrammarMet data ↔ Strict (firstLine data) := by
  constructor
  · intro h
    have haccepts := h.accepts_iff
    rw [headD_getlines, parseStatusLine_eq_ok_iff] at haccepts
    refine ⟨fun m s v hdivision => ?_, fun m u hline => ?_⟩
    · obtain ⟨m', u, hline⟩ := haccepts.mp ⟨m, s, v, hdivision⟩
      obtain ⟨rfl, rfl, rfl⟩ := hline.unique hdivision
      refine ⟨hline.method, hline.uri.1, ?_, rfl⟩
      rintro rfl
      exact nomatch hline.uri.2
    · obtain ⟨m', s, v, hdivision⟩ := haccepts.mpr ⟨m, u, hline⟩
      obtain ⟨rfl, rfl, -⟩ := hline.unique hdivision
      exact ⟨hdivision.method.1, hdivision.uri.1.1⟩
  · intro h
    have haccepts : (∃ r, parseStatusLine ((getlines data).headD []) = .ok r) ↔
        ∃ m u, RequestLine m u (firstLine data) := by
      rw [headD_getlines, parseStatusLine_eq_ok_iff]
      constructor
      · rintro ⟨m, s, v, hdivision⟩
        obtain ⟨hm, hs, hne, hv⟩ := h.admitted m s v hdivision
        exact ⟨m, s, hdivision.requestLine hm hs hne hv⟩
      · rintro ⟨m, u, hline⟩
        obtain ⟨hm, hu⟩ := h.oneLine m u hline
        have hlf := lf_notMem_firstLine data
        rw [← hline.line_eq] at hlf
        have hline' := hline.statusLine ⟨hm, fun h => hlf (by simp [h])⟩
          ⟨hu, fun h => hlf (by simp [h])⟩
        exact ⟨m, u, _, hline'⟩
    refine ⟨haccepts, fun m u method uri version hline hok => ?_, fun hnone => ?_⟩
    · rw [headD_getlines] at hok
      exact hline.parts hok
    · exact parse_of_refused fun h => hnone (haccepts.mp h)

/-- A version without the point is accepted. -/
theorem other_version_accepted : ¬ ∀ data : Bytes, GrammarMet data := by
  intro h
  have hdivision : StatusLine (ascii "GET") (ascii "/") (ascii "HTTP/1x1")
      (firstLine (ascii "GET / HTTP/1x1" ++ crlf)) :=
    ⟨by decide, ⟨by decide, Or.inr rfl⟩, ⟨120, by decide, rfl⟩, by decide⟩
  obtain ⟨m, u, hline⟩ := (h (ascii "GET / HTTP/1x1" ++ crlf)).accepts_iff.mp (by
    rw [headD_getlines]
    exact parseStatusLine_eq_ok_iff.mpr ⟨_, _, _, hdivision⟩)
  exact absurd (hline.unique hdivision).2.2 (by decide)

end HttpRequest

end Rechnernetze.Http
