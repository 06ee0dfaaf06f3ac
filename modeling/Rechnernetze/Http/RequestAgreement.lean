import Rechnernetze.Http.RequestGrammar
import Rechnernetze.Http.Snatch

/-!
# The request of `snatch` as `http_server` reads it

`snatch` asks for a range with the header `Range: bytes=a-b`, and `HttpRequest` looks for
`Content-Range: a-b`. The two programs agree on a request exactly if it asks for no range
(`request_agreement_iff`).
-/

namespace Rechnernetze.Http

open Lib Regex HttpRequest Snatch

/-- The range an option of the form `a-b` or `a-` stands for; without the option there is none. -/
inductive RangeText : Bytes → Option Range → Prop
  | absent : RangeText [] none
  | onwards {a : Bytes} (hdigits : ∀ b ∈ a, isDigit b = true) (ha : a ≠ [])
      (hint : (decimalValue a : ℤ) ≤ intMax) :
      RangeText (a ++ [hyphen]) (some ⟨decimalValue a, none⟩)
  | between {a b : Bytes} (hdigits : ∀ d ∈ a ++ b, isDigit d = true) (ha : a ≠ []) (hb : b ≠ [])
      (hle : decimalValue a ≤ decimalValue b) (hint : (decimalValue b : ℤ) ≤ intMax) :
      RangeText (a ++ hyphen :: b) (some ⟨decimalValue a, some (decimalValue b)⟩)

/-- What the server reads off the text is what the client asks for. -/
def Agreement (urlInfo : UrlInfo) (range : Option Range) (data : Bytes) : Prop :=
  ∃ request, HttpRequest.parse data = .ok request ∧ request.method = .GET ∧
    request.uri = slash :: urlInfo.filePathName ∧ request.httpVersion = ascii "HTTP/1.1" ∧
    request.range = range

/-- The header lines of the request. -/
def headerFields (urlInfo : UrlInfo) (opt : Options) : List (Bytes × Bytes) :=
  [(ascii "Host", urlInfo.host), (ascii "Accept", ascii "*/*"),
    (ascii "User-Agent", ascii "snatch/0.1.0"), (ascii "Connection", ascii "close")] ++
  if opt.range = [] then [] else [(ascii "Range", ascii "bytes=" ++ opt.range)]

/-- A key of a header line that is not the one `HttpRequest` looks for. -/
def OtherKey (key : Bytes) : Prop :=
  key ≠ [] ∧ OneLine key ∧ colon ∉ key ∧ key ≠ ascii "Content-Range"

instance (key : Bytes) : Decidable (OtherKey key) := by unfold OtherKey; infer_instance

section
variable {urlInfo : UrlInfo} {opt : Options} {range : Option Range} {key : Bytes}
  {lines : List Bytes} {fields : List (Bytes × Bytes)} {s : Bytes}

/-! ## The lines of the request -/

/-- A header line with its CR. -/
def fieldLine (field : Bytes × Bytes) : Bytes :=
  field.1 ++ colon :: (blank :: field.2 ++ [cr])

theorem add_resultStream (request : HttpRequestBuilder) (key value : Bytes) :
    (request.add key value).resultStream
      = request.resultStream ++ (fieldLine (key, value) ++ [lf]) := by
  have hsep : ascii ": " = [colon, blank] := rfl
  simp [HttpRequestBuilder.add, fieldLine, crlf, hsep]

theorem buildRequest_eq :
    buildRequest urlInfo opt
      = (ascii "GET" ++ blank :: (slash :: urlInfo.filePathName ++ blank ::
          (ascii "HTTP/1.1" ++ [cr]))) ++ lf ::
        ((headerFields urlInfo opt).flatMap (fun field => fieldLine field ++ [lf]) ++
          ([cr] ++ lf :: [])) := by
  have hnew : (HttpRequestBuilder.new urlInfo).resultStream
      = (ascii "GET" ++ blank :: (slash :: urlInfo.filePathName ++ blank ::
          (ascii "HTTP/1.1" ++ [cr]))) ++ lf ::
        (fieldLine (ascii "Host", urlInfo.host) ++ [lf]) := by
    have hget : ascii "GET /" = ascii "GET" ++ [blank, slash] := rfl
    have hversion : ascii " HTTP/1.1" = blank :: ascii "HTTP/1.1" := rfl
    rw [HttpRequestBuilder.new, add_resultStream, hget, hversion]
    simp [crlf]
  have hend : crlf = [cr] ++ lf :: [] := rfl
  unfold buildRequest headerFields
  by_cases hrange : opt.range = []
  · simp only [if_pos hrange, HttpRequestBuilder.toString, add_resultStream, hnew, hend]
    simp
  · simp only [if_neg hrange, HttpRequestBuilder.toString, HttpRequestBuilder.addRange,
      add_resultStream, hnew, hend]
    simp

theorem getlines_fields (hline : ∀ field ∈ fields, lf ∉ fieldLine field) :
    getlines (fields.flatMap (fun field => fieldLine field ++ [lf]) ++ s)
      = fields.map fieldLine ++ getlines s := by
  induction fields with
  | nil => rfl
  | cons field fields ih =>
    rw [List.flatMap_cons, List.append_assoc, List.append_assoc, List.singleton_append,
      getlines_line (hline field (List.mem_cons_self ..)),
      ih fun f hf => hline f (List.mem_cons_of_mem _ hf)]
    rfl

theorem lf_notMem_fieldLine {field : Bytes × Bytes} (hkey : OneLine field.1)
    (hvalue : OneLine field.2) : lf ∉ fieldLine field := by
  intro h
  rcases List.mem_append.mp h with h | h
  · exact hkey.2 h
  · rcases List.mem_cons.mp h with h | h
    · exact absurd h (by decide)
    · rcases List.mem_append.mp h with h | h
      · rcases List.mem_cons.mp h with h | h
        · exact absurd h (by decide)
        · exact hvalue.2 h
      · exact absurd (List.mem_singleton.mp h) (by decide)

/-- A header line of the client does not set the header that is looked up. -/
theorem headerOf_fieldLine {field : Bytes × Bytes} (hkey : OtherKey field.1) :
    headerOf (ascii "Content-Range") (fieldLine field) = none := by
  rw [headerOf, if_neg]
  rintro ⟨rest, hline⟩
  rw [List.append_assoc, List.singleton_append, fieldLine] at hline
  -- the keys stand before the first colon of the line, and differ
  have hkeys := congrArg (List.takeWhile (· ≠ colon)) hline
  rw [takeWhile_ne_append (by decide), takeWhile_ne_append hkey.2.2.1] at hkeys
  exact hkey.2.2.2 hkeys.symm

/-- What the header lines of the client have in common. -/
theorem headerFields_ok (hhost : OneLine urlInfo.host) (hrange : OneLine opt.range) :
    ∀ field ∈ headerFields urlInfo opt, OtherKey field.1 ∧ OneLine field.2 := by
  have hbytes : OneLine (ascii "bytes=" ++ opt.range) :=
    oneLine_append.mpr ⟨by decide, hrange⟩
  intro field hfield
  rcases List.mem_append.mp hfield with h | h
  · simp only [List.mem_cons, List.not_mem_nil, or_false] at h
    rcases h with rfl | rfl | rfl | rfl
    · exact ⟨(by decide : OtherKey (ascii "Host")), hhost⟩
    · decide
    · decide
    · decide
  · split at h
    · cases h
    · rw [List.mem_singleton.mp h]
      exact ⟨(by decide : OtherKey (ascii "Range")), hbytes⟩

/-! ## What the server reads -/

/-- The request line has one division. -/
theorem statusLine_buildRequest {path : Bytes} (hblank : blank ∉ path) (hpath : OneLine path) :
    ∃ c, statusLineRegex.fullMatch (ascii "GET" ++ blank :: (slash :: path ++ blank ::
        (ascii "HTTP/1.1" ++ [cr]))) = some c ∧
      c 1 = ascii "GET" ∧ c 2 = slash :: path ∧ c 3 = ascii "HTTP/1.1" := by
  have huri : IsUri (slash :: path) := ⟨oneLine_cons.mpr ⟨by decide, hpath⟩, Or.inr rfl⟩
  have hversion : IsVersion (ascii "HTTP/1.1") := ⟨46, by decide, rfl⟩
  have hrequest : RequestLine (ascii "GET") (slash :: path) (ascii "GET" ++ blank ::
      (slash :: path ++ blank :: (ascii "HTTP/1.1" ++ [cr]))) := by
    refine ⟨by decide, ⟨?_, rfl⟩, rfl⟩
    rw [List.mem_cons, not_or]
    exact ⟨by decide, hblank⟩
  refine fullMatch_statusLine ⟨by decide, huri, hversion, rfl⟩ fun m s v hline => ?_
  rw [(hrequest.unique hline).1]

/-- The request is accepted, whatever range is asked for, and has none. -/
theorem parse_buildRequest (hblank : blank ∉ urlInfo.filePathName)
    (hpath : OneLine urlInfo.filePathName) (hhost : OneLine urlInfo.host)
    (hrange : OneLine opt.range) :
    ∃ headers, HttpRequest.parse (buildRequest urlInfo opt)
      = .ok ⟨.GET, slash :: urlInfo.filePathName, ascii "HTTP/1.1", headers, none⟩ := by
  have hfields := headerFields_ok hhost hrange
  have hstatus : lf ∉ ascii "GET" ++ blank :: (slash :: urlInfo.filePathName ++ blank ::
      (ascii "HTTP/1.1" ++ [cr])) := by
    rw [List.mem_append, List.mem_cons, List.mem_append, List.mem_cons, List.mem_cons]
    rintro (h | h | (h | h) | h | h)
    · exact absurd h (by decide)
    · exact absurd h (by decide)
    · exact absurd h (by decide)
    · exact hpath.2 h
    · exact absurd h (by decide)
    · exact absurd h (by decide)
  have hlines : getlines (buildRequest urlInfo opt)
      = (ascii "GET" ++ blank :: (slash :: urlInfo.filePathName ++ blank ::
          (ascii "HTTP/1.1" ++ [cr]))) :: ((headerFields urlInfo opt).map fieldLine ++ [[cr]]) := by
    rw [buildRequest_eq, getlines_line hstatus, getlines_fields fun field hfield => ?_,
      getlines_line (by decide)]
    · rfl
    · obtain ⟨hkey, hvalue⟩ := hfields field hfield
      exact lf_notMem_fieldLine hkey.2.1 hvalue
  obtain ⟨c, hc, h1, h2, h3⟩ := statusLine_buildRequest hblank hpath
  -- `Range` is sent, and `Content-Range` is looked up
  have hlookup : (parseHeaders ((headerFields urlInfo opt).map fieldLine ++ [[cr]])).lookup
      (ascii "Content-Range") = none := by
    rw [parseHeaders, lookup_foldl_parseHeaderLine (by decide) (by decide) (by decide),
      List.filterMap_eq_nil_iff.mpr]
    · rfl
    · intro line hline
      rcases List.mem_append.mp hline with hline | hline
      · obtain ⟨field, hfield, rfl⟩ := List.mem_map.mp hline
        exact headerOf_fieldLine (hfields field hfield).1
      · rw [List.mem_singleton.mp hline]
        rfl
  refine ⟨parseHeaders ((headerFields urlInfo opt).map fieldLine ++ [[cr]]), ?_⟩
  simp only [HttpRequest.parse, hlines, List.headD_cons, List.tail_cons, parseStatusLine, hc,
    hlookup, h1, h2, h3]
  rfl

theorem RangeText.oneLine {s : Bytes} (h : RangeText s range) : OneLine s := by
  cases h with
  | absent => decide
  | onwards hdigits => exact oneLine_append.mpr ⟨oneLine_of_digits hdigits, by decide⟩
  | between hdigits =>
    obtain ⟨ha, hb⟩ := List.forall_mem_append.mp hdigits
    exact oneLine_append.mpr ⟨oneLine_of_digits ha,
      oneLine_cons.mpr ⟨by decide, oneLine_of_digits hb⟩⟩

theorem RangeText.eq_none_iff {s : Bytes} (h : RangeText s range) : range = none ↔ s = [] := by
  cases h with
  | absent => simp
  | onwards => simp
  | between => simp

/-- `snatch` accepts these options. -/
theorem RangeText.validateRange {s : Bytes} (h : RangeText s range) : validateRange s = true := by
  have hlanguage : ∀ a b : Bytes, (∀ d ∈ a, isDigit d = true) → (∀ d ∈ b, isDigit d = true) →
      a ++ hyphen :: b ∈ rangeOptionRegex.language := fun a b ha hb =>
    mem_language_seq.mpr ⟨a, mem_language_star_char.mpr ha, hyphen :: b,
      mem_language_seq.mpr ⟨[hyphen], mem_language_lit, b,
        mem_language_opt.mpr (Or.inl (mem_language_star_char.mpr hb)), rfl⟩, rfl⟩
  cases h with
  | absent => rfl
  | onwards hdigits =>
    exact decide_eq_true (Or.inr (fullMatch_isSome_iff.mpr (hlanguage _ [] hdigits nofun)))
  | between hdigits =>
    refine decide_eq_true (Or.inr (fullMatch_isSome_iff.mpr (hlanguage _ _ ?_ ?_)))
    · exact fun d hd => hdigits d (List.mem_append_left _ hd)
    · exact fun d hd => hdigits d (List.mem_append_right _ hd)

/-- What `snatch` accepts as a range is in one line. -/
theorem oneLine_of_validateRange {s : Bytes} (h : Snatch.validateRange s = true) : OneLine s := by
  rcases of_decide_eq_true h with rfl | hmatch
  · decide
  · obtain ⟨a, ha, t, ht, rfl⟩ := mem_language_seq.mp (fullMatch_isSome_iff.mp hmatch)
    obtain ⟨b, hb, c, hc, rfl⟩ := mem_language_seq.mp ht
    obtain ⟨d, hd, rfl⟩ := mem_language_char.mp hb
    have hpoint : OneLine [d] := by
      rw [of_decide_eq_true hd]
      decide
    have hstop : OneLine c := by
      rcases mem_language_opt.mp hc with hc | rfl
      · exact oneLine_of_digits (mem_language_star_char.mp hc)
      · decide
    exact oneLine_append.mpr ⟨oneLine_of_digits (mem_language_star_char.mp ha),
      oneLine_append.mpr ⟨hpoint, hstop⟩⟩

/-- **Agreement of the two programs.** -/
theorem request_agreement_iff (urlInfo : UrlInfo) (opt : Options) (range : Option Range)
    (hblank : blank ∉ urlInfo.filePathName) (hpath : OneLine urlInfo.filePathName)
    (hhost : OneLine urlInfo.host) (hrange : RangeText opt.range range) :
    Agreement urlInfo range (buildRequest urlInfo opt) ↔ opt.range = [] := by
  obtain ⟨headers, hparse⟩ := parse_buildRequest hblank hpath hhost hrange.oneLine
  rw [← hrange.eq_none_iff]
  constructor
  · rintro ⟨request, hrequest, -, -, -, rfl⟩
    rw [hparse] at hrequest
    cases hrequest
    rfl
  · rintro rfl
    exact ⟨_, hparse, rfl, rfl, rfl, rfl⟩

end

/-- The URL `h.de/a`. -/
def exampleUrl : UrlInfo := ⟨ascii "h.de", ascii "a", ascii "a", none⟩

/-- A request without a range. -/
theorem example_request_agreement :
    Agreement exampleUrl none (buildRequest exampleUrl ⟨[], rfl⟩) :=
  (request_agreement_iff exampleUrl ⟨[], rfl⟩ none (by decide) (by decide) (by decide)
    .absent).mpr rfl

/-- The first two bytes of a document are asked for, and the server reads no range. -/
theorem range_request_ignored :
    ¬ ∀ (urlInfo : UrlInfo) (opt : Options) (range : Option Range),
      blank ∉ urlInfo.filePathName → OneLine urlInfo.filePathName → OneLine urlInfo.host →
      RangeText opt.range range → Agreement urlInfo range (buildRequest urlInfo opt) := by
  intro h
  have hdigits : ∀ d ∈ ascii "0" ++ ascii "1", isDigit d = true := List.all_eq_true.mp (by decide)
  have hrange : RangeText (ascii "0-1") (some ⟨0, some 1⟩) :=
    .between hdigits (by decide) (by decide) (by decide) (by decide)
  obtain ⟨request, hrequest, -, -, -, hasked⟩ := h exampleUrl ⟨ascii "0-1", rfl⟩ _ (by decide)
    (by decide) (by decide) hrange
  obtain ⟨headers, hparse⟩ : ∃ headers, HttpRequest.parse (buildRequest exampleUrl
      ⟨ascii "0-1", rfl⟩) = .ok ⟨.GET, slash :: ascii "a", ascii "HTTP/1.1", headers, none⟩ :=
    parse_buildRequest (by decide) (by decide) (by decide) (by decide)
  rw [hparse] at hrequest
  cases hrequest
  cases hasked

end Rechnernetze.Http
