import Rechnernetze.Http.RequestGrammar

/-!
# The influence of the body on the request

The loop over the header lines goes on behind the empty line, so the lines of the body are read
like those of the head, and the last `Content-Range` of both counts. Nothing else of the body
reaches the values of the request: two bodies are told apart exactly if, with the head, they ask
for different ranges (`body_ignored_iff`).
-/

namespace Rechnernetze.Http

open Lib Regex

namespace HttpRequest

/-- A request up to its first empty line. -/
structure RequestHead (head : Bytes) : Prop where
  ends : crlf ++ crlf <:+ head
  first : ∀ p, p <+: head → crlf ++ crlf <:+ p → p = head

/-- Both requests are refused, or both are accepted with the same values. -/
inductive Agree : Except Bytes HttpRequest → Except Bytes HttpRequest → Prop
  | refused {e e' : Bytes} : Agree (.error e) (.error e')
  | accepted {r r' : HttpRequest} (method : r.method = r'.method) (uri : r.uri = r'.uri)
      (httpVersion : r.httpVersion = r'.httpVersion) (range : r.range = r'.range) :
      Agree (.ok r) (.ok r')

/-- The range that the lines ask for: the last one that sets the header counts. -/
def askedRange (lines : List Bytes) : Option (Option Range) :=
  match (lines.filterMap (headerOf (ascii "Content-Range"))).getLast? with
  | none => some none
  | some value => rangeOf value

section
variable {head data u v : Bytes} {method : Method}

/-! ## The values of a request -/

/-- **The second and the third block**, for an accepted request line. -/
theorem parse_toOption (h : parseStatusLine ((getlines data).headD []) = .ok (method, u, v)) :
    (parse data).toOption = (askedRange (getlines data).tail).map fun range =>
      ⟨method, u, v, parseHeaders (getlines data).tail, range⟩ := by
  have hlookup : (parseHeaders (getlines data).tail).lookup (ascii "Content-Range")
      = ((getlines data).tail.filterMap (headerOf (ascii "Content-Range"))).getLast? := by
    rw [parseHeaders, lookup_foldl_parseHeaderLine (by decide) (by decide) (by decide)]
    exact Option.or_none
  simp only [parse, bind, Except.bind, pure, Except.pure, h, hlookup, askedRange]
  cases ((getlines data).tail.filterMap (headerOf (ascii "Content-Range"))).getLast? with
  | none => rfl
  | some value =>
    show _ = (rangeOf value).map _
    rw [← parseRange_toOption]
    cases hrange : parseRange value with
    | error e => simp only [hrange]; rfl
    | ok range => simp only [hrange]; rfl

/-- Two requests with one request line agree if they have one range. -/
theorem agree_iff {x y : Except Bytes HttpRequest} {headers headers' : List (Bytes × Bytes)}
    {asked asked' : Option (Option Range)}
    (hx : x.toOption = asked.map fun range => ⟨method, u, v, headers, range⟩)
    (hy : y.toOption = asked'.map fun range => ⟨method, u, v, headers', range⟩) :
    Agree x y ↔ asked = asked' := by
  cases x with
  | error e =>
    obtain rfl := Option.map_eq_none_iff.mp hx.symm
    cases y with
    | error e' =>
      obtain rfl := Option.map_eq_none_iff.mp hy.symm
      exact iff_of_true .refused rfl
    | ok r' =>
      obtain ⟨range', rfl, -⟩ := Option.map_eq_some_iff.mp hy.symm
      exact iff_of_false nofun nofun
  | ok r =>
    obtain ⟨range, rfl, rfl⟩ := Option.map_eq_some_iff.mp hx.symm
    cases y with
    | error e' =>
      obtain rfl := Option.map_eq_none_iff.mp hy.symm
      exact iff_of_false nofun nofun
    | ok r' =>
      obtain ⟨range', rfl, rfl⟩ := Option.map_eq_some_iff.mp hy.symm
      constructor
      · intro h
        cases h with
        | accepted _ _ _ hrange => exact congrArg some hrange
      · intro h
        exact .accepted rfl rfl rfl (Option.some.inj h)

/-! ## The lines of the head -/

theorem RequestHead.getlines_append (h : RequestHead head) (body : Bytes) :
    getlines (head ++ body) = getlines head ++ getlines body := by
  obtain ⟨start, rfl⟩ := h.ends
  have hend : start ++ (crlf ++ crlf) = start ++ crlf ++ [cr] ++ [lf] := by simp [crlf]
  rw [hend, Lib.getlines_append]

theorem RequestHead.getlines_ne_nil (h : RequestHead head) : getlines head ≠ [] := by
  obtain ⟨start, rfl⟩ := h.ends
  exact Lib.getlines_ne_nil (List.append_ne_nil_of_right_ne_nil _ (by decide))

end

/-- **Two bodies** are told apart exactly by the ranges that are asked for with them. -/
theorem body_ignored_iff (head b₁ b₂ : Bytes) (h : RequestHead head) :
    Agree (parse (head ++ b₁)) (parse (head ++ b₂)) ↔
      (¬ ∃ m s v, StatusLine m s v (firstLine head)) ∨
        askedRange ((getlines head).tail ++ getlines b₁)
          = askedRange ((getlines head).tail ++ getlines b₂) := by
  have hfirst : ∀ b, (getlines (head ++ b)).headD [] = firstLine head := by
    intro b
    rw [h.getlines_append, ← headD_getlines]
    obtain ⟨line, lines, hlines⟩ := List.exists_cons_of_ne_nil h.getlines_ne_nil
    rw [hlines]
    rfl
  have htail : ∀ b, (getlines (head ++ b)).tail = (getlines head).tail ++ getlines b := by
    intro b
    rw [h.getlines_append, List.tail_append_of_ne_nil h.getlines_ne_nil]
  rw [← parseStatusLine_eq_ok_iff]
  by_cases hstatus : ∃ r, parseStatusLine (firstLine head) = .ok r
  · obtain ⟨⟨method, u, v⟩, hr⟩ := hstatus
    have hvalues : ∀ b, (parse (head ++ b)).toOption
        = (askedRange ((getlines head).tail ++ getlines b)).map fun range =>
          ⟨method, u, v, parseHeaders (getlines (head ++ b)).tail, range⟩ := by
      intro b
      rw [parse_toOption (by rw [hfirst, hr]), htail]
    rw [agree_iff (hvalues b₁) (hvalues b₂)]
    exact (or_iff_right fun hnone => hnone ⟨_, hr⟩).symm
  · have hrefused : ∀ b, ∃ e, parse (head ++ b) = .error e := fun b =>
      ⟨_, parse_of_refused (by rwa [hfirst])⟩
    obtain ⟨e₁, h₁⟩ := hrefused b₁
    obtain ⟨e₂, h₂⟩ := hrefused b₂
    rw [h₁, h₂]
    exact iff_of_true .refused (Or.inl hstatus)

/-- A request without headers. -/
def exampleHead : Bytes := ascii "GET / HTTP/1.1" ++ crlf ++ crlf

theorem exampleHead_ok : RequestHead exampleHead where
  ends := ⟨ascii "GET / HTTP/1.1", rfl⟩
  first := by
    have hprefixes : ∀ p ∈ exampleHead.inits, crlf ++ crlf <:+ p → p = exampleHead := by decide
    exact fun p hp => hprefixes p ((List.mem_inits ..).mpr hp)

theorem example_body_ignored :
    Agree (parse (exampleHead ++ [])) (parse (exampleHead ++ ascii "Range: 0-1")) :=
  (body_ignored_iff exampleHead [] (ascii "Range: 0-1") exampleHead_ok).mpr (Or.inr (by decide))

/-- A body that looks like a header is obeyed like one. -/
theorem body_asks_for_range :
    ¬ ∀ head b₁ b₂ : Bytes, RequestHead head → Agree (parse (head ++ b₁)) (parse (head ++ b₂)) := by
  intro h
  have hagree := h exampleHead [] (ascii "Content-Range: 0-1" ++ crlf) exampleHead_ok
  have hnone : (parse (exampleHead ++ [])).toOption.map HttpRequest.range = some none := by decide
  have hsome : (parse (exampleHead ++ (ascii "Content-Range: 0-1" ++ crlf))).toOption.map
      HttpRequest.range = some (some ⟨0, some 1⟩) := by decide
  generalize parse (exampleHead ++ []) = x at hagree hnone
  generalize parse (exampleHead ++ (ascii "Content-Range: 0-1" ++ crlf)) = y at hagree hsome
  cases hagree with
  | refused => cases hnone
  | @accepted r r' _ _ _ hrange =>
    have hr : some r.range = some none := hnone
    have hr' : some r'.range = some (some ⟨0, some 1⟩) := hsome
    rw [← hrange, hr] at hr'
    cases hr'

end HttpRequest

end Rechnernetze.Http
