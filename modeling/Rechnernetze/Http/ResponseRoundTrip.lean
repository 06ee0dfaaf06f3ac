import Rechnernetze.Http.HttpResponseTheorems

/-!
# The round trip of a response

What `Connection::send` writes for a response built with `add_header` is parsed back to the
same header lines and payload, and any received bytes are divided at their first empty line,
exactly as long as the parser's `int` counts them (`response_round_trip_iff`).
-/

namespace Rechnernetze.Http

open Lib HttpResponse Connection

/-- A header line as `add_header` writes it. -/
def fieldText (field : Bytes × Bytes) : Bytes := field.1 ++ ascii ": " ++ field.2 ++ crlf

/-- The response after calls of `add_header` for each of the fields. -/
def built (status : Status) (fields : List (Bytes × Bytes)) (payload : Bytes) : HttpResponse :=
  ((fields.foldl (fun response field => addHeader response field.1 field.2) .new).setStatus
    status).setContent payload

/-- The status line without its end. -/
def statusLine (status : Status) : Bytes :=
  ascii "HTTP/1.1 " ++ decimal status.code ++ [blank] ++ statusText status ++ [blank]

/-- The line that announces `n` bytes, without its end. -/
def contentLengthLine (n : ℕ) : Bytes := ascii "Content-Length: " ++ decimal n

/-- A line with the key `Content-Length`. -/
def isContentLength (line : Bytes) : Bool := (ascii "Content-Length:").isPrefixOf line

/-- The metadata of a response that announces `n` bytes. -/
def metadata (status : Status) (fields : List (Bytes × Bytes)) (n : ℕ) : Bytes :=
  statusLine status ++ crlf ++ (fields.flatMap fieldText ++ (contentLengthLine n ++ crlf))

/-- What is parsed from the bytes written for a response is that response. -/
def RoundTrip (status : Status) (fields : List (Bytes × Bytes)) (payload : Bytes) : Prop :=
  (parseWrap (wire (built status fields payload))).payload = payload ∧
    (parseWrap (wire (built status fields payload))).getMetadata
      = metadata status fields payload.length ∧
    ((∀ field ∈ fields, isContentLength (fieldText field) = false) →
      (getlines (parseWrap (wire (built status fields payload))).getMetadata).countP
        isContentLength = 1)

/-- What is parsed from received bytes is their division at the first empty line. -/
def Divided (data : Bytes) : Prop :=
  (emptyLine <:+: data →
    (parseWrap data).getMetadata ++ crlf ++ (parseWrap data).payload = data ∧
      ∃ p, (parseWrap data).getMetadata = p ++ crlf ∧
        FirstEmptyLine p (parseWrap data).payload data) ∧
    (¬ emptyLine <:+: data →
      (parseWrap data).getMetadata = data ∧ (parseWrap data).payload = [])

/-- The parser's `int` counts `n` bytes up to a payload and the payload. In the second case it
does not see the empty line, and the bytes that it reaches end with the metadata. -/
def Counted (n : ℕ) (payload : Bytes) : Prop :=
  (n < maxCount ∧ n + payload.length ≤ maxCount) ∨ (n = maxCount + 2 ∧ payload = [])

section
variable {status : Status} {fields : List (Bytes × Bytes)} {field : Bytes × Bytes}
  {payload data : Bytes} {n : ℕ}

/-! ## The bytes on the wire -/

theorem header_foldl (response : HttpResponse) :
    (fields.foldl (fun response field => addHeader response field.1 field.2) response).header
      = response.header ++ fields.flatMap fieldText := by
  induction fields generalizing response with
  | nil => rw [List.foldl_nil, List.flatMap_nil, List.append_nil]
  | cons field fields ih =>
    rw [List.foldl_cons, ih, List.flatMap_cons, ← List.append_assoc]
    rfl

theorem wire_built :
    wire (built status fields payload)
      = metadata status fields payload.length ++ (crlf ++ payload) := by
  have hheader : (built status fields payload).header = fields.flatMap fieldText :=
    header_foldl HttpResponse.new
  have hkey : ascii "Content-Length" ++ ascii ": " = ascii "Content-Length: " := rfl
  have hblock : (send (built status fields payload)).block.bytes payload = payload := by
    show (payload.drop 0).take ((payload.length : ℤ)).toNat = payload
    rw [Int.toNat_natCast, List.drop_zero, List.take_length]
  show (send (built status fields payload)).header
    ++ (send (built status fields payload)).block.bytes payload = _
  rw [hblock]
  show (announce (built status fields payload) payload.length).buildHeader ++ payload = _
  rw [buildHeader, announce, addHeader, hheader, hkey]
  simp only [metadata, statusLine, contentLengthLine, List.append_assoc]
  rfl

theorem oneLine_contentLengthLine : OneLine (contentLengthLine n) := by
  have hdigits : OneLine (decimal n) := oneLine_of_digits fun _ => isDigit_of_mem_decimal
  exact oneLine_append.mpr ⟨by decide, hdigits⟩

theorem oneLine_statusLine : OneLine (statusLine status) := by
  cases status <;> decide

/-- The header ends where the first empty line begins. -/
theorem firstEmptyLine_fields (n : ℕ) (payload : Bytes)
    (hfields : ∀ field ∈ fields, OneLine field.1 ∧ OneLine field.2) :
    FirstEmptyLine (fields.flatMap fieldText ++ contentLengthLine n) payload
      (fields.flatMap fieldText ++ (contentLengthLine n ++ (emptyLine ++ payload))) ∧
    (fields.flatMap fieldText ++ (contentLengthLine n ++ (emptyLine ++ payload))).head?
      ≠ some cr := by
  induction fields with
  | nil =>
    have hend : FirstEmptyLine [] payload (emptyLine ++ payload) :=
      ⟨rfl, fun _ _ _ => Nat.zero_le _⟩
    have h := hend.append_left (w := contentLengthLine n) oneLine_contentLengthLine.1
    rw [List.append_nil] at h
    exact ⟨h, by simp [contentLengthLine, ascii]; decide⟩
  | cons field fields ih =>
    obtain ⟨hkey, hvalue⟩ := hfields field (List.mem_cons_self ..)
    obtain ⟨hrest, hhead⟩ := ih fun f hf => hfields f (List.mem_cons_of_mem _ hf)
    have hline : cr ∉ field.1 ++ (ascii ": " ++ field.2) := by
      rw [List.mem_append, List.mem_append, not_or, not_or]
      exact ⟨hkey.1, by decide, hvalue.1⟩
    have h := (hrest.append_crlf hhead).append_left hline
    have htext : ∀ s : Bytes, (field :: fields).flatMap fieldText ++ s
        = field.1 ++ (ascii ": " ++ field.2) ++ (crlf ++ (fields.flatMap fieldText ++ s)) := by
      intro s
      rw [List.flatMap_cons, fieldText]
      simp only [List.append_assoc]
    rw [htext, htext]
    refine ⟨h, ?_⟩
    -- the text begins with the key, or with the colon where the key is empty
    cases hk : field.1 with
    | nil => exact (by decide : some colon ≠ some cr)
    | cons a key =>
      rw [hk] at hkey
      intro hcr
      rw [Option.some.inj hcr] at hkey
      exact hkey.1 (List.mem_cons_self ..)

/-- **The first empty line** on the wire is the one that ends the header. -/
theorem firstEmptyLine_wire (hfields : ∀ field ∈ fields, OneLine field.1 ∧ OneLine field.2) :
    FirstEmptyLine (statusLine status ++ (crlf ++ (fields.flatMap fieldText ++
      contentLengthLine payload.length))) payload (wire (built status fields payload)) := by
  obtain ⟨hrest, hhead⟩ := firstEmptyLine_fields payload.length payload hfields
  have h := (hrest.append_crlf hhead).append_left (w := statusLine status) oneLine_statusLine.1
  have hwire : wire (built status fields payload)
      = statusLine status ++ (crlf ++ (fields.flatMap fieldText ++
        (contentLengthLine payload.length ++ (emptyLine ++ payload)))) := by
    rw [wire_built, metadata, emptyLine]
    simp only [List.append_assoc]
  rw [hwire]
  exact h

/-! ## The lines of the metadata -/

theorem getlines_crlf {w s : Bytes} (hw : OneLine w) :
    getlines (w ++ crlf ++ s) = (w ++ [cr]) :: getlines s := by
  have hlf : lf ∉ w ++ [cr] := by
    rw [List.mem_append, not_or]
    exact ⟨hw.2, by decide⟩
  have hsplit : w ++ crlf ++ s = (w ++ [cr]) ++ lf :: s := by simp [crlf]
  rw [hsplit, getlines_line hlf]

theorem countP_fields (hfields : ∀ field ∈ fields, OneLine field.1 ∧ OneLine field.2)
    (hnone : ∀ field ∈ fields, isContentLength (fieldText field) = false) (s : Bytes) :
    (getlines (fields.flatMap fieldText ++ s)).countP isContentLength
      = (getlines s).countP isContentLength := by
  induction fields with
  | nil => rfl
  | cons field fields ih =>
    obtain ⟨hkey, hvalue⟩ := hfields field (List.mem_cons_self ..)
    have hsep : OneLine (ascii ": ") := by decide
    have hline := oneLine_append.mpr ⟨oneLine_append.mpr ⟨hkey, hsep⟩, hvalue⟩
    have hother : ¬ isContentLength (field.1 ++ ascii ": " ++ field.2 ++ [cr]) = true := by
      intro h
      have hfield := hnone field (List.mem_cons_self ..)
      obtain ⟨t, ht⟩ := List.isPrefixOf_iff_prefix.mp h
      -- a line that sets the length makes the field text begin with the key
      have hprefix : ascii "Content-Length:" <+: fieldText field := by
        refine ⟨t ++ [lf], ?_⟩
        rw [← List.append_assoc, ht, fieldText, List.append_assoc]
        rfl
      rw [isContentLength, List.isPrefixOf_iff_prefix.mpr hprefix] at hfield
      cases hfield
    rw [List.flatMap_cons, List.append_assoc, fieldText, getlines_crlf hline,
      List.countP_cons_of_neg hother]
    exact ih (fun f hf => hfields f (List.mem_cons_of_mem _ hf))
      fun f hf => hnone f (List.mem_cons_of_mem _ hf)

/-- Where the caller has added no length, the metadata announces one. -/
theorem countP_metadata (hfields : ∀ field ∈ fields, OneLine field.1 ∧ OneLine field.2)
    (hnone : ∀ field ∈ fields, isContentLength (fieldText field) = false) :
    (getlines (metadata status fields n)).countP isContentLength = 1 := by
  have hstatus : ¬ isContentLength (statusLine status ++ [cr]) = true := by
    cases status <;> decide
  have hlength : isContentLength (contentLengthLine n ++ [cr]) = true :=
    List.isPrefixOf_iff_prefix.mpr ⟨blank :: (decimal n ++ [cr]), rfl⟩
  have hlast : contentLengthLine n ++ crlf = contentLengthLine n ++ crlf ++ [] := by
    rw [List.append_nil]
  rw [metadata, getlines_crlf oneLine_statusLine, List.countP_cons_of_neg hstatus,
    countP_fields hfields hnone, hlast, getlines_crlf oneLine_contentLengthLine,
    List.countP_cons_of_pos hlength]
  rfl

/-! ## The round trip -/

theorem metadata_eq (status : Status) (fields : List (Bytes × Bytes)) (n : ℕ) :
    statusLine status ++ (crlf ++ (fields.flatMap fieldText ++ contentLengthLine n)) ++ crlf
      = metadata status fields n := by
  simp only [metadata, List.append_assoc]

theorem parse_wire (status : Status) (payload : Bytes)
    (hfields : ∀ field ∈ fields, OneLine field.1 ∧ OneLine field.2) :
    HttpResponse.parse (wire (built status fields payload))
      = if ((wire (built status fields payload)).length : ℤ) ≤ intMax then
          some ⟨.NONE, metadata status fields payload.length, payload⟩
        else none := by
  rw [parse_of_firstEmptyLine (firstEmptyLine_wire hfields), metadata_eq]

/-- **The division of data with an empty line**, exactly as long as its bytes are counted. -/
theorem parseWrap_eq_iff_of_firstEmptyLine {p rest : Bytes} (h : FirstEmptyLine p rest data) :
    parseWrap data = ⟨.NONE, p ++ crlf, rest⟩ ↔ Counted (p.length + 4) rest := by
  have hlength : data.length = p.length + 4 + rest.length := by
    rw [← h.eq, List.length_append, List.length_append, length_emptyLine]
    omega
  by_cases hlt : p.length + 4 < maxCount
  · rw [parseWrap_of_firstEmptyLine h hlt]
    constructor
    · intro heq
      have hrest : rest.take (maxCount - (p.length + 4)) = rest := congrArg payload heq
      have hle := List.length_take_le (maxCount - (p.length + 4)) rest
      rw [hrest] at hle
      exact Or.inl ⟨hlt, by omega⟩
    · rintro (⟨-, hle⟩ | ⟨hn, -⟩)
      · rw [List.take_of_length_le (by omega)]
      · omega
  · -- the first empty line is out of reach, and so is every other
    have hlate : ∀ q r, q ++ (emptyLine ++ r) = data → maxCount ≤ q.length + 4 := by
      intro q r hq
      have hle := h.first q r hq
      omega
    rw [parseWrap_of_late hlate]
    constructor
    · intro heq
      have hheader : data.take maxCount = p ++ crlf := congrArg header heq
      have hrest : [] = rest := congrArg payload heq
      have hle := congrArg List.length hheader
      rw [List.length_take_of_le (by omega), List.length_append] at hle
      have htwo : crlf.length = 2 := rfl
      exact Or.inr ⟨by omega, hrest.symm⟩
    · rintro (⟨hle, -⟩ | ⟨hn, rfl⟩)
      · exact absurd hle hlt
      · have htwo : crlf.length = 2 := rfl
        -- the bytes in reach are the header and nothing else
        have hdata : data = (p ++ crlf) ++ crlf := by
          rw [← h.eq, emptyLine, List.append_nil, List.append_assoc]
        rw [hdata, List.take_left' (by rw [List.length_append]; omega)]

theorem divided_iff_of_firstEmptyLine {p rest : Bytes} (h : FirstEmptyLine p rest data) :
    Divided data ↔ Counted (p.length + 4) rest := by
  have hinfix : emptyLine <:+: data := ⟨p, rest, by rw [List.append_assoc, h.eq]⟩
  rw [← parseWrap_eq_iff_of_firstEmptyLine h]
  constructor
  · rintro ⟨hdivided, -⟩
    -- a division at the first empty line is the division at `p`
    obtain ⟨-, q, hheader, hfirst⟩ := hdivided hinfix
    obtain ⟨rfl, hrest⟩ := h.unique hfirst
    exact parseWrap_eq_iff.mpr ⟨hheader, hrest.symm⟩
  · intro hparse
    rw [Divided, hparse]
    refine ⟨fun _ => ⟨?_, p, rfl, h⟩, fun hno => absurd hinfix hno⟩
    have heq := h.eq
    rw [emptyLine, List.append_assoc, ← List.append_assoc, ← List.append_assoc] at heq
    exact heq

theorem divided_iff_of_no_emptyLine (h : ¬ emptyLine <:+: data) :
    Divided data ↔ data.length ≤ maxCount := by
  have hlate : ∀ q r, q ++ (emptyLine ++ r) = data → maxCount ≤ q.length + 4 := by
    intro q r hq
    exact absurd ⟨q, r, by rw [List.append_assoc, hq]⟩ h
  rw [Divided, parseWrap_of_late hlate]
  constructor
  · rintro ⟨-, hdivided⟩
    have htake : data.take maxCount = data := (hdivided h).1
    rw [← htake]
    exact List.length_take_le maxCount data
  · intro hshort
    exact ⟨fun hyes => absurd hyes h, fun _ => ⟨List.take_of_length_le hshort, rfl⟩⟩

theorem roundTrip_iff (status : Status) (payload : Bytes)
    (hfields : ∀ field ∈ fields, OneLine field.1 ∧ OneLine field.2) :
    RoundTrip status fields payload ↔
      Counted ((metadata status fields payload.length).length + 2) payload := by
  have hfirst : FirstEmptyLine _ payload (wire (built status fields payload)) :=
    firstEmptyLine_wire hfields
  have hmetadata := metadata_eq status fields payload.length
  have hlength := congrArg List.length hmetadata
  rw [List.length_append] at hlength
  have htwo : crlf.length = 2 := rfl
  rw [← hlength, htwo, Nat.add_assoc, ← parseWrap_eq_iff_of_firstEmptyLine hfirst, hmetadata]
  constructor
  · rintro ⟨hpayload, hheader, -⟩
    exact parseWrap_eq_iff.mpr ⟨hheader, hpayload⟩
  · intro hparse
    rw [RoundTrip, hparse]
    exact ⟨rfl, rfl, fun hnone => countP_metadata hfields hnone⟩

/-- **The round trip of a response.** The bytes written for a response are parsed back to it,
and received bytes are divided at their first empty line, exactly as long as the parser's
`int` counts them. -/
theorem response_round_trip_iff (status : Status) (fields : List (Bytes × Bytes))
    (payload data : Bytes) (hfields : ∀ field ∈ fields, OneLine field.1 ∧ OneLine field.2) :
    (RoundTrip status fields payload ↔
        Counted ((metadata status fields payload.length).length + 2) payload) ∧
      (Divided data ↔
        (∀ p rest, FirstEmptyLine p rest data → Counted (p.length + 4) rest) ∧
          (¬ emptyLine <:+: data → data.length ≤ maxCount)) := by
  refine ⟨roundTrip_iff status payload hfields, ?_⟩
  by_cases hline : emptyLine <:+: data
  · obtain ⟨p, rest, hfirst⟩ := exists_firstEmptyLine hline
    rw [divided_iff_of_firstEmptyLine hfirst]
    constructor
    · intro hcounted
      refine ⟨fun q r hq => ?_, fun hno => absurd hline hno⟩
      obtain ⟨rfl, rfl⟩ := hfirst.unique hq
      exact hcounted
    · rintro ⟨hcounted, -⟩
      exact hcounted p rest hfirst
  · rw [divided_iff_of_no_emptyLine hline]
    constructor
    · intro hshort
      refine ⟨fun p rest hfirst => ?_, fun _ => hshort⟩
      exact absurd ⟨p, rest, by rw [List.append_assoc, hfirst.eq]⟩ hline
    · rintro ⟨-, hshort⟩
      exact hshort hline

end

/-- A payload that begins with an empty line. -/
theorem example_response_round_trip :
    RoundTrip .OK [(ascii "Content-Type", ascii "text/plain")] (emptyLine ++ [7]) :=
  (response_round_trip_iff .OK [(ascii "Content-Type", ascii "text/plain")] (emptyLine ++ [7]) []
    (by decide)).1.mpr (Or.inl (by decide))

/-- Of 2^31 + 1 bytes without an empty line the last one is lost. -/
theorem last_byte_lost :
    ¬ ((∀ (status : Status) (fields : List (Bytes × Bytes)) (payload : Bytes),
      (∀ field ∈ fields, OneLine field.1 ∧ OneLine field.2) → RoundTrip status fields payload) ∧
      ∀ data : Bytes, Divided data) := by
  rintro ⟨-, h⟩
  have hno : ¬ emptyLine <:+: List.replicate 2147483649 (0 : UInt8) := by
    intro hyes
    have hcr : cr ∈ List.replicate 2147483649 (0 : UInt8) :=
      hyes.subset (by decide : cr ∈ emptyLine)
    exact absurd (List.eq_of_mem_replicate hcr) (by decide)
  have hlength := (divided_iff_of_no_emptyLine hno).mp (h _)
  rw [List.length_replicate] at hlength
  exact absurd hlength (by decide)

end Rechnernetze.Http
