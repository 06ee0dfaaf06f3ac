import Rechnernetze.Http.FaithfulResponse
import Rechnernetze.Http.ResponseRoundTrip

/-!
# Every reply is framed

Whatever the server receives, and whatever lies under its document root, it sends one response at
most; its header is a status line, a content type without a line end and the length of what
follows, so that the client finds the body again (`replies_framed`).
-/

namespace Rechnernetze.Http

open Lib HttpResponse Connection ResponseFactory

/-- What is on the wire of a reply. -/
def Reply.wire (reply : Reply) : Bytes := reply.sent.header ++ reply.body

/-- The block that is sent lies inside the buffer. -/
def Reply.Inside (reply : Reply) : Prop :=
  0 ≤ reply.sent.block.start ∧ 0 ≤ reply.sent.block.size ∧
    reply.sent.block.start + reply.sent.block.size ≤ reply.response.payload.length

instance (reply : Reply) : Decidable reply.Inside := by unfold Reply.Inside; infer_instance

/-- A response with a content type and nothing else in its header. -/
def typed (status : Status) (contentType body : Bytes) : HttpResponse :=
  built status [(ascii "Content-Type", contentType)] body

/-- The header of a response with a body of `n` bytes, with its empty line. -/
def headerText (status : Status) (contentType : Bytes) (n : ℕ) : Bytes :=
  metadata status [(ascii "Content-Type", contentType)] n ++ crlf

/-- `response` is a response with a content type. -/
def Typed (response : HttpResponse) : Prop :=
  ∃ contentType, OneLine contentType ∧
    response = typed response.status contentType response.payload

namespace HttpServer

section
variable {fmt : Formatting} {opt : ServerOptions} {tree : FileTree} {received root : Bytes}
  {request : HttpRequest} {response : HttpResponse} {status : Status} {contentType body : Bytes}
  {reply : Reply} {path : Path}

/-! ## The responses -/

theorem oneLine_getContentType (p : Path) : OneLine (getContentType p) := by
  have hmap : ∀ entry ∈ contentTypeMap, OneLine entry.2 := by decide
  unfold getContentType
  split
  · decide
  · cases hlookup : contentTypeMap.lookup (extension p) with
    | none => exact (by decide : OneLine (ascii "text/plain"))
    | some contentType =>
      obtain ⟨l₁, l₂, hsplit, -⟩ := List.lookup_eq_some_iff.mp hlookup
      refine hmap (extension p, contentType) ?_
      rw [hsplit]
      simp

theorem typed_createFromPlainText (status : Status) (text : Bytes) :
    Typed (createFromPlainText status text) :=
  ⟨ascii "text/plain", by decide, rfl⟩

theorem typed_createFromFile (h : createFromFile tree path = .ok response) : Typed response := by
  unfold createFromFile at h
  cases hread : tree.readFile path with
  | error e =>
    rw [hread] at h
    cases h
  | ok contents =>
    rw [hread] at h
    obtain rfl := Except.ok.inj h
    exact ⟨getContentType path, oneLine_getContentType path, rfl⟩

theorem typed_createFromDirectory {uri : Bytes}
    (h : createFromDirectory fmt tree path uri = .ok response) : Typed response := by
  unfold createFromDirectory at h
  cases hexists : tree.existsAt (indexHtmlPath path) with
  | error e =>
    rw [hexists] at h
    cases h
  | ok found =>
    rw [hexists] at h
    cases found with
    | true => exact typed_createFromFile h
    | false =>
      cases hlisting : getPlainTextFileListing fmt tree path with
      | error e =>
        rw [hlisting] at h
        cases h
      | ok listing =>
        rw [hlisting] at h
        obtain rfl := Except.ok.inj h
        exact ⟨ascii "text/plain", by decide, rfl⟩

/-- **Every response** of the factory has a content type and nothing else. -/
theorem typed_create (h : create fmt tree request root = .ok response) : Typed response := by
  unfold create at h
  dsimp only at h
  split at h
  · obtain rfl := Except.ok.inj h
    exact typed_createFromPlainText _ _
  · cases hdirectory : tree.isDirectory (requestedPath root request.uri) with
    | error e =>
      rw [hdirectory] at h
      cases h
    | ok directory =>
      rw [hdirectory] at h
      cases directory with
      | true => exact typed_createFromDirectory h
      | false =>
        cases hexists : tree.existsAt (requestedPath root request.uri) with
        | error e =>
          rw [hexists] at h
          cases h
        | ok found =>
          rw [hexists] at h
          cases found with
          | true => exact typed_createFromFile h
          | false =>
            obtain rfl := Except.ok.inj h
            exact typed_createFromPlainText _ _

/-! ## What is sent of them -/

theorem buildHeader_announce {fields : List (Bytes × Bytes)} {n : ℕ} :
    (announce (built status fields body) n).buildHeader = metadata status fields n ++ crlf := by
  have hheader : (built status fields body).header = fields.flatMap fieldText :=
    header_foldl HttpResponse.new
  have hkey : ascii "Content-Length" ++ ascii ": " = ascii "Content-Length: " := rfl
  rw [buildHeader, announce, addHeader, hheader, hkey]
  simp only [metadata, statusLine, contentLengthLine, List.append_assoc]
  rfl

/-- The length announced is that of the block. -/
def Announced (reply : Reply) : Prop :=
  reply.sent.header = (announce reply.response reply.sent.block.size.toNat).buildHeader

theorem announced_sentBlock (response : HttpResponse) (start size : ℤ) :
    Announced ⟨response, sentBlock response start size⟩ := rfl

theorem announced_respond {range : Option Range} (h : respond response range = some reply) :
    Announced reply := by
  cases range with
  | none =>
    obtain rfl := Option.some.inj h
    rfl
  | some range =>
    obtain ⟨sent, hsent, rfl⟩ := Option.map_eq_some_iff.mp h
    rcases sendRange_cases response range with ⟨-, hsend⟩ | ⟨-, -, hsend⟩ | ⟨stop, -, -, -, hsend⟩
    · obtain rfl := Option.some.inj (hsend.symm.trans hsent)
      exact announced_sentBlock ..
    · obtain rfl := Option.some.inj (hsend.symm.trans hsent)
      exact announced_sentBlock ..
    · rw [hsend] at hsent
      split at hsent
      · cases hsent
      · obtain rfl := Option.some.inj hsent
        exact announced_sentBlock ..

theorem length_body (h : reply.Inside) : reply.body.length = reply.sent.block.size.toNat := by
  obtain ⟨hstart, hsize, hend⟩ := h
  rw [Reply.body, Block.bytes, List.length_take, List.length_drop]
  omega

theorem wire_of_announced (hreply : Announced reply) (htyped : Typed reply.response)
    (hinside : reply.Inside) :
    ∃ contentType, OneLine contentType ∧
      reply.wire = wire (typed reply.response.status contentType reply.body) := by
  obtain ⟨contentType, htype, hresponse⟩ := htyped
  have hheader : reply.sent.header
      = metadata reply.response.status [(ascii "Content-Type", contentType)] reply.body.length
        ++ crlf := by
    rw [hreply, hresponse, typed, buildHeader_announce, length_body hinside, ← typed, ← hresponse]
  refine ⟨contentType, htype, ?_⟩
  rw [Reply.wire, typed, wire_built, hheader, List.append_assoc]

theorem replies_cases (fmt : Formatting) (opt : ServerOptions) (tree : FileTree)
    (received : Bytes) :
    (handleIncomingRequestNoExpt fmt opt tree received).1 = [] ∨
      ∃ reply, (handleIncomingRequestNoExpt fmt opt tree received).1 = [reply] ∧
        Announced reply ∧ Typed reply.response := by
  have hreplies : (handleIncomingRequestNoExpt fmt opt tree received).1
      = (handleIncomingRequest fmt opt tree received).replies := by
    unfold handleIncomingRequestNoExpt
    dsimp only
    split
    · rfl
    · rfl
    · rfl
    · rfl
    · rfl
  rw [hreplies]
  cases hparse : HttpRequest.parse received with
  | error what =>
    refine Or.inr ⟨⟨createFromPlainText .BAD_REQUEST (cStr what), send _⟩, ?_, rfl,
      typed_createFromPlainText .BAD_REQUEST (cStr what)⟩
    simp only [handleIncomingRequest, hparse]
    rfl
  | ok request =>
    cases hcreate : create fmt tree request opt.documentRootFolder with
    | error e =>
      rw [handleIncomingRequest_failed hparse hcreate]
      exact Or.inl rfl
    | ok response =>
      rw [handleIncomingRequest_responded hparse hcreate]
      cases hrespond : respond response request.range with
      | none => exact Or.inl rfl
      | some reply =>
        refine Or.inr ⟨reply, rfl, announced_respond hrespond, ?_⟩
        rw [response_of_respond hrespond]
        exact typed_create hcreate

end

/-- **Every reply is framed**, if its block lies inside the buffer it is sent from. -/
theorem replies_framed (fmt : Formatting) (opt : ServerOptions) (tree : FileTree)
    (received : Bytes) :
    (handleIncomingRequestNoExpt fmt opt tree received).1.length ≤ 1 ∧
      ∀ reply ∈ (handleIncomingRequestNoExpt fmt opt tree received).1, reply.Inside →
        ∃ contentType, OneLine contentType ∧
          HttpResponse.parse reply.wire
            = if (reply.wire.length : ℤ) ≤ intMax then
                some ⟨.NONE, metadata reply.response.status
                  [(ascii "Content-Type", contentType)] reply.body.length, reply.body⟩
              else none := by
  rcases replies_cases fmt opt tree received with hnone | ⟨reply, hone, hreply, htyped⟩
  · rw [hnone]
    exact ⟨Nat.zero_le _, nofun⟩
  · rw [hone]
    refine ⟨Nat.le_refl _, fun reply' hmem hinside => ?_⟩
    obtain rfl := List.mem_singleton.mp hmem
    obtain ⟨contentType, htype, hwire⟩ := wire_of_announced hreply htyped hinside
    refine ⟨contentType, htype, ?_⟩
    rw [hwire, typed, parse_wire _ _ fun field hfield => ?_]
    rw [List.mem_singleton.mp hfield]
    exact ⟨(by decide : OneLine (ascii "Content-Type")), htype⟩

/-- The reply to a text that is no request. -/
def exampleReply : Reply :=
  let text := ascii "Failed to parse Status-Line: x"
  ⟨createFromPlainText .BAD_REQUEST text, send (createFromPlainText .BAD_REQUEST text)⟩

theorem example_replies_framed :
    ∃ contentType, OneLine contentType ∧
      HttpResponse.parse exampleReply.wire
        = if (exampleReply.wire.length : ℤ) ≤ intMax then
            some ⟨.NONE, metadata exampleReply.response.status
              [(ascii "Content-Type", contentType)] exampleReply.body.length, exampleReply.body⟩
          else none :=
  (replies_framed ⟨fun _ _ _ => [], fun _ => [], fun _ => []⟩ exampleOptions (fun _ => .absent)
    (ascii "x")).2 exampleReply (by decide) (by decide)

end HttpServer

end Rechnernetze.Http
