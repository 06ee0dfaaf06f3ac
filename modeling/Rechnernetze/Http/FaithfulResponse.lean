import Rechnernetze.Http.ConnectionTheorems
import Rechnernetze.Http.HttpServer

/-!
# One faithful response per request

An exception in the handling of a request is only logged, so that the client gets no response;
and a file or directory that cannot be opened is delivered as an empty one. The module says for
which requests and files the client gets exactly one response, and a response `200 OK` has all
of the file (`faithfully_answered_iff`).
-/

namespace Rechnernetze.Http

open Lib Connection ResponseFactory

/-- What a file contains. -/
def Node.contents : Node → Option Bytes
  | .regular content _ => some content
  | .special (.ok data) => some data
  | _ => none

/-- What follows the header of the reply. -/
def Reply.body (reply : Reply) : Bytes := reply.sent.block.bytes reply.response.payload

namespace HttpServer

/-! ## The law -/

/-- The path whose file a request is answered with, if there is one: that of the URI or, where
this is a directory, that of its `index.html`. -/
def servedPath (tree : FileTree) (path : Path) : Path :=
  match tree.node path with
  | .directory .. => indexHtmlPath path
  | _ => path

/-- The client gets exactly one response; where something is found in answer to a `GET` request
without a range, a response `200 OK` has all that it contains. -/
def FaithfullyAnswered (fmt : Formatting) (opt : ServerOptions) (tree : FileTree)
    (received : Bytes) : Prop :=
  ∃ reply, handleIncomingRequestNoExpt fmt opt tree received = ([reply], true) ∧
    ∀ request, HttpRequest.parse received = .ok request → request.method = .GET →
      request.range = none →
        tree.node (servedPath tree (requestedPath opt.documentRootFolder request.uri)) ≠ .absent →
        reply.response.status = .OK →
        (tree.node (servedPath tree (requestedPath opt.documentRootFolder request.uri))).contents
          = some reply.body

/-! ## The condition -/

/-- The range is not the one from 0 to the largest int in a document that long. -/
def Fits (range : Option Range) (length : ℕ) : Prop :=
  range = some ⟨0, some intMax⟩ → (length : ℤ) < intMax

/-- What can be delivered at a path that is opened as a file: a file that can be read or, if a
range is asked for, anything that is opened in vain. -/
def Deliverable (range : Option Range) : Node → Prop
  | .regular content true => Fits range content.length
  | .regular content false => range = none → content = []
  | .directory _ false => range ≠ none
  | .special (.ok data) => Fits range data.length
  | _ => False

/-- The size of the entry can be asked for, or is not asked for. -/
def Sized : Node → Prop
  | .directory .. | .regular .. => True
  | _ => False

/-- The text for a path that does not exist. -/
def missingText (uri : Bytes) : Bytes :=
  ascii "Requested file " ++ uri ++
    ascii " does not exist. Please provide a correct file path" ++ crlf

/-- The text for a directory without `index.html`. -/
def directoryText (uri listing : Bytes) : Bytes :=
  ascii "Directory content of '" ++ uri ++ ascii "': " ++ [lf] ++ listing

/-- What a `GET` request can be answered with. -/
inductive Available (fmt : Formatting) (tree : FileTree) (range : Option Range) (path : Path)
    (uri : Bytes) : Prop
  | missing (hnode : tree.node path = .absent) (hfits : Fits range (missingText uri).length)
  | file (hother : ∀ names readable, tree.node path ≠ .directory names readable)
      (hfile : Deliverable range (tree.node path))
  | index {names : List Bytes} {readable : Bool}
      (hnode : tree.node path = .directory names readable)
      (hfile : Deliverable range (tree.node (indexHtmlPath path)))
  | listing {names : List Bytes} (hnode : tree.node path = .directory names true)
      (hindex : tree.node (indexHtmlPath path) = .absent)
      (hentries : ∀ name ∈ names, Sized (tree.node (Path.join path name)))
      (hfits : ∀ listing, getPlainTextFileListing fmt tree path = .ok listing →
        Fits range (directoryText uri listing).length)

section
variable {fmt : Formatting} {opt : ServerOptions} {tree : FileTree} {received uri : Bytes}
  {request : HttpRequest} {range : Option Range} {response : HttpResponse} {path p : Path}
  {node : Node} {result : Except Failure HttpResponse} {names : List Bytes}

/-! ## Sending -/

/-- The only range whose length overflows. -/
theorem sendRange_eq_none_iff {r : Range} (hrange : RangeOk r) :
    sendRange response r = none ↔
      r = ⟨0, some intMax⟩ ∧ intMax ≤ (response.payload.length : ℤ) := by
  obtain ⟨hstart, hmax, hstop⟩ := hrange
  rcases sendRange_cases response r
    with ⟨hbehind, hsend⟩ | ⟨-, honwards, hsend⟩ | ⟨stop, hs, -, hle, hsend⟩ <;> rw [hsend]
  · refine iff_of_false nofun ?_
    rintro ⟨rfl, hlong⟩
    -- a start behind the payload is not 0
    have hzero : (response.payload.length : ℤ) < 0 := hbehind
    omega
  · refine iff_of_false nofun ?_
    rintro ⟨rfl, hlong⟩
    have hshort := honwards intMax rfl
    omega
  · obtain ⟨-, hstopMax⟩ := hstop stop hs
    by_cases hlong : intMax < stop - r.start + 1
    · rw [if_pos hlong]
      -- the length of the range is one more than the largest `int` can be
      have hzero : r.start = 0 := by omega
      have hlast : stop = intMax := by omega
      refine iff_of_true rfl ⟨?_, by omega⟩
      rw [hlast] at hs
      rw [← hzero, ← hs]
    · rw [if_neg hlong]
      refine iff_of_false nofun ?_
      rintro ⟨rfl, -⟩
      have hstop : intMax = stop := Option.some.inj hs
      refine hlong ?_
      show intMax < stop - 0 + 1
      omega

/-- A response can be sent unless the length of the range overflows. -/
theorem respond_isSome_iff (hrange : ∀ r, range = some r → RangeOk r) :
    (∃ reply, respond response range = some reply) ↔ Fits range response.payload.length := by
  cases range with
  | none => exact iff_of_true ⟨_, rfl⟩ nofun
  | some r =>
    have hnone : sendRange response r = none ↔
        r = ⟨0, some intMax⟩ ∧ intMax ≤ (response.payload.length : ℤ) :=
      sendRange_eq_none_iff (hrange r rfl)
    have hrespond : respond response (some r) = (sendRange response r).map (Reply.mk response) :=
      rfl
    rw [hrespond, Fits]
    cases hs : sendRange response r with
    | none =>
      obtain ⟨hr, hlong⟩ := hnone.mp hs
      refine iff_of_false (fun ⟨reply, h⟩ => by cases h) fun h => ?_
      have hlt := h (congrArg some hr)
      omega
    | some sent =>
      refine iff_of_true ⟨⟨response, sent⟩, rfl⟩ fun h => ?_
      by_contra hlt
      rw [hnone.mpr ⟨Option.some.inj h, by omega⟩] at hs
      cases hs

theorem response_of_respond {reply : Reply} (h : respond response range = some reply) :
    reply.response = response := by
  cases range with
  | none =>
    obtain rfl := Option.some.inj h
    rfl
  | some r =>
    obtain ⟨sent, -, rfl⟩ := Option.map_eq_some_iff.mp h
    rfl

/-- Without a range the whole payload is sent. -/
theorem body_of_respond {reply : Reply} (h : respond response none = some reply) :
    reply.body = response.payload := by
  obtain rfl := Option.some.inj h
  show (response.payload.drop 0).take (response.payload.length : ℤ).toNat = response.payload
  rw [List.drop_zero, Int.toNat_natCast, List.take_length]

/-! ## The response to a path -/

theorem map_eq_ok_iff {α β ε : Type} {f : α → β} {x : Except ε α} {b : β} :
    x.map f = .ok b ↔ ∃ a, x = .ok a ∧ f a = b := by
  cases x with
  | error e => exact iff_of_false (fun h => by cases h) fun ⟨_, h, _⟩ => by cases h
  | ok a =>
    constructor
    · intro h
      exact ⟨a, rfl, Except.ok.inj h⟩
    · rintro ⟨a', ha, rfl⟩
      rw [Except.ok.inj ha]
      rfl

/-- The response is computed and can be sent; if a range is not asked for, a response `200 OK`
has all of the file. -/
def Delivers (result : Except Failure HttpResponse) (range : Option Range) (node : Node) : Prop :=
  ∃ response, result = .ok response ∧ Fits range response.payload.length ∧
    (range = none → node ≠ .absent → response.status = .OK →
      node.contents = some response.payload)

/-- The response to a file that has been read. -/
def fileResponse (p : Path) (contents : Bytes) : HttpResponse :=
  ((HttpResponse.new.addHeader (ascii "Content-Type") (getContentType p)).setContent
    contents).setStatus .OK

theorem delivers_fileResponse_iff {contents : Bytes} :
    Delivers (.ok (fileResponse p contents)) range node ↔
      Fits range contents.length ∧
        (range = none → node ≠ .absent → node.contents = some contents) := by
  constructor
  · rintro ⟨response, hresponse, hfits, hfile⟩
    obtain rfl := Except.ok.inj hresponse
    exact ⟨hfits, fun hrange hnode => hfile hrange hnode rfl⟩
  · rintro ⟨hfits, hfile⟩
    exact ⟨_, rfl, hfits, fun hrange hnode _ => hfile hrange hnode⟩

theorem not_delivers_error {e : Failure} : ¬ Delivers (.error e) range node :=
  fun ⟨_, h, _⟩ => by cases h

/-- Every range fits in an empty document. -/
theorem fits_nil : Fits range ([] : Bytes).length := by
  intro _
  show (0 : ℤ) < intMax
  decide

/-- A file is delivered entire, or as an empty one if it cannot be opened. -/
theorem delivers_file_iff (hnode : tree.node p = node) (habsent : node ≠ .absent)
    (hunreachable : node ≠ .unreachable) :
    Delivers (createFromFile tree p) range node ↔ Deliverable range node := by
  have hcreate : createFromFile tree p = (tree.readFile p).map (fileResponse p) := by
    unfold createFromFile
    cases tree.readFile p with
    | error e => rfl
    | ok contents => rfl
  rw [hcreate, FileTree.readFile, hnode]
  cases node with
  | absent => exact absurd rfl habsent
  | unreachable => exact absurd rfl hunreachable
  | directory names readable =>
    cases readable with
    | true => exact iff_of_false not_delivers_error id
    | false =>
      -- the stream is empty, and a directory has no contents
      refine delivers_fileResponse_iff.trans
        ⟨fun h hrange => ?_, fun h => ⟨fits_nil, fun hrange => absurd hrange h⟩⟩
      cases h.2 hrange habsent
  | regular content readable =>
    cases readable with
    | true =>
      exact delivers_fileResponse_iff.trans ⟨And.left, fun hfits => ⟨hfits, fun _ _ => rfl⟩⟩
    | false =>
      refine delivers_fileResponse_iff.trans
        ⟨fun h hrange => ?_, fun h => ⟨fits_nil, fun hrange _ => ?_⟩⟩
      · exact Option.some.inj (h.2 hrange habsent)
      · rw [h hrange]
        rfl
  | special reading =>
    cases reading with
    | error e => exact iff_of_false not_delivers_error id
    | ok data =>
      exact delivers_fileResponse_iff.trans ⟨And.left, fun hfits => ⟨hfits, fun _ _ => rfl⟩⟩

/-! ## Listings -/

theorem mapM_isOk_iff {α β ε : Type} {f : α → Except ε β} {l : List α} :
    (∃ r, l.mapM f = .ok r) ↔ ∀ a ∈ l, ∃ b, f a = .ok b := by
  induction l with
  | nil => exact iff_of_true ⟨[], rfl⟩ nofun
  | cons a l ih =>
    rw [List.mapM_cons, List.forall_mem_cons, ← ih]
    cases f a with
    | error e => exact iff_of_false (fun ⟨_, h⟩ => by cases h) fun ⟨⟨_, h⟩, _⟩ => by cases h
    | ok b =>
      cases l.mapM f with
      | error e => exact iff_of_false (fun ⟨_, h⟩ => by cases h) fun ⟨_, _, h⟩ => by cases h
      | ok r => exact iff_of_true ⟨b :: r, rfl⟩ ⟨⟨b, rfl⟩, r, rfl⟩

/-- The line of an entry is there if its size is. -/
theorem listEntry_isOk_iff {name : Bytes} :
    (∃ row, listEntry fmt tree p name = .ok row) ↔ Sized (tree.node (Path.join p name)) := by
  unfold listEntry FileTree.isDirectory FileTree.fileSize
  cases hnode : tree.node (Path.join p name) with
  | absent | unreachable | special reading =>
    simp only [hnode, bind, Except.bind]
    exact iff_of_false (fun ⟨_, h⟩ => by cases h) id
  | directory names readable | regular content readable =>
    simp only [hnode, bind, Except.bind]
    exact iff_of_true ⟨_, rfl⟩ trivial

theorem listing_isOk_iff {readable : Bool} (hnode : tree.node p = .directory names readable) :
    (∃ listing, getPlainTextFileListing fmt tree p = .ok listing) ↔
      readable = true ∧ ∀ name ∈ names, Sized (tree.node (Path.join p name)) := by
  unfold getPlainTextFileListing FileTree.directoryEntries
  rw [hnode]
  cases readable with
  | false => exact iff_of_false (fun ⟨_, h⟩ => by cases h) (fun h => by cases h.1)
  | true =>
    have hentries := mapM_isOk_iff (f := listEntry fmt tree p) (l := names)
    simp only [listEntry_isOk_iff] at hentries
    rw [← hentries]
    simp only [bind, Except.bind, pure, Except.pure]
    cases names.mapM (listEntry fmt tree p) with
    | error e => exact iff_of_false (fun ⟨_, h⟩ => by cases h) (fun ⟨_, _, h⟩ => by cases h)
    | ok rows => exact iff_of_true ⟨_, rfl⟩ ⟨trivial, rows, rfl⟩

/-! ## The response to a request -/

/-- The response to a directory that has been listed. -/
def listingResponse (uri listing : Bytes) : HttpResponse :=
  ((HttpResponse.new.setStatus .OK).addHeader (ascii "Content-Type")
    (ascii "text/plain")).setContent (directoryText uri listing)

theorem available_directory_iff {readable : Bool}
    (hnode : tree.node path = .directory names readable) :
    Available fmt tree range path uri ↔
      Deliverable range (tree.node (indexHtmlPath path)) ∨
        tree.node (indexHtmlPath path) = .absent ∧
          (readable = true ∧ ∀ name ∈ names, Sized (tree.node (Path.join path name))) ∧
          ∀ listing, getPlainTextFileListing fmt tree path = .ok listing →
            Fits range (directoryText uri listing).length := by
  constructor
  · intro h
    cases h with
    | missing hmissing =>
      rw [hnode] at hmissing
      cases hmissing
    | file hother => exact absurd hnode (hother names readable)
    | index _ hfile => exact Or.inl hfile
    | listing hdirectory hindex hentries hfits =>
      rw [hnode] at hdirectory
      cases hdirectory
      exact Or.inr ⟨hindex, ⟨rfl, hentries⟩, hfits⟩
  · rintro (hfile | ⟨hindex, ⟨rfl, hentries⟩, hfits⟩)
    · exact .index hnode hfile
    · exact .listing hnode hindex hentries hfits

theorem delivers_directory_iff {readable : Bool}
    (hnode : tree.node path = .directory names readable) :
    Delivers (createFromDirectory fmt tree path uri) range (tree.node (indexHtmlPath path)) ↔
      Available fmt tree range path uri := by
  rw [available_directory_iff hnode]
  have hcreate : createFromDirectory fmt tree path uri
      = (tree.existsAt (indexHtmlPath path)).bind fun found =>
          if found then createFromFile tree (indexHtmlPath path)
          else (getPlainTextFileListing fmt tree path).map (listingResponse uri) := by
    unfold createFromDirectory
    cases tree.existsAt (indexHtmlPath path) with
    | error e => rfl
    | ok found =>
      cases found with
      | true => rfl
      | false =>
        cases getPlainTextFileListing fmt tree path with
        | error e => rfl
        | ok listing => rfl
  rw [hcreate]
  -- what is sent depends on the index file
  cases hindex : tree.node (indexHtmlPath path) with
  | unreachable =>
    have hexists : tree.existsAt (indexHtmlPath path) = .error .exception := by
      rw [FileTree.existsAt, hindex]
    rw [hexists]
    refine iff_of_false not_delivers_error ?_
    rintro (hfile | ⟨hno, -⟩)
    · exact hfile
    · cases hno
  | absent =>
    have hexists : tree.existsAt (indexHtmlPath path) = .ok false := by
      rw [FileTree.existsAt, hindex]
    -- there is none, so the entries are listed
    have hok : (∃ listing, getPlainTextFileListing fmt tree path = .ok listing) ↔
        readable = true ∧ ∀ name ∈ names, Sized (tree.node (Path.join path name)) :=
      listing_isOk_iff hnode
    rw [hexists, ← hok]
    constructor
    · rintro ⟨response, hresponse, hfits, -⟩
      obtain ⟨listing, hlisting, rfl⟩ := map_eq_ok_iff.mp hresponse
      refine Or.inr ⟨rfl, ⟨listing, hlisting⟩, fun listing' hlisting' => ?_⟩
      rw [hlisting] at hlisting'
      rw [← Except.ok.inj hlisting']
      exact hfits
    · rintro (hno | ⟨-, ⟨listing, hlisting⟩, hfits⟩)
      · exact hno.elim
      · refine ⟨_, map_eq_ok_iff.mpr ⟨listing, hlisting, rfl⟩, ?_⟩
        exact ⟨hfits listing hlisting, fun _ habsent => absurd rfl habsent⟩
  | directory | regular | special =>
    have hexists : tree.existsAt (indexHtmlPath path) = .ok true := by
      rw [FileTree.existsAt, hindex]
    rw [hexists]
    refine (delivers_file_iff hindex nofun nofun).trans ?_
    simp only [reduceCtorEq, false_and, or_false]

theorem available_file_iff (hnode : ∀ names readable, tree.node path ≠ .directory names readable) :
    Available fmt tree range path uri ↔
      tree.node path = .absent ∧ Fits range (missingText uri).length ∨
        Deliverable range (tree.node path) := by
  constructor
  · intro h
    cases h with
    | missing hmissing hfits => exact Or.inl ⟨hmissing, hfits⟩
    | file _ hfile => exact Or.inr hfile
    | index hdirectory => exact (hnode _ _ hdirectory).elim
    | listing hdirectory => exact (hnode _ _ hdirectory).elim
  · rintro (⟨hmissing, hfits⟩ | hfile)
    · exact .missing hmissing hfits
    · exact .file hnode hfile

theorem delivers_create_iff (hGET : request.method = .GET)
    (hpath : requestedPath opt.documentRootFolder request.uri = path) :
    Delivers (create fmt tree request opt.documentRootFolder) range
        (tree.node (servedPath tree path)) ↔
      Available fmt tree range path request.uri := by
  have hcreate : create fmt tree request opt.documentRootFolder
      = (tree.isDirectory path).bind fun directory =>
          if directory then createFromDirectory fmt tree path request.uri
          else (tree.existsAt path).bind fun found =>
            if found then createFromFile tree path
            else .ok (createFromPlainText .BAD_REQUEST (ascii "Requested file " ++ request.uri ++
              ascii " does not exist. Please provide a correct file path")) := by
    unfold create
    rw [if_neg (not_not.mpr hGET), hpath]
    rfl
  rw [hcreate]
  cases hnode : tree.node path with
  | directory names readable =>
    have hdirectory : tree.isDirectory path = .ok true := by rw [FileTree.isDirectory, hnode]
    have hserved : servedPath tree path = indexHtmlPath path := by rw [servedPath, hnode]
    rw [hdirectory, hserved]
    exact delivers_directory_iff hnode
  | unreachable =>
    have hdirectory : tree.isDirectory path = .error .exception := by
      rw [FileTree.isDirectory, hnode]
    rw [hdirectory, available_file_iff (by simp [hnode]), hnode]
    refine iff_of_false not_delivers_error ?_
    rintro (⟨hno, -⟩ | hfile)
    · cases hno
    · exact hfile
  | absent =>
    have hdirectory : tree.isDirectory path = .ok false := by rw [FileTree.isDirectory, hnode]
    have hexists : tree.existsAt path = .ok false := by rw [FileTree.existsAt, hnode]
    have hserved : servedPath tree path = path := by rw [servedPath, hnode]
    rw [hdirectory, hserved, available_file_iff (by simp [hnode]), hnode]
    simp only [Except.bind, hexists]
    constructor
    · rintro ⟨response, hresponse, hfits, -⟩
      obtain rfl := Except.ok.inj hresponse
      exact Or.inl ⟨trivial, hfits⟩
    · rintro (⟨-, hfits⟩ | hfile)
      · exact ⟨_, rfl, hfits, fun _ habsent => absurd rfl habsent⟩
      · exact hfile.elim
  | regular | special =>
    have hdirectory : tree.isDirectory path = .ok false := by rw [FileTree.isDirectory, hnode]
    have hexists : tree.existsAt path = .ok true := by rw [FileTree.existsAt, hnode]
    have hserved : servedPath tree path = path := by rw [servedPath, hnode]
    rw [hdirectory, hserved, available_file_iff (by simp [hnode]), hnode]
    simp only [Except.bind, hexists]
    refine (delivers_file_iff hnode nofun nofun).trans ?_
    simp only [reduceCtorEq, false_and, false_or]

theorem handleIncomingRequest_failed {e : Failure}
    (hparse : HttpRequest.parse received = .ok request)
    (hcreate : create fmt tree request opt.documentRootFolder = .error e) :
    handleIncomingRequest fmt opt tree received = ⟨[], .failed e⟩ := by
  simp only [handleIncomingRequest, hparse, hcreate]

theorem handleIncomingRequest_responded (hparse : HttpRequest.parse received = .ok request)
    (hcreate : create fmt tree request opt.documentRootFolder = .ok response) :
    handleIncomingRequest fmt opt tree received
      = (respond response request.range).elim ⟨[], .undefined⟩ fun reply =>
          ⟨[reply], .completed⟩ := by
  simp only [handleIncomingRequest, hparse, hcreate]
  cases respond response request.range with
  | none => rfl
  | some reply => rfl

/-- A request is answered faithfully if a faithful response is computed and can be sent. -/
theorem faithfullyAnswered_of_parse (hparse : HttpRequest.parse received = .ok request) :
    FaithfullyAnswered fmt opt tree received ↔
      ∃ response reply, create fmt tree request opt.documentRootFolder = .ok response ∧
        respond response request.range = some reply ∧
        (request.method = .GET → request.range = none →
          tree.node (servedPath tree (requestedPath opt.documentRootFolder request.uri))
            ≠ .absent →
          response.status = .OK →
          (tree.node (servedPath tree
            (requestedPath opt.documentRootFolder request.uri))).contents
              = some response.payload) := by
  unfold FaithfullyAnswered handleIncomingRequestNoExpt
  cases hcreate : create fmt tree request opt.documentRootFolder with
  | error e =>
    rw [handleIncomingRequest_failed hparse hcreate]
    refine iff_of_false ?_ fun ⟨_, _, h, _⟩ => by cases h
    cases e with
    -- either way nothing has been sent
    | exception => exact fun ⟨_, h, _⟩ => by cases h
    | blocked => exact fun ⟨_, h, _⟩ => by cases h
  | ok response =>
    rw [handleIncomingRequest_responded hparse hcreate]
    cases hrespond : respond response request.range with
    | none =>
      refine iff_of_false (fun ⟨_, h, _⟩ => by cases h) ?_
      -- the range overflows, and nothing is sent
      rintro ⟨response', reply, hresponse, hreply, -⟩
      rw [← Except.ok.inj hresponse, hrespond] at hreply
      cases hreply
    | some reply =>
      have hreply : reply.response = response := response_of_respond hrespond
      constructor
      · rintro ⟨reply', heq, hfile⟩
        obtain rfl : reply = reply' := List.head_eq_of_cons_eq (congrArg Prod.fst heq)
        refine ⟨response, reply, rfl, hrespond, fun hGET hnone hnode hOK => ?_⟩
        rw [hnone] at hrespond
        rw [← body_of_respond hrespond]
        exact hfile request hparse hGET hnone hnode (by rw [hreply, hOK])
      · rintro ⟨response', reply', hresponse, hreply', hfile⟩
        obtain rfl := Except.ok.inj hresponse
        refine ⟨reply, rfl, ?_⟩
        rintro request' hrequest' hGET hnone hnode hOK
        obtain rfl : request = request' := Except.ok.inj (hparse.symm.trans hrequest')
        rw [hnone] at hrespond
        rw [body_of_respond hrespond]
        exact hfile hGET hnone hnode (by rw [← hreply, hOK])

/-- **When the client gets one faithful response.** -/
theorem faithfully_answered_iff (fmt : Formatting) (opt : ServerOptions) (tree : FileTree)
    (received : Bytes) :
    FaithfullyAnswered fmt opt tree received ↔
      ∀ request, HttpRequest.parse received = .ok request → request.method = .GET →
        Available fmt tree request.range
          (requestedPath opt.documentRootFolder request.uri) request.uri := by
  cases hparse : HttpRequest.parse received with
  | error what =>
    refine iff_of_true ?_ nofun
    unfold FaithfullyAnswered handleIncomingRequestNoExpt handleIncomingRequest
    rw [hparse]
    exact ⟨_, rfl, nofun⟩
  | ok request =>
    have hrange : ∀ r, request.range = some r → RangeOk r := fun r => rangeOk_of_parse hparse
    rw [faithfullyAnswered_of_parse hparse]
    by_cases hGET : request.method = .GET
    · have hdelivers : Delivers (create fmt tree request opt.documentRootFolder) request.range
            (tree.node (servedPath tree (requestedPath opt.documentRootFolder request.uri))) ↔
          Available fmt tree request.range (requestedPath opt.documentRootFolder request.uri)
            request.uri :=
        delivers_create_iff hGET rfl
      constructor
      · rintro ⟨response, reply, hcreate, hrespond, hfile⟩ request' hrequest' -
        obtain rfl := Except.ok.inj hrequest'
        exact hdelivers.mp
          ⟨response, hcreate, (respond_isSome_iff hrange).mp ⟨reply, hrespond⟩, hfile hGET⟩
      · intro h
        obtain ⟨response, hcreate, hfits, hfile⟩ := hdelivers.mpr (h request rfl hGET)
        obtain ⟨reply, hrespond⟩ := (respond_isSome_iff hrange).mpr hfits
        exact ⟨response, reply, hcreate, hrespond, fun _ => hfile⟩
    · -- a short text is the response
      have hcreate : create fmt tree request opt.documentRootFolder
          = .ok (createFromPlainText .METHOD_NOT_ALLOWED
            (ascii "Sorry, this method is not allowed. Currently only GET is supported.")) := by
        unfold create
        rw [if_pos hGET]
        rfl
      have hsent : ∃ reply, respond (createFromPlainText .METHOD_NOT_ALLOWED
          (ascii "Sorry, this method is not allowed. Currently only GET is supported."))
            request.range = some reply :=
        (respond_isSome_iff hrange).mpr fun _ => by decide
      refine iff_of_true ?_ fun request' hrequest' hGET' => ?_
      · obtain ⟨reply, hrespond⟩ := hsent
        exact ⟨_, reply, hcreate, hrespond, fun hGET' => absurd hGET' hGET⟩
      · rw [← Except.ok.inj hrequest'] at hGET'
        exact absurd hGET' hGET

end

/-- The folder `/r` with a link to nothing as its only entry. -/
def danglingTree : FileTree := fun p =>
  if p = ascii "/r" ∨ p = ascii "/r/" then .directory [ascii "x"] true else .absent

/-- A request for a folder with such a link gets no response. -/
theorem dangling_link_unanswered :
    ¬ ∀ (fmt : Formatting) (opt : ServerOptions) (tree : FileTree) (received : Bytes),
      FaithfullyAnswered fmt opt tree received := by
  intro h
  let fmt : Formatting := ⟨fun _ _ _ => [], fun _ => [], fun _ => []⟩
  have hparse : HttpRequest.parse (ascii "GET / HTTP/1.1\r\n\r\n")
      = .ok ⟨.GET, ascii "/", ascii "HTTP/1.1", [], none⟩ := by decide
  have hnode : danglingTree.node (ascii "/r/") = .directory [ascii "x"] true := rfl
  have havailable := (faithfully_answered_iff fmt exampleOptions danglingTree _).mp
    (h fmt exampleOptions danglingTree _) _ hparse rfl
  rcases (available_directory_iff hnode).mp havailable with hfile | ⟨-, ⟨-, hentries⟩, -⟩
  · exact hfile
  · exact hentries (ascii "x") (List.mem_singleton_self _)

end HttpServer

end Rechnernetze.Http
