import Rechnernetze.Http.Framing
import Rechnernetze.Http.RequestAgreement
import Rechnernetze.Http.UrlScan

/-!
# A download

`snatch` and `http_server` on one connection. Both act on what their first `recv` delivers. So the
server answers as for the whole request if the request line is in there, and refuses it otherwise;
and `snatch` prints, and writes to a file, what of the body came along with the header
(`download_eq`). The server closes the connection when it has answered, and a client that is still
sending then is killed by a signal; so this is about a client that has handed over its request at
once, and about texts that arrive.
-/

namespace Rechnernetze.Http

open Lib HttpRequest HttpResponse Connection ResponseFactory Snatch

/-! ## `main` -/

namespace Snatch

/-- `send_request`: what is handed to `::send`. -/
def sendRequest (fuel : ℕ) (message : Bytes) : Option SlowInfo → Option SlowEnd
  | some slowInfo => sendSlow fuel message slowInfo.bytes
  | none => some (.returned [message])

/-- What the end of `main` reads of the command line. -/
structure OutputOptions where
  output : Bytes
  remoteName : Bool

/-- What `main` leaves behind. -/
structure Outcome where
  stdout : Bytes
  /-- The file that has been written, by its name. -/
  file : Option (Bytes × Bytes)
  exitFailure : Bool
deriving DecidableEq

/-- `filename`. -/
def outputName (out : OutputOptions) (urlInfo : UrlInfo) : Bytes :=
  if out.output ≠ [] then out.output else if out.remoteName then urlInfo.fileName else []

/-- `main` from the payload of the response on. `writable` says of which files `write_to_file` can
open the stream. -/
def finish (writable : Bytes → Bool) (out : OutputOptions) (urlInfo : UrlInfo)
    (payload : Bytes) : Outcome :=
  let filename := outputName out urlInfo
  if filename ≠ [] ∧ writable filename = false then ⟨[], none, true⟩
  else ⟨payload, if filename = [] then none else some (filename, payload), false⟩

end Snatch

/-- A run of both programs on one connection, with the pieces in which the texts arrive; the
request is not sent slowly. -/
structure Exchange (fmt : Formatting) (opt : ServerOptions) (tree : FileTree) (urlInfo : UrlInfo)
    (clientOpt : Snatch.Options) where
  requestBlocks : List Bytes
  sent : sendRequest 0 (buildRequest urlInfo clientOpt) none = some (.returned requestBlocks)
  requestPieces : List Bytes
  request : Segmentation requestBlocks.flatten requestPieces
  received : Bytes
  reception : receiveBytes (deliveries requestPieces) = .ok received
  replies : List Reply
  handled : HttpServer.handleIncomingRequestNoExpt fmt opt tree received = (replies, true)
  responsePieces : List Bytes
  response : Segmentation (replies.flatMap Reply.wire) responsePieces

namespace Exchange

/-- The server gets the request as it was built. -/
theorem request_pieces {fmt : Formatting} {opt : ServerOptions} {tree : FileTree}
    {urlInfo : UrlInfo} {clientOpt : Snatch.Options}
    (e : Exchange fmt opt tree urlInfo clientOpt) :
    Segmentation (buildRequest urlInfo clientOpt) e.requestPieces := by
  have hblocks : [buildRequest urlInfo clientOpt] = e.requestBlocks :=
    SlowEnd.returned.inj (Option.some.inj e.sent)
  have hrequest := e.request
  rwa [← hblocks, List.flatten_singleton] at hrequest

/-- What `snatch` leaves behind; `none` where the reception of the response is undefined. -/
def outcome {fmt : Formatting} {opt : ServerOptions} {tree : FileTree} {urlInfo : UrlInfo}
    {clientOpt : Snatch.Options} (e : Exchange fmt opt tree urlInfo clientOpt)
    (writable : Bytes → Bool) (out : OutputOptions) : Option Outcome :=
  (receiveHttpResponse (deliveries e.responsePieces)).map fun response =>
    finish writable out urlInfo response.payload

end Exchange

/-- The request line with its CR. -/
def requestLine (urlInfo : UrlInfo) : Bytes :=
  ascii "GET" ++ blank :: (slash :: urlInfo.filePathName ++ blank :: (ascii "HTTP/1.1" ++ [cr]))

/-- What the server tells of a text that is no request. -/
def refusalText (received : Bytes) : Bytes :=
  cStr (ascii "Failed to parse Status-Line: " ++ firstLine received) ++ crlf

section
variable {fmt : Formatting} {opt : ServerOptions} {tree : FileTree} {urlInfo : UrlInfo}
  {clientOpt : Snatch.Options} {s t w l received content d p rest data url : Bytes}
  {lines : List Bytes} {request : HttpRequest} {response : HttpResponse} {status : Status}
  {fields : List (Bytes × Bytes)}

/-! ## The lines of a prefix -/

theorem getlines_of_notMem (hs : lf ∉ s) (hne : s ≠ []) : getlines s = [s] := by
  induction s with
  | nil => exact absurd rfl hne
  | cons a s ih =>
    have ha : a ≠ lf := fun h => hs (h ▸ List.mem_cons_self ..)
    rw [getlines, if_neg ha]
    cases s with
    | nil => rfl
    | cons b s => rw [ih (fun h => hs (List.mem_cons_of_mem _ h)) (List.cons_ne_nil _ _)]

/-- A prefix of a text ends in its first line or has all of it. -/
theorem prefix_line (h : s <+: w ++ lf :: t) :
    s <+: w ∨ ∃ s', s = w ++ lf :: s' ∧ s' <+: t := by
  rcases List.prefix_or_prefix_of_prefix h (List.prefix_append w (lf :: t)) with hs | ⟨s', rfl⟩
  · exact Or.inl hs
  · cases s' with
    | nil => exact Or.inl (by rw [List.append_nil])
    | cons a s' =>
      obtain ⟨rfl, htail⟩ := List.cons_prefix_cons.mp ((List.prefix_append_right_inj w).mp h)
      exact Or.inr ⟨s', rfl, htail⟩

/-- Every line of a prefix is a prefix of a line. -/
theorem getlines_prefix (hlines : ∀ w ∈ lines, lf ∉ w)
    (h : s <+: lines.flatMap fun w => w ++ [lf]) :
    ∀ l ∈ getlines s, ∃ w ∈ lines, l <+: w := by
  induction lines generalizing s with
  | nil =>
    rw [List.prefix_nil.mp h]
    nofun
  | cons w lines ih =>
    have hw := hlines w (List.mem_cons_self ..)
    rw [List.flatMap_cons, List.append_assoc, List.singleton_append] at h
    intro l hl
    rcases prefix_line h with hs | ⟨s', rfl, hs'⟩
    · -- the prefix ends within the first line
      have hlf : lf ∉ s := fun h => hw (hs.subset h)
      have hne : s ≠ [] := by
        rintro rfl
        cases hl
      rw [getlines_of_notMem hlf hne, List.mem_singleton] at hl
      rw [hl]
      exact ⟨w, List.mem_cons_self .., hs⟩
    · rw [getlines_line hw, List.mem_cons] at hl
      rcases hl with rfl | hl
      · exact ⟨l, List.mem_cons_self .., List.prefix_refl _⟩
      · obtain ⟨w', hw', hpre⟩ := ih (fun w h => hlines w (List.mem_cons_of_mem _ h)) hs' l hl
        exact ⟨w', List.mem_cons_of_mem _ hw', hpre⟩

/-! ## What the server makes of its first piece -/

theorem received_prefix {pieces : List Bytes} (h : Segmentation s pieces)
    (hreceived : receiveBytes (deliveries pieces) = .ok received) :
    received = pieces.headD [] ∧ received <+: s := by
  obtain ⟨rfl, hsize⟩ := h
  cases pieces with
  | nil =>
    obtain rfl : [] = received := Except.ok.inj hreceived
    exact ⟨rfl, List.nil_prefix⟩
  | cons piece pieces =>
    have hpiece := hsize piece (List.mem_cons_self ..)
    rw [receiveBytes_deliveries (by omega)] at hreceived
    split at hreceived
    · cases hreceived
    · obtain rfl := Except.ok.inj hreceived
      exact ⟨rfl, List.prefix_append piece pieces.flatten⟩

/-- The lines after the request line. -/
def furtherLines (urlInfo : UrlInfo) (clientOpt : Snatch.Options) : List Bytes :=
  (headerFields urlInfo clientOpt).map fieldLine ++ [[cr]]

theorem buildRequest_lines :
    buildRequest urlInfo clientOpt = requestLine urlInfo ++ lf ::
      (furtherLines urlInfo clientOpt).flatMap fun w => w ++ [lf] := by
  rw [buildRequest_eq, furtherLines, List.flatMap_append, List.flatMap_map]
  rfl

/-- What goes into the request has no line ends, and the path no blank. -/
structure OrdinaryRequest (urlInfo : UrlInfo) (clientOpt : Snatch.Options) : Prop where
  blank : blank ∉ urlInfo.filePathName
  path : OneLine urlInfo.filePathName
  host : OneLine urlInfo.host
  range : OneLine clientOpt.range

/-- The request for a URL of one line without blanks is an ordinary one. -/
theorem ordinaryRequest_of_parse (hline : OneLine url) (hblank : Lib.blank ∉ url)
    (hparse : UrlParser.parse url = .ok urlInfo) : OrdinaryRequest urlInfo clientOpt := by
  obtain ⟨hhost, hpath⟩ := UrlParser.parts_subset hparse
  refine ⟨fun h => hblank (hpath h), ⟨fun h => hline.1 (hpath h), fun h => hline.2 (hpath h)⟩, ?_,
    oneLine_of_validateRange clientOpt.valid⟩
  rcases hhost with hhost | hhost
  · exact ⟨fun h => hline.1 (hhost h), fun h => hline.2 (hhost h)⟩
  · rw [hhost]
    decide

theorem OrdinaryRequest.oneLine (h : OrdinaryRequest urlInfo clientOpt) :
    ∃ r, requestLine urlInfo = r ++ [cr] ∧ OneLine r := by
  refine ⟨ascii "GET" ++ Lib.blank :: (slash :: urlInfo.filePathName ++ Lib.blank ::
    ascii "HTTP/1.1"), by simp [requestLine], ?_⟩
  rw [oneLine_append, oneLine_cons, oneLine_append, oneLine_cons, oneLine_cons]
  exact ⟨by decide, by decide, ⟨by decide, h.path⟩, by decide, by decide⟩

theorem OrdinaryRequest.lf_notMem (h : OrdinaryRequest urlInfo clientOpt) :
    lf ∉ requestLine urlInfo := by
  obtain ⟨r, hr, hline⟩ := h.oneLine
  rw [hr, List.mem_append, not_or]
  exact ⟨hline.2, by decide⟩

/-- No line of the request, and no beginning of one, sets the header that is looked up. -/
theorem OrdinaryRequest.headerOf (h : OrdinaryRequest urlInfo clientOpt)
    (hw : w ∈ furtherLines urlInfo clientOpt) (hl : l <+: w) :
    headerOf (ascii "Content-Range") l = none := by
  have hno : ¬ ascii "Content-Range" ++ [colon] <+: w := by
    rcases List.mem_append.mp hw with hw | hw
    · obtain ⟨field, hfield, rfl⟩ := List.mem_map.mp hw
      have hkey := (headerFields_ok h.host h.range field hfield).1
      rintro ⟨rest, hline⟩
      rw [List.append_assoc, List.singleton_append, fieldLine] at hline
      have hkeys := congrArg (List.takeWhile (· ≠ colon)) hline
      rw [takeWhile_ne_append (by decide), takeWhile_ne_append hkey.2.2.1] at hkeys
      exact hkey.2.2.2 hkeys.symm
    · rw [List.mem_singleton.mp hw]
      decide
  rw [HttpRequest.headerOf, if_neg fun hkey => hno (hkey.trans hl)]

/-- **The request line is in the piece**: the server reads the same as in the whole request. -/
theorem OrdinaryRequest.parse_eq_ok (h : OrdinaryRequest urlInfo clientOpt)
    (hpre : received <+: buildRequest urlInfo clientOpt)
    (hline : requestLine urlInfo <+: received) :
    ∃ headers, HttpRequest.parse received
      = .ok ⟨.GET, slash :: urlInfo.filePathName, ascii "HTTP/1.1", headers, none⟩ := by
  have hlf := h.lf_notMem
  have hfurther : ∀ w ∈ furtherLines urlInfo clientOpt, lf ∉ w := by
    intro w hw
    rcases List.mem_append.mp hw with hw | hw
    · obtain ⟨field, hfield, rfl⟩ := List.mem_map.mp hw
      obtain ⟨hkey, hvalue⟩ := headerFields_ok h.host h.range field hfield
      exact lf_notMem_fieldLine hkey.2.1 hvalue
    · rw [List.mem_singleton.mp hw]
      decide
  -- the lines that have arrived are the request line and beginnings of further lines
  have hlines : ∃ tail, getlines received = requestLine urlInfo :: tail ∧
      ∀ l ∈ tail, ∃ w ∈ furtherLines urlInfo clientOpt, l <+: w := by
    rw [buildRequest_lines] at hpre
    rcases prefix_line hpre with hend | ⟨s, rfl, hs⟩
    · obtain rfl := hend.eq_of_length_le hline.length_le
      exact ⟨[], getlines_of_notMem hlf (by simp [requestLine, ascii]), nofun⟩
    · exact ⟨getlines s, getlines_line hlf, getlines_prefix hfurther hs⟩
  obtain ⟨tail, hlines, htail⟩ := hlines
  obtain ⟨c, hc, h1, h2, h3⟩ := statusLine_buildRequest h.blank h.path
  -- none of them sets the header that the server looks up
  have hlookup : (parseHeaders tail).lookup (ascii "Content-Range") = none := by
    rw [parseHeaders, lookup_foldl_parseHeaderLine (by decide) (by decide) (by decide),
      List.filterMap_eq_nil_iff.mpr]
    · rfl
    · intro l hl
      obtain ⟨w, hw, hpre⟩ := htail l hl
      exact h.headerOf hw hpre
  refine ⟨parseHeaders tail, ?_⟩
  rw [← requestLine] at hc
  simp only [HttpRequest.parse, hlines, List.headD_cons, List.tail_cons, parseStatusLine, hc,
    hlookup, h1, h2, h3]
  rfl

/-- **The request line is cut off.** -/
theorem OrdinaryRequest.parse_eq_error (h : OrdinaryRequest urlInfo clientOpt)
    (hpre : received <+: buildRequest urlInfo clientOpt)
    (hline : ¬ requestLine urlInfo <+: received) :
    HttpRequest.parse received
      = .error (ascii "Failed to parse Status-Line: " ++ firstLine received) := by
  refine parse_of_refused fun hok => ?_
  rw [headD_getlines, parseStatusLine_eq_ok_iff] at hok
  obtain ⟨m, s, v, hdivision⟩ := hok
  -- the line has no CR
  rw [buildRequest_lines] at hpre
  have hshort := (List.prefix_or_prefix_of_prefix hpre
    (List.prefix_append (requestLine urlInfo) _)).resolve_right hline
  obtain ⟨r, hr, hone⟩ := h.oneLine
  rw [hr] at hshort hline
  rcases List.prefix_concat_iff.mp hshort with rfl | hbefore
  · exact hline (List.prefix_refl _)
  · have hcr : cr ∈ firstLine received := by
      rw [← hdivision.line_eq]
      simp
    exact hone.1 (hbefore.subset ((List.takeWhile_prefix (· ≠ lf)).subset hcr))

/-! ## What the server sends -/

theorem create_file {path : Path} (hGET : request.method = .GET)
    (hpath : requestedPath opt.documentRootFolder request.uri = path)
    (hnode : tree.node (HttpServer.servedPath tree path) = .regular content true) :
    create fmt tree request opt.documentRootFolder
      = .ok (typed .OK (getContentType (HttpServer.servedPath tree path)) content) := by
  have hfile : ∀ p, tree.node p = .regular content true →
      createFromFile tree p = .ok (typed .OK (getContentType p) content) := by
    intro p hp
    unfold createFromFile FileTree.readFile
    rw [hp]
    rfl
  unfold create
  rw [if_neg (not_not.mpr hGET), hpath]
  cases hdirectory : tree.node path with
  -- the index file of the directory is served
  | directory names readable =>
    have hserved : HttpServer.servedPath tree path = indexHtmlPath path := by
      rw [HttpServer.servedPath, hdirectory]
    rw [hserved] at hnode ⊢
    simp only [FileTree.isDirectory, hdirectory, createFromDirectory, FileTree.existsAt, hnode,
      hfile _ hnode]
    rfl
  | regular =>
    have hserved : HttpServer.servedPath tree path = path := by
      rw [HttpServer.servedPath, hdirectory]
    rw [hserved] at hnode ⊢
    simp only [FileTree.isDirectory, hdirectory, FileTree.existsAt, hfile _ hnode]
    rfl
  | absent | unreachable | special =>
    rw [HttpServer.servedPath, hdirectory] at hnode
    rw [hdirectory] at hnode
    cases hnode

theorem handled_of_create (hparse : HttpRequest.parse received = .ok request)
    (hrange : request.range = none)
    (hcreate : create fmt tree request opt.documentRootFolder = .ok response) :
    HttpServer.handleIncomingRequestNoExpt fmt opt tree received
      = ([⟨response, send response⟩], true) := by
  rw [HttpServer.handleIncomingRequestNoExpt,
    HttpServer.handleIncomingRequest_responded hparse hcreate, hrange]
  rfl

theorem handled_of_error {what : Bytes} (hparse : HttpRequest.parse received = .error what) :
    HttpServer.handleIncomingRequestNoExpt fmt opt tree received
      = ([⟨typed .BAD_REQUEST (ascii "text/plain") (cStr what ++ crlf),
          send (typed .BAD_REQUEST (ascii "text/plain") (cStr what ++ crlf))⟩], true) := by
  unfold HttpServer.handleIncomingRequestNoExpt HttpServer.handleIncomingRequest
  rw [hparse]
  rfl

/-! ## What the client makes of its first piece -/

/-- The payload of a response that is cut off. -/
theorem payload_of_cut (h : FirstEmptyLine p rest data) (hpre : d <+: data)
    (hparse : HttpResponse.parse d = some response) :
    response.payload = rest.take (d.length - (p.length + 4)) := by
  obtain ⟨t, hd⟩ := hpre
  by_cases hlong : p.length + 4 ≤ d.length
  · -- the empty line is in there
    have hdata : d = p ++ (emptyLine ++ rest.take (d.length - (p.length + 4))) := by
      have htake : d = data.take d.length := by rw [← hd, List.take_left]
      have hlength : (p ++ emptyLine).length = p.length + 4 := by
        rw [List.length_append, length_emptyLine]
      rw [← h.eq, ← List.append_assoc, List.take_append, hlength,
        List.take_of_length_le (by omega), List.append_assoc] at htake
      exact htake
    have hfirst : FirstEmptyLine p (rest.take (d.length - (p.length + 4))) d := by
      refine ⟨hdata.symm, fun q r hq => h.first q (r ++ t) ?_⟩
      rw [← hd, ← hq]
      simp only [List.append_assoc]
    rw [parse_of_firstEmptyLine hfirst] at hparse
    split at hparse
    · rw [← Option.some.inj hparse]
    · cases hparse
  · -- the piece ends before the empty line does
    have hno : ¬ emptyLine <:+: d := by
      rintro ⟨q, r, hq⟩
      have hle := h.first q (r ++ t) (by rw [← hd, ← hq]; simp only [List.append_assoc])
      have hlength := congrArg List.length hq
      rw [List.length_append, List.length_append, length_emptyLine] at hlength
      omega
    rw [parse_of_no_emptyLine hno] at hparse
    have hzero : d.length - (p.length + 4) = 0 := by omega
    rw [hzero, List.take_zero]
    split at hparse
    · rw [← Option.some.inj hparse]
    · cases hparse

/-- What `snatch` takes for the payload of a response. -/
theorem payload_typed {pieces : List Bytes} {contentType body : Bytes}
    (htype : OneLine contentType)
    (hpieces : Segmentation (wire (typed status contentType body)) pieces)
    (hreceive : receiveHttpResponse (deliveries pieces) = some response) :
    response.payload = body.take
      ((pieces.headD []).length - (headerText status contentType body.length).length) := by
  obtain ⟨d, hd, hparse⟩ := Option.bind_eq_some_iff.mp hreceive
  have hreceived : receiveBytes (deliveries pieces) = .ok d := by
    cases hbytes : receiveBytes (deliveries pieces) with
    | error e =>
      rw [hbytes] at hd
      cases hd
    | ok b =>
      rw [hbytes] at hd
      rw [Option.some.inj hd]
  obtain ⟨rfl, hpre⟩ := received_prefix hpieces hreceived
  have hfields : ∀ field ∈ [(ascii "Content-Type", contentType)],
      OneLine field.1 ∧ OneLine field.2 := by
    intro field hfield
    rw [List.mem_singleton.mp hfield]
    exact ⟨(by decide : OneLine (ascii "Content-Type")), htype⟩
  have hfirst : FirstEmptyLine _ body (wire (typed status contentType body)) :=
    firstEmptyLine_wire hfields
  rw [payload_of_cut hfirst hpre hparse]
  congr 2
  simp [headerText, metadata, crlf, Nat.add_assoc]

/-- **A download** of a file. What `snatch` prints and writes is what of the file has arrived with
the header, or what of the refusal has where the request line was cut off. -/
theorem download_eq (hline : OneLine url) (hblank : Lib.blank ∉ url)
    (hparse : UrlParser.parse url = .ok urlInfo) (e : Exchange fmt opt tree urlInfo clientOpt)
    (writable : Bytes → Bool) (out : OutputOptions) (o : Outcome) (content : Bytes) (path : Path)
    (hpath : HttpServer.servedPath tree
      (requestedPath opt.documentRootFolder (slash :: urlInfo.filePathName)) = path)
    (hfile : tree.node path = .regular content true) (ho : e.outcome writable out = some o) :
    o = finish writable out urlInfo
      (if requestLine urlInfo <+: e.received then
        content.take ((e.responsePieces.headD []).length
          - (headerText .OK (getContentType path) content.length).length)
      else
        (refusalText e.received).take ((e.responsePieces.headD []).length
          - (headerText .BAD_REQUEST (ascii "text/plain")
            (refusalText e.received).length).length)) := by
  have h : OrdinaryRequest urlInfo clientOpt := ordinaryRequest_of_parse hline hblank hparse
  obtain ⟨response, hreceive, rfl⟩ := Option.map_eq_some_iff.mp ho
  obtain ⟨-, hpre⟩ := received_prefix e.request_pieces e.reception
  have hhandled := e.handled
  have hresponse := e.response
  split
  · rename_i hrequestLine
    -- the file is answered
    obtain ⟨headers, hrequest⟩ := h.parse_eq_ok hpre hrequestLine
    rw [handled_of_create hrequest rfl (create_file rfl rfl (by rw [hpath]; exact hfile)), hpath]
      at hhandled
    rw [← (Prod.mk.inj hhandled).1, List.flatMap_singleton] at hresponse
    rw [payload_typed (HttpServer.oneLine_getContentType path) hresponse hreceive]
  · rename_i hrequestLine
    -- the refusal is
    rw [handled_of_error (h.parse_eq_error hpre hrequestLine)] at hhandled
    rw [← (Prod.mk.inj hhandled).1, List.flatMap_singleton] at hresponse
    rw [payload_typed (by decide) hresponse hreceive]
    rfl

end

/-- The file `/r/a` with the text `hello`. -/
def helloTree : FileTree := fun p =>
  if p = ascii "/r/a" then .regular (ascii "hello") true else .absent

theorem exampleUrl_parsed : UrlParser.parse (ascii "h.de/a") = .ok exampleUrl := by decide

theorem exampleUrl_ordinary : OrdinaryRequest exampleUrl ⟨[], rfl⟩ :=
  ordinaryRequest_of_parse (by decide) (by decide) exampleUrl_parsed

/-- The response with that file. -/
def helloResponse : HttpResponse := typed .OK (ascii "text/plain") (ascii "hello")

theorem hello_handled (fmt : Formatting) :
    HttpServer.handleIncomingRequestNoExpt fmt exampleOptions helloTree
      (buildRequest exampleUrl ⟨[], rfl⟩) = ([⟨helloResponse, send helloResponse⟩], true) := by
  obtain ⟨headers, hparse⟩ := exampleUrl_ordinary.parse_eq_ok (List.prefix_refl _) (by decide)
  have hserved : HttpServer.servedPath helloTree (ascii "/r/a") = ascii "/r/a" := by decide
  have hcreate : create fmt helloTree ⟨.GET, ascii "/a", ascii "HTTP/1.1", headers, none⟩
      exampleOptions.documentRootFolder = .ok (typed .OK (getContentType
        (HttpServer.servedPath helloTree (ascii "/r/a"))) (ascii "hello")) :=
    create_file rfl rfl (by rw [hserved]; rfl)
  rw [hserved] at hcreate
  exact handled_of_create hparse rfl hcreate

/-- Nothing is printed of a directory. -/
def plainFormatting : Formatting := ⟨fun _ _ _ => [], fun _ => [], fun _ => []⟩

/-- The file is asked for, and both texts arrive in one piece. -/
def exampleExchange :
    Exchange plainFormatting exampleOptions helloTree exampleUrl ⟨[], rfl⟩ where
  requestBlocks := [buildRequest exampleUrl ⟨[], rfl⟩]
  sent := rfl
  requestPieces := [buildRequest exampleUrl ⟨[], rfl⟩]
  request := ⟨rfl, by decide⟩
  received := buildRequest exampleUrl ⟨[], rfl⟩
  reception := by decide
  replies := [⟨helloResponse, send helloResponse⟩]
  handled := hello_handled plainFormatting
  responsePieces := [wire helloResponse]
  response := ⟨rfl, by decide⟩

theorem example_download :
    exampleExchange.outcome (fun _ => true) ⟨[], true⟩
      = some ⟨ascii "hello", some (ascii "a", ascii "hello"), false⟩ := by
  have hsome : (exampleExchange.outcome (fun _ => true) ⟨[], true⟩).isSome := by decide
  obtain ⟨o, ho⟩ := Option.isSome_iff_exists.mp hsome
  rw [ho, download_eq (by decide) (by decide) exampleUrl_parsed exampleExchange _ _ o
    (ascii "hello") (ascii "/r/a") rfl rfl ho, if_pos (by decide)]
  rfl

end Rechnernetze.Http
