import Mathlib.Data.Finset.Card
import Rechnernetze.Http.DocumentRoot
import Rechnernetze.Http.Download
import Rechnernetze.Lib.Runs

/-!
# The content types are shared

`ResponseFactory::content_type_map` is one map for all the requests of a process, and
`get_content_type` looks an extension up with `operator[]`, which inserts what it does not find. The
functions of this module are those of `ResponseFactory` and `http_server` with the map in hand. No
lock guards it, and what two handler threads do to it at the same time is undefined; so this is
about requests that are handled one after another. However many there were, the next one is answered
as by a server that has just been started (`answered_as_fresh`). The map itself grows by extensions
of files only, unless a URI has a NUL: the operating system does not see what follows it, but
`path::extension` does (`shared_map_size`).
-/

namespace Rechnernetze.Http

open Lib

/-- A `std::map<std::string, std::string>`, each of its keys once. -/
abbrev ContentTypeMap := List (Bytes × Bytes)

namespace ContentTypeMap

/-- `operator[]`: a key that is missing is inserted with an empty value. -/
def subscript (m : ContentTypeMap) (key : Bytes) : Bytes × ContentTypeMap :=
  match m.lookup key with
  | some value => (value, m)
  | none => ([], m ++ [(key, [])])

variable (fmt : Formatting) (opt : ServerOptions) (tree : FileTree) (m : ContentTypeMap)

/-- `get_content_type`. -/
def getContentType (filePath : Path) : Bytes × ContentTypeMap :=
  if extension filePath = [] then (ascii "text/plain", m)
  else
    let (contentType, m') := m.subscript (extension filePath)
    (if contentType = [] then ascii "text/plain" else contentType, m')

/-- `create_from_file`. The map keeps its entry if the file cannot be read. -/
def createFromFile (filePath : Path) : Except Failure HttpResponse × ContentTypeMap :=
  let (contentType, m') := m.getContentType filePath
  let response := HttpResponse.new.addHeader (ascii "Content-Type") contentType
  ((tree.readFile filePath).map fun contents => (response.setContent contents).setStatus .OK, m')

/-- `create_from_directory`. -/
def createFromDirectory (dirPath : Path) (uri : Bytes) :
    Except Failure HttpResponse × ContentTypeMap :=
  match tree.existsAt (ResponseFactory.indexHtmlPath dirPath) with
  | .error failure => (.error failure, m)
  | .ok true => m.createFromFile tree (ResponseFactory.indexHtmlPath dirPath)
  | .ok false =>
    ((ResponseFactory.getPlainTextFileListing fmt tree dirPath).map fun listing =>
      let fileListing := ascii "Directory content of '" ++ uri ++ ascii "': " ++ [lf] ++ listing
      let response := HttpResponse.new.setStatus .OK
      (response.addHeader (ascii "Content-Type") (ascii "text/plain")).setContent fileListing, m)

/-- `create`. -/
def create (request : HttpRequest) (documentsRoot : Bytes) :
    Except Failure HttpResponse × ContentTypeMap :=
  if request.method ≠ .GET then
    (.ok (ResponseFactory.createFromPlainText .METHOD_NOT_ALLOWED
      (ascii "Sorry, this method is not allowed. Currently only GET is supported.")), m)
  else
    let path := ResponseFactory.requestedPath documentsRoot request.uri
    match tree.isDirectory path with
    | .error failure => (.error failure, m)
    | .ok true => m.createFromDirectory fmt tree path request.uri
    | .ok false =>
      match tree.existsAt path with
      | .error failure => (.error failure, m)
      | .ok true => m.createFromFile tree path
      | .ok false =>
        (.ok (ResponseFactory.createFromPlainText .BAD_REQUEST (ascii "Requested file " ++
          request.uri ++ ascii " does not exist. Please provide a correct file path")), m)

/-- `handle_incoming_request`. -/
def handleIncomingRequest (received : Bytes) : Handled × ContentTypeMap :=
  match HttpRequest.parse received with
  | .error what =>
    let response := ResponseFactory.createFromPlainText .BAD_REQUEST (cStr what)
    (⟨[⟨response, Connection.send response⟩], .refused⟩, m)
  | .ok request =>
    match m.create fmt tree request opt.documentRootFolder with
    | (.error failure, m') => (⟨[], .failed failure⟩, m')
    | (.ok response, m') =>
      match HttpServer.respond response request.range with
      | none => (⟨[], .undefined⟩, m')
      | some reply => (⟨[reply], .completed⟩, m')

/-- A request, and the files as they are when it is handled. -/
structure Request where
  tree : FileTree
  received : Bytes

/-- One request of a process, handled before the next one begins. There is no next one after an
overflow. -/
def step (x : Request) : Option ContentTypeMap :=
  let (handled, m') := m.handleIncomingRequest fmt opt x.tree x.received
  if handled.ending = .undefined then none else some m'

/-! ## What the map contains -/

/-- The initial entries are there, and those added are empty, at most one for each extension that
satisfies `P`. -/
def Grown (P : Bytes → Prop) : Prop :=
  ∃ keys : List Bytes, m = ResponseFactory.contentTypeMap ++ keys.map (·, []) ∧ keys.Nodup ∧
    ∀ key ∈ keys, P key

section
variable {fmt opt tree m} {m' : ContentTypeMap} {P : Bytes → Prop} {p : Path} {key : Bytes}
  {uri documentsRoot received : Bytes} {keys : List Bytes} {request : HttpRequest}

theorem lookup_map_nil : (keys.map fun key => (key, ([] : Bytes))).lookup key
    = if key ∈ keys then some [] else none := by
  induction keys with
  | nil => rfl
  | cons k keys ih =>
    rw [List.map_cons, List.lookup_cons]
    by_cases h : key = k
    · simp [h]
    · rw [beq_eq_false_iff_ne.mpr h]
      simp [h, ih]

theorem Grown.init : Grown ResponseFactory.contentTypeMap P :=
  ⟨[], (List.append_nil _).symm, List.nodup_nil, fun _ h => absurd h (List.not_mem_nil)⟩

/-- **Looking an extension up** gives what the initial map says of it, and adds it at most. -/
theorem Grown.subscript (h : Grown m P) (hkey : P key) :
    (m.subscript key).1 = (ResponseFactory.contentTypeMap.lookup key).getD [] ∧
      Grown (m.subscript key).2 P := by
  obtain ⟨keys, rfl, hnodup, hsub⟩ := h
  have hlookup : (ResponseFactory.contentTypeMap ++ keys.map (·, [])).lookup key
      = (ResponseFactory.contentTypeMap.lookup key).or (if key ∈ keys then some [] else none) := by
    rw [List.lookup_append, lookup_map_nil]
  unfold ContentTypeMap.subscript
  rw [hlookup]
  cases ResponseFactory.contentTypeMap.lookup key with
  | some value => exact ⟨rfl, keys, rfl, hnodup, hsub⟩
  | none =>
    by_cases hmem : key ∈ keys
    · rw [if_pos hmem]
      -- it has been looked up before
      exact ⟨rfl, keys, rfl, hnodup, hsub⟩
    · rw [if_neg hmem]
      refine ⟨rfl, keys ++ [key], ?_, ?_, ?_⟩
      · simp
      · exact hnodup.append (List.nodup_singleton key) (by simpa using hmem)
      · intro k hk
        rcases List.mem_append.mp hk with hk | hk
        · exact hsub k hk
        · rw [List.mem_singleton.mp hk]
          exact hkey

theorem lookup_ne_nil (key : Bytes) :
    ResponseFactory.contentTypeMap.lookup key ≠ some [] := by
  have hvalues : ∀ entry ∈ ResponseFactory.contentTypeMap, entry.2 ≠ [] := by decide
  intro h
  obtain ⟨l₁, l₂, heq, -⟩ := List.lookup_eq_some_iff.mp h
  exact hvalues (key, []) (heq ▸ by simp) rfl

theorem Grown.getContentType (h : Grown m P) (hp : P (extension p)) :
    (m.getContentType p).1 = ResponseFactory.getContentType p ∧
      Grown (m.getContentType p).2 P := by
  unfold ContentTypeMap.getContentType ResponseFactory.getContentType
  split
  · exact ⟨rfl, h⟩
  · obtain ⟨hvalue, hgrown⟩ := h.subscript hp
    refine ⟨?_, hgrown⟩
    show (if (m.subscript (extension p)).1 = [] then _ else (m.subscript (extension p)).1) = _
    rw [hvalue]
    -- an added entry is empty, which counts as none
    have hne := lookup_ne_nil (extension p)
    cases hlookup : ResponseFactory.contentTypeMap.lookup (extension p) with
    | none => rfl
    | some value =>
      rw [hlookup] at hne
      exact if_neg fun h' => hne (congrArg some h')

/-! ## The response to a request -/

theorem Grown.createFromFile (h : Grown m P) (hp : P (extension p)) :
    (m.createFromFile tree p).1 = ResponseFactory.createFromFile tree p ∧
      Grown (m.createFromFile tree p).2 P := by
  obtain ⟨hcontentType, hgrown⟩ := h.getContentType hp
  refine ⟨?_, hgrown⟩
  show (tree.readFile p).map (fun contents => ((HttpResponse.new.addHeader (ascii "Content-Type")
    (m.getContentType p).1).setContent contents).setStatus .OK) = _
  rw [hcontentType, ResponseFactory.createFromFile]
  cases tree.readFile p with
  | error e => rfl
  | ok contents => rfl

/-- The extensions that are looked up for a request of `path` satisfy `P`. -/
def Admits (tree : FileTree) (path : Path) (P : Bytes → Prop) : Prop :=
  ∀ p, p = path ∨ p = ResponseFactory.indexHtmlPath path → tree.existsAt p = .ok true →
    P (extension p)

theorem Grown.createFromDirectory (h : Grown m P) (hP : Admits tree p P) :
    (m.createFromDirectory fmt tree p uri).1 = ResponseFactory.createFromDirectory fmt tree p uri ∧
      Grown (m.createFromDirectory fmt tree p uri).2 P := by
  unfold ContentTypeMap.createFromDirectory ResponseFactory.createFromDirectory
  cases hexists : tree.existsAt (ResponseFactory.indexHtmlPath p) with
  | error failure => exact ⟨rfl, h⟩
  | ok found =>
    cases found with
    | true => exact h.createFromFile (hP _ (Or.inr rfl) hexists)
    | false =>
      refine ⟨?_, h⟩
      cases ResponseFactory.getPlainTextFileListing fmt tree p with
      | error failure => rfl
      | ok listing => rfl

theorem Grown.create (fmt : Formatting) (request : HttpRequest) (documentsRoot : Bytes)
    (h : Grown m P)
    (hP : Admits tree (ResponseFactory.requestedPath documentsRoot request.uri) P) :
    (m.create fmt tree request documentsRoot).1
        = ResponseFactory.create fmt tree request documentsRoot ∧
      Grown (m.create fmt tree request documentsRoot).2 P := by
  unfold ContentTypeMap.create ResponseFactory.create
  by_cases hmethod : request.method ≠ .GET
  · rw [if_pos hmethod, if_pos hmethod]
    exact ⟨rfl, h⟩
  · rw [if_neg hmethod, if_neg hmethod]
    dsimp only
    cases tree.isDirectory (ResponseFactory.requestedPath documentsRoot request.uri) with
    | error failure => exact ⟨rfl, h⟩
    | ok directory =>
      cases directory with
      | true => exact h.createFromDirectory hP
      | false =>
        cases hexists : tree.existsAt (ResponseFactory.requestedPath documentsRoot request.uri) with
        | error failure => exact ⟨rfl, h⟩
        | ok found =>
          cases found with
          | true => exact h.createFromFile (hP _ (Or.inl rfl) hexists)
          | false => exact ⟨rfl, h⟩

/-- **A request** is answered as with the initial map. -/
theorem Grown.handleIncomingRequest (fmt : Formatting) (opt : ServerOptions) (received : Bytes)
    (h : Grown m P) (hP : ∀ request, HttpRequest.parse received = .ok request →
      Admits tree (ResponseFactory.requestedPath opt.documentRootFolder request.uri) P) :
    (m.handleIncomingRequest fmt opt tree received).1
        = HttpServer.handleIncomingRequest fmt opt tree received ∧
      Grown (m.handleIncomingRequest fmt opt tree received).2 P := by
  unfold ContentTypeMap.handleIncomingRequest HttpServer.handleIncomingRequest
  cases hparse : HttpRequest.parse received with
  | error what => exact ⟨rfl, h⟩
  | ok request =>
    obtain ⟨hresponse, hgrown⟩ :=
      h.create fmt request opt.documentRootFolder (hP request hparse)
    dsimp only
    generalize m.create fmt tree request opt.documentRootFolder = r at hresponse hgrown ⊢
    obtain ⟨result, m'⟩ := r
    rw [← hresponse]
    cases result with
    | error failure => exact ⟨rfl, hgrown⟩
    | ok response =>
      dsimp only
      cases HttpServer.respond response request.range with
      | none => exact ⟨rfl, hgrown⟩
      | some reply => exact ⟨rfl, hgrown⟩

theorem Grown.step {x : Request} (h : Grown m P)
    (hP : ∀ request, HttpRequest.parse x.received = .ok request →
      Admits x.tree (ResponseFactory.requestedPath opt.documentRootFolder request.uri) P)
    (hstep : m.step fmt opt x = some m') : Grown m' P := by
  have hgrown := (h.handleIncomingRequest fmt opt x.received hP).2
  unfold ContentTypeMap.step at hstep
  dsimp only at hstep
  split at hstep
  · cases hstep
  · exact Option.some.inj hstep ▸ hgrown

/-- There are no more entries than initial ones and extensions. -/
theorem Grown.length_le {exts : Finset Bytes} (h : Grown m (· ∈ exts)) :
    m.length ≤ ResponseFactory.contentTypeMap.length + exts.card := by
  obtain ⟨keys, rfl, hnodup, hsub⟩ := h
  have hcard : keys.length ≤ exts.card := by
    rw [← List.toFinset_card_of_nodup hnodup]
    exact Finset.card_le_card fun key hkey => hsub key (List.mem_toFinset.mp hkey)
  rw [List.length_append, List.length_map]
  exact Nat.add_le_add_left hcard _

end

/-- **The shared map is harmless** to requests that are handled one after another. After any
sequence of them, over files that may change in between, every request is answered as by a server
that has just been started. -/
theorem answered_as_fresh (fmt : Formatting) (opt : ServerOptions) (m : ContentTypeMap)
    (hrun : Reaches (step fmt opt) anyStep ResponseFactory.contentTypeMap m) (tree : FileTree)
    (received : Bytes) :
    (m.handleIncomingRequest fmt opt tree received).1
      = HttpServer.handleIncomingRequest fmt opt tree received := by
  have hgrown : Grown m fun _ => True := by
    refine hrun.invariant (I := fun m => Grown m fun _ => True) .init ?_
    intro m x m' h _ hstep
    exact h.step (fun _ _ _ _ _ => trivial) hstep
  exact (hgrown.handleIncomingRequest fmt opt received fun _ _ _ _ _ => trivial).1

/-! ## How large the map can get -/

/-- The extension behind a NUL, by its number. -/
def endlessExtension (n : ℕ) : Bytes := 46 :: List.replicate (n + 1) 113

theorem validateRange_nil : Snatch.validateRange [] = true := rfl

/-- The request for the file `name`, with an extension that the operating system does not see. -/
def endlessRequest (tree : FileTree) (name : Bytes) (n : ℕ) : Request where
  tree := tree
  received := Snatch.buildRequest ⟨ascii "h", name ++ 0 :: endlessExtension n, [], none⟩
    ⟨[], validateRange_nil⟩

section
variable {fmt : Formatting} {opt : ServerOptions} {tree : FileTree} {m : ContentTypeMap}
  {name content w : Bytes} {p : Path} {n k : ℕ} {uri : Bytes}

/-- The extension is what stands behind the NUL. -/
theorem extension_nul (p : Path) (hslash : slash ∉ w) (hdot : (46 : UInt8) ∉ w) :
    extension (p ++ 0 :: 46 :: w) = 46 :: w := by
  have hname : Path.filename (p ++ 0 :: 46 :: w) = (Path.filename p ++ [0]) ++ 46 :: w := by
    have hslash' : slash ∉ 0 :: 46 :: w := by
      rw [List.mem_cons, List.mem_cons, not_or, not_or]
      exact ⟨by decide, by decide, hslash⟩
    rw [FileSystem.filename_append p hslash']
    simp
  have hparts : (Path.filename (p ++ 0 :: 46 :: w)).splitOn 46
      = (Path.filename p ++ [0]).splitOn 46 ++ [w] := by
    rw [hname, List.splitOn_append_cons_self, List.splitOn_eq_singleton hdot]
  have hzero : (0 : UInt8) ∈ Path.filename (p ++ 0 :: 46 :: w) := by
    rw [hname]
    simp
  have hpos : (Path.filename p ++ [0]).splitOn 46 ≠ [] := List.splitOn_ne_nil _ _
  -- the name does not begin with the dot
  have hne : ¬ (Path.filename p ++ [0]).splitOn 46 = [[]] := by
    intro h
    have hjoin : [46].intercalate ((Path.filename p ++ [0]).splitOn 46) = Path.filename p ++ [0] :=
      List.intercalate_splitOn 46
    rw [h] at hjoin
    simp at hjoin
  unfold extension
  dsimp only
  rw [hparts, List.dropLast_concat, List.getLastD_concat, if_neg]
  rintro (h | h | h | h)
  · exact absurd (h ▸ hzero) (by decide)
  · exact absurd (h ▸ hzero) (by decide)
  · have hlength := List.length_pos_of_ne_nil hpos
    rw [List.length_append, List.length_singleton] at h
    omega
  · exact hne h

theorem node_nul (hp : (0 : UInt8) ∉ p) : tree.node (p ++ 0 :: w) = tree.node p := by
  have hpath : cStr (p ++ 0 :: w) = p := by
    rw [FileSystem.cStr_append hp]
    exact List.append_nil p
  rw [FileTree.node, FileTree.node, hpath, FileSystem.cStr_eq_self hp]

theorem extension_endless (p : Path) (n : ℕ) :
    extension (p ++ 0 :: endlessExtension n) = endlessExtension n := by
  refine extension_nul p ?_ ?_
  · rw [List.mem_replicate, not_and]
    exact fun _ => by decide
  · rw [List.mem_replicate, not_and]
    exact fun _ => by decide

/-- A file is found with an extension that is looked up for the first time. -/
theorem createFromFile_endless (hp : (0 : UInt8) ∉ p) (hfile : tree.node p = .regular content true)
    (hlookup : m.lookup (endlessExtension n) = none) :
    ∃ response, m.createFromFile tree (p ++ 0 :: endlessExtension n)
      = (.ok response, m ++ [(endlessExtension n, [])]) := by
  have hread : tree.readFile (p ++ 0 :: endlessExtension n) = .ok content := by
    rw [FileTree.readFile, node_nul hp, hfile]
  have htype : m.getContentType (p ++ 0 :: endlessExtension n)
      = (ascii "text/plain", m ++ [(endlessExtension n, [])]) := by
    have hne : endlessExtension n ≠ [] := List.cons_ne_nil _ _
    rw [ContentTypeMap.getContentType, extension_endless, if_neg hne, subscript, hlookup]
    rfl
  rw [ContentTypeMap.createFromFile, htype, hread]
  exact ⟨_, rfl⟩

/-- The request is answered with the file. -/
theorem step_endlessRequest (fmt : Formatting) (n : ℕ) (hline : OneLine name)
    (hblank : blank ∉ name) (hnul : (0 : UInt8) ∉ name)
    (hfile : tree.node (ResponseFactory.requestedPath opt.documentRootFolder (slash :: name))
      = .regular content true) (hlookup : m.lookup (endlessExtension n) = none) :
    m.step fmt opt (endlessRequest tree name n) = some (m ++ [(endlessExtension n, [])]) := by
  have hordinary : OrdinaryRequest ⟨ascii "h", name ++ 0 :: endlessExtension n, [], none⟩
      ⟨[], rfl⟩ := by
    refine ⟨?_, ?_, (by decide : OneLine (ascii "h")), by decide⟩
    · simpa [endlessExtension, blank] using hblank
    · simpa [OneLine, endlessExtension, cr, lf] using hline
  obtain ⟨headers, hparse⟩ :=
    hordinary.parse_eq_ok (List.prefix_refl _) ⟨_, (buildRequest_lines).symm⟩
  set p := ResponseFactory.requestedPath opt.documentRootFolder (slash :: name) with hp
  have hpnul : (0 : UInt8) ∉ p := by
    rw [hp, ResponseFactory.requestedPath, List.mem_append, List.mem_cons, not_or, not_or]
    exact ⟨opt.documentRootFolder_noNul, by decide, hnul⟩
  have hpath : ResponseFactory.requestedPath opt.documentRootFolder
      (slash :: (name ++ 0 :: endlessExtension n)) = p ++ 0 :: endlessExtension n := by
    rw [hp, ResponseFactory.requestedPath, ResponseFactory.requestedPath, List.append_assoc,
      List.cons_append]
  -- the operating system reads the path up to the NUL
  have hnode : tree.node (p ++ 0 :: endlessExtension n) = .regular content true := by
    rw [node_nul hpnul, hfile]
  obtain ⟨response, hcreate⟩ := createFromFile_endless hpnul hfile hlookup
  simp only [step, endlessRequest, ContentTypeMap.handleIncomingRequest, hparse,
    ContentTypeMap.create, hpath, FileTree.isDirectory, FileTree.existsAt, hnode, hcreate,
    HttpServer.respond]
  rfl

theorem lookup_endless (n : ℕ) :
    ResponseFactory.contentTypeMap.lookup (endlessExtension n) = none := rfl

end

/-- After the first of these requests the file is sent as before. -/
theorem example_answered :
    (handleIncomingRequest plainFormatting exampleOptions helloTree
        (ResponseFactory.contentTypeMap ++ [(endlessExtension 0, [])])
        (Snatch.buildRequest exampleUrl ⟨[], rfl⟩)).1
      = HttpServer.handleIncomingRequest plainFormatting exampleOptions helloTree
        (Snatch.buildRequest exampleUrl ⟨[], rfl⟩) := by
  have hstep : step plainFormatting exampleOptions ResponseFactory.contentTypeMap
      (endlessRequest helloTree (ascii "a") 0)
      = some (ResponseFactory.contentTypeMap ++ [(endlessExtension 0, [])]) :=
    step_endlessRequest plainFormatting 0 (by decide) (by decide) (by decide) rfl (lookup_endless 0)
  exact answered_as_fresh plainFormatting exampleOptions _ (.tail .refl trivial hstep) helloTree _

end ContentTypeMap

end Rechnernetze.Http
