import Rechnernetze.Http.HttpRequestTheorems
import Rechnernetze.Http.HttpServer
import Rechnernetze.Lib.LexicalPath

/-!
# Confinement to the document root

The path of a request is the text of the document root with the URI behind it. The module says
for which URIs this path, and that of its `index.html`, stays inside the document root: once
for the text as `std::filesystem::path` has it and once for the part before the first NUL,
which is what the operating system is asked for.
-/

namespace Rechnernetze.Http

open Lib FileSystem NormalPath

namespace ResponseFactory

variable {opt : ServerOptions} {documentsRoot uri data : Bytes} {request : HttpRequest} {p : Path}

/-- The path is the document root itself or lies below it, to the program and to the operating
system. -/
def Inside (documentsRoot p : Path) : Prop :=
  Below (lexicallyNormal documentsRoot) (lexicallyNormal p) ∧
    Below (lexicallyNormal documentsRoot) (lexicallyNormal (cStr p))

/-- The paths that a request for the URI tests and serves are inside. -/
def Confined (documentsRoot uri : Bytes) : Prop :=
  Inside documentsRoot (requestedPath documentsRoot uri) ∧
    Inside documentsRoot (indexHtmlPath (requestedPath documentsRoot uri))

/-- A URI that climbs out of the document root names the folders it has left again: `k` levels
up are followed by the last `k` names of the document root, which must have as many unless it
is absolute. A URI that does not climb above the document root has `k = 0`. -/
def Stays (documentsRoot uri : Bytes) : Prop :=
  ((lexicallyNormal documentsRoot).absolute = true ∨
      (relative uri).ups ≤ (lexicallyNormal documentsRoot).names.length) ∧
    (lexicallyNormal documentsRoot).names.drop
      ((lexicallyNormal documentsRoot).names.length - (relative uri).ups) <+: (relative uri).names

instance : Decidable (Stays documentsRoot uri) := by unfold Stays; infer_instance

theorem stays_of_not_climbing (h : (relative uri).ups = 0) : Stays documentsRoot uri := by
  unfold Stays
  rw [h, Nat.sub_zero, List.drop_length]
  exact ⟨Or.inr (Nat.zero_le _), List.nil_prefix⟩

/-- The document root with a URI behind it. -/
theorem below_requestedPath_iff (hroot : documentsRoot ≠ [])
    (huri : uri = [] ∨ uri.head? = some slash) :
    Below (lexicallyNormal documentsRoot) (lexicallyNormal (requestedPath documentsRoot uri)) ↔
      Stays documentsRoot uri := by
  rcases huri with rfl | hslash
  · rw [requestedPath, List.append_nil]
    exact ⟨fun _ => stays_of_not_climbing rfl, fun _ => ⟨[], extend_nil.symm⟩⟩
  · obtain ⟨rest, rfl⟩ : ∃ rest, uri = slash :: rest := by
      cases uri with
      | nil => cases hslash
      | cons a rest => exact ⟨rest, by rw [Option.some.inj hslash]⟩
    rw [requestedPath, lexicallyNormal_append hroot, below_climb_extend_iff, Stays,
      relative_cons_slash]

/-- A file name below a path that is inside is inside. -/
theorem below_indexHtmlPath (h : Below (lexicallyNormal documentsRoot) (lexicallyNormal p)) :
    Below (lexicallyNormal documentsRoot) (lexicallyNormal (indexHtmlPath p)) := by
  have hname : relative (ascii "index.html") = here.extend [ascii "index.html"] := by decide
  have hhead : ¬ (ascii "index.html").head? = some slash := by decide
  rw [indexHtmlPath, lexicallyNormal_join, if_neg hhead, hname]
  exact h.extend

/-- What the operating system is asked for is the path of a shorter URI. -/
theorem cStr_requestedPath (hroot : (0 : UInt8) ∉ documentsRoot) :
    cStr (requestedPath documentsRoot uri) = requestedPath documentsRoot (cStr uri) :=
  cStr_append hroot

/-- The path of `index.html`, to the operating system, is that of the directory if this has a
NUL. -/
theorem cStr_indexHtmlPath :
    cStr (indexHtmlPath p) = cStr p ∨ cStr (indexHtmlPath p) = indexHtmlPath (cStr p) := by
  have hhead : ¬ (ascii "index.html").head? = some slash := by decide
  by_cases hp : (0 : UInt8) ∈ p
  · refine Or.inl ?_
    rw [indexHtmlPath, Path.join, if_neg hhead]
    split_ifs
    · exact cStr_append_of_mem hp
    · exact cStr_append_of_mem hp
  · have hname : (0 : UInt8) ∉ ascii "index.html" := by decide
    exact Or.inr (by rw [indexHtmlPath, cStr_join hp, cStr_eq_self hname, cStr_eq_self hp]; rfl)

/-- **When a request stays inside the document root.** With a method other than `GET` no path is
looked at, whatever the URI. -/
theorem confined_iff (opt : ServerOptions) (data : Bytes) (request : HttpRequest)
    (h : HttpRequest.parse data = .ok request) :
    Confined opt.documentRootFolder request.uri ↔
      Stays opt.documentRootFolder request.uri ∧
        Stays opt.documentRootFolder (cStr request.uri) := by
  have huri := (HttpRequest.isUri_of_parse h).2
  have huri' : cStr request.uri = [] ∨ (cStr request.uri).head? = some slash := by
    rcases huri with hnil | hslash
    · exact Or.inl (by rw [hnil]; rfl)
    · exact Or.inr (head?_cStr.mpr hslash)
  have hne := opt.documentRootFolder_ne_nil
  have hcStr : cStr (requestedPath opt.documentRootFolder request.uri)
      = requestedPath opt.documentRootFolder (cStr request.uri) :=
    cStr_requestedPath opt.documentRootFolder_noNul
  rw [← below_requestedPath_iff hne huri, ← below_requestedPath_iff hne huri', ← hcStr]
  constructor
  · rintro ⟨hpath, -⟩
    exact hpath
  · intro hpath
    refine ⟨hpath, below_indexHtmlPath hpath.1, ?_⟩
    rcases cStr_indexHtmlPath (p := requestedPath opt.documentRootFolder request.uri) with
      heq | heq
    · rw [heq]
      exact hpath.2
    · rw [heq]
      exact below_indexHtmlPath hpath.2

/-- A `GET` request for `/.`. -/
theorem example_confined : Confined (ascii "/r") (ascii "/.") :=
  (confined_iff exampleOptions (ascii "GET /. HTTP/1.1\r\n\r\n")
    ⟨.GET, ascii "/.", ascii "HTTP/1.1", [], none⟩ (by decide)).mpr (by decide)

/-- A `GET` request for `/..` leads to the folder above. -/
theorem request_outside :
    ¬ ∀ (opt : ServerOptions) (data : Bytes) (request : HttpRequest),
      HttpRequest.parse data = .ok request → Confined opt.documentRootFolder request.uri := by
  intro h
  have hparse : HttpRequest.parse (ascii "GET /.. HTTP/1.1\r\n\r\n")
      = .ok ⟨.GET, ascii "/..", ascii "HTTP/1.1", [], none⟩ := by decide
  have hstays := ((confined_iff exampleOptions _ _ hparse).mp (h exampleOptions _ _ hparse)).1
  exact absurd hstays (by decide)

end ResponseFactory

end Rechnernetze.Http
