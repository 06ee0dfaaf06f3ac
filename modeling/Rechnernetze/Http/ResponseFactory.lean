import Rechnernetze.Http.HttpRequest
import Rechnernetze.Http.HttpResponse

/-!
# `ResponseFactory`

The response to a request, computed from what lies under the document root. The files are
given as a function from paths to what the operating system finds there; it is the same for
all the calls made for one request. The functions of the `fmt` library and those that print a
date or a size are parameters.
-/

namespace Rechnernetze.Http

open Lib

/-! ## The file system -/

/-- Why a call does not return. -/
inductive Failure where
  | exception
  /-- It waits for ever, as the opening of a pipe without a writer. -/
  | blocked
deriving DecidableEq

/-- What the operating system finds at a path, links followed. -/
inductive Node where
  /-- Nothing, or a link to nothing. -/
  | absent
  /-- An error other than `ENOENT` and `ENOTDIR`. -/
  | unreachable
  | directory (names : List Bytes) (readable : Bool)
  | regular (content : Bytes) (readable : Bool)
  /-- Neither: what an attempt to read it to its end gives. -/
  | special (reading : Except Failure Bytes)

/-- Paths as the operating system sees them. -/
abbrev FileTree := Path → Node

namespace FileTree

variable (tree : FileTree)

/-- What a call with the path `p` finds. -/
def node (p : Path) : Node := tree (cStr p)

/-- `std::filesystem::is_directory`. -/
def isDirectory (p : Path) : Except Failure Bool :=
  match tree.node p with
  | .unreachable => .error .exception
  | .directory .. => .ok true
  | _ => .ok false

/-- `std::filesystem::exists`. -/
def existsAt (p : Path) : Except Failure Bool :=
  match tree.node p with
  | .unreachable => .error .exception
  | .absent => .ok false
  | _ => .ok true

/-- `std::filesystem::directory_entry::file_size`. -/
def fileSize (p : Path) : Except Failure ℕ :=
  match tree.node p with
  | .regular content _ => .ok content.length
  | _ => .error .exception

/-- `std::filesystem::directory_iterator`: the names of the entries. -/
def directoryEntries (p : Path) : Except Failure (List Bytes) :=
  match tree.node p with
  | .directory names true => .ok names
  | _ => .error .exception

/-- `helper::read_file`. A stream that cannot be opened delivers nothing, and reading a
directory that has been opened throws. -/
def readFile (p : Path) : Except Failure Bytes :=
  match tree.node p with
  | .regular content true => .ok content
  | .directory _ true => .error .exception
  | .special reading => reading
  | _ => .ok []

end FileTree

/-- `std::filesystem::path::extension`: the file name from its last dot on, if that is not its
first character. -/
def extension (p : Path) : Bytes :=
  let name := Path.filename p
  let parts := name.splitOn 46
  if name = dot ∨ name = dotdot ∨ parts.length < 2 ∨ parts.dropLast = [[]] then []
  else 46 :: parts.getLastD []

/-- What is printed by the `fmt` library and the helpers. -/
structure Formatting where
  /-- `fmt::format(table_format, …)`. -/
  tableRow : Bytes → Bytes → Bytes → Bytes
  /-- `helper::file_size_to_str`. -/
  fileSizeToStr : ℕ → Bytes
  /-- The time of the last write, or the error that reading it gives. -/
  lastModified : Path → Bytes

namespace ResponseFactory

variable (fmt : Formatting) (tree : FileTree)

def contentTypeMap : List (Bytes × Bytes) :=
  [(ascii ".txt", ascii "text/plain"), (ascii ".html", ascii "text/html"),
    (ascii ".xml", ascii "text/xml"), (ascii ".jpeg", ascii "image/jpeg"),
    (ascii ".png", ascii "image/png"), (ascii ".svg", ascii "image/svg+xml"),
    (ascii ".webp", ascii "image/webp"), (ascii ".mp4", ascii "video/mp4"),
    (ascii ".pdf", ascii "application/pdf")]

def getContentType (filePath : Path) : Bytes :=
  if extension filePath = [] then ascii "text/plain"
  else (contentTypeMap.lookup (extension filePath)).getD (ascii "text/plain")

def createFromPlainText (status : Status) (text : Bytes) : HttpResponse :=
  let response := HttpResponse.new.addHeader (ascii "Content-Type") (ascii "text/plain")
  (response.setContent (text ++ crlf)).setStatus status

def createFromFile (filePath : Path) : Except Failure HttpResponse := do
  let response := HttpResponse.new.addHeader (ascii "Content-Type") (getContentType filePath)
  let contents ← tree.readFile filePath
  return (response.setContent contents).setStatus .OK

/-- The line of one entry. -/
def listEntry (dirPath : Path) (name : Bytes) : Except Failure Bytes := do
  let file := Path.join dirPath name
  let filesize ←
    if ← tree.isDirectory file then pure [] else fmt.fileSizeToStr <$> tree.fileSize file
  let args := name ++ (if ← tree.isDirectory file then [slash] else [])
  return fmt.tableRow args filesize (fmt.lastModified file) ++ [lf]

def getPlainTextFileListing (dirPath : Path) : Except Failure Bytes := do
  let header := fmt.tableRow (ascii "filename") (ascii "size") (ascii "last modified") ++ [lf]
  let separator :=
    ascii "|" ++ List.replicate (1 + 50 + 3 + 10 + 3 + 20) hyphen ++ ascii "|" ++ [lf]
  let names ← tree.directoryEntries dirPath
  let rows ← names.mapM (listEntry fmt tree dirPath)
  return separator ++ header ++ separator ++ rows.flatten ++ separator

/-- `dir_path / "index.html"`. -/
def indexHtmlPath (dirPath : Path) : Path := Path.join dirPath (ascii "index.html")

def createFromDirectory (dirPath : Path) (uri : Bytes) : Except Failure HttpResponse := do
  if ← tree.existsAt (indexHtmlPath dirPath) then
    createFromFile tree (indexHtmlPath dirPath)
  else
    let listing ← getPlainTextFileListing fmt tree dirPath
    let fileListing := ascii "Directory content of '" ++ uri ++ ascii "': " ++ [lf] ++ listing
    let response := HttpResponse.new.setStatus .OK
    return (response.addHeader (ascii "Content-Type") (ascii "text/plain")).setContent fileListing

/-- `documents_root + uri`. -/
def requestedPath (documentsRoot uri : Bytes) : Path := documentsRoot ++ uri

def create (request : HttpRequest) (documentsRoot : Bytes) : Except Failure HttpResponse := do
  if request.method ≠ .GET then
    return createFromPlainText .METHOD_NOT_ALLOWED
      (ascii "Sorry, this method is not allowed. Currently only GET is supported.")
  let path := requestedPath documentsRoot request.uri
  if ← tree.isDirectory path then createFromDirectory fmt tree path request.uri
  else if ← tree.existsAt path then createFromFile tree path
  else
    return createFromPlainText .BAD_REQUEST (ascii "Requested file " ++ request.uri ++
      ascii " does not exist. Please provide a correct file path")

end ResponseFactory

end Rechnernetze.Http
