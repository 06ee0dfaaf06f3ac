import Rechnernetze.Lib.Text

/-!
# `HttpRequest`

The constructor of `HttpRequest` in three blocks: the request line, the header lines, the
range. What it throws is a `std::exception`, of which the server uses the text of `what()`.
-/

namespace Rechnernetze.Http

open Lib

structure Range where
  start : ℤ
  /-- The last byte asked for (`end` in the source). -/
  stop : Option ℤ
deriving DecidableEq

inductive Method where
  | NONE
  | GET
  | POST
  | PUT
deriving DecidableEq

structure HttpRequest where
  method : Method
  uri : Bytes
  httpVersion : Bytes
  /-- A `std::map`, the latest entry first. -/
  headers : List (Bytes × Bytes)
  range : Option Range
deriving DecidableEq

namespace HttpRequest

/-! ## The regular expressions -/

/-- `(HTTP/1.1)`. -/
def versionRegex : Regex UInt8 :=
  .group 3 (.seq (.literal (ascii "HTTP/1")) (.seq anyChar (.literal (ascii "1"))))

/-- `(/.*)*`. -/
def uriRegex : Regex UInt8 := .star true (.group 2 (.seq (.lit slash) (.star true anyChar)))

/-- `(.*) (/.*)* (HTTP/1.1)\r`. -/
def statusLineRegex : Regex UInt8 :=
  .seq (.group 1 (.star true anyChar)) (.seq (.lit blank) (.seq uriRegex
    (.seq (.lit blank) (.seq versionRegex (.lit cr)))))

/-- `(.+?):\s?(.+)\r`. -/
def headerRegex : Regex UInt8 :=
  .seq (.group 1 (.plus false anyChar)) (.seq (.lit colon) (.seq (.opt space)
    (.seq (.group 2 (.plus true anyChar)) (.lit cr))))

/-- `(\d+)-(\d*)`. -/
def rangeRegex : Regex UInt8 :=
  .seq (.group 1 (.plus true digit)) (.seq (.lit hyphen) (.group 2 (.star true digit)))

/-! ## The constructor -/

/-- The first block: method, URI and version. -/
def parseStatusLine (statusLine : Bytes) : Except Bytes (Method × Bytes × Bytes) :=
  match statusLineRegex.fullMatch statusLine with
  | none => .error (ascii "Failed to parse Status-Line: " ++ statusLine)
  | some m => .ok (if m 1 = ascii "GET" then .GET else .NONE, m 2, m 3)

/-- One turn of the loop over the header lines. A line that is no header is passed over. -/
def parseHeaderLine (headers : List (Bytes × Bytes)) (headerLine : Bytes) :
    List (Bytes × Bytes) :=
  match headerRegex.fullMatch headerLine with
  | none => headers
  | some m => (m 1, m 2) :: headers

/-- The second block. -/
def parseHeaders (lines : List Bytes) : List (Bytes × Bytes) := lines.foldl parseHeaderLine []

/-- The third block, from the value of the header on. -/
def parseRange (rangeString : Bytes) : Except Bytes (Option Range) :=
  match rangeRegex.fullMatch rangeString with
  | none => .ok none
  | some m => do
    let start ← (stoi (m 1)).mapError StoiError.what
    if m 2 = [] then return some ⟨start, none⟩
    let stop ← (stoi (m 2)).mapError StoiError.what
    if stop < start then throw (ascii "Range end can't be smaller than range start")
    return some ⟨start, some stop⟩

/-- The constructor, with the text of the exception where it throws one. -/
def parse (data : Bytes) : Except Bytes HttpRequest := do
  let lines := getlines data
  let (method, uri, httpVersion) ← parseStatusLine (lines.headD [])
  let headers := parseHeaders lines.tail
  let range ← match headers.lookup (ascii "Content-Range") with
    | none => pure none
    | some rangeString => parseRange rangeString
  return ⟨method, uri, httpVersion, headers, range⟩

end HttpRequest

end Rechnernetze.Http
