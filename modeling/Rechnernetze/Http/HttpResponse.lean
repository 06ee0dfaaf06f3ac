import Rechnernetze.Lib.Text

/-!
# `HttpResponse`

A response under construction and one parsed from received bytes. The constructor from bytes
counts with an `int`. In `parse` the result `none` stands for an overflow of the counter, whose
behaviour the language leaves undefined; `parseWrap` is the constructor where the counter wraps
around, as it does in a program that is compiled without optimisation.
-/

namespace Rechnernetze.Http

open Lib

/-- `HttpResponse::Status`. -/
inductive Status where
  | NONE
  | OK
  | ACCEPTED
  | PARTIAL_CONTENT
  | MULTIPLE_CHOICES
  | MOVED_PERMANENTLY
  | BAD_REQUEST
  | UNAUTHORIZED
  | FORBIDDEN
  | NOT_FOUND
  | METHOD_NOT_ALLOWED
  | NOT_ACCEPTABLE
  | REQUEST_TIMEOUT
  | UNSUPPORTED_MEDIA_TYPE
  | INTERNAL_SERVER_ERROR
  | NOT_IMPLEMENTED
  | SERVICE_UNAVAILABLE
  | VERSION_NOT_SUPPORTED
deriving DecidableEq

/-- The value of the enumerator. -/
def Status.code : Status → ℕ
  | NONE => 0
  | OK => 200
  | ACCEPTED => 202
  | PARTIAL_CONTENT => 206
  | MULTIPLE_CHOICES => 300
  | MOVED_PERMANENTLY => 301
  | BAD_REQUEST => 400
  | UNAUTHORIZED => 401
  | FORBIDDEN => 403
  | NOT_FOUND => 404
  | METHOD_NOT_ALLOWED => 405
  | NOT_ACCEPTABLE => 406
  | REQUEST_TIMEOUT => 408
  | UNSUPPORTED_MEDIA_TYPE => 415
  | INTERNAL_SERVER_ERROR => 500
  | NOT_IMPLEMENTED => 501
  | SERVICE_UNAVAILABLE => 503
  | VERSION_NOT_SUPPORTED => 505

structure HttpResponse where
  status : Status
  header : Bytes
  payload : Bytes
deriving DecidableEq

namespace HttpResponse

/-- `get_status_text`. -/
def statusText : Status → Bytes
  | .OK => ascii "OK"
  | .ACCEPTED => ascii "Accepted"
  | .PARTIAL_CONTENT => ascii "Partial Content"
  | .MULTIPLE_CHOICES => ascii "Multiple Choices"
  | .MOVED_PERMANENTLY => ascii "Moved Permanently"
  | .BAD_REQUEST => ascii "Bad Request"
  | .UNAUTHORIZED => ascii "Unauthorized"
  | .FORBIDDEN => ascii "Forbidden"
  | .NOT_FOUND => ascii "Not Found"
  | .METHOD_NOT_ALLOWED => ascii "Method Not Allowed"
  | .NOT_ACCEPTABLE => ascii "Not Acceptable"
  | .REQUEST_TIMEOUT => ascii "Request Timeout"
  | .UNSUPPORTED_MEDIA_TYPE => ascii "Unsupported Media Type"
  | .INTERNAL_SERVER_ERROR => ascii "Internal Server Error"
  | .NOT_IMPLEMENTED => ascii "Not Implemented"
  | .SERVICE_UNAVAILABLE => ascii "Service Unavailable"
  | .VERSION_NOT_SUPPORTED => ascii "HTTP Version Not Suported"
  | .NONE => ascii "unknown"

/-- The constructor without arguments. -/
def new : HttpResponse := ⟨.ACCEPTED, [], []⟩

def addHeader (response : HttpResponse) (key value : Bytes) : HttpResponse :=
  { response with header := response.header ++ (key ++ ascii ": " ++ value ++ crlf) }

def setStatus (response : HttpResponse) (s : Status) : HttpResponse :=
  { response with status := s }

def setContent (response : HttpResponse) (data : Bytes) : HttpResponse :=
  { response with payload := data }

def getMetadata (response : HttpResponse) : Bytes := response.header

def buildHeader (response : HttpResponse) : Bytes :=
  ascii "HTTP/1.1 " ++ decimal response.status.code ++ [blank] ++ statusText response.status ++
    [blank] ++ crlf ++ (response.header ++ crlf)

/-! ## The constructor from bytes -/

/-- The empty line and the end of the line before it. -/
def emptyLine : Bytes := crlf ++ crlf

/-- The first loop at index `i`, before the given rest of the data: the header, and index and
rest of the data where the payload begins. -/
def scanHeader (i : ℤ) (header : Bytes) : Bytes → Option (Bytes × ℤ × Bytes)
  | [] => some (header, i, [])
  | a :: rest =>
    -- `i + 4` is computed first
    if intMax < i + 4 then none
    else if emptyLine.isPrefixOf (a :: rest) then some (header ++ crlf, i + 4, rest.drop 3)
    else scanHeader (i + 1) (header ++ [a]) rest

/-- The second loop, which copies the payload. -/
def copyPayload (i : ℤ) (payload : Bytes) : Bytes → Option Bytes
  | [] => some payload
  | a :: rest => if intMax < i + 1 then none else copyPayload (i + 1) (payload ++ [a]) rest

/-- The constructor from received bytes. -/
def parse (data : Bytes) : Option HttpResponse := do
  let (header, i, rest) ← scanHeader 0 [] data
  let payload ← copyPayload i [] rest
  return ⟨.NONE, header, payload⟩

/-! ## The constructor with a counter that wraps around -/

/-- A sum of two `int`s modulo 2^32. -/
def intAdd (m n : ℤ) : ℤ := Int.bmod (m + n) (2 ^ 32)

/-- The first loop. The index is compared as a `size_t`: a negative one lies behind every
vector. -/
def scanHeaderWrap (i : ℤ) (header : Bytes) : Bytes → Bytes × ℤ × Bytes
  | [] => (header, i, [])
  | a :: rest =>
    if i < 0 then (header, i, a :: rest)
    else if 0 ≤ intAdd i 4 ∧ emptyLine.isPrefixOf (a :: rest) then
      (header ++ crlf, intAdd i 4, rest.drop 3)
    else scanHeaderWrap (intAdd i 1) (header ++ [a]) rest

/-- The second loop. -/
def copyPayloadWrap (i : ℤ) (payload : Bytes) : Bytes → Bytes
  | [] => payload
  | a :: rest => if i < 0 then payload else copyPayloadWrap (intAdd i 1) (payload ++ [a]) rest

/-- The constructor from received bytes. -/
def parseWrap (data : Bytes) : HttpResponse :=
  let (header, i, rest) := scanHeaderWrap 0 [] data
  ⟨.NONE, header, copyPayloadWrap i [] rest⟩

end HttpResponse

end Rechnernetze.Http
