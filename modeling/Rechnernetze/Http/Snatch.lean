import Rechnernetze.Lib.Text

/-!
# `snatch`: the request

The request text as `build_request` puts it together from the parts of the URL and the range
option, the check of that option, and the option for sending slowly.
-/

namespace Rechnernetze.Http

open Lib

/-- The parts of a URL. -/
structure UrlInfo where
  host : Bytes
  filePathName : Bytes
  fileName : Bytes
  port : Option UInt16
deriving DecidableEq

namespace Snatch

/-- `\d*-(?:\d*)?`. -/
def rangeOptionRegex : Regex UInt8 :=
  .seq (.star true digit) (.seq (.lit hyphen) (.opt (.star true digit)))

/-- `validate_and_exit_if_needed`; an option that is not given is empty. -/
def validateRange (range : Bytes) : Bool :=
  range = [] ∨ (rangeOptionRegex.fullMatch range).isSome

/-- `slow_info`. -/
structure SlowInfo where
  bytes : ℤ
  timeout : ℤ
deriving DecidableEq

/-- `parse_slow_info`. Without a comma both numbers are read from the whole text: `comma_idx` is
the largest `unsigned long` then, and its successor zero. -/
def parseSlowInfo (slowString : Bytes) : Except StoiError SlowInfo := do
  let commaIdx := slowString.idxOf? comma
  let bytes ← stoi (match commaIdx with | some i => slowString.take i | none => slowString)
  let timeout ← stoi (match commaIdx with | some i => slowString.drop (i + 1) | none => slowString)
  return ⟨bytes, timeout⟩

/-- What the request depends on of the command line. -/
structure Options where
  range : Bytes
  valid : validateRange range = true

/-- The text put together so far. -/
structure HttpRequestBuilder where
  resultStream : Bytes

namespace HttpRequestBuilder

def add (request : HttpRequestBuilder) (key value : Bytes) : HttpRequestBuilder :=
  ⟨request.resultStream ++ (key ++ ascii ": " ++ value ++ crlf)⟩

/-- The constructor. -/
def new (urlInfo : UrlInfo) : HttpRequestBuilder :=
  (⟨ascii "GET /" ++ urlInfo.filePathName ++ ascii " HTTP/1.1" ++ crlf⟩ :
    HttpRequestBuilder).add (ascii "Host") urlInfo.host

def addRange (request : HttpRequestBuilder) (value : Bytes) : HttpRequestBuilder :=
  request.add (ascii "Range") (ascii "bytes=" ++ value)

def toString (request : HttpRequestBuilder) : Bytes := request.resultStream ++ crlf

end HttpRequestBuilder

/-- `build_request`. -/
def buildRequest (urlInfo : UrlInfo) (opt : Options) : Bytes :=
  let request := HttpRequestBuilder.new urlInfo
  let request := request.add (ascii "Accept") (ascii "*/*")
  let request := request.add (ascii "User-Agent") (ascii "snatch/0.1.0")
  let request := request.add (ascii "Connection") (ascii "close")
  let request := if opt.range = [] then request else request.addRange opt.range
  request.toString

end Snatch

end Rechnernetze.Http
