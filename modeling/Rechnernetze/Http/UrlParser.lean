import Rechnernetze.Http.Snatch

/-!
# `UrlParser`

`UrlParser::parse` tries an expression for hosts with a point first, and one for `localhost` where
that does not match.
-/

namespace Rechnernetze.Http

open Lib

namespace UrlParser

/-- `[^\.]*[.][^/]*`. -/
def hostRegex : Regex UInt8 :=
  .seq (.star true (.char (· ≠ point))) (.seq (.lit point) (.star true (.char (· ≠ slash))))

/-- `.*?(?:http:[/][/])?(?:www[.])?([^\.]*[.][^/]*)[/](.*)`. -/
def regex : Regex UInt8 :=
  .seq (.star false anyChar) (.seq (.opt (.literal (ascii "http://")))
    (.seq (.opt (.literal (ascii "www."))) (.seq (.group 1 hostRegex)
      (.seq (.lit slash) (.group 2 (.star true anyChar))))))

/-- `localhost(?::(\d+))?[/](.*)`. -/
def localhostRegex : Regex UInt8 :=
  .seq (.literal (ascii "localhost")) (.seq (.opt (.seq (.lit colon) (.group 1 (.plus true digit))))
    (.seq (.lit slash) (.group 2 (.star true anyChar))))

/-- `url.substr(url.find_last_of('/') + 1)`. -/
def fileNameOf (url : Bytes) : Bytes := (url.reverse.takeWhile (· ≠ slash)).reverse

/-- `parse`, with the text of the exception where it throws one. -/
def parse (url : Bytes) : Except Bytes UrlInfo :=
  match regex.fullMatch url with
  | some m => .ok ⟨m 1, m 2, fileNameOf url, none⟩
  | none =>
    match localhostRegex.fullMatch url with
    | some m => do
      let portInt ←
        if m 1 = [] then pure none
        -- the `int` becomes an `unsigned short`
        else (stoi (m 1)).mapError StoiError.what |>.map fun n => some (UInt16.ofInt n)
      return ⟨ascii "localhost", m 2, fileNameOf url, portInt⟩
    | none => .error (ascii "url")

end UrlParser

end Rechnernetze.Http
