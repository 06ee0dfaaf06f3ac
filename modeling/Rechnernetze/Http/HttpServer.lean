import Rechnernetze.Http.Connection
import Rechnernetze.Http.ResponseFactory

/-!
# `http_server`

What the server does with the text it has received on a connection: the calls of `send` it
makes, and how it leaves. The part of `handle_incoming_request` that removes the thread from
the list is not in this module.
-/

namespace Rechnernetze.Http

open Lib

/-- The option that the handling of a request reads. An argument of the command line contains
no NUL, and an empty folder is refused. -/
structure ServerOptions where
  documentRootFolder : Path
  documentRootFolder_ne_nil : documentRootFolder ≠ []
  documentRootFolder_noNul : (0 : UInt8) ∉ documentRootFolder

/-- A server for the files below `/r`. -/
def exampleOptions : ServerOptions := ⟨ascii "/r", by decide, by decide⟩

/-- A response and what of it is handed to `::send`. -/
structure Reply where
  response : HttpResponse
  sent : Connection.Sent
deriving DecidableEq

/-- How the handling of a request ends. -/
inductive Ending where
  /-- After the lines that remove the thread from the list. -/
  | completed
  /-- By the `return` after a text that is no request. -/
  | refused
  | failed (failure : Failure)
  /-- In an overflow, whose behaviour the language leaves undefined. -/
  | undefined
deriving DecidableEq

structure Handled where
  replies : List Reply
  ending : Ending
deriving DecidableEq

namespace HttpServer

variable (fmt : Formatting) (opt : ServerOptions) (tree : FileTree)

/-- `cnn->send(response)`, or `cnn->send(response, range)` if the request has a range. -/
def respond (response : HttpResponse) : Option Range → Option Reply
  | none => some ⟨response, Connection.send response⟩
  | some range => (Connection.sendRange response range).map (Reply.mk response)

def handleIncomingRequest (received : Bytes) : Handled :=
  match HttpRequest.parse received with
  | .error what =>
    -- `what()` is a C string
    let response := ResponseFactory.createFromPlainText .BAD_REQUEST (cStr what)
    ⟨[⟨response, Connection.send response⟩], .refused⟩
  | .ok request =>
    match ResponseFactory.create fmt tree request opt.documentRootFolder with
    | .error failure => ⟨[], .failed failure⟩
    | .ok response =>
      match respond response request.range with
      | none => ⟨[], .undefined⟩
      | some reply => ⟨[reply], .completed⟩

/-- The replies of `handle_incoming_request_no_expt` and whether it returns. An exception is
only logged. -/
def handleIncomingRequestNoExpt (received : Bytes) : List Reply × Bool :=
  let handled := handleIncomingRequest fmt opt tree received
  match handled.ending with
  | .completed | .refused | .failed .exception => (handled.replies, true)
  | .failed .blocked | .undefined => (handled.replies, false)

end HttpServer

end Rechnernetze.Http
