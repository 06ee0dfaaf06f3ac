import Rechnernetze.Http.HttpRequest
import Rechnernetze.Http.HttpResponse

/-!
# `Connection`

How a connection receives and sends. What `recv` delivers is given by the environment. What is
sent is the list of the blocks handed to `::send`; a block from a buffer is kept as its place
in the buffer, since the code may leave it.
-/

namespace Rechnernetze.Http

open Lib

/-! ## Receiving -/

/-- The result of one `recv`. -/
inductive RecvResult where
  /-- -1. -/
  | error
  /-- The bytes received, none where the peer has closed its side. -/
  | bytes (data : Bytes)
deriving DecidableEq

/-- Where `receive_bytes` leaves what the language defines. -/
inductive ReceiveFault where
  /-- The -1 has become the largest `size_t`, and the range to insert ends far outside the
  buffer. -/
  | insertRange
  /-- `result_buffer.end() - 3` of a shorter buffer. -/
  | lookBack
deriving DecidableEq

namespace Connection

/-- The size of the buffer handed to `recv`. -/
def recvBufferSize : ℕ := 2 * 1024

/-- The loop of `receive_bytes`. When the list is used up the peer has closed its side. -/
def receiveLoop (resultBuffer : Bytes) : List RecvResult → Except ReceiveFault Bytes
  | [] => .ok resultBuffer
  | .error :: _ => .error .insertRange
  | .bytes data :: rest =>
    let resultBuffer := resultBuffer ++ data
    if data.length = 0 then .ok resultBuffer
    else if resultBuffer.length < 3 then .error .lookBack
    -- three characters are compared with four
    else if resultBuffer.drop (resultBuffer.length - 3) = crlf ++ crlf then
      receiveLoop resultBuffer rest
    else .ok resultBuffer

def receiveBytes (recvs : List RecvResult) : Except ReceiveFault Bytes := receiveLoop [] recvs

/-- `none` where the behaviour is undefined, in `receive_bytes` or in the constructor. -/
def receiveHttpResponse (recvs : List RecvResult) : Option HttpResponse :=
  (receiveBytes recvs).toOption.bind HttpResponse.parse

/-! ## Sending -/

/-- A block of a buffer handed to `::send`. -/
structure Block where
  start : ℤ
  size : ℤ
deriving DecidableEq

/-- The bytes of a block that lies inside the buffer. -/
def Block.bytes (block : Block) (buffer : Bytes) : Bytes :=
  (buffer.drop block.start.toNat).take block.size.toNat

/-- What `send` hands to `::send`: the header text and a block of the payload. -/
structure Sent where
  header : Bytes
  block : Block
deriving DecidableEq

/-- The response with the length of what is sent. -/
def announce (response : HttpResponse) (size : ℕ) : HttpResponse :=
  response.addHeader (ascii "Content-Length") (decimal size)

/-- `send(HttpResponse&)`. -/
def send (response : HttpResponse) : Sent where
  header := (announce response response.payload.length).buildHeader
  block := ⟨0, response.payload.length⟩

/-- The bytes on the wire after `send(HttpResponse&)`. -/
def wire (response : HttpResponse) : Bytes :=
  (send response).header ++ (send response).block.bytes response.payload

/-- `send(HttpResponse&, Range)`. `none` where the length of the range overflows an `int`. -/
def sendRange (response : HttpResponse) (range : Range) : Option Sent :=
  let data := response.payload
  -- when the range start is not inside data, just send everything
  if (data.length : ℤ) < range.start then some (send response)
  else
    -- when the range end is not inside data, just send until the end
    let stop := if range.stop.any fun stop => (data.length : ℤ) < stop then none else range.stop
    let finish (size : ℤ) : Sent :=
      ⟨(announce response size.toNat).buildHeader, ⟨range.start, size⟩⟩
    match stop with
    | some stop =>
      if intMax < stop - range.start + 1 then none
      else some (finish (stop - range.start + 1))
    | none => some (finish (data.length - range.start))

/-! ## Sending slowly -/

/-- How `send_slow` ends: with the blocks it has handed to `::send`, or where the language leaves
open what happens. -/
inductive SlowEnd where
  | returned (blocks : List Bytes)
  | undefined
deriving DecidableEq

/-- `n_bytes`, cut to what is left where the block would reach the end of the message.
`bytes_sent` and `n_bytes` are `int`s, the length is a `size_t`. -/
def cutBlock (message : Bytes) (bytesSent nBytes : ℤ) : ℤ :=
  if message.length ≤ toSizeT (bytesSent + nBytes) then toInt message.length - bytesSent
  else nBytes

/-- The block of `n_bytes` bytes that `::send` takes from the characters of a `substr` and the
null behind them, if that many are there. -/
def slowBlock (message : Bytes) (bytesSent nBytes : ℤ) : Option Bytes :=
  let chunk := (message.drop (toSizeT bytesSent)).take (toSizeT nBytes) ++ [0]
  if toSizeT nBytes ≤ chunk.length then some (chunk.take (toSizeT nBytes)) else none

/-- One turn of the loop of `send_slow`, up to `::send`. -/
def slowTurn (message : Bytes) (bytesSent nBytes : ℤ) : Option (ℤ × Bytes) :=
  let n := cutBlock message bytesSent nBytes
  if IsInt (bytesSent + nBytes) ∧ IsInt n ∧ IsInt (bytesSent + n) then
    (slowBlock message bytesSent n).map fun block => (n, block)
  else none

/-- The loop of `send_slow`, for as many turns as there is fuel. -/
def sendSlowLoop (message : Bytes) : ℕ → ℤ → ℤ → List Bytes → Option SlowEnd
  | 0, _, _, _ => none
  | fuel + 1, bytesSent, nBytes, blocks =>
    if toSizeT bytesSent < message.length then
      match slowTurn message bytesSent nBytes with
      | none => some .undefined
      | some (nBytes, block) =>
        sendSlowLoop message fuel (bytesSent + nBytes) nBytes (blocks ++ [block])
    else some (.returned blocks)

/-- `send_slow`. -/
def sendSlow (fuel : ℕ) (message : Bytes) (nBytes : ℤ) : Option SlowEnd :=
  -- "use normal send()-method"; the loop comes after it all the same
  let blocks := if message.length ≤ toSizeT nBytes then [message] else []
  sendSlowLoop message fuel 0 nBytes blocks

end Connection

end Rechnernetze.Http
