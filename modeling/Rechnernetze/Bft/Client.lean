import Rechnernetze.Bft.Server

/-!
# `bft_client`

The client is a sequential program that does something visible at a few places only: it
hands a datagram to `sendto`, it waits in `recvfrom`, it opens and reads its file. `PC` is
the place it stands at, `ClientEvent` is what the operating system does there, and
`clientStep` is the code up to the next place. `SIGINT` may interrupt the program at any
place; from then on `signalHandler` runs.
-/

namespace Rechnernetze.Bft

open Lib

/-! ## The options of a run -/

/-- `validate_and_exit_if_needed`: the path exists and is no directory. -/
def validateFilePath (fs : FileSystem) (filePath : Path) : Bool :=
  fs.isDirectory filePath = false ∧ fs.existsAt filePath = .ok true

/-- What a run of the client is given: its own endpoint, the options of the command line
and the file system it reads from. The options have passed validation. -/
structure Upload where
  address : SockaddrIn
  serverAddr : SockaddrIn
  maxConsecTimeouts : ℤ
  filePath : Path
  fs : FileSystem
  filePath_noNul : (0 : UInt8) ∉ filePath
  dirsClosed : fs.DirsClosed
  valid : validateFilePath fs filePath = true

namespace Upload

/-- `std::filesystem::path(options.file_path).filename()`. -/
def filename (u : Upload) : Bytes := Path.filename u.filePath

/-- The client's source bytes. -/
def source (u : Upload) : Bytes := (u.fs.readFile u.filePath).getD []

/-- Validation has found a file. -/
theorem exists_regular (u : Upload) : ∃ l content, u.fs.resolve u.filePath = .ok l ∧
    u.fs.node l = some (.regular content) := by
  have hv := u.valid
  simp only [validateFilePath, decide_eq_true_eq] at hv
  obtain ⟨hdir, hex⟩ := hv
  unfold FileSystem.existsAt at hex
  split at hex
  · rename_i l hr
    rw [FileSystem.isDirectory, hr] at hdir
    cases hn : u.fs.node l with
    | none => simp [hn] at hex
    | some n =>
      cases n with
      | directory => simp [FileSystem.isDir, hn] at hdir
      | regular content => exact ⟨l, content, hr, hn⟩
  · cases hex
  · cases hex

theorem plainName_filename (u : Upload) :
    PlainName u.filename ∧ u.filename.length ≤ nameMax := by
  obtain ⟨l, content, hr, hn⟩ := u.exists_regular
  have hdir : u.fs.isDir l = false := by simp [FileSystem.isDir, hn]
  exact FileSystem.plainName_filename u.dirsClosed u.filePath_noNul hr hdir

/-- The payload of the SYN. -/
def name (u : Upload) : Payload := ⟨u.filename, u.plainName_filename.2.trans (by decide)⟩

end Upload

/-! ## Reading the file -/

/-- A `std::ifstream`: the bytes not yet read, and whether the stream still delivers any. -/
structure IFStream where
  rest : Bytes
  good : Bool
deriving DecidableEq

namespace IFStream

/-- The stream after an attempt to open the file. -/
def opened (fs : FileSystem) (filePath : Path) (ok : Bool) : IFStream :=
  match fs.readFile filePath with
  | some content => if ok then ⟨content, true⟩ else ⟨[], false⟩
  | none => ⟨[], false⟩

/-- `read` of at most `n` bytes, of which `gcount` arrive; an error may strike after some of
them. A read that falls short ends the stream. -/
def read (s : IFStream) (n : ℕ) (fault : Option ℕ) : Bytes × IFStream :=
  if s.good then
    let data := s.rest.take (match fault with | none => n | some k => min k n)
    (data, { rest := s.rest.drop data.length, good := data.length = n })
  else ([], s)

theorem length_read_le (s : IFStream) (n : ℕ) (fault : Option ℕ) :
    (s.read n fault).1.length ≤ n := by
  unfold read
  split
  · simp only [List.length_take]
    split <;> omega
  · simp

end IFStream

/-! ## The program -/

/-- The call of `send_and_receive_response` the client is in: for the SYN, a data datagram
or the FIN from `main`, for the ABR from `signalHandler`. -/
inductive Call where
  | syn
  | data
  | fin
  | abr
deriving DecidableEq

/-- Where a client that has not finished its upload ends. -/
inductive Exit where
  /-- `exit(EXIT_FAILURE)` after "Server busy, aborting upload". -/
  | serverBusy
  /-- `exit(EXIT_FAILURE)` after "error during send". -/
  | sendError
  /-- `exit(EXIT_FAILURE)` after an error of `recvfrom`. -/
  | receiveError
  /-- The exception of `send_and_receive_response`, which `main` does not catch. -/
  | tooManyTimeouts
  /-- The loop of `signalHandler` has ended with an ACK. -/
  | abortAcknowledged
  /-- The loop of `signalHandler` has ended with the exception. -/
  | abortUnanswered
deriving DecidableEq

/-- The places of the program. -/
inductive PC where
  /-- Before `sendto` in `send_and_receive_response`. -/
  | send (call : Call) (datagram : BftDatagram) (retryCount : ℕ)
  /-- In `recvfrom`. -/
  | receive (call : Call) (datagram : BftDatagram) (retryCount : ℕ)
  /-- Before `file` is opened. -/
  | openFile
  /-- Before `file.read`. -/
  | readFile
  /-- `main` has passed the call for its FIN. -/
  | finished
  | exited (e : Exit)
deriving DecidableEq

structure ClientState where
  pc : PC
  currSQN : Bool
  serverAddr : SockaddrIn
  nRetransmissions : UInt32
  file : IFStream
deriving DecidableEq

/-- What the operating system does at the place where the program stands. -/
inductive ClientEvent where
  /-- `sendto` succeeds or fails. -/
  | sendto (ok : Bool)
  | timeout
  /-- `recvfrom` fails with an error other than a timeout. -/
  | receiveError
  /-- `recvfrom` delivers a datagram; `errnoAgain` tells whether `errno` happens to be
  `EAGAIN`, which the program looks at after an empty one. -/
  | datagram (sender : SockaddrIn) (bytes : Bytes) (errnoAgain : Bool)
  | openFile (ok : Bool)
  | read (fault : Option ℕ)
  | sigint
deriving DecidableEq

namespace ClientState

variable (crc : Bytes → UInt32) (u : Upload)

/-- `main` before its first datagram. -/
def initial : ClientState where
  pc := .send .syn (.ofString crc Flags.SYN u.name false) 0
  currSQN := false
  serverAddr := u.serverAddr
  nRetransmissions := 0
  file := ⟨[], false⟩

/-- The datagram of `signalHandler`. -/
def abrDatagram : BftDatagram := .ofFlags crc Flags.ABR sqnStartVal

/-- The argument `max_consec_timeouts` of the call. -/
def maxTimeouts : Call → ℤ
  | .abr => 3
  | _ => u.maxConsecTimeouts

/-- Where `main` goes when `send_datagram_and_wait_for_ACK` returns. -/
def afterACK : Call → PC
  | .syn => .openFile
  | .data => .readFile
  | .fin => .finished
  | .abr => .exited .abortAcknowledged

/-- A timeout in `send_and_receive_response`. -/
def onTimeout (s : ClientState) (call : Call) (datagram : BftDatagram) (retryCount : ℕ) :
    ClientState :=
  -- a negative limit stands for no limit
  if maxTimeouts u call < 0 then
    { s with
      pc := .send call datagram retryCount
      nRetransmissions := s.nRetransmissions + 1 }
  else if (retryCount : ℤ) < maxTimeouts u call then
    { s with
      pc := .send call datagram (retryCount + 1)
      nRetransmissions := s.nRetransmissions + 1 }
  else
    { s with pc := .exited (if call = .abr then .abortUnanswered else .tooManyTimeouts) }

/-- One turn of the loop of `send_datagram_and_wait_for_ACK`, from the response on. -/
def waitForACK (s : ClientState) (call : Call) (datagram response : BftDatagram) : ClientState :=
  if response.checkIntegrity crc = false then { s with pc := .send call datagram 0 }
  -- an ABR without SQN: the server is busy, or has been terminated
  else if response.getFlags &&& Flags.ABR = Flags.ABR ∧ response.getSQN = false then
    { s with pc := .exited .serverBusy }
  else if response.getSQN ≠ s.currSQN then { s with pc := .send call datagram 0 }
  else if response.isACKFor datagram then
    { s with pc := afterACK call, currSQN := s.currSQN ^^ true }
  else { s with pc := .send call datagram 0 }

/-- One turn of the loop of `signalHandler`, from the response on. -/
def handlerResponse (s : ClientState) (datagram response : BftDatagram) : ClientState :=
  if response.checkIntegrity crc = false ∨ response.isACKFor datagram = false then
    { s with pc := .send .abr datagram 0 }
  else { s with pc := .exited .abortAcknowledged }

/-- What the caller of `send_and_receive_response` does with a response. -/
def onResponse (s : ClientState) (call : Call) (datagram response : BftDatagram) : ClientState :=
  if call = .abr then s.handlerResponse crc datagram response
  else s.waitForACK crc call datagram response

/-- The turn of the loop in `main` that reads a chunk: the next datagram is a data datagram
or, at the end of the file, the FIN. -/
def onRead (s : ClientState) (fault : Option ℕ) : ClientState :=
  let chunk := s.file.read maxPayloadSize fault
  let data : Payload := ⟨chunk.1, IFStream.length_read_le ..⟩
  { s with
    pc := if chunk.1 = [] then .send .fin (.ofFlags crc Flags.FIN s.currSQN) 0
      else .send .data (.ofRange crc Flags.None data s.currSQN) 0
    file := chunk.2 }

/-- `signalHandler` starts. -/
def onSigint (s : ClientState) : ClientState :=
  { s with pc := .send .abr (abrDatagram crc) 0 }

/-- The signal is blocked while its handler runs, and the process must be alive. -/
def interruptible : PC → Bool
  | .send call _ _ => call ≠ .abr
  | .receive call _ _ => call ≠ .abr
  | .exited _ => false
  | _ => true

end ClientState

open ClientState in
/-- The code from one place to the next: the state there and the datagrams sent, with the
endpoint they are sent to. `none` where the event cannot occur. -/
def clientStep (crc : Bytes → UInt32) (u : Upload) (s : ClientState) (event : ClientEvent) :
    Option (ClientState × List (SockaddrIn × Bytes)) :=
  match event with
  | .sigint => if interruptible s.pc then some (s.onSigint crc, []) else none
  | .sendto ok =>
    match s.pc with
    | .send call d k =>
      if ok then some ({ s with pc := .receive call d k }, [(s.serverAddr, d.wire)])
      else some ({ s with pc := .exited .sendError }, [])
    | _ => none
  | .timeout =>
    match s.pc with
    | .receive call d k => some (s.onTimeout u call d k, [])
    | _ => none
  | .receiveError =>
    match s.pc with
    | .receive _ _ _ => some ({ s with pc := .exited .receiveError }, [])
    | _ => none
  | .datagram sender bytes errnoAgain =>
    match s.pc with
    | .receive call d k =>
      -- `recvfrom` fills in the address it was given, and that is `server_addr`
      let s := { s with serverAddr := sender }
      if bytes ≠ [] then some (s.onResponse crc call d (.receive bytes), [])
      else if errnoAgain then some (s.onTimeout u call d k, [])
      else some ({ s with pc := .exited .receiveError }, [])
    | _ => none
  | .openFile ok =>
    match s.pc with
    | .openFile => some ({ s with pc := .readFile, file := .opened u.fs u.filePath ok }, [])
    | _ => none
  | .read fault =>
    match s.pc with
    | .readFile => some (s.onRead crc fault, [])
    | _ => none

end Rechnernetze.Bft
