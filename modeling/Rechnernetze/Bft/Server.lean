import Rechnernetze.Bft.Datagram
import Rechnernetze.Bft.FileWriter

/-!
# `bft_server`

The server is a loop that receives one datagram per turn. `iteration` is one turn: from the
file system, `current_client` and the datagram received it computes the datagrams sent (with
the endpoints they are sent to) and the state in which the next turn starts, if the process
survives. The reads of the payload, which come first of all in the log of `receive`, are in
`PayloadReads`, and a turn that they can end is `loggedIteration`.
-/

namespace Rechnernetze.Bft

open Lib

/-- `sockaddr_in`: an IP address and a UDP port. -/
structure SockaddrIn where
  sinAddr : UInt32
  sinPort : UInt16
deriving DecidableEq

/-- The option the loop reads. An argument of the command line contains no NUL. -/
structure ServerOptions where
  directory : Path
  directory_noNul : (0 : UInt8) ∉ directory

structure ClientData where
  fileWriter : FileWriter
  address : SockaddrIn
  nDuplicates : UInt32
  currentSQN : Bool
deriving DecidableEq

/-- `ClientData::ClientData`. -/
def ClientData.new (fileWriter : FileWriter) (clientAddr : SockaddrIn) : ClientData where
  fileWriter := fileWriter
  address := clientAddr
  nDuplicates := 0
  currentSQN := sqnStartVal

def ClientData.incrementSQN (c : ClientData) : ClientData :=
  { c with currentSQN := c.currentSQN ^^ true }

/-- The server between two turns of its loop, or after its end. -/
inductive Status where
  | running (currentClient : Option ClientData)
  | stopped (cause : Stop)
deriving DecidableEq

structure ServerState where
  fs : FileSystem
  status : Status

/-- What one turn receives: a datagram from an endpoint, and what the operating system does
meanwhile. -/
structure ServerInput where
  sender : SockaddrIn
  bytes : Bytes
  env : Env

structure Outcome where
  sends : List (SockaddrIn × BftDatagram)
  state : ServerState

/-- The path `handle_SYN` opens. -/
def storagePath (opts : ServerOptions) (filename : Bytes) : Path :=
  Path.join opts.directory filename

/-- `handle_SYN`: the new `current_client` if the connection is established, `none` if it is
denied. -/
def handleSYN (opts : ServerOptions) (fs : FileSystem) (currentClient : Option ClientData)
    (datagram : BftDatagram) (clientAddr : SockaddrIn) (env : Env) :
    FileSystem × Except Stop (Option ClientData) :=
  match currentClient with
  | some _ => (fs, .ok none)
  | none =>
    let filepath := storagePath opts datagram.getPayloadAsString
    match fs.existsAt filepath with
    | .error e => (fs, .error (.uncaught e))
    | .ok true =>
      -- the file is replaced
      match fs.remove filepath with
      | .error e => (fs, .error (.uncaught e))
      | .ok fs' =>
        let (fs'', w) := FileWriter.new fs' filepath env
        (fs'', w.map fun w => some (.new w clientAddr))
    | .ok false =>
      let (fs', w) := FileWriter.new fs filepath env
      (fs', w.map fun w => some (.new w clientAddr))

/-- `handle_valid_datagram`: the new `current_client`. -/
def handleValidDatagram (fs : FileSystem) (c : ClientData) (datagram : BftDatagram) (env : Env) :
    FileSystem × Except Stop (Option ClientData) :=
  if datagram.getFlags &&& Flags.FIN = Flags.FIN then
    -- reading 0 of the clock is `endTime`
    (fs, (c.fileWriter.logBytesWritten (env.clock 1) (env.clock 2)).map fun _ => none)
  else if clearFlag datagram.getFlags Flags.SQN = Flags.None then
    let (fs', w) := c.fileWriter.writeBytes fs datagram.getPayload env
    (fs', w.map fun w => some { c with fileWriter := w })
  else (fs, .ok (some c))

/-- The state after an operation that returned the new `current_client`. -/
def ServerState.after : FileSystem × Except Stop (Option ClientData) → ServerState
  | (fs, .ok c) => ⟨fs, .running c⟩
  | (fs, .error e) => ⟨fs, .stopped e⟩

variable (crc : Bytes → UInt32)

/-- The turn for an intact SYN. -/
def onSYN (opts : ServerOptions) (fs : FileSystem) (currentClient : Option ClientData)
    (received : BftDatagram) (sender : SockaddrIn) (env : Env) : Outcome :=
  match handleSYN opts fs currentClient received sender env with
  | (fs', .ok (some c)) =>
    ⟨[(sender, received.createACK crc)], ⟨fs', .running (some c.incrementSQN)⟩⟩
  | (fs', .ok none) => ⟨[(sender, .ABR crc)], ⟨fs', .running currentClient⟩⟩
  | (fs', .error e) => ⟨[], ⟨fs', .stopped e⟩⟩

/-- The turn for an intact ABR. -/
def onABR (fs : FileSystem) (currentClient : Option ClientData) (received : BftDatagram)
    (sender : SockaddrIn) : Outcome :=
  ⟨[(sender, received.createACK crc)],
    match currentClient with
    | none => ⟨fs, .running none⟩
    | some c =>
      if sender.sinAddr = c.address.sinAddr then
        match c.fileWriter.abort fs with
        | (fs', .ok ()) => ⟨fs', .running none⟩
        | (fs', .error e) => ⟨fs', .stopped e⟩
      else ⟨fs, .running (some c)⟩⟩

/-- The turn for any other intact datagram. -/
def onRegular (fs : FileSystem) (currentClient : Option ClientData) (received : BftDatagram)
    (sender : SockaddrIn) (env : Env) : Outcome :=
  match currentClient with
  | none => ⟨[(sender, .ABR crc)], ⟨fs, .running none⟩⟩
  | some c =>
    -- the guard compares IP addresses, not ports
    if sender.sinAddr ≠ c.address.sinAddr then
      ⟨[(sender, .ABR crc)], ⟨fs, .running (some c)⟩⟩
    else if received.getSQN ≠ c.currentSQN then
      ⟨[(c.address, received.createACK crc)],
        ⟨fs, .running (some { c with nDuplicates := c.nDuplicates + 1 })⟩⟩
    else
      -- acknowledged before it is handled
      ⟨[(c.address, received.createACK crc)],
        .after (handleValidDatagram fs c.incrementSQN received env)⟩

/-- The turn for a datagram that passes `check_integrity`. -/
def onIntact (opts : ServerOptions) (fs : FileSystem) (currentClient : Option ClientData)
    (received : BftDatagram) (sender : SockaddrIn) (env : Env) : Outcome :=
  if received.isSYN crc then onSYN crc opts fs currentClient received sender env
  else if received.isABR crc then onABR crc fs currentClient received sender
  else onRegular crc fs currentClient received sender env

/-- One turn of the receive loop in `main`. -/
def iteration (opts : ServerOptions) (fs : FileSystem) (currentClient : Option ClientData)
    (input : ServerInput) : Outcome :=
  let received := BftDatagram.receive input.bytes
  if received.checkIntegrity crc then
    onIntact crc opts fs currentClient received input.sender input.env
  else
    -- the answer carries `current_client->current_SQN`
    match currentClient with
    | none => ⟨[], ⟨fs, .stopped .nullDereference⟩⟩
    | some c =>
      ⟨[(input.sender, .ofFlags crc Flags.AGN c.currentSQN)], ⟨fs, .running (some c)⟩⟩

/-- One turn, as a step of the server: none after its end. -/
def serverStep (opts : ServerOptions) (s : ServerState) (input : ServerInput) :
    Option ServerState :=
  match s.status with
  | .running currentClient => some (iteration crc opts s.fs currentClient input).state
  | .stopped _ => none

end Rechnernetze.Bft
