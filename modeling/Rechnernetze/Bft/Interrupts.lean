import Rechnernetze.Bft.LossTolerance
import Rechnernetze.Bft.StorageFrame

/-!
# The server is interrupted

`SIGINT` may strike the server wherever it is in its loop. Its handler sends an ABR to the client
that `current_client` holds at that moment, and the process ends. `cutTurn` is what the process has
done of a turn when the signal strikes; `interruptStep` adds the signal to the steps of the network,
where the clients may be interrupted anyway.
-/

namespace Rechnernetze.Bft

open Lib BftDatagram

/-- `signalHandler` of the server, up to its `exit`. -/
def notifyClient (crc : Bytes → UInt32) : Option ClientData → List (SockaddrIn × BftDatagram)
  | none => []
  | some c => [(c.address, .ABR crc)]

/-- Where in a turn the signal strikes. -/
inductive Moment where
  /-- The datagram has been received, and nothing else has happened. -/
  | received
  /-- The file that a SYN replaces has been removed. -/
  | removed
  /-- The new file is open, and `current_client` is not set. -/
  | created
  /-- `current_client` is set, and the SYN not acknowledged. -/
  | established
  /-- The answer has been sent, and what follows it has not happened. -/
  | answered
  /-- The stream has been handed `n` bytes of the payload. `exit` writes what it has buffered. -/
  | writing (n : ℕ)
  /-- The file of an aborted upload is gone, and `current_client` is still set. -/
  | aborted
deriving DecidableEq

/-- What has been done of a turn. -/
structure Cut where
  sends : List (SockaddrIn × BftDatagram)
  fs : FileSystem
  currentClient : Option ClientData

/-- The datagram makes an idle server open a file. -/
def Opens (crc : Bytes → UInt32) (currentClient : Option ClientData) (input : ServerInput) : Prop :=
  currentClient = none ∧ (receive input.bytes).checkIntegrity crc = true ∧
    (receive input.bytes).isSYN crc = true

instance (crc : Bytes → UInt32) (currentClient : Option ClientData) (input : ServerInput) :
    Decidable (Opens crc currentClient input) := by unfold Opens; infer_instance

/-- The datagram is one whose payload `handle_valid_datagram` writes. -/
def Writes (crc : Bytes → UInt32) (c : ClientData) (input : ServerInput) : Prop :=
  Accepts crc c input ∧ (receive input.bytes).getFlags &&& Flags.FIN ≠ Flags.FIN ∧
    clearFlag (receive input.bytes).getFlags Flags.SQN = Flags.None

instance (crc : Bytes → UInt32) (c : ClientData) (input : ServerInput) :
    Decidable (Writes crc c input) := by unfold Writes; infer_instance

/-- A turn up to the given moment; `none` if it does not come to it. -/
def cutTurn (crc : Bytes → UInt32) (opts : ServerOptions) (fs : FileSystem)
    (currentClient : Option ClientData) (input : ServerInput) (moment : Moment) : Option Cut :=
  let received := BftDatagram.receive input.bytes
  let filepath := storagePath opts received.getPayloadAsString
  let syn := handleSYN opts fs currentClient received input.sender input.env
  let sends := (iteration crc opts fs currentClient input).sends
  match moment with
  | .received => some ⟨[], fs, currentClient⟩
  | .removed =>
    if Opens crc currentClient input ∧ fs.existsAt filepath = .ok true then
      (fs.remove filepath).toOption.map fun fs' => ⟨[], fs', none⟩
    else none
  | .created =>
    if Opens crc currentClient input then
      match syn with
      | (fs', .ok (some _)) => some ⟨[], fs', none⟩
      | _ => none
    else none
  | .established =>
    if Opens crc currentClient input then
      match syn with
      | (fs', .ok (some c)) => some ⟨[], fs', some c⟩
      | _ => none
    else none
  | .answered =>
    if Opens crc currentClient input then
      match syn with
      | (fs', .ok (some c)) => some ⟨sends, fs', some c⟩
      | _ => none
    else if sends = [] then none
    else some ⟨sends, fs, currentClient⟩
  | .writing n =>
    currentClient.bind fun c =>
      if Writes crc c input then
        match c.fileWriter.logIfDue input.env with
        | .error _ => none
        | .ok w =>
          if w.fileStream.isOpen then
            let n := min n (input.env.writeLimit.getD n)
            some ⟨sends, (w.fileStream.write fs received.getPayload (some n)).1, some c⟩
          else none
      else none
  | .aborted =>
    currentClient.bind fun c =>
      if Aborts crc c input then
        match c.fileWriter.abort fs with
        | (fs', .ok ()) => some ⟨sends, fs', some c⟩
        | (_, .error _) => none
      else none

/-! ## The network -/

/-- The network, and whether the server has been terminated: then its state is the one that it has
left. -/
structure InterruptibleNet (ι : Type) where
  net : Net ι
  terminated : Bool

inductive InterruptibleAction (ι : Type) where
  | net (action : Action ι)
  /-- The signal strikes while the server waits in `recvfrom`. -/
  | terminate
  /-- It strikes in the turn for the oldest datagram under way from client `i`. -/
  | terminateDuring (i : ι) (env : Env) (moment : Moment)

/-- The server takes the step. -/
def Action.ofServer {ι : Type} : Action ι → Bool
  | .serverReceive .. => true
  | _ => false

section
variable {ι : Type} [DecidableEq ι]

/-- The server has ended with the state `fs`, and what it has sent is under way. -/
def InterruptibleNet.ended (crc : Bytes → UInt32) (up : ι → Upload) (net : Net ι) (cut : Cut) :
    InterruptibleNet ι :=
  ⟨net.afterServer up ⟨cut.sends ++ notifyClient crc cut.currentClient,
    ⟨cut.fs, .running cut.currentClient⟩⟩, true⟩

/-- One action, `none` where it is not possible. -/
def interruptStep (crc : Bytes → UInt32) (opts : ServerOptions) (up : ι → Upload)
    (s : InterruptibleNet ι) : InterruptibleAction ι → Option (InterruptibleNet ι)
  | .net action =>
    if s.terminated ∧ action.ofServer then none
    else (netStep crc opts up s.net action).map fun net => ⟨net, s.terminated⟩
  | .terminate =>
    match s.terminated, s.net.server.status with
    | false, .running currentClient =>
      some (.ended crc up s.net ⟨[], s.net.server.fs, currentClient⟩)
    | _, _ => none
  | .terminateDuring i env moment =>
    match s.terminated, s.net.server.status, s.net.toServer i with
    | false, .running currentClient, w :: rest =>
      (cutTurn crc opts s.net.server.fs currentClient ⟨(up i).address, w, env⟩ moment).map
        fun cut => .ended crc up (s.net.setChannel i .toServer rest) cut
    | _, _, _ => none

/-- The files work: the client's can be opened and read, and what the server writes is written.
Every party may be interrupted at any time. -/
def InterruptibleAction.FilesWork : InterruptibleAction ι → Prop
  | .net (.client _ event) => event = .sigint ∨ event.Undisturbed
  | .net (.serverReceive _ env) => env.writeLimit = none
  | .net _ => True
  | .terminate => True
  | .terminateDuring _ env _ => env.writeLimit = none

end

end Rechnernetze.Bft
