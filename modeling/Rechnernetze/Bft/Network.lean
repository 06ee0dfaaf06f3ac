import Rechnernetze.Lib.Runs
import Rechnernetze.Lib.StopAndWait
import Rechnernetze.Bft.Client
import Rechnernetze.Bft.DatagramTheorems

/-!
# One server, many clients, and the channels between them

Every client `i : ι` has a channel to the server and one back. Channels hold datagrams as
byte strings and keep the order of what they deliver. An `Action` is one step of one party
or one fault of one channel; `netStep` performs it. Any list of actions is an interleaving,
and delay is any number of other actions before a delivery, timeouts of the waiting client
among them. A turn of the server is one step here; `turnStep` takes it apart.
-/

namespace Rechnernetze.Bft

open Lib

/-- The server, its clients, and what is under way between them. -/
structure Net (ι : Type) where
  server : ServerState
  client : ι → ClientState
  toServer : ι → List Bytes
  toClient : ι → List Bytes

inductive Direction where
  | toServer
  | toClient
deriving DecidableEq

inductive Action (ι : Type) where
  /-- A step of client `i` other than the receipt of a datagram. -/
  | client (i : ι) (event : ClientEvent)
  /-- Client `i` receives the oldest datagram under way to it. -/
  | clientReceive (i : ι) (errnoAgain : Bool)
  /-- The server receives the oldest datagram under way from client `i`. -/
  | serverReceive (i : ι) (env : Env)
  /-- A fault of one channel of client `i`. -/
  | fault (i : ι) (direction : Direction) (f : Fault Bytes)

/-- A damaged datagram: at most 512 bytes that fail `check_integrity` when received. -/
def Damaged (crc : Bytes → UInt32) (w : Bytes) : Prop :=
  w.length ≤ maxDatagramSize ∧ (BftDatagram.receive w).checkIntegrity crc = false

instance (crc : Bytes → UInt32) : DecidablePred (Damaged crc) := fun w => by
  unfold Damaged; infer_instance

def ClientEvent.isDatagram : ClientEvent → Bool
  | .datagram .. => true
  | _ => false

/-- No interrupt, and no failure of the client's file. -/
def ClientEvent.Undisturbed : ClientEvent → Prop
  | .sigint => False
  | .openFile ok => ok = true
  | .read fault => fault = none
  | _ => True

namespace Net

section
variable {ι : Type} [DecidableEq ι] (up : ι → Upload)

/-- The state in which every client stands before its first datagram and the server is
idle. -/
def initial (crc : Bytes → UInt32) (fs : FileSystem) : Net ι where
  server := ⟨fs, .running none⟩
  client i := .initial crc (up i)
  toServer _ := []
  toClient _ := []

/-- Client `i` has taken a step: what it sends to the server's endpoint is under way. -/
def afterClient (net : Net ι) (i : ι) (s : ClientState) (sends : List (SockaddrIn × Bytes)) :
    Net ι :=
  { net with
    client := Function.update net.client i s
    toServer := Function.update net.toServer i
      (net.toServer i ++ (sends.filter fun x => x.1 = (up i).serverAddr).map (·.2)) }

/-- The server has taken a step: each answer is under way to the client with that endpoint. -/
def afterServer (net : Net ι) (out : Outcome) : Net ι :=
  { net with
    server := out.state
    toClient := fun j => net.toClient j ++
      (out.sends.filter fun x => x.1 = (up j).address).map (·.2.wire) }

/-- A channel of client `i` now holds `l`. -/
def setChannel (net : Net ι) (i : ι) : Direction → List Bytes → Net ι
  | .toServer, l => { net with toServer := Function.update net.toServer i l }
  | .toClient, l => { net with toClient := Function.update net.toClient i l }

def channel (net : Net ι) (i : ι) : Direction → List Bytes
  | .toServer => net.toServer i
  | .toClient => net.toClient i

end

end Net

section
variable {ι : Type} [DecidableEq ι]

/-- One action, `none` where it is not possible. -/
def netStep (crc : Bytes → UInt32) (opts : ServerOptions) (up : ι → Upload) (net : Net ι) :
    Action ι → Option (Net ι)
  | .client i event =>
    if event.isDatagram then none
    else (clientStep crc (up i) (net.client i) event).map fun r => net.afterClient up i r.1 r.2
  | .clientReceive i errnoAgain =>
    match net.toClient i with
    | [] => none
    | w :: rest =>
      (clientStep crc (up i) (net.client i) (.datagram (up i).serverAddr w errnoAgain)).map
        fun r => (net.setChannel i .toClient rest).afterClient up i r.1 r.2
  | .serverReceive i env =>
    match net.server.status, net.toServer i with
    | .running currentClient, w :: rest =>
      -- the sender is the endpoint of client `i`
      some ((net.setChannel i .toServer rest).afterServer up
        (iteration crc opts net.server.fs currentClient ⟨(up i).address, w, env⟩))
    | _, _ => none
  | .fault i direction f =>
    if f.Yields (Damaged crc) then
      some (net.setChannel i direction (f.apply (net.channel i direction)))
    else none

end

end Rechnernetze.Bft
