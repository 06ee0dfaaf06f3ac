import Mathlib.Tactic.Common
import Rechnernetze.Bft.ClientTheorems
import Rechnernetze.Bft.Network

/-!
# Steps of the network

Inversion of `netStep`, and what a step leaves in each part of the network. Everything a
later module proves about all interleavings is proved by cases on `NetMove`.
-/

namespace Rechnernetze.Bft

open Lib BftDatagram

variable {ι : Type} [DecidableEq ι] {crc : Bytes → UInt32} {opts : ServerOptions}
  {up : ι → Upload} {net net' : Net ι} {action : Action ι}

/-- The steps of the network: a step of a client, a delivery to a client, a delivery to the
server, a fault. -/
inductive NetMove (crc : Bytes → UInt32) (opts : ServerOptions) (up : ι → Upload) (net : Net ι) :
    Action ι → Net ι → Prop
  | client {i : ι} {event : ClientEvent} {s : ClientState} {sends : List (SockaddrIn × Bytes)}
      (hevent : event.isDatagram = false)
      (hmove : ClientState.Move crc (up i) (net.client i) event s sends) :
      NetMove crc opts up net (.client i event) (net.afterClient up i s sends)
  | clientReceive {i : ι} {errnoAgain : Bool} {w : Bytes} {rest : List Bytes} {s : ClientState}
      (hchannel : net.toClient i = w :: rest)
      (hmove : ClientState.Move crc (up i) (net.client i)
        (.datagram (up i).serverAddr w errnoAgain) s []) :
      NetMove crc opts up net (.clientReceive i errnoAgain)
        ((net.setChannel i .toClient rest).afterClient up i s [])
  | serverReceive {i : ι} {env : Env} {currentClient : Option ClientData} {w : Bytes}
      {rest : List Bytes} (hstatus : net.server.status = .running currentClient)
      (hchannel : net.toServer i = w :: rest) :
      NetMove crc opts up net (.serverReceive i env)
        ((net.setChannel i .toServer rest).afterServer up
          (iteration crc opts net.server.fs currentClient ⟨(up i).address, w, env⟩))
  | fault {i : ι} {direction : Direction} {f : Fault Bytes} (hf : f.Yields (Damaged crc)) :
      NetMove crc opts up net (.fault i direction f)
        (net.setChannel i direction (f.apply (net.channel i direction)))

theorem ClientState.Move.sends_of_datagram {u : Upload} {s s' : ClientState} {sender : SockaddrIn}
    {bytes : Bytes} {errnoAgain : Bool} {sends : List (SockaddrIn × Bytes)}
    (h : ClientState.Move crc u s (.datagram sender bytes errnoAgain) s' sends) : sends = [] := by
  cases h <;> rfl

/-- **Inversion of a step.** -/
theorem netStep_cases (h : netStep crc opts up net action = some net') :
    NetMove crc opts up net action net' := by
  unfold netStep at h
  cases action with
  | client i event =>
    dsimp only at h
    split at h
    · cases h
    · rename_i hevent
      obtain ⟨⟨s, sends⟩, hs, rfl⟩ := Option.map_eq_some_iff.mp h
      exact .client ((Bool.not_eq_true _).mp hevent) (ClientState.clientStep_cases hs)
  | clientReceive i errnoAgain =>
    dsimp only at h
    split at h
    · cases h
    · rename_i w rest hchannel
      obtain ⟨⟨s, sends⟩, hs, rfl⟩ := Option.map_eq_some_iff.mp h
      have hmove := ClientState.clientStep_cases hs
      obtain rfl : sends = [] := hmove.sends_of_datagram
      exact .clientReceive hchannel hmove
  | serverReceive i env =>
    dsimp only at h
    split at h
    · rename_i currentClient w rest hstatus hchannel
      cases h
      exact .serverReceive hstatus hchannel
    · cases h
  | fault i direction f =>
    dsimp only at h
    split at h
    · rename_i hf
      cases h
      exact .fault hf
    · cases h

namespace Net

section
variable {i j : ι} {s : ClientState} {sends : List (SockaddrIn × Bytes)} {out : Outcome}
  {direction : Direction} {l : List Bytes}

/-! ## Parts of the network after a step -/

@[simp] theorem server_afterClient : (net.afterClient up i s sends).server = net.server := rfl

@[simp] theorem toClient_afterClient :
    (net.afterClient up i s sends).toClient = net.toClient := rfl

@[simp] theorem client_afterClient :
    (net.afterClient up i s sends).client = Function.update net.client i s := rfl

@[simp] theorem toServer_afterClient :
    (net.afterClient up i s sends).toServer = Function.update net.toServer i
      (net.toServer i ++ (sends.filter fun x => x.1 = (up i).serverAddr).map (·.2)) := rfl

section
omit [DecidableEq ι]

@[simp] theorem server_afterServer : (net.afterServer up out).server = out.state := rfl

@[simp] theorem client_afterServer : (net.afterServer up out).client = net.client := rfl

@[simp] theorem toServer_afterServer : (net.afterServer up out).toServer = net.toServer := rfl

@[simp] theorem toClient_afterServer :
    (net.afterServer up out).toClient j = net.toClient j ++
      (out.sends.filter fun x => x.1 = (up j).address).map (·.2.wire) := rfl

end

@[simp] theorem server_setChannel : (net.setChannel i direction l).server = net.server := by
  cases direction <;> rfl

@[simp] theorem client_setChannel : (net.setChannel i direction l).client = net.client := by
  cases direction <;> rfl

@[simp] theorem toServer_setChannel_toServer :
    (net.setChannel i .toServer l).toServer = Function.update net.toServer i l := rfl

@[simp] theorem toServer_setChannel_toClient :
    (net.setChannel i .toClient l).toServer = net.toServer := rfl

@[simp] theorem toClient_setChannel_toClient :
    (net.setChannel i .toClient l).toClient = Function.update net.toClient i l := rfl

@[simp] theorem toClient_setChannel_toServer :
    (net.setChannel i .toServer l).toClient = net.toClient := rfl

end

/-! ## One client -/

/-- A server with one client. -/
def single (server : ServerState) (client : ClientState) (toServer toClient : List Bytes) :
    Net Unit where
  server := server
  client _ := client
  toServer _ := toServer
  toClient _ := toClient

section
variable {u : Upload} {server server' : ServerState} {s s' : ClientState} {fs : FileSystem}
  {currentClient : Option ClientData} {call : Call} {d response : BftDatagram} {n : ℕ}
  {toServer toClient rest : List Bytes} {w : Bytes} {event : ClientEvent} {env : Env}
  {errnoAgain : Bool} {sends : List (SockaddrIn × Bytes)}

theorem update_unit {α : Type} (f : Unit → α) (x : α) : Function.update f () x = fun _ => x := by
  funext i
  exact Function.update_self ..

theorem netStep_single_client (hevent : event.isDatagram = false)
    (h : clientStep crc u s event = some (s', [])) :
    netStep crc opts (fun _ => u) (single server s toServer toClient) (.client () event)
      = some (single server s' toServer toClient) := by
  have hs : clientStep crc u ((single server s toServer toClient).client ()) event
      = some (s', []) := h
  simp only [netStep, hevent, Bool.false_eq_true, if_false, hs, Option.map_some]
  simp [single, afterClient, update_unit]

theorem netStep_single_send (hpc : s.pc = .send call d n) (haddr : s.serverAddr = u.serverAddr) :
    netStep crc opts (fun _ => u) (single server s toServer toClient) (.client () (.sendto true))
      = some (single server { s with pc := .receive call d n } (toServer ++ [d.wire])
          toClient) := by
  have hs : clientStep crc u ((single server s toServer toClient).client ()) (.sendto true)
      = some ({ s with pc := .receive call d n }, [(u.serverAddr, d.wire)]) := by
    show clientStep crc u s (.sendto true) = _
    simp only [clientStep, hpc, if_true, haddr]
  simp only [netStep, ClientEvent.isDatagram, Bool.false_eq_true, if_false, hs, Option.map_some]
  simp [single, afterClient, update_unit]

theorem netStep_single_lose :
    netStep crc opts (fun _ => u) (single server s toServer (w :: rest))
        (.fault () .toClient (.lose 0))
      = some (single server s toServer rest) := by
  simp only [netStep, Fault.Yields]
  simp [single, setChannel, channel, Fault.apply, update_unit]

theorem netStep_single_clientReceive
    (h : clientStep crc u s (.datagram u.serverAddr w errnoAgain) = some (s', [])) :
    netStep crc opts (fun _ => u) (single server s toServer (w :: rest))
        (.clientReceive () errnoAgain)
      = some (single server s' toServer rest) := by
  have hs : clientStep crc u ((single server s toServer (w :: rest)).client ())
      (.datagram u.serverAddr w errnoAgain) = some (s', []) := h
  have hchannel : (single server s toServer (w :: rest)).toClient () = w :: rest := rfl
  simp only [netStep, hchannel, hs, Option.map_some]
  simp [single, afterClient, setChannel, update_unit]

theorem netStep_single_serverReceive
    (h : iteration crc opts fs currentClient ⟨u.address, w, env⟩
      = ⟨[(u.address, response)], server'⟩) :
    netStep crc opts (fun _ => u) (single ⟨fs, .running currentClient⟩ s (w :: rest) toClient)
        (.serverReceive () env)
      = some (single server' s rest (toClient ++ [response.wire])) := by
  simp only [netStep, single, h]
  simp [afterServer, setChannel, update_unit]

end

end Net

end Rechnernetze.Bft
