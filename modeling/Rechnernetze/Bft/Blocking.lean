import Rechnernetze.Bft.InterruptTheorems
import Rechnernetze.Bft.Recovery
import Rechnernetze.Bft.Survival

/-!
# A client that vanishes

The server gives a session up only over a datagram from the address of its client; there is no
timeout. So as long as nothing arrives from that client, and nothing at all whose log could end
the process, the session stays as it is, and no client that is still connecting gets any further
(`vanished_client_blocks`).
-/

namespace Rechnernetze.Bft

open Lib BftDatagram ClientState

section
variable {crc : Bytes → UInt32} {opts : ServerOptions} {fs₀ fs : FileSystem} {u : Upload}
  {c : ClientData} {input : ServerInput} {client : ClientState} {fwd bwd : List Bytes} {r : ℕ}

/-- **The turn for a stranger**: the session is as it was, and the stranger has an answer. -/
theorem stranger_turn (hother : input.sender.sinAddr ≠ c.address.sinAddr) :
    (iteration crc opts fs (some c) input).state = ⟨fs, .running (some c)⟩ ∧
      ∃ d, (iteration crc opts fs (some c) input).sends = [(input.sender, d)] := by
  have hturn := turn_cases crc opts fs (some c) input
  generalize iteration crc opts fs (some c) input = out at hturn ⊢
  cases hturn with
  | again | busy | abortIgnored | refused => exact ⟨rfl, _, rfl⟩
  | aborted _ _ hip => exact absurd hip hother
  | abortFailed _ _ hip => exact absurd hip hother
  | duplicate _ _ _ hip => exact absurd hip hother
  | fin haccept => exact absurd haccept.2.2.2.1 hother
  | finFailed haccept => exact absurd haccept.2.2.2.1 hother
  | written haccept => exact absurd haccept.2.2.2.1 hother
  | writeFailed haccept => exact absurd haccept.2.2.2.1 hother
  | ignored haccept => exact absurd haccept.2.2.2.1 hother

/-- A server with a session for somebody else has accepted nothing but possibly a whole upload. -/
theorem ServerAt.zero_of_other (h : ServerAt True opts fs₀ u ⟨fs, .running (some c)⟩ r)
    (hother : c.address ≠ u.address) (hr : r ≤ 1) : r = 0 := by
  cases h with
  | waiting => rfl
  | session hstatus hsession =>
    cases hstatus
    exact absurd hsession.address hother
  | closed => omega
  | crashed _ hstatus => cases hstatus

end

section
variable {ι : Type} [DecidableEq ι] {crc : Bytes → UInt32} {opts : ServerOptions}
  {fs₀ fs : FileSystem} {up : ι → Upload} {s s' : InterruptibleNet ι} {net net' : Net ι}
  {i j : ι} {c : ClientData} {B : ι → Prop}

/-- Nothing of client `i` arrives at the server, and the server is not interrupted. -/
def InterruptibleAction.Without (i : ι) : InterruptibleAction ι → Prop
  | .net (.serverReceive j _) => j ≠ i
  | .net _ => True
  | .terminate => False
  | .terminateDuring .. => False

/-- What arrives in this step announces no more than a payload. -/
def InterruptibleAction.Fits (net : Net ι) : InterruptibleAction ι → Prop
  | .net (.serverReceive j _) => ∀ w rest, net.toServer j = w :: rest →
      announcedSize w ≤ maxPayloadSize
  | .net (.clientReceive j _) => ∀ w rest, net.toClient j = w :: rest →
      announcedSize w ≤ maxPayloadSize
  | _ => True

/-- The session `c` of client `i` is open, and no SYN of the clients with `B` has been accepted. -/
structure Blocked (crc : Bytes → UInt32) (up : ι → Upload) (fs : FileSystem) (c : ClientData)
    (i : ι) (B : ι → Prop) (s : InterruptibleNet ι) : Prop where
  address : c.address = (up i).address
  live : s.terminated = false
  server : s.net.server = ⟨fs, .running (some c)⟩
  client : ∀ j, B j → j ≠ i ∧
    ClientSide crc (up j) (· = 0) (s.net.client j) (s.net.toServer j) (s.net.toClient j)

omit [DecidableEq ι] in
/-- The session of client `i` is not that of client `j`. -/
theorem Distinct.address_ne (hdistinct : Distinct up) (haddress : c.address = (up i).address)
    (hji : j ≠ i) : (up j).address.sinAddr ≠ c.address.sinAddr := by
  rw [haddress]
  exact fun heq => hji (hdistinct.address j i heq)

omit [DecidableEq ι] in
theorem InterruptInv.blocked (hdistinct : Distinct up) (h : InterruptInv crc opts fs₀ up s)
    (hlive : s.terminated = false) (hserver : s.net.server = ⟨fs, .running (some c)⟩)
    (haddress : c.address = (up i).address) :
    Blocked crc up fs c i (fun j => j ≠ i ∧ (s.net.client j).pc.connecting = true) s := by
  refine ⟨haddress, hlive, hserver, fun j ⟨hji, hpc⟩ => ⟨hji, ?_⟩⟩
  cases h.client j with
  | givenUp haborting hinHand hown => exact .givenUp haborting hinHand hown
  | @transferring p r hlink hclient hside =>
    -- nothing of a connecting client is acknowledged, and the session is another
    obtain rfl : p = 0 := hclient.of_connecting hpc
    rw [hlive] at hside
    cases hside with
    | living hside =>
      rw [hserver] at hside
      refine .transferring hlink hclient (hside.zero_of_other (fun heq => ?_) hlink.le_and_le.2)
      exact hdistinct.address_ne haddress hji (congrArg SockaddrIn.sinAddr heq.symm)

/-- A turn for a stranger. -/
theorem Blocked.serverReceive (hdistinct : Distinct up) {k : ι} {env : Env} {w : Bytes}
    {rest : List Bytes} (h : Blocked crc up fs c i B ⟨net, false⟩)
    (hdirs : FileSystem.DirsLE fs fs₀) (hchannel : net.toServer k = w :: rest)
    (henv : env.writeLimit = none) (hki : k ≠ i) :
    Blocked crc up fs c i B ⟨(net.setChannel k .toServer rest).afterServer up
      (iteration crc opts fs (some c) ⟨(up k).address, w, env⟩), false⟩ := by
  obtain ⟨haddress, -, -, hclient⟩ := h
  have hstranger := hdistinct.address_ne haddress hki
  have hturn : (iteration crc opts fs (some c) ⟨(up k).address, w, env⟩).state
        = ⟨fs, .running (some c)⟩ ∧
      ∃ d, (iteration crc opts fs (some c) ⟨(up k).address, w, env⟩).sends
        = [((up k).address, d)] := stranger_turn hstranger
  obtain ⟨hstate, d, hsends⟩ := hturn
  refine ⟨haddress, rfl, hstate, fun j hj => ?_⟩
  obtain ⟨hji, hclient⟩ := hclient j hj
  refine ⟨hji, ?_⟩
  simp only [Net.client_afterServer, Net.client_setChannel, Net.toServer_afterServer,
    Net.toServer_setChannel_toServer, Net.toClient_afterServer,
    Net.toClient_setChannel_toServer]
  by_cases hjk : j = k
  · subst hjk
    rw [Function.update_self]
    dsimp only at hclient
    rw [hchannel] at hclient
    cases hclient with
    | @transferring p r hlink hclient hr =>
      subst hr
      have hother : c.address ≠ (up j).address := fun heq =>
        hstranger (congrArg SockaddrIn.sinAddr heq.symm)
      have hfree : ¬ ServerState.HeldBy ⟨fs, .running (some c)⟩ (up j).address :=
        not_heldBy_of_ne rfl hother.symm
      -- for the stranger the server is as good as idle, but it takes no SYN
      have hwaiting : ServerAt True opts fs₀ (up j) ⟨fs, .running (some c)⟩ 0 := .waiting hfree
      have hturn := hwaiting.turn hlink hdirs
        (fun c' hc' hip => absurd (Option.some.inj hc' ▸ hip.symm) hstranger) henv
        fun _ _ _ => trivial
      obtain ⟨r', replies, hsends', hlink', hserver', -⟩ := hturn
      have hle := hlink.le_and_le.1
      have hle' := hlink'.le_and_le.2
      rw [hstate] at hserver'
      rw [hsends', filter_replies hdistinct, if_pos rfl]
      exact .transferring hlink' hclient (hserver'.zero_of_other hother (by omega))
    | givenUp haborting hinHand hown =>
      exact .givenUp haborting hinHand fun w' hw' => hown w' (List.mem_cons_of_mem _ hw')
  · -- the answer goes to the stranger
    have hreplies : (([((up k).address, d)] : List (SockaddrIn × BftDatagram)).filter
        fun x => x.1 = (up j).address).map (·.2.wire) = [] :=
      (filter_replies hdistinct [d]).trans (if_neg hjk)
    rw [Function.update_of_ne hjk, hsends, hreplies, List.append_nil]
    exact hclient

/-- **A step in which nothing of the holder arrives** keeps the session and the others out. -/
theorem Blocked.step (hdistinct : Distinct up) (h : Blocked crc up fs c i B s)
    (hinv : InterruptInv crc opts fs₀ up s) {action : InterruptibleAction ι}
    (hwork : action.FilesWork) (hwithout : action.Without i)
    (hstep : interruptStep crc opts up s action = some s') : Blocked crc up fs c i B s' := by
  obtain ⟨net, terminated⟩ := s
  obtain rfl : terminated = false := h.live
  have hnet : net.server = ⟨fs, .running (some c)⟩ := h.server
  cases interruptStep_cases hstep with
  | @net action net' hserver hmove =>
    cases hof : action.ofServer with
    | false =>
      -- the property of the others is carried along with the invariant of all
      have hclient : ∀ j, ClientSide crc (up j) (fun r => B j → r = 0) (net.client j)
          (net.toServer j) (net.toClient j) := by
        intro j
        by_cases hj : B j
        · exact (h.client j hj).2.mono fun r hr _ => hr
        · exact (hinv.client j).mono fun r _ hj' => absurd hj' hj
      obtain ⟨heq, hclient'⟩ := clientSide_step hclient hmove hwork hof
      exact ⟨h.address, rfl, heq.trans hnet, fun j hj =>
        ⟨(h.client j hj).1, (hclient' j).mono fun r hr => hr hj⟩⟩
    | true =>
      cases hmove with
      | @serverReceive k env currentClient w rest hstatus hchannel =>
        have hdirs : FileSystem.DirsLE net.server.fs fs₀ := hinv.dirsLE
        rw [hnet] at hstatus hdirs
        cases hstatus
        rw [hnet]
        exact h.serverReceive hdistinct hdirs hchannel hwork hwithout
      | _ => cases hof
  | terminate => exact hwithout.elim
  | terminateDuring => exact hwithout.elim

end

end Rechnernetze.Bft
