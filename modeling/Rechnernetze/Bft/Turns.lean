import Rechnernetze.Bft.AbortAgreement
import Rechnernetze.Bft.Interrupts

/-!
# The server in the middle of a turn

`netStep` lets the server receive a datagram, answer it and act on it in one step. The process
takes these steps one after the other, and the client and the channels go on meanwhile: the client
may have the answer before the server has done what follows it. `turnStep` takes a turn apart, with
the moments of `cutTurn` as the places between. Seen with every turn brought to its end once it has
been answered (`TurnNet.settled`), its runs are runs of `netStep` (`turnStep_settled`).
-/

namespace Rechnernetze.Bft

open Lib BftDatagram

/-- The place of a moment in the turn. -/
def Moment.rank : Moment → ℕ
  | .received => 0
  | .removed => 1
  | .created => 2
  | .established => 3
  | .answered => 4
  | .writing n => 5 + n
  | .aborted => 5

/-- A turn that is not at its end: what the server had when it received the datagram, and how far
it has come. -/
structure OpenTurn where
  fs : FileSystem
  currentClient : Option ClientData
  bytes : Bytes
  env : Env
  moment : Moment

/-- A client, the channels, and the server as it stands at this moment. -/
structure TurnNet where
  net : Net Unit
  turn : Option OpenTurn

inductive TurnAction where
  /-- A step of the client, or a fault of a channel. -/
  | other (action : Action Unit)
  /-- `recvfrom` of the server returns. -/
  | receive (env : Env)
  /-- The server comes to the next moment of its turn. -/
  | reach (moment : Moment)
  /-- The server comes to the end of its turn. -/
  | finish

namespace OpenTurn

def input (u : Upload) (t : OpenTurn) : ServerInput := ⟨u.address, t.bytes, t.env⟩

/-- The answer has been sent. -/
def Answered (t : OpenTurn) : Prop := Moment.rank .answered ≤ t.moment.rank

instance (t : OpenTurn) : Decidable t.Answered := by unfold Answered; infer_instance

variable (crc : Bytes → UInt32) (opts : ServerOptions) (u : Upload)

/-- What the turn comes to. -/
def outcome (t : OpenTurn) : Outcome := iteration crc opts t.fs t.currentClient (t.input u)

/-- What has been done of the turn at a moment. -/
def cut (t : OpenTurn) (moment : Moment) : Option Cut :=
  cutTurn crc opts t.fs t.currentClient (t.input u) moment

end OpenTurn

/-- One action, `none` where it is not possible. -/
def turnStep (crc : Bytes → UInt32) (opts : ServerOptions) (u : Upload) (s : TurnNet) :
    TurnAction → Option TurnNet
  | .other action =>
    if action.ofServer then none
    else (netStep crc opts (fun _ => u) s.net action).map fun net => ⟨net, s.turn⟩
  | .receive env =>
    match s.turn, s.net.server.status, s.net.toServer () with
    | none, .running currentClient, w :: rest =>
      some ⟨s.net.setChannel () .toServer rest,
        some ⟨s.net.server.fs, currentClient, w, env, .received⟩⟩
    | _, _, _ => none
  | .reach moment =>
    s.turn.bind fun t =>
      -- a turn goes forward, and nothing is done behind the answer that has not been sent
      if t.moment.rank < moment.rank ∧ (moment.rank ≤ Moment.rank .answered ∨ t.Answered) then
        (t.cut crc opts u moment).map fun cut =>
          ⟨s.net.afterServer (fun _ => u) ⟨if moment = .answered then cut.sends else [],
            ⟨cut.fs, .running cut.currentClient⟩⟩, some { t with moment := moment }⟩
      else none
  | .finish =>
    s.turn.bind fun t =>
      if t.Answered ∨ (t.outcome crc opts u).sends = [] then
        some ⟨s.net.afterServer (fun _ => u) ⟨[], (t.outcome crc opts u).state⟩, none⟩
      else none

/-- The network with the turn of the server brought to its end if it has been answered, and not
begun if not. -/
def TurnNet.settled (crc : Bytes → UInt32) (opts : ServerOptions) (u : Upload) (s : TurnNet) :
    Net Unit :=
  match s.turn with
  | none => s.net
  | some t =>
    if t.Answered then { s.net with server := (t.outcome crc opts u).state }
    else
      { s.net with
        server := ⟨t.fs, .running t.currentClient⟩
        toServer := fun _ => t.bytes :: s.net.toServer () }

/-- The client stands before its first datagram, and the server waits for one. -/
def TurnNet.initial (crc : Bytes → UInt32) (u : Upload) (fs : FileSystem) : TurnNet :=
  ⟨.initial (fun _ => u) crc fs, none⟩

section
variable {crc : Bytes → UInt32} {opts : ServerOptions} {u : Upload} {s s' : TurnNet}
  {net net' : Net Unit} {t : OpenTurn} {action : Action Unit} {moment : Moment} {cut : Cut}
  {fs : FileSystem} {currentClient : Option ClientData} {input : ServerInput}

/-! ## The steps -/

/-- The steps of the network with its turns taken apart. -/
inductive TurnMove (crc : Bytes → UInt32) (opts : ServerOptions) (u : Upload) (s : TurnNet) :
    TurnNet → Prop
  | other {action : Action Unit} {net' : Net Unit} (hserver : action.ofServer = false)
      (hstep : netStep crc opts (fun _ => u) s.net action = some net') :
      TurnMove crc opts u s ⟨net', s.turn⟩
  | receive {env : Env} {currentClient : Option ClientData} {w : Bytes} {rest : List Bytes}
      (hturn : s.turn = none) (hstatus : s.net.server.status = .running currentClient)
      (hchannel : s.net.toServer () = w :: rest) :
      TurnMove crc opts u s ⟨s.net.setChannel () .toServer rest,
        some ⟨s.net.server.fs, currentClient, w, env, .received⟩⟩
  | reach {t : OpenTurn} {moment : Moment} {cut : Cut} (hturn : s.turn = some t)
      (hlt : t.moment.rank < moment.rank)
      (hanswer : moment.rank ≤ Moment.rank .answered ∨ t.Answered)
      (hcut : t.cut crc opts u moment = some cut) :
      TurnMove crc opts u s ⟨s.net.afterServer (fun _ => u)
        ⟨if moment = .answered then cut.sends else [], ⟨cut.fs, .running cut.currentClient⟩⟩,
        some { t with moment := moment }⟩
  | finish {t : OpenTurn} (hturn : s.turn = some t)
      (hanswered : t.Answered ∨ (t.outcome crc opts u).sends = []) :
      TurnMove crc opts u s
        ⟨s.net.afterServer (fun _ => u) ⟨[], (t.outcome crc opts u).state⟩, none⟩

/-- **Inversion of a step.** -/
theorem turnStep_cases {action : TurnAction} (h : turnStep crc opts u s action = some s') :
    TurnMove crc opts u s s' := by
  cases action with
  | other action =>
    dsimp only [turnStep] at h
    split at h
    · cases h
    · rename_i hserver
      obtain ⟨net', hstep, rfl⟩ := Option.map_eq_some_iff.mp h
      exact .other ((Bool.not_eq_true _).mp hserver) hstep
  | receive env =>
    dsimp only [turnStep] at h
    split at h
    · rename_i currentClient w rest hturn hstatus hchannel
      cases h
      exact .receive hturn hstatus hchannel
    · cases h
  | reach moment =>
    obtain ⟨t, hturn, h⟩ := Option.bind_eq_some_iff.mp h
    split at h
    · rename_i hnext
      obtain ⟨cut, hcut, rfl⟩ := Option.map_eq_some_iff.mp h
      exact .reach hturn hnext.1 hnext.2 hcut
    · cases h
  | finish =>
    obtain ⟨t, hturn, h⟩ := Option.bind_eq_some_iff.mp h
    split at h
    · rename_i hanswered
      cases h
      exact .finish hturn hanswered
    · cases h

/-! ## The refinement -/

@[simp] theorem TurnNet.client_settled : (s.settled crc opts u).client = s.net.client := by
  unfold settled
  split
  · rfl
  · split <;> rfl

@[simp] theorem TurnNet.toClient_settled : (s.settled crc opts u).toClient = s.net.toClient := by
  unfold settled
  split
  · rfl
  · split <;> rfl

theorem TurnNet.settled_none : settled crc opts u ⟨net, none⟩ = net := rfl

theorem TurnNet.settled_answered (ht : t.Answered) :
    settled crc opts u ⟨net, some t⟩ = { net with server := (t.outcome crc opts u).state } :=
  if_pos ht

theorem TurnNet.settled_not_answered (ht : ¬ t.Answered) :
    settled crc opts u ⟨net, some t⟩
      = { net with
          server := ⟨t.fs, .running t.currentClient⟩
          toServer := fun _ => t.bytes :: net.toServer () } :=
  if_neg ht

/-- The client and the channels do not look at the server. -/
theorem netStep_of_server (hserver : action.ofServer = false)
    (hstep : netStep crc opts (fun _ => u) net action = some net') (server : ServerState) :
    netStep crc opts (fun _ => u) { net with server := server } action
      = some { net' with server := server } := by
  cases action with
  | client i event =>
    dsimp only [netStep] at hstep ⊢
    split at hstep
    · cases hstep
    · rename_i hevent
      rw [if_neg hevent]
      obtain ⟨r, hr, rfl⟩ := Option.map_eq_some_iff.mp hstep
      rw [hr]
      rfl
  | clientReceive i errnoAgain =>
    dsimp only [netStep] at hstep ⊢
    split at hstep
    · cases hstep
    · rename_i w rest hchannel
      obtain ⟨r, hr, rfl⟩ := Option.map_eq_some_iff.mp hstep
      rw [hr]
      rfl
  | serverReceive => cases hserver
  | fault i direction f =>
    dsimp only [netStep] at hstep ⊢
    split at hstep
    · rename_i hf
      rw [if_pos hf]
      cases hstep
      cases direction <;> rfl
    · cases hstep

/-- Nor at a datagram that the server has not taken from the channel yet. -/
theorem netStep_behind (hserver : action.ofServer = false) (w : Bytes)
    (hstep : netStep crc opts (fun _ => u) net action = some net') :
    ∃ action', netStep crc opts (fun _ => u)
        { net with toServer := fun _ => w :: net.toServer () } action'
      = some { net' with toServer := fun _ => w :: net'.toServer () } := by
  cases action with
  | client i event =>
    cases i
    refine ⟨.client () event, ?_⟩
    dsimp only [netStep] at hstep ⊢
    split at hstep
    · cases hstep
    · rename_i hevent
      rw [if_neg hevent]
      obtain ⟨r, hr, rfl⟩ := Option.map_eq_some_iff.mp hstep
      rw [hr]
      simp [Net.afterClient, Net.update_unit]
  | clientReceive i errnoAgain =>
    refine ⟨.clientReceive i errnoAgain, ?_⟩
    dsimp only [netStep] at hstep ⊢
    split at hstep
    · cases hstep
    · rename_i w' rest hchannel
      obtain ⟨r, hr, rfl⟩ := Option.map_eq_some_iff.mp hstep
      rw [hr]
      rfl
  | serverReceive => cases hserver
  | fault i direction f =>
    cases i
    dsimp only [netStep] at hstep
    split at hstep
    · rename_i hf
      cases hstep
      cases direction with
      | toServer =>
        -- the same fault, one place further back
        refine ⟨.fault () .toServer f.behind, ?_⟩
        dsimp only [netStep]
        rw [if_pos (Fault.yields_behind.mpr hf)]
        simp [Net.setChannel, Net.channel, Net.update_unit, Fault.apply_behind]
      | toClient =>
        refine ⟨.fault () .toClient f, ?_⟩
        dsimp only [netStep]
        rw [if_pos hf]
        rfl
    · cases hstep

theorem Moment.eq_answered {moment : Moment} (h : moment.rank = Moment.rank .answered) :
    moment = .answered := by
  cases moment with
  | answered => rfl
  | writing n =>
    simp only [rank] at h
    omega
  | _ => cases h

/-- An answer without bytes. -/
theorem Net.afterServer_nil {server : ServerState} :
    net.afterServer (fun _ => u) ⟨[], server⟩ = { net with server := server } := by
  simp [Net.afterServer]

theorem OpenTurn.not_answered_received {bytes : Bytes} {env : Env} :
    ¬ OpenTurn.Answered ⟨fs, currentClient, bytes, env, .received⟩ := by
  show ¬ 4 ≤ 0
  decide

/-- What has been sent of a turn when it has been answered. -/
theorem OpenTurn.sends_of_answered (h : t.cut crc opts u .answered = some cut) :
    cut.sends = (t.outcome crc opts u).sends := by
  dsimp only [OpenTurn.cut, cutTurn] at h
  split at h
  · split at h
    · cases h
      rfl
    · cases h
  · split at h
    · cases h
    · cases h
      rfl

/-- The turn as a whole. -/
theorem OpenTurn.netStep_outcome :
    netStep crc opts (fun _ => u)
        { net with
          server := ⟨t.fs, .running t.currentClient⟩
          toServer := fun _ => t.bytes :: net.toServer () } (.serverReceive () t.env)
      = some (net.afterServer (fun _ => u) (t.outcome crc opts u)) := rfl

/-- **Refinement.** Every step with the turns taken apart is a step of the network or nothing. -/
theorem turnStep_settled (h : TurnMove crc opts u s s') :
    s'.settled crc opts u = s.settled crc opts u ∨
      ∃ action, netStep crc opts (fun _ => u) (s.settled crc opts u) action
        = some (s'.settled crc opts u) := by
  obtain ⟨net, turn⟩ := s
  cases h with
  | @other action net' hserver hstep =>
    right
    cases turn with
    | none => exact ⟨action, hstep⟩
    | some t =>
      by_cases ht : t.Answered
      · rw [TurnNet.settled_answered ht, TurnNet.settled_answered ht]
        -- the server has taken its turn already
        exact ⟨action, netStep_of_server hserver hstep _⟩
      · rw [TurnNet.settled_not_answered ht, TurnNet.settled_not_answered ht]
        -- the datagram of the turn stands at the head of the channel still
        exact netStep_behind hserver _ (netStep_of_server hserver hstep _)
  | @receive env currentClient w rest hturn hstatus hchannel =>
    -- the datagram counts as under way until it is answered
    left
    obtain rfl : turn = none := hturn
    obtain ⟨⟨fs, status⟩, client, toServer, toClient⟩ := net
    obtain rfl : status = .running currentClient := hstatus
    have htoServer : toServer = fun _ => w :: rest := funext fun _ => hchannel
    rw [TurnNet.settled_none, TurnNet.settled_not_answered OpenTurn.not_answered_received,
      htoServer]
    rfl
  | @reach t moment cut hturn hlt hanswer hcut =>
    obtain rfl : turn = some t := hturn
    by_cases hmoment : moment = .answered
    · -- here the turn counts as taken
      subst hmoment
      have ht : ¬ t.Answered := not_le.mpr hlt
      have ht' : OpenTurn.Answered { t with moment := .answered } := Nat.le_refl _
      right
      refine ⟨.serverReceive () t.env, ?_⟩
      rw [TurnNet.settled_not_answered ht, TurnNet.settled_answered ht', OpenTurn.netStep_outcome,
        if_pos rfl, OpenTurn.sends_of_answered hcut]
      rfl
    · left
      -- nothing is sent, so the answer is sent before or after this moment
      rw [if_neg hmoment, Net.afterServer_nil]
      by_cases ht : t.Answered
      · have ht' : OpenTurn.Answered { t with moment := moment } := ht.trans hlt.le
        rw [TurnNet.settled_answered ht, TurnNet.settled_answered ht']
        rfl
      · have ht' : ¬ OpenTurn.Answered { t with moment := moment } := by
          intro h
          have hle := hanswer.resolve_right ht
          exact hmoment (Moment.eq_answered (Nat.le_antisymm hle h))
        rw [TurnNet.settled_not_answered ht, TurnNet.settled_not_answered ht']
  | @finish t hturn hanswered =>
    obtain rfl : turn = some t := hturn
    rw [TurnNet.settled_none, Net.afterServer_nil]
    by_cases ht : t.Answered
    · left
      rw [TurnNet.settled_answered ht]
    · -- a turn without an answer is taken at its end
      right
      refine ⟨.serverReceive () t.env, ?_⟩
      have hsends := hanswered.resolve_left ht
      rw [TurnNet.settled_not_answered ht, OpenTurn.netStep_outcome, Net.afterServer, hsends]
      simp

/-- Every run with the turns taken apart is a run of the network. -/
theorem reaches_settled (h : Reaches (turnStep crc opts u) anyStep s s') :
    Reaches (netStep crc opts fun _ => u) anyStep (s.settled crc opts u)
      (s'.settled crc opts u) := by
  refine h.map_stutter (TurnNet.settled crc opts u) fun _ _ _ _ _ hstep => ?_
  rcases turnStep_settled (turnStep_cases hstep) with heq | ⟨action, hstep'⟩
  · exact Or.inl heq
  · exact Or.inr ⟨action, trivial, hstep'⟩

/-! ## Turns without an interruption -/

/-- A turn that answers comes to the moment after its answer. -/
theorem exists_cutTurn_answered (hsends : (iteration crc opts fs currentClient input).sends ≠ []) :
    ∃ cut, cutTurn crc opts fs currentClient input .answered = some cut := by
  unfold cutTurn
  dsimp only
  by_cases hopens : Opens crc currentClient input
  · rw [if_pos hopens]
    obtain ⟨rfl, hcheck, hSYN⟩ := hopens
    rw [iteration_intact hcheck, onIntact_SYN (isSYN_iff.mp hSYN), onSYN] at hsends
    rcases handleSYN_cases opts fs (receive input.bytes) input.sender input.env
      with ⟨fs', l, h, -⟩ | ⟨fs', e, h, -⟩
    · rw [h]
      exact ⟨_, rfl⟩
    · rw [h] at hsends
      exact absurd rfl hsends
  · rw [if_neg hopens, if_neg hsends]
    exact ⟨_, rfl⟩

theorem turnStep_answer (ht : ¬ t.Answered) (hcut : t.cut crc opts u .answered = some cut) :
    turnStep crc opts u ⟨net, some t⟩ (.reach .answered)
      = some ⟨net.afterServer (fun _ => u)
        ⟨(t.outcome crc opts u).sends, ⟨cut.fs, .running cut.currentClient⟩⟩,
        some { t with moment := .answered }⟩ := by
  have hnext : t.moment.rank < Moment.rank .answered ∧
      (Moment.rank .answered ≤ Moment.rank .answered ∨ t.Answered) :=
    ⟨not_le.mp ht, Or.inl (Nat.le_refl _)⟩
  simp only [turnStep, Option.bind_some, if_pos hnext, hcut, Option.map_some, if_true,
    OpenTurn.sends_of_answered hcut]

theorem turnStep_finish (h : t.Answered ∨ (t.outcome crc opts u).sends = []) :
    turnStep crc opts u ⟨net, some t⟩ .finish
      = some ⟨{ net with server := (t.outcome crc opts u).state }, none⟩ := by
  simp only [turnStep, Option.bind_some, if_pos h, Net.afterServer_nil]

/-- A step of the network, step by step. -/
theorem reaches_of_netStep (h : netStep crc opts (fun _ => u) net action = some net') :
    Reaches (turnStep crc opts u) anyStep ⟨net, none⟩ ⟨net', none⟩ := by
  cases netStep_cases h with
  | client hevent hmove =>
    exact .tail .refl trivial (a := .other _) (by rw [turnStep, h]; rfl)
  | clientReceive hchannel hmove =>
    exact .tail .refl trivial (a := .other _) (by rw [turnStep, h]; rfl)
  | fault hf => exact .tail .refl trivial (a := .other _) (by rw [turnStep, h]; rfl)
  | @serverReceive i env currentClient w rest hstatus hchannel =>
    -- a turn of the server is begun, answered if it has an answer, and finished
    let t : OpenTurn := ⟨net.server.fs, currentClient, w, env, .received⟩
    have hreceive : turnStep crc opts u ⟨net, none⟩ (.receive env)
        = some ⟨net.setChannel () .toServer rest, some t⟩ := by
      rw [turnStep, hstatus, hchannel]
    have hbegun : Reaches (turnStep crc opts u) anyStep ⟨net, none⟩
        ⟨net.setChannel () .toServer rest, some t⟩ := .tail .refl trivial hreceive
    by_cases hsends : (t.outcome crc opts u).sends = []
    · have hend : (net.setChannel () .toServer rest).afterServer (fun _ => u)
          (t.outcome crc opts u) = { net.setChannel () .toServer rest with
            server := (t.outcome crc opts u).state } := by
        rw [← Net.afterServer_nil, ← hsends]
      refine hbegun.tail trivial (a := .finish) ?_
      rw [turnStep_finish (Or.inr hsends)]
      exact congrArg (fun net => some (TurnNet.mk net none)) hend.symm
    · obtain ⟨cut, hcut⟩ := exists_cutTurn_answered hsends
      refine (hbegun.tail trivial (turnStep_answer OpenTurn.not_answered_received hcut)).tail
        trivial (a := .finish) ?_
      rw [turnStep_finish (Or.inl (Nat.le_refl _))]
      rfl

/-- **A run of the network** is one with its turns taken apart. -/
theorem reaches_of_reaches (h : Reaches (netStep crc opts fun _ => u) anyStep net net') :
    Reaches (turnStep crc opts u) anyStep ⟨net, none⟩ ⟨net', none⟩ := by
  induction h with
  | refl => exact .refl
  | tail _ _ hstep ih => exact ih.trans (reaches_of_netStep hstep)

end

end Rechnernetze.Bft
