import Rechnernetze.Bft.NetworkTheorems
import Rechnernetze.Bft.ServerTheorems

/-!
# What is under way

A client sends one datagram and waits, and the server answers each datagram with one. So between a
client and the server the datagrams become more or fewer only where a channel loses or repeats one,
and where the client gives up waiting: after a timeout, an error of `recvfrom` or a signal.
`Traffic` counts these beside a run of the network, and `underWay_eq` is the balance, in every run:
whatever happens to files, writes and the other clients, as long as the server lives.
-/

namespace Rechnernetze.Bft

open Lib BftDatagram ClientState

/-- The client is in `recvfrom`. -/
def PC.waiting : PC → Bool
  | .receive .. => true
  | _ => false

/-- The datagrams under way between client `i` and the server. -/
def Net.underWay {ι : Type} (net : Net ι) (i : ι) : ℕ :=
  (net.toServer i).length + (net.toClient i).length

/-- What has happened to the exchange of one client with the server. -/
structure Traffic where
  /-- The datagrams that a channel has lost. -/
  lost : ℕ
  /-- The datagrams that a channel has repeated. -/
  repeated : ℕ
  /-- How often the client has left `recvfrom` without a datagram. -/
  unanswered : ℕ

/-- The network takes a step; client `i` is watched. -/
def Traffic.count {ι : Type} [DecidableEq ι] (i : ι) (net : Net ι) (t : Traffic) :
    Action ι → Traffic
  | .client j _ =>
    -- in `recvfrom` these are a timeout, an error and a signal
    if j = i ∧ (net.client i).pc.waiting then { t with unanswered := t.unanswered + 1 } else t
  | .fault j direction f =>
    if j = i then
      { t with
        lost := t.lost + f.removed (net.channel i direction)
        repeated := t.repeated + f.added (net.channel i direction) }
    else t
  | _ => t

/-- A step of the network, together with what is counted for client `i`. -/
def trafficStep {ι : Type} [DecidableEq ι] (crc : Bytes → UInt32) (opts : ServerOptions)
    (up : ι → Upload) (i : ι) (x : Net ι × Traffic) (action : Action ι) :
    Option (Net ι × Traffic) :=
  (netStep crc opts up x.1 action).map fun net => (net, x.2.count i x.1 action)

/-- 1 unless the client is in `recvfrom`: then the next datagram is the server's or a channel's. -/
def PC.held (pc : PC) : ℕ := if pc.waiting then 0 else 1

section
variable {crc : Bytes → UInt32} {opts : ServerOptions} {fs : FileSystem} {u : Upload}
  {s s' : ClientState} {event : ClientEvent} {sends : List (SockaddrIn × Bytes)} {a : SockaddrIn}
  {call : Call} {d : BftDatagram} {k : ℕ} {sender : SockaddrIn} {bytes : Bytes} {errnoAgain : Bool}
  {currentClient : Option ClientData} {input : ServerInput} {out : Outcome}

/-! ## The client -/

theorem held_onTimeout (s : ClientState) (call : Call) (d : BftDatagram) (k : ℕ) :
    (s.onTimeout u call d k).pc.held = 1 := by
  rcases onTimeout_cases u s call d k with ⟨k', h⟩ | ⟨-, e, -, -, h⟩ <;> rw [h] <;> rfl

/-- **A step of the client** other than the receipt of a datagram: it sends what it has held, and
what it gives up waiting for it holds itself. -/
theorem ClientState.Move.held (h : Move crc u s event s' sends) (hevent : event.isDatagram = false)
    (ha : s.serverAddr = a) :
    (sends.filter fun x => x.1 = a).length + s'.pc.held
      = s.pc.held + if s.pc.waiting then 1 else 0 := by
  cases h with
  | sigint =>
    show 0 + 1 = s.pc.held + _
    unfold PC.held
    split <;> rfl
  | send hpc =>
    rw [List.filter_cons_of_pos (by simpa using ha), hpc]
    rfl
  | sendError hpc =>
    rw [hpc]
    rfl
  | timeout hpc =>
    rw [held_onTimeout, hpc]
    rfl
  | receiveError hpc =>
    rw [hpc]
    rfl
  | response | emptyAgain | emptyError => cases hevent
  | openFile hpc =>
    rw [hpc]
    rfl
  | @read fault hpc =>
    obtain ⟨call, d, -, hpc'⟩ := onRead_pc crc u s fault
    rw [hpc', hpc]
    rfl

/-- Whatever the client receives, it holds the next datagram then. -/
theorem ClientState.Move.held_datagram
    (h : Move crc u s (.datagram sender bytes errnoAgain) s' sends) :
    s.pc.held = 0 ∧ s'.pc.held = 1 := by
  cases h with
  | @response call d k _ _ _ hpc hbytes =>
    refine ⟨by rw [hpc]; rfl, ?_⟩
    have hanswer := onResponse_cases crc { s with serverAddr := sender } call d (receive bytes)
    generalize ClientState.onResponse crc _ _ _ _ = s' at hanswer ⊢
    cases hanswer with
    | again | busy | abortAcknowledged => rfl
    | acknowledged => cases call <;> rfl
  | emptyAgain hpc => exact ⟨by rw [hpc]; rfl, held_onTimeout ..⟩
  | emptyError hpc => exact ⟨by rw [hpc]; rfl, rfl⟩

/-! ## The server -/

/-- A turn answers the sender of the datagram, or the client of the session on the same host. -/
theorem Turn.recipient (h : Turn crc opts fs input currentClient out) :
    ∀ x ∈ out.sends, x.1 = input.sender ∨ ∃ c, currentClient = some c ∧ x.1 = c.address ∧
      input.sender.sinAddr = c.address.sinAddr := by
  intro x hx
  cases h with
  | nullDereference | notOpened => cases hx
  | again | opened | busy | abortIgnored | aborted | abortFailed | refused =>
    rw [List.mem_singleton.mp hx]
    exact Or.inl rfl
  | duplicate _ _ _ hip =>
    rw [List.mem_singleton.mp hx]
    exact Or.inr ⟨_, rfl, rfl, hip⟩
  | fin haccept | finFailed haccept | written haccept | writeFailed haccept | ignored haccept =>
    rw [List.mem_singleton.mp hx]
    exact Or.inr ⟨_, rfl, rfl, haccept.2.2.2.1⟩

/-- A turn that the server survives answers. -/
theorem Turn.length_sends_eq (h : Turn crc opts fs input currentClient out)
    (hlive : ∀ e, out.state.status ≠ .stopped e) : out.sends.length = 1 := by
  cases h with
  | nullDereference | notOpened => exact absurd rfl (hlive _)
  | _ => rfl

/-- A session is of the sender who has opened it. -/
theorem Turn.owner_cases {c' : ClientData} (h : Turn crc opts fs input currentClient out)
    (hc' : out.state.status = .running (some c')) :
    c'.address = input.sender ∨ ∃ c, currentClient = some c ∧ c'.address = c.address := by
  cases h with
  | opened => cases hc'; exact Or.inl rfl
  | again | busy | abortIgnored | refused => cases hc'; exact Or.inr ⟨_, rfl, rfl⟩
  | @duplicate c | @written c | @ignored c => cases hc'; exact Or.inr ⟨c, rfl, rfl⟩
  | _ => cases hc'

end

/-! ## Every run -/

/-- The clients send to the server, and the sessions are theirs. -/
structure Addressed {ι : Type} (up : ι → Upload) (net : Net ι) : Prop where
  server : ∀ i, (net.client i).serverAddr = (up i).serverAddr
  owner : ∀ c, net.server.status = .running (some c) → ∃ i, c.address = (up i).address

/-- Every client is on a host of its own. -/
def DifferentHosts {ι : Type} (up : ι → Upload) : Prop :=
  Function.Injective fun i => (up i).address.sinAddr

/-- What client `i` and the server exchange is in balance, as long as the server lives. -/
def Balance {ι : Type} (i : ι) (net : Net ι) (t : Traffic) : Prop :=
  (∀ e, net.server.status ≠ .stopped e) →
    net.underWay i + (net.client i).pc.held + t.lost = 1 + t.repeated + t.unanswered

section
variable {ι : Type} [DecidableEq ι] {crc : Bytes → UInt32} {opts : ServerOptions}
  {up : ι → Upload} {net net' : Net ι} {i j : ι} {action : Action ι} {t : Traffic}
  {s : ClientState} {event : ClientEvent} {sends : List (SockaddrIn × Bytes)} {env : Env}
  {w : Bytes} {rest : List Bytes} {currentClient : Option ClientData} {errnoAgain : Bool}
  {f : Fault Bytes} {direction : Direction}

omit [DecidableEq ι] in
theorem Addressed.initial (crc : Bytes → UInt32) (fs : FileSystem) :
    Addressed up (Net.initial up crc fs) where
  server _ := rfl
  owner := nofun

theorem Addressed.step (h : Addressed up net) (hstep : netStep crc opts up net action = some net') :
    Addressed up net' := by
  have hclient : ∀ {s : ClientState} {i : ι}, s.serverAddr = (up i).serverAddr →
      ∀ j, (Function.update net.client i s j).serverAddr = (up j).serverAddr := by
    intro s i hs j
    by_cases hji : j = i
    · subst hji
      rwa [Function.update_self]
    · rw [Function.update_of_ne hji]
      exact h.server j
  cases netStep_cases hstep with
  | @client i event s sends hevent hmove =>
    refine ⟨hclient (hmove.serverAddr_eq ?_ (h.server i)), h.owner⟩
    rintro sender bytes errnoAgain rfl
    cases hevent
  | @clientReceive i errnoAgain w rest s hchannel hmove =>
    refine ⟨fun j => ?_, h.owner⟩
    rw [Net.client_afterClient, Net.client_setChannel]
    refine hclient (hmove.serverAddr_eq ?_ (h.server i)) j
    intro sender bytes errnoAgain heq
    cases heq
    rfl
  | @serverReceive i env currentClient w rest hstatus hchannel =>
    refine ⟨h.server, fun c hc => ?_⟩
    rcases (turn_cases crc opts net.server.fs currentClient ⟨(up i).address, w, env⟩).owner_cases hc
      with haddress | ⟨c₀, rfl, haddress⟩
    · exact ⟨i, haddress⟩
    · rw [haddress]
      exact h.owner c₀ hstatus
  | fault =>
    refine ⟨fun j => ?_, fun c hc => h.owner c ?_⟩
    · rw [Net.client_setChannel]
      exact h.server j
    · rwa [Net.server_setChannel] at hc

omit [DecidableEq ι] in
/-- **A turn for client `i`** answers client `i`, and nobody else. -/
theorem Addressed.recipient (h : Addressed up net) (hhosts : DifferentHosts up)
    (hstatus : net.server.status = .running currentClient) :
    ∀ x ∈ (iteration crc opts net.server.fs currentClient ⟨(up i).address, w, env⟩).sends,
      x.1 = (up i).address := by
  intro x hx
  rcases (turn_cases crc opts net.server.fs currentClient ⟨(up i).address, w, env⟩).recipient x hx
    with hsender | ⟨c, rfl, hc, hip⟩
  · exact hsender
  · obtain ⟨k, hk⟩ := h.owner c hstatus
    rw [hk] at hip hc
    rw [hc, hhosts hip]

omit [DecidableEq ι] in
theorem Addressed.filter_sends (h : Addressed up net) (hhosts : DifferentHosts up)
    (hstatus : net.server.status = .running currentClient) (hij : i ≠ j) :
    ((iteration crc opts net.server.fs currentClient ⟨(up j).address, w, env⟩).sends.filter
      fun x => x.1 = (up i).address) = [] := by
  rw [List.filter_eq_nil_iff]
  intro x hx
  have hne : (up j).address ≠ (up i).address := fun heq =>
    hij (hhosts (congrArg SockaddrIn.sinAddr heq)).symm
  rw [h.recipient hhosts hstatus x hx]
  simpa using hne

omit [DecidableEq ι] in
theorem Addressed.length_filter_sends (h : Addressed up net) (hhosts : DifferentHosts up)
    (hstatus : net.server.status = .running currentClient)
    (hlive : ∀ e, (iteration crc opts net.server.fs currentClient
      ⟨(up i).address, w, env⟩).state.status ≠ .stopped e) :
    ((iteration crc opts net.server.fs currentClient ⟨(up i).address, w, env⟩).sends.filter
      fun x => x.1 = (up i).address).length = 1 := by
  rw [List.filter_eq_self.mpr fun x hx => decide_eq_true (h.recipient hhosts hstatus x hx)]
  exact (turn_cases crc opts net.server.fs currentClient _).length_sends_eq hlive

omit [DecidableEq ι] in
theorem Balance.initial (crc : Bytes → UInt32) (fs : FileSystem) :
    Balance i (Net.initial up crc fs) ⟨0, 0, 0⟩ := fun _ => rfl

theorem Balance.client (h : Balance i net t) (haddressed : Addressed up net)
    (hevent : event.isDatagram = false) (hmove : Move crc (up j) (net.client j) event s sends) :
    Balance i (net.afterClient up j s sends) (t.count i net (.client j event)) := by
  intro hlive
  have hbalance := h hlive
  by_cases hji : j = i
  · subst hji
    -- what the client sends or gives up waiting for, it has held or holds
    have hheld := hmove.held hevent (haddressed.server j)
    unfold Net.underWay at hbalance ⊢
    rw [Net.toServer_afterClient, Net.toClient_afterClient, Net.client_afterClient,
      Function.update_self, Function.update_self, List.length_append, List.length_map]
    cases hwaiting : (net.client j).pc.waiting with
    | true =>
      rw [hwaiting, if_pos rfl] at hheld
      rw [Traffic.count, if_pos ⟨rfl, hwaiting⟩]
      show _ + t.lost = 1 + t.repeated + (t.unanswered + 1)
      omega
    | false =>
      rw [hwaiting, if_neg (by decide)] at hheld
      rw [Traffic.count, if_neg fun h => absurd (hwaiting.symm.trans h.2) (by decide)]
      omega
  · have hij : i ≠ j := Ne.symm hji
    unfold Net.underWay at hbalance ⊢
    rw [Traffic.count, if_neg fun h => hji h.1, Net.toServer_afterClient, Net.toClient_afterClient,
      Net.client_afterClient, Function.update_of_ne hij, Function.update_of_ne hij]
    exact hbalance

theorem Balance.clientReceive (h : Balance i net t) (hchannel : net.toClient j = w :: rest)
    (hmove : Move crc (up j) (net.client j) (.datagram (up j).serverAddr w errnoAgain) s []) :
    Balance i ((net.setChannel j .toClient rest).afterClient up j s [])
      (t.count i net (.clientReceive j errnoAgain)) := by
  intro hlive
  have hbalance := h hlive
  unfold Net.underWay at hbalance ⊢
  simp only [Net.toServer_afterClient, Net.toClient_afterClient, Net.client_afterClient,
    Net.toServer_setChannel_toClient, Net.toClient_setChannel_toClient, Net.client_setChannel,
    List.filter_nil, List.map_nil, List.append_nil, Function.update_eq_self]
  by_cases hji : j = i
  · subst hji
    -- the datagram that is taken turns into the one that is held next
    obtain ⟨hbefore, hafter⟩ := hmove.held_datagram
    rw [hchannel, List.length_cons, hbefore] at hbalance
    rw [Function.update_self, Function.update_self, hafter]
    show _ + t.lost = 1 + t.repeated + t.unanswered
    omega
  · have hij : i ≠ j := Ne.symm hji
    rw [Function.update_of_ne hij, Function.update_of_ne hij]
    exact hbalance

theorem Balance.serverReceive (h : Balance i net t) (haddressed : Addressed up net)
    (hhosts : DifferentHosts up) (hstatus : net.server.status = .running currentClient)
    (hchannel : net.toServer j = w :: rest) :
    Balance i ((net.setChannel j .toServer rest).afterServer up
        (iteration crc opts net.server.fs currentClient ⟨(up j).address, w, env⟩))
      (t.count i net (.serverReceive j env)) := by
  intro hlive
  have hbalance := h fun e he => by rw [hstatus] at he; cases he
  unfold Net.underWay at hbalance ⊢
  simp only [Net.toServer_afterServer, Net.toClient_afterServer, Net.client_afterServer,
    Net.toServer_setChannel_toServer, Net.toClient_setChannel_toServer, Net.client_setChannel,
    List.length_append, List.length_map]
  show _ + t.lost = 1 + t.repeated + t.unanswered
  by_cases hij : i = j
  · subst hij
    -- one is taken, and one is answered
    rw [hchannel, List.length_cons] at hbalance
    rw [Function.update_self, haddressed.length_filter_sends hhosts hstatus hlive]
    omega
  · rw [Function.update_of_ne hij, haddressed.filter_sends hhosts hstatus hij]
    exact hbalance

theorem Balance.fault (h : Balance i net t) :
    Balance i (net.setChannel j direction (f.apply (net.channel j direction)))
      (t.count i net (.fault j direction f)) := by
  intro hlive
  rw [Net.server_setChannel] at hlive
  have hbalance := h hlive
  have hlength := f.length_apply (net.channel j direction)
  unfold Net.underWay at hbalance ⊢
  rw [Net.client_setChannel]
  by_cases hji : j = i
  · subst hji
    rw [Traffic.count, if_pos rfl]
    show _ + _ + (t.lost + f.removed _) = 1 + (t.repeated + f.added _) + t.unanswered
    cases direction with
    | toServer =>
      rw [Net.toServer_setChannel_toServer, Net.toClient_setChannel_toServer, Function.update_self]
      rw [Net.channel] at hlength ⊢
      omega
    | toClient =>
      rw [Net.toServer_setChannel_toClient, Net.toClient_setChannel_toClient, Function.update_self]
      rw [Net.channel] at hlength ⊢
      omega
  · have hij : i ≠ j := Ne.symm hji
    rw [Traffic.count, if_neg hji]
    cases direction with
    | toServer =>
      rw [Net.toServer_setChannel_toServer, Net.toClient_setChannel_toServer,
        Function.update_of_ne hij]
      exact hbalance
    | toClient =>
      rw [Net.toServer_setChannel_toClient, Net.toClient_setChannel_toClient,
        Function.update_of_ne hij]
      exact hbalance

/-- **Every step** keeps the balance. -/
theorem Balance.step (h : Balance i net t) (haddressed : Addressed up net)
    (hhosts : DifferentHosts up) (hstep : netStep crc opts up net action = some net') :
    Balance i net' (t.count i net action) := by
  cases netStep_cases hstep with
  | client hevent hmove => exact h.client haddressed hevent hmove
  | clientReceive hchannel hmove => exact h.clientReceive hchannel hmove
  | serverReceive hstatus hchannel => exact h.serverReceive haddressed hhosts hstatus hchannel
  | fault => exact h.fault

/-- What holds in every run. -/
theorem balance_of_reaches {fs₀ : FileSystem} {ok : Net ι × Traffic → Action ι → Prop}
    (hhosts : DifferentHosts up)
    (hrun : Reaches (trafficStep crc opts up i) ok (Net.initial up crc fs₀, ⟨0, 0, 0⟩) (net, t)) :
    Addressed up net ∧ Balance i net t := by
  refine hrun.invariant (I := fun x => Addressed up x.1 ∧ Balance i x.1 x.2)
    ⟨.initial crc fs₀, .initial crc fs₀⟩ ?_
  intro x action x' h _ hstep
  obtain ⟨net', hnet, rfl⟩ := Option.map_eq_some_iff.mp hstep
  exact ⟨h.1.step hnet, h.2.step h.1 hhosts hnet⟩

end

theorem differentHosts_unit (u : Upload) : DifferentHosts fun _ : Unit => u :=
  Function.injective_of_subsingleton _

end Rechnernetze.Bft
