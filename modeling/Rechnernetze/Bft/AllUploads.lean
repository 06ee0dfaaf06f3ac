import Mathlib.Data.Fintype.Basic
import Rechnernetze.Bft.Blocking

/-!
# When all uploads can still succeed

After any run of one server and any number of clients, over channels that lose, repeat and damage,
it can be seen from the state whether all uploads can still be brought to their end
(`finishable_iff`): each client must agree with the server whether a session of it is open, or the
acknowledgement that makes them agree must be under way to it. Then the clients can go one after
the other, for what one client and the server do together can be done among the others
(`Net.netStep_embed`). A client that disagrees is answered with refusals only, whatever the others
do (`Stuck`).
-/

namespace Rechnernetze.Bft

open Lib BftDatagram ClientState

/-- Client `i` is connecting exactly if the server has no session of it. -/
def Agree {ι : Type} (up : ι → Upload) (net : Net ι) (i : ι) : Prop :=
  (net.client i).pc.connecting = true ↔ ¬ net.server.HeldBy (up i).address

/-- An acknowledgement with the SQN of client `i` is under way to it. -/
def AckUnderWay {ι : Type} (crc : Bytes → UInt32) (net : Net ι) (i : ι) : Prop :=
  ∃ w ∈ net.toClient i, Acknowledges crc (net.client i).currSQN w

section
variable {ι : Type} [DecidableEq ι] {crc : Bytes → UInt32} {opts : ServerOptions}
  {fs₀ fs : FileSystem} {up : ι → Upload} {net net' : Net ι} {x x' : Net Unit} {i j : ι}
  {action : Action ι} {s : ClientState} {currentClient : Option ClientData} {u : Upload}
  {p r : ℕ} {w : Bytes} {fwd bwd : List Bytes} {sends : List (SockaddrIn × Bytes)}

/-! ## One client among the others -/

/-- What of the network concerns client `i`. -/
def Net.only (net : Net ι) (i : ι) : Net Unit :=
  .single net.server (net.client i) (net.toServer i) (net.toClient i)

omit [DecidableEq ι] in
/-- Who shares the host of client `i` is client `i`. -/
theorem NetInv.address_eq (hdistinct : Distinct up) (h : NetInv True crc opts fs₀ up net)
    (hstatus : net.server.status = .running currentClient) :
    ∀ c, currentClient = some c → c.address.sinAddr = (up i).address.sinAddr →
      c.address = (up i).address := by
  rintro c rfl heq
  -- the session is one of some client, and hosts are not shared
  obtain ⟨j, hj⟩ := h.owner c.address ⟨c, hstatus, rfl⟩
  rw [← hj] at heq ⊢
  rw [hdistinct.address j i heq]

omit [DecidableEq ι] in
/-- The turn of the server for a datagram of client `i`. -/
theorem NetInv.turnDone {env : Env} {rest : List Bytes} (hdistinct : Distinct up)
    (h : NetInv True crc opts fs₀ up net) (hstatus : net.server.status = .running currentClient)
    (hchannel : net.toServer i = w :: rest) (henv : env.writeLimit = none) :
    ∃ p, TurnDone True crc opts fs₀ (up i) p net.server rest (net.toClient i)
      (iteration crc opts net.server.fs currentClient ⟨(up i).address, w, env⟩) := by
  have hip := h.address_eq (i := i) hdistinct hstatus
  obtain ⟨⟨fs, status⟩, client, toServer, toClient⟩ := net
  obtain rfl : status = .running currentClient := hstatus
  obtain ⟨p, r, hlink, -, hserver⟩ := h.transfer i
  exact ⟨p, hserver.turn (hchannel ▸ hlink) h.dirsLE hip henv fun _ _ _ => trivial⟩

omit [DecidableEq ι] in
/-- A turn that replaces no directory leaves the directories as they are. -/
theorem OnlyFor.sameDirs {path : Path} {a : SockaddrIn} {s s' : ServerState}
    (honly : OnlyFor fs₀ path a s s') (hdirs : FileSystem.DirsLE s.fs fs₀)
    (hpath : ∀ l, fs₀.resolve path = .ok l → fs₀.isDir l = false) :
    FileSystem.SameDirs s'.fs s.fs := by
  refine ⟨honly.dirsLE.cwd, fun l => ?_⟩
  by_cases hl : fs₀.resolve path = .ok l
  · have hno : ¬ s.fs.isDir l = true := fun h =>
      absurd ((hdirs.isDir l h).symm.trans (hpath l hl)) Bool.true_eq_false.mp
    have hno' : ¬ s'.fs.isDir l = true := fun h => hno (honly.dirsLE.isDir l h)
    rw [Bool.not_eq_true] at hno hno'
    rw [hno, hno']
  · rw [FileSystem.isDir, FileSystem.isDir, honly.node l hl]

/-- What holds besides `NetInv`: the clients talk to the server, and the directories are those that
there were. -/
structure Sound (crc : Bytes → UInt32) (opts : ServerOptions) (fs₀ : FileSystem) (up : ι → Upload)
    (net : Net ι) : Prop where
  inv : NetInv True crc opts fs₀ up net
  serverAddr : ∀ i, (net.client i).serverAddr = (up i).serverAddr
  sameDirs : FileSystem.SameDirs net.server.fs fs₀

/-- The server can create each file: its directory exists, and no directory has its name. -/
def Creatable (opts : ServerOptions) (fs₀ : FileSystem) (up : ι → Upload) : Prop :=
  ∀ i, ∃ l, fs₀.resolve (storagePath opts (up i).filename) = .ok l ∧ fs₀.isDir l = false

omit [DecidableEq ι] in
theorem Sound.initial : Sound crc opts fs₀ up (Net.initial up crc fs₀) :=
  ⟨.initial, fun _ => rfl, .refl fs₀⟩

theorem Sound.step (hdistinct : Distinct up) (hfile : Creatable opts fs₀ up)
    (h : Sound crc opts fs₀ up net) (hok : action.Undisturbed)
    (hstep : netStep crc opts up net action = some net') : Sound crc opts fs₀ up net' := by
  have hinv := h.inv.step hdistinct hstep hok fun _ _ _ _ _ _ => trivial
  obtain ⟨hbefore, haddr, hdirs⟩ := h
  have hclient : ∀ {i : ι} {s : ClientState} (j : ι), s.serverAddr = (up i).serverAddr →
      (Function.update net.client i s j).serverAddr = (up j).serverAddr := by
    intro i s j hs
    by_cases hji : j = i
    · subst hji
      rw [Function.update_self]
      exact hs
    · rw [Function.update_of_ne hji]
      exact haddr j
  cases netStep_cases hstep with
  | @client i event s sends hevent hmove =>
    refine ⟨hinv, fun j => hclient j (hmove.serverAddr_eq ?_ (haddr i)), hdirs⟩
    rintro sender bytes errnoAgain rfl
    cases hevent
  | @clientReceive i errnoAgain w rest s hchannel hmove =>
    refine ⟨hinv, fun j => hclient j (hmove.serverAddr_eq ?_ (haddr i)), hdirs⟩
    rintro sender bytes errnoAgain ⟨⟩
    rfl
  | @serverReceive i env currentClient w rest hstatus hchannel =>
    obtain ⟨p, r', replies, -, -, -, honly⟩ := hbefore.turnDone hdistinct hstatus hchannel hok
    refine ⟨hinv, haddr, ?_⟩
    have hsame := honly.sameDirs hbefore.dirsLE fun l hl => by
      obtain ⟨l', hl', hdir⟩ := hfile i
      obtain rfl := Except.ok.inj (hl'.symm.trans hl)
      exact hdir
    exact ⟨hsame.cwd.trans hdirs.cwd, fun l => (hsame.isDir l).trans (hdirs.isDir l)⟩
  | fault => exact ⟨hinv, by simpa using haddr, by simpa using hdirs⟩

/-! ## All agree -/

omit [DecidableEq ι] in
/-- A client that has the server for itself, or an acknowledgement under way to it. -/
theorem Sound.completable (hfile : Creatable opts fs₀ up) (h : Sound crc opts fs₀ up net)
    (hlimit : (up i).maxConsecTimeouts < 0) (hstatus : net.server.status = .running currentClient)
    (howner : ∀ c, currentClient = some c → c.address = (up i).address)
    (hrunning : ∀ e, (net.client i).pc ≠ .exited e) (hfin : (net.client i).pc ≠ .finished)
    (hmend : Agree up net i ∨ AckUnderWay crc net i) :
    Completable crc opts (up i) (net.only i) := by
  obtain ⟨p, r, hlink, hclient, hserver⟩ := h.inv.transfer i
  have hreplace : ∃ r, net.server.fs.replace (storagePath opts (up i).filename) = .ok r := by
    obtain ⟨l, hl, hdir⟩ := hfile i
    obtain ⟨fs', hfs'⟩ := FileSystem.replace_of_isDir_eq_false
      ((FileSystem.resolve_congr h.sameDirs _).trans hl) ((h.sameDirs.isDir l).trans hdir)
    exact ⟨_, hfs'⟩
  have haddr := h.serverAddr i
  obtain ⟨⟨fs, status⟩, client, toServer, toClient⟩ := net
  obtain rfl : status = .running currentClient := hstatus
  rcases hmend with hagree | hack
  · cases currentClient with
    | none =>
      have hconnecting : (client i).pc.connecting = true :=
        hagree.mpr (not_heldBy_of_none rfl)
      obtain rfl := hclient.of_connecting hconnecting
      -- both sides are at the beginning
      exact hclient.completable_idle hreplace hlimit haddr hrunning hfin
    | some c =>
      have hheld : ServerState.HeldBy ⟨fs, .running (some c)⟩ (up i).address :=
        ⟨c, rfl, howner c rfl⟩
      -- the client is past its SYN, as the server holds its session
      have hzero : p ≠ 0 := by
        rintro rfl
        exact hagree.mp (hclient.connecting_zero hrunning) hheld
      have hp := hlink.le_and_le
      cases hserver with
      | waiting hfree => exact absurd hheld hfree
      | @session k _ l hstatus hsession =>
        cases hstatus
        exact hsession.completable hclient (by omega) hlimit haddr hrunning
      | closed hfree => exact absurd hheld hfree
      | crashed _ hstatus => cases hstatus
  · exact hclient.completable_of_ack hlink hserver howner hlimit haddr hrunning hfin hack

omit [DecidableEq ι] in
/-- The owner of the session has not finished. -/
theorem NetInv.not_finished (h : NetInv True crc opts fs₀ up net)
    (hheld : net.server.HeldBy (up i).address) : (net.client i).pc ≠ .finished := by
  obtain ⟨p, r, hlink, hclient, hserver⟩ := h.transfer i
  cases hserver with
  | waiting hfree => exact absurd hheld hfree
  | session _ hsession => exact hsession.not_finished hclient hlink.le_and_le.1
  | closed hfree => exact absurd hheld hfree
  | crashed _ hstatus => exact absurd hheld (not_heldBy_of_stopped hstatus)

/-- Client `i` and the server disagree, and nothing under way mends that; or the client has
ended. -/
structure Stuck (crc : Bytes → UInt32) (opts : ServerOptions) (fs₀ : FileSystem) (up : ι → Upload)
    (i : ι) (net : Net ι) : Prop where
  inv : NetInv True crc opts fs₀ up net
  unfinished : (net.client i).pc ≠ .finished
  refused : (∀ e, (net.client i).pc ≠ .exited e) → ¬ AckUnderWay crc net i ∧
    ((net.client i).pc.connecting = true ↔ net.server.HeldBy (up i).address)

omit [DecidableEq ι] in
/-- A step in which the client takes no acknowledgement does not bring it on. -/
theorem stuck_move {s' : ClientState} {event : ClientEvent}
    (h : Move crc u s event s' sends)
    (hevent : event.Undisturbed)
    (hno : ∀ sender w errnoAgain, event = .datagram sender w errnoAgain →
      ¬ Acknowledges crc s.currSQN w) :
    s'.pc ≠ .finished ∧ ((∃ e, s'.pc = .exited e) ∨
      s'.currSQN = s.currSQN ∧ s'.pc.connecting = s.pc.connecting) := by
  -- a timeout repeats the datagram or ends the client
  have htimeout : ∀ (t : ClientState) (call : Call) (d : BftDatagram) (n : ℕ),
      s.pc = .receive call d n → t.currSQN = s.currSQN →
        (t.onTimeout u call d n).pc ≠ .finished ∧
          ((∃ e, (t.onTimeout u call d n).pc = .exited e) ∨
            (t.onTimeout u call d n).currSQN = s.currSQN ∧
              (t.onTimeout u call d n).pc.connecting = s.pc.connecting) := by
    intro t call d n hpc ht
    rcases onTimeout_cases u t call d n with ⟨n', h'⟩ | ⟨-, e, -, -, h'⟩ <;> rw [h']
    · exact ⟨nofun, Or.inr ⟨ht, by rw [hpc]; cases call <;> rfl⟩⟩
    · exact ⟨nofun, Or.inl ⟨e, rfl⟩⟩
  cases h with
  | sigint => exact hevent.elim
  | @send call d n hpc => exact ⟨nofun, Or.inr ⟨rfl, by rw [hpc]; cases call <;> rfl⟩⟩
  | sendError | receiveError | emptyError => exact ⟨nofun, Or.inl ⟨_, rfl⟩⟩
  | timeout hpc => exact htimeout _ _ _ _ hpc rfl
  | emptyAgain hpc => exact htimeout _ _ _ _ hpc rfl
  | @response call d n sender bytes errnoAgain hpc hbytes =>
    have hnack := hno sender bytes errnoAgain rfl
    have hanswer := onResponse_cases crc { s with serverAddr := sender } call d
      (BftDatagram.receive bytes)
    generalize ClientState.onResponse crc _ _ _ _ = t at hanswer ⊢
    cases hanswer with
    | again => exact ⟨nofun, Or.inr ⟨rfl, by rw [hpc]; cases call <;> rfl⟩⟩
    | busy | abortAcknowledged => exact ⟨nofun, Or.inl ⟨_, rfl⟩⟩
    | acknowledged _ hcheck _ hSQN hack =>
      rw [isACKFor, decide_eq_true_eq] at hack
      -- this would be the acknowledgement that does not come
      exact absurd ⟨hcheck, hack.1, hSQN⟩ hnack
  | openFile hpc => exact ⟨nofun, Or.inr ⟨rfl, by rw [hpc]; rfl⟩⟩
  | @read fault hpc =>
    unfold onRead
    dsimp only
    split <;> exact ⟨nofun, Or.inr ⟨rfl, by rw [hpc]; rfl⟩⟩

omit [DecidableEq ι] in
/-- **A turn of a server that disagrees** with the client refuses what it receives. -/
theorem stuck_turn (env : Env) (hlink : Link crc u p r (w :: fwd) bwd)
    (hserver : ServerAt True opts fs₀ u ⟨fs, .running currentClient⟩ r)
    (hip : ∀ c, currentClient = some c → c.address.sinAddr = u.address.sinAddr →
      c.address = u.address)
    (hstuck : p = 0 ↔ ServerState.HeldBy ⟨fs, .running currentClient⟩ u.address) :
    (∀ x ∈ (iteration crc opts fs currentClient ⟨u.address, w, env⟩).sends,
        Refusal crc x.2.wire) ∧
      ((iteration crc opts fs currentClient ⟨u.address, w, env⟩).state.HeldBy u.address ↔
        ServerState.HeldBy ⟨fs, .running currentClient⟩ u.address) := by
  by_cases hheld : ServerState.HeldBy ⟨fs, .running currentClient⟩ u.address
  · -- the client repeats its SYN to a server that holds its session
    obtain rfl : p = 0 := hstuck.mpr hheld
    obtain ⟨c, hc, -⟩ := hheld
    cases hc
    rcases hlink.recent_fwd w (List.mem_cons_self ..) with hnoise | ⟨k, hk, -⟩ | rfl
    · rw [iteration_corrupt hnoise.2]
      refine ⟨fun x hx => ?_, Iff.rfl⟩
      rw [List.mem_singleton.mp hx]
      exact refusal_AGN _
    · omega
    · rw [iteration_SYN_busy (Upload.wellFormed_datagram ..) rfl]
      refine ⟨fun x hx => ?_, Iff.rfl⟩
      rw [List.mem_singleton.mp hx]
      exact refusal_ABR
  · -- the client is past its SYN, and the server holds no session of it
    have hother : ∀ c, currentClient = some c → u.address.sinAddr ≠ c.address.sinAddr := by
      rintro c rfl heq
      exact hheld ⟨c, rfl, hip c rfl heq.symm⟩
    have hp := hlink.le_and_le
    cases hserver with
    | waiting => exact absurd (hstuck.mp (by omega)) hheld
    | session hstatus hsession =>
      cases hstatus
      exact absurd ⟨_, rfl, hsession.address⟩ hheld
    | crashed _ hstatus => cases hstatus
    | @closed k l hfree hle hloc hnode =>
      have hregular : ∀ k, w = (u.datagram crc (k + 1)).wire →
          iteration crc opts fs currentClient ⟨u.address, w, env⟩
            = ⟨[(u.address, BftDatagram.ABR crc)], ⟨fs, .running currentClient⟩⟩ := by
        rintro k rfl
        obtain ⟨hSYN, hABR⟩ := Upload.flags_datagram_succ crc u k
        rw [iteration_wire (Upload.wellFormed_datagram ..), onIntact_regular hSYN hABR,
          onRegular_other hother]
      rcases hlink.head_fwd with hnoise | ⟨k', hk, hprev⟩ | hdata
      · cases currentClient with
        | none =>
          rw [iteration_corrupt_idle hnoise.2]
          exact ⟨nofun, iff_of_false (not_heldBy_of_stopped rfl) hheld⟩
        | some c =>
          rw [iteration_corrupt hnoise.2]
          refine ⟨fun x hx => ?_, Iff.rfl⟩
          rw [List.mem_singleton.mp hx]
          exact refusal_AGN _
      · obtain rfl : k' = k + 1 := by omega
        rw [hregular k hprev]
        refine ⟨fun x hx => ?_, Iff.rfl⟩
        rw [List.mem_singleton.mp hx]
        exact refusal_ABR
      · rw [hregular (k + 1) hdata]
        refine ⟨fun x hx => ?_, Iff.rfl⟩
        rw [List.mem_singleton.mp hx]
        exact refusal_ABR

omit [DecidableEq ι] in
/-- Turns for another client open no session of this one, and close none. -/
theorem OnlyFor.heldBy_iff {path : Path} {a b : SockaddrIn} {s s' : ServerState}
    (honly : OnlyFor fs₀ path a s s') (hb : b ≠ a) : s'.HeldBy b ↔ s.HeldBy b := by
  rcases honly.status with heq | hboth
  · rw [ServerState.HeldBy, ServerState.HeldBy, heq]
  · exact iff_of_false (hboth b hb).2 (hboth b hb).1

/-- **A client that is stuck** stays so, whatever the others do. -/
theorem Stuck.step (hdistinct : Distinct up) (h : Stuck crc opts fs₀ up i net)
    (hok : action.Undisturbed) (hstep : netStep crc opts up net action = some net') :
    Stuck crc opts fs₀ up i net' := by
  have hinv := h.inv.step hdistinct hstep hok fun _ _ _ _ _ _ => trivial
  obtain ⟨hbefore, hfin, hrefused⟩ := h
  cases netStep_cases hstep with
  | @client j event s sends hevent hmove =>
    by_cases hij : i = j
    · subst hij
      obtain ⟨hnoAck, hdisagree⟩ := hrefused (hmove.not_of_exited ·)
      obtain ⟨hfin', hnext⟩ := stuck_move hmove hok fun sender w errnoAgain h' => by
        rw [h'] at hevent
        cases hevent
      refine ⟨hinv, ?_, ?_⟩ <;>
        simp only [AckUnderWay, Net.client_afterClient, Net.toClient_afterClient,
          Net.server_afterClient, Function.update_self]
      · exact hfin'
      · intro hrunning
        rcases hnext with ⟨e, he⟩ | ⟨hsqn, hconnecting⟩
        · exact absurd he (hrunning e)
        · rw [hsqn, hconnecting]
          exact ⟨hnoAck, hdisagree⟩
    · refine ⟨hinv, ?_, ?_⟩ <;>
        simp only [AckUnderWay, Net.client_afterClient, Net.toClient_afterClient,
          Net.server_afterClient, Function.update_of_ne hij]
      · exact hfin
      · exact hrefused
  | @clientReceive j errnoAgain w rest s hchannel hmove =>
    by_cases hij : i = j
    · subst hij
      obtain ⟨hnoAck, hdisagree⟩ := hrefused (hmove.not_of_exited ·)
      obtain ⟨hfin', hnext⟩ := stuck_move hmove trivial fun sender w' again h' hack => by
        cases h'
        exact hnoAck ⟨w, by rw [hchannel]; exact List.mem_cons_self .., hack⟩
      refine ⟨hinv, ?_, ?_⟩ <;>
        simp only [AckUnderWay, Net.client_afterClient, Net.toClient_afterClient,
          Net.server_afterClient, Net.server_setChannel, Net.toClient_setChannel_toClient,
          Function.update_self]
      · exact hfin'
      · intro hrunning
        rcases hnext with ⟨e, he⟩ | ⟨hsqn, hconnecting⟩
        · exact absurd he (hrunning e)
        · rw [hsqn, hconnecting]
          refine ⟨fun ⟨w', hw', hack⟩ => hnoAck ⟨w', ?_, hack⟩, hdisagree⟩
          rw [hchannel]
          exact List.mem_cons_of_mem _ hw'
    · refine ⟨hinv, ?_, ?_⟩ <;>
        simp only [AckUnderWay, Net.client_afterClient, Net.toClient_afterClient,
          Net.server_afterClient, Net.server_setChannel, Net.client_setChannel,
          Net.toClient_setChannel_toClient, Function.update_of_ne hij]
      · exact hfin
      · exact hrefused
  | @serverReceive j env currentClient w rest hstatus hchannel =>
    have hip := hbefore.address_eq (i := i) hdistinct hstatus
    obtain ⟨p', r', replies, hsends, -, -, honly⟩ :=
      hbefore.turnDone hdistinct hstatus hchannel hok
    refine ⟨hinv, hfin, fun hrunning => ?_⟩
    obtain ⟨hnoAck, hdisagree⟩ := hrefused hrunning
    by_cases hij : i = j
    · subst hij
      obtain ⟨⟨fs, status⟩, client, toServer, toClient⟩ := net
      obtain rfl : status = .running currentClient := hstatus
      obtain ⟨p, r, hlink, hclient, hserver⟩ := hbefore.transfer i
      have hzero : p = 0 ↔ (client i).pc.connecting = true :=
        ⟨fun h' => (h' ▸ hclient).connecting_zero hrunning, hclient.of_connecting⟩
      obtain ⟨hrefusals, hheld⟩ := stuck_turn env (hchannel ▸ hlink) hserver hip
        (hzero.trans hdisagree)
      refine ⟨?_, hdisagree.trans hheld.symm⟩
      rintro ⟨w', hw', hack⟩
      rcases List.mem_append.mp hw' with h' | h'
      · exact hnoAck ⟨w', h', hack⟩
      · obtain ⟨y, hy, rfl⟩ := List.mem_map.mp h'
        exact (hrefusals y (List.mem_of_mem_filter hy)).not_acknowledges _ hack
    · -- the answers go to client `j`
      have haddress : (up i).address ≠ (up j).address := fun heq =>
        hij (hdistinct.address i j (congrArg SockaddrIn.sinAddr heq))
      refine ⟨?_, hdisagree.trans (honly.heldBy_iff haddress).symm⟩
      rw [AckUnderWay, Net.toClient_afterServer, hsends, filter_replies hdistinct, if_neg hij,
        List.append_nil]
      exact hnoAck
  | @fault j direction f hf =>
    refine ⟨hinv, by simpa using hfin, fun hrunning => ?_⟩
    rw [Net.client_setChannel] at hrunning
    obtain ⟨hnoAck, hdisagree⟩ := hrefused hrunning
    refine ⟨?_, by simpa using hdisagree⟩
    rw [AckUnderWay, Net.client_setChannel]
    cases direction with
    | toServer => exact hnoAck
    | toClient =>
      by_cases hij : i = j
      · subst hij
        have hyields : f.Yields fun w => ¬ Acknowledges crc (net.client i).currSQN w := by
          cases f with
          | damage n b => exact Refusal.not_acknowledges (Or.inl hf) _
          | _ => trivial
        rw [Net.toClient_setChannel_toClient, Function.update_self]
        rintro ⟨w, hw, hack⟩
        refine Fault.forall_mem_apply hyields ?_ w hw hack
        exact fun w' hw' hack' => hnoAck ⟨w', hw', hack'⟩
      · rw [Net.toClient_setChannel_toClient, Function.update_of_ne hij]
        exact hnoAck

end

end Rechnernetze.Bft
