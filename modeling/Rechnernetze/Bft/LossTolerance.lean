import Rechnernetze.Bft.PayloadReads
import Rechnernetze.Bft.Storage
import Rechnernetze.Bft.TransferTheorems

/-!
# What a client and a server survive

Where neither file nor socket fails and the client may retransmit without limit, a run of one
client against one server ends in no failure as long as no damaged datagram announces more than a
payload and the server's answers to a repeated SYN, to a repeated FIN and to a damaged datagram
without a session are not needed (`loss_tolerance`). They are needed as soon as the
acknowledgement of the SYN is lost (`lost_acknowledgement_ends_upload`): the server refuses its
own client.
-/

namespace Rechnernetze.Bft

open Lib BftDatagram

/-- No interrupt, and no failure of a file or a socket, in this step. -/
def Action.NoIOError : Action Unit → Prop
  | .client _ event => event.Undisturbed ∧ event ≠ .sendto false ∧ event ≠ .receiveError
  | .serverReceive _ env => env.NoIOError
  | _ => True

/-- Moreover nothing that arrives announces more than a payload, the idle server receives an
intact SYN only and the server with a session no intact SYN, it does not divide by zero when it
logs, and no empty datagram reaches the client while `errno` holds something else than
`EAGAIN`. -/
def Untroubled (crc : Bytes → UInt32) (u : Upload) (net : Net Unit) (action : Action Unit) :
    Prop :=
  action.NoIOError ∧
    match action with
    | .serverReceive i env => ∀ w rest, net.toServer i = w :: rest →
        announcedSize w ≤ maxPayloadSize ∧
        (net.server.status = .running none ↔
          (receive w).checkIntegrity crc = true ∧ (receive w).flags = Flags.SYN) ∧
        ∀ c, net.server.status = .running (some c) → Accepts crc c ⟨u.address, w, env⟩ →
          (receive w).getFlags &&& Flags.FIN = Flags.FIN ∨ c.fileWriter.LogDue env →
          ¬ c.fileWriter.LogFails env
    | .clientReceive i errnoAgain => ∀ w rest, net.toClient i = w :: rest →
        announcedSize w ≤ maxPayloadSize ∧ (w ≠ [] ∨ errnoAgain = true)
    | _ => True

/-- The datagrams whose payload is read in this step. -/
def netReads (crc : Bytes → UInt32) (opts : ServerOptions) (u : Upload) (net : Net Unit) :
    Action Unit → List BftDatagram
  | .client i event => if event.isDatagram then [] else clientReads (net.client i) event
  | .clientReceive i errnoAgain =>
    match net.toClient i with
    | [] => []
    | w :: _ => clientReads (net.client i) (.datagram u.serverAddr w errnoAgain)
  | .serverReceive i env =>
    match net.server.status, net.toServer i with
    | .running currentClient, w :: _ =>
      serverReads crc opts net.server.fs currentClient ⟨u.address, w, env⟩
    | _, _ => []
  | .fault .. => []

/-- The client would take the datagram for the refusal of a busy server. -/
def LooksBusy (crc : Bytes → UInt32) (w : Bytes) : Prop :=
  (receive w).checkIntegrity crc = true ∧ (receive w).getFlags &&& Flags.ABR = Flags.ABR ∧
    (receive w).getSQN = false

/-- Nothing has failed. -/
structure NoFailure (crc : Bytes → UInt32) (net : Net Unit) : Prop where
  client : ∀ e, (net.client ()).pc ≠ .exited e
  server : ∀ cause, net.server.status ≠ .stopped cause
  toClient : ∀ w ∈ net.toClient (), ¬ LooksBusy crc w

/-- The server can serve the upload `u`: the file of its session is open, and the path of `u`
can be replaced by a new file now or when the session has ended. -/
structure Serving (opts : ServerOptions) (u : Upload) (s : ServerState) : Prop where
  fileOpen : ∀ c, s.status = .running (some c) → FileOpen s.fs c
  idle : s.status = .running none →
    ∃ r, s.fs.replace (storagePath opts u.filename) = .ok r
  busy : ∀ c, s.status = .running (some c) →
    ∃ l, s.fs.resolve (storagePath opts u.filename) = .ok l ∧ s.fs.isDir l = false

section
variable {crc : Bytes → UInt32} {opts : ServerOptions} {fs₀ fs fs' : FileSystem} {u : Upload}
  {net net' : Net Unit} {action : Action Unit} {s : ServerState} {w : Bytes} {d : BftDatagram}
  {currentClient : Option ClientData} {c : ClientData} {env : Env} {out : Outcome}

theorem not_looksBusy_of_flags (hd : d.WellFormed crc)
    (hflags : d.flags &&& Flags.ABR ≠ Flags.ABR) : ¬ LooksBusy crc d.wire := by
  rintro ⟨-, hABR, -⟩
  rw [hd.receive_wire] at hABR
  exact hflags hABR

theorem not_looksBusy_AGN (sqn : Bool) : ¬ LooksBusy crc (ofFlags crc Flags.AGN sqn).wire := by
  refine not_looksBusy_of_flags (wellFormed_init ..) ?_
  show (if sqn then Flags.AGN ||| Flags.SQN else Flags.AGN) &&& Flags.ABR ≠ Flags.ABR
  cases sqn <;> decide

theorem not_looksBusy_ACK (k : ℕ) :
    ¬ LooksBusy crc ((u.datagram crc k).createACK crc).wire :=
  not_looksBusy_of_flags (wellFormed_createACK _) (Upload.flags_datagram crc u k).2

/-- What an intact datagram of the upload is. -/
theorem receive_of_intact (hw : Damaged crc w ∨ ∃ k, w = (u.datagram crc k).wire)
    (hcheck : (receive w).checkIntegrity crc = true) : ∃ k, receive w = u.datagram crc k := by
  rcases hw with hw | ⟨k, rfl⟩
  · rw [hw.2] at hcheck
    cases hcheck
  · exact ⟨k, (Upload.wellFormed_datagram crc u k).receive_wire⟩

/-- The only SYN of the upload carries its name. -/
theorem filename_of_SYN (hw : Damaged crc w ∨ ∃ k, w = (u.datagram crc k).wire)
    (hcheck : (receive w).checkIntegrity crc = true) (hSYN : (receive w).flags = Flags.SYN) :
    (receive w).getPayloadAsString = u.filename := by
  obtain ⟨k, hk⟩ := receive_of_intact hw hcheck
  rw [hk] at hSYN ⊢
  cases k with
  | zero => exact getPayload_init ..
  | succ k => exact absurd hSYN (Upload.flags_datagram_succ crc u k).1

theorem flags_datagram_ne_ABR (k : ℕ) : (u.datagram crc k).flags ≠ Flags.ABR := by
  cases k with
  | zero => exact fun h => absurd h (by decide : Flags.SYN ≠ Flags.ABR)
  | succ k => exact (Upload.flags_datagram_succ crc u k).2

/-- Between two turns of the session only the contents of files have changed. -/
theorem Serving.of_sameDirs (h : Serving opts u ⟨fs, .running (some c)⟩)
    (hdirs : FileSystem.SameDirs fs' fs) {c' : ClientData} (hopen : FileOpen fs' c') :
    Serving opts u ⟨fs', .running (some c')⟩ := by
  obtain ⟨l, hl, hdir⟩ := h.busy c rfl
  refine ⟨?_, nofun, fun _ _ => ⟨l, ?_, ?_⟩⟩
  · rintro _ ⟨⟩
    exact hopen
  · rw [FileSystem.resolve_congr hdirs, hl]
  · rw [hdirs.isDir, hdir]

/-- What a turn leaves if nothing fails: a server that serves on, and no refusal. -/
def ServedOn (crc : Bytes → UInt32) (opts : ServerOptions) (u : Upload) (out : Outcome) : Prop :=
  Serving opts u out.state ∧ (∀ cause, out.state.status ≠ .stopped cause) ∧
    ∀ x ∈ out.sends, ¬ LooksBusy crc x.2.wire

theorem ServedOn.of_reply {a : SockaddrIn} {fs : FileSystem}
    (h : Serving opts u ⟨fs, .running currentClient⟩) (hd : ¬ LooksBusy crc d.wire) :
    ServedOn crc opts u ⟨[(a, d)], ⟨fs, .running currentClient⟩⟩ := by
  refine ⟨h, nofun, fun x hx => ?_⟩
  rw [List.mem_singleton.mp hx]
  exact hd

/-- **One turn of the server** for a damaged datagram or one of the upload. -/
theorem Serving.turn (h : Serving opts u ⟨fs, .running currentClient⟩)
    (hw : Damaged crc w ∨ ∃ k, w = (u.datagram crc k).wire) (henv : env.NoIOError)
    (howner : ∀ c, currentClient = some c → c.address = u.address)
    (hidle : currentClient = none ↔
      (receive w).checkIntegrity crc = true ∧ (receive w).flags = Flags.SYN)
    (hlog : ∀ c, currentClient = some c → Accepts crc c ⟨u.address, w, env⟩ →
      (receive w).getFlags &&& Flags.FIN = Flags.FIN ∨ c.fileWriter.LogDue env →
      ¬ c.fileWriter.LogFails env)
    (hturn : Turn crc opts fs ⟨u.address, w, env⟩ currentClient out) :
    ServedOn crc opts u out := by
  -- what is acknowledged is a datagram of the upload
  have hack : (receive w).checkIntegrity crc = true →
      ¬ LooksBusy crc ((receive w).createACK crc).wire := by
    intro hcheck
    obtain ⟨k, hk⟩ := receive_of_intact hw hcheck
    rw [hk]
    exact not_looksBusy_ACK k
  have hnoABR : (receive w).checkIntegrity crc = true → (receive w).flags ≠ Flags.ABR := by
    intro hcheck
    obtain ⟨k, hk⟩ := receive_of_intact hw hcheck
    rw [hk]
    exact flags_datagram_ne_ABR k
  cases hturn with
  | nullDereference hcheck =>
    rw [(hidle.mp rfl).1] at hcheck
    cases hcheck
  | again hcheck => exact .of_reply h (not_looksBusy_AGN _)
  -- the file has been created where the storage path leads
  | @opened fs' l hcheck hSYN hcreated =>
    refine .of_reply ⟨?_, nofun, fun _ _ => ⟨l, ?_, ?_⟩⟩ (hack hcheck)
    · rintro _ ⟨⟩
      exact .of_created hcreated _ _
    · rw [← filename_of_SYN hw hcheck hSYN]
      exact hcreated.resolve_after
    · simp [FileSystem.isDir, hcreated.node_eq]
  | notOpened hcheck hSYN he hwhy =>
    -- the path can be replaced, so the SYN opens a session
    obtain ⟨r, hr⟩ := h.idle rfl
    rw [← filename_of_SYN hw hcheck hSYN] at hr
    exact absurd hr (hwhy r henv.1)
  | busy hcheck hSYN => cases hidle.mpr ⟨hcheck, hSYN⟩
  | abortIgnored hcheck hABR => exact absurd hABR (hnoABR hcheck)
  | aborted hcheck hABR => exact absurd hABR (hnoABR hcheck)
  | abortFailed hcheck hABR => exact absurd hABR (hnoABR hcheck)
  | refused hcheck hSYN hABR hother =>
    cases currentClient with
    | none => exact absurd (hidle.mp rfl).2 hSYN
    | some c => exact absurd (congrArg SockaddrIn.sinAddr (howner c rfl).symm) (hother c rfl)
  | @duplicate c hcheck =>
    exact .of_reply (h.of_sameDirs (.refl fs) ((h.fileOpen c rfl).congr rfl)) (hack hcheck)
  | @fin c haccept =>
    -- the session ends, and its path can be replaced from now on
    obtain ⟨l, hl, hdir⟩ := h.busy c rfl
    obtain ⟨fs', hreplace⟩ := FileSystem.replace_of_isDir_eq_false hl hdir
    exact .of_reply ⟨nofun, fun _ => ⟨_, hreplace⟩, nofun⟩ (hack haccept.1)
  | @finFailed c haccept hFIN hfails => exact absurd hfails (hlog c rfl haccept (Or.inl hFIN))
  | @written c w' haccept hFIN hdata hpath hstream =>
    have hopen := h.fileOpen c rfl
    rw [henv.2, hopen.write] at hstream ⊢
    exact .of_reply (h.of_sameDirs FileSystem.sameDirs_append (hopen.written hpath hstream))
      (hack haccept.1)
  | @writeFailed c e haccept hdata he hwhy =>
    rcases hwhy with ⟨hdue, hfails⟩ | hclosed
    · exact absurd hfails (hlog c rfl haccept (Or.inr hdue))
    · rw [(h.fileOpen c rfl).isOpen] at hclosed
      cases hclosed
  | @ignored c haccept =>
    exact .of_reply (h.of_sameDirs (.refl fs) ((h.fileOpen c rfl).congr rfl)) (hack haccept.1)

/-! ## The client -/

theorem CallAt.ne_abr {file : IFStream} {p : ℕ} {call : Call} (h : CallAt u file p call) :
    call ≠ .abr := by
  cases h <;> nofun

theorem afterACK_ne_exited {call : Call} (hcall : call ≠ .abr) (e : Exit) :
    ClientState.afterACK call ≠ .exited e := by
  cases call with
  | abr => exact absurd rfl hcall
  | _ => nofun

/-- **A step of the client** ends in no exit if it is not told that the server is busy. -/
theorem ClientAt.not_exited {t t' : ClientState} {p : ℕ} {event : ClientEvent}
    {sends : List (SockaddrIn × Bytes)} (h : ClientAt crc u t p)
    (hlimit : u.maxConsecTimeouts = -1)
    (hmove : ClientState.Move crc u t event t' sends)
    (hevent : event.Undisturbed ∧ event ≠ .sendto false ∧ event ≠ .receiveError)
    (hdatagram : ∀ sender bytes errnoAgain, event = .datagram sender bytes errnoAgain →
      ¬ LooksBusy crc bytes ∧ (bytes ≠ [] ∨ errnoAgain = true)) :
    ∀ e, t'.pc ≠ .exited e := by
  -- the limit of -1 is never reached
  have htimeout : ∀ (a : SockaddrIn) (call : Call) (d : BftDatagram) (n : ℕ),
      t.pc = .receive call d n →
      ∀ e, ({ t with serverAddr := a }.onTimeout u call d n).pc ≠ .exited e := by
    intro a call d n hpc
    have hcall := (h.of_call (Or.inr hpc)).2.1.ne_abr
    rcases ClientState.onTimeout_cases u { t with serverAddr := a } call d n
      with ⟨n', h'⟩ | ⟨hmax, -⟩
    · rw [h']
      nofun
    · have hmax' : ClientState.maxTimeouts u call = u.maxConsecTimeouts := by
        cases call <;> first | rfl | exact absurd rfl hcall
      omega
  cases hmove with
  | sigint => exact hevent.1.elim
  | send => nofun
  | sendError => exact absurd rfl hevent.2.1
  | timeout hpc => exact htimeout t.serverAddr _ _ _ hpc
  | receiveError => exact absurd rfl hevent.2.2
  | @response call d n sender bytes errnoAgain hpc hbytes =>
    have hcall := (h.of_call (Or.inr hpc)).2.1.ne_abr
    have hanswer := ClientState.onResponse_cases crc { t with serverAddr := sender } call d
      (BftDatagram.receive bytes)
    generalize ClientState.onResponse crc _ _ _ _ = t' at hanswer ⊢
    cases hanswer with
    | again =>
      intro e he
      cases he
    | busy _ hcheck hABR hSQN => exact absurd ⟨hcheck, hABR, hSQN⟩ (hdatagram _ _ _ rfl).1
    | acknowledged => exact afterACK_ne_exited hcall
    | abortAcknowledged habr => exact absurd habr hcall
  | emptyAgain hpc => exact htimeout _ _ _ _ hpc
  | emptyError =>
    rcases (hdatagram _ _ _ rfl).2 with h' | h'
    · exact absurd rfl h'
    · cases h'
  | openFile => nofun
  | @read fault =>
    obtain ⟨call, d, -, hpc'⟩ := ClientState.onRead_pc crc u t fault
    rw [hpc']
    nofun

/-! ## The network -/

/-- Nothing has failed, and nothing is about to. -/
structure Healthy (crc : Bytes → UInt32) (opts : ServerOptions) (fs₀ : FileSystem) (u : Upload)
    (net : Net Unit) : Prop where
  inv : NetInv True crc opts fs₀ (fun _ : Unit => u) net
  noFailure : NoFailure crc net
  serving : Serving opts u net.server

theorem Untroubled.undisturbed (h : Untroubled crc u net action) : action.Undisturbed := by
  cases action with
  | client i event => exact h.1.1
  | serverReceive i env => exact h.1.2
  | clientReceive => trivial
  | fault => trivial

theorem Healthy.initial (h : ∃ r, fs₀.replace (storagePath opts u.filename) = .ok r) :
    Healthy crc opts fs₀ u (Net.initial (fun _ => u) crc fs₀) where
  inv := .initial
  noFailure := ⟨nofun, nofun, nofun⟩
  serving := ⟨nofun, fun _ => h, nofun⟩

/-- **Every untroubled step** goes well. -/
theorem Healthy.step (h : Healthy crc opts fs₀ u net) (hlimit : u.maxConsecTimeouts = -1)
    (hok : Untroubled crc u net action)
    (hstep : netStep crc opts (fun _ => u) net action = some net') :
    Healthy crc opts fs₀ u net' := by
  have hinv := h.inv.step (distinct_unit u) hstep hok.undisturbed fun _ _ _ _ _ _ => trivial
  obtain ⟨p, r, hlink, hclient, -⟩ := h.inv.transfer ()
  obtain ⟨hpc, hrunning, hquiet⟩ := h.noFailure
  cases netStep_cases hstep with
  | client hevent hmove =>
    refine ⟨hinv, ⟨?_, hrunning, hquiet⟩, h.serving⟩
    rw [Net.client_afterClient, Net.update_unit]
    refine hclient.not_exited hlimit hmove hok.1 ?_
    rintro sender bytes errnoAgain rfl
    cases hevent
  | @clientReceive i errnoAgain w rest s hchannel hmove =>
    refine ⟨hinv, ⟨?_, hrunning, ?_⟩, h.serving⟩
    · rw [Net.client_afterClient, Net.client_setChannel, Net.update_unit]
      refine hclient.not_exited hlimit hmove ⟨trivial, nofun, nofun⟩ ?_
      rintro sender bytes again ⟨⟩
      refine ⟨hquiet w ?_, (hok.2 w rest hchannel).2⟩
      rw [hchannel]
      exact List.mem_cons_self ..
    · intro w' hw'
      rw [Net.toClient_afterClient, Net.toClient_setChannel_toClient, Net.update_unit] at hw'
      refine hquiet w' ?_
      rw [hchannel]
      exact List.mem_cons_of_mem _ hw'
  | @serverReceive i env currentClient w rest hstatus hchannel =>
    obtain ⟨⟨fs, status⟩, client, toServer, toClient⟩ := net
    obtain rfl : status = .running currentClient := hstatus
    have hw := hlink.forall_fwd w (by rw [hchannel]; exact List.mem_cons_self ..)
    -- there is one client, so the session is its own
    have howner : ∀ c, currentClient = some c → c.address = u.address := by
      rintro c rfl
      obtain ⟨-, ha⟩ := h.inv.owner c.address ⟨c, rfl, rfl⟩
      exact ha.symm
    obtain ⟨-, hidle, hlog⟩ := hok.2 w rest hchannel
    rw [Status.running.injEq] at hidle
    obtain ⟨hserving, hstopped, hreplies⟩ := h.serving.turn hw hok.1 howner hidle
      (fun c hc => hlog c (by rw [hc])) (turn_cases crc opts fs currentClient ⟨u.address, w, env⟩)
    refine ⟨hinv, ⟨hpc, hstopped, ?_⟩, hserving⟩
    intro w' hw'
    rcases List.mem_append.mp hw' with h' | h'
    · exact hquiet w' h'
    · obtain ⟨x, hx, rfl⟩ := List.mem_map.mp h'
      exact hreplies x (List.mem_of_mem_filter hx)
  | @fault i direction f hf =>
    refine ⟨hinv, ⟨?_, ?_, ?_⟩, ?_⟩
    · simpa using hpc
    · simpa using hrunning
    · cases direction with
      | toServer => exact hquiet
      | toClient =>
        rw [Net.toClient_setChannel_toClient, Net.update_unit]
        refine Fault.forall_mem_apply ?_ hquiet
        cases f with
        | damage n b =>
          rintro ⟨hcheck, -⟩
          rw [hf.2] at hcheck
          cases hcheck
        | _ => trivial
    · simpa using h.serving

/-! ## The reads -/

theorem CallAt.ofCall {file : IFStream} {p : ℕ} {call : Call} (h : CallAt u file p call) :
    ClientState.OfCall crc u call (u.datagram crc p) := by
  cases h with
  | syn => rfl
  | data hlt =>
    rw [Upload.datagram_data hlt]
    exact ⟨_, _, rfl⟩
  | fin hle =>
    rw [Upload.datagram_fin hle]
    exact ⟨_, rfl⟩

/-- A client on its way through the upload holds the datagram of its call. -/
theorem ClientAt.inHand {t : ClientState} {p : ℕ} (h : ClientAt crc u t p) :
    ClientState.InHand crc u t.pc := by
  cases hpc : t.pc with
  | send call d n =>
    obtain ⟨rfl, hcall, -⟩ := h.of_call (Or.inl hpc)
    exact hcall.ofCall
  | receive call d n =>
    obtain ⟨rfl, hcall, -⟩ := h.of_call (Or.inr hpc)
    exact hcall.ofCall
  | _ => trivial

/-- **No untroubled step** reads past the payload array. -/
theorem Healthy.reads (h : Healthy crc opts fs₀ u net) (hok : Untroubled crc u net action) :
    ∀ r ∈ netReads crc opts u net action, InBounds r := by
  obtain ⟨p, r, -, hclient, -⟩ := h.inv.transfer ()
  have hreads : ∀ event, (∀ bytes, Receives (net.client ()) event bytes →
      announcedSize bytes ≤ maxPayloadSize) →
      ∀ r ∈ clientReads (net.client ()) event, InBounds r :=
    fun event => (clientReads_inBounds_iff hclient.inHand).mpr
  have hnone : ∀ r ∈ ([] : List BftDatagram), InBounds r :=
    fun _ hr => absurd hr List.not_mem_nil
  cases action with
  | client i event =>
    dsimp only [netReads]
    split
    · exact hnone
    · rename_i hevent
      refine hreads event ?_
      rintro bytes ⟨call, d, k, sender, errnoAgain, -, rfl⟩
      exact absurd rfl hevent
  | clientReceive i errnoAgain =>
    dsimp only [netReads]
    cases hchannel : net.toClient i with
    | nil => exact hnone
    | cons w rest =>
      refine hreads _ ?_
      rintro bytes ⟨call, d, k, sender, errnoAgain, -, hevent⟩
      cases hevent
      exact (hok.2 w rest hchannel).1
  | serverReceive i env =>
    dsimp only [netReads]
    split
    · rename_i currentClient w rest hstatus hchannel
      exact serverReads_inBounds_iff.mpr (hok.2 w rest hchannel).1
    · exact hnone
  | fault => exact hnone

end

/-- **Loss tolerance.** Between one client that retransmits without limit and a server that can
create its file, nothing fails in a run of untroubled steps, whatever the channels lose,
repeat, delay or damage: neither party exits, no refusal is under way to the client, and no step
that comes next reads past a payload. -/
theorem loss_tolerance (crc : Bytes → UInt32) (opts : ServerOptions) (fs₀ : FileSystem)
    (u : Upload) (hlimit : u.maxConsecTimeouts = -1)
    (hreplace : ∃ r, fs₀.replace (storagePath opts u.filename) = .ok r) (net : Net Unit)
    (hrun : Reaches (netStep crc opts fun _ => u) (Untroubled crc u)
      (Net.initial (fun _ => u) crc fs₀) net) :
    NoFailure crc net ∧ ∀ action, Untroubled crc u net action →
      ∀ r ∈ netReads crc opts u net action, InBounds r := by
  have hhealthy : Healthy crc opts fs₀ u net :=
    hrun.invariant (.initial hreplace) fun _ _ _ h hok hstep => h.step hlimit hok hstep
  exact ⟨hhealthy.noFailure, fun _ hok => hhealthy.reads hok⟩

theorem Smooth.untroubled {crc : Bytes → UInt32} {u : Upload} {net : Net Unit}
    {action : Action Unit} (h : Smooth crc net action) : Untroubled crc u net action := by
  cases action with
  | client i event => exact ⟨h, trivial⟩
  | clientReceive i errnoAgain =>
    refine ⟨trivial, fun w rest hw => ?_⟩
    obtain ⟨hcheck, hne⟩ := h w rest hw
    exact ⟨inBounds_receive_iff.mp (inBounds_of_checkIntegrity hcheck), Or.inl hne⟩
  | serverReceive i env =>
    obtain ⟨henv, hlog, hdatagram⟩ := h
    refine ⟨henv, fun w rest hw => ?_⟩
    obtain ⟨hcheck, hSYN⟩ := hdatagram w rest hw
    refine ⟨inBounds_receive_iff.mp (inBounds_of_checkIntegrity hcheck), ?_,
      fun c hc _ _ => hlog c hc⟩
    rw [← hSYN]
    exact ⟨fun hflags => ⟨hcheck, hflags⟩, fun hboth => hboth.2⟩
  | fault => exact h.elim

/-- An upload of one byte comes to its end without a failure. -/
theorem finishing_upload_untroubled :
    ∃ net : Net Unit, (net.client ()).pc = .finished ∧ NoFailure CRC.crc32 net := by
  obtain ⟨net, hrun, hpc, -⟩ := exists_finishing_run CRC.crc32 exampleOpts (exampleUpload [1])
    replace_exampleFs
  exact ⟨net, hpc, (loss_tolerance CRC.crc32 exampleOpts exampleFs (exampleUpload [1]) rfl
    ⟨_, replace_exampleFs⟩ net (hrun.mono fun _ _ h => h.untroubled)).1⟩

/-- Whatever the checksum function: the acknowledgement of the SYN is lost, the client repeats
the SYN, and the server refuses it because of the client's own session. -/
theorem exists_run_lost_acknowledgement (crc : Bytes → UInt32) :
    ∃ net : Net Unit, Reaches (netStep crc exampleOpts fun _ => exampleUpload [1])
        (fun _ action => action.NoIOError)
        (Net.initial (fun _ => exampleUpload [1]) crc exampleFs) net ∧
      (net.client ()).pc = .exited .serverBusy := by
  let u := exampleUpload [1]
  let d := u.datagram crc 0
  let idle : ServerState := ⟨exampleFs, .running none⟩
  let busy : ServerState := ⟨exampleStored [], .running (some exampleSession)⟩
  let s₀ : ClientState := .initial crc u
  let s₁ : ClientState := { s₀ with pc := .receive .syn d 0 }
  let s₂ : ClientState := { s₀ with nRetransmissions := 1 }
  let s₃ : ClientState := { s₁ with nRetransmissions := 1 }
  have hABR : (BftDatagram.ABR crc).WellFormed crc := wellFormed_init ..
  have hsend : netStep crc exampleOpts (fun _ => u) (.single idle s₀ [] [])
      (.client () (.sendto true)) = some (.single idle s₁ [d.wire] []) :=
    Net.netStep_single_send rfl rfl
  have hserve : netStep crc exampleOpts (fun _ => u) (.single idle s₁ [d.wire] [])
      (.serverReceive () exampleEnv)
      = some (.single busy s₁ [] [(d.createACK crc).wire]) :=
    Net.netStep_single_serverReceive (iteration_exampleSYN crc)
  have hlose : netStep crc exampleOpts (fun _ => u)
      (.single busy s₁ [] [(d.createACK crc).wire]) (.fault () .toClient (.lose 0))
      = some (.single busy s₁ [] []) :=
    Net.netStep_single_lose
  have htimeout : netStep crc exampleOpts (fun _ => u) (.single busy s₁ [] [])
      (.client () .timeout) = some (.single busy s₂ [] []) :=
    Net.netStep_single_client rfl rfl
  have hresend : netStep crc exampleOpts (fun _ => u) (.single busy s₂ [] [])
      (.client () (.sendto true)) = some (.single busy s₃ [d.wire] []) :=
    Net.netStep_single_send rfl rfl
  -- the session that is in the way is the client's own
  have hrefuse : netStep crc exampleOpts (fun _ => u) (.single busy s₃ [d.wire] [])
      (.serverReceive () exampleEnv)
      = some (.single busy s₃ [] [(BftDatagram.ABR crc).wire]) := by
    exact Net.netStep_single_serverReceive (iteration_SYN_busy (Upload.wellFormed_datagram ..) rfl)
  have hexit : netStep crc exampleOpts (fun _ => u)
      (.single busy s₃ [] [(BftDatagram.ABR crc).wire]) (.clientReceive () false)
      = some (.single busy { s₃ with pc := .exited .serverBusy } [] []) := by
    refine Net.netStep_single_clientReceive ?_
    have hbusy : (BftDatagram.ABR crc).getFlags &&& Flags.ABR = Flags.ABR ∧
        (BftDatagram.ABR crc).getSQN = false := by
      show Flags.ABR &&& Flags.ABR = Flags.ABR ∧ _
      exact ⟨by decide, getSQN_init ..⟩
    rw [ClientState.clientStep_datagram_wire rfl hABR]
    exact congrArg (fun s => some (s, [])) (ClientState.waitForACK_busy hABR.checkIntegrity hbusy)
  have hok : ∀ event : ClientEvent, event = .sendto true ∨ event = .timeout →
      Action.NoIOError (.client () event) := by
    rintro event (rfl | rfl) <;> exact ⟨trivial, nofun, nofun⟩
  refine ⟨_, .tail (.tail (.tail (.tail (.tail (.tail (.tail .refl ?_ hsend) ?_ hserve) ?_ hlose)
    ?_ htimeout) ?_ hresend) ?_ hrefuse) ?_ hexit, rfl⟩
  · exact hok _ (Or.inl rfl)
  · exact ⟨rfl, rfl⟩
  · trivial
  · exact hok _ (Or.inr rfl)
  · exact hok _ (Or.inl rfl)
  · exact ⟨rfl, rfl⟩
  · trivial

/-- One lost acknowledgement can end an upload. -/
theorem lost_acknowledgement_ends_upload :
    ¬ ∀ (opts : ServerOptions) (fs₀ : FileSystem) (u : Upload), u.maxConsecTimeouts = -1 →
      (∃ r, fs₀.replace (storagePath opts u.filename) = .ok r) → ∀ net : Net Unit,
      Reaches (netStep CRC.crc32 opts fun _ => u) (fun _ action => action.NoIOError)
        (Net.initial (fun _ => u) CRC.crc32 fs₀) net →
      NoFailure CRC.crc32 net := by
  intro h
  obtain ⟨net, hrun, hpc⟩ := exists_run_lost_acknowledgement CRC.crc32
  have hquiet := h exampleOpts exampleFs (exampleUpload [1]) rfl ⟨_, replace_exampleFs⟩ net hrun
  exact hquiet.client _ hpc

end Rechnernetze.Bft
