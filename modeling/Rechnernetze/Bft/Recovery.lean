import Rechnernetze.Bft.AbortAgreement
import Rechnernetze.Bft.LossTolerance

/-!
# How an upload can be brought to its end

What one client and the server can do together, wherever they stand. If both think that a session
is open, or neither does, they come together again: what is under way may be lost, and the client
repeats its datagram (`SessionAt.completable`, `Repeats.completable_idle`). If an acknowledgement is
under way to the client, it can take it, and then they agree (`ClientAt.completable_of_ack`).
-/

namespace Rechnernetze.Bft

open Lib BftDatagram ClientState

/-- The client is in the call for its SYN. -/
def PC.connecting : PC → Bool
  | .send .syn _ _ => true
  | .receive .syn _ _ => true
  | _ => false

/-- An intact acknowledgement with the given SQN. -/
def Acknowledges (crc : Bytes → UInt32) (sqn : Bool) (w : Bytes) : Prop :=
  (receive w).checkIntegrity crc = true ∧ (receive w).getFlags &&& Flags.ACK = Flags.ACK ∧
    (receive w).getSQN = sqn

/-- An undisturbed run leads from one state to the other. -/
abbrev ReachesUndisturbed (crc : Bytes → UInt32) (opts : ServerOptions) (u : Upload) :
    Net Unit → Net Unit → Prop :=
  Reaches (netStep crc opts fun _ => u) fun _ action => action.Undisturbed

/-- Some continuation brings the upload to its end and leaves the server without a session. -/
def Completable (crc : Bytes → UInt32) (opts : ServerOptions) (u : Upload) (net : Net Unit) :
    Prop :=
  ∃ net', ReachesUndisturbed crc opts u net net' ∧ (net'.client ()).pc = .finished ∧
    net'.server.status = .running none

section
variable {crc : Bytes → UInt32} {opts : ServerOptions} {fs fs₀ : FileSystem} {u : Upload}
  {net net' : Net Unit} {server : ServerState} {s s' : ClientState} {call : Call} {p r k n : ℕ}
  {w : Bytes} {toServer toClient rest fwd bwd : List Bytes} {c : ClientData} {l : Location}
  {sends : List (SockaddrIn × Bytes)} {env : Env}
  {currentClient : Option ClientData} {a : SockaddrIn} {action : Action Unit}

theorem Completable.of_reaches (h : Completable crc opts u net')
    (hrun : ReachesUndisturbed crc opts u net net') :
    Completable crc opts u net := by
  obtain ⟨net'', hrun', hend⟩ := h
  exact ⟨net'', hrun.trans hrun', hend⟩

/-! ## The client repeats its datagram -/

/-- The client is about to send datagram `p`. -/
structure Repeats (crc : Bytes → UInt32) (u : Upload) (p : ℕ) (s : ClientState) (call : Call) :
    Prop where
  pc : ∃ n, s.pc = .send call (u.datagram crc p) n
  callAt : CallAt u s.file p call
  sqn : s.currSQN = Upload.sqnAt p
  serverAddr : s.serverAddr = u.serverAddr

/-- A step of the client that sends nothing. -/
theorem reaches_client (event : ClientEvent) (hevent : event.isDatagram = false)
    (hok : event.Undisturbed) (h : clientStep crc u s event = some (s', [])) :
    ReachesUndisturbed crc opts u (.single server s toServer toClient)
      (.single server s' toServer toClient) :=
  .tail (a := .client () event) .refl hok (Net.netStep_single_client hevent h)

theorem reaches_read (hpc : s.pc = .readFile) (hfile : FileAt u s.file k)
    (hsqn : s.currSQN = Upload.sqnAt (k + 1)) (haddr : s.serverAddr = u.serverAddr) :
    ∃ s' call, Repeats crc u (k + 1) s' call ∧
      ReachesUndisturbed crc opts u (.single server s toServer toClient)
      (.single server s' toServer toClient) := by
  have hread : clientStep crc u s (.read none) = some (s.onRead crc none, []) := by
    simp only [clientStep, hpc]
  by_cases hlt : maxPayloadSize * k < u.source.length
  · rw [hfile.onRead_data hsqn hlt] at hread
    refine ⟨_, .data, ?_, reaches_client (.read none) rfl rfl hread⟩
    exact ⟨⟨0, rfl⟩, .data hlt (hfile.read_snd hlt), hsqn, haddr⟩
  · have hle : u.source.length ≤ maxPayloadSize * k := by omega
    rw [hfile.onRead_fin hsqn hle] at hread
    refine ⟨_, .fin, ?_, reaches_client (.read none) rfl rfl hread⟩
    exact ⟨⟨0, rfl⟩, .fin hle (hfile.read_snd_of_le hle), hsqn, haddr⟩

/-- **From wherever it stands** in its transfer, a client that may retransmit gets to the place
where it sends its datagram, and nothing else changes. -/
theorem ClientAt.reaches_repeats (opts : ServerOptions) (server : ServerState)
    (toServer toClient : List Bytes) (h : ClientAt crc u s p) (hlimit : u.maxConsecTimeouts < 0)
    (haddr : s.serverAddr = u.serverAddr) (hrunning : ∀ e, s.pc ≠ .exited e)
    (hfin : s.pc ≠ .finished) :
    ∃ s' call, Repeats crc u p s' call ∧
      ReachesUndisturbed crc opts u (.single server s toServer toClient)
      (.single server s' toServer toClient) := by
  cases h with
  | @repeating _ call hpc hcall hsqn =>
    obtain ⟨n, hpc | hpc⟩ := hpc
    · exact ⟨s, call, ⟨⟨n, hpc⟩, hcall, hsqn, haddr⟩, .refl⟩
    · -- it waits for an answer, and a timeout makes it send again
      have hmax : maxTimeouts u call < 0 := by
        cases call with
        | abr => exact absurd rfl hcall.ne_abr
        | _ => exact hlimit
      have htimeout : clientStep crc u s .timeout
          = some (s.onTimeout u call (u.datagram crc p) n, []) := by
        simp only [clientStep, hpc]
      rw [ClientState.onTimeout, if_pos hmax] at htimeout
      refine ⟨_, call, ?_, reaches_client .timeout rfl trivial htimeout⟩
      exact ⟨⟨n, rfl⟩, hcall, hsqn, haddr⟩
  | opening hpc hsqn =>
    -- it opens the file and reads the first chunk
    have hopen : clientStep crc u s (.openFile true)
        = some ({ s with pc := .readFile, file := .opened u.fs u.filePath true }, []) := by
      simp only [clientStep, hpc]
    obtain ⟨s', call, hs', hrun⟩ : ∃ s' call, Repeats crc u (0 + 1) s' call ∧
        ReachesUndisturbed crc opts u
          (.single server { s with pc := .readFile, file := .opened u.fs u.filePath true }
            toServer toClient) (.single server s' toServer toClient) :=
      reaches_read rfl FileAt.opened hsqn haddr
    exact ⟨s', call, hs', (reaches_client (.openFile true) rfl rfl hopen).trans hrun⟩
  | reading hpc hfile hsqn => exact reaches_read hpc hfile hsqn haddr
  | finished hpc => exact absurd hpc hfin
  | exited hpc => exact absurd hpc (hrunning _)

/-! ## What is under way is lost -/

theorem reaches_lose_toServer :
    ReachesUndisturbed crc opts u (.single server s toServer toClient)
      (.single server s [] toClient) := by
  induction toServer with
  | nil => exact .refl
  | cons w rest ih =>
    refine Reaches.trans (.tail (a := .fault () .toServer (.lose 0)) .refl trivial ?_) ih
    simp only [netStep, Fault.Yields]
    simp [Net.single, Net.setChannel, Net.channel, Fault.apply, Net.update_unit]

theorem reaches_lose_toClient (lost : List Bytes) :
    ReachesUndisturbed crc opts u (.single server s toServer (lost ++ toClient))
      (.single server s toServer toClient) := by
  induction lost with
  | nil => exact .refl
  | cons w rest ih =>
    exact Reaches.trans (.tail (a := .fault () .toClient (.lose 0)) .refl trivial
      Net.netStep_single_lose) ih

/-! ## The two agree -/

/-- Between two chunks the upload can go on. -/
theorem Ready.completable (h : Ready crc opts fs u k net) : Completable crc opts u net := by
  have hpos : 1 ≤ maxPayloadSize := by decide
  have hle : u.source.length ≤ maxPayloadSize * (k + u.source.length) :=
    (Nat.le_mul_of_pos_left _ hpos).trans (Nat.mul_le_mul_left _ (Nat.le_add_left ..))
  obtain ⟨net', hrun, hend⟩ := h.finish u.source.length hle
  exact ⟨net', hrun.mono fun _ _ h' => h'.undisturbed, hend⟩

/-- An idle server accepts the SYN. -/
theorem Repeats.completable_idle (hs : Repeats crc u 0 s call)
    (hreplace : ∃ r, fs.replace (storagePath opts u.filename) = .ok r) :
    Completable crc opts u (.single ⟨fs, .running none⟩ s [] []) := by
  obtain ⟨⟨fs', l⟩, h⟩ := hreplace
  obtain ⟨⟨n, hpc⟩, hcall, hsqn, haddr⟩ := hs
  cases hcall with
  | syn =>
    have hname : (u.datagram crc 0).getPayloadAsString = u.filename := getPayload_init ..
    have hcreated := FileSystem.Created.of_replace h
    have hturn : iteration crc opts fs none ⟨u.address, (u.datagram crc 0).wire, smoothEnv 0⟩
        = ⟨[(u.address, (u.datagram crc 0).createACK crc)], ⟨fs', .running (some (ClientData.new
            (.opened (storagePath opts u.filename) l 0) u.address).incrementSQN)⟩⟩ := by
      rw [iteration_wire (Upload.wellFormed_datagram ..), onIntact_SYN rfl,
        onSYN_idle (by rw [hname]; exact h) rfl, hname]
      rfl
    have hexchange := exchange u s .syn none hpc nofun haddr hsqn ⟨fun _ => rfl, fun _ => rfl⟩
      ⟨rfl, rfl⟩ nofun hturn
    have hrun := hexchange.trans (smooth_client (.openFile true) rfl ⟨rfl, nofun, nofun⟩ rfl)
    have hsqn' : (s.currSQN ^^ true) = Upload.sqnAt 1 := by rw [hsqn, ← Upload.sqnAt_succ]
    have hready : Ready crc opts fs u 0 (.single ⟨fs', .running (some (ClientData.new
        (.opened (storagePath opts u.filename) l 0) u.address).incrementSQN)⟩ { s with
          pc := .readFile
          currSQN := s.currSQN ^^ true
          serverAddr := u.serverAddr
          file := .opened u.fs u.filePath true } [] []) :=
      .intro (l := l) ⟨rfl, rfl, rfl, hcreated.resolve_before, hcreated.node_eq,
        u.unfinished_one⟩ rfl .opened hsqn' rfl
    exact hready.completable.of_reaches (hrun.mono fun _ _ h' => h'.undisturbed)

/-- A server with a session accepts the datagram it waits for, and acknowledges again the one it
has accepted last. -/
theorem SessionAt.completable_repeats (h : SessionAt opts fs₀ u fs c l k)
    (hs : Repeats crc u p s call) (hp : p = k + 1 ∨ p = k ∧ p ≠ 0) :
    Completable crc opts u (.single ⟨fs, .running (some c)⟩ s [] []) := by
  obtain ⟨⟨n, hpc⟩, hcall, hsqn, haddr⟩ := hs
  have hlog : ∀ c', some c = some c' →
      ¬ c'.fileWriter.LogFails (smoothEnv c.fileWriter.lastLog) := by
    rintro c' ⟨⟩
    exact not_logFails_smoothEnv c.fileWriter
  have hsqn' : (s.currSQN ^^ true) = Upload.sqnAt (p + 1) := by rw [hsqn, ← Upload.sqnAt_succ]
  rcases hp with rfl | ⟨rfl, hp⟩
  · -- the datagram is the one the session waits for
    have hturn := iteration_datagram_accepted h crc (smoothEnv c.fileWriter.lastLog)
    cases hcall with
    | data hlt hfile =>
      have hwrites : (smoothEnv c.fileWriter.lastLog).writeLimit = none := rfl
      rcases h.handle_data crc hlt hwrites with ⟨-, hfails, -⟩ | ⟨c', hv, hsession'⟩
      · exact absurd hfails (not_logFails_smoothEnv c.fileWriter)
      · rw [hv] at hturn
        have hexchange := exchange u s .data (some c) hpc (by decide) haddr hsqn (by simp)
          ⟨rfl, rfl⟩ hlog hturn
        have hready : Ready crc opts fs₀ u (k + 1) (.single ⟨_, .running (some c')⟩ { s with
            pc := .readFile
            currSQN := s.currSQN ^^ true
            serverAddr := u.serverAddr } [] []) := .intro hsession' rfl hfile hsqn' rfl
        exact hready.completable.of_reaches (hexchange.mono fun _ _ h' => h'.undisturbed)
    | fin hle hfile =>
      obtain ⟨-, ⟨hfails, -⟩ | hv⟩ := h.handle_fin crc (smoothEnv c.fileWriter.lastLog) hle
      · exact absurd hfails (not_logFails_smoothEnv c.fileWriter)
      · rw [hv] at hturn
        have hexchange := exchange u s .fin (some c) hpc (by decide) haddr hsqn (by simp)
          ⟨rfl, rfl⟩ hlog hturn
        exact ⟨_, hexchange.mono fun _ _ h' => h'.undisturbed, rfl, rfl⟩
  · cases hcall with
    -- the datagram has been accepted before, so it is a chunk
    | syn => exact absurd rfl hp
    | @fin k hle =>
      have hlt := h.unfinished k rfl
      omega
    | @data k hlt hfile =>
      obtain ⟨hSYN, hABR⟩ := Upload.flags_datagram_succ crc u k
      have hip : u.address.sinAddr = c.address.sinAddr := by rw [h.address]
      have hold : (u.datagram crc (k + 1)).getSQN ≠ c.currentSQN := by
        rw [Upload.getSQN_datagram, h.sqn]
        exact Upload.sqnAt_succ_ne (k + 1)
      have hturn : iteration crc opts fs (some c)
          ⟨u.address, (u.datagram crc (k + 1)).wire, smoothEnv c.fileWriter.lastLog⟩
          = ⟨[(u.address, (u.datagram crc (k + 1)).createACK crc)],
            ⟨fs, .running (some { c with nDuplicates := c.nDuplicates + 1 })⟩⟩ := by
        rw [iteration_wire (Upload.wellFormed_datagram ..), onIntact_regular hSYN hABR,
          onRegular_duplicate hip hold, h.address]
      have hexchange := exchange u s .data (some c) hpc (by decide) haddr hsqn (by simp)
        ⟨rfl, rfl⟩ hlog hturn
      have hready : Ready crc opts fs₀ u (k + 1) (.single
          ⟨fs, .running (some { c with nDuplicates := c.nDuplicates + 1 })⟩ { s with
            pc := .readFile
            currSQN := s.currSQN ^^ true
            serverAddr := u.serverAddr } [] []) := .intro (l := l) { h with } rfl hfile hsqn' rfl
      exact hready.completable.of_reaches (hexchange.mono fun _ _ h' => h'.undisturbed)

/-- While the session is open the client has not finished. -/
theorem SessionAt.not_finished (h : SessionAt opts fs₀ u fs c l k) (hclient : ClientAt crc u s p)
    (hp : p ≤ k + 1) : s.pc ≠ .finished := by
  intro hpc
  cases hclient with
  | repeating hpc' => obtain ⟨n, h' | h'⟩ := hpc' <;> rw [h'] at hpc <;> cases hpc
  | opening hpc' | reading hpc' | exited hpc' =>
    rw [hpc'] at hpc
    cases hpc
  -- the session waits for a chunk that the client has sent before its FIN
  | @finished k' _ hle =>
    obtain ⟨m, rfl⟩ : ∃ m, k = m + 1 := ⟨k - 1, by omega⟩
    have hlt := h.unfinished m rfl
    have hmono : maxPayloadSize * k' ≤ maxPayloadSize * m := Nat.mul_le_mul_left _ (by omega)
    omega

/-- **A client and its session** can bring the upload to its end, wherever the client stands in its
transfer. -/
theorem SessionAt.completable (h : SessionAt opts fs₀ u fs c l k) (hclient : ClientAt crc u s p)
    (hp : p = k + 1 ∨ p = k ∧ p ≠ 0) (hlimit : u.maxConsecTimeouts < 0)
    (haddr : s.serverAddr = u.serverAddr) (hrunning : ∀ e, s.pc ≠ .exited e) :
    Completable crc opts u (.single ⟨fs, .running (some c)⟩ s toServer toClient) := by
  obtain ⟨s', call, hs', hrun⟩ := hclient.reaches_repeats opts ⟨fs, .running (some c)⟩ toServer
    toClient hlimit haddr hrunning (h.not_finished hclient (by omega))
  have hlose : ReachesUndisturbed crc opts u
      (.single ⟨fs, .running (some c)⟩ s' toServer (toClient ++ []))
      (.single ⟨fs, .running (some c)⟩ s' [] []) :=
    reaches_lose_toServer.trans (reaches_lose_toClient toClient)
  rw [List.append_nil] at hlose
  exact (h.completable_repeats hs' hp).of_reaches (hrun.trans hlose)

/-- **A client that is connecting** can bring the upload to its end if the server is idle. -/
theorem ClientAt.completable_idle (h : ClientAt crc u s 0)
    (hreplace : ∃ r, fs.replace (storagePath opts u.filename) = .ok r)
    (hlimit : u.maxConsecTimeouts < 0) (haddr : s.serverAddr = u.serverAddr)
    (hrunning : ∀ e, s.pc ≠ .exited e) (hfin : s.pc ≠ .finished) :
    Completable crc opts u (.single ⟨fs, .running none⟩ s toServer toClient) := by
  obtain ⟨s', call, hs', hrun⟩ := h.reaches_repeats opts ⟨fs, .running none⟩ toServer toClient
    hlimit haddr hrunning hfin
  have hlose : ReachesUndisturbed crc opts u
      (.single ⟨fs, .running none⟩ s' toServer (toClient ++ []))
      (.single ⟨fs, .running none⟩ s' [] []) :=
    reaches_lose_toServer.trans (reaches_lose_toClient toClient)
  rw [List.append_nil] at hlose
  exact (hs'.completable_idle hreplace).of_reaches (hrun.trans hlose)

/-! ## An acknowledgement is under way -/

theorem ClientAt.sqn (h : ClientAt crc u s p) (hrunning : ∀ e, s.pc ≠ .exited e)
    (hfin : s.pc ≠ .finished) : s.currSQN = Upload.sqnAt p := by
  cases h with
  | repeating _ _ hsqn => exact hsqn
  | opening _ hsqn => exact hsqn
  | reading _ _ hsqn => exact hsqn
  | finished hpc => exact absurd hpc hfin
  | exited hpc => exact absurd hpc (hrunning _)

theorem Refusal.not_acknowledges (h : Refusal crc w) (sqn : Bool) : ¬ Acknowledges crc sqn w := by
  rintro ⟨hcheck, hACK, -⟩
  rcases h with h | rfl | ⟨sqn', rfl⟩
  · rw [h.2] at hcheck
    cases hcheck
  · have hwf : (BftDatagram.ABR crc).WellFormed crc := wellFormed_init ..
    rw [hwf.receive_wire] at hACK
    exact absurd hACK (by decide : ¬ Flags.ABR &&& Flags.ACK = Flags.ACK)
  · have hwf : (ofFlags crc Flags.AGN sqn').WellFormed crc := wellFormed_init ..
    have hno : ¬ (if sqn' then Flags.AGN ||| Flags.SQN else Flags.AGN) &&& Flags.ACK
        = Flags.ACK := by
      cases sqn' <;> decide
    rw [hwf.receive_wire] at hACK
    exact hno hACK

/-- What acknowledges with the SQN of datagram `p` is no refusal, and was not sent for the datagram
before. -/
theorem Acknowledges.new (h : Acknowledges crc (Upload.sqnAt p) w) :
    ¬ (Refusal crc w ∨ Previous (fun k b => b = ((u.datagram crc k).createACK crc).wire) p w) := by
  rintro (hrefusal | ⟨k, rfl, rfl⟩)
  · exact hrefusal.not_acknowledges _ h
  · obtain ⟨-, -, hk⟩ := h
    rw [(wellFormed_createACK _).receive_wire, getSQN_createACK, Upload.getSQN_datagram] at hk
    exact Upload.sqnAt_succ_ne k hk

/-- What acknowledges the client's datagram has been sent for it. -/
theorem acknowledged_of_mem (hlink : Link crc u p r fwd bwd) (hsqn : s.currSQN = Upload.sqnAt p)
    (hw : w ∈ bwd) (hack : Acknowledges crc s.currSQN w) :
    r = p + 1 ∧ w = ((u.datagram crc p).createACK crc).wire := by
  rw [hsqn] at hack
  exact hlink.acknowledged hw hack.new

/-- The client takes the acknowledgement. -/
theorem Repeats.reaches_acknowledged (opts : ServerOptions) (server : ServerState)
    (toServer : List Bytes) (hs : Repeats crc u p s call)
    (hmem : ((u.datagram crc p).createACK crc).wire ∈ toClient) :
    ∃ toServer' toClient', ReachesUndisturbed crc opts u (.single server s toServer toClient)
      (.single server
        { s with
          pc := afterACK call
          currSQN := s.currSQN ^^ true
          serverAddr := u.serverAddr } toServer' toClient') := by
  obtain ⟨⟨n, hpc⟩, hcall, hsqn, haddr⟩ := hs
  obtain ⟨lost, rest, rfl⟩ := List.append_of_mem hmem
  have hack : ((u.datagram crc p).createACK crc).WellFormed crc := wellFormed_createACK _
  obtain ⟨hnoACK, hnoABR⟩ := Upload.flags_datagram crc u p
  -- it sends its datagram, what stands before the acknowledgement is lost, and it receives
  have hsend : netStep crc opts (fun _ => u) (.single server s toServer
        (lost ++ ((u.datagram crc p).createACK crc).wire :: rest)) (.client () (.sendto true))
      = some (.single server { s with pc := .receive call (u.datagram crc p) n }
        (toServer ++ [(u.datagram crc p).wire])
        (lost ++ ((u.datagram crc p).createACK crc).wire :: rest)) :=
    Net.netStep_single_send hpc haddr
  have hanswer : clientStep crc u { s with pc := .receive call (u.datagram crc p) n }
      (.datagram u.serverAddr ((u.datagram crc p).createACK crc).wire false)
      = some ({ s with
          pc := afterACK call
          currSQN := s.currSQN ^^ true
          serverAddr := u.serverAddr }, []) := by
    rw [clientStep_datagram_wire rfl hack, onResponse, if_neg hcall.ne_abr,
      waitForACK_acknowledged hack.checkIntegrity (fun h => hnoABR h.1) ?_
        (isACKFor_createACK hnoACK)]
    rw [getSQN_createACK, Upload.getSQN_datagram]
    exact hsqn.symm
  refine ⟨_, rest, .tail (a := .clientReceive () false)
    (Reaches.trans (.tail (a := .client () (.sendto true)) .refl trivial hsend)
      (reaches_lose_toClient lost)) trivial (Net.netStep_single_clientReceive hanswer)⟩

/-- It moves on to the next datagram. -/
theorem Repeats.clientAt_acknowledged (hs : Repeats crc u p s call) :
    ClientAt crc u
      { s with
        pc := afterACK call
        currSQN := s.currSQN ^^ true
        serverAddr := a } (p + 1) := by
  obtain ⟨-, hcall, hsqn, -⟩ := hs
  have hsqn' : (s.currSQN ^^ true) = Upload.sqnAt (p + 1) := by rw [hsqn, ← Upload.sqnAt_succ]
  cases hcall with
  | syn => exact .opening rfl hsqn'
  | data hlt hfile => exact .reading rfl hfile hsqn'
  | fin hle hfile => exact .finished rfl hle

/-- **If an acknowledgement is under way**, the client can take it, and then the two agree. -/
theorem ClientAt.completable_of_ack (hclient : ClientAt crc u s p)
    (hlink : Link crc u p r toServer toClient)
    (hserver : ServerAt True opts fs₀ u ⟨fs, .running currentClient⟩ r)
    (howner : ∀ c, currentClient = some c → c.address = u.address)
    (hlimit : u.maxConsecTimeouts < 0) (haddr : s.serverAddr = u.serverAddr)
    (hrunning : ∀ e, s.pc ≠ .exited e) (hfin : s.pc ≠ .finished)
    (hack : ∃ w ∈ toClient, Acknowledges crc s.currSQN w) :
    Completable crc opts u (.single ⟨fs, .running currentClient⟩ s toServer toClient) := by
  obtain ⟨w, hw, hack⟩ := hack
  obtain ⟨rfl, rfl⟩ := acknowledged_of_mem hlink (hclient.sqn hrunning hfin) hw hack
  obtain ⟨s', call, hs', hrun⟩ := hclient.reaches_repeats opts ⟨fs, .running currentClient⟩
    toServer toClient hlimit haddr hrunning hfin
  obtain ⟨toServer', toClient', hrun'⟩ := hs'.reaches_acknowledged opts
    ⟨fs, .running currentClient⟩ toServer hw
  refine Completable.of_reaches ?_ (hrun.trans hrun')
  cases hserver with
  | session hstatus hsession =>
    cases hstatus
    exact hsession.completable hs'.clientAt_acknowledged (Or.inl rfl) hlimit rfl
      (afterACK_ne_exited hs'.callAt.ne_abr)
  -- the acknowledgement is that of the FIN
  | @closed k l hfree hle =>
    cases hs'.callAt with
    | data hlt => omega
    | fin =>
      refine ⟨_, .refl, rfl, ?_⟩
      cases currentClient with
      | none => rfl
      | some c => exact absurd ⟨c, rfl, howner c rfl⟩ hfree
  | crashed _ hstatus => cases hstatus

/-! ## Where a connecting client stands -/

theorem ClientAt.of_connecting (h : ClientAt crc u s p) (hpc : s.pc.connecting = true) : p = 0 := by
  cases h with
  | repeating hpc' hcall =>
    cases hcall with
    | syn => rfl
    | data => obtain ⟨n, h' | h'⟩ := hpc' <;> rw [h'] at hpc <;> cases hpc
    | fin => obtain ⟨n, h' | h'⟩ := hpc' <;> rw [h'] at hpc <;> cases hpc
  | opening hpc' | reading hpc' | finished hpc' | exited hpc' =>
    rw [hpc'] at hpc
    cases hpc

theorem ClientAt.connecting_zero (h : ClientAt crc u s 0) (hrunning : ∀ e, s.pc ≠ .exited e) :
    s.pc.connecting = true := by
  cases h with
  | repeating hpc hcall =>
    cases hcall with
    | syn => obtain ⟨n, h' | h'⟩ := hpc <;> rw [h'] <;> rfl
  | exited hpc => exact absurd hpc (hrunning _)

end

end Rechnernetze.Bft
