import Rechnernetze.Bft.TransferServer

/-!
# An undisturbed upload finishes

Where nothing goes wrong (`Smooth`), a client and an idle server can always bring an upload
to its end (`exists_finishing_run`): each datagram takes one `exchange` of the datagram and
its acknowledgement, and the chunks are exchanged by induction on how many are left.
-/

namespace Rechnernetze.Bft

open Lib BftDatagram

/-- Nothing goes wrong in this step: no failure on either side, no fault, what arrives is intact,
an idle server receives a SYN and a server with a client anything else. -/
def Smooth (crc : Bytes → UInt32) (net : Net Unit) : Action Unit → Prop
  | .client _ event => event.Undisturbed ∧ event ≠ .sendto false ∧ event ≠ .receiveError
  | .clientReceive i _ => ∀ w rest, net.toClient i = w :: rest →
      (receive w).checkIntegrity crc = true ∧ w ≠ []
  | .serverReceive i env => env.NoIOError ∧
      (∀ c, net.server.status = .running (some c) → ¬ c.fileWriter.LogFails env) ∧
      ∀ w rest, net.toServer i = w :: rest → (receive w).checkIntegrity crc = true ∧
        ((receive w).flags = Flags.SYN ↔ net.server.status = .running none)
  | .fault .. => False

section
variable {crc : Bytes → UInt32} {opts : ServerOptions} {u : Upload} {fs fs' : FileSystem}
  {server' : ServerState} {s : ClientState} {currentClient : Option ClientData} {call : Call}
  {k n : ℕ} {env : Env} {c : ClientData} {l : Location}

/-- The client takes a step of its own. -/
theorem smooth_client (event : ClientEvent) {s' : ClientState} {toServer toClient : List Bytes}
    {server : ServerState} (hevent : event.isDatagram = false)
    (hsmooth : event.Undisturbed ∧ event ≠ .sendto false ∧ event ≠ .receiveError)
    (h : clientStep crc u s event = some (s', [])) :
    Reaches (netStep crc opts fun _ => u) (Smooth crc) (.single server s toServer toClient)
      (.single server s' toServer toClient) :=
  .tail (a := .client () event) .refl hsmooth (Net.netStep_single_client hevent h)

theorem smooth_read : (ClientEvent.read none).Undisturbed ∧ ClientEvent.read none ≠ .sendto false ∧
    ClientEvent.read none ≠ .receiveError :=
  ⟨rfl, by decide, by decide⟩

/-- **One exchange**: a datagram, such as uploads consist of, is sent, accepted and acknowledged,
and the client moves on. -/
theorem exchange (v : Upload) (s : ClientState) (call : Call) (currentClient : Option ClientData)
    (hpc : s.pc = .send call (v.datagram crc k) n) (hcall : call ≠ .abr)
    (haddr : s.serverAddr = u.serverAddr) (hsqn : s.currSQN = Upload.sqnAt k)
    (hk : k = 0 ↔ currentClient = none) (henv : env.NoIOError)
    (hlog : ∀ c, currentClient = some c → ¬ c.fileWriter.LogFails env)
    (hturn : iteration crc opts fs currentClient ⟨u.address, (v.datagram crc k).wire, env⟩
      = ⟨[(u.address, (v.datagram crc k).createACK crc)], server'⟩) :
    Reaches (netStep crc opts fun _ => u) (Smooth crc)
      (.single ⟨fs, .running currentClient⟩ s [] [])
      (.single server'
        { s with
          pc := ClientState.afterACK call
          currSQN := s.currSQN ^^ true
          serverAddr := u.serverAddr } [] []) := by
  have hwf : (v.datagram crc k).WellFormed crc := Upload.wellFormed_datagram crc v k
  have hack : ((v.datagram crc k).createACK crc).WellFormed crc := wellFormed_createACK _
  obtain ⟨hnoACK, hnoABR⟩ := Upload.flags_datagram crc v k
  -- the datagram is sent
  have hsend : netStep crc opts (fun _ => u) (.single ⟨fs, .running currentClient⟩ s [] [])
      (.client () (.sendto true))
      = some (.single ⟨fs, .running currentClient⟩
        { s with pc := .receive call (v.datagram crc k) n } [(v.datagram crc k).wire] []) :=
    Net.netStep_single_send hpc haddr
  -- it is accepted
  have hserve : netStep crc opts (fun _ => u)
      (.single ⟨fs, .running currentClient⟩ { s with pc := .receive call (v.datagram crc k) n }
        [(v.datagram crc k).wire] []) (.serverReceive () env)
      = some (.single server' { s with pc := .receive call (v.datagram crc k) n } []
        [((v.datagram crc k).createACK crc).wire]) :=
    Net.netStep_single_serverReceive hturn
  have hserveOk : Smooth crc (.single ⟨fs, .running currentClient⟩
      { s with pc := .receive call (v.datagram crc k) n } [(v.datagram crc k).wire] [])
      (.serverReceive () env) := by
    refine ⟨henv, fun c hc => hlog c (Status.running.inj hc), ?_⟩
    intro w rest hw
    obtain rfl : (v.datagram crc k).wire = w := (List.cons.inj hw).1
    have hidle : (.running currentClient : Status) = .running none ↔ k = 0 := by
      rw [hk, Status.running.injEq]
    rw [hwf.receive_wire]
    refine ⟨hwf.checkIntegrity, ?_⟩
    show _ ↔ (.running currentClient : Status) = .running none
    rw [hidle]
    cases k with
    | zero => exact ⟨fun _ => rfl, fun _ => rfl⟩
    | succ k =>
      have hno := (Upload.flags_datagram_succ crc v k).1
      exact ⟨fun h => absurd h hno, fun h => by omega⟩
  -- the acknowledgement is received
  have hanswer : clientStep crc u { s with pc := .receive call (v.datagram crc k) n }
      (.datagram u.serverAddr ((v.datagram crc k).createACK crc).wire false)
      = some ({ s with
          pc := ClientState.afterACK call
          currSQN := s.currSQN ^^ true
          serverAddr := u.serverAddr }, []) := by
    rw [ClientState.clientStep_datagram_wire rfl hack, ClientState.onResponse, if_neg hcall,
      ClientState.waitForACK_acknowledged hack.checkIntegrity (fun h => hnoABR h.1) ?_
        (isACKFor_createACK hnoACK)]
    rw [getSQN_createACK, Upload.getSQN_datagram]
    exact hsqn.symm
  refine .tail (.tail (.tail .refl ?_ hsend) hserveOk hserve) ?_
    (Net.netStep_single_clientReceive hanswer)
  · exact ⟨trivial, nofun, nofun⟩
  · intro w rest hw
    rw [← (List.cons.inj hw).1, hack.receive_wire]
    exact ⟨hack.checkIntegrity, hack.wire_ne_nil⟩

/-- Between two chunks: `k` of them are stored and nothing is under way. -/
inductive Ready (crc : Bytes → UInt32) (opts : ServerOptions) (fs₀ : FileSystem) (u : Upload)
    (k : ℕ) : Net Unit → Prop
  | intro {fs : FileSystem} {c : ClientData} {l : Location} {s : ClientState}
      (hsession : SessionAt opts fs₀ u fs c l k) (hpc : s.pc = .readFile)
      (hfile : FileAt u s.file k) (hsqn : s.currSQN = Upload.sqnAt (k + 1))
      (haddr : s.serverAddr = u.serverAddr) :
      Ready crc opts fs₀ u k (.single ⟨fs, .running (some c)⟩ s [] [])

/-- A clock that lets a log succeed and makes none due. -/
def smoothEnv (lastLog : ℤ) : Env := ⟨fun n => lastLog + 2000000 * n, true, none⟩

theorem not_logFails_smoothEnv (w : FileWriter) : ¬ w.LogFails (smoothEnv w.lastLog) := by
  show ¬ (w.lastLog + 2000000 * 1 - w.lastLog).tdiv 1000000 = 0
  rw [show w.lastLog + 2000000 * 1 - w.lastLog = 2000000 by omega]
  decide

/-- The SYN is exchanged and the file opened. -/
theorem reaches_ready_zero (crc : Bytes → UInt32)
    (h : fs.replace (storagePath opts u.filename) = .ok (fs', l)) :
    ∃ net, Reaches (netStep crc opts fun _ => u) (Smooth crc)
      (Net.initial (fun _ => u) crc fs) net ∧ Ready crc opts fs u 0 net := by
  have hname : (u.datagram crc 0).getPayloadAsString = u.filename := getPayload_init ..
  have hcreated := FileSystem.Created.of_replace h
  have hturn : iteration crc opts fs none ⟨u.address, (u.datagram crc 0).wire, smoothEnv 0⟩
      = ⟨[(u.address, (u.datagram crc 0).createACK crc)], ⟨fs', .running (some (ClientData.new
          (.opened (storagePath opts u.filename) l 0) u.address).incrementSQN)⟩⟩ := by
    rw [iteration_wire (Upload.wellFormed_datagram ..), onIntact_SYN rfl,
      onSYN_idle (by rw [hname]; exact h) rfl, hname]
    rfl
  have hexchange := exchange u (.initial crc u) .syn none rfl nofun rfl rfl
    ⟨fun _ => rfl, fun _ => rfl⟩ ⟨rfl, rfl⟩ nofun hturn
  refine ⟨_, hexchange.trans (smooth_client (.openFile true) rfl ⟨rfl, nofun, nofun⟩ rfl),
    ?_⟩
  exact .intro (l := l)
    ⟨rfl, rfl, rfl, hcreated.resolve_before, hcreated.node_eq, u.unfinished_one⟩ rfl .opened rfl rfl

/-- The next chunk is exchanged. -/
theorem Ready.chunk {net : Net Unit} (h : Ready crc opts fs u k net)
    (hlt : maxPayloadSize * k < u.source.length) :
    ∃ net', Reaches (netStep crc opts fun _ => u) (Smooth crc) net net' ∧
      Ready crc opts fs u (k + 1) net' := by
  cases h with
  | @intro fs₁ c l s hsession hpc hfile hsqn haddr =>
    have hread : clientStep crc u s (.read none) = some (s.onRead crc none, []) := by
      simp only [clientStep, hpc]
    rw [hfile.onRead_data hsqn hlt] at hread
    set s' : ClientState := { s with
      pc := .send .data (u.datagram crc (k + 1)) 0
      file := (s.file.read maxPayloadSize none).2 }
    have hlog : ∀ c', some c = some c' →
        ¬ c'.fileWriter.LogFails (smoothEnv c.fileWriter.lastLog) := by
      rintro c' ⟨⟩
      exact not_logFails_smoothEnv c.fileWriter
    have hturn := iteration_datagram_accepted hsession crc (smoothEnv c.fileWriter.lastLog)
    have hdata := hsession.handle_data crc hlt (show (smoothEnv c.fileWriter.lastLog).writeLimit
      = none from rfl)
    rcases hdata with ⟨-, hfails, -⟩ | ⟨c', hv, hsession'⟩
    · exact absurd hfails (not_logFails_smoothEnv c.fileWriter)
    · rw [hv] at hturn
      have hexchange := exchange u s' .data (some c) rfl (by decide) haddr hsqn (by simp)
        ⟨rfl, rfl⟩ hlog hturn
      refine ⟨_, (smooth_client (.read none) rfl smooth_read hread).trans hexchange, ?_⟩
      refine .intro hsession' rfl (hfile.read_snd hlt) ?_ rfl
      show (s.currSQN ^^ true) = _
      rw [hsqn, ← Upload.sqnAt_succ]

/-- The FIN is exchanged. -/
theorem Ready.fin {net : Net Unit} (h : Ready crc opts fs u k net)
    (hle : u.source.length ≤ maxPayloadSize * k) :
    ∃ net', Reaches (netStep crc opts fun _ => u) (Smooth crc) net net' ∧
      (net'.client ()).pc = .finished ∧ net'.server.status = .running none := by
  cases h with
  | @intro fs₁ c l s hsession hpc hfile hsqn haddr =>
    have hread : clientStep crc u s (.read none) = some (s.onRead crc none, []) := by
      simp only [clientStep, hpc]
    rw [hfile.onRead_fin hsqn hle] at hread
    set s' : ClientState := { s with
      pc := .send .fin (u.datagram crc (k + 1)) 0
      file := (s.file.read maxPayloadSize none).2 }
    have hlog : ∀ c', some c = some c' →
        ¬ c'.fileWriter.LogFails (smoothEnv c.fileWriter.lastLog) := by
      rintro c' ⟨⟩
      exact not_logFails_smoothEnv c.fileWriter
    have hturn := iteration_datagram_accepted hsession crc (smoothEnv c.fileWriter.lastLog)
    obtain ⟨-, ⟨hfails, -⟩ | hv⟩ := hsession.handle_fin crc (smoothEnv c.fileWriter.lastLog)
      hle
    · exact absurd hfails (not_logFails_smoothEnv c.fileWriter)
    · rw [hv] at hturn
      have hexchange := exchange u s' .fin (some c) rfl (by decide) haddr hsqn (by simp)
        ⟨rfl, rfl⟩ hlog hturn
      exact ⟨_, (smooth_client (.read none) rfl smooth_read hread).trans hexchange, rfl, rfl⟩

/-- From wherever the upload stands, with at most `m` chunks left. -/
theorem Ready.finish (m : ℕ) : ∀ {k : ℕ} {net : Net Unit}, Ready crc opts fs u k net →
    u.source.length ≤ maxPayloadSize * (k + m) →
    ∃ net', Reaches (netStep crc opts fun _ => u) (Smooth crc) net net' ∧
      (net'.client ()).pc = .finished ∧ net'.server.status = .running none := by
  induction m with
  | zero => exact fun h hle => h.fin hle
  | succ m ih =>
    intro k net h hle
    by_cases hlt : maxPayloadSize * k < u.source.length
    · obtain ⟨net₁, hrun₁, h₁⟩ := h.chunk hlt
      have hle₁ : u.source.length ≤ maxPayloadSize * (k + 1 + m) := by
        rw [show k + 1 + m = k + (m + 1) by omega]
        exact hle
      obtain ⟨net₂, hrun₂, h₂⟩ := ih h₁ hle₁
      exact ⟨net₂, hrun₁.trans hrun₂, h₂⟩
    · exact h.fin (by omega)

/-- **An upload can always be finished** where the server can create its file. -/
theorem exists_finishing_run (crc : Bytes → UInt32) (opts : ServerOptions) (u : Upload)
    (h : fs.replace (storagePath opts u.filename) = .ok (fs', l)) :
    ∃ net, Reaches (netStep crc opts fun _ => u) (Smooth crc)
      (Net.initial (fun _ => u) crc fs) net ∧
      (net.client ()).pc = .finished ∧ net.server.status = .running none := by
  obtain ⟨net₁, hrun₁, h₁⟩ := reaches_ready_zero crc h
  have hpos : 1 ≤ maxPayloadSize := by decide
  have hle : u.source.length ≤ maxPayloadSize * (0 + u.source.length) := by
    rw [Nat.zero_add]
    exact Nat.le_mul_of_pos_left _ hpos
  obtain ⟨net₂, hrun₂, h₂⟩ := h₁.finish u.source.length hle
  exact ⟨net₂, hrun₁.trans hrun₂, h₂⟩

end

end Rechnernetze.Bft
