import Rechnernetze.Bft.Storage
import Rechnernetze.Bft.TransferTheorems

/-!
# Failing files

The client does not look at the state of its file stream, and the server does not look at the
state of its own. As long as neither fails, nothing is reported that is not stored
(`no_success_on_lost_data`); a client that cannot open its file reports the upload of an
empty one (`unreadable_file_reported`).
-/

namespace Rechnernetze.Bft

open Lib BftDatagram

/-- The client has made its FIN, or has passed the call for it. -/
def ClientState.AtFIN : PC → Prop
  | .send call _ _ => call = .fin
  | .receive call _ _ => call = .fin
  | .finished => True
  | _ => False

/-- In this step the client's file can be opened and read, a write is complete, and the server
does not divide by zero before it writes. -/
def FilesWork (net : Net Unit) : Action Unit → Prop
  | .client _ event => event ≠ .openFile false ∧ ∀ k, event ≠ .read (some k)
  | .serverReceive _ env => env.writeLimit = none ∧
      ∀ c, net.server.status = .running (some c) →
        ¬ (c.fileWriter.LogDue env ∧ c.fileWriter.LogFails env)
  | _ => True

section
variable {crc : Bytes → UInt32} {opts : ServerOptions} {fs₀ : FileSystem} {u : Upload}
  {net : Net Unit} {action : Action Unit}

theorem FilesWork.undisturbed (h : FilesWork net action) (hsigint : action ≠ .client () .sigint) :
    action.Undisturbed := by
  cases action with
  | client i event =>
    show event.Undisturbed
    cases event with
    | sigint => exact absurd rfl hsigint
    | openFile ok =>
      cases ok with
      | true => rfl
      | false => exact absurd rfl h.1
    | read fault =>
      cases fault with
      | none => rfl
      | some k => exact absurd rfl (h.2 k)
    | _ => trivial
  | serverReceive i env => exact h.1
  | clientReceive => trivial
  | fault => trivial

/-- An upload that still goes on has not been interrupted. -/
theorem reaches_without_sigint {net₀ : Net Unit}
    (hrun : Reaches (netStep crc opts fun _ => u) FilesWork net₀ net)
    (hpc : ¬ ClientState.Aborting (net.client ()).pc) :
    Reaches (netStep crc opts fun _ => u)
      (fun net action => FilesWork net action ∧ action ≠ .client () .sigint) net₀ net := by
  induction hrun with
  | refl => exact .refl
  | @tail t net' action hrun' hok hstep ih =>
    -- an interrupt would make the rest of the run an abort
    have hbefore : ¬ ClientState.Aborting (t.client ()).pc ∧ action ≠ .client () .sigint := by
      cases netStep_cases hstep with
      | client hevent hmove =>
        rw [Net.client_afterClient, Net.update_unit] at hpc
        refine ⟨fun h => hpc (hmove.aborting h), ?_⟩
        rintro ⟨⟩
        cases hmove
        exact hpc rfl
      | clientReceive hchannel hmove =>
        rw [Net.client_afterClient, Net.client_setChannel, Net.update_unit] at hpc
        exact ⟨fun h => hpc (hmove.aborting h), nofun⟩
      | serverReceive => exact ⟨hpc, nofun⟩
      | fault =>
        rw [Net.client_setChannel] at hpc
        exact ⟨hpc, nofun⟩
    exact .tail (ih hbefore.1) ⟨hok, hbefore.2⟩ hstep

/-- Once the FIN is made, and nothing has been lost in a crash, the file is complete. -/
theorem NetInv.stored_at_FIN (h : NetInv False crc opts fs₀ (fun _ : Unit => u) net)
    (hpc : ClientState.AtFIN (net.client ()).pc) :
    ∃ l, fs₀.resolve (storagePath opts u.filename) = .ok l ∧
      net.server.fs.node l = some (.regular u.source) := by
  obtain ⟨p, r, hlink, hclient, hserver⟩ := h.transfer ()
  obtain ⟨k, hp, hle⟩ : ∃ k, k + 1 ≤ p ∧ u.source.length ≤ maxPayloadSize * k := by
    cases hclient with
    | @repeating p call hpc' hcall =>
      have hfin : call = .fin := by
        obtain ⟨n, h' | h'⟩ := hpc' <;> rw [h'] at hpc <;> exact hpc
      subst hfin
      cases hcall with
      | @fin k hle => exact ⟨k, Nat.le_refl _, hle⟩
    | opening hpc' => rw [hpc'] at hpc; exact hpc.elim
    | reading hpc' => rw [hpc'] at hpc; exact hpc.elim
    | @finished k _ hle => exact ⟨k, by omega, hle⟩
    | exited hpc' => rw [hpc'] at hpc; exact hpc.elim
  have hr : k + 1 ≤ r := hp.trans hlink.le_and_le.1
  -- the server has accepted the whole source: in an open session, or with the FIN
  cases hserver with
  | waiting => omega
  | @session k' c l _ hsession =>
    have hle' : u.source.length ≤ maxPayloadSize * k' :=
      hle.trans (Nat.mul_le_mul_left _ (by omega))
    refine ⟨l, hsession.location, ?_⟩
    rw [hsession.node, List.take_of_length_le hle']
  | closed _ _ hloc hnode => exact ⟨_, hloc, hnode⟩
  | crashed hmay => exact hmay.elim

/-- The open session of the server has an open file. -/
theorem reaches_fileOpen {net₀ : Net Unit} (hidle : net₀.server.status = .running none)
    (hrun : Reaches (netStep crc opts fun _ => u) FilesWork net₀ net) :
    ∀ c, net.server.status = .running (some c) → FileOpen net.server.fs c := by
  refine hrun.invariant (I := fun net => ∀ c, net.server.status = .running (some c) →
    FileOpen net.server.fs c) ?_ ?_
  · intro c hc
    rw [hidle] at hc
    cases hc
  · intro net action net' h hok hstep
    cases netStep_cases hstep with
    | client => exact h
    | clientReceive => exact h
    | @serverReceive i env currentClient w rest hstatus =>
      refine FileOpen.turn (fun c hc => h c ?_)
        (turn_cases crc opts net.server.fs currentClient ⟨u.address, w, env⟩) hok.1
      rw [hstatus, hc]
    | fault =>
      rw [Net.server_setChannel]
      exact h

end

/-- **No success on lost data**, as long as the files on both sides work: a client that makes
its FIN, or has finished, has its whole source stored, and the payload of a data datagram the
server accepts ends up in the file of the session. -/
theorem no_success_on_lost_data (crc : Bytes → UInt32) (opts : ServerOptions) (fs₀ : FileSystem)
    (u : Upload) (net : Net Unit)
    (hrun : Reaches (netStep crc opts fun _ => u) FilesWork
      (Net.initial (fun _ => u) crc fs₀) net) :
    (ClientState.AtFIN (net.client ()).pc →
      ∃ l, fs₀.resolve (storagePath opts u.filename) = .ok l ∧
        net.server.fs.node l = some (.regular u.source)) ∧
    ∀ env c w, net.server.status = .running (some c) → FilesWork net (.serverReceive () env) →
      Accepts crc c ⟨u.address, w, env⟩ →
      (receive w).getFlags &&& Flags.FIN ≠ Flags.FIN →
      clearFlag (receive w).getFlags Flags.SQN = Flags.None →
      ∃ l content, net.server.fs.resolve c.fileWriter.filePath = .ok l ∧
        net.server.fs.node l = some (.regular content) ∧
        (iteration crc opts net.server.fs (some c) ⟨u.address, w, env⟩).state.fs.node l
          = some (.regular (content ++ (receive w).getPayload)) := by
  refine ⟨fun hpc => ?_, fun env c w hstatus hwork haccept hFIN hdata => ?_⟩
  · -- a client at its FIN has not been interrupted
    have hgoes : ¬ ClientState.Aborting (net.client ()).pc := by
      intro habort
      cases hat : (net.client ()).pc with
      | send call d n =>
        rw [hat] at hpc habort
        exact absurd (hpc.symm.trans habort) (by decide)
      | receive call d n =>
        rw [hat] at hpc habort
        exact absurd (hpc.symm.trans habort) (by decide)
      | exited e => rw [hat] at hpc; exact hpc
      | openFile => rw [hat] at hpc; exact hpc
      | readFile => rw [hat] at hpc; exact hpc
      | finished => rw [hat] at habort; exact habort
    have hinv : NetInv False crc opts fs₀ (fun _ : Unit => u) net := by
      refine (reaches_without_sigint hrun hgoes).invariant .initial ?_
      intro net action net' h hok hstep
      refine h.step (distinct_unit u) hstep (hok.1.undisturbed hok.2) ?_
      rintro i env c rfl hstatus hlog
      exact hok.1.2 c hstatus hlog
    exact hinv.stored_at_FIN hpc
  · have hopen := reaches_fileOpen rfl hrun c hstatus
    obtain ⟨content, hnode⟩ := hopen.node
    refine ⟨_, content, hopen.resolve, hnode, ?_⟩
    -- of all turns only a write fits what has been received
    have hturn := turn_cases crc opts net.server.fs (some c) ⟨u.address, w, env⟩
    generalize iteration crc opts net.server.fs (some c) ⟨u.address, w, env⟩ = out at hturn ⊢
    cases hturn with
    | written =>
      rw [hwork.1, hopen.write]
      exact FileSystem.node_append_self hnode
    | writeFailed _ _ _ hwhy =>
      rcases hwhy with hlog | hclosed
      · exact absurd hlog (hwork.2 c hstatus)
      · rw [hopen.isOpen] at hclosed
        cases hclosed
    | again hcheck => exact absurd haccept.1 (by rw [hcheck]; decide)
    | busy _ hSYN => exact absurd hSYN haccept.2.1
    | abortIgnored _ hABR => exact absurd hABR haccept.2.2.1
    | aborted _ hABR => exact absurd hABR haccept.2.2.1
    | abortFailed _ hABR => exact absurd hABR haccept.2.2.1
    | refused _ _ _ hother => exact absurd haccept.2.2.2.1 (hother c rfl)
    | duplicate _ _ _ _ hsqn => exact absurd haccept.2.2.2.2 hsqn
    | fin _ hfin => exact absurd hfin hFIN
    | finFailed _ hfin => exact absurd hfin hFIN
    | ignored _ _ hno => exact absurd hdata hno

theorem Smooth.filesWork {crc : Bytes → UInt32} {net : Net Unit} {action : Action Unit}
    (h : Smooth crc net action) : FilesWork net action := by
  cases action with
  | client i event =>
    refine ⟨?_, fun k => ?_⟩
    · rintro rfl
      exact absurd h.1 Bool.false_ne_true
    · rintro rfl
      exact absurd h.1 nofun
  | serverReceive i env => exact ⟨h.1.2, fun c hc hlog => h.2.1 c hc hlog.2⟩
  | clientReceive => trivial
  | fault => trivial

/-- Nothing is lost on the way, and nobody interrupts the client. -/
def LossFree : Action Unit → Prop
  | .client _ event => event ≠ .sigint
  | .fault .. => False
  | _ => True

theorem Smooth.lossFree {crc : Bytes → UInt32} {net : Net Unit} {action : Action Unit}
    (h : Smooth crc net action) : LossFree action := by
  cases action with
  | client i event =>
    rintro rfl
    exact h.1
  | fault => exact h
  | serverReceive => trivial
  | clientReceive => trivial

/-- A file of one byte that can be read is stored. -/
theorem readable_file_stored :
    ∃ net : Net Unit, (net.client ()).pc = .finished ∧
      ∃ l, exampleFs.resolve (storagePath exampleOpts (exampleUpload [7]).filename) = .ok l ∧
        net.server.fs.node l = some (.regular (exampleUpload [7]).source) := by
  obtain ⟨net, hrun, hpc, -⟩ := exists_finishing_run CRC.crc32 exampleOpts (exampleUpload [7])
    replace_exampleFs
  have hstored := no_success_on_lost_data CRC.crc32 exampleOpts exampleFs (exampleUpload [7]) net
    (hrun.mono fun _ _ h => h.filesWork)
  have hpast : ClientState.AtFIN (net.client ()).pc := by
    rw [hpc]
    trivial
  exact ⟨net, hpc, hstored.1 hpast⟩

/-- The example's session as it is after the SYN. -/
theorem sessionAt_example : SessionAt exampleOpts exampleFs (exampleUpload [])
    (exampleStored []) exampleSession [[115], [97]] 0 :=
  ⟨rfl, rfl, rfl, rfl, rfl, Upload.unfinished_one _⟩

/-- Whatever the checksum function: a client that cannot open its file of one byte finishes,
and the server has stored an empty file. -/
theorem exists_run_unreadable_file (crc : Bytes → UInt32) :
    ∃ net, Reaches (netStep crc exampleOpts fun _ => exampleUpload [7])
        (fun _ action => LossFree action)
        (Net.initial (fun _ => exampleUpload [7]) crc exampleFs) net ∧
      (net.client ()).pc = .finished ∧
      net.server.fs.node [[115], [97]] = some (.regular []) := by
  let u := exampleUpload [7]
  let s₁ : ClientState := { ClientState.initial crc u with pc := .openFile, currSQN := true }
  let s₂ : ClientState := { s₁ with pc := .readFile }
  let s₃ : ClientState := { s₁ with pc := .send .fin ((exampleUpload []).datagram crc 1) 0 }
  let server : ServerState := ⟨exampleStored [], .running (some exampleSession)⟩
  have hlog : ∀ c, some exampleSession = some c → ¬ c.fileWriter.LogFails exampleEnv := by
    rintro c ⟨⟩
    show ¬ ((2000000 * 1 : ℤ) - 0).tdiv 1000000 = 0
    decide
  -- the SYN is exchanged as ever
  have hSYN : Reaches (netStep crc exampleOpts fun _ => u) (Smooth crc)
      (Net.initial (fun _ => u) crc exampleFs) (.single server s₁ [] []) :=
    exchange u (.initial crc u) .syn none rfl nofun rfl rfl ⟨fun _ => rfl, fun _ => rfl⟩
      ⟨rfl, rfl⟩ nofun (iteration_exampleSYN crc)
  -- the file cannot be opened, so nothing can be read
  have hopen : netStep crc exampleOpts (fun _ => u) (.single server s₁ [] [])
      (.client () (.openFile false)) = some (.single server s₂ [] []) :=
    Net.netStep_single_client rfl rfl
  have hread : netStep crc exampleOpts (fun _ => u) (.single server s₂ [] [])
      (.client () (.read none)) = some (.single server s₃ [] []) :=
    Net.netStep_single_client rfl rfl
  -- the FIN is that of an empty file
  have hturn : iteration crc exampleOpts (exampleStored []) (some exampleSession)
      ⟨u.address, ((exampleUpload []).datagram crc 1).wire, exampleEnv⟩
      = ⟨[(u.address, ((exampleUpload []).datagram crc 1).createACK crc)],
          ⟨exampleStored [], .running none⟩⟩ := by
    have haccepted := iteration_datagram_accepted sessionAt_example crc exampleEnv
    obtain ⟨-, ⟨hfails, -⟩ | hfin⟩ := sessionAt_example.handle_fin crc exampleEnv
      (Nat.le_refl 0)
    · exact absurd hfails (hlog _ rfl)
    · rw [hfin] at haccepted
      exact haccepted
  have hFIN : Reaches (netStep crc exampleOpts fun _ => u) (Smooth crc)
      (.single server s₃ [] [])
      (.single ⟨exampleStored [], .running none⟩
        { s₃ with pc := .finished, currSQN := false } [] []) :=
    exchange (exampleUpload []) s₃ .fin (some exampleSession) rfl nofun rfl rfl ⟨nofun, nofun⟩
      ⟨rfl, rfl⟩ hlog hturn
  have hfirst := hSYN.mono fun _ _ h => h.lossFree
  have hlast := hFIN.mono fun _ _ h => h.lossFree
  have hopenOk : LossFree (.client () (.openFile false)) := nofun
  have hreadOk : LossFree (.client () (.read none)) := nofun
  exact ⟨_, (Reaches.tail (.tail hfirst hopenOk hopen) hreadOk hread).trans hlast, rfl, rfl⟩

/-- A client can report the upload of a file it could not open. -/
theorem unreadable_file_reported :
    ¬ ∀ (opts : ServerOptions) (fs₀ : FileSystem) (u : Upload) (net : Net Unit),
      Reaches (netStep CRC.crc32 opts fun _ => u) (fun _ action => LossFree action)
        (Net.initial (fun _ => u) CRC.crc32 fs₀) net →
      (net.client ()).pc = .finished →
      ∃ l, fs₀.resolve (storagePath opts u.filename) = .ok l ∧
        net.server.fs.node l = some (.regular u.source) := by
  intro h
  obtain ⟨net, hrun, hpc, hnode⟩ := exists_run_unreadable_file CRC.crc32
  obtain ⟨l, hl, hsource⟩ := h exampleOpts exampleFs (exampleUpload [7]) net hrun hpc
  obtain rfl : [[115], [97]] = l := Except.ok.inj hl
  rw [hnode] at hsource
  exact absurd hsource (by decide)

end Rechnernetze.Bft
