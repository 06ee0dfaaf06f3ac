import Rechnernetze.Bft.ServerTheorems

/-!
# What the server has stored

* an open session writes to a regular file that its path still denotes (`FileOpen`);
* beside the server runs a record of its sessions (`record`): the name each was opened for,
  the payloads it accepted and how it ended;
* as long as every abort meets a session that has counted some bytes, the files are what the
  record says (`StorageInv`), so an idle server stores complete uploads only
  (`idle_storage_complete`).
-/

namespace Rechnernetze.Bft

open Lib BftDatagram

/-! ## The file of a session -/

/-- The stream of the session takes output, and the path of the session denotes its file. -/
structure FileOpen (fs : FileSystem) (c : ClientData) : Prop where
  isOpen : c.fileWriter.fileStream.isOpen = true
  good : c.fileWriter.fileStream.good = true
  resolve : fs.resolve c.fileWriter.filePath = .ok c.fileWriter.fileStream.location
  node : ∃ content, fs.node c.fileWriter.fileStream.location = some (.regular content)

section FileOpen
variable {crc : Bytes → UInt32} {opts : ServerOptions} {fs fs' : FileSystem}
  {currentClient : Option ClientData} {c c' : ClientData} {input : ServerInput} {out : Outcome}
  {path : Path} {l : Location}

/-- A new session. -/
theorem FileOpen.of_created (h : FileSystem.Created fs fs' path l) (now : ℤ) (a : SockaddrIn) :
    FileOpen fs' (ClientData.new (.opened path l now) a).incrementSQN where
  isOpen := rfl
  good := rfl
  resolve := h.resolve_after
  node := ⟨[], h.node_eq⟩

/-- Only the writer of a session matters. -/
theorem FileOpen.congr (h : FileOpen fs c) (hw : c'.fileWriter = c.fileWriter) :
    FileOpen fs c' := by
  obtain ⟨isOpen, good, resolve, node⟩ := h
  rw [← hw] at isOpen good resolve node
  exact ⟨isOpen, good, resolve, node⟩

/-- What an accepted payload does to the file. -/
theorem FileOpen.write (h : FileOpen fs c) (data : Bytes) :
    c.fileWriter.fileStream.write fs data none
      = (fs.append c.fileWriter.fileStream.location data, c.fileWriter.fileStream) :=
  OFStream.write_none h.good

/-- The session after an accepted payload. -/
theorem FileOpen.written (h : FileOpen fs c) {data : Bytes} {w : FileWriter}
    (hpath : w.filePath = c.fileWriter.filePath)
    (hstream : w.fileStream = c.fileWriter.fileStream) :
    FileOpen (fs.append c.fileWriter.fileStream.location data)
      { c.incrementSQN with fileWriter := w } := by
  obtain ⟨content, hnode⟩ := h.node
  refine ⟨?_, ?_, ?_, content ++ data, ?_⟩
  · show w.fileStream.isOpen = true
    rw [hstream, h.isOpen]
  · show w.fileStream.good = true
    rw [hstream, h.good]
  · show FileSystem.resolve _ w.filePath = .ok w.fileStream.location
    rw [hpath, hstream, FileSystem.resolve_congr FileSystem.sameDirs_append, h.resolve]
  · show FileSystem.node _ w.fileStream.location = _
    rw [hstream, FileSystem.node_append_self hnode]

/-- **Every turn without a write error keeps the file open.** -/
theorem FileOpen.turn (h : ∀ c, currentClient = some c → FileOpen fs c)
    (hturn : Turn crc opts fs input currentClient out) (henv : input.env.writeLimit = none) :
    ∀ c, out.state.status = .running (some c) → FileOpen out.state.fs c := by
  intro c' hc'
  cases hturn with
  | again => cases hc'; exact h _ rfl
  | opened _ _ hcreated => cases hc'; exact .of_created hcreated _ _
  | busy => cases hc'; exact h _ rfl
  | abortIgnored => cases hc'; exact h _ rfl
  | refused => cases hc'; exact h _ rfl
  | duplicate => cases hc'; exact (h _ rfl).congr rfl
  | written _ _ _ hpath hstream =>
    cases hc'
    have hopen := h _ rfl
    rw [henv, hopen.write] at hstream ⊢
    exact hopen.written hpath hstream
  | ignored => cases hc'; exact (h _ rfl).congr rfl
  | nullDereference => cases hc'
  | notOpened => cases hc'
  | aborted => cases hc'
  | abortFailed => cases hc'
  | fin => cases hc'
  | finFailed => cases hc'
  | writeFailed => cases hc'

end FileOpen

/-! ## The record of the sessions -/

/-- How a session ended. -/
inductive Ending where
  | fin
  | abr
deriving DecidableEq

/-- A session: the name in its SYN, the payloads accepted so far, and its end if it has ended. -/
structure Session where
  name : Bytes
  accepted : Bytes
  ending : Option Ending
deriving DecidableEq

/-- The record after a turn; the newest session comes first. -/
def record (crc : Bytes → UInt32) (currentClient : Option ClientData) (input : ServerInput)
    (sessions : List Session) : List Session :=
  let received := receive input.bytes
  match currentClient with
  | none =>
    if received.checkIntegrity crc ∧ received.flags = Flags.SYN then
      ⟨received.getPayloadAsString, [], none⟩ :: sessions
    else sessions
  | some c =>
    if Accepts crc c input then
      if received.getFlags &&& Flags.FIN = Flags.FIN then
        sessions.modifyHead fun s => { s with ending := some .fin }
      else if clearFlag received.getFlags Flags.SQN = Flags.None then
        sessions.modifyHead fun s => { s with accepted := s.accepted ++ received.getPayload }
      else sessions
    else if Aborts crc c input then
      sessions.modifyHead fun s => { s with ending := some .abr }
    else sessions

/-- A turn of the server with its record. -/
def recordedStep (crc : Bytes → UInt32) (opts : ServerOptions)
    (s : ServerState × List Session) (input : ServerInput) :
    Option (ServerState × List Session) :=
  match s.1.status with
  | .running currentClient =>
    some ((iteration crc opts s.1.fs currentClient input).state,
      record crc currentClient input s.2)
  | .stopped _ => none

/-- The session's file is (or was) the one at `l`. -/
def Session.StoredAt (opts : ServerOptions) (fs₀ : FileSystem) (l : Location) (s : Session) :
    Bool :=
  (fs₀.resolve (storagePath opts s.name)).toOption = some l

/-- The latest session for the file at `l`. -/
def latest (opts : ServerOptions) (fs₀ : FileSystem) (sessions : List Session) (l : Location) :
    Option Session :=
  sessions.find? (Session.StoredAt opts fs₀ l)

/-- What a session leaves at its location: nothing after an abort. -/
def Session.file (s : Session) : Option Node :=
  if s.ending = some .abr then none else some (.regular s.accepted)

section Latest
variable {opts : ServerOptions} {fs₀ : FileSystem} {s s' : Session} {sessions : List Session}
  {l l' : Location}

theorem Session.storedAt_iff :
    s.StoredAt opts fs₀ l = true ↔ fs₀.resolve (storagePath opts s.name) = .ok l := by
  unfold Session.StoredAt
  rw [decide_eq_true_eq]
  cases fs₀.resolve (storagePath opts s.name) with
  | ok l' => simp [Except.toOption]
  | error e => simp [Except.toOption]

theorem latest_cons_self (h : fs₀.resolve (storagePath opts s.name) = .ok l) :
    latest opts fs₀ (s :: sessions) l = some s :=
  List.find?_cons_of_pos (Session.storedAt_iff.mpr h)

theorem latest_cons_of_ne (h : fs₀.resolve (storagePath opts s.name) = .ok l) (hl : l' ≠ l) :
    latest opts fs₀ (s :: sessions) l' = latest opts fs₀ sessions l' := by
  refine List.find?_cons_of_neg ?_
  rw [Session.storedAt_iff, h]
  intro h'
  exact hl (Except.ok.inj h').symm

/-- Changing the newest session matters at its location only. -/
theorem latest_modify_of_ne (s s' : Session)
    (h : fs₀.resolve (storagePath opts s.name) = .ok l)
    (hname : s'.name = s.name) (hl : l' ≠ l) :
    latest opts fs₀ (s' :: sessions) l' = latest opts fs₀ (s :: sessions) l' := by
  rw [latest_cons_of_ne h hl, latest_cons_of_ne (by rw [hname]; exact h) hl]

end Latest

/-! ## What is stored is what is recorded -/

/-- The open session `c` is the newest in the record and its file is where `c` writes. -/
structure OpenSession (opts : ServerOptions) (fs₀ fs : FileSystem) (c : ClientData)
    (sessions : List Session) (s : Session) (rest : List Session) : Prop where
  eq_cons : sessions = s :: rest
  ending : s.ending = none
  location : fs₀.resolve (storagePath opts s.name) = .ok c.fileWriter.fileStream.location
  fileOpen : FileOpen fs c
  rest : ∀ s ∈ rest, s.ending ≠ none

/-- The invariant of the storage, for a server that runs with `currentClient`. -/
structure StorageInv (opts : ServerOptions) (fs₀ fs : FileSystem)
    (currentClient : Option ClientData) (sessions : List Session) : Prop where
  dirsLE : FileSystem.DirsLE fs fs₀
  idle : currentClient = none → ∀ s ∈ sessions, s.ending ≠ none
  busy : ∀ c, currentClient = some c → ∃ s rest, OpenSession opts fs₀ fs c sessions s rest
  node : ∀ l, fs.node l
    = match latest opts fs₀ sessions l with
      | none => fs₀.node l
      | some s => s.file

section StorageInv
variable {crc : Bytes → UInt32} {opts : ServerOptions} {fs₀ fs fs' : FileSystem}
  {currentClient : Option ClientData} {c c' : ClientData} {input : ServerInput} {out : Outcome}
  {sessions rest : List Session} {s : Session}

theorem StorageInv.initial : StorageInv opts fs₀ fs₀ none [] where
  dirsLE := .refl fs₀
  idle := nofun
  busy := nofun
  node _ := rfl

theorem Session.file_of_open (h : s.ending = none) : s.file = some (.regular s.accepted) := by
  rw [Session.file, h]
  rfl

/-- The file of the open session holds the payloads accepted. -/
theorem StorageInv.node_open (h : StorageInv opts fs₀ fs currentClient sessions)
    (hopen : OpenSession opts fs₀ fs c sessions s rest) :
    fs.node c.fileWriter.fileStream.location = some (.regular s.accepted) := by
  rw [h.node, hopen.eq_cons, latest_cons_self hopen.location]
  exact Session.file_of_open hopen.ending

theorem record_unchanged (haccept : ¬ Accepts crc c input) (habort : ¬ Aborts crc c input) :
    record crc (some c) input sessions = sessions := by
  simp only [record, if_neg haccept, if_neg habort]

/-- Nothing happens to the files, the session and the record. -/
theorem StorageInv.unchanged (h : StorageInv opts fs₀ fs (some c) sessions)
    (hw : c'.fileWriter = c.fileWriter) : StorageInv opts fs₀ fs (some c') sessions where
  dirsLE := h.dirsLE
  idle := nofun
  busy := by
    rintro _ ⟨⟩
    obtain ⟨s, rest, hopen⟩ := h.busy c rfl
    exact ⟨s, rest, hopen.eq_cons, hopen.ending, by rw [hw]; exact hopen.location,
      hopen.fileOpen.congr hw, hopen.rest⟩
  node := h.node

/-- A new session replaces the file of its name. -/
theorem StorageInv.opened {name : Bytes} {l : Location} {now : ℤ} {a : SockaddrIn}
    (h : StorageInv opts fs₀ fs none sessions)
    (hcreated : FileSystem.Created fs fs' (storagePath opts name) l) :
    StorageInv opts fs₀ fs'
      (some (ClientData.new (.opened (storagePath opts name) l now) a).incrementSQN)
      (⟨name, [], none⟩ :: sessions) := by
  have hloc : fs₀.resolve (storagePath opts name) = .ok l :=
    FileSystem.resolve_mono h.dirsLE hcreated.resolve_before
  refine ⟨hcreated.dirsLE.trans h.dirsLE, nofun, ?_, fun l' => ?_⟩
  · rintro _ ⟨⟩
    exact ⟨_, _, rfl, rfl, hloc, .of_created hcreated now a, h.idle rfl⟩
  · by_cases hl : l' = l
    · subst hl
      rw [latest_cons_self (s := ⟨name, [], none⟩) hloc, hcreated.node_eq]
      rfl
    · rw [latest_cons_of_ne (s := ⟨name, [], none⟩) hloc hl, hcreated.others l' hl, h.node]

/-- The session ends; its file is left as it is or removed, as the record says. -/
theorem StorageInv.ended (h : StorageInv opts fs₀ fs (some c) sessions) {e : Ending}
    (hdirs : FileSystem.DirsLE fs' fs)
    (hothers : ∀ l, l ≠ c.fileWriter.fileStream.location → fs'.node l = fs.node l)
    (hnode : fs'.node c.fileWriter.fileStream.location
      = if e = .abr then none else fs.node c.fileWriter.fileStream.location) :
    StorageInv opts fs₀ fs' none
      (sessions.modifyHead fun s => { s with ending := some e }) := by
  obtain ⟨s, rest, hopen⟩ := h.busy c rfl
  have hfile := h.node_open hopen
  rw [hopen.eq_cons, List.modifyHead_cons]
  refine ⟨hdirs.trans h.dirsLE, ?_, nofun, fun l => ?_⟩
  · rintro - s' hs'
    rcases List.mem_cons.mp hs' with rfl | hs'
    · exact nofun
    · exact hopen.rest s' hs'
  · by_cases hl : l = c.fileWriter.fileStream.location
    · subst hl
      rw [latest_cons_self (s := { s with ending := some e }) hopen.location, hnode, hfile]
      cases e <;> rfl
    · rw [latest_modify_of_ne s { s with ending := some e } hopen.location rfl hl, hothers l hl,
        h.node, hopen.eq_cons]

/-- An accepted payload is appended to the file and to the record. -/
theorem StorageInv.written (h : StorageInv opts fs₀ fs (some c) sessions) {data : Bytes}
    {w : FileWriter} (hpath : w.filePath = c.fileWriter.filePath)
    (hstream : w.fileStream = c.fileWriter.fileStream) :
    StorageInv opts fs₀ (fs.append c.fileWriter.fileStream.location data)
      (some { c.incrementSQN with fileWriter := w })
      (sessions.modifyHead fun s => { s with accepted := s.accepted ++ data }) := by
  obtain ⟨s, rest, hopen⟩ := h.busy c rfl
  have hfile := h.node_open hopen
  rw [hopen.eq_cons, List.modifyHead_cons]
  refine ⟨FileSystem.sameDirs_append.dirsLE.trans h.dirsLE, nofun, ?_, fun l => ?_⟩
  · rintro _ ⟨⟩
    refine ⟨_, rest, rfl, hopen.ending, ?_, hopen.fileOpen.written hpath hstream, hopen.rest⟩
    show fs₀.resolve _ = .ok w.fileStream.location
    rw [hstream]
    exact hopen.location
  · by_cases hl : l = c.fileWriter.fileStream.location
    · subst hl
      rw [latest_cons_self (s := { s with accepted := s.accepted ++ data }) hopen.location,
        FileSystem.node_append_self hfile]
      exact (Session.file_of_open (s := { s with accepted := s.accepted ++ data })
        hopen.ending).symm
    · rw [latest_modify_of_ne s { s with accepted := s.accepted ++ data } hopen.location rfl hl,
        FileSystem.node_append_of_ne hl, h.node, hopen.eq_cons]

/-- **Every turn keeps the invariant**, unless an abort finds nothing counted or a write
fails. -/
theorem StorageInv.turn (h : StorageInv opts fs₀ fs currentClient sessions)
    (hturn : Turn crc opts fs input currentClient out) (henv : input.env.writeLimit = none)
    (habort : ∀ c, currentClient = some c → Aborts crc c input → c.fileWriter.bytesWritten ≠ 0)
    {currentClient' : Option ClientData} (hstatus : out.state.status = .running currentClient') :
    StorageInv opts fs₀ out.state.fs currentClient' (record crc currentClient input sessions) := by
  cases hturn with
  | @again c hcheck =>
    -- a damaged datagram is neither accepted nor an abort
    cases hstatus
    have hno : (receive input.bytes).checkIntegrity crc ≠ true := by rw [hcheck]; decide
    rw [record_unchanged (fun h' => hno h'.1) (fun h' => hno h'.1)]
    exact h
  -- the SYN begins a session, and its file is new and empty
  | @opened fs' l hcheck hSYN hcreated =>
    cases hstatus
    have hrecord : record crc none input sessions
        = ⟨(receive input.bytes).getPayloadAsString, [], none⟩ :: sessions := by
      simp only [record, hcheck, hSYN, and_self, if_true]
    rw [hrecord]
    exact h.opened hcreated
  | @busy c hcheck hSYN =>
    cases hstatus
    rw [record_unchanged (fun h' => h'.2.1 hSYN) (fun h' => ?_)]
    · exact h
    · have hABR : (receive input.bytes).flags = Flags.ABR := h'.2.1
      rw [hSYN] at hABR
      exact absurd hABR (by decide)
  | abortIgnored hcheck hABR hother =>
    cases hstatus
    cases currentClient with
    | some c =>
      rw [record_unchanged (fun h' => h'.2.2.1 hABR) (fun h' => hother c rfl h'.2.2)]
      exact h
    | none =>
      have hno : ¬ ((receive input.bytes).checkIntegrity crc ∧
          (receive input.bytes).flags = Flags.SYN) := by
        rw [hABR]
        exact fun h' => absurd h'.2 (by decide)
      simp only [record, if_neg hno]
      exact h
  | @aborted c fs' hcheck hABR hip hfs =>
    cases hstatus
    have haborts : Aborts crc c input := ⟨hcheck, hABR, hip⟩
    have hrecord : record crc (some c) input sessions
        = sessions.modifyHead fun s => { s with ending := some .abr } := by
      simp only [record, if_neg haborts.not_accepts, if_pos haborts]
    rw [hrecord]
    obtain ⟨s, rest, hopen⟩ := h.busy c rfl
    obtain ⟨hzero, -⟩ | ⟨-, hremove⟩ := hfs
    · exact absurd hzero (habort c rfl haborts)
    · -- the path still denotes the file, so that is what is removed
      rw [FileSystem.remove_of_regular hopen.fileOpen.resolve (h.node_open hopen)] at hremove
      cases hremove
      refine h.ended FileSystem.dirsLE_erase (fun l hl => FileSystem.node_erase_of_ne hl) ?_
      rw [FileSystem.node_erase_self]
      rfl
  | refused hcheck hSYN hABR hother =>
    cases hstatus
    cases currentClient with
    | some c =>
      rw [record_unchanged (fun h' => hother c rfl h'.2.2.2.1) (fun h' => hABR h'.2.1)]
      exact h
    | none =>
      have hno : ¬ ((receive input.bytes).checkIntegrity crc ∧
          (receive input.bytes).flags = Flags.SYN) := fun h' => hSYN h'.2
      simp only [record, if_neg hno]
      exact h
  | @duplicate c hcheck hSYN hABR hip hsqn =>
    cases hstatus
    rw [record_unchanged (fun h' => hsqn h'.2.2.2.2) (fun h' => hABR h'.2.1)]
    exact h.unchanged rfl
  | @fin c haccept hFIN =>
    cases hstatus
    have hrecord : record crc (some c) input sessions
        = sessions.modifyHead fun s => { s with ending := some .fin } := by
      simp only [record, if_pos haccept, if_pos hFIN]
    rw [hrecord]
    exact h.ended (.refl fs) (fun _ _ => rfl) rfl
  | @written c w haccept hFIN hdata hpath hstream hbytes =>
    cases hstatus
    have hrecord : record crc (some c) input sessions = sessions.modifyHead fun s =>
        { s with accepted := s.accepted ++ (receive input.bytes).getPayload } := by
      simp only [record, if_pos haccept, if_neg hFIN, if_pos hdata]
    obtain ⟨s, rest, hopen⟩ := h.busy c rfl
    -- the whole payload goes to the end of the file
    rw [henv, hopen.fileOpen.write] at hstream ⊢
    rw [hrecord]
    exact h.written hpath hstream
  | @ignored c haccept hFIN hdata =>
    cases hstatus
    have hrecord : record crc (some c) input sessions = sessions := by
      simp only [record, if_pos haccept, if_neg hFIN, if_neg hdata]
    rw [hrecord]
    exact h.unchanged rfl
  -- in the others the server ends
  | nullDereference => cases hstatus
  | notOpened => cases hstatus
  | abortFailed => cases hstatus
  | finFailed => cases hstatus
  | writeFailed => cases hstatus

end StorageInv

/-- The location lies in the storage directory. -/
def InStorage (opts : ServerOptions) (fs : FileSystem) (l : Location) : Prop :=
  ∃ d, fs.resolve (storagePath opts dot) = .ok d ∧ d <+: l ∧ d ≠ l

/-- The turn is free of a write error, and if the datagram aborts the session then that has
counted some bytes. -/
def AbortsRemove (crc : Bytes → UInt32) (s : ServerState × List Session) (input : ServerInput) :
    Prop :=
  input.env.writeLimit = none ∧
    ∀ c, s.1.status = .running (some c) → Aborts crc c input → c.fileWriter.bytesWritten ≠ 0

/-- **An idle server stores complete uploads only**, if every abort has met a session that has
counted some bytes: a file in the directory holds what the latest session for it accepted, and
that session ended with a FIN; a session that ended with an ABR has left no file. -/
theorem idle_storage_complete (crc : Bytes → UInt32) (opts : ServerOptions) (fs₀ : FileSystem)
    (hempty : ∀ l, InStorage opts fs₀ l → fs₀.node l = none) (s : ServerState)
    (sessions : List Session)
    (hrun : Reaches (recordedStep crc opts) (AbortsRemove crc) (⟨fs₀, .running none⟩, [])
      (s, sessions))
    (hidle : s.status = .running none) :
    (∀ l content, InStorage opts fs₀ l → s.fs.node l = some (.regular content) →
      ∃ session, latest opts fs₀ sessions l = some session ∧ session.ending = some .fin ∧
        session.accepted = content) ∧
    ∀ l session, latest opts fs₀ sessions l = some session → session.ending = some .abr →
      s.fs.node l = none := by
  have hinv : StorageInv opts fs₀ s.fs none sessions := by
    refine hrun.invariant (I := fun s => ∀ currentClient, s.1.status = .running currentClient →
      StorageInv opts fs₀ s.1.fs currentClient s.2) ?_ ?_ none hidle
    · rintro currentClient ⟨⟩
      exact .initial
    · rintro ⟨⟨fs, status⟩, sessions⟩ input ⟨s', sessions'⟩ h ⟨henv, habort⟩ hstep cc' hstatus
      unfold recordedStep at hstep
      cases status with
      | stopped => cases hstep
      | running cc =>
        cases hstep
        refine (h cc rfl).turn (turn_cases ..) henv ?_ hstatus
        rintro c rfl
        exact habort c rfl
  refine ⟨fun l content hl hnode => ?_, fun l session hlatest hending => ?_⟩
  · rw [hinv.node] at hnode
    cases hlatest : latest opts fs₀ sessions l with
    | none =>
      -- no session has written here, and the directory was empty
      simp only [hlatest, hempty l hl] at hnode
      cases hnode
    | some session =>
      simp only [hlatest, Session.file] at hnode
      have hmem : session ∈ sessions := List.mem_of_find?_eq_some hlatest
      split at hnode
      · cases hnode
      · rename_i hABR
        cases hnode
        refine ⟨session, rfl, ?_, rfl⟩
        -- it has ended, and not by an abort
        have hended := hinv.idle rfl session hmem
        cases hending : session.ending with
        | none => exact absurd hending hended
        | some e =>
          cases e with
          | fin => rfl
          | abr => exact absurd hending hABR
  · rw [hinv.node, hlatest]
    simp only [Session.file, hending, if_true]

/-! ## An abort after one byte and an abort before -/

theorem recordedStep_running {crc : Bytes → UInt32} {opts : ServerOptions} {fs : FileSystem}
    {currentClient : Option ClientData} {sessions sessions' : List Session} {input : ServerInput}
    {out : Outcome} (h : iteration crc opts fs currentClient input = out)
    (hrecord : record crc currentClient input sessions = sessions') :
    recordedStep crc opts (⟨fs, .running currentClient⟩, sessions) input
      = some (out.state, sessions') := by
  rw [recordedStep, ← h, ← hrecord]

/-- The storage directory of the example is empty. -/
theorem exampleFs_empty (l : Location) (hl : InStorage exampleOpts exampleFs l) :
    exampleFs.node l = none := by
  obtain ⟨d, hd, hprefix, hne⟩ := hl
  obtain rfl : [[115]] = d := Except.ok.inj hd
  have hroot : l ≠ [] := by
    rintro rfl
    exact absurd hprefix (by decide)
  simp [exampleFs, FileSystem.node, List.lookup_cons, beq_eq_false_iff_ne.mpr hroot,
    beq_eq_false_iff_ne.mpr (Ne.symm hne)]

/-- The record of the example after its SYN. -/
theorem record_exampleSYN (crc : Bytes → UInt32) :
    record crc none ⟨exampleAddr, (exampleSYN crc).wire, exampleEnv⟩ [] = [⟨[97], [], none⟩] := by
  have hwf := wellFormed_exampleSYN crc
  have hname : (exampleSYN crc).getPayloadAsString = [97] := getPayload_init ..
  have hSYN : (exampleSYN crc).flags = Flags.SYN := rfl
  simp only [record, hwf.receive_wire, hwf.checkIntegrity, hSYN, hname, and_self, if_true]

/-- The ABR of the owner aborts any of its sessions. -/
theorem aborts_exampleABR (crc : Bytes → UInt32) {c : ClientData}
    (hc : c.address = exampleAddr) (env : Env) :
    Aborts crc c ⟨exampleAddr, (BftDatagram.ABR crc).wire, env⟩ := by
  have hwf : (BftDatagram.ABR crc).WellFormed crc := wellFormed_init ..
  refine ⟨?_, ?_, ?_⟩
  · rw [hwf.receive_wire, hwf.checkIntegrity]
  · rw [hwf.receive_wire]
    rfl
  · rw [hc]

theorem record_exampleABR {c : ClientData} (crc : Bytes → UInt32) (hc : c.address = exampleAddr)
    (name accepted : Bytes) :
    record crc (some c) ⟨exampleAddr, (BftDatagram.ABR crc).wire, exampleEnv⟩
        [⟨name, accepted, none⟩]
      = [⟨name, accepted, some .abr⟩] := by
  have haborts := aborts_exampleABR crc hc exampleEnv
  rw [record, if_neg haborts.not_accepts, if_pos haborts]
  rfl

theorem record_exampleData (crc : Bytes → UInt32) :
    record crc (some exampleSession) ⟨exampleAddr, (exampleData crc).wire, exampleEnv⟩
        [⟨[97], [], none⟩]
      = [⟨[97], [7], none⟩] := by
  have hwf := wellFormed_exampleData crc
  have hflags : (exampleData crc).flags = Flags.None ||| Flags.SQN := rfl
  have hpayload : (exampleData crc).getPayload = [7] := getPayload_init ..
  have haccept : Accepts crc exampleSession
      ⟨exampleAddr, (exampleData crc).wire, exampleEnv⟩ := by
    rw [Accepts, hwf.receive_wire, hflags]
    exact ⟨hwf.checkIntegrity, by decide, by decide, rfl, getSQN_init ..⟩
  simp only [record, if_pos haccept, hwf.receive_wire, getFlags, hflags, hpayload]
  rfl

/-- A session with one byte: its abort removes the file. -/
theorem example_abort_removes :
    ∃ (s : ServerState) (sessions : List Session), s.status = .running none ∧
      latest exampleOpts exampleFs sessions [[115], [97]] = some ⟨[97], [7], some .abr⟩ ∧
      s.fs.node [[115], [97]] = none := by
  let crc := CRC.crc32
  let fs := (exampleStored []).append [[115], [97]] [7]
  have hSYN := recordedStep_running (iteration_exampleSYN crc) (record_exampleSYN crc)
  have hdata := recordedStep_running (iteration_exampleData crc) (record_exampleData crc)
  have habort : exampleSessionData.fileWriter.abort fs = (fs.erase [[115], [97]], .ok ()) := rfl
  have hABR := recordedStep_running (iteration_exampleABR crc fs _ rfl habort)
    (record_exampleABR crc rfl [97] [7])
  have hno : ∀ {w : Bytes}, (receive w).flags ≠ Flags.ABR →
      ∀ c, ¬ Aborts crc c ⟨exampleAddr, w, exampleEnv⟩ := fun hw c h => hw h.2.1
  have hrun : Reaches (recordedStep crc exampleOpts) (AbortsRemove crc)
      (⟨exampleFs, .running none⟩, [])
      (⟨fs.erase [[115], [97]], .running none⟩, [⟨[97], [7], some .abr⟩]) := by
    refine .tail (.tail (.tail .refl ⟨rfl, nofun⟩ hSYN) ⟨rfl, ?_⟩ hdata) ⟨rfl, ?_⟩ hABR
    · intro c _ h
      refine absurd h (hno ?_ c)
      rw [(wellFormed_exampleData crc).receive_wire]
      decide
    · rintro c ⟨⟩ -
      decide
  have hstored := idle_storage_complete crc exampleOpts exampleFs exampleFs_empty _ _ hrun rfl
  exact ⟨⟨fs.erase [[115], [97]], .running none⟩, [⟨[97], [7], some .abr⟩], rfl, rfl,
    hstored.2 _ ⟨[97], [7], some .abr⟩ rfl rfl⟩

/-- A session aborted before its first byte leaves an empty file. -/
theorem exists_run_abort_leaves_file (crc : Bytes → UInt32) :
    ∃ s sessions, Reaches (recordedStep crc exampleOpts) (fun _ input => input.env.NoIOError)
        (⟨exampleFs, .running none⟩, []) (s, sessions) ∧
      s.status = .running none ∧
      latest exampleOpts exampleFs sessions [[115], [97]] = some ⟨[97], [], some .abr⟩ ∧
      s.fs.node [[115], [97]] = some (.regular []) := by
  have hSYN := recordedStep_running (iteration_exampleSYN crc) (record_exampleSYN crc)
  have hABR := recordedStep_running
    (iteration_exampleABR crc (exampleStored []) (exampleStored []) rfl rfl)
    (record_exampleABR (c := exampleSession) crc rfl [97] [])
  exact ⟨_, _, .tail (.tail .refl ⟨rfl, rfl⟩ hSYN) ⟨rfl, rfl⟩ hABR, rfl, rfl, rfl⟩

/-- An abort can leave a file behind. -/
theorem abort_leaves_empty_file :
    ¬ ∀ (opts : ServerOptions) (fs₀ : FileSystem) (s : ServerState) (sessions : List Session),
      (∀ l, InStorage opts fs₀ l → fs₀.node l = none) →
      Reaches (recordedStep CRC.crc32 opts) (fun _ input => input.env.NoIOError)
        (⟨fs₀, .running none⟩, []) (s, sessions) →
      s.status = .running none →
      ∀ l session, latest opts fs₀ sessions l = some session → session.ending = some .abr →
        s.fs.node l = none := by
  intro h
  obtain ⟨s, sessions, hrun, hidle, hlatest, hnode⟩ := exists_run_abort_leaves_file CRC.crc32
  have hnone := h exampleOpts exampleFs s sessions exampleFs_empty hrun hidle _ _ hlatest rfl
  rw [hnode] at hnone
  cases hnone

end Rechnernetze.Bft
