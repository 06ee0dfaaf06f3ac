import Mathlib.Tactic.Common
import Rechnernetze.Lib.Runs
import Rechnernetze.Bft.DatagramTheorems
import Rechnernetze.Bft.Server

/-!
# One turn of the server

* which branch a received datagram takes (`iteration_wire`, `iteration_corrupt`);
* everything a turn can do, one case for each way through the loop (`turn_cases`), and what it
  answers (`Turn.reply`).
-/

namespace Rechnernetze.Bft

open Lib BftDatagram

section
variable {crc : Bytes → UInt32} {opts : ServerOptions} {fs : FileSystem}
  {currentClient : Option ClientData} {c : ClientData} {d : BftDatagram}
  {sender : SockaddrIn} {bytes : Bytes} {env : Env} {input : ServerInput} {out : Outcome}

/-! ## Branches -/

theorem isSYN_iff : d.isSYN crc = true ↔ d.flags = Flags.SYN := by
  have hflags : (SYN crc).flags = Flags.SYN := rfl
  simp only [isSYN, getFlags, getSQN, hflags, decide_eq_true_eq, and_iff_left_iff_imp]
  intro h
  rw [h]

theorem isABR_iff : d.isABR crc = true ↔ d.flags = Flags.ABR := by
  have hflags : (ABR crc).flags = Flags.ABR := rfl
  simp only [isABR, getFlags, getSQN, hflags, decide_eq_true_eq, and_iff_left_iff_imp]
  intro h
  rw [h]

theorem serverStep_running :
    serverStep crc opts ⟨fs, .running currentClient⟩ input
      = some (iteration crc opts fs currentClient input).state := rfl

theorem iteration_intact (h : (receive bytes).checkIntegrity crc = true) :
    iteration crc opts fs currentClient ⟨sender, bytes, env⟩
      = onIntact crc opts fs currentClient (receive bytes) sender env := by
  simp only [iteration, h, if_true]

/-- A datagram that was sent by one of the constructors is dispatched as it was built. -/
theorem iteration_wire (h : d.WellFormed crc) :
    iteration crc opts fs currentClient ⟨sender, d.wire, env⟩
      = onIntact crc opts fs currentClient d sender env := by
  have hr := h.receive_wire
  rw [iteration_intact (by rw [hr]; exact h.checkIntegrity), hr]

theorem iteration_corrupt_idle (h : (receive bytes).checkIntegrity crc = false) :
    iteration crc opts fs none ⟨sender, bytes, env⟩ = ⟨[], ⟨fs, .stopped .nullDereference⟩⟩ := by
  simp only [iteration, h, Bool.false_eq_true, if_false]

theorem iteration_corrupt (h : (receive bytes).checkIntegrity crc = false) :
    iteration crc opts fs (some c) ⟨sender, bytes, env⟩
      = ⟨[(sender, ofFlags crc Flags.AGN c.currentSQN)], ⟨fs, .running (some c)⟩⟩ := by
  simp only [iteration, h, Bool.false_eq_true, if_false]

theorem onIntact_SYN (h : d.flags = Flags.SYN) :
    onIntact crc opts fs currentClient d sender env
      = onSYN crc opts fs currentClient d sender env := by
  rw [onIntact, if_pos (isSYN_iff.mpr h)]

theorem onIntact_ABR (h : d.flags = Flags.ABR) :
    onIntact crc opts fs currentClient d sender env = onABR crc fs currentClient d sender := by
  have hSYN : ¬ d.isSYN crc = true := by rw [isSYN_iff, h]; decide
  rw [onIntact, if_neg hSYN, if_pos (isABR_iff.mpr h)]

theorem onIntact_regular (hSYN : d.flags ≠ Flags.SYN) (hABR : d.flags ≠ Flags.ABR) :
    onIntact crc opts fs currentClient d sender env
      = onRegular crc fs currentClient d sender env := by
  rw [onIntact, if_neg (by rwa [isSYN_iff]), if_neg (by rwa [isABR_iff])]

theorem onSYN_busy :
    onSYN crc opts fs (some c) d sender env
      = ⟨[(sender, ABR crc)], ⟨fs, .running (some c)⟩⟩ := rfl

theorem onABR_other (h : ∀ c, currentClient = some c → sender.sinAddr ≠ c.address.sinAddr) :
    onABR crc fs currentClient d sender
      = ⟨[(sender, d.createACK crc)], ⟨fs, .running currentClient⟩⟩ := by
  unfold onABR
  split
  · rfl
  · rw [if_neg (h _ rfl)]

theorem onABR_owner {fs' : FileSystem} (h : sender.sinAddr = c.address.sinAddr)
    (habort : c.fileWriter.abort fs = (fs', .ok ())) :
    onABR crc fs (some c) d sender = ⟨[(sender, d.createACK crc)], ⟨fs', .running none⟩⟩ := by
  simp only [onABR, h, habort, if_true]

theorem onRegular_other (h : ∀ c, currentClient = some c → sender.sinAddr ≠ c.address.sinAddr) :
    onRegular crc fs currentClient d sender env
      = ⟨[(sender, ABR crc)], ⟨fs, .running currentClient⟩⟩ := by
  unfold onRegular
  split
  · rfl
  · rw [if_pos (h _ rfl)]

theorem onRegular_duplicate (h : sender.sinAddr = c.address.sinAddr)
    (hsqn : d.getSQN ≠ c.currentSQN) :
    onRegular crc fs (some c) d sender env
      = ⟨[(c.address, d.createACK crc)],
          ⟨fs, .running (some { c with nDuplicates := c.nDuplicates + 1 })⟩⟩ := by
  rw [onRegular]
  simp [h, hsqn]

theorem onRegular_accepted (h : sender.sinAddr = c.address.sinAddr)
    (hsqn : d.getSQN = c.currentSQN) :
    onRegular crc fs (some c) d sender env
      = ⟨[(c.address, d.createACK crc)],
          .after (handleValidDatagram fs c.incrementSQN d env)⟩ := by
  rw [onRegular]
  simp [h, hsqn]

/-! ## What the handlers can do -/

/-- An idle server that handles a SYN opens a new empty file for the client, or ends. -/
theorem handleSYN_cases (opts : ServerOptions) (fs : FileSystem) (d : BftDatagram)
    (sender : SockaddrIn) (env : Env) :
    (∃ fs' l, handleSYN opts fs none d sender env
        = (fs', .ok (some (.new (.opened (storagePath opts d.getPayloadAsString) l (env.clock 0))
            sender))) ∧
      FileSystem.Created fs fs' (storagePath opts d.getPayloadAsString) l) ∨
      ∃ fs' e, handleSYN opts fs none d sender env = (fs', .error e) ∧ e ≠ .nullDereference ∧
        FileSystem.DirsLE fs' fs ∧
        ∀ l, fs.resolve (storagePath opts d.getPayloadAsString) ≠ .ok l →
          fs'.node l = fs.node l := by
  set p := storagePath opts d.getPayloadAsString with hp
  unfold handleSYN
  simp only [← hp]
  cases hex : fs.existsAt p with
  | error e =>
    exact Or.inr ⟨fs, .uncaught e, rfl, nofun, .refl fs, fun _ _ => rfl⟩
  | ok b =>
    cases b with
    | false =>
      -- the file is created
      rcases FileWriter.new_cases fs p env with ⟨fs', l, ho, hn⟩ | hn
      · exact Or.inl ⟨fs', l, by simp only [hn]; rfl, .of_openAppend hex ho⟩
      · exact Or.inr ⟨fs, .exitFailure, by simp only [hn]; rfl, nofun, .refl fs, fun _ _ => rfl⟩
    | true =>
      -- the old file is removed first; the process may die before the new one is there
      cases hrm : fs.remove p with
      | error e => exact Or.inr ⟨fs, .uncaught e, rfl, nofun, .refl fs, fun _ _ => rfl⟩
      | ok fs₁ =>
        rcases FileWriter.new_cases fs₁ p env with ⟨fs', l, ho, hn⟩ | hn
        · exact Or.inl ⟨fs', l, by simp only [hn]; rfl, .of_remove_openAppend hex hrm ho⟩
        · obtain ⟨l₀, hr₀, rfl⟩ := FileSystem.remove_eq_ok hex hrm
          refine Or.inr ⟨_, .exitFailure, by simp only [hn]; rfl, nofun, FileSystem.dirsLE_erase,
            fun l hl => FileSystem.node_erase_of_ne ?_⟩
          rintro rfl
          exact hl hr₀

/-- Where the path of a SYN can be replaced by a new file, the session starts. -/
theorem handleSYN_established {fs' : FileSystem} {l : Location}
    (h : fs.replace (storagePath opts d.getPayloadAsString) = .ok (fs', l))
    (hopen : env.openOk = true) :
    handleSYN opts fs none d sender env
      = (fs', .ok (some (.new (.opened (storagePath opts d.getPayloadAsString) l (env.clock 0))
          sender))) := by
  unfold FileSystem.replace at h
  split at h
  · cases h
  · rename_i hex
    split at h
    · cases h
    · rename_i fs₁ hrm
      have hnew := FileWriter.new_of_openAppend h hopen
      simp only [handleSYN, hex, hrm, hnew]
      rfl
  · rename_i hex
    have hnew := FileWriter.new_of_openAppend h hopen
    simp only [handleSYN, hex, hnew]
    rfl

/-- The idle server answers such a SYN and holds a session from then on. -/
theorem onSYN_idle {fs' : FileSystem} {l : Location}
    (h : fs.replace (storagePath opts d.getPayloadAsString) = .ok (fs', l))
    (hopen : env.openOk = true) :
    onSYN crc opts fs none d sender env
      = ⟨[(sender, d.createACK crc)],
          ⟨fs', .running (some (ClientData.new
            (.opened (storagePath opts d.getPayloadAsString) l (env.clock 0))
            sender).incrementSQN)⟩⟩ := by
  rw [onSYN, handleSYN_established h hopen]

/-- The datagram in order: a FIN ends the session or the process, a data datagram is written
or ends the process, any other set of flags has no effect. -/
theorem handleValidDatagram_cases (fs : FileSystem) (c : ClientData) (d : BftDatagram) (env : Env) :
    (d.getFlags &&& Flags.FIN = Flags.FIN ∧
      (handleValidDatagram fs c d env = (fs, .ok none) ∨
        c.fileWriter.LogFails env ∧
          handleValidDatagram fs c d env = (fs, .error .divisionByZero))) ∨
    (d.getFlags &&& Flags.FIN ≠ Flags.FIN ∧ clearFlag d.getFlags Flags.SQN = Flags.None ∧
      ((∃ e, e ≠ .nullDereference ∧
          (c.fileWriter.LogDue env ∧ c.fileWriter.LogFails env ∨
            c.fileWriter.fileStream.isOpen = false) ∧
          handleValidDatagram fs c d env = (fs, .error e)) ∨
        ∃ w, handleValidDatagram fs c d env
            = ((c.fileWriter.fileStream.write fs d.getPayload env.writeLimit).1,
              .ok (some { c with fileWriter := w })) ∧
          w.filePath = c.fileWriter.filePath ∧
          w.fileStream = (c.fileWriter.fileStream.write fs d.getPayload env.writeLimit).2 ∧
          w.bytesWritten = c.fileWriter.bytesWritten + UInt64.ofNat d.getPayload.length)) ∨
    (d.getFlags &&& Flags.FIN ≠ Flags.FIN ∧ clearFlag d.getFlags Flags.SQN ≠ Flags.None ∧
      handleValidDatagram fs c d env = (fs, .ok (some c))) := by
  unfold handleValidDatagram
  split
  · rename_i hfin
    -- the last rate is logged before the session is given up
    refine Or.inl ⟨hfin, ?_⟩
    rcases FileWriter.logBytesWritten_cases c.fileWriter env with ⟨hfails, h⟩ | h <;> rw [h]
    · exact Or.inr ⟨hfails, rfl⟩
    · exact Or.inl rfl
  · rename_i hfin
    split
    · rename_i hdata
      -- the payload is written, with a log before it if one is due
      refine Or.inr (Or.inl ⟨hfin, hdata, ?_⟩)
      rcases FileWriter.writeBytes_cases c.fileWriter fs d.getPayload env
        with ⟨e, he, hwhy, h⟩ | ⟨w, h, h1, h2, h3⟩ <;> rw [h]
      · exact Or.inl ⟨e, he, hwhy, rfl⟩
      · exact Or.inr ⟨w, rfl, h1, h2, h3⟩
    · rename_i hdata
      -- neither a FIN nor data, for which the source has no branch
      exact Or.inr (Or.inr ⟨hfin, hdata, rfl⟩)

/-! ## One turn -/

/-- The datagram is the next regular one of the session `c`. -/
def Accepts (crc : Bytes → UInt32) (c : ClientData) (input : ServerInput) : Prop :=
  (receive input.bytes).checkIntegrity crc = true ∧
    (receive input.bytes).flags ≠ Flags.SYN ∧ (receive input.bytes).flags ≠ Flags.ABR ∧
    input.sender.sinAddr = c.address.sinAddr ∧ (receive input.bytes).getSQN = c.currentSQN

instance : Decidable (Accepts crc c input) := by unfold Accepts; infer_instance

/-- The datagram is an ABR that ends the session `c`. -/
def Aborts (crc : Bytes → UInt32) (c : ClientData) (input : ServerInput) : Prop :=
  (receive input.bytes).checkIntegrity crc = true ∧
    (receive input.bytes).flags = Flags.ABR ∧ input.sender.sinAddr = c.address.sinAddr

instance : Decidable (Aborts crc c input) := by unfold Aborts; infer_instance

theorem Aborts.not_accepts (h : Aborts crc c input) : ¬ Accepts crc c input :=
  fun h' => h'.2.2.1 h.2.1

/-- The sender is no owner of a session. -/
def Stranger (currentClient : Option ClientData) (input : ServerInput) : Prop :=
  ∀ c, currentClient = some c → input.sender.sinAddr ≠ c.address.sinAddr

/-- Everything one turn can do, one case for each way through the loop. -/
inductive Turn (crc : Bytes → UInt32) (opts : ServerOptions) (fs : FileSystem)
    (input : ServerInput) : Option ClientData → Outcome → Prop
  | nullDereference (hcheck : (receive input.bytes).checkIntegrity crc = false) :
      Turn crc opts fs input none ⟨[], ⟨fs, .stopped .nullDereference⟩⟩
  | again {c : ClientData} (hcheck : (receive input.bytes).checkIntegrity crc = false) :
      Turn crc opts fs input (some c)
        ⟨[(input.sender, ofFlags crc Flags.AGN c.currentSQN)], ⟨fs, .running (some c)⟩⟩
  | opened {fs' : FileSystem} {l : Location}
      (hcheck : (receive input.bytes).checkIntegrity crc = true)
      (hSYN : (receive input.bytes).flags = Flags.SYN)
      (hcreated : FileSystem.Created fs fs'
        (storagePath opts (receive input.bytes).getPayloadAsString) l) :
      Turn crc opts fs input none
        ⟨[(input.sender, (receive input.bytes).createACK crc)],
          ⟨fs', .running (some (ClientData.new (.opened
            (storagePath opts (receive input.bytes).getPayloadAsString) l (input.env.clock 0))
            input.sender).incrementSQN)⟩⟩
  | notOpened {fs' : FileSystem} {e : Stop}
      (hcheck : (receive input.bytes).checkIntegrity crc = true)
      (hSYN : (receive input.bytes).flags = Flags.SYN) (he : e ≠ .nullDereference)
      (hwhy : ∀ r, input.env.openOk = true →
        fs.replace (storagePath opts (receive input.bytes).getPayloadAsString) ≠ .ok r) :
      Turn crc opts fs input none ⟨[], ⟨fs', .stopped e⟩⟩
  | busy {c : ClientData} (hcheck : (receive input.bytes).checkIntegrity crc = true)
      (hSYN : (receive input.bytes).flags = Flags.SYN) :
      Turn crc opts fs input (some c)
        ⟨[(input.sender, BftDatagram.ABR crc)], ⟨fs, .running (some c)⟩⟩
  | abortIgnored {currentClient : Option ClientData}
      (hcheck : (receive input.bytes).checkIntegrity crc = true)
      (hABR : (receive input.bytes).flags = Flags.ABR) (hother : Stranger currentClient input) :
      Turn crc opts fs input currentClient
        ⟨[(input.sender, (receive input.bytes).createACK crc)], ⟨fs, .running currentClient⟩⟩
  | aborted {c : ClientData} {fs' : FileSystem}
      (hcheck : (receive input.bytes).checkIntegrity crc = true)
      (hABR : (receive input.bytes).flags = Flags.ABR)
      (hip : input.sender.sinAddr = c.address.sinAddr)
      (hfs : c.fileWriter.bytesWritten = 0 ∧ fs' = fs ∨
        c.fileWriter.bytesWritten ≠ 0 ∧ fs.remove c.fileWriter.filePath = .ok fs') :
      Turn crc opts fs input (some c)
        ⟨[(input.sender, (receive input.bytes).createACK crc)], ⟨fs', .running none⟩⟩
  | abortFailed {c : ClientData} {e : Errno}
      (hcheck : (receive input.bytes).checkIntegrity crc = true)
      (hABR : (receive input.bytes).flags = Flags.ABR)
      (hip : input.sender.sinAddr = c.address.sinAddr)
      (hremove : fs.remove c.fileWriter.filePath = .error e) :
      Turn crc opts fs input (some c)
        ⟨[(input.sender, (receive input.bytes).createACK crc)], ⟨fs, .stopped (.uncaught e)⟩⟩
  | refused {currentClient : Option ClientData}
      (hcheck : (receive input.bytes).checkIntegrity crc = true)
      (hSYN : (receive input.bytes).flags ≠ Flags.SYN)
      (hABR : (receive input.bytes).flags ≠ Flags.ABR) (hother : Stranger currentClient input) :
      Turn crc opts fs input currentClient
        ⟨[(input.sender, BftDatagram.ABR crc)], ⟨fs, .running currentClient⟩⟩
  | duplicate {c : ClientData} (hcheck : (receive input.bytes).checkIntegrity crc = true)
      (hSYN : (receive input.bytes).flags ≠ Flags.SYN)
      (hABR : (receive input.bytes).flags ≠ Flags.ABR)
      (hip : input.sender.sinAddr = c.address.sinAddr)
      (hsqn : (receive input.bytes).getSQN ≠ c.currentSQN) :
      Turn crc opts fs input (some c)
        ⟨[(c.address, (receive input.bytes).createACK crc)],
          ⟨fs, .running (some { c with nDuplicates := c.nDuplicates + 1 })⟩⟩
  | fin {c : ClientData} (haccept : Accepts crc c input)
      (hFIN : (receive input.bytes).getFlags &&& Flags.FIN = Flags.FIN) :
      Turn crc opts fs input (some c)
        ⟨[(c.address, (receive input.bytes).createACK crc)], ⟨fs, .running none⟩⟩
  | finFailed {c : ClientData} (haccept : Accepts crc c input)
      (hFIN : (receive input.bytes).getFlags &&& Flags.FIN = Flags.FIN)
      (hlog : c.fileWriter.LogFails input.env) :
      Turn crc opts fs input (some c)
        ⟨[(c.address, (receive input.bytes).createACK crc)], ⟨fs, .stopped .divisionByZero⟩⟩
  | written {c : ClientData} {w : FileWriter} (haccept : Accepts crc c input)
      (hFIN : (receive input.bytes).getFlags &&& Flags.FIN ≠ Flags.FIN)
      (hdata : clearFlag (receive input.bytes).getFlags Flags.SQN = Flags.None)
      (hpath : w.filePath = c.fileWriter.filePath)
      (hstream : w.fileStream
        = (c.fileWriter.fileStream.write fs (receive input.bytes).getPayload
            input.env.writeLimit).2)
      (hbytes : w.bytesWritten
        = c.fileWriter.bytesWritten + UInt64.ofNat (receive input.bytes).getPayload.length) :
      Turn crc opts fs input (some c)
        ⟨[(c.address, (receive input.bytes).createACK crc)],
          ⟨(c.fileWriter.fileStream.write fs (receive input.bytes).getPayload
            input.env.writeLimit).1, .running (some { c.incrementSQN with fileWriter := w })⟩⟩
  | writeFailed {c : ClientData} {e : Stop} (haccept : Accepts crc c input)
      (hdata : clearFlag (receive input.bytes).getFlags Flags.SQN = Flags.None)
      (he : e ≠ .nullDereference)
      (hwhy : c.fileWriter.LogDue input.env ∧ c.fileWriter.LogFails input.env ∨
        c.fileWriter.fileStream.isOpen = false) :
      Turn crc opts fs input (some c)
        ⟨[(c.address, (receive input.bytes).createACK crc)], ⟨fs, .stopped e⟩⟩
  | ignored {c : ClientData} (haccept : Accepts crc c input)
      (hFIN : (receive input.bytes).getFlags &&& Flags.FIN ≠ Flags.FIN)
      (hdata : clearFlag (receive input.bytes).getFlags Flags.SQN ≠ Flags.None) :
      Turn crc opts fs input (some c)
        ⟨[(c.address, (receive input.bytes).createACK crc)],
          ⟨fs, .running (some c.incrementSQN)⟩⟩

theorem turn_SYN (hcheck : (receive input.bytes).checkIntegrity crc = true)
    (hSYN : (receive input.bytes).flags = Flags.SYN) :
    Turn crc opts fs input currentClient
      (onSYN crc opts fs currentClient (receive input.bytes) input.sender input.env) := by
  cases currentClient with
  | some c =>
    rw [onSYN_busy]
    exact .busy hcheck hSYN
  | none =>
    unfold onSYN
    rcases handleSYN_cases opts fs (receive input.bytes) input.sender input.env
      with ⟨fs', l, h, hcreated⟩ | ⟨fs', e, h, he, -⟩
    · rw [h]
      exact .opened hcheck hSYN hcreated
    · have hwhy : ∀ r, input.env.openOk = true →
          fs.replace (storagePath opts (receive input.bytes).getPayloadAsString) ≠ .ok r := by
        rintro ⟨fs'', l⟩ hopen hreplace
        rw [handleSYN_established hreplace hopen] at h
        cases h
      rw [h]
      exact .notOpened hcheck hSYN he hwhy

theorem turn_ABR (hcheck : (receive input.bytes).checkIntegrity crc = true)
    (hABR : (receive input.bytes).flags = Flags.ABR) :
    Turn crc opts fs input currentClient
      (onABR crc fs currentClient (receive input.bytes) input.sender) := by
  by_cases hother : Stranger currentClient input
  · rw [onABR_other hother]
    exact .abortIgnored hcheck hABR hother
  · obtain ⟨c, rfl, hip⟩ : ∃ c, currentClient = some c ∧
        input.sender.sinAddr = c.address.sinAddr := by
      simpa [Stranger] using hother
    unfold onABR
    simp only [hip, if_true]
    rcases FileWriter.abort_cases c.fileWriter fs
      with ⟨hzero, h⟩ | ⟨hpos, fs', hremove, h⟩ | ⟨e, hremove, h⟩ <;> rw [h]
    · exact .aborted hcheck hABR hip (Or.inl ⟨hzero, rfl⟩)
    · exact .aborted hcheck hABR hip (Or.inr ⟨hpos, hremove⟩)
    · exact .abortFailed hcheck hABR hip hremove

theorem turn_regular (hcheck : (receive input.bytes).checkIntegrity crc = true)
    (hSYN : (receive input.bytes).flags ≠ Flags.SYN)
    (hABR : (receive input.bytes).flags ≠ Flags.ABR) :
    Turn crc opts fs input currentClient
      (onRegular crc fs currentClient (receive input.bytes) input.sender input.env) := by
  by_cases hother : Stranger currentClient input
  · rw [onRegular_other hother]
    exact .refused hcheck hSYN hABR hother
  · obtain ⟨c, rfl, hip⟩ : ∃ c, currentClient = some c ∧
        input.sender.sinAddr = c.address.sinAddr := by
      simpa [Stranger] using hother
    by_cases hsqn : (receive input.bytes).getSQN = c.currentSQN
    · -- the datagram in order, handled by `handle_valid_datagram`
      have haccept : Accepts crc c input := ⟨hcheck, hSYN, hABR, hip, hsqn⟩
      rw [onRegular_accepted hip hsqn]
      rcases handleValidDatagram_cases fs c.incrementSQN (receive input.bytes) input.env
        with ⟨hFIN, h | ⟨hlog, h⟩⟩ |
          ⟨hFIN, hdata, ⟨e, he, hwhy, h⟩ | ⟨w, h, hpath, hstream, hbytes⟩⟩ |
          ⟨hFIN, hdata, h⟩ <;> rw [h]
      · exact .fin haccept hFIN
      · exact .finFailed haccept hFIN hlog
      · exact .writeFailed haccept hdata he hwhy
      · exact .written haccept hFIN hdata hpath hstream hbytes
      · exact .ignored haccept hFIN hdata
    · rw [onRegular_duplicate hip hsqn]
      exact .duplicate hcheck hSYN hABR hip hsqn

/-- **Inversion of a turn.** -/
theorem turn_cases (crc : Bytes → UInt32) (opts : ServerOptions) (fs : FileSystem)
    (currentClient : Option ClientData) (input : ServerInput) :
    Turn crc opts fs input currentClient (iteration crc opts fs currentClient input) := by
  cases hcheck : (receive input.bytes).checkIntegrity crc with
  | false =>
    cases currentClient with
    | none =>
      rw [iteration_corrupt_idle hcheck]
      exact .nullDereference hcheck
    | some c =>
      rw [iteration_corrupt hcheck]
      exact .again hcheck
  | true =>
    rw [iteration_intact hcheck]
    by_cases hSYN : (receive input.bytes).flags = Flags.SYN
    · rw [onIntact_SYN hSYN]
      exact turn_SYN hcheck hSYN
    · by_cases hABR : (receive input.bytes).flags = Flags.ABR
      · rw [onIntact_ABR hABR]
        exact turn_ABR hcheck hABR
      · rw [onIntact_regular hSYN hABR]
        exact turn_regular hcheck hSYN hABR

/-- A turn answers with an ABR, with an AGN if the datagram is corrupt, or with an
acknowledgement of what it has received. -/
theorem Turn.reply (hturn : Turn crc opts fs input currentClient out) :
    ∀ x ∈ out.sends, x.2 = BftDatagram.ABR crc ∨
      ((receive input.bytes).checkIntegrity crc = false ∧ ∃ sqn, x.2 = ofFlags crc Flags.AGN sqn) ∨
      (receive input.bytes).checkIntegrity crc = true ∧
        x.2 = (receive input.bytes).createACK crc := by
  cases hturn with
  | nullDereference => nofun
  | notOpened => nofun
  | again hcheck =>
    intro x hx
    rw [List.mem_singleton.mp hx]
    exact Or.inr (Or.inl ⟨hcheck, _, rfl⟩)
  -- the server refuses
  | busy =>
    intro x hx
    rw [List.mem_singleton.mp hx]
    exact Or.inl rfl
  | refused =>
    intro x hx
    rw [List.mem_singleton.mp hx]
    exact Or.inl rfl
  | opened hcheck | abortIgnored hcheck | aborted hcheck | abortFailed hcheck
  | duplicate hcheck =>
    intro x hx
    rw [List.mem_singleton.mp hx]
    exact Or.inr (Or.inr ⟨hcheck, rfl⟩)
  | fin haccept | finFailed haccept | written haccept | writeFailed haccept
  | ignored haccept =>
    intro x hx
    rw [List.mem_singleton.mp hx]
    exact Or.inr (Or.inr ⟨haccept.1, rfl⟩)

/-- A turn answers at most once. -/
theorem Turn.length_sends (hturn : Turn crc opts fs input currentClient out) :
    out.sends.length ≤ 1 := by
  cases hturn <;> simp

/-- The answer to an intact datagram. -/
theorem Turn.reply_wire {d : BftDatagram} {x : SockaddrIn × BftDatagram} (hd : d.WellFormed crc)
    (hinput : input.bytes = d.wire) (hturn : Turn crc opts fs input currentClient out)
    (hx : x ∈ out.sends) : x.2 = BftDatagram.ABR crc ∨ x.2 = d.createACK crc := by
  have hreply := hturn.reply x hx
  rw [hinput, hd.receive_wire, hd.checkIntegrity] at hreply
  rcases hreply with h | ⟨hcheck, -⟩ | ⟨-, h⟩
  · exact Or.inl h
  · cases hcheck
  · exact Or.inr h

/-- A server with a session refuses every SYN. -/
theorem iteration_SYN_busy {d : BftDatagram} {c : ClientData} (hd : d.WellFormed crc)
    (hSYN : d.flags = Flags.SYN) :
    iteration crc opts fs (some c) ⟨sender, d.wire, env⟩
      = ⟨[(sender, BftDatagram.ABR crc)], ⟨fs, .running (some c)⟩⟩ := by
  rw [iteration_wire hd, onIntact_SYN hSYN, onSYN_busy]

/-- If only `a` sends to the server, then all sessions are of `a`. -/
theorem Turn.owner {a : SockaddrIn} (hturn : Turn crc opts fs input currentClient out)
    (hsender : input.sender = a) (h : ∀ c, currentClient = some c → c.address = a) :
    ∀ c, out.state.status = .running (some c) → c.address = a := by
  intro c' hc'
  cases hturn with
  | opened => cases hc'; exact hsender
  | again | busy | abortIgnored | refused => cases hc'; exact h _ rfl
  | @duplicate c | @written c | @ignored c => cases hc'; exact h c rfl
  | _ => cases hc'

end

/-! ## A server with an empty storage directory -/

/-- A server that stores into the directory `s`. -/
def exampleOpts : ServerOptions := ⟨[115], by decide⟩

/-- The root directory with the empty directory `s` in it. -/
def exampleFs : FileSystem := ⟨[], [([], .directory), ([[115]], .directory)]⟩

/-- The clock advances by two milliseconds from one reading to the next. -/
def exampleEnv : Env := ⟨fun k => 2000000 * k, true, none⟩

/-- A client's endpoint. -/
def exampleAddr : SockaddrIn := ⟨1, 5000⟩

/-- Another port on the same host. -/
def exampleNeighbour : SockaddrIn := ⟨1, 5001⟩

/-- The SYN for the file name `a`. -/
def exampleSYN (crc : Bytes → UInt32) : BftDatagram :=
  ofString crc Flags.SYN ⟨[97], by decide⟩ false

theorem wellFormed_exampleSYN (crc : Bytes → UInt32) : (exampleSYN crc).WellFormed crc :=
  wellFormed_init ..

/-- The file system with a file `a` in the storage directory. -/
def exampleStored (content : Bytes) : FileSystem :=
  ⟨[], ([[115], [97]], .regular content) :: exampleFs.entries⟩

/-- The session for the file `a`, before its first data datagram. -/
def exampleSession : ClientData where
  fileWriter := .opened [115, 47, 97] [[115], [97]] 0
  address := exampleAddr
  nDuplicates := 0
  currentSQN := true

theorem replace_exampleFs :
    exampleFs.replace [115, 47, 97] = .ok (exampleStored [], [[115], [97]]) := rfl

theorem iteration_exampleSYN (crc : Bytes → UInt32) :
    iteration crc exampleOpts exampleFs none ⟨exampleAddr, (exampleSYN crc).wire, exampleEnv⟩
      = ⟨[(exampleAddr, (exampleSYN crc).createACK crc)],
          ⟨exampleStored [], .running (some exampleSession)⟩⟩ := by
  have hpath : storagePath exampleOpts (exampleSYN crc).getPayloadAsString = [115, 47, 97] := by
    rw [show (exampleSYN crc).getPayloadAsString = [97] from getPayload_init ..]
    rfl
  rw [iteration_wire (wellFormed_exampleSYN crc), onIntact_SYN rfl,
    onSYN_idle (by rw [hpath]; exact replace_exampleFs) rfl, hpath]
  rfl

/-- A data datagram with one byte, in order after the SYN. -/
def exampleData (crc : Bytes → UInt32) : BftDatagram :=
  ofRange crc Flags.None ⟨[7], by decide⟩ true

theorem wellFormed_exampleData (crc : Bytes → UInt32) : (exampleData crc).WellFormed crc :=
  wellFormed_init ..

/-- The session after that byte. -/
def exampleSessionData : ClientData :=
  { exampleSession with
    fileWriter := { exampleSession.fileWriter with bytesWritten := 1 }
    currentSQN := false }

theorem iteration_exampleData (crc : Bytes → UInt32) :
    iteration crc exampleOpts (exampleStored []) (some exampleSession)
        ⟨exampleAddr, (exampleData crc).wire, exampleEnv⟩
      = ⟨[(exampleAddr, (exampleData crc).createACK crc)],
          ⟨(exampleStored []).append [[115], [97]] [7], .running (some exampleSessionData)⟩⟩ := by
  have hflags : (exampleData crc).flags = Flags.None ||| Flags.SQN := rfl
  have hip : exampleAddr.sinAddr = exampleSession.address.sinAddr := rfl
  have hsqn : (exampleData crc).getSQN = exampleSession.currentSQN := getSQN_init ..
  have hpayload : (exampleData crc).getPayload = [7] := getPayload_init ..
  have hdata : handleValidDatagram (exampleStored []) exampleSession.incrementSQN
      (exampleData crc) exampleEnv
      = ((exampleStored []).append [[115], [97]] [7], .ok (some exampleSessionData)) := by
    rw [handleValidDatagram, getFlags, hflags, if_neg (by decide), if_pos (by decide), hpayload]
    rfl
  rw [iteration_wire (wellFormed_exampleData crc), onIntact_regular (by rw [hflags]; decide)
    (by rw [hflags]; decide), onRegular_accepted hip hsqn, hdata]
  rfl

/-- The ABR of the owner ends its session. -/
theorem iteration_exampleABR {c : ClientData} (crc : Bytes → UInt32) (fs fs' : FileSystem)
    (hc : c.address = exampleAddr) (habort : c.fileWriter.abort fs = (fs', .ok ())) :
    iteration crc exampleOpts fs (some c)
        ⟨exampleAddr, (BftDatagram.ABR crc).wire, exampleEnv⟩
      = ⟨[(exampleAddr, (BftDatagram.ABR crc).createACK crc)], ⟨fs', .running none⟩⟩ := by
  have hwf : (BftDatagram.ABR crc).WellFormed crc := wellFormed_init ..
  rw [iteration_wire hwf, onIntact_ABR rfl, onABR_owner (by rw [hc]) habort]

end Rechnernetze.Bft
