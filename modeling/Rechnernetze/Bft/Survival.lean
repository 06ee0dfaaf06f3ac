import Rechnernetze.Bft.PayloadReads

/-!
# Survival of the server, isolation of a session

A datagram can end the server in the middle of a turn: `receive` logs as many bytes as the
header announces, before anybody has checked the size (`loggedIteration`); the answer to a
corrupt datagram dereferences `current_client`; storing, removing and logging can fail. The
module says when the server comes back to `recvfrom` (`server_survives_iff`), and what a turn
for a datagram from elsewhere does to the session (`session_isolated_iff`): the guard of the
loop compares IP addresses, so a second endpoint on the owner's address counts as the owner.
-/

namespace Rechnernetze.Bft

open Lib BftDatagram

/-- The memory behind a datagram that lies on the stack: a read of so many bytes from the start
of the payload array comes back, or the process is killed. The array itself can be read. -/
structure Stack where
  readable : ℕ → Bool
  readable_payload : ∀ n, n ≤ maxPayloadSize → readable n = true

/-- No byte behind the array can be read: what the language promises. -/
def Stack.promised : Stack where
  readable n := n ≤ maxPayloadSize
  readable_payload _ h := decide_eq_true h

@[simp] theorem Stack.readable_promised {n : ℕ} :
    Stack.promised.readable n = true ↔ n ≤ maxPayloadSize := decide_eq_true_iff

variable (crc : Bytes → UInt32)

/-- One turn with its logs: `none` if the process is killed by one of its reads. -/
def loggedIteration (stack : Stack) (opts : ServerOptions) (fs : FileSystem)
    (currentClient : Option ClientData) (input : ServerInput) : Option Outcome :=
  if (serverReads crc opts fs currentClient input).all
      fun r => stack.readable r.payloadSize.toNat then
    some (iteration crc opts fs currentClient input)
  else none

variable {crc} {stack : Stack} {opts : ServerOptions} {fs fs₀ : FileSystem}
  {currentClient : Option ClientData} {c : ClientData} {d : BftDatagram} {input : ServerInput}
  {env : Env} {w : FileWriter} {sender : SockaddrIn} {out : Outcome}

/-! ## The logs of a turn -/

/-- Of all the reads of a turn only the log in `receive` can kill the process. -/
theorem all_readable_iff :
    ((serverReads crc opts fs currentClient input).all
        fun r => stack.readable r.payloadSize.toNat) = true ↔
      stack.readable (announcedSize input.bytes) = true := by
  rw [List.all_eq_true, ← payloadSize_receive]
  constructor
  · intro h
    exact h _ (List.mem_append_left _ (List.mem_append_left _ (List.mem_singleton_self _)))
  · intro h r hr
    rcases List.mem_append.mp hr with hr | hr
    · rcases List.mem_append.mp hr with hr | hr
      · rw [List.mem_singleton.mp hr]
        exact h
      · split at hr
        · rw [eq_of_mem_handlerReads hr]
          exact h
        · cases hr
    · obtain ⟨x, hx, hr⟩ := List.mem_flatMap.mp hr
      rw [List.mem_singleton.mp hr]
      exact stack.readable_payload _ (inBounds_sends x hx)

theorem loggedIteration_eq_some_iff :
    loggedIteration crc stack opts fs currentClient input = some out ↔
      stack.readable (announcedSize input.bytes) = true ∧
        iteration crc opts fs currentClient input = out := by
  unfold loggedIteration
  split
  · rename_i h
    simp [all_readable_iff.mp h]
  · rename_i h
    simp [mt all_readable_iff.mpr h]

theorem loggedIteration_eq (h : announcedSize input.bytes ≤ maxPayloadSize) :
    loggedIteration crc stack opts fs currentClient input
      = some (iteration crc opts fs currentClient input) :=
  loggedIteration_eq_some_iff.mpr ⟨stack.readable_payload _ h, rfl⟩

/-! ## When the handlers come to their end -/

/-- A SYN is stored exactly if its path can be replaced by a new file and that file be opened. -/
theorem handleSYN_ok_iff :
    (∃ r, (handleSYN opts fs none d sender env).2 = .ok r) ↔
      env.openOk = true ∧ ∃ r, fs.replace (storagePath opts d.getPayloadAsString) = .ok r := by
  constructor
  · rintro ⟨r, h⟩
    -- with the path free, the writer opens a new file or the process ends in its constructor
    have hnew : ∀ fs', (∃ r, ((FileWriter.new fs' (storagePath opts d.getPayloadAsString) env).2.map
        fun w => some (ClientData.new w sender)) = .ok r) → env.openOk = true ∧
        ∃ r, fs'.openAppend (storagePath opts d.getPayloadAsString) = .ok r := by
      rintro fs' ⟨r, h⟩
      unfold FileWriter.new at h
      split at h
      · rename_i hopen
        split at h
        · rename_i fs'' l happend
          exact ⟨hopen, _, happend⟩
        · cases h
      · cases h
    unfold handleSYN at h
    unfold FileSystem.replace
    dsimp only at h
    cases hex : fs.existsAt (storagePath opts d.getPayloadAsString) with
    | error e =>
      rw [hex] at h
      cases h
    | ok b =>
      cases b with
      -- nothing stands at the path
      | false =>
        rw [hex] at h
        exact hnew fs ⟨r, h⟩
      -- what stands there has to be removed first
      | true =>
        rw [hex] at h
        dsimp only at h ⊢
        cases hrm : fs.remove (storagePath opts d.getPayloadAsString) with
        | error e =>
          rw [hrm] at h
          cases h
        | ok fs' =>
          rw [hrm] at h
          exact hnew fs' ⟨r, h⟩
  · rintro ⟨hopen, ⟨fs', l⟩, h⟩
    rw [handleSYN_established h hopen]
    exact ⟨_, rfl⟩

/-- `abort` comes to its end exactly if there is nothing to remove or the file can be removed. -/
theorem abort_ok_iff :
    (w.abort fs).2 = .ok () ↔
      (w.bytesWritten ≠ 0 → ∃ fs', fs.remove w.filePath = .ok fs') := by
  rcases FileWriter.abort_cases w fs with ⟨hzero, h⟩ | ⟨-, fs', hremove, h⟩ | ⟨e, hremove, h⟩
  · simp [h, hzero]
  · simp [h, hremove]
  · -- a removal that fails has been tried, so bytes have been written
    have hpos : w.bytesWritten ≠ 0 := by
      intro hzero
      have hnone : w.abort fs = (fs, .ok ()) := by
        rw [FileWriter.abort, if_neg (by simp [hzero])]
      rw [hnone] at h
      cases h
    simp [h, hremove, hpos]

/-- The rate is logged without a fault exactly if a millisecond has passed. -/
theorem logBytesWritten_ok_iff :
    (∃ w', w.logBytesWritten (env.clock 1) (env.clock 2) = .ok w') ↔ ¬ w.LogFails env := by
  unfold FileWriter.logBytesWritten FileWriter.LogFails
  dsimp only
  split
  · rename_i h
    simp [h]
  · rename_i h
    simp [h]

/-- A write to an open file comes to its end exactly if the log before it does. -/
theorem writeBytes_ok_iff {data : Bytes} (hopen : w.fileStream.isOpen = true) :
    (∃ w', (w.writeBytes fs data env).2 = .ok w') ↔ (w.LogDue env → ¬ w.LogFails env) := by
  have hlog : (∃ w', w.logIfDue env = .ok w') ↔ (w.LogDue env → ¬ w.LogFails env) := by
    unfold FileWriter.logIfDue
    split
    · rename_i hdue
      rw [logBytesWritten_ok_iff]
      exact ⟨fun h _ => h, fun h => h hdue⟩
    · rename_i hdue
      exact ⟨fun _ h => absurd h hdue, fun _ => ⟨_, rfl⟩⟩
  rw [← hlog]
  unfold FileWriter.writeBytes
  rcases FileWriter.logIfDue_cases w env with ⟨-, -, h⟩ | ⟨n, t, h⟩
  · simp [h]
  · simp [h, hopen]

/-- The datagram in order makes the server log the rate: a FIN does, and so does a data datagram
more than a second after the last log. -/
def LogsRate (c : ClientData) (d : BftDatagram) (env : Env) : Prop :=
  d.getFlags &&& Flags.FIN = Flags.FIN ∨
    clearFlag d.getFlags Flags.SQN = Flags.None ∧ c.fileWriter.LogDue env

theorem handleValidDatagram_ok_iff (hopen : c.fileWriter.fileStream.isOpen = true) :
    (∃ r, (handleValidDatagram fs c d env).2 = .ok r) ↔
      (LogsRate c d env → ¬ c.fileWriter.LogFails env) := by
  have hmap : ∀ {α β : Type} {f : α → β} {x : Except Stop α},
      (∃ r, x.map f = .ok r) ↔ ∃ a, x = .ok a := by
    intro α β f x
    cases x <;> simp [Except.map]
  unfold handleValidDatagram LogsRate
  split
  · rename_i hfin
    rw [hmap, logBytesWritten_ok_iff]
    exact ⟨fun h _ => h, fun h => h (Or.inl hfin)⟩
  · rename_i hfin
    split
    · rename_i hdata
      rw [hmap, writeBytes_ok_iff hopen]
      simp [hfin, hdata]
    · rename_i hdata
      simp [hfin, hdata]

/-! ## When a turn comes to its end -/

/-- The server goes on with its loop. -/
def ServerState.Running (s : ServerState) : Prop :=
  ∃ currentClient, s.status = .running currentClient

theorem after_running_iff {r : FileSystem × Except Stop (Option ClientData)} :
    (ServerState.after r).Running ↔ ∃ c, r.2 = .ok c := by
  obtain ⟨fs, e | c⟩ := r <;> simp [ServerState.after, ServerState.Running]

theorem onSYN_running_iff :
    (onSYN crc opts fs none d sender env).state.Running ↔
      ∃ r, (handleSYN opts fs none d sender env).2 = .ok r := by
  unfold onSYN
  split <;> rename_i h <;> rw [h] <;> simp [ServerState.Running]

theorem onABR_running_iff (hip : sender.sinAddr = c.address.sinAddr) :
    (onABR crc fs (some c) d sender).state.Running ↔ (c.fileWriter.abort fs).2 = .ok () := by
  simp only [onABR, hip, if_true]
  split <;> rename_i h <;> rw [h] <;> simp [ServerState.Running]

/-- What has to hold for the server to survive a turn. -/
structure Survivable (crc : Bytes → UInt32) (stack : Stack) (opts : ServerOptions)
    (fs : FileSystem) (currentClient : Option ClientData) (input : ServerInput) : Prop where
  /-- As many bytes can be read as are announced. -/
  logged : stack.readable (announcedSize input.bytes) = true
  /-- An idle server receives nothing corrupt. -/
  intact : currentClient = none → (receive input.bytes).checkIntegrity crc = true
  /-- The file of a session to be opened can be replaced by a new one. -/
  stored : currentClient = none → (receive input.bytes).checkIntegrity crc = true →
    (receive input.bytes).isSYN crc = true → input.env.openOk = true ∧
      ∃ r, fs.replace (storagePath opts (receive input.bytes).getPayloadAsString) = .ok r
  /-- The file of a session to be aborted can be removed. -/
  removed : ∀ c, currentClient = some c → Aborts crc c input → c.fileWriter.bytesWritten ≠ 0 →
    ∃ fs', fs.remove c.fileWriter.filePath = .ok fs'
  /-- A millisecond has passed since the last log of the rate. -/
  rated : ∀ c, currentClient = some c → Accepts crc c input →
    LogsRate c (receive input.bytes) input.env → ¬ c.fileWriter.LogFails input.env

theorem iteration_running_iff_of_idle :
    (iteration crc opts fs none input).state.Running ↔
      (receive input.bytes).checkIntegrity crc = true ∧
        ((receive input.bytes).isSYN crc = true → input.env.openOk = true ∧
          ∃ r, fs.replace (storagePath opts (receive input.bytes).getPayloadAsString) = .ok r) := by
  cases hcheck : (receive input.bytes).checkIntegrity crc with
  | false =>
    -- the AGN takes its SQN from a session that is a null pointer
    rw [iteration_corrupt_idle hcheck]
    simp [ServerState.Running]
  | true =>
    rw [iteration_intact hcheck]
    by_cases hSYN : (receive input.bytes).isSYN crc = true
    · rw [onIntact_SYN (isSYN_iff.mp hSYN), onSYN_running_iff, handleSYN_ok_iff]
      simp [hSYN]
    · -- every other intact datagram is answered
      have hrunning : (onIntact crc opts fs none (receive input.bytes) input.sender
          input.env).state.Running := by
        rw [onIntact, if_neg hSYN]
        split
        · exact ⟨none, rfl⟩
        · exact ⟨none, rfl⟩
      simp [hrunning, hSYN]

theorem iteration_running_iff_of_session (hopen : c.fileWriter.fileStream.isOpen = true) :
    (iteration crc opts fs (some c) input).state.Running ↔
      (Aborts crc c input → c.fileWriter.bytesWritten ≠ 0 →
          ∃ fs', fs.remove c.fileWriter.filePath = .ok fs') ∧
        (Accepts crc c input → LogsRate c (receive input.bytes) input.env →
          ¬ c.fileWriter.LogFails input.env) := by
  by_cases haborts : Aborts crc c input
  · -- the turn ends with the removal of the file
    have hnot : ¬ Accepts crc c input := haborts.not_accepts
    obtain ⟨hcheck, hABR, hip⟩ := id haborts
    rw [iteration_intact hcheck, onIntact_ABR hABR, onABR_running_iff hip, abort_ok_iff]
    simp [haborts, hnot]
  · by_cases haccept : Accepts crc c input
    · obtain ⟨hcheck, hSYN, hABR, hip, hsqn⟩ := id haccept
      rw [iteration_intact hcheck, onIntact_regular hSYN hABR, onRegular_accepted hip hsqn]
      have hhandled : (∃ r, (handleValidDatagram fs c.incrementSQN (receive input.bytes)
          input.env).2 = .ok r) ↔ (LogsRate c (receive input.bytes) input.env →
            ¬ c.fileWriter.LogFails input.env) := handleValidDatagram_ok_iff hopen
      rw [after_running_iff, hhandled]
      simp [haborts, haccept]
    · -- neither aborted nor in order: the turn only answers
      have hrunning : (iteration crc opts fs (some c) input).state.Running := by
        have hturn := turn_cases crc opts fs (some c) input
        generalize iteration crc opts fs (some c) input = out at hturn ⊢
        cases hturn with
        | again | busy | abortIgnored | refused | duplicate => exact ⟨_, rfl⟩
        | aborted hcheck hABR hip | abortFailed hcheck hABR hip =>
          exact absurd ⟨hcheck, hABR, hip⟩ haborts
        | fin h | finFailed h | written h | writeFailed h | ignored h => exact absurd h haccept
      simp [hrunning, haborts, haccept]

/-! ## Sessions of a running server -/

/-- The stream of every session is open. -/
theorem isOpen_of_reaches {s : ServerState}
    (hrun : Reaches (serverStep crc opts) anyStep ⟨fs₀, .running none⟩ s) :
    ∀ c, s.status = .running (some c) → c.fileWriter.fileStream.isOpen = true := by
  have hinit : ∀ c : ClientData, (Status.running none) = .running (some c) →
      c.fileWriter.fileStream.isOpen = true := by
    intro c hc
    cases hc
  refine hrun.invariant
    (I := fun s => ∀ c, s.status = .running (some c) → c.fileWriter.fileStream.isOpen = true)
    hinit ?_
  rintro ⟨fs, status⟩ input s' ih - hstep
  cases status with
  | stopped e => cases hstep
  | running currentClient =>
    obtain rfl := Option.some.inj hstep
    have hturn := turn_cases crc opts fs currentClient input
    generalize iteration crc opts fs currentClient input = out at hturn ⊢
    intro c' hc'
    -- only a write touches the stream, and it leaves it open
    cases hturn with
    | opened => cases hc'; rfl
    | again | busy | abortIgnored | refused => cases hc'; exact ih _ rfl
    | @duplicate c | @ignored c => cases hc'; exact ih c rfl
    | @written c w _ _ _ _ hstream =>
      cases hc'
      have hopen := ih c rfl
      show w.fileStream.isOpen = true
      rw [hstream]
      unfold OFStream.write
      split
      · split
        · exact hopen
        · exact hopen
      · exact hopen
    | _ => cases hc'

/-- **The server survives a datagram exactly if** its log in `receive` can read what the header
announces, an idle server receives nothing corrupt, and what the datagram asks for (a new file,
the removal of a file, a log of the rate) does not fail. -/
theorem server_survives_iff (crc : Bytes → UInt32) (stack : Stack) (opts : ServerOptions)
    (fs₀ fs : FileSystem) (currentClient : Option ClientData) (input : ServerInput)
    (hrun : Reaches (serverStep crc opts) anyStep ⟨fs₀, .running none⟩
      ⟨fs, .running currentClient⟩) :
    (∃ out, loggedIteration crc stack opts fs currentClient input = some out ∧
        out.state.Running) ↔
      Survivable crc stack opts fs currentClient input := by
  -- the log in `receive` comes before anything the turn does
  have hlogged : (∃ out, loggedIteration crc stack opts fs currentClient input = some out ∧
      out.state.Running) ↔ stack.readable (announcedSize input.bytes) = true ∧
        (iteration crc opts fs currentClient input).state.Running := by
    simp only [loggedIteration_eq_some_iff]
    constructor
    · rintro ⟨out, ⟨hreadable, rfl⟩, hrunning⟩
      exact ⟨hreadable, hrunning⟩
    · rintro ⟨hreadable, hrunning⟩
      exact ⟨_, ⟨hreadable, rfl⟩, hrunning⟩
  rw [hlogged]
  cases currentClient with
  | none =>
    rw [iteration_running_iff_of_idle]
    constructor
    · rintro ⟨hreadable, hcheck, hstored⟩
      exact ⟨hreadable, fun _ => hcheck, fun _ _ => hstored, nofun, nofun⟩
    · intro h
      exact ⟨h.logged, h.intact rfl, h.stored rfl (h.intact rfl)⟩
  | some c =>
    rw [iteration_running_iff_of_session (isOpen_of_reaches hrun c rfl)]
    constructor
    · rintro ⟨hreadable, hremoved, hrated⟩
      refine ⟨hreadable, nofun, nofun, ?_, ?_⟩
      · intro c' hc'
        cases hc'
        exact hremoved
      · intro c' hc'
        cases hc'
        exact hrated
    · intro h
      exact ⟨h.logged, h.removed c rfl, h.rated c rfl⟩

/-- Where no byte behind the array can be read, a header that announces 65535 bytes kills a
server with a session too. -/
example : loggedIteration crc .promised opts fs (some c) ⟨sender, longDatagram, env⟩ = none := by
  have hlong : ¬ announcedSize longDatagram ≤ maxPayloadSize := by decide
  rw [loggedIteration, if_neg (by rwa [all_readable_iff, Stack.readable_promised])]

/-- The FIN of a session two milliseconds after its SYN. -/
theorem example_server_survives :
    ∃ out, loggedIteration CRC.crc32 .promised exampleOpts (exampleStored []) (some exampleSession)
        ⟨exampleAddr, (ofFlags CRC.crc32 Flags.FIN true).wire, exampleEnv⟩ = some out ∧
      out.state.Running := by
  have hrun : Reaches (serverStep CRC.crc32 exampleOpts) anyStep ⟨exampleFs, .running none⟩
      ⟨exampleStored [], .running (some exampleSession)⟩ := by
    refine .tail .refl trivial (a := ⟨exampleAddr, (exampleSYN CRC.crc32).wire, exampleEnv⟩) ?_
    rw [serverStep_running, iteration_exampleSYN]
  have hFIN : (ofFlags CRC.crc32 Flags.FIN true).WellFormed CRC.crc32 := wellFormed_init ..
  refine (server_survives_iff CRC.crc32 .promised exampleOpts exampleFs (exampleStored [])
    (some exampleSession) ⟨exampleAddr, (ofFlags CRC.crc32 Flags.FIN true).wire, exampleEnv⟩
    hrun).mpr ⟨Stack.readable_promised.mpr hFIN.announcedSize_wire, nofun, nofun, ?_, ?_⟩
  · rintro c - ⟨-, hABR, -⟩
    rw [hFIN.receive_wire] at hABR
    exact absurd hABR (by decide)
  · rintro c hc - -
    cases hc
    unfold FileWriter.LogFails
    decide

/-- A SYN whose checksum is off by one stops the idle server. -/
theorem corrupt_SYN_stops_idle_server :
    ¬ ∀ (opts : ServerOptions) (fs : FileSystem) (s : ServerState)
        (currentClient : Option ClientData) (input : ServerInput),
      Reaches (serverStep CRC.crc32 opts) anyStep ⟨fs, .running none⟩ s →
      s.status = .running currentClient → input.bytes.length ≤ maxDatagramSize →
      (iteration CRC.crc32 opts s.fs currentClient input).state.status
        ≠ .stopped .nullDereference := by
  intro h
  have hsyn := wellFormed_exampleSYN CRC.crc32
  set bad : BftDatagram :=
    { exampleSYN CRC.crc32 with checksum := (exampleSYN CRC.crc32).checksum + 1 } with hbad
  have htail : bad.ZeroTail := ⟨hsyn.payloadSize, hsyn.zero_tail⟩
  refine h exampleOpts exampleFs ⟨exampleFs, .running none⟩ none
    ⟨exampleAddr, bad.wire, exampleEnv⟩ .refl rfl ?_ ?_
  · rw [htail.length_wire]
    exact htail.size_le
  · rw [iteration_corrupt_idle (by rw [htail.receive_wire]; exact hsyn.checkIntegrity_off_by_one)]

/-! ## Isolation of a session -/

/-- **Who can touch a session.** A datagram that announces no more than a payload and comes from an
endpoint other than the owner's leaves the session and the files alone and sends nothing to the
owner exactly if it comes from another IP address, is corrupt, or is a SYN. -/
theorem session_isolated_iff (crc : Bytes → UInt32) (stack : Stack) (opts : ServerOptions)
    (fs : FileSystem) (c : ClientData) (input : ServerInput) (hother : input.sender ≠ c.address)
    (hsize : announcedSize input.bytes ≤ maxPayloadSize) :
    (∃ out, loggedIteration crc stack opts fs (some c) input = some out ∧
        out.state = ⟨fs, .running (some c)⟩ ∧ ∀ x ∈ out.sends, x.1 ≠ c.address) ↔
      input.sender.sinAddr ≠ c.address.sinAddr ∨
        (receive input.bytes).checkIntegrity crc = false ∨
        (receive input.bytes).isSYN crc = true := by
  -- an answer to the sender is no answer to the owner
  have hquiet : ∀ (r : BftDatagram), ∀ x ∈ [(input.sender, r)], x.1 ≠ c.address := by
    intro r x hx
    rw [List.mem_singleton.mp hx]
    exact hother
  have hloud : ∀ (r : BftDatagram), ¬ ∀ x ∈ [(c.address, r)], x.1 ≠ c.address :=
    fun r h => h (c.address, r) (List.mem_singleton_self _) rfl
  -- an intact datagram other than the SYN from the owner's address is not harmless
  have hharm : (receive input.bytes).checkIntegrity crc = true →
      (receive input.bytes).flags ≠ Flags.SYN → input.sender.sinAddr = c.address.sinAddr →
      ¬ (input.sender.sinAddr ≠ c.address.sinAddr ∨
        (receive input.bytes).checkIntegrity crc = false ∨
        (receive input.bytes).isSYN crc = true) := by
    rintro hcheck hSYN hip (h | h | h)
    · exact h hip
    · rw [hcheck] at h
      cases h
    · exact hSYN (isSYN_iff.mp h)
  rw [loggedIteration_eq hsize]
  simp only [Option.some.injEq, exists_eq_left']
  have hturn := turn_cases crc opts fs (some c) input
  generalize iteration crc opts fs (some c) input = out at hturn ⊢
  cases hturn with
  | again hcheck => exact iff_of_true ⟨rfl, hquiet _⟩ (Or.inr (Or.inl hcheck))
  | busy _ hSYN => exact iff_of_true ⟨rfl, hquiet _⟩ (Or.inr (Or.inr (isSYN_iff.mpr hSYN)))
  | abortIgnored _ _ hstranger => exact iff_of_true ⟨rfl, hquiet _⟩ (Or.inl (hstranger c rfl))
  | refused _ _ _ hstranger => exact iff_of_true ⟨rfl, hquiet _⟩ (Or.inl (hstranger c rfl))
  | aborted hcheck hABR hip =>
    refine iff_of_false (fun h => ?_) (hharm hcheck (by rw [hABR]; decide) hip)
    cases congrArg ServerState.status h.1
  | abortFailed hcheck hABR hip =>
    refine iff_of_false (fun h => ?_) (hharm hcheck (by rw [hABR]; decide) hip)
    cases congrArg ServerState.status h.1
  | duplicate hcheck hSYN hABR hip =>
    exact iff_of_false (fun h => hloud _ h.2) (hharm hcheck hSYN hip)
  | fin haccept | finFailed haccept | written haccept | writeFailed haccept | ignored haccept =>
    obtain ⟨hcheck, hSYN, -, hip, -⟩ := haccept
    exact iff_of_false (fun h => hloud _ h.2) (hharm hcheck hSYN hip)

/-- The session is out of reach of an ABR from another address. -/
theorem session_isolated_from_other_address :
    ∃ out, loggedIteration CRC.crc32 .promised exampleOpts (exampleStored []) (some exampleSession)
        ⟨⟨2, 5000⟩, (BftDatagram.ABR CRC.crc32).wire, exampleEnv⟩ = some out ∧
      out.state = ⟨exampleStored [], .running (some exampleSession)⟩ ∧
      ∀ x ∈ out.sends, x.1 ≠ exampleAddr := by
  have habr : (BftDatagram.ABR CRC.crc32).WellFormed CRC.crc32 := wellFormed_init ..
  exact (session_isolated_iff CRC.crc32 .promised exampleOpts (exampleStored []) exampleSession
    ⟨⟨2, 5000⟩, (BftDatagram.ABR CRC.crc32).wire, exampleEnv⟩ (by decide)
    habr.announcedSize_wire).mpr (Or.inl (by decide))

/-- An ABR from another port on the owner's host ends the session. -/
theorem neighbour_ends_session :
    ¬ ∀ (opts : ServerOptions) (fs : FileSystem) (s : ServerState) (c : ClientData)
        (input : ServerInput),
      Reaches (serverStep CRC.crc32 opts) anyStep ⟨fs, .running none⟩ s →
      s.status = .running (some c) → input.sender ≠ c.address →
      input.bytes.length ≤ maxDatagramSize →
      (iteration CRC.crc32 opts s.fs (some c) input).state = ⟨s.fs, .running (some c)⟩ ∧
        ∀ x ∈ (iteration CRC.crc32 opts s.fs (some c) input).sends, x.1 ≠ c.address := by
  intro h
  have habr : (BftDatagram.ABR CRC.crc32).WellFormed CRC.crc32 := wellFormed_init ..
  have hrun : Reaches (serverStep CRC.crc32 exampleOpts) anyStep ⟨exampleFs, .running none⟩
      ⟨exampleStored [], .running (some exampleSession)⟩ := by
    refine .tail .refl trivial (a := ⟨exampleAddr, (exampleSYN CRC.crc32).wire, exampleEnv⟩) ?_
    rw [serverStep_running, iteration_exampleSYN]
  have hstate := (h exampleOpts exampleFs _ exampleSession
    ⟨exampleNeighbour, (BftDatagram.ABR CRC.crc32).wire, exampleEnv⟩ hrun rfl (by decide)
    (by rw [habr.length_wire]; exact habr.size_le)).1
  rw [iteration_wire habr, onIntact_ABR rfl] at hstate
  have hstatus := congrArg ServerState.status hstate
  exact absurd hstatus (by decide)

end Rechnernetze.Bft
