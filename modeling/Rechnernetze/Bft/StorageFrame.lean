import Rechnernetze.Bft.Storage

/-!
# What the server leaves alone

A turn changes the file of the session it serves, and the file that a SYN names
(`iteration_frame`); a session keeps its path and its file (`iteration_session`). So over a whole
run, whoever sends what and whatever fails, a location that no intact SYN has named keeps its node,
and no directory comes into being (`unnamed_location_unchanged`). All this is about a tree without
symbolic links: a SYN that names a link creates the file it points to.
-/

namespace Rechnernetze.Bft

open Lib BftDatagram

namespace OFStream

@[simp] theorem location_write (s : OFStream) (fs : FileSystem) (data : Bytes)
    (limit : Option ℕ) : (s.write fs data limit).2.location = s.location := by
  unfold OFStream.write
  split
  · split
    · rfl
    · rfl
  · rfl

/-- A write changes one file. -/
theorem write_frame (s : OFStream) (fs : FileSystem) (data : Bytes) (limit : Option ℕ) :
    FileSystem.SameDirs (s.write fs data limit).1 fs ∧
      ∀ l, l ≠ s.location → (s.write fs data limit).1.node l = fs.node l := by
  unfold OFStream.write
  split
  · split
    · exact ⟨FileSystem.sameDirs_append, fun _ => FileSystem.node_append_of_ne⟩
    · exact ⟨FileSystem.sameDirs_append, fun _ => FileSystem.node_append_of_ne⟩
  · exact ⟨.refl fs, fun _ _ => rfl⟩

end OFStream

/-- `input` is an intact SYN, and its name stands for `l`. -/
def Names (crc : Bytes → UInt32) (opts : ServerOptions) (fs₀ : FileSystem) (l : Location)
    (input : ServerInput) : Prop :=
  (receive input.bytes).checkIntegrity crc = true ∧ (receive input.bytes).flags = Flags.SYN ∧
    fs₀.resolve (storagePath opts (receive input.bytes).getPayloadAsString) = .ok l

/-- The session has another file than `l`. -/
structure Elsewhere (fs₀ : FileSystem) (l : Location) (c : ClientData) : Prop where
  location : c.fileWriter.fileStream.location ≠ l
  path : fs₀.resolve c.fileWriter.filePath ≠ .ok l

/-- `c'` is the session `c` some turns later. -/
structure SameFile (c c' : ClientData) : Prop where
  address : c'.address = c.address
  path : c'.fileWriter.filePath = c.fileWriter.filePath
  location : c'.fileWriter.fileStream.location = c.fileWriter.fileStream.location

section
variable {crc : Bytes → UInt32} {opts : ServerOptions} {fs fs' fs₀ : FileSystem}
  {currentClient : Option ClientData} {c c' : ClientData} {input : ServerInput} {p : Path}
  {l : Location} {s : ServerState}

/-- A removal concerns one location. -/
theorem remove_frame (h : fs.remove p = .ok fs') :
    FileSystem.DirsLE fs' fs ∧ ∀ l, fs.resolve p ≠ .ok l → fs'.node l = fs.node l := by
  have hsame : fs = fs' → FileSystem.DirsLE fs' fs ∧
      ∀ l, fs.resolve p ≠ .ok l → fs'.node l = fs.node l := by
    rintro rfl
    exact ⟨.refl _, fun _ _ => rfl⟩
  have herase : ∀ m, fs.resolve p = .ok m → fs.erase m = fs' → FileSystem.DirsLE fs' fs ∧
      ∀ l, fs.resolve p ≠ .ok l → fs'.node l = fs.node l := by
    rintro m hm rfl
    refine ⟨FileSystem.dirsLE_erase, fun l hl => FileSystem.node_erase_of_ne ?_⟩
    rintro rfl
    exact hl hm
  unfold FileSystem.remove at h
  split at h
  · exact hsame (Except.ok.inj h)
  · cases h
  · rename_i m hm
    split at h
    · exact hsame (Except.ok.inj h)
    · exact herase m hm (Except.ok.inj h)
    · split at h
      · cases h
      · exact herase m hm (Except.ok.inj h)

/-! ## One turn -/

/-- The turn for a SYN, of an idle server. -/
theorem onSYN_frame (hdirs : FileSystem.DirsLE fs fs₀) {d : BftDatagram} {sender : SockaddrIn}
    {env : Env} (hl : fs₀.resolve (storagePath opts d.getPayloadAsString) ≠ .ok l) :
    FileSystem.DirsLE (onSYN crc opts fs none d sender env).state.fs fs ∧
      (onSYN crc opts fs none d sender env).state.fs.node l = fs.node l := by
  have hother : fs.resolve (storagePath opts d.getPayloadAsString) ≠ .ok l :=
    fun h => hl (FileSystem.resolve_mono hdirs h)
  unfold onSYN
  rcases handleSYN_cases opts fs d sender env
    with ⟨fs', l', h, hcreated⟩ | ⟨fs', e, h, -, hdirs', hothers⟩ <;> rw [h]
  · refine ⟨hcreated.dirsLE, hcreated.others l ?_⟩
    rintro rfl
    exact hother hcreated.resolve_before
  · exact ⟨hdirs', hothers l hother⟩

/-- **Frame of a turn**: it leaves a location alone that is neither named by a SYN nor the file of
the session it serves. -/
theorem iteration_frame (hdirs : FileSystem.DirsLE fs fs₀) (hinput : ¬ Names crc opts fs₀ l input)
    (hserved : ∀ c, currentClient = some c → input.sender.sinAddr = c.address.sinAddr →
      Elsewhere fs₀ l c) :
    FileSystem.DirsLE (iteration crc opts fs currentClient input).state.fs fs ∧
      (iteration crc opts fs currentClient input).state.fs.node l = fs.node l := by
  have hturn := turn_cases crc opts fs currentClient input
  by_cases hopens : currentClient = none ∧ (receive input.bytes).checkIntegrity crc = true ∧
      (receive input.bytes).flags = Flags.SYN
  · -- what a SYN does that fails is not in the cases of a turn
    obtain ⟨rfl, hcheck, hSYN⟩ := hopens
    have hiteration : iteration crc opts fs none input
        = onSYN crc opts fs none (receive input.bytes) input.sender input.env := by
      rw [← onIntact_SYN hSYN]
      exact iteration_intact hcheck
    rw [hiteration]
    exact onSYN_frame hdirs fun hl => hinput ⟨hcheck, hSYN, hl⟩
  · generalize iteration crc opts fs currentClient input = out at hturn ⊢
    cases hturn with
    | opened hcheck hSYN => exact absurd ⟨rfl, hcheck, hSYN⟩ hopens
    | notOpened hcheck hSYN => exact absurd ⟨rfl, hcheck, hSYN⟩ hopens
    | @aborted c fs' _ _ hip hfs =>
      rcases hfs with ⟨-, rfl⟩ | ⟨-, hremove⟩
      · exact ⟨.refl _, rfl⟩
      · obtain ⟨hdirs', hothers⟩ := remove_frame hremove
        refine ⟨hdirs', hothers l fun hl => ?_⟩
        exact (hserved c rfl hip).path (FileSystem.resolve_mono hdirs hl)
    | @written c w haccept =>
      obtain ⟨hdirs', hothers⟩ := c.fileWriter.fileStream.write_frame fs
        (receive input.bytes).getPayload input.env.writeLimit
      exact ⟨hdirs'.dirsLE, hothers l (hserved c rfl haccept.2.2.2.1).location.symm⟩
    | nullDereference | again | busy | abortIgnored | abortFailed | refused | duplicate | fin
    | finFailed | writeFailed | ignored => exact ⟨.refl _, rfl⟩

/-- **The session after a turn** has the file it had before, or has just been opened. -/
theorem iteration_session
    (hc' : (iteration crc opts fs currentClient input).state.status = .running (some c')) :
    (∃ c, currentClient = some c ∧ SameFile c c') ∨
      currentClient = none ∧ (receive input.bytes).checkIntegrity crc = true ∧
        (receive input.bytes).flags = Flags.SYN ∧ c'.address = input.sender ∧
        c'.fileWriter.filePath = storagePath opts (receive input.bytes).getPayloadAsString ∧
        fs.resolve c'.fileWriter.filePath = .ok c'.fileWriter.fileStream.location := by
  have hturn := turn_cases crc opts fs currentClient input
  generalize iteration crc opts fs currentClient input = out at hturn hc'
  cases hturn with
  | opened hcheck hSYN hcreated =>
    cases hc'
    exact Or.inr ⟨rfl, hcheck, hSYN, rfl, rfl, hcreated.resolve_before⟩
  | again | busy | abortIgnored | refused | duplicate | ignored =>
    cases hc'
    exact Or.inl ⟨_, rfl, rfl, rfl, rfl⟩
  | @written c w _ _ _ hpath hstream =>
    cases hc'
    refine Or.inl ⟨c, rfl, rfl, hpath, ?_⟩
    rw [hstream]
    exact OFStream.location_write ..
  | _ => cases hc'

theorem Elsewhere.sameFile (h : Elsewhere fs₀ l c) (hc : SameFile c c') : Elsewhere fs₀ l c' :=
  ⟨by rw [hc.location]; exact h.location, by rw [hc.path]; exact h.path⟩

/-! ## Runs -/

/-- What holds of a location that nobody has named. -/
structure Unnamed (fs₀ : FileSystem) (l : Location) (s : ServerState) : Prop where
  dirsLE : FileSystem.DirsLE s.fs fs₀
  node : s.fs.node l = fs₀.node l
  session : ∀ c, s.status = .running (some c) → Elsewhere fs₀ l c

theorem Unnamed.step {s' : ServerState} (h : Unnamed fs₀ l s)
    (hstep : serverStep crc opts s input = some s') (hinput : ¬ Names crc opts fs₀ l input) :
    Unnamed fs₀ l s' := by
  obtain ⟨fs, status⟩ := s
  cases status with
  | stopped cause => cases hstep
  | running currentClient =>
    obtain rfl := Option.some.inj hstep
    have hserved : ∀ c, currentClient = some c → input.sender.sinAddr = c.address.sinAddr →
        Elsewhere fs₀ l c := fun c hc _ => h.session c (congrArg _ hc)
    obtain ⟨hdirs, hnode⟩ := iteration_frame h.dirsLE hinput hserved
    refine ⟨hdirs.trans h.dirsLE, hnode.trans h.node, fun c' hc' => ?_⟩
    rcases iteration_session hc' with ⟨c, hc, hsame⟩ | ⟨-, hcheck, hSYN, -, hpath, hresolve⟩
    · exact (h.session c (congrArg _ hc)).sameFile hsame
    · -- a new session has the file that the SYN names
      have hresolve₀ := FileSystem.resolve_mono h.dirsLE hresolve
      have hother : fs₀.resolve c'.fileWriter.filePath ≠ .ok l :=
        fun hl => hinput ⟨hcheck, hSYN, hpath ▸ hl⟩
      exact ⟨fun hl => hother (hl ▸ hresolve₀), hother⟩

end

/-- **Frame of a run.** Where there are no symbolic links, a location that no intact SYN has named
keeps its node, and there is no directory that was not there before. -/
theorem unnamed_location_unchanged (crc : Bytes → UInt32) (opts : ServerOptions)
    (fs₀ : FileSystem) (l : Location) (s : ServerState)
    (hrun : Reaches (serverStep crc opts) (fun _ input => ¬ Names crc opts fs₀ l input)
      ⟨fs₀, .running none⟩ s) :
    s.fs.node l = fs₀.node l ∧ ∀ l', s.fs.isDir l' = true → fs₀.isDir l' = true := by
  have h : Unnamed fs₀ l s := by
    refine hrun.invariant ⟨.refl _, rfl, nofun⟩ fun _ _ _ h hinput hstep => ?_
    exact h.step hstep hinput
  exact ⟨h.node, h.dirsLE.isDir⟩

/-- The SYN for the file `s/a` leaves the directory `s` alone. -/
theorem example_unnamed_location :
    (iteration CRC.crc32 exampleOpts exampleFs none
      ⟨exampleAddr, (exampleSYN CRC.crc32).wire, exampleEnv⟩).state.fs.node [[115]]
        = exampleFs.node [[115]] := by
  have hother : ¬ Names CRC.crc32 exampleOpts exampleFs [[115]]
      ⟨exampleAddr, (exampleSYN CRC.crc32).wire, exampleEnv⟩ := by
    rintro ⟨-, -, hname⟩
    have hpayload : (exampleSYN CRC.crc32).getPayloadAsString = [97] := getPayload_init ..
    rw [(wellFormed_exampleSYN CRC.crc32).receive_wire, hpayload] at hname
    exact absurd hname (by decide)
  have hrun : Reaches (serverStep CRC.crc32 exampleOpts)
      (fun _ input => ¬ Names CRC.crc32 exampleOpts exampleFs [[115]] input)
      ⟨exampleFs, .running none⟩ (iteration CRC.crc32 exampleOpts exampleFs none
        ⟨exampleAddr, (exampleSYN CRC.crc32).wire, exampleEnv⟩).state :=
    .tail .refl hother serverStep_running
  exact (unnamed_location_unchanged CRC.crc32 exampleOpts exampleFs [[115]] _ hrun).1

end Rechnernetze.Bft
