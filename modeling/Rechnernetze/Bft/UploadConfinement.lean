import Rechnernetze.Bft.ServerTheorems
import Rechnernetze.Lib.LexicalPath

/-!
# Confinement to the storage directory

The name in a SYN is joined to the storage directory, and the path stays with the session
until its end (`UsedPath.eq_storagePath`). So the server touches an entry of the directory
exactly if the name leads to one.
-/

namespace Rechnernetze.Bft

open Lib BftDatagram FileSystem NormalPath

variable {crc : Bytes → UInt32} {opts : ServerOptions} {fs : FileSystem} {c c' : ClientData}
  {input : ServerInput} {out : Outcome} {directory name p : Path}

/-! ## The paths of a session -/

/-- The server holds a session, or has ended. -/
def InSession (s : ServerState) (_ : ServerInput) : Prop := s.status ≠ .running none

/-- A path that an idle server with the files `fs` uses because of a SYN. -/
inductive UsedPath (crc : Bytes → UInt32) (opts : ServerOptions) (fs : FileSystem)
    (input : ServerInput) : Path → Prop
  /-- `handle_SYN` removes and opens it. -/
  | opened (hcheck : (receive input.bytes).checkIntegrity crc = true)
      (hSYN : (receive input.bytes).isSYN crc = true) :
      UsedPath crc opts fs input (storagePath opts (receive input.bytes).getPayloadAsString)
  /-- An ABR in the session that the SYN has started removes it. -/
  | removed {s : ServerState} {c : ClientData}
      (hrun : Reaches (serverStep crc opts) InSession (iteration crc opts fs none input).state s)
      (hsession : s.status = .running (some c)) : UsedPath crc opts fs input c.fileWriter.filePath

/-- A session keeps its path. -/
theorem Turn.filePath (hturn : Turn crc opts fs input (some c) out)
    (h : out.state.status = .running (some c')) :
    c'.fileWriter.filePath = c.fileWriter.filePath := by
  cases hturn with
  | again | busy | abortIgnored | refused | duplicate | ignored => cases h; rfl
  | written _ _ _ hpath => cases h; exact hpath
  | aborted | abortFailed | fin | finFailed | writeFailed => cases h

/-- The session that a SYN starts has the path of the SYN. -/
theorem Turn.filePath_opened (hturn : Turn crc opts fs input none out)
    (h : out.state.status = .running (some c)) :
    c.fileWriter.filePath = storagePath opts (receive input.bytes).getPayloadAsString := by
  cases hturn with
  | opened => cases h; rfl
  | nullDereference | notOpened | abortIgnored | refused => cases h

/-- **One path for each SYN.** -/
theorem UsedPath.eq_storagePath (h : UsedPath crc opts fs input p) :
    p = storagePath opts (receive input.bytes).getPayloadAsString := by
  cases h with
  | opened => rfl
  | @removed s c hrun hsession =>
    have hpath : ∀ c, s.status = .running (some c) →
        c.fileWriter.filePath = storagePath opts (receive input.bytes).getPayloadAsString := by
      refine hrun.invariant (I := fun s : ServerState => ∀ c, s.status = .running (some c) →
        c.fileWriter.filePath = storagePath opts (receive input.bytes).getPayloadAsString) ?_ ?_
      · exact fun c hc => (turn_cases crc opts fs none input).filePath_opened hc
      · rintro ⟨fs', status⟩ input' u hI hsession hstep c hc
        cases status with
        | stopped e => cases hstep
        | running currentClient =>
          cases currentClient with
          | none => exact absurd rfl hsession
          | some c' =>
            rw [serverStep_running] at hstep
            rw [← Option.some.inj hstep] at hc
            rw [(turn_cases crc opts fs' (some c') input').filePath hc]
            exact hI c' rfl
    exact hpath c hsession

/-! ## Names of entries -/

/-- The path is an entry of the directory, to the program and to the operating system. -/
def EntryOf (directory p : Path) : Prop :=
  ChildOf (lexicallyNormal directory) (lexicallyNormal p) ∧
    ChildOf (lexicallyNormal directory) (lexicallyNormal (cStr p))

/-- A relative name leads to one entry: after `k` levels up it names the last `k` folders of
the directory again, which must have as many unless it is absolute, and one name more. An
absolute name leads to an entry if it names all folders of an absolute directory, and one
name more. -/
def NamesEntry (directory name : Path) : Prop :=
  if name.head? = some slash then
    (lexicallyNormal directory).absolute = true ∧
      (relative name).names ≠ [] ∧
      (relative name).names.dropLast = (lexicallyNormal directory).names
  else
    ((lexicallyNormal directory).absolute = true ∨
        (relative name).ups ≤ (lexicallyNormal directory).names.length) ∧
      (relative name).names ≠ [] ∧
      (relative name).names.dropLast = (lexicallyNormal directory).names.drop
        ((lexicallyNormal directory).names.length - (relative name).ups)

instance : Decidable (NamesEntry directory name) := by unfold NamesEntry; infer_instance

theorem exists_eq_append_singleton_iff {names cs : List Bytes} :
    (∃ n, names = cs ++ [n]) ↔ names ≠ [] ∧ names.dropLast = cs := by
  constructor
  · rintro ⟨n, rfl⟩
    exact ⟨by simp, List.dropLast_concat⟩
  · rintro ⟨hne, rfl⟩
    exact ⟨names.getLast hne, (List.dropLast_append_getLast hne).symm⟩

theorem childOf_join_iff :
    ChildOf (lexicallyNormal directory) (lexicallyNormal (Path.join directory name)) ↔
      NamesEntry directory name := by
  rw [lexicallyNormal_join, NamesEntry]
  by_cases hslash : name.head? = some slash
  · rw [if_pos hslash, if_pos hslash, childOf_root_extend_iff, exists_eq_append_singleton_iff]
  · rw [if_neg hslash, if_neg hslash, childOf_climb_extend_iff, exists_eq_append_singleton_iff]

/-- **When an upload stays inside the storage directory**, whatever files there are. -/
theorem upload_confined_iff (crc : Bytes → UInt32) (opts : ServerOptions) (fs : FileSystem)
    (input : ServerInput) (hcheck : (receive input.bytes).checkIntegrity crc = true)
    (hSYN : (receive input.bytes).isSYN crc = true) :
    (∀ p, UsedPath crc opts fs input p → EntryOf opts.directory p) ↔
      NamesEntry opts.directory (receive input.bytes).getPayloadAsString ∧
        NamesEntry opts.directory (cStr (receive input.bytes).getPayloadAsString) := by
  have hcStr : cStr (storagePath opts (receive input.bytes).getPayloadAsString)
      = Path.join opts.directory (cStr (receive input.bytes).getPayloadAsString) :=
    cStr_join opts.directory_noNul
  have hentry : EntryOf opts.directory
      (storagePath opts (receive input.bytes).getPayloadAsString) ↔
        NamesEntry opts.directory (receive input.bytes).getPayloadAsString ∧
          NamesEntry opts.directory (cStr (receive input.bytes).getPayloadAsString) := by
    rw [EntryOf, hcStr, storagePath, childOf_join_iff, childOf_join_iff]
  rw [← hentry]
  constructor
  · intro h
    exact h _ (.opened hcheck hSYN)
  · rintro h p hp
    rw [hp.eq_storagePath]
    exact h

/-- What the server receives of the SYN for a name. -/
theorem receive_ofString_SYN (crc : Bytes → UInt32) (name : Payload) :
    (receive (ofString crc Flags.SYN name false).wire).checkIntegrity crc = true ∧
      (receive (ofString crc Flags.SYN name false).wire).isSYN crc = true ∧
      (receive (ofString crc Flags.SYN name false).wire).getPayloadAsString = name.1 ∧
      (ofString crc Flags.SYN name false).wire.length ≤ maxDatagramSize := by
  have hSYN : (ofString crc Flags.SYN name false).WellFormed crc := wellFormed_init ..
  rw [hSYN.receive_wire, hSYN.length_wire]
  exact ⟨hSYN.checkIntegrity, isSYN_iff.mpr rfl, getPayload_init .., hSYN.size_le⟩

/-- The SYN for the file name `../x`. -/
def parentSYN (crc : Bytes → UInt32) : BftDatagram :=
  ofString crc Flags.SYN ⟨[46, 46, 47, 120], by decide⟩ false

/-- The file name `a`. -/
theorem example_upload_confined : EntryOf exampleOpts.directory (storagePath exampleOpts [97]) := by
  obtain ⟨hcheck, hisSYN, hname, -⟩ := receive_ofString_SYN CRC.crc32 ⟨[97], by decide⟩
  have hconfined := (upload_confined_iff CRC.crc32 exampleOpts exampleFs
    ⟨exampleAddr, (exampleSYN CRC.crc32).wire, exampleEnv⟩ hcheck hisSYN).mpr
      (by rw [exampleSYN, hname]; decide) _ (.opened hcheck hisSYN)
  rwa [exampleSYN, hname] at hconfined

/-- The file name `../x` leads out of the storage directory. -/
theorem upload_outside :
    ¬ ∀ (opts : ServerOptions) (fs : FileSystem) (s : ServerState) (input : ServerInput),
      Reaches (serverStep CRC.crc32 opts) anyStep ⟨fs, .running none⟩ s →
      s.status = .running none → input.bytes.length ≤ maxDatagramSize →
      (receive input.bytes).checkIntegrity CRC.crc32 = true →
      (receive input.bytes).isSYN CRC.crc32 = true →
      ∀ p, UsedPath CRC.crc32 opts s.fs input p → EntryOf opts.directory p := by
  intro h
  obtain ⟨hcheck, hisSYN, hname, hlength⟩ :=
    receive_ofString_SYN CRC.crc32 ⟨[46, 46, 47, 120], by decide⟩
  have hentry := ((upload_confined_iff CRC.crc32 exampleOpts exampleFs
    ⟨exampleAddr, (parentSYN CRC.crc32).wire, exampleEnv⟩ hcheck hisSYN).mp
      (h exampleOpts exampleFs ⟨exampleFs, .running none⟩ _ .refl rfl hlength hcheck hisSYN)).1
  rw [parentSYN, hname] at hentry
  exact absurd hentry (by decide)

end Rechnernetze.Bft
