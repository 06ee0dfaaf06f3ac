import Rechnernetze.Lib.FileSystem

/-!
# `FileWriter`, the server's open file

What the operating system contributes to one turn of the server's loop is an `Env`: the
readings of the clock, whether a file that could be opened is, and how much of a payload
reaches the disk. An operation that can end the process returns the file system it leaves
behind and either its result or the reason of the end.
-/

namespace Rechnernetze.Bft

open Lib

/-- Why a process ends before its time. -/
inductive Stop where
  | nullDereference
  /-- `exit(1)` after a file could not be opened. -/
  | exitFailure
  /-- An exception of `std::filesystem` that nobody catches. -/
  | uncaught (e : Errno)
  | divisionByZero
deriving DecidableEq

/-- What the operating system does in one turn of the receive loop. -/
structure Env where
  /-- The successive readings of `system_clock::now()`, in nanoseconds. -/
  clock : ℕ → ℤ
  /-- Opening a file that can be opened succeeds. -/
  openOk : Bool
  /-- All of a payload is written, or only its first bytes. -/
  writeLimit : Option ℕ

/-- No file operation fails. -/
def Env.NoIOError (env : Env) : Prop := env.openOk = true ∧ env.writeLimit = none

instance (env : Env) : Decidable env.NoIOError := by unfold Env.NoIOError; infer_instance

/-- A `std::ofstream`: the open file, and whether the stream still takes output. -/
structure OFStream where
  location : Location
  isOpen : Bool
  good : Bool
deriving DecidableEq

/-- `<<` of every byte, then `flush`; after a failed write the stream takes no more output. That
it tries once more at its end to write what it could not is left out. -/
def OFStream.write (s : OFStream) (fs : FileSystem) (data : Bytes) (limit : Option ℕ) :
    FileSystem × OFStream :=
  if s.good then
    match limit with
    | none => (fs.append s.location data, s)
    | some k =>
      (fs.append s.location (data.take k), { s with good := data.length ≤ k })
  else (fs, s)

structure FileWriter where
  filePath : Path
  fileStream : OFStream
  bytesWritten : UInt64
  lastBytesWritten : UInt64
  lastLog : ℤ
deriving DecidableEq

namespace FileWriter

/-- A writer that has just opened the file at `location`. -/
def opened (filePath : Path) (location : Location) (now : ℤ) : FileWriter where
  filePath := filePath
  fileStream := { location := location, isOpen := true, good := true }
  bytesWritten := 0
  lastBytesWritten := 0
  lastLog := now

/-- `FileWriter::FileWriter`. -/
def new (fs : FileSystem) (filePath : Path) (env : Env) : FileSystem × Except Stop FileWriter :=
  if env.openOk then
    match fs.openAppend filePath with
    | .ok (fs', location) => (fs', .ok (opened filePath location (env.clock 0)))
    | .error _ => (fs, .error .exitFailure)
  else (fs, .error .exitFailure)

/-- `log_bytes_written`: the rate is a quotient of integers, by the whole milliseconds
since the last log. `nowElapsed` and `nowLast` are its two readings of the clock. -/
def logBytesWritten (w : FileWriter) (nowElapsed nowLast : ℤ) : Except Stop FileWriter :=
  let msElapsed := (nowElapsed - w.lastLog).tdiv 1000000
  if msElapsed = 0 then .error .divisionByZero
  else .ok { w with lastBytesWritten := w.bytesWritten, lastLog := nowLast }

/-- The periodic log at the start of `writeBytes`, once a second at most. -/
def logIfDue (w : FileWriter) (env : Env) : Except Stop FileWriter :=
  if env.clock 0 - w.lastLog > 1000000000 then w.logBytesWritten (env.clock 1) (env.clock 2)
  else .ok w

/-- `writeBytes`. -/
def writeBytes (w : FileWriter) (fs : FileSystem) (data : Bytes) (env : Env) :
    FileSystem × Except Stop FileWriter :=
  match w.logIfDue env with
  | .error e => (fs, .error e)
  | .ok w =>
    -- the state of the stream after the write is not looked at
    if w.fileStream.isOpen then
      let (fs', fileStream) := w.fileStream.write fs data env.writeLimit
      (fs', .ok
        { w with
          fileStream := fileStream
          bytesWritten := w.bytesWritten + UInt64.ofNat data.length })
    else (fs, .error .exitFailure)

/-- `abort`: closes the stream and removes the file if something was written. -/
def abort (w : FileWriter) (fs : FileSystem) : FileSystem × Except Stop Unit :=
  if w.bytesWritten > 0 then
    match fs.remove w.filePath with
    | .ok fs' => (fs', .ok ())
    | .error e => (fs, .error (.uncaught e))
  else (fs, .ok ())

/-! ## What the operations can do -/

variable {fs : FileSystem} {w : FileWriter} {p : Path} {data : Bytes} {env : Env}

theorem new_cases (fs : FileSystem) (p : Path) (env : Env) :
    (∃ fs' l, fs.openAppend p = .ok (fs', l) ∧ new fs p env = (fs', .ok (opened p l (env.clock 0))))
      ∨ new fs p env = (fs, .error .exitFailure) := by
  unfold new
  split
  · split
    · rename_i fs' l h
      exact Or.inl ⟨fs', l, h, rfl⟩
    · exact Or.inr rfl
  · exact Or.inr rfl

theorem new_of_openAppend {fs' : FileSystem} {l : Location} (h : fs.openAppend p = .ok (fs', l))
    (hopen : env.openOk = true) : new fs p env = (fs', .ok (opened p l (env.clock 0))) := by
  rw [new, if_pos hopen, h]

/-- The log before a write is due. -/
def LogDue (w : FileWriter) (env : Env) : Prop := env.clock 0 - w.lastLog > 1000000000

/-- Less than a millisecond has passed since the last log: the rate divides by zero. -/
def LogFails (w : FileWriter) (env : Env) : Prop :=
  (env.clock 1 - w.lastLog).tdiv 1000000 = 0

theorem logBytesWritten_cases (w : FileWriter) (env : Env) :
    (w.LogFails env ∧ w.logBytesWritten (env.clock 1) (env.clock 2) = .error .divisionByZero) ∨
      w.logBytesWritten (env.clock 1) (env.clock 2)
        = .ok { w with lastBytesWritten := w.bytesWritten, lastLog := env.clock 2 } := by
  unfold logBytesWritten
  dsimp only
  split
  · rename_i h
    exact Or.inl ⟨h, rfl⟩
  · exact Or.inr rfl

theorem logIfDue_cases (w : FileWriter) (env : Env) :
    (w.LogDue env ∧ w.LogFails env ∧ w.logIfDue env = .error .divisionByZero) ∨
      ∃ n t, w.logIfDue env = .ok { w with lastBytesWritten := n, lastLog := t } := by
  unfold logIfDue
  split
  · rename_i hdue
    rcases logBytesWritten_cases w env with ⟨hfails, h⟩ | h
    · exact Or.inl ⟨hdue, hfails, h⟩
    · exact Or.inr ⟨_, _, h⟩
  · exact Or.inr ⟨w.lastBytesWritten, w.lastLog, rfl⟩

/-- A writer that goes on has counted the whole payload, whatever reached the disk. -/
theorem writeBytes_cases (w : FileWriter) (fs : FileSystem) (data : Bytes) (env : Env) :
    (∃ e, e ≠ .nullDereference ∧ (w.LogDue env ∧ w.LogFails env ∨ w.fileStream.isOpen = false) ∧
        w.writeBytes fs data env = (fs, .error e)) ∨
      ∃ w', w.writeBytes fs data env
          = ((w.fileStream.write fs data env.writeLimit).1, .ok w') ∧
        w'.filePath = w.filePath ∧
        w'.fileStream = (w.fileStream.write fs data env.writeLimit).2 ∧
        w'.bytesWritten = w.bytesWritten + UInt64.ofNat data.length := by
  unfold writeBytes
  rcases logIfDue_cases w env with ⟨hdue, hfails, h⟩ | ⟨n, t, h⟩
  · exact Or.inl ⟨.divisionByZero, by decide, Or.inl ⟨hdue, hfails⟩, by rw [h]⟩
  · rw [h]
    dsimp only
    split
    · exact Or.inr ⟨_, rfl, rfl, rfl, rfl⟩
    · rename_i hopen
      exact Or.inl ⟨.exitFailure, by decide, Or.inr ((Bool.not_eq_true _).mp hopen), rfl⟩

theorem abort_cases (w : FileWriter) (fs : FileSystem) :
    (w.bytesWritten = 0 ∧ w.abort fs = (fs, .ok ())) ∨
      (w.bytesWritten ≠ 0 ∧ ∃ fs', fs.remove w.filePath = .ok fs' ∧ w.abort fs = (fs', .ok ())) ∨
      ∃ e, fs.remove w.filePath = .error e ∧ w.abort fs = (fs, .error (.uncaught e)) := by
  unfold abort
  split
  · rename_i h
    cases hr : fs.remove w.filePath with
    | ok fs' => exact Or.inr (Or.inl ⟨(UInt64.pos_iff_ne_zero).mp h, fs', rfl, rfl⟩)
    | error e => exact Or.inr (Or.inr ⟨e, rfl, rfl⟩)
  · rename_i h
    exact Or.inl ⟨by simpa [UInt64.pos_iff_ne_zero] using h, rfl⟩

end FileWriter

/-- Without a fault a stream that takes output appends all of it. -/
theorem OFStream.write_none {s : OFStream} {fs : FileSystem} {data : Bytes} (h : s.good = true) :
    s.write fs data none = (fs.append s.location data, s) := by
  rw [OFStream.write, if_pos h]

end Rechnernetze.Bft
