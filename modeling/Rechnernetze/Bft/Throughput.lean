import Mathlib.Algebra.Ring.Nat
import Rechnernetze.Bft.ServerTheorems

/-!
# The throughput log

`log_bytes_written` divides the bytes since the last log by the milliseconds since then. The
periodic log of `writeBytes` has waited for more than a second, the one of a FIN has not: it
divides by zero in the first millisecond after the start of the session or the last log
(`log_faultless_iff`). The sessions of the server are runs of a writer
(`session_is_writer_run`).
-/

namespace Rechnernetze.Bft

open Lib BftDatagram

/-- The clock does not go back: the readings of a turn are not before `now`. -/
def Env.NotBefore (env : Env) (now : ℤ) : Prop :=
  now ≤ env.clock 0 ∧ env.clock 0 ≤ env.clock 1 ∧ env.clock 1 ≤ env.clock 2

instance (env : Env) (now : ℤ) : Decidable (env.NotBefore now) := by
  unfold Env.NotBefore
  infer_instance

/-- What the datagrams of a session ask of its writer. -/
inductive WriterCall where
  | writeBytes (data : Bytes) (env : Env)
  /-- The FIN branch of `handle_valid_datagram`. -/
  | fin (env : Env)

def WriterCall.env : WriterCall → Env
  | .writeBytes _ env => env
  | .fin env => env

/-- A call of `log_bytes_written`: the writer before the call and its first reading of the
clock. -/
structure LogCall where
  writer : FileWriter
  nowElapsed : ℤ

def LogCall.msElapsed (log : LogCall) : ℤ := (log.nowElapsed - log.writer.lastLog).tdiv 1000000

/-- The difference of the counts is no wrapped one, and the divisor is not zero. -/
def LogCall.Faultless (log : LogCall) : Prop :=
  log.writer.lastBytesWritten ≤ log.writer.bytesWritten ∧ log.msElapsed ≠ 0

instance (log : LogCall) : Decidable log.Faultless := by
  unfold LogCall.Faultless
  infer_instance

/-- The writer of a session between two turns, and the last reading of the clock. -/
structure WriterState where
  fs : FileSystem
  writer : FileWriter
  now : ℤ

namespace WriterState

/-- The start of a session. -/
def opened (fs : FileSystem) (filePath : Path) (location : Location) (now : ℤ) : WriterState where
  fs := fs
  writer := .opened filePath location now
  now := now

/-- A call that returns to the session: after a FIN there is none. -/
def step (s : WriterState) : WriterCall → Option WriterState
  | .writeBytes data env =>
    match s.writer.writeBytes s.fs data env with
    | (fs', .ok w) => some ⟨fs', w, env.clock 2⟩
    | (_, .error _) => none
  | .fin _ => none

/-- The calls of `log_bytes_written`. -/
def logCalls (s : WriterState) : WriterCall → List LogCall
  | .writeBytes _ env =>
    if env.clock 0 - s.writer.lastLog > 1000000000 then [⟨s.writer, env.clock 1⟩] else []
  | .fin env => [⟨s.writer, env.clock 1⟩]

/-- The 64 bits of the count are enough. -/
def CountFits (s : WriterState) : WriterCall → Prop
  | .writeBytes data _ => s.writer.bytesWritten.toNat + data.length < 2 ^ 64
  | .fin _ => True

/-- A FIN comes a millisecond after the start of the session or the last log. -/
def FinInTime (s : WriterState) : WriterCall → Prop
  | .writeBytes _ _ => True
  | .fin env => s.writer.lastLog + 1000000 ≤ env.clock 1

def ClockOk (s : WriterState) (call : WriterCall) : Prop := call.env.NotBefore s.now

instance (s : WriterState) (call : WriterCall) : Decidable (s.ClockOk call) := by
  unfold ClockOk
  infer_instance

section
variable {fs : FileSystem} {p : Path} {l : Location} {t₀ : ℤ} {s t : WriterState}
  {call : WriterCall}

theorem step_cases (h : s.step call = some t) :
    ∃ data env, call = .writeBytes data env ∧ t.now = env.clock 2 ∧
      t.writer.bytesWritten = s.writer.bytesWritten + UInt64.ofNat data.length ∧
      (t.writer.lastBytesWritten = s.writer.lastBytesWritten ∧
          t.writer.lastLog = s.writer.lastLog ∨
        t.writer.lastBytesWritten = s.writer.bytesWritten ∧ t.writer.lastLog = env.clock 2) := by
  cases call with
  | fin env => cases h
  | writeBytes data env =>
    refine ⟨data, env, rfl, ?_⟩
    unfold step FileWriter.writeBytes FileWriter.logIfDue FileWriter.logBytesWritten at h
    dsimp only at h
    split at h
    · rename_i fs' w hw
      obtain rfl := Option.some.inj h
      split at hw
      · cases hw
      · rename_i w₁ hlog
        split at hw
        · obtain ⟨-, hw⟩ := Prod.mk.inj hw
          obtain rfl := Except.ok.inj hw
          refine ⟨rfl, ?_⟩
          split at hlog
          · split at hlog
            · cases hlog
            · obtain rfl := Except.ok.inj hlog
              exact ⟨rfl, Or.inr ⟨rfl, rfl⟩⟩
          · obtain rfl := Except.ok.inj hlog
            exact ⟨rfl, Or.inl ⟨rfl, rfl⟩⟩
        · cases hw
    · cases h

/-- What the log relies on: the last one lies in the past, and nothing has been unwritten
since. -/
structure Logged (s : WriterState) : Prop where
  lastLog_le : s.writer.lastLog ≤ s.now
  lastBytesWritten_le : s.writer.lastBytesWritten ≤ s.writer.bytesWritten

theorem logged_opened : (opened fs p l t₀).Logged where
  lastLog_le := Int.le_refl t₀
  lastBytesWritten_le := UInt64.le_refl 0

theorem Logged.step (hs : s.Logged) (hclock : s.ClockOk call) (hfits : s.CountFits call)
    (h : s.step call = some t) : t.Logged := by
  obtain ⟨data, env, rfl, hnow, hbytes, hlog⟩ := step_cases h
  obtain ⟨h0, h1, h2⟩ := hclock
  change s.now ≤ env.clock 0 at h0
  change env.clock 0 ≤ env.clock 1 at h1
  change env.clock 1 ≤ env.clock 2 at h2
  change s.writer.bytesWritten.toNat + data.length < 2 ^ 64 at hfits
  have hle : s.writer.bytesWritten ≤ t.writer.bytesWritten := by
    rw [hbytes, UInt64.le_iff_toNat_le, UInt64.toNat_add, UInt64.toNat_ofNat']
    omega
  have hlast := hs.lastLog_le
  rcases hlog with ⟨hcount, htime⟩ | ⟨hcount, htime⟩
  · refine ⟨?_, ?_⟩
    · omega
    · rw [hcount]
      exact UInt64.le_trans hs.lastBytesWritten_le hle
  · refine ⟨?_, ?_⟩
    · omega
    · rw [hcount]
      exact hle

theorem reaches_logged
    (h : Reaches step (fun s call => s.ClockOk call ∧ s.CountFits call) (opened fs p l t₀) s) :
    s.Logged :=
  h.invariant logged_opened fun _ _ _ hs hok hstep => hs.step hok.1 hok.2 hstep

theorem msElapsed_ne_zero_iff {log : LogCall} (h : log.writer.lastLog ≤ log.nowElapsed) :
    log.msElapsed ≠ 0 ↔ log.writer.lastLog + 1000000 ≤ log.nowElapsed := by
  unfold LogCall.msElapsed
  rw [Int.tdiv_eq_ediv_of_nonneg (by omega)]
  omega

/-- **The log never faults, FINs apart.** In a session that has not written more than the count
of bytes can hold, the next call logs without a fault exactly if it is no FIN in the first
millisecond after the start or the last log. -/
theorem log_faultless_iff (fs : FileSystem) (p : Path) (l : Location) (t₀ : ℤ) (s : WriterState)
    (h : Reaches step (fun s call => s.ClockOk call ∧ s.CountFits call) (opened fs p l t₀) s)
    (call : WriterCall) (hclock : s.ClockOk call) :
    (∀ log ∈ s.logCalls call, log.Faultless) ↔ s.FinInTime call := by
  obtain ⟨hlast, hcount⟩ := reaches_logged h
  obtain ⟨h0, h1, -⟩ := hclock
  cases call with
  | writeBytes data env =>
    change s.now ≤ env.clock 0 at h0
    change env.clock 0 ≤ env.clock 1 at h1
    refine ⟨fun _ => trivial, fun _ log hlog => ?_⟩
    change log ∈ if env.clock 0 - s.writer.lastLog > 1000000000 then [LogCall.mk s.writer
      (env.clock 1)] else [] at hlog
    split at hlog
    · -- more than a second has passed
      obtain rfl := List.mem_singleton.mp hlog
      refine ⟨hcount, (msElapsed_ne_zero_iff ?_).mpr ?_⟩
      · show s.writer.lastLog ≤ env.clock 1
        omega
      · show s.writer.lastLog + 1000000 ≤ env.clock 1
        omega
    · cases hlog
  | fin env =>
    change s.now ≤ env.clock 0 at h0
    change env.clock 0 ≤ env.clock 1 at h1
    have hle : s.writer.lastLog ≤ env.clock 1 := by omega
    have hiff : LogCall.msElapsed ⟨s.writer, env.clock 1⟩ ≠ 0 ↔
        s.writer.lastLog + 1000000 ≤ env.clock 1 := msElapsed_ne_zero_iff hle
    refine ⟨fun hall => hiff.mp (hall _ (List.mem_singleton_self _)).2, fun htime log hlog => ?_⟩
    obtain rfl := List.mem_singleton.mp hlog
    exact ⟨hcount, hiff.mpr htime⟩

end

/-- A FIN right after the SYN: the log divides by zero. -/
theorem fin_after_opening_faults :
    ¬ ∀ (fs : FileSystem) (p : Path) (l : Location) (t₀ : ℤ) (s : WriterState),
      Reaches step ClockOk (opened fs p l t₀) s → ∀ call, s.ClockOk call →
        ∀ log ∈ s.logCalls call, log.Faultless := by
  intro h
  have hlog := h exampleFs [] [] 0 _ .refl (.fin ⟨fun _ => 999999, true, none⟩) (by decide)
    _ (List.mem_singleton_self _)
  revert hlog
  decide

/-- A session that has written one byte. -/
def exampleWriterState : WriterState :=
  ⟨(exampleStored []).append [[115], [97]] [7], exampleSessionData.fileWriter, 4000000⟩

/-- A FIN two milliseconds after a write. -/
def exampleFIN : WriterCall := .fin ⟨fun k => 4000000 + 2000000 * k, true, none⟩

theorem example_log_faultless :
    exampleWriterState.logCalls exampleFIN ≠ [] ∧
      ∀ log ∈ exampleWriterState.logCalls exampleFIN, log.Faultless := by
  have hwrite : step (opened (exampleStored []) [115, 47, 97] [[115], [97]] 0)
      (.writeBytes [7] exampleEnv) = some exampleWriterState := rfl
  have hfits : CountFits (opened (exampleStored []) [115, 47, 97] [[115], [97]] 0)
      (.writeBytes [7] exampleEnv) := by
    show (0 : UInt64).toNat + 1 < 2 ^ 64
    decide
  have hfin : exampleWriterState.FinInTime exampleFIN := by
    show (0 : ℤ) + 1000000 ≤ 4000000 + 2000000 * 1
    decide
  refine ⟨List.cons_ne_nil _ _, ?_⟩
  exact (log_faultless_iff _ _ _ _ _ (.tail .refl ⟨by decide, hfits⟩ hwrite) _ (by decide)).mpr hfin

end WriterState

/-! ## The sessions of the server -/

open WriterState

/-- What the datagram in order asks of the writer of its session. -/
def writerCall (datagram : BftDatagram) (env : Env) : Option WriterCall :=
  if datagram.getFlags &&& Flags.FIN = Flags.FIN then some (.fin env)
  else if clearFlag datagram.getFlags Flags.SQN = Flags.None then
    some (.writeBytes datagram.getPayload env)
  else none

/-- The server, and the last reading of its clock. -/
def timedStep (crc : Bytes → UInt32) (opts : ServerOptions) (s : ServerState × ℤ)
    (input : ServerInput) : Option (ServerState × ℤ) :=
  (serverStep crc opts s.1 input).map fun t => (t, input.env.clock 2)

section
variable {crc : Bytes → UInt32} {opts : ServerOptions} {fs fs' : FileSystem}
  {c c' : ClientData} {d : BftDatagram} {env : Env} {input : ServerInput} {now : ℤ}

theorem logBytesWritten_divisionByZero_iff (w : FileWriter) (nowElapsed nowLast : ℤ) :
    w.logBytesWritten nowElapsed nowLast = .error .divisionByZero ↔
      LogCall.msElapsed ⟨w, nowElapsed⟩ = 0 := by
  unfold FileWriter.logBytesWritten LogCall.msElapsed
  dsimp only
  split
  · rename_i h
    exact ⟨fun _ => h, fun _ => rfl⟩
  · rename_i h
    exact ⟨nofun, fun h' => absurd h' h⟩

theorem writeBytes_divisionByZero_iff (w : FileWriter) (fs : FileSystem) (data : Bytes)
    (env : Env) (now : ℤ) :
    (w.writeBytes fs data env).2 = .error .divisionByZero ↔
      ∃ log ∈ logCalls ⟨fs, w, now⟩ (.writeBytes data env), log.msElapsed = 0 := by
  unfold FileWriter.writeBytes FileWriter.logIfDue logCalls
  dsimp only
  by_cases hdue : env.clock 0 - w.lastLog > 1000000000
  · rw [if_pos hdue, if_pos hdue]
    have hiff := logBytesWritten_divisionByZero_iff w (env.clock 1) (env.clock 2)
    cases hlog : w.logBytesWritten (env.clock 1) (env.clock 2) with
    | error e =>
      rw [hlog] at hiff
      simpa using hiff
    | ok w' =>
      rw [hlog] at hiff
      have hne : LogCall.msElapsed ⟨w, env.clock 1⟩ ≠ 0 := fun h0 => nomatch hiff.mpr h0
      dsimp only
      split
      · simpa using hne
      · simpa using hne
  · rw [if_neg hdue, if_neg hdue]
    dsimp only
    split
    · simp
    · simp

/-- The server dies of a division exactly if a log has no millisecond to divide by. -/
theorem handleValidDatagram_divisionByZero_iff :
    (handleValidDatagram fs c d env).2 = .error .divisionByZero ↔
      ∃ call, writerCall d env = some call ∧
        ∃ log ∈ logCalls ⟨fs, c.fileWriter, now⟩ call, log.msElapsed = 0 := by
  unfold handleValidDatagram writerCall
  split
  · have hiff := logBytesWritten_divisionByZero_iff c.fileWriter (env.clock 1) (env.clock 2)
    cases hlog : c.fileWriter.logBytesWritten (env.clock 1) (env.clock 2) with
    | error e =>
      rw [hlog] at hiff
      simpa [logCalls, Except.map] using hiff
    | ok w =>
      rw [hlog] at hiff
      simpa [logCalls, Except.map] using hiff
  · split
    · have hiff := writeBytes_divisionByZero_iff c.fileWriter fs d.getPayload env now
      cases hwrite : c.fileWriter.writeBytes fs d.getPayload env with
      | mk fs' result =>
        rw [hwrite] at hiff
        cases result with
        | error e => simpa [Except.map] using hiff
        | ok w => simpa [Except.map] using hiff
    · simp

theorem handleValidDatagram_writer (now : ℤ)
    (h : handleValidDatagram fs c d env = (fs', .ok (some c'))) :
    (writerCall d env = none ∧ fs' = fs ∧ c' = c) ∨
      ∃ call, writerCall d env = some call ∧ call.env = env ∧
        WriterState.step ⟨fs, c.fileWriter, now⟩ call
          = some ⟨fs', c'.fileWriter, env.clock 2⟩ := by
  unfold handleValidDatagram at h
  unfold writerCall
  split at h
  · -- after a FIN there is no client
    obtain ⟨-, h⟩ := Prod.mk.inj h
    cases hlog : c.fileWriter.logBytesWritten (env.clock 1) (env.clock 2) with
    | error e => rw [hlog] at h; cases h
    | ok w => rw [hlog] at h; cases h
  · rename_i hFIN
    rw [if_neg hFIN]
    split at h
    · rename_i hdata
      rw [if_pos hdata]
      refine Or.inr ⟨_, rfl, rfl, ?_⟩
      unfold WriterState.step
      dsimp only
      cases hwrite : c.fileWriter.writeBytes fs d.getPayload env with
      | mk fs₁ result =>
        rw [hwrite] at h
        cases result with
        | error e => cases h
        | ok w => cases h; rfl
    · rename_i hdata
      rw [if_neg hdata]
      cases h
      exact Or.inl ⟨rfl, rfl, rfl⟩

/-- Every turn keeps the writer of a session, or is a call of it. -/
theorem turn_writer {out : Outcome} (now : ℤ) (h : iteration crc opts fs (some c) input = out)
    (hc : out.state.status = .running (some c')) :
    (out.state.fs = fs ∧ c'.fileWriter = c.fileWriter) ∨
      ∃ call, call.env = input.env ∧
        WriterState.step ⟨fs, c.fileWriter, now⟩ call
          = some ⟨out.state.fs, c'.fileWriter, input.env.clock 2⟩ := by
  have hturn := turn_cases crc opts fs (some c) input
  rw [h] at hturn
  by_cases haccept : Accepts crc c input
  · -- the datagram in order
    obtain ⟨hcheck, hSYN, hABR, hip, hsqn⟩ := haccept
    have hout : out.state = .after (handleValidDatagram fs c.incrementSQN (receive input.bytes)
        input.env) := by
      rw [← h, iteration_intact hcheck, onIntact_regular hSYN hABR, onRegular_accepted hip hsqn]
    cases hvalid : handleValidDatagram fs c.incrementSQN (receive input.bytes) input.env with
    | mk fs' result =>
      rw [hvalid] at hout
      cases result with
      | error e => rw [hout] at hc; cases hc
      | ok current =>
        rw [hout] at hc ⊢
        obtain rfl := Status.running.inj hc
        rcases handleValidDatagram_writer now hvalid with ⟨-, hfs, rfl⟩ | ⟨call, -, h⟩
        · exact Or.inl ⟨hfs, rfl⟩
        · exact Or.inr ⟨call, h⟩
  · cases hturn with
    | again | busy | abortIgnored | refused | duplicate =>
      cases hc
      exact Or.inl ⟨rfl, rfl⟩
    | aborted | abortFailed => cases hc
    | fin h' | finFailed h' | written h' | writeFailed h' | ignored h' => exact absurd h' haccept

/-- The session, if there is one, has come from its start by calls of the writer. -/
def IsWriterRun (s : ServerState × ℤ) : Prop :=
  ∀ c, s.1.status = .running (some c) → ∃ fs₀ p l t₀ now, now ≤ s.2 ∧
    Reaches WriterState.step ClockOk (opened fs₀ p l t₀) ⟨s.1.fs, c.fileWriter, now⟩

/-- **Every session of the server is a run of its writer.** -/
theorem session_is_writer_run {s t : ServerState × ℤ}
    (h : Reaches (timedStep crc opts) (fun s input => input.env.NotBefore s.2) s t)
    (hidle : s.1.status = .running none) : IsWriterRun t := by
  refine h.invariant ?_ ?_
  · intro c hc
    rw [hidle] at hc
    cases hc
  · intro s input t hs hclock hstep c hc
    obtain ⟨⟨fs, status⟩, now⟩ := s
    obtain ⟨h0, h1, h2⟩ := hclock
    unfold timedStep at hstep
    obtain ⟨t', hserver, rfl⟩ := Option.map_eq_some_iff.mp hstep
    cases status with
    | stopped e => cases hserver
    | running currentClient =>
      obtain rfl := Option.some.inj hserver
      cases currentClient with
      | none =>
        have hturn := turn_cases crc opts fs none input
        generalize iteration crc opts fs none input = out at hturn hc ⊢
        cases hturn with
        | opened =>
          cases hc
          exact ⟨_, _, _, _, _, by dsimp only; omega, .refl⟩
        | _ => cases hc
      | some c₀ =>
        obtain ⟨fs₀, p, l, t₀, now', hle, hrun⟩ := hs c₀ rfl
        dsimp only at hle h0
        rcases turn_writer now' rfl hc with ⟨hfs, hw⟩ | ⟨call, henv, hcall⟩
        · refine ⟨fs₀, p, l, t₀, now', by dsimp only; omega, ?_⟩
          dsimp only
          rw [hfs, hw]
          exact hrun
        · refine ⟨fs₀, p, l, t₀, _, Int.le_refl _, .tail hrun ?_ hcall⟩
          unfold ClockOk
          rw [henv]
          exact ⟨by dsimp only; omega, h1, h2⟩

end

end Rechnernetze.Bft
