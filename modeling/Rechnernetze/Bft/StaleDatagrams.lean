import Rechnernetze.Bft.Progress

/-!
# Late copies of datagrams

A datagram may be delivered again long after the session it belonged to. Beside the network
runs the list of everything one client has sent (`sentStep`); an idle server that is handed
late copies from that list stays idle and keeps its files exactly if none of them is the SYN
(`stale_datagrams_harmless_iff`). Every upload has sent one (`SentInv.syn`), and its copy opens
a new session (`stale_SYN_reopens_session`).
-/

namespace Rechnernetze.Bft

open Lib BftDatagram ClientState

section
variable {ι : Type} [DecidableEq ι]

/-- What client `i` hands to `sendto` in this step. -/
def sentBy (crc : Bytes → UInt32) (up : ι → Upload) (i : ι) (net : Net ι) :
    Action ι → List Bytes
  | .client j event =>
    if j = i then
      match clientStep crc (up i) (net.client i) event with
      | some (_, sends) => sends.map (·.2)
      | none => []
    else []
  | _ => []

/-- A step of the network, together with what client `i` has sent so far. -/
def sentStep (crc : Bytes → UInt32) (opts : ServerOptions) (up : ι → Upload) (i : ι)
    (s : Net ι × List Bytes) (action : Action ι) : Option (Net ι × List Bytes) :=
  (netStep crc opts up s.1 action).map fun net => (net, s.2 ++ sentBy crc up i s.1 action)

/-- What client `i` has sent so far. -/
structure SentInv (crc : Bytes → UInt32) (u : Upload) (s : ClientState) (sent : List Bytes) :
    Prop where
  inHand : InHand crc u s.pc
  ofCall : ∀ w ∈ sent, ∃ call d, OfCall crc u call d ∧ w = d.wire
  /-- A client that waits has sent what it waits for an answer to. -/
  waiting : ∀ call d n, s.pc = .receive call d n → d.wire ∈ sent
  syn : ¬ Aborting s.pc → (∀ d n, s.pc ≠ .send .syn d n) →
    (ofString crc Flags.SYN u.name false).wire ∈ sent
  fin : s.pc = .finished → ∃ sqn, (ofFlags crc Flags.FIN sqn).wire ∈ sent

variable {crc : Bytes → UInt32} {opts : ServerOptions} {up : ι → Upload} {i : ι}
  {fs₀ : FileSystem} {net net' : Net ι} {sent sent' : List Bytes} {action : Action ι}

/-- In a step of the network client `i` does nothing, or takes a step of its own. -/
theorem sentStep_cases (h : sentStep crc opts up i (net, sent) action = some (net', sent')) :
    net'.client i = net.client i ∧ sent' = sent ∨
      ∃ event sends, Move crc (up i) (net.client i) event (net'.client i) sends ∧
        sent' = sent ++ sends.map (·.2) := by
  obtain ⟨net'', hstep, heq⟩ := Option.map_eq_some_iff.mp h
  cases heq
  cases action with
  | client j event =>
    unfold netStep at hstep
    dsimp only at hstep
    split at hstep
    · cases hstep
    · obtain ⟨⟨s, sends⟩, hs, rfl⟩ := Option.map_eq_some_iff.mp hstep
      -- only the sends of client `i` are recorded
      by_cases hji : j = i
      · subst hji
        refine Or.inr ⟨event, sends, ?_, ?_⟩
        · simpa using clientStep_cases hs
        · simp [sentBy, hs]
      · refine Or.inl ⟨?_, ?_⟩
        · simp [Function.update_of_ne (Ne.symm hji)]
        · simp [sentBy, hji]
  | clientReceive j errnoAgain =>
    cases netStep_cases hstep with
    | clientReceive hchannel hmove =>
      by_cases hji : j = i
      · subst hji
        exact Or.inr ⟨_, [], by simpa using hmove, rfl⟩
      · refine Or.inl ⟨?_, ?_⟩
        · simp [Function.update_of_ne (Ne.symm hji)]
        · simp [sentBy]
  | serverReceive j env =>
    cases netStep_cases hstep with
    | serverReceive hstatus hchannel => exact Or.inl ⟨by simp, by simp [sentBy]⟩
  | fault j direction f =>
    cases netStep_cases hstep with
    | fault hf => exact Or.inl ⟨by simp, by simp [sentBy]⟩

end

section
variable {crc : Bytes → UInt32} {u : Upload} {s s' : ClientState} {sent : List Bytes}
  {event : ClientEvent} {sends : List (SockaddrIn × Bytes)}

theorem SentInv.initial : SentInv crc u (.initial crc u) [] where
  inHand := rfl
  ofCall := nofun
  waiting := nofun
  syn _ h := absurd rfl (h _ _)
  fin := nofun

/-- A step that sends nothing and does not lead to the end of the upload. -/
theorem SentInv.silent (h : SentInv crc u s sent) (hmove : Move crc u s event s' [])
    (hsyn : Aborting s'.pc ∨ ∀ d n, s.pc ≠ .send .syn d n)
    (hwaiting : ∀ call d n, s'.pc ≠ .receive call d n) (hfin : s'.pc ≠ .finished) :
    SentInv crc u s' sent where
  inHand := hmove.inHand h.inHand
  ofCall := h.ofCall
  waiting call d n h' := absurd h' (hwaiting call d n)
  syn hrunning _ :=
    h.syn (fun h' => hrunning (hmove.aborting h')) (hsyn.resolve_left hrunning)
  fin h' := absurd h' hfin

/-- After a timeout the client sends again or gives up. -/
theorem SentInv.timeout {call : Call} {d : BftDatagram} {n : ℕ} {t : ClientState}
    (h : SentInv crc u s sent) (hpc : s.pc = .receive call d n)
    (hmove : Move crc u s event (t.onTimeout u call d n) []) :
    SentInv crc u (t.onTimeout u call d n) sent := by
  have hsyn : ∀ d n, s.pc ≠ .send .syn d n := by
    rw [hpc]
    nofun
  rcases onTimeout_cases u t call d n with ⟨k', h'⟩ | ⟨-, e, -, -, h'⟩ <;> rw [h'] at hmove ⊢
  · exact h.silent hmove (Or.inr hsyn) nofun nofun
  · exact h.silent hmove (Or.inr hsyn) nofun nofun

/-- A step that sends nothing. -/
theorem SentInv.quiet (h : SentInv crc u s sent) (hmove : Move crc u s event s' []) :
    SentInv crc u s' sent := by
  have hmove' := hmove
  cases hmove with
  | sigint => exact h.silent hmove' (Or.inl rfl) nofun nofun
  | sendError => exact h.silent hmove' (Or.inl trivial) nofun nofun
  | timeout hpc => exact h.timeout hpc hmove'
  | receiveError => exact h.silent hmove' (Or.inl trivial) nofun nofun
  | @response call d n sender bytes errnoAgain hpc hbytes =>
    -- a client that waits is past the sending of its SYN
    have hsyn : ∀ d n, s.pc ≠ .send .syn d n := by
      rw [hpc]
      nofun
    have hanswer := onResponse_cases crc { s with serverAddr := sender } call d (receive bytes)
    generalize ClientState.onResponse crc _ _ _ _ = t at hanswer hmove' ⊢
    cases hanswer with
    | again =>
      refine h.silent hmove' (Or.inr hsyn) ?_ ?_
      · intro call' d' n' h'
        cases h'
      · intro h'
        cases h'
    | busy => exact h.silent hmove' (Or.inl trivial) nofun nofun
    | abortAcknowledged => exact h.silent hmove' (Or.inl trivial) nofun nofun
    | acknowledged hcall =>
      cases call with
      | syn => exact h.silent hmove' (Or.inr hsyn) nofun nofun
      | data => exact h.silent hmove' (Or.inr hsyn) nofun nofun
      | abr => exact absurd rfl hcall
      | fin =>
        -- the upload ends; its FIN has been sent
        have hrunning : ¬ Aborting s.pc := by
          rw [hpc]
          nofun
        have hinHand := h.inHand
        rw [hpc] at hinHand
        obtain ⟨sqn, rfl⟩ := hinHand
        exact ⟨trivial, h.ofCall, nofun, fun _ _ => h.syn hrunning hsyn,
          fun _ => ⟨sqn, h.waiting _ _ _ hpc⟩⟩
  | emptyAgain hpc => exact h.timeout hpc hmove'
  | emptyError => exact h.silent hmove' (Or.inl trivial) nofun nofun
  | openFile hpc =>
    refine h.silent hmove' (Or.inr ?_) nofun nofun
    rw [hpc]
    nofun
  | @read fault hpc =>
    have hsyn : ∀ d n, s.pc ≠ .send .syn d n := by
      rw [hpc]
      nofun
    obtain ⟨call, d, -, hpc'⟩ := onRead_pc crc u s fault
    refine h.silent hmove' (Or.inr hsyn) ?_ ?_ <;> rw [hpc']
    · nofun
    · nofun

/-- The step that sends the datagram in hand. -/
theorem SentInv.send {call : Call} {d : BftDatagram} {n : ℕ} (h : SentInv crc u s sent)
    (hpc : s.pc = .send call d n) :
    SentInv crc u { s with pc := .receive call d n } (sent ++ [d.wire]) := by
  have hd := h.inHand
  have hsyn := h.syn
  rw [hpc] at hd hsyn
  have hlast : d.wire ∈ sent ++ [d.wire] :=
    List.mem_append_right _ (List.mem_singleton_self _)
  refine ⟨hd, fun w hw => ?_, ?_, fun hrunning _ => ?_, nofun⟩
  · rcases List.mem_append.mp hw with h' | h'
    · exact h.ofCall w h'
    · exact ⟨call, d, hd, List.mem_singleton.mp h'⟩
  · rintro call' d' n' ⟨⟩
    exact hlast
  · -- the SYN is sent now or has been before
    by_cases hcall : call = .syn
    · subst hcall
      obtain rfl : d = .ofString crc Flags.SYN u.name false := hd
      exact hlast
    · refine List.mem_append_left _ (hsyn hrunning ?_)
      rintro d' n' ⟨⟩
      exact hcall rfl

/-- **Every step keeps the invariant.** -/
theorem SentInv.move (h : SentInv crc u s sent) (hmove : Move crc u s event s' sends) :
    SentInv crc u s' (sent ++ sends.map (·.2)) := by
  have hmove' := hmove
  cases hmove with
  | send hpc => exact h.send hpc
  | _ =>
    rw [List.map_nil, List.append_nil]
    exact h.quiet hmove'

end

section
variable {ι : Type} [DecidableEq ι] {crc : Bytes → UInt32} {opts : ServerOptions}
  {up : ι → Upload} {i : ι} {fs₀ : FileSystem} {net net' : Net ι} {sent : List Bytes}
  {ok : Net ι → Action ι → Prop}

theorem SentInv.of_reaches (hrun : Reaches (sentStep crc opts up i) anyStep
    (Net.initial up crc fs₀, []) (net, sent)) : SentInv crc (up i) (net.client i) sent := by
  refine hrun.invariant (I := fun s => SentInv crc (up i) (s.1.client i) s.2) .initial ?_
  rintro ⟨net, sent⟩ action ⟨net', sent'⟩ h - hstep
  rcases sentStep_cases hstep with ⟨hclient, rfl⟩ | ⟨event, sends, hmove, rfl⟩
  · rw [← hclient] at h
    exact h
  · exact h.move hmove

/-- Every run can be recorded. -/
theorem exists_sent (hrun : Reaches (netStep crc opts up) ok net net') (i : ι)
    (sent : List Bytes) :
    ∃ sent', Reaches (sentStep crc opts up i) anyStep (net, sent) (net', sent') := by
  induction hrun with
  | refl => exact ⟨sent, .refl⟩
  | @tail t t' action _ _ hstep ih =>
    obtain ⟨sent', hsent'⟩ := ih
    refine ⟨sent' ++ sentBy crc up i t action, .tail hsent' trivial (a := action) ?_⟩
    rw [sentStep, hstep]
    rfl

end

/-! ## An idle server -/

section
variable {crc : Bytes → UInt32} {opts : ServerOptions} {s s' : ServerState} {input : ServerInput}

/-- A SYN never leaves an idle server idle: it opens a session or ends the process. -/
theorem not_idle_of_SYN (hidle : s.status = .running none)
    (hSYN : (receive input.bytes).isSYN crc = true) (h : serverStep crc opts s input = some s') :
    s'.status ≠ .running none := by
  obtain ⟨fs, status⟩ := s
  obtain rfl : status = .running none := hidle
  obtain rfl := Option.some.inj (serverStep_running.symm.trans h)
  rw [isSYN_iff] at hSYN
  have hturn := turn_cases crc opts fs none input
  generalize iteration crc opts fs none input = out at hturn ⊢
  cases hturn with
  | nullDereference => nofun
  | opened => nofun
  | notOpened => nofun
  | abortIgnored _ hABR =>
    rw [hSYN] at hABR
    exact absurd hABR (by decide)
  | refused _ hno => exact absurd hSYN hno

/-- Anything else that is intact leaves an idle server as it is. -/
theorem serverStep_of_not_SYN (hidle : s.status = .running none)
    (hcheck : (receive input.bytes).checkIntegrity crc = true)
    (hSYN : (receive input.bytes).isSYN crc = false) : serverStep crc opts s input = some s := by
  obtain ⟨fs, status⟩ := s
  obtain rfl : status = .running none := hidle
  have hflags : (receive input.bytes).flags ≠ Flags.SYN := by
    intro h
    rw [isSYN_iff.mpr h] at hSYN
    cases hSYN
  rw [serverStep_running]
  have hturn := turn_cases crc opts fs none input
  generalize iteration crc opts fs none input = out at hturn ⊢
  cases hturn with
  | nullDereference hdamaged => exact absurd hcheck (by rw [hdamaged]; decide)
  | opened _ h => exact absurd h hflags
  | notOpened _ h => exact absurd h hflags
  | abortIgnored => rfl
  | refused => rfl

end

section
variable {ι : Type} [DecidableEq ι]

/-- **Late copies of a client's datagrams.** Whatever has happened before, a server without a
session that is handed any of them, in any order and number, has at every moment no session and
the files it had before, exactly if no copy of the SYN is among them. -/
theorem stale_datagrams_harmless_iff (crc : Bytes → UInt32) (opts : ServerOptions)
    (up : ι → Upload) (i : ι) (fs₀ : FileSystem) (net : Net ι) (sent : List Bytes)
    (hrun : Reaches (sentStep crc opts up i) anyStep (Net.initial up crc fs₀, []) (net, sent))
    (hidle : net.server.status = .running none) (late : List ServerInput)
    (hlate : ∀ input ∈ late, input.sender = (up i).address ∧ input.bytes ∈ sent) :
    (∀ late', late' <+: late → late'.foldlM (serverStep crc opts) net.server = some net.server) ↔
      ∀ input ∈ late, (receive input.bytes).isSYN crc = false := by
  have hsent := SentInv.of_reaches hrun
  have hcheck : ∀ input ∈ late, (receive input.bytes).checkIntegrity crc = true := by
    intro input hinput
    obtain ⟨call, d, hd, hwire⟩ := hsent.ofCall input.bytes (hlate input hinput).2
    rw [hwire, hd.wellFormed.receive_wire]
    exact hd.wellFormed.checkIntegrity
  rw [forall_prefix_foldlM_iff]
  refine ⟨fun h input hinput => ?_, fun h input hinput => ?_⟩
  · -- the server would not be idle after the copy of the SYN
    rw [← Bool.not_eq_true]
    intro hSYN
    exact not_idle_of_SYN hidle hSYN (h input hinput) hidle
  · exact serverStep_of_not_SYN hidle (hcheck input hinput) (h input hinput)

end

/-- A recorded upload of one byte, with its SYN and its FIN. -/
theorem exists_recorded_upload (crc : Bytes → UInt32) :
    ∃ (net : Net Unit) (sent : List Bytes) (sqn : Bool),
      Reaches (sentStep crc exampleOpts (fun _ => exampleUpload [1]) ()) anyStep
        (Net.initial (fun _ => exampleUpload [1]) crc exampleFs, []) (net, sent) ∧
      (net.client ()).pc = .finished ∧ net.server.status = .running none ∧
      (ofString crc Flags.SYN (exampleUpload [1]).name false).wire ∈ sent ∧
      (ofFlags crc Flags.FIN sqn).wire ∈ sent := by
  obtain ⟨net, hrun, hpc, hidle⟩ := exists_finishing_run crc exampleOpts (exampleUpload [1])
    replace_exampleFs
  obtain ⟨sent, hsent⟩ := exists_sent hrun () []
  have hinv := SentInv.of_reaches hsent
  obtain ⟨sqn, hFIN⟩ := hinv.fin hpc
  refine ⟨net, sent, sqn, hsent, hpc, hidle, hinv.syn ?_ ?_, hFIN⟩ <;> rw [hpc]
  · nofun
  · nofun

/-- A late copy of the FIN finds the server idle and leaves it so. -/
theorem stale_FIN_harmless :
    ∃ (net : Net Unit) (sqn : Bool), (net.client ()).pc = .finished ∧
      [(⟨exampleAddr, (ofFlags CRC.crc32 Flags.FIN sqn).wire, exampleEnv⟩ : ServerInput)].foldlM
        (serverStep CRC.crc32 exampleOpts) net.server = some net.server := by
  obtain ⟨net, sent, sqn, hrun, hpc, hidle, -, hFIN⟩ := exists_recorded_upload CRC.crc32
  have hwf : (ofFlags CRC.crc32 Flags.FIN sqn).WellFormed CRC.crc32 := wellFormed_init ..
  let copy : ServerInput := ⟨exampleAddr, (ofFlags CRC.crc32 Flags.FIN sqn).wire, exampleEnv⟩
  have hlate : ∀ input ∈ [copy], input.sender = exampleAddr ∧ input.bytes ∈ sent := by
    intro input hinput
    rw [List.mem_singleton.mp hinput]
    exact ⟨rfl, hFIN⟩
  have hharmless := stale_datagrams_harmless_iff CRC.crc32 exampleOpts
    (fun _ => exampleUpload [1]) () exampleFs net sent hrun hidle [copy] hlate
  refine ⟨net, sqn, hpc, hharmless.mpr (fun input hinput => ?_) _ (List.prefix_refl _)⟩
  rw [List.mem_singleton.mp hinput, ← Bool.not_eq_true, isSYN_iff, hwf.receive_wire]
  show (if sqn then Flags.FIN ||| Flags.SQN else Flags.FIN) ≠ Flags.SYN
  cases sqn <;> decide

/-- A late copy of the SYN of a finished upload takes the server out of its idle state. -/
theorem stale_SYN_reopens_session :
    ¬ ∀ (opts : ServerOptions) (u : Upload) (fs₀ : FileSystem) (net : Net Unit)
        (sent : List Bytes),
      Reaches (sentStep CRC.crc32 opts (fun _ => u) ()) anyStep
        (Net.initial (fun _ => u) CRC.crc32 fs₀, []) (net, sent) →
      (net.client ()).pc = .finished → net.server.status = .running none →
      ∀ late : List ServerInput,
        (∀ input ∈ late, input.sender = u.address ∧ input.bytes ∈ sent) →
        ∃ s, late.foldlM (serverStep CRC.crc32 opts) net.server = some s ∧
          s.status = .running none ∧
          ∀ l, fs₀.resolve (storagePath opts u.filename) = .ok l →
            s.fs.node l = net.server.fs.node l := by
  intro h
  obtain ⟨net, sent, sqn, hrun, hpc, hidle, hSYN, -⟩ := exists_recorded_upload CRC.crc32
  let d : BftDatagram := .ofString CRC.crc32 Flags.SYN (exampleUpload [1]).name false
  let input : ServerInput := ⟨exampleAddr, d.wire, exampleEnv⟩
  have hwf : d.WellFormed CRC.crc32 := wellFormed_init ..
  have hlate : ∀ x ∈ [input], x.sender = (exampleUpload [1]).address ∧ x.bytes ∈ sent := by
    intro x hx
    rw [List.mem_singleton.mp hx]
    exact ⟨rfl, hSYN⟩
  obtain ⟨s, hs, hsidle, -⟩ := h exampleOpts (exampleUpload [1]) exampleFs net sent hrun hpc hidle
    [input] hlate
  have hstep : serverStep CRC.crc32 exampleOpts net.server input = some s := by simpa using hs
  refine not_idle_of_SYN hidle ?_ hstep hsidle
  show (receive d.wire).isSYN _ = true
  rw [hwf.receive_wire, isSYN_iff]
  rfl

end Rechnernetze.Bft
