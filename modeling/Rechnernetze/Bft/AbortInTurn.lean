import Rechnernetze.Bft.Turns

/-!
# The moment of the acknowledgement

The server acknowledges an ABR before it gives up the session, so the handler of the client may
end while the server still holds it (`acknowledged_before_aborted`). It is then in the turn for
this ABR, which ends without a session, and nothing that arrives later opens one or changes a file
(`abort_agreement`).
-/

namespace Rechnernetze.Bft

open Lib BftDatagram ClientState

section
variable {crc : Bytes → UInt32} {opts : ServerOptions} {u : Upload} {s s' : TurnNet}
  {net net' : Net Unit} {t : OpenTurn} {action : Action Unit} {moment : Moment} {cut : Cut}
  {fs fs₀ : FileSystem} {w : Bytes} {env : Env}

/-! ## Turns for what is left -/

/-- At no moment of a turn for what is left of a channel a server without a session has one. -/
theorem AbortOnly.cutTurn_idle (hw : AbortOnly crc w)
    (hcut : cutTurn crc opts fs none ⟨u.address, w, env⟩ moment = some cut) :
    cut.fs = fs ∧ cut.currentClient = none := by
  -- what is left is damaged or the ABR, and neither opens a session
  have hopens : ¬ Opens crc none ⟨u.address, w, env⟩ := by
    rintro ⟨-, hcheck, hSYN⟩
    rcases hw with hw | rfl
    · rw [hw.2] at hcheck
      cases hcheck
    · rw [isSYN_iff, (wellFormed_abrDatagram crc).receive_wire] at hSYN
      exact absurd hSYN (by decide : Flags.ABR ≠ Flags.SYN)
  cases moment with
  | received =>
    cases hcut
    exact ⟨rfl, rfl⟩
  | removed =>
    rw [cutTurn, if_neg fun h => hopens h.1] at hcut
    cases hcut
  | created | established =>
    rw [cutTurn, if_neg hopens] at hcut
    cases hcut
  | answered =>
    rw [cutTurn, if_neg hopens] at hcut
    split at hcut
    · cases hcut
    · cases hcut
      exact ⟨rfl, rfl⟩
  | writing | aborted => cases hcut

/-- A damaged datagram gets no answer from a server without a session. -/
theorem cutTurn_answered_of_damaged (hw : Damaged crc w) :
    cutTurn crc opts fs none ⟨u.address, w, env⟩ .answered = none := by
  have hopens : ¬ Opens crc none ⟨u.address, w, env⟩ := by
    rintro ⟨-, hcheck, -⟩
    rw [hw.2] at hcheck
    cases hcheck
  rw [cutTurn, if_neg hopens, iteration_corrupt_idle hw.2]
  rfl

/-! ## Every state of a run -/

/-- A step of the client or a fault leaves the server alone. -/
theorem server_of_netStep (hserver : action.ofServer = false)
    (hstep : netStep crc opts (fun _ => u) net action = some net') : net'.server = net.server := by
  cases netStep_cases hstep with
  | client => rfl
  | clientReceive => rfl
  | serverReceive => cases hserver
  | fault => exact Net.server_setChannel

/-- Nor does it acknowledge an ABR. -/
theorem Acknowledged.of_netStep (hserver : action.ofServer = false)
    (hinHand : InHand crc u (net.client ()).pc)
    (hstep : netStep crc opts (fun _ => u) net action = some net')
    (h : Acknowledged crc net') : Acknowledged crc net := by
  cases netStep_cases hstep with
  | client hevent hmove => exact h.of_client hinHand hevent hmove
  | clientReceive hchannel hmove => exact h.of_clientReceive hinHand hchannel hmove
  | serverReceive => cases hserver
  | fault hf => exact h.of_fault hf

/-- The invariant of one client and its server in the middle of a turn. -/
structure TurnInv (crc : Bytes → UInt32) (opts : ServerOptions) (u : Upload) (s : TurnNet) :
    Prop where
  settled : AbortInv crc u (s.settled crc opts u)
  /-- The server stands where the turn has taken it. -/
  server : ∀ t, s.turn = some t → ∃ cut, t.cut crc opts u t.moment = some cut ∧
    s.net.server = ⟨cut.fs, .running cut.currentClient⟩
  /-- An acknowledgement comes from the turn that is open, or from one that is over. -/
  acknowledged : Acknowledged crc s.net → ∀ t, s.turn = some t → t.Answered →
    t.bytes = (abrDatagram crc).wire

theorem TurnInv.initial : TurnInv crc opts u (.initial crc u fs₀) where
  settled := .initial
  server := nofun
  acknowledged _ := nofun

/-- The answer of a turn acknowledges an ABR only if the turn is for one. -/
theorem TurnInv.answer (h : TurnInv crc opts u ⟨net, some t⟩) (ht : ¬ t.Answered)
    (hcut : t.cut crc opts u .answered = some cut)
    (hack : Acknowledged crc (net.afterServer (fun _ => u)
      ⟨cut.sends, ⟨cut.fs, .running cut.currentClient⟩⟩)) :
    t.bytes = (abrDatagram crc).wire := by
  have hsettled := h.settled
  rw [TurnNet.settled_not_answered ht] at hsettled
  have hchannel : Segmented (BeforeAbort crc u) (AbortOnly crc) (t.bytes :: net.toServer ()) :=
    hsettled.toServer
  by_cases hw : BeforeAbort crc u t.bytes
  · -- an acknowledgement was under way before, so the server had no session, and did not answer
    exfalso
    have hquiet : Acknowledged crc { net with
        server := ⟨t.fs, .running t.currentClient⟩
        toServer := fun _ => t.bytes :: net.toServer () } := by
      refine hack.imp id ?_
      rintro ⟨w, hmem, hends⟩
      rcases List.mem_append.mp hmem with h' | h'
      · exact ⟨w, h', hends⟩
      · obtain ⟨x, hx, rfl⟩ := List.mem_map.mp h'
        have hx' : x ∈ (t.outcome crc opts u).sends := by
          rw [← OpenTurn.sends_of_answered hcut]
          exact List.mem_of_mem_filter hx
        exact absurd hends (hw.not_endsHandler (turn_cases ..) x hx')
    obtain ⟨hvacant, honly⟩ := hsettled.after hquiet
    have hidle : t.currentClient = none := by
      cases hc : t.currentClient with
      | none => rfl
      | some c => exact absurd (congrArg Status.running hc) (hvacant c)
    rcases honly t.bytes (List.mem_cons_self ..) with hdamaged | heq
    · have hnone : t.cut crc opts u .answered = none := by
        rw [OpenTurn.cut, hidle]
        exact cutTurn_answered_of_damaged hdamaged
      rw [hnone] at hcut
      cases hcut
    · rw [heq] at hw
      exact not_beforeAbort_abr hw
  · -- the first ABR
    rcases hchannel.forall_of_head hw t.bytes (List.mem_cons_self ..) with hdamaged | heq
    · exact absurd (Or.inl hdamaged) hw
    · exact heq

/-- **Every step keeps the invariant.** -/
theorem TurnInv.step (h : TurnInv crc opts u s) (hmove : TurnMove crc opts u s s') :
    TurnInv crc opts u s' := by
  have hsettled : AbortInv crc u (s'.settled crc opts u) := by
    rcases turnStep_settled hmove with heq | ⟨action, hstep⟩
    · rw [heq]
      exact h.settled
    · exact h.settled.step hstep
  have hinHand : InHand crc u (s.net.client ()).pc := by
    have hinHand := h.settled.inHand
    rwa [TurnNet.client_settled] at hinHand
  obtain ⟨net, turn⟩ := s
  refine ⟨hsettled, ?_, ?_⟩
  · cases hmove with
    | other hserver hstep =>
      rw [server_of_netStep hserver hstep]
      exact h.server
    | receive _ hstatus =>
      rintro _ ⟨⟩
      refine ⟨_, rfl, ?_⟩
      rw [Net.server_setChannel, ← hstatus]
    | reach _ _ _ hcut =>
      rintro _ ⟨⟩
      exact ⟨_, hcut, rfl⟩
    | finish => nofun
  · cases hmove with
    -- the client and the channels bring no new acknowledgement
    | other hserver hstep =>
      exact fun hack => h.acknowledged (hack.of_netStep hserver hinHand hstep)
    | receive =>
      rintro - _ ⟨⟩ ht
      exact absurd ht OpenTurn.not_answered_received
    | @reach t moment cut hturn hlt hanswer hcut =>
      obtain rfl : turn = some t := hturn
      rintro hack _ ⟨⟩ ht'
      by_cases hmoment : moment = .answered
      · -- the turn answers now
        subst hmoment
        rw [if_pos rfl] at hack
        exact h.answer (not_le.mpr hlt) hcut hack
      · -- the answer has been sent before
        rw [if_neg hmoment, Net.afterServer_nil] at hack
        have ht : t.Answered := hanswer.resolve_left fun hle =>
          hmoment (Moment.eq_answered (Nat.le_antisymm hle ht'))
        exact h.acknowledged hack t rfl ht
    | finish => nofun

/-! ## After the end of the handler's loop -/

/-- The server since the end of the handler's loop: without a session and with the files `fs`, or
still in the turn that was open then. -/
inductive AfterAbort (crc : Bytes → UInt32) (fs : FileSystem) (t₀ : Option OpenTurn) (s : TurnNet) :
    Prop
  | gone (hvacant : s.net.server.Vacant) (hfs : s.net.server.fs = fs)
      (hturn : ∀ t, s.turn = some t →
        t.currentClient = none ∧ t.fs = fs ∧ AbortOnly crc t.bytes)
  | last {t : OpenTurn} {moment : Moment} (ht₀ : t₀ = some t)
      (hturn : s.turn = some { t with moment := moment })
      (hanswered : OpenTurn.Answered { t with moment := moment })

/-- Where the server stands when the loop ends. -/
theorem TurnInv.afterAbort (h : TurnInv crc opts u s)
    (hpc : (s.net.client ()).pc = .exited .abortAcknowledged) :
    AfterAbort crc (s.settled crc opts u).server.fs s.turn s := by
  have hpc' : ((s.settled crc opts u).client ()).pc = .exited .abortAcknowledged := by
    rwa [TurnNet.client_settled]
  obtain ⟨hvacant, honly⟩ := h.settled.after (Or.inl hpc')
  obtain ⟨net, turn⟩ := s
  cases turn with
  | none => exact .gone hvacant rfl nofun
  | some t =>
    by_cases ht : t.Answered
    · -- the acknowledgement may be the answer of this turn
      exact .last (t := t) rfl rfl ht
    · -- the acknowledgement answered a turn before, so this one began without a session
      rw [TurnNet.settled_not_answered ht] at hvacant honly ⊢
      have hbytes : AbortOnly crc t.bytes := honly _ (List.mem_cons_self ..)
      have hidle : t.currentClient = none := by
        cases hc : t.currentClient with
        | none => rfl
        | some c => exact absurd (congrArg Status.running hc) (hvacant c)
      obtain ⟨cut, hcut, hserver⟩ := h.server t rfl
      rw [OpenTurn.cut, hidle] at hcut
      obtain ⟨hfs, hc⟩ := hbytes.cutTurn_idle hcut
      have hserver' : net.server = ⟨t.fs, .running none⟩ := by rw [hserver, hfs, hc]
      refine .gone ?_ ?_ ?_
      · show net.server.Vacant
        rw [hserver']
        exact vacant_idle
      · show net.server.fs = t.fs
        rw [hserver']
      · rintro _ ⟨⟩
        exact ⟨hidle, rfl, hbytes⟩

/-- **Every step after the end of the loop.** -/
theorem AfterAbort.step {t₀ : Option OpenTurn} (h : AfterAbort crc fs t₀ s)
    (hinv : TurnInv crc opts u s) (hpc : (s.net.client ()).pc = .exited .abortAcknowledged)
    (hfs : (s.settled crc opts u).server.fs = fs) (hmove : TurnMove crc opts u s s') :
    AfterAbort crc fs t₀ s' := by
  have hpc' : ((s.settled crc opts u).client ()).pc = .exited .abortAcknowledged := by
    rwa [TurnNet.client_settled]
  obtain ⟨hsettled, honly⟩ := hinv.settled.after (Or.inl hpc')
  obtain ⟨net, turn⟩ := s
  cases h with
  | gone hvacant hnetfs hidle =>
    cases hmove with
    | @other action net' hserver hstep =>
      have heq := server_of_netStep hserver hstep
      exact .gone (by rw [heq]; exact hvacant) (by rw [heq]; exact hnetfs) hidle
    | @receive env currentClient w rest hturn hstatus hchannel =>
      -- what the server takes now is damaged or a copy of the ABR
      obtain rfl : turn = none := hturn
      refine .gone ?_ ?_ ?_
      · rw [Net.server_setChannel]
        exact hvacant
      · rw [Net.server_setChannel]
        exact hnetfs
      · rintro _ ⟨⟩
        refine ⟨?_, hnetfs, honly w ?_⟩
        · cases currentClient with
          | none => rfl
          | some c => exact absurd hstatus (hvacant c)
        · rw [TurnNet.settled_none, hchannel]
          exact List.mem_cons_self ..
    | @reach t moment cut hturn hlt hanswer hcut =>
      obtain ⟨hc, htfs, hbytes⟩ := hidle t hturn
      rw [OpenTurn.cut, hc, htfs] at hcut
      obtain ⟨hcutfs, hcutc⟩ := hbytes.cutTurn_idle hcut
      refine .gone ?_ hcutfs ?_
      · rw [Net.server_afterServer, hcutc]
        exact vacant_idle
      · rintro _ ⟨⟩
        exact ⟨hc, htfs, hbytes⟩
    | @finish t hturn hanswered =>
      obtain ⟨hc, htfs, hbytes⟩ := hidle t hturn
      have hturn' := turn_cases crc opts t.fs t.currentClient (t.input u)
      rw [hc] at hturn'
      obtain ⟨hend, hendfs⟩ := hbytes.turn_idle hturn'
      rw [← hc] at hend hendfs
      exact .gone hend (hendfs.trans htfs) nofun
  | @last t moment ht₀ hturn hanswered =>
    -- the turn that was open goes on to its end, where it gives the session up
    obtain rfl : turn = some { t with moment := moment } := hturn
    cases hmove with
    | other hserver hstep => exact .last ht₀ rfl hanswered
    | receive hturn => cases hturn
    | @reach t' moment' cut hturn hlt hanswer hcut =>
      cases hturn
      exact .last ht₀ rfl (Nat.le_of_lt (Nat.lt_of_le_of_lt hanswered hlt))
    | @finish t' hturn hanswered' =>
      cases hturn
      rw [TurnNet.settled_answered hanswered] at hsettled hfs
      exact .gone hsettled hfs nofun

end

/-- The server's answer to a datagram the client has sent before it is interrupted, or to what
has become of one. -/
def AnswersEarlier (crc : Bytes → UInt32) (opts : ServerOptions) (u : Upload) (w : Bytes) : Prop :=
  ∃ fs currentClient v env x, BeforeAbort crc u v ∧
    x ∈ (iteration crc opts fs currentClient ⟨u.address, v, env⟩).sends ∧ w = x.2.wire

/-- The server is in the turn `t` for an ABR of the client. It has acknowledged it, and comes to
the end of the turn without a session and with the files `fs`. -/
structure EndsSession (crc : Bytes → UInt32) (opts : ServerOptions) (u : Upload) (fs : FileSystem)
    (t : OpenTurn) : Prop where
  bytes : t.bytes = (abrDatagram crc).wire
  answered : t.Answered
  vacant : (t.outcome crc opts u).state.Vacant
  files : (t.outcome crc opts u).state.fs = fs

/-- **Abort agreement.** Once the loop of the handler has ended with an acknowledgement, the
server holds no session, or is in the turn for this ABR that gives it up. This turn apart no file
changes any more, and no session is opened, whatever is still under way. No answer to an earlier
datagram ends the loop. -/
theorem abort_agreement (crc : Bytes → UInt32) (opts : ServerOptions) (fs₀ : FileSystem)
    (u : Upload) (s : TurnNet)
    (hrun : Reaches (turnStep crc opts u) anyStep (.initial crc u fs₀) s) :
    ((s.net.client ()).pc = .exited .abortAcknowledged →
      ∃ fs, ∀ s', Reaches (turnStep crc opts u) anyStep s s' →
        (s'.net.server.Vacant ∧ s'.net.server.fs = fs) ∨
        ∃ t moment, s.turn = some t ∧ s'.turn = some { t with moment := moment } ∧
          EndsSession crc opts u fs { t with moment := moment }) ∧
    ∀ w, AnswersEarlier crc opts u w → ∀ sender errnoAgain client sends,
      clientStep crc u (s.net.client ()) (.datagram sender w errnoAgain) = some (client, sends) →
      client.pc ≠ .exited .abortAcknowledged := by
  have hinv : TurnInv crc opts u s :=
    hrun.invariant .initial fun _ _ _ h _ hstep => h.step (turnStep_cases hstep)
  have hinHand : InHand crc u (s.net.client ()).pc := by
    have hinHand := hinv.settled.inHand
    rwa [TurnNet.client_settled] at hinHand
  refine ⟨fun hpc => ?_, fun w hw sender errnoAgain client sends hstep hend => ?_⟩
  · refine ⟨(s.settled crc opts u).server.fs, fun s' hlater => ?_⟩
    have hs' : TurnInv crc opts u s' ∧
        (s'.net.client ()).pc = .exited .abortAcknowledged ∧
        (s'.settled crc opts u).server.fs = (s.settled crc opts u).server.fs ∧
        AfterAbort crc (s.settled crc opts u).server.fs s.turn s' := by
      refine hlater.invariant (I := fun s' => TurnInv crc opts u s' ∧
        (s'.net.client ()).pc = .exited .abortAcknowledged ∧
        (s'.settled crc opts u).server.fs = (s.settled crc opts u).server.fs ∧
        AfterAbort crc (s.settled crc opts u).server.fs s.turn s')
        ⟨hinv, hpc, rfl, hinv.afterAbort hpc⟩ ?_
      rintro r action r' ⟨hr, hrpc, hrfs, hafter⟩ - hstep
      have hmove := turnStep_cases hstep
      have hclient : (r.settled crc opts u).client = r.net.client := TurnNet.client_settled
      have hclient' : (r'.settled crc opts u).client = r'.net.client := TurnNet.client_settled
      have hend : (r'.net.client ()).pc = .exited .abortAcknowledged ∧
          (r'.settled crc opts u).server.fs = (r.settled crc opts u).server.fs := by
        rw [← hclient] at hrpc
        rw [← hclient']
        -- with the turn at its end, nothing moves the client or a file any more
        rcases turnStep_settled hmove with heq | ⟨action', hstep'⟩
        · rw [heq]
          exact ⟨hrpc, rfl⟩
        · exact hr.settled.step_after hrpc hstep'
      exact ⟨hr.step hmove, hend.1, hend.2.trans hrfs, hafter.step hr hrpc hrfs hmove⟩
    obtain ⟨hinv', hpc', hfs', hafter⟩ := hs'
    cases hafter with
    | gone hvacant hfs => exact Or.inl ⟨hvacant, hfs⟩
    | @last t moment ht hturn hanswered =>
      right
      obtain ⟨net', turn'⟩ := s'
      obtain rfl : turn' = some { t with moment := moment } := hturn
      have hvacant := (hinv'.settled.after (Or.inl (by rwa [TurnNet.client_settled]))).1
      rw [TurnNet.settled_answered hanswered] at hvacant hfs'
      exact ⟨t, moment, ht, rfl, hinv'.acknowledged (Or.inl hpc') _ rfl hanswered, hanswered,
        hvacant, hfs'⟩
  · obtain ⟨fs, currentClient, v, env, x, hv, hx, rfl⟩ := hw
    obtain ⟨sender', w', errnoAgain', ⟨⟩, hends⟩ :=
      (clientStep_cases hstep).endsHandler hinHand hend
    exact hv.not_endsHandler (turn_cases ..) x hx hends

/-- Whatever the checksum function: a client is interrupted after its SYN, and its ABR is
acknowledged. The handler ends with the acknowledgement while the server has not come to the
line behind it, and holds the session. -/
theorem exists_run_acknowledged (crc : Bytes → UInt32) :
    ∃ s s' : TurnNet, Reaches (turnStep crc exampleOpts (exampleUpload [1])) anyStep
        (.initial crc (exampleUpload [1]) exampleFs) s ∧
      (s.net.client ()).pc = .exited .abortAcknowledged ∧
      s.net.server.status = .running (some exampleSession) ∧
      turnStep crc exampleOpts (exampleUpload [1]) s .finish = some s' ∧ s'.turn = none := by
  let u := exampleUpload [1]
  let d : BftDatagram := .ofString crc Flags.SYN u.name false
  let abr := abrDatagram crc
  let idle : ServerState := ⟨exampleFs, .running none⟩
  let busy : ServerState := ⟨exampleStored [], .running (some exampleSession)⟩
  let s₀ : ClientState := .initial crc u
  let s₁ : ClientState := { s₀ with pc := .receive .syn d 0 }
  let s₂ : ClientState := { s₀ with pc := .send .abr abr 0 }
  let s₃ : ClientState := { s₀ with pc := .receive .abr abr 0 }
  let s₄ : ClientState := { s₀ with pc := .exited .abortAcknowledged }
  let t : OpenTurn := ⟨exampleStored [], some exampleSession, abr.wire, exampleEnv, .received⟩
  have habr : (abr.createACK crc).WellFormed crc := wellFormed_createACK _
  have hsend : netStep crc exampleOpts (fun _ => u) (.single idle s₀ [] [])
      (.client () (.sendto true)) = some (.single idle s₁ [d.wire] []) :=
    Net.netStep_single_send rfl rfl
  have hserve : netStep crc exampleOpts (fun _ => u) (.single idle s₁ [d.wire] [])
      (.serverReceive () exampleEnv)
      = some (.single busy s₁ [] [(d.createACK crc).wire]) :=
    Net.netStep_single_serverReceive (iteration_exampleSYN crc)
  -- the acknowledgement of the SYN is lost, and the client interrupted
  have hlose : netStep crc exampleOpts (fun _ => u)
      (.single busy s₁ [] [(d.createACK crc).wire]) (.fault () .toClient (.lose 0))
      = some (.single busy s₁ [] []) :=
    Net.netStep_single_lose
  have hsigint : netStep crc exampleOpts (fun _ => u) (.single busy s₁ [] [])
      (.client () .sigint) = some (.single busy s₂ [] []) :=
    Net.netStep_single_client rfl rfl
  have hsendABR : netStep crc exampleOpts (fun _ => u) (.single busy s₂ [] [])
      (.client () (.sendto true)) = some (.single busy s₃ [abr.wire] []) :=
    Net.netStep_single_send rfl rfl
  have hbefore : Reaches (turnStep crc exampleOpts u) anyStep
      (.initial crc u exampleFs) ⟨.single busy s₃ [abr.wire] [], none⟩ :=
    reaches_of_reaches (.tail (.tail (.tail (.tail (.tail .refl trivial hsend) trivial hserve)
      trivial hlose) trivial hsigint) trivial hsendABR)
  have hreceive : turnStep crc exampleOpts u ⟨.single busy s₃ [abr.wire] [], none⟩
      (.receive exampleEnv) = some ⟨.single busy s₃ [] [], some t⟩ := rfl
  -- the server acknowledges the ABR
  have hturn := iteration_exampleABR (c := exampleSession) crc (exampleStored []) _ rfl rfl
  have hcut : t.cut crc exampleOpts u .answered
      = some ⟨[(exampleAddr, abr.createACK crc)], exampleStored [], some exampleSession⟩ := by
    have hsends : (iteration crc exampleOpts (exampleStored []) (some exampleSession)
        (t.input u)).sends = [(exampleAddr, abr.createACK crc)] := congrArg Outcome.sends hturn
    have hopens : ¬ Opens crc (some exampleSession) (t.input u) := by
      rintro ⟨hidle, -⟩
      cases hidle
    rw [OpenTurn.cut, cutTurn, if_neg hopens, hsends]
    rfl
  have hanswer : turnStep crc exampleOpts u ⟨.single busy s₃ [] [], some t⟩ (.reach .answered)
      = some ⟨.single busy s₃ [] [(abr.createACK crc).wire],
        some { t with moment := .answered }⟩ := by
    rw [turnStep_answer OpenTurn.not_answered_received hcut, ← OpenTurn.sends_of_answered hcut]
    rfl
  -- and the handler of the client ends
  have hacknowledged : netStep crc exampleOpts (fun _ => u)
      (.single busy s₃ [] [(abr.createACK crc).wire]) (.clientReceive () false)
      = some (.single busy s₄ [] []) := by
    refine Net.netStep_single_clientReceive ?_
    have hflags : abr.flags &&& Flags.ACK = 0 := by
      show Flags.ABR &&& Flags.ACK = 0
      decide
    rw [clientStep_datagram_wire rfl habr]
    exact congrArg (fun s => some (s, []))
      (handlerResponse_acknowledged habr.checkIntegrity (isACKFor_createACK hflags))
  have hended : turnStep crc exampleOpts u
      ⟨.single busy s₃ [] [(abr.createACK crc).wire], some { t with moment := .answered }⟩
      (.other (.clientReceive () false))
      = some ⟨.single busy s₄ [] [], some { t with moment := .answered }⟩ := by
    rw [turnStep, hacknowledged]
    rfl
  have hfinish : turnStep crc exampleOpts u
      ⟨.single busy s₄ [] [], some { t with moment := .answered }⟩ .finish = _ :=
    turnStep_finish (Or.inl (Nat.le_refl _))
  exact ⟨_, _, .tail (.tail (.tail hbefore trivial hreceive) trivial hanswer) trivial hended, rfl,
    rfl, hfinish, rfl⟩

/-- At the end of that turn the session is gone. -/
theorem session_gone_at_end :
    ∃ s s' : TurnNet, (s.net.client ()).pc = .exited .abortAcknowledged ∧
      s.net.server.status = .running (some exampleSession) ∧
      turnStep CRC.crc32 exampleOpts (exampleUpload [1]) s .finish = some s' ∧
      s'.net.server.Vacant := by
  obtain ⟨s, s', hrun, hpc, hheld, hstep, hturn⟩ := exists_run_acknowledged CRC.crc32
  obtain ⟨fs, hlater⟩ :=
    (abort_agreement CRC.crc32 exampleOpts exampleFs (exampleUpload [1]) s hrun).1 hpc
  refine ⟨s, s', hpc, hheld, hstep, ?_⟩
  rcases hlater s' (.tail .refl trivial hstep) with ⟨hvacant, -⟩ | ⟨t, moment, -, hopen, -⟩
  · exact hvacant
  · rw [hturn] at hopen
    cases hopen

/-- The server still holds the session when the acknowledgement of the ABR ends the handler. -/
theorem acknowledged_before_aborted :
    ¬ ∀ (opts : ServerOptions) (fs₀ : FileSystem) (u : Upload) (s : TurnNet),
      Reaches (turnStep CRC.crc32 opts u) anyStep (.initial CRC.crc32 u fs₀) s →
      (s.net.client ()).pc = .exited .abortAcknowledged → s.net.server.Vacant := by
  intro h
  obtain ⟨s, s', hrun, hpc, hheld, -⟩ := exists_run_acknowledged CRC.crc32
  exact h exampleOpts exampleFs (exampleUpload [1]) s hrun hpc exampleSession hheld

end Rechnernetze.Bft
