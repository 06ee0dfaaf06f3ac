import Rechnernetze.Bft.AbortAgreement
import Rechnernetze.Bft.Interrupts

/-!
# Turns that are cut off

`CutOff` says what the server can have done of a turn when a signal ends it. What a client sends,
interrupted or not, concerns its own session and its own file only, whether the server completes
the turn (`own_turn`) or is cut off in it (`CutOff.frame`). If the turn is one of a transfer, the
server leaves a complete file where it has acknowledged the FIN (`ServerAt.cutOff`).
-/

namespace Rechnernetze.Bft

open Lib BftDatagram ClientState

/-- A datagram that the client of `u` sends, or what damage has made of it. -/
def Own (crc : Bytes → UInt32) (u : Upload) (w : Bytes) : Prop :=
  Damaged crc w ∨ w = (abrDatagram crc).wire ∨ ∃ k, w = (u.datagram crc k).wire

/-- The session has been opened by the SYN of `u`. -/
structure Belongs (opts : ServerOptions) (fs₀ : FileSystem) (u : Upload) (c : ClientData) :
    Prop where
  address : c.address = u.address
  path : c.fileWriter.filePath = storagePath opts u.filename
  location : fs₀.resolve (storagePath opts u.filename) = .ok c.fileWriter.fileStream.location

/-- The upload is stored under its name. -/
def Stored (opts : ServerOptions) (fs₀ : FileSystem) (u : Upload) (fs : FileSystem) : Prop :=
  ∃ l, fs₀.resolve (storagePath opts u.filename) = .ok l ∧ fs.node l = some (.regular u.source)

section
variable {crc : Bytes → UInt32} {opts : ServerOptions} {fs fs' fs₀ : FileSystem} {u v : Upload}
  {currentClient : Option ClientData} {c c' : ClientData} {input : ServerInput} {w : Bytes}
  {env : Env} {s s' : ServerState} {l : Location} {p r k : ℕ} {fwd bwd : List Bytes}
  {a : SockaddrIn} {moment : Moment} {cut : Cut}

/-! ## A turn for a datagram of an upload -/

theorem Own.filename (hw : Own crc u w) (hcheck : (receive w).checkIntegrity crc = true)
    (hSYN : (receive w).flags = Flags.SYN) : (receive w).getPayloadAsString = u.filename := by
  rcases hw with hw | rfl | hw
  · exact filename_of_SYN (Or.inl hw) hcheck hSYN
  · rw [(wellFormed_abrDatagram crc).receive_wire] at hSYN
    exact absurd hSYN (by decide : Flags.ABR ≠ Flags.SYN)
  · exact filename_of_SYN (Or.inr hw) hcheck hSYN

theorem Belongs.sameFile (h : Belongs opts fs₀ u c) (hc : SameFile c c') :
    Belongs opts fs₀ u c' :=
  ⟨hc.address.trans h.address, hc.path.trans h.path, by rw [hc.location]; exact h.location⟩

/-- The session has another file than the one at `l`. -/
theorem Belongs.elsewhere (h : Belongs opts fs₀ u c)
    (hl : fs₀.resolve (storagePath opts u.filename) ≠ .ok l) : Elsewhere fs₀ l c := by
  refine ⟨?_, by rwa [h.path]⟩
  rintro rfl
  exact hl h.location

theorem Own.not_names (hw : Own crc u w)
    (hl : fs₀.resolve (storagePath opts u.filename) ≠ .ok l) :
    ¬ Names crc opts fs₀ l ⟨a, w, env⟩ := by
  rintro ⟨hcheck, hSYN, hname⟩
  rw [show (⟨a, w, env⟩ : ServerInput).bytes = w from rfl, hw.filename hcheck hSYN] at hname
  exact hl hname

/-- A turn for a client leaves the session of another one as it is. -/
theorem Turn.status_of_stranger {out : Outcome}
    (hturn : Turn crc opts fs input (some c) out)
    (hother : input.sender.sinAddr ≠ c.address.sinAddr) :
    out.state.status = .running (some c) := by
  cases hturn with
  | again | busy | abortIgnored | refused => rfl
  | aborted _ _ hip | abortFailed _ _ hip => exact absurd hip hother
  | duplicate _ _ _ hip => exact absurd hip hother
  | fin haccept | finFailed haccept | written haccept | writeFailed haccept | ignored haccept =>
    exact absurd haccept.2.2.2.1 hother

theorem exists_other_location (fs : FileSystem) (path : Path) : ∃ l, fs.resolve path ≠ .ok l := by
  by_contra hall
  have h : ∀ l, fs.resolve path = .ok l := by simpa using hall
  cases (h []).symm.trans (h [[]])

/-- **A turn for a datagram of `u`** concerns its session and its file only. -/
theorem own_turn (env : Env) (hw : Own crc u w) (hdirs : FileSystem.DirsLE fs fs₀)
    (hbelongs : ∀ c, currentClient = some c → u.address.sinAddr = c.address.sinAddr →
      Belongs opts fs₀ u c) :
    OnlyFor fs₀ (storagePath opts u.filename) u.address ⟨fs, .running currentClient⟩
      (iteration crc opts fs currentClient ⟨u.address, w, env⟩).state := by
  have hframe : ∀ l, fs₀.resolve (storagePath opts u.filename) ≠ .ok l →
      FileSystem.DirsLE (iteration crc opts fs currentClient ⟨u.address, w, env⟩).state.fs fs ∧
        (iteration crc opts fs currentClient ⟨u.address, w, env⟩).state.fs.node l = fs.node l :=
    fun l hl => iteration_frame hdirs (hw.not_names hl)
      fun c hc hip => (hbelongs c hc hip).elsewhere hl
  obtain ⟨l, hl⟩ := exists_other_location fs₀ (storagePath opts u.filename)
  refine ⟨(hframe l hl).1, fun l' hl' => (hframe l' hl').2, ?_⟩
  have hturn := turn_cases crc opts fs currentClient ⟨u.address, w, env⟩
  by_cases hother : ∃ c, currentClient = some c ∧ u.address.sinAddr ≠ c.address.sinAddr
  · obtain ⟨c, rfl, hip⟩ := hother
    exact Or.inl (hturn.status_of_stranger hip)
  · -- the session before the turn, if there is one, is that of `u`, and so is the one after it
    have howner : ∀ c, currentClient = some c → c.address = u.address := by
      intro c hc
      by_cases hip : u.address.sinAddr = c.address.sinAddr
      · exact (hbelongs c hc hip).address
      · exact absurd ⟨c, hc, hip⟩ hother
    refine Or.inr fun b hb => ⟨?_, ?_⟩
    · rintro ⟨c, hc, rfl⟩
      exact hb (howner c (Status.running.inj hc))
    · rintro ⟨c', hc', rfl⟩
      exact hb (hturn.owner rfl howner c' hc')

/-- The answers of such a turn go to the client of `u`. -/
theorem own_replies (crc : Bytes → UInt32) (opts : ServerOptions) (fs : FileSystem) (w : Bytes)
    (env : Env)
    (howner : ∀ c, currentClient = some c → a.sinAddr = c.address.sinAddr → c.address = a) :
    ∃ replies : List BftDatagram,
      (iteration crc opts fs currentClient ⟨a, w, env⟩).sends = replies.map fun d => (a, d) := by
  have hturn := turn_cases crc opts fs currentClient ⟨a, w, env⟩
  generalize iteration crc opts fs currentClient ⟨a, w, env⟩ = out at hturn ⊢
  cases hturn with
  | nullDereference | notOpened => exact ⟨[], rfl⟩
  | again | opened | busy | abortIgnored | aborted | abortFailed | refused => exact ⟨[_], rfl⟩
  | duplicate _ _ _ hip => exact ⟨[_], by rw [howner _ rfl hip]; rfl⟩
  | fin haccept | finFailed haccept | written haccept | writeFailed haccept | ignored haccept =>
    exact ⟨[_], by rw [howner _ rfl haccept.2.2.2.1]; rfl⟩

/-! ## A turn that is cut off -/

/-- Only the location of `path` may have changed. -/
def OnlyAt (path : Path) (fs fs' : FileSystem) : Prop :=
  FileSystem.DirsLE fs' fs ∧ ∀ l, fs.resolve path ≠ .ok l → fs'.node l = fs.node l

/-- What has been done of a turn, by the place where it was cut off. -/
inductive CutOff (crc : Bytes → UInt32) (opts : ServerOptions) (fs : FileSystem)
    (currentClient : Option ClientData) (input : ServerInput) : Cut → Prop
  | received : CutOff crc opts fs currentClient input ⟨[], fs, currentClient⟩
  | opening {fs' : FileSystem} {c : Option ClientData} (hopens : Opens crc currentClient input)
      (hfs : OnlyAt (storagePath opts (receive input.bytes).getPayloadAsString) fs fs') :
      CutOff crc opts fs currentClient input ⟨[], fs', c⟩
  | opened {fs' : FileSystem} {c : Option ClientData} (hopens : Opens crc currentClient input)
      (hfs : OnlyAt (storagePath opts (receive input.bytes).getPayloadAsString) fs fs')
      (hstate : (iteration crc opts fs currentClient input).state.fs = fs') :
      CutOff crc opts fs currentClient input
        ⟨(iteration crc opts fs currentClient input).sends, fs', c⟩
  | answered (hopens : ¬ Opens crc currentClient input)
      (hsends : (iteration crc opts fs currentClient input).sends ≠ []) :
      CutOff crc opts fs currentClient input
        ⟨(iteration crc opts fs currentClient input).sends, fs, currentClient⟩
  | writing {c : ClientData} {data : Bytes} {limit : Option ℕ} (hc : currentClient = some c)
      (hwrites : Writes crc c input) :
      CutOff crc opts fs currentClient input
        ⟨(iteration crc opts fs currentClient input).sends,
          (c.fileWriter.fileStream.write fs data limit).1, some c⟩
  | aborted {c : ClientData} {fs' : FileSystem} (hc : currentClient = some c)
      (haborts : Aborts crc c input) (hfs : OnlyAt c.fileWriter.filePath fs fs') :
      CutOff crc opts fs currentClient input
        ⟨(iteration crc opts fs currentClient input).sends, fs', some c⟩

theorem OnlyAt.refl {path : Path} : OnlyAt path fs fs := ⟨.refl fs, fun _ _ => rfl⟩

theorem onlyAt_of_created {path : Path} (h : FileSystem.Created fs fs' path l) :
    OnlyAt path fs fs' := by
  refine ⟨h.dirsLE, fun l' hl' => h.others l' ?_⟩
  rintro rfl
  exact hl' h.resolve_before

theorem handleSYN_onlyAt {d : BftDatagram} {sender : SockaddrIn}
    {e : Except Stop (Option ClientData)}
    (h : handleSYN opts fs none d sender env = (fs', e)) :
    OnlyAt (storagePath opts d.getPayloadAsString) fs fs' := by
  rcases handleSYN_cases opts fs d sender env
    with ⟨fs'', l, h', hcreated⟩ | ⟨fs'', e', h', -, hdirs, hothers⟩ <;> cases h.symm.trans h'
  · exact onlyAt_of_created hcreated
  · exact ⟨hdirs, hothers⟩

/-- **Inversion of a turn that is cut off.** -/
theorem cutTurn_cases (h : cutTurn crc opts fs currentClient input moment = some cut) :
    CutOff crc opts fs currentClient input cut := by
  unfold cutTurn at h
  dsimp only at h
  -- a SYN handled to its end leaves the files as the whole turn does
  have hstate : ∀ {fs' : FileSystem} {c : ClientData}, Opens crc currentClient input →
      handleSYN opts fs currentClient (receive input.bytes) input.sender input.env
        = (fs', .ok (some c)) →
      OnlyAt (storagePath opts (receive input.bytes).getPayloadAsString) fs fs' ∧
        (iteration crc opts fs currentClient input).state.fs = fs' := by
    rintro fs' c ⟨rfl, hcheck, hSYN⟩ hsyn
    refine ⟨handleSYN_onlyAt hsyn, ?_⟩
    have hiteration : iteration crc opts fs none input
        = onSYN crc opts fs none (receive input.bytes) input.sender input.env := by
      rw [← onIntact_SYN (isSYN_iff.mp hSYN)]
      exact iteration_intact hcheck
    rw [hiteration, onSYN, hsyn]
  cases moment with
  | received =>
    cases h
    exact .received
  | removed =>
    dsimp only at h
    split at h
    · rename_i hopens
      obtain ⟨fs', hremove, rfl⟩ := Option.map_eq_some_iff.mp h
      refine .opening hopens.1 (remove_frame ?_)
      cases hr : fs.remove (storagePath opts (receive input.bytes).getPayloadAsString) with
      | ok fs'' =>
        rw [hr] at hremove
        cases hremove
        rfl
      | error e =>
        rw [hr] at hremove
        cases hremove
    · cases h
  | created =>
    dsimp only at h
    split at h
    · rename_i hopens
      split at h
      · rename_i hsyn
        cases h
        exact .opening hopens (hstate hopens hsyn).1
      · cases h
    · cases h
  | established =>
    dsimp only at h
    split at h
    · rename_i hopens
      split at h
      · rename_i hsyn
        cases h
        exact .opening hopens (hstate hopens hsyn).1
      · cases h
    · cases h
  | answered =>
    dsimp only at h
    split at h
    · rename_i hopens
      split at h
      · rename_i hsyn
        cases h
        exact .opened hopens (hstate hopens hsyn).1 (hstate hopens hsyn).2
      · cases h
    · rename_i hopens
      split at h
      · cases h
      · rename_i hsends
        cases h
        exact .answered hopens hsends
  | writing n =>
    dsimp only at h
    obtain ⟨c, hc, h⟩ := Option.bind_eq_some_iff.mp h
    split at h
    · rename_i hwrites
      rcases FileWriter.logIfDue_cases c.fileWriter input.env with ⟨-, -, hlog⟩ | ⟨m, t, hlog⟩
      · rw [hlog] at h
        cases h
      · rw [hlog] at h
        dsimp only at h
        split at h
        · cases h
          exact .writing hc hwrites
        · cases h
    · cases h
  | aborted =>
    dsimp only at h
    obtain ⟨c, hc, h⟩ := Option.bind_eq_some_iff.mp h
    split at h
    · rename_i haborts
      rcases FileWriter.abort_cases c.fileWriter fs
        with ⟨-, habort⟩ | ⟨-, fs', hremove, habort⟩ | ⟨e, -, habort⟩
      · rw [habort] at h
        cases h
        exact .aborted hc haborts .refl
      · rw [habort] at h
        cases h
        exact .aborted hc haborts (remove_frame hremove)
      · rw [habort] at h
        cases h
    · cases h

/-- **Frame of a turn that is cut off**: as of a whole turn. -/
theorem CutOff.frame (h : CutOff crc opts fs currentClient input cut)
    (hdirs : FileSystem.DirsLE fs fs₀) (hinput : ¬ Names crc opts fs₀ l input)
    (hserved : ∀ c, currentClient = some c → input.sender.sinAddr = c.address.sinAddr →
      Elsewhere fs₀ l c) :
    FileSystem.DirsLE cut.fs fs ∧ cut.fs.node l = fs.node l := by
  have hsyn : ∀ {fs'}, Opens crc currentClient input →
      OnlyAt (storagePath opts (receive input.bytes).getPayloadAsString) fs fs' →
      FileSystem.DirsLE fs' fs ∧ fs'.node l = fs.node l := by
    rintro fs' ⟨-, hcheck, hSYN⟩ ⟨hdirs', hothers⟩
    exact ⟨hdirs', hothers l fun hl =>
      hinput ⟨hcheck, isSYN_iff.mp hSYN, FileSystem.resolve_mono hdirs hl⟩⟩
  cases h with
  | received | answered => exact ⟨.refl _, rfl⟩
  | opening hopens hfs => exact hsyn hopens hfs
  | opened hopens hfs => exact hsyn hopens hfs
  | @writing c data limit hc hwrites =>
    obtain ⟨hdirs', hothers⟩ := c.fileWriter.fileStream.write_frame fs data limit
    exact ⟨hdirs'.dirsLE, hothers l (hserved c hc hwrites.1.2.2.2.1).location.symm⟩
  | @aborted c fs' hc haborts hfs =>
    exact ⟨hfs.1, hfs.2 l fun hl =>
      (hserved c hc haborts.2.2).path (FileSystem.resolve_mono hdirs hl)⟩

/-- Nothing has been sent, or what the whole turn sends. -/
theorem CutOff.sends (h : CutOff crc opts fs currentClient input cut) :
    cut.sends = [] ∨ cut.sends = (iteration crc opts fs currentClient input).sends := by
  cases h with
  | received | opening => exact Or.inl rfl
  | opened | answered | writing | aborted => exact Or.inr rfl

/-! ## A transfer that is cut off -/

/-- What the server leaves of a transfer in which it has accepted the FIN is complete. -/
theorem ServerAt.leftBy {mayCrash : Prop} (h : ServerAt mayCrash opts fs₀ u s r)
    (hr : ¬ u.Unfinished r) : Stored opts fs₀ u s.fs := by
  cases h with
  | waiting => exact absurd (fun k hk => absurd hk (by omega)) hr
  | session _ hsession => exact absurd hsession.unfinished hr
  | closed _ _ hloc hnode => exact ⟨_, hloc, hnode⟩
  | crashed _ _ hopen => exact absurd hopen hr

/-- A session that is open waits for the FIN. -/
theorem ServerAt.unfinished {mayCrash : Prop} (h : ServerAt mayCrash opts fs₀ u s r)
    (hheld : s.HeldBy u.address) : u.Unfinished r := by
  cases h with
  | waiting hfree => exact absurd hheld hfree
  | session _ hsession => exact hsession.unfinished
  | closed hfree => exact absurd hheld hfree
  | crashed _ _ hopen => exact hopen

/-- A SYN comes from a client that has no datagram after it acknowledged. -/
theorem unfinished_of_opens (hlink : Link crc u p r (w :: fwd) bwd)
    (hopens : Opens crc currentClient ⟨a, w, env⟩) : u.Unfinished r := by
  obtain ⟨-, hcheck, hSYN⟩ := hopens
  -- datagram 0 is the only SYN of the upload
  have hzero : ∀ k, w = (u.datagram crc k).wire → k = 0 := by
    rintro k rfl
    have hflags := isSYN_iff.mp hSYN
    rw [(Upload.wellFormed_datagram crc u k).receive_wire] at hflags
    cases k with
    | zero => rfl
    | succ k => exact absurd hflags (Upload.flags_datagram_succ crc u k).1
  rcases hlink.head_fwd with hnoise | ⟨k, rfl, hk⟩ | hk
  · exact absurd hcheck (by rw [hnoise.2]; decide)
  · obtain rfl := hzero k hk
    exact u.unfinished_one
  · obtain rfl := hzero r hk
    intro k hk
    omega

/-- The datagram whose payload is written is the next one of the session. -/
theorem SessionAt.of_writes (h : SessionAt opts fs₀ u fs c l k)
    (hlink : Link crc u p (k + 1) (w :: fwd) bwd) (hwrites : Writes crc c ⟨a, w, env⟩) :
    w = (u.datagram crc (k + 1)).wire ∧ maxPayloadSize * k < u.source.length := by
  obtain ⟨⟨hcheck, -, -, -, hsqn⟩, hFIN, -⟩ := hwrites
  rcases hlink.head_fwd with hnoise | ⟨k', hk, hprev⟩ | rfl
  · exact absurd hcheck (by rw [hnoise.2]; decide)
  · -- a datagram accepted before has the other SQN
    obtain rfl : k' = k := by omega
    rw [hprev, (Upload.wellFormed_datagram crc u k').receive_wire, Upload.getSQN_datagram,
      h.sqn] at hsqn
    exact absurd hsqn (Upload.sqnAt_succ_ne k')
  · refine ⟨rfl, ?_⟩
    -- behind the last chunk comes the FIN, which is not written
    by_contra hle
    rw [(Upload.wellFormed_datagram crc u (k + 1)).receive_wire,
      Upload.datagram_fin (by omega)] at hFIN
    exact hFIN (Upload.flags_fin crc _).1

/-- **A transfer whose turn is cut off**: as far as the client can learn of it, the server has
accepted a FIN only if the file it leaves is complete. -/
theorem ServerAt.cutOff (h : ServerAt True opts fs₀ u ⟨fs, .running currentClient⟩ r)
    (hlink : Link crc u p r (w :: fwd) bwd) (hdirs : FileSystem.DirsLE fs fs₀)
    (howner : ∀ c, currentClient = some c → u.address.sinAddr = c.address.sinAddr →
      c.address = u.address)
    (henv : env.writeLimit = none)
    (hcut : CutOff crc opts fs currentClient ⟨u.address, w, env⟩ cut) :
    ∃ (r' : ℕ) (replies : List BftDatagram), cut.sends = replies.map (fun d => (u.address, d)) ∧
      Link crc u p r' fwd (bwd ++ replies.map BftDatagram.wire) ∧
      (¬ u.Unfinished r' → Stored opts fs₀ u cut.fs) := by
  -- before its answer the turn has taken a datagram and sent nothing
  have hsilent : Link crc u p r fwd (bwd ++ ([] : List BftDatagram).map BftDatagram.wire) := by
    rw [List.map_nil, List.append_nil]
    exact hlink.tail_fwd
  have hnoABR : (receive w).checkIntegrity crc = true → (receive w).flags ≠ Flags.ABR := by
    intro hcheck
    obtain ⟨k, hk⟩ := receive_of_intact (hlink.forall_fwd w (List.mem_cons_self ..)) hcheck
    rw [hk]
    exact flags_datagram_ne_ABR k
  obtain ⟨r', replies, hsends, hlink', hserver', -⟩ := h.turn hlink hdirs
    (fun c hc hip => howner c hc hip.symm) henv fun _ _ _ => trivial
  cases hcut with
  | received => exact ⟨r, [], rfl, hsilent, h.leftBy⟩
  | opening hopens =>
    exact ⟨r, [], rfl, hsilent, fun hr => absurd (unfinished_of_opens hlink hopens) hr⟩
  | opened hopens hfs hstate =>
    exact ⟨r', replies, hsends, hlink', fun hr => hstate ▸ hserver'.leftBy hr⟩
  | answered hopens hne =>
    refine ⟨r', replies, hsends, hlink', fun hr => ?_⟩
    -- what follows an answer changes a file only by writing, and then the FIN is still to come
    have hfs : (iteration crc opts fs currentClient ⟨u.address, w, env⟩).state.fs = fs ∨
        u.Unfinished r' := by
      have hturn := turn_cases crc opts fs currentClient ⟨u.address, w, env⟩
      generalize iteration crc opts fs currentClient ⟨u.address, w, env⟩ = out
        at hturn hserver'
      cases hturn with
      | opened hcheck hSYN => exact absurd ⟨rfl, hcheck, isSYN_iff.mpr hSYN⟩ hopens
      | notOpened hcheck hSYN => exact absurd ⟨rfl, hcheck, isSYN_iff.mpr hSYN⟩ hopens
      | aborted hcheck hABR => exact absurd hABR (hnoABR hcheck)
      | @written c w haccept =>
        have hc := howner c rfl haccept.2.2.2.1
        exact Or.inr (hserver'.unfinished ⟨_, rfl, hc⟩)
      | _ => exact Or.inl rfl
    exact hfs.resolve_right hr ▸ hserver'.leftBy hr
  | @writing c data limit hc hwrites =>
    subst hc
    have hheld : ServerState.HeldBy ⟨fs, .running (some c)⟩ u.address :=
      ⟨c, rfl, howner c rfl hwrites.1.2.2.2.1⟩
    cases h with
    | waiting hfree => exact absurd hheld hfree
    | @session k _ l hstatus hsession =>
      cases hstatus
      -- the chunk is acknowledged, and the FIN is still to come
      obtain ⟨rfl, hlt⟩ := hsession.of_writes hlink hwrites
      have hack := hlink.accept (b := ((u.datagram crc (k + 1)).createACK crc).wire)
        (Upload.datagram_new (k + 1)) rfl
      refine ⟨k + 2, [(u.datagram crc (k + 1)).createACK crc], ?_, hack, fun hr => ?_⟩
      · show (iteration crc opts fs (some c) _).sends = _
        rw [iteration_datagram_accepted hsession]
        rfl
      · refine absurd (fun k' hk' => ?_) hr
        obtain rfl : k = k' := by omega
        exact hlt
    | closed hfree => exact absurd hheld hfree
    | crashed _ hstatus => cases hstatus
  | @aborted c fs' hc haborts =>
    exact absurd haborts.2.1 (hnoABR haborts.1)

end

end Rechnernetze.Bft
