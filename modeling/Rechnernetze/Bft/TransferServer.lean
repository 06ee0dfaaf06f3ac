import Rechnernetze.Bft.Transfer

/-!
# The server's side of a transfer

`ServerAt` says how far the server is with one upload, whoever else it has served or refused
meanwhile, and what it has stored. `ServerAt.turn` is one turn of its loop for a datagram of
that upload; `ServerAt.frame` says that turns for other clients do not disturb it.
-/

namespace Rechnernetze.Bft

open Lib BftDatagram

/-- The session of the server belongs to the endpoint `a`. -/
def ServerState.HeldBy (s : ServerState) (a : SockaddrIn) : Prop :=
  ∃ c, s.status = .running (some c) ∧ c.address = a

/-- The FIN is not among the datagrams below `r`. -/
def Upload.Unfinished (u : Upload) (r : ℕ) : Prop :=
  ∀ k, r = k + 2 → maxPayloadSize * k < u.source.length

theorem Upload.unfinished_one (u : Upload) : u.Unfinished 1 := by
  intro k hk
  omega

/-- The open session `c` of the upload `u` has accepted the SYN and `k` chunks, and its file
at `l` consists of these. -/
structure SessionAt (opts : ServerOptions) (fs₀ : FileSystem) (u : Upload) (fs : FileSystem)
    (c : ClientData) (l : Location) (k : ℕ) : Prop where
  address : c.address = u.address
  sqn : c.currentSQN = Upload.sqnAt (k + 1)
  stream : c.fileWriter.fileStream = ⟨l, true, true⟩
  location : fs₀.resolve (storagePath opts u.filename) = .ok l
  node : fs.node l = some (.regular (u.source.take (maxPayloadSize * k)))
  unfinished : u.Unfinished (k + 1)

/-- The server has accepted the datagrams below `r` of the upload `u`; paths are resolved as
they were in `fs₀`. If `mayCrash` holds, the process may have died over one of them. -/
inductive ServerAt (mayCrash : Prop) (opts : ServerOptions) (fs₀ : FileSystem) (u : Upload)
    (s : ServerState) : ℕ → Prop
  | waiting (hfree : ¬ s.HeldBy u.address) : ServerAt mayCrash opts fs₀ u s 0
  | session {k : ℕ} {c : ClientData} {l : Location} (hstatus : s.status = .running (some c))
      (hsession : SessionAt opts fs₀ u s.fs c l k) : ServerAt mayCrash opts fs₀ u s (k + 1)
  /-- The FIN is accepted and the file is complete. -/
  | closed {k : ℕ} {l : Location} (hfree : ¬ s.HeldBy u.address)
      (hle : u.source.length ≤ maxPayloadSize * k)
      (hloc : fs₀.resolve (storagePath opts u.filename) = .ok l)
      (hnode : s.fs.node l = some (.regular u.source)) : ServerAt mayCrash opts fs₀ u s (k + 2)
  | crashed {r : ℕ} {cause : Stop} (hmay : mayCrash) (hstatus : s.status = .stopped cause)
      (hopen : u.Unfinished r) : ServerAt mayCrash opts fs₀ u s r

/-- From `s` to `s'` only the file at `p` and the session of `a` may have changed. -/
structure OnlyFor (fs₀ : FileSystem) (p : Path) (a : SockaddrIn) (s s' : ServerState) : Prop where
  dirsLE : FileSystem.DirsLE s'.fs s.fs
  node : ∀ l, fs₀.resolve p ≠ .ok l → s'.fs.node l = s.fs.node l
  status : s'.status = s.status ∨ ∀ b, b ≠ a → ¬ s.HeldBy b ∧ ¬ s'.HeldBy b

/-- After a turn for the upload `u` the server is again somewhere in it, its answers are under
way, and nobody else is concerned. -/
def TurnDone (mayCrash : Prop) (crc : Bytes → UInt32) (opts : ServerOptions) (fs₀ : FileSystem)
    (u : Upload) (p : ℕ) (s : ServerState) (fwd bwd : List Bytes) (out : Outcome) : Prop :=
  ∃ (r' : ℕ) (replies : List BftDatagram), out.sends = replies.map (fun d => (u.address, d)) ∧
    Link crc u p r' fwd (bwd ++ replies.map BftDatagram.wire) ∧
    ServerAt mayCrash opts fs₀ u out.state r' ∧
    OnlyFor fs₀ (storagePath opts u.filename) u.address s out.state

section
variable {mayCrash : Prop} {crc : Bytes → UInt32} {opts : ServerOptions} {fs₀ fs : FileSystem}
  {u v : Upload} {s s' : ServerState} {p r k : ℕ} {fwd bwd : List Bytes} {w : Bytes}
  {d : BftDatagram} {out : Outcome} {currentClient : Option ClientData} {c : ClientData}
  {env : Env} {path : Path} {a b : SockaddrIn}

theorem OnlyFor.refl : OnlyFor fs₀ path a s s := ⟨.refl _, fun _ _ => rfl, Or.inl rfl⟩

theorem not_heldBy_of_none (h : s.status = .running none) : ¬ s.HeldBy a := by
  rintro ⟨c, hc, -⟩
  rw [h] at hc
  cases hc

theorem not_heldBy_of_stopped {cause : Stop} (h : s.status = .stopped cause) : ¬ s.HeldBy a := by
  rintro ⟨c, hc, -⟩
  rw [h] at hc
  cases hc

theorem not_heldBy_of_ne (h : s.status = .running (some c)) (hb : b ≠ c.address) :
    ¬ s.HeldBy b := by
  rintro ⟨c', hc, rfl⟩
  rw [h] at hc
  cases hc
  exact hb rfl

/-- **Turns for another client** with another file do not matter. -/
theorem ServerAt.frame (h : ServerAt mayCrash opts fs₀ v s r)
    (hs : s.status = .running currentClient) (honly : OnlyFor fs₀ path a s s') (ha : v.address ≠ a)
    (hpath : ∀ l, fs₀.resolve (storagePath opts v.filename) = .ok l → fs₀.resolve path ≠ .ok l) :
    ServerAt mayCrash opts fs₀ v s' r := by
  have hfree : ¬ s.HeldBy v.address → ¬ s'.HeldBy v.address := by
    intro hs'
    rcases honly.status with heq | hboth
    · rintro ⟨c, hc, hca⟩
      exact hs' ⟨c, heq ▸ hc, hca⟩
    · exact (hboth _ ha).2
  cases h with
  | waiting hf => exact .waiting (hfree hf)
  | @session k c l hstatus hsession =>
    -- the other client holds no session, so the turn has changed neither ours nor its file
    refine .session ?_ { hsession with node := ?_ }
    · rcases honly.status with heq | hboth
      · rw [heq, hstatus]
      · exact absurd ⟨_, hstatus, hsession.address⟩ (hboth _ ha).1
    · rw [honly.node _ (hpath _ hsession.location), hsession.node]
  | closed hf hle hloc hnode =>
    refine .closed (hfree hf) hle hloc ?_
    rw [honly.node _ (hpath _ hloc), hnode]
  | crashed hmay hstatus hopen =>
    rw [hs] at hstatus
    cases hstatus

/-! ## One turn -/

/-- A refusal changes nothing. -/
theorem TurnDone.refusal (h : ServerAt mayCrash opts fs₀ u s r) (hlink : Link crc u p r fwd bwd)
    (hsends : out.sends = [(u.address, d)]) (hstate : out.state = s) (hd : Refusal crc d.wire) :
    TurnDone mayCrash crc opts fs₀ u p s fwd bwd out := by
  refine ⟨r, [d], hsends, hlink.reply_nack hd, ?_, ?_⟩
  · rw [hstate]
    exact h
  · rw [hstate]
    exact .refl

theorem refusal_ABR : Refusal crc (BftDatagram.ABR crc).wire := Or.inr (Or.inl rfl)

theorem refusal_AGN (sqn : Bool) : Refusal crc (ofFlags crc Flags.AGN sqn).wire :=
  Or.inr (Or.inr ⟨sqn, rfl⟩)

/-- The next datagram differs from a damaged one and from the datagram before it. -/
theorem Upload.datagram_new (r : ℕ) : ¬ (Damaged crc (u.datagram crc r).wire ∨
    Previous (fun k a => a = (u.datagram crc k).wire) r (u.datagram crc r).wire) := by
  have hr := Upload.wellFormed_datagram crc u r
  rintro (h | ⟨k, rfl, h⟩)
  · have hcheck := h.2
    rw [hr.receive_wire, hr.checkIntegrity] at hcheck
    cases hcheck
  · have hk := Upload.wellFormed_datagram crc u k
    have heq : u.datagram crc (k + 1) = u.datagram crc k := by
      rw [← hr.receive_wire, h, hk.receive_wire]
    refine Upload.sqnAt_succ_ne k ?_
    rw [← Upload.getSQN_datagram crc u, ← heq, Upload.getSQN_datagram]

/-- The turn for a damaged datagram. -/
theorem TurnDone.damaged (h : ServerAt mayCrash opts fs₀ u ⟨fs, .running currentClient⟩ r)
    (hlink : Link crc u p r fwd bwd) (hw : Damaged crc w) :
    TurnDone mayCrash crc opts fs₀ u p ⟨fs, .running currentClient⟩ fwd bwd
      (iteration crc opts fs currentClient ⟨u.address, w, env⟩) := by
  cases currentClient with
  | some c =>
    rw [iteration_corrupt hw.2]
    exact .refusal h hlink rfl rfl (refusal_AGN _)
  | none =>
    -- the server is gone, without an answer
    rw [iteration_corrupt_idle hw.2]
    refine ⟨r, [], rfl, by rwa [List.map_nil, List.append_nil], ?_, .refl _, fun _ _ => rfl,
      Or.inr fun b _ => ⟨not_heldBy_of_none rfl, not_heldBy_of_stopped rfl⟩⟩
    cases h with
    | waiting => exact .waiting (not_heldBy_of_stopped rfl)
    | session hstatus => cases hstatus
    | closed _ hle hloc hnode => exact .closed (not_heldBy_of_stopped rfl) hle hloc hnode
    | crashed _ hstatus => cases hstatus

/-- The turn for a regular datagram of a client that holds no session. -/
theorem TurnDone.not_held (h : ServerAt mayCrash opts fs₀ u ⟨fs, .running currentClient⟩ r)
    (hlink : Link crc u p r fwd bwd) (hk : w = (u.datagram crc (k + 1)).wire)
    (hother : ∀ c, currentClient = some c → u.address.sinAddr ≠ c.address.sinAddr) :
    TurnDone mayCrash crc opts fs₀ u p ⟨fs, .running currentClient⟩ fwd bwd
      (iteration crc opts fs currentClient ⟨u.address, w, env⟩) := by
  obtain ⟨hSYN, hABR⟩ := Upload.flags_datagram_succ crc u k
  rw [hk, iteration_wire (Upload.wellFormed_datagram ..), onIntact_regular hSYN hABR,
    onRegular_other hother]
  exact .refusal h hlink rfl rfl refusal_ABR

/-- The turn for a SYN while a session is open. -/
theorem TurnDone.busy (h : ServerAt mayCrash opts fs₀ u ⟨fs, .running (some c)⟩ r)
    (hlink : Link crc u p r fwd bwd) (hw : w = (u.datagram crc 0).wire) :
    TurnDone mayCrash crc opts fs₀ u p ⟨fs, .running (some c)⟩ fwd bwd
      (iteration crc opts fs (some c) ⟨u.address, w, env⟩) := by
  rw [hw, iteration_wire (Upload.wellFormed_datagram ..), onIntact_SYN rfl, onSYN_busy]
  exact .refusal h hlink rfl rfl refusal_ABR

/-- The turn for the SYN of an idle server. -/
theorem TurnDone.syn (hlink : Link crc u p 0 (w :: fwd) bwd) (hw : w = (u.datagram crc 0).wire)
    (hdirs : FileSystem.DirsLE fs fs₀) :
    TurnDone mayCrash crc opts fs₀ u p ⟨fs, .running none⟩ fwd bwd
      (iteration crc opts fs none ⟨u.address, w, env⟩) := by
  have hlink' := hlink.accept (b := ((u.datagram crc 0).createACK crc).wire)
    (by rw [hw]; exact Upload.datagram_new 0) rfl
  have hname : (u.datagram crc 0).getPayloadAsString = u.filename := getPayload_init ..
  rw [hw, iteration_wire (Upload.wellFormed_datagram ..), onIntact_SYN rfl, onSYN]
  rcases handleSYN_cases opts fs (u.datagram crc 0) u.address env
    with ⟨fs', l, h, hcreated⟩ | ⟨fs', e, h, -, hdirs', hothers⟩ <;> rw [h]
  · -- a new session with an empty file
    rw [hname] at hcreated
    have hloc : fs₀.resolve (storagePath opts u.filename) = .ok l :=
      FileSystem.resolve_mono hdirs hcreated.resolve_before
    refine ⟨1, [(u.datagram crc 0).createACK crc], rfl, hlink', ?_, hcreated.dirsLE, ?_, ?_⟩
    · exact .session rfl ⟨rfl, rfl, rfl, hloc, hcreated.node_eq, u.unfinished_one⟩
    · intro l' hl'
      refine hcreated.others l' ?_
      rintro rfl
      exact hl' hloc
    · exact Or.inr fun b hb => ⟨not_heldBy_of_none rfl, not_heldBy_of_ne rfl hb⟩
  · -- the server is gone, without an answer
    rw [hname] at hothers
    refine ⟨0, [], rfl, by rw [List.map_nil, List.append_nil]; exact hlink.tail_fwd,
      .waiting (not_heldBy_of_stopped rfl), hdirs', ?_,
      Or.inr fun b _ => ⟨not_heldBy_of_none rfl, not_heldBy_of_stopped rfl⟩⟩
    intro l hl
    exact hothers l fun hl' => hl (FileSystem.resolve_mono hdirs hl')

/-- The turn for the regular datagram the session has accepted last. -/
theorem TurnDone.duplicate {l : Location} (h : SessionAt opts fs₀ u fs c l (k + 1))
    (hlink : Link crc u p (k + 2) fwd bwd) (hw : w = (u.datagram crc (k + 1)).wire) :
    TurnDone mayCrash crc opts fs₀ u p ⟨fs, .running (some c)⟩ fwd bwd
      (iteration crc opts fs (some c) ⟨u.address, w, env⟩) := by
  obtain ⟨hSYN, hABR⟩ := Upload.flags_datagram_succ crc u k
  have hip : u.address.sinAddr = c.address.sinAddr := by rw [h.address]
  -- two datagrams in a row differ in their SQN
  have hsqn : (u.datagram crc (k + 1)).getSQN ≠ c.currentSQN := by
    rw [Upload.getSQN_datagram, h.sqn]
    exact Upload.sqnAt_succ_ne (k + 1)
  rw [hw, iteration_wire (Upload.wellFormed_datagram ..), onIntact_regular hSYN hABR,
    onRegular_duplicate hip hsqn]
  refine ⟨k + 2, [(u.datagram crc (k + 1)).createACK crc], by rw [h.address]; rfl,
    hlink.reply_previous ⟨k + 1, rfl, rfl⟩, .session rfl { h with }, .refl _, fun _ _ => rfl, ?_⟩
  refine Or.inr fun b hb => ⟨not_heldBy_of_ne rfl ?_, not_heldBy_of_ne rfl ?_⟩
  · rw [h.address]
    exact hb
  · show b ≠ c.address
    rw [h.address]
    exact hb

/-- A regular datagram in order is acknowledged and handed to `handle_valid_datagram`. -/
theorem iteration_datagram_accepted {l : Location} (h : SessionAt opts fs₀ u fs c l k)
    (crc : Bytes → UInt32) (env : Env) :
    iteration crc opts fs (some c) ⟨u.address, (u.datagram crc (k + 1)).wire, env⟩
      = ⟨[(u.address, (u.datagram crc (k + 1)).createACK crc)],
          .after (handleValidDatagram fs c.incrementSQN (u.datagram crc (k + 1)) env)⟩ := by
  obtain ⟨hSYN, hABR⟩ := Upload.flags_datagram_succ crc u k
  have hip : u.address.sinAddr = c.address.sinAddr := by rw [h.address]
  have hsqn : (u.datagram crc (k + 1)).getSQN = c.currentSQN := by
    rw [Upload.getSQN_datagram, h.sqn]
  rw [iteration_wire (Upload.wellFormed_datagram ..), onIntact_regular hSYN hABR,
    onRegular_accepted hip hsqn, h.address]

/-- The next chunk is appended to the file, unless the process dies over its log. -/
theorem SessionAt.handle_data {l : Location} (h : SessionAt opts fs₀ u fs c l k)
    (crc : Bytes → UInt32) {env : Env}
    (hlt : maxPayloadSize * k < u.source.length) (henv : env.writeLimit = none) :
    (c.fileWriter.LogDue env ∧ c.fileWriter.LogFails env ∧
      ∃ e, handleValidDatagram fs c.incrementSQN (u.datagram crc (k + 1)) env = (fs, .error e)) ∨
    ∃ c', handleValidDatagram fs c.incrementSQN (u.datagram crc (k + 1)) env
        = (fs.append l (u.chunk k).1, .ok (some c')) ∧
      SessionAt opts fs₀ u (fs.append l (u.chunk k).1) c' l (k + 1) := by
  have hd : u.datagram crc (k + 1) = .ofRange crc Flags.None (u.chunk k) (Upload.sqnAt (k + 1)) :=
    Upload.datagram_data hlt
  obtain ⟨hFIN, hNone, -⟩ := Upload.flags_data crc (u.chunk k) (Upload.sqnAt (k + 1))
  have hpayload : (u.datagram crc (k + 1)).getPayload = (u.chunk k).1 := by
    rw [hd]
    exact getPayload_init ..
  rw [← hd] at hFIN hNone
  rcases handleValidDatagram_cases fs c.incrementSQN (u.datagram crc (k + 1)) env
    with ⟨hfin, -⟩ | ⟨-, -, ⟨e, -, hwhy, hv⟩ | ⟨w', hv, -, hstream, -⟩⟩ | ⟨-, hdata, -⟩
  · exact absurd hfin hFIN
  · rcases hwhy with ⟨hdue, hfails⟩ | hclosed
    · exact Or.inl ⟨hdue, hfails, e, hv⟩
    · have hisOpen : c.fileWriter.fileStream.isOpen = false := hclosed
      rw [h.stream] at hisOpen
      cases hisOpen
  · -- the chunk goes to the end of the file, which holds those before it
    have hwrite : (c.incrementSQN.fileWriter.fileStream.write fs
        (u.datagram crc (k + 1)).getPayload env.writeLimit)
        = (fs.append l (u.chunk k).1, ⟨l, true, true⟩) := by
      show c.fileWriter.fileStream.write _ _ _ = _
      rw [h.stream, henv, hpayload]
      rfl
    rw [hwrite] at hv hstream
    refine Or.inr ⟨_, hv, h.address, ?_, hstream, h.location, ?_, ?_⟩
    · show (c.currentSQN ^^ true) = _
      rw [h.sqn, ← Upload.sqnAt_succ]
    · rw [FileSystem.node_append_self h.node, Upload.take_append_chunk]
    · intro k' hk'
      obtain rfl : k = k' := by omega
      exact hlt
  · exact absurd hNone hdata

/-- The FIN ends the session, or the process if it dies over its log. -/
theorem SessionAt.handle_fin {l : Location} (h : SessionAt opts fs₀ u fs c l k)
    (crc : Bytes → UInt32) (env : Env) (hle : u.source.length ≤ maxPayloadSize * k) :
    fs.node l = some (.regular u.source) ∧
      ((c.fileWriter.LogFails env ∧
        ∃ e, handleValidDatagram fs c.incrementSQN (u.datagram crc (k + 1)) env = (fs, .error e)) ∨
      handleValidDatagram fs c.incrementSQN (u.datagram crc (k + 1)) env = (fs, .ok none)) := by
  have hd : u.datagram crc (k + 1) = .ofFlags crc Flags.FIN (Upload.sqnAt (k + 1)) :=
    Upload.datagram_fin hle
  obtain ⟨hFIN, -⟩ := Upload.flags_fin crc (Upload.sqnAt (k + 1))
  rw [← hd] at hFIN
  refine ⟨by rw [h.node, List.take_of_length_le hle], ?_⟩
  rcases handleValidDatagram_cases fs c.incrementSQN (u.datagram crc (k + 1)) env
    with ⟨-, hv | ⟨hfails, hv⟩⟩ | ⟨hno, -⟩ | ⟨hno, -⟩
  · exact Or.inr hv
  · exact Or.inl ⟨hfails, _, hv⟩
  · exact absurd hFIN hno
  · exact absurd hFIN hno

theorem SessionAt.not_heldBy {l : Location} (h : SessionAt opts fs₀ u fs c l k)
    (hs : s.status = .running (some c)) (hb : b ≠ u.address) : ¬ s.HeldBy b :=
  not_heldBy_of_ne hs (by rwa [h.address])

/-- The turn for the next chunk. -/
theorem TurnDone.data {l : Location} (h : SessionAt opts fs₀ u fs c l k)
    (hlink : Link crc u p (k + 1) (w :: fwd) bwd) (hw : w = (u.datagram crc (k + 1)).wire)
    (hlt : maxPayloadSize * k < u.source.length) (henv : env.writeLimit = none)
    (hcrash : c.fileWriter.LogDue env ∧ c.fileWriter.LogFails env → mayCrash) :
    TurnDone mayCrash crc opts fs₀ u p ⟨fs, .running (some c)⟩ fwd bwd
      (iteration crc opts fs (some c) ⟨u.address, w, env⟩) := by
  have hlink' := hlink.accept (b := ((u.datagram crc (k + 1)).createACK crc).wire)
    (by rw [hw]; exact Upload.datagram_new (k + 1)) rfl
  rw [hw, iteration_datagram_accepted h]
  rcases h.handle_data crc hlt henv with ⟨hdue, hfails, e, hv⟩ | ⟨c', hv, h'⟩ <;> rw [hv]
  · -- the process dies after the acknowledgement
    have hopen : u.Unfinished (k + 2) := by
      intro k' hk'
      obtain rfl : k = k' := by omega
      exact hlt
    exact ⟨k + 2, [(u.datagram crc (k + 1)).createACK crc], rfl, hlink',
      .crashed (hcrash ⟨hdue, hfails⟩) rfl hopen, .refl _, fun _ _ => rfl,
      Or.inr fun b hb => ⟨h.not_heldBy rfl hb, not_heldBy_of_stopped rfl⟩⟩
  · refine ⟨k + 2, [(u.datagram crc (k + 1)).createACK crc], rfl, hlink', .session rfl h',
      FileSystem.sameDirs_append.dirsLE, ?_,
      Or.inr fun b hb => ⟨h.not_heldBy rfl hb, h'.not_heldBy rfl hb⟩⟩
    intro l' hl'
    refine FileSystem.node_append_of_ne ?_
    rintro rfl
    exact hl' h.location

/-- The turn for the FIN: the file is complete, whether or not the process survives its log. -/
theorem TurnDone.fin {l : Location} (h : SessionAt opts fs₀ u fs c l k)
    (hlink : Link crc u p (k + 1) (w :: fwd) bwd) (hw : w = (u.datagram crc (k + 1)).wire)
    (hle : u.source.length ≤ maxPayloadSize * k) :
    TurnDone mayCrash crc opts fs₀ u p ⟨fs, .running (some c)⟩ fwd bwd
      (iteration crc opts fs (some c) ⟨u.address, w, env⟩) := by
  have hlink' := hlink.accept (b := ((u.datagram crc (k + 1)).createACK crc).wire)
    (by rw [hw]; exact Upload.datagram_new (k + 1)) rfl
  obtain ⟨hnode, hturn⟩ := h.handle_fin crc env hle
  rw [hw, iteration_datagram_accepted h]
  rcases hturn with ⟨-, e, hv⟩ | hv <;> rw [hv]
  · exact ⟨k + 2, [(u.datagram crc (k + 1)).createACK crc], rfl, hlink',
      .closed (not_heldBy_of_stopped rfl) hle h.location hnode, .refl _, fun _ _ => rfl,
      Or.inr fun b hb => ⟨h.not_heldBy rfl hb, not_heldBy_of_stopped rfl⟩⟩
  · exact ⟨k + 2, [(u.datagram crc (k + 1)).createACK crc], rfl, hlink',
      .closed (not_heldBy_of_none rfl) hle h.location hnode, .refl _, fun _ _ => rfl,
      Or.inr fun b hb => ⟨h.not_heldBy rfl hb, not_heldBy_of_none rfl⟩⟩

/-- **One turn of the server**, whatever it receives from the client of `u`. -/
theorem ServerAt.turn (h : ServerAt mayCrash opts fs₀ u ⟨fs, .running currentClient⟩ r)
    (hlink : Link crc u p r (w :: fwd) bwd) (hdirs : FileSystem.DirsLE fs fs₀)
    (hip : ∀ c, currentClient = some c → c.address.sinAddr = u.address.sinAddr →
      c.address = u.address)
    (henv : env.writeLimit = none)
    (hcrash : ∀ c, currentClient = some c →
      c.fileWriter.LogDue env ∧ c.fileWriter.LogFails env → mayCrash) :
    TurnDone mayCrash crc opts fs₀ u p ⟨fs, .running currentClient⟩ fwd bwd
      (iteration crc opts fs currentClient ⟨u.address, w, env⟩) := by
  have hother : ¬ ServerState.HeldBy ⟨fs, .running currentClient⟩ u.address →
      ∀ c, currentClient = some c → u.address.sinAddr ≠ c.address.sinAddr := by
    rintro hfree c rfl heq
    exact hfree ⟨c, rfl, hip c rfl heq.symm⟩
  rcases hlink.head_fwd with hnoise | ⟨k, hk, hprev⟩ | hdata
  · exact .damaged h hlink.tail_fwd hnoise
  · -- the datagram before the expected one
    cases h with
    | waiting => cases hk
    | @session k' c l hstatus hsession =>
      obtain rfl : k = k' := by omega
      cases hstatus
      cases k with
      | zero => exact .busy (.session rfl hsession) hlink.tail_fwd hprev
      | succ k => exact .duplicate hsession hlink.tail_fwd hprev
    | @closed k' l hfree hle hloc hnode =>
      obtain rfl : k = k' + 1 := by omega
      exact .not_held (.closed hfree hle hloc hnode) hlink.tail_fwd hprev (hother hfree)
    | crashed _ hstatus => cases hstatus
  · -- the expected datagram
    cases h with
    | waiting hfree =>
      cases currentClient with
      | none => exact .syn hlink hdata hdirs
      | some c => exact .busy (.waiting hfree) hlink.tail_fwd hdata
    | @session k c l hstatus hsession =>
      cases hstatus
      by_cases hlt : maxPayloadSize * k < u.source.length
      · exact .data hsession hlink hdata hlt henv (hcrash c rfl)
      · exact .fin hsession hlink hdata (by omega)
    | @closed k l hfree hle hloc hnode =>
      exact .not_held (k := k + 1) (.closed hfree hle hloc hnode) hlink.tail_fwd hdata
        (hother hfree)
    | crashed _ hstatus => cases hstatus

end

end Rechnernetze.Bft
