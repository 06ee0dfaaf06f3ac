import Rechnernetze.Bft.Progress

/-!
# End-to-end correctness

`NetInv` holds in every state of every run of one server and any number of clients: each
client has its place in its transfer, the server has its place in each of them, and what is
under way between them fits. From it follows that a client that has finished has its file
stored (`finished_upload_is_stored`).
-/

namespace Rechnernetze.Bft

open Lib BftDatagram

/-- The clients sit on different hosts and upload files with different names. -/
structure Distinct {ι : Type} (up : ι → Upload) : Prop where
  address : ∀ i j, (up i).address.sinAddr = (up j).address.sinAddr → i = j
  filename : ∀ i j, (up i).filename = (up j).filename → i = j

/-- No interrupt, and no failure of the client's file or of a write. Faults of the channels,
timeouts and socket errors are allowed. -/
def Action.Undisturbed {ι : Type} : Action ι → Prop
  | .client _ event => event.Undisturbed
  | .serverReceive _ env => env.writeLimit = none
  | _ => True

/-- The invariant of the network. -/
structure NetInv {ι : Type} (mayCrash : Prop) (crc : Bytes → UInt32) (opts : ServerOptions)
    (fs₀ : FileSystem) (up : ι → Upload) (net : Net ι) : Prop where
  dirsLE : FileSystem.DirsLE net.server.fs fs₀
  owner : ∀ a, net.server.HeldBy a → ∃ i, (up i).address = a
  transfer : ∀ i, ∃ p r, Link crc (up i) p r (net.toServer i) (net.toClient i) ∧
    ClientAt crc (up i) (net.client i) p ∧ ServerAt mayCrash opts fs₀ (up i) net.server r

section
variable {ι : Type} {mayCrash : Prop} {crc : Bytes → UInt32} {opts : ServerOptions}
  {fs₀ : FileSystem} {up : ι → Upload} {net net' : Net ι} {action : Action ι} {u v : Upload}

/-- Different names are stored at different locations. -/
theorem storage_location_ne {l : Location} (hne : u.filename ≠ v.filename)
    (hv : fs₀.resolve (storagePath opts v.filename) = .ok l) :
    fs₀.resolve (storagePath opts u.filename) ≠ .ok l := by
  intro hu
  obtain ⟨m, -, hm⟩ := FileSystem.resolve_join opts.directory_noNul u.plainName_filename.1 hu
  obtain ⟨m', -, hm'⟩ := FileSystem.resolve_join opts.directory_noNul v.plainName_filename.1 hv
  have hlast : m ++ [u.filename] = m' ++ [v.filename] := hm.symm.trans hm'
  exact hne (List.cons.inj (List.append_inj' hlast rfl).2).1

theorem NetInv.initial : NetInv mayCrash crc opts fs₀ up (Net.initial up crc fs₀) where
  dirsLE := .refl fs₀
  owner := by
    intro a ha
    exact absurd ha (not_heldBy_of_none rfl)
  transfer i := ⟨0, 0, LinkInv.init, .repeating ⟨0, Or.inl rfl⟩ .syn rfl,
    .waiting (not_heldBy_of_none rfl)⟩

/-- Once the client has passed the call for its FIN, its file is complete. -/
theorem NetInv.stored (h : NetInv mayCrash crc opts fs₀ up net) {i : ι}
    (hpc : (net.client i).pc = .finished) :
    ∃ l, fs₀.resolve (storagePath opts (up i).filename) = .ok l ∧
      net.server.fs.node l = some (.regular (up i).source) := by
  obtain ⟨p, r, hlink, hclient, hserver⟩ := h.transfer i
  obtain ⟨k, rfl, hle⟩ : ∃ k, p = k + 2 ∧ (up i).source.length ≤ maxPayloadSize * k := by
    cases hclient with
    | repeating hpc' => obtain ⟨n, h' | h'⟩ := hpc' <;> rw [h'] at hpc <;> cases hpc
    | opening hpc' => rw [hpc'] at hpc; cases hpc
    | reading hpc' => rw [hpc'] at hpc; cases hpc
    | @finished k _ hle => exact ⟨k, rfl, hle⟩
    | exited hpc' => rw [hpc'] at hpc; cases hpc
  -- the server is past the FIN
  have hr : k + 2 ≤ r := hlink.le_and_le.1
  have hpast : ¬ (up i).Unfinished r := by
    intro hopen
    have hlt := hopen (r - 2) (by omega)
    have hmono : maxPayloadSize * k ≤ maxPayloadSize * (r - 2) := Nat.mul_le_mul_left _ (by omega)
    omega
  cases hserver with
  | waiting => omega
  | session _ hsession => exact absurd hsession.unfinished hpast
  | closed _ _ hloc hnode => exact ⟨_, hloc, hnode⟩
  | crashed _ _ hopen => exact absurd hopen hpast

variable [DecidableEq ι]

/-- The answers of a turn for client `i` go to client `i`. -/
theorem filter_replies {i j : ι} (hdistinct : Distinct up) (replies : List BftDatagram) :
    ((replies.map fun d => ((up i).address, d)).filter fun x => x.1 = (up j).address).map (·.2.wire)
      = if j = i then replies.map BftDatagram.wire else [] := by
  by_cases hji : j = i
  · subst hji
    rw [if_pos rfl, List.filter_eq_self.mpr]
    · rw [List.map_map]
      rfl
    · intro x hx
      obtain ⟨d, -, rfl⟩ := List.mem_map.mp hx
      exact decide_eq_true rfl
  · rw [if_neg hji, List.filter_eq_nil_iff.mpr, List.map_nil]
    intro x hx
    obtain ⟨d, -, rfl⟩ := List.mem_map.mp hx
    have hne : (up i).address ≠ (up j).address := by
      intro h
      exact hji (hdistinct.address j i (congrArg SockaddrIn.sinAddr h.symm))
    simpa using hne

/-- **Every step keeps the invariant.** -/
theorem NetInv.step (hdistinct : Distinct up) (h : NetInv mayCrash crc opts fs₀ up net)
    (hstep : netStep crc opts up net action = some net') (haction : action.Undisturbed)
    (hcrash : ∀ i env c, action = .serverReceive i env → net.server.status = .running (some c) →
      c.fileWriter.LogDue env ∧ c.fileWriter.LogFails env → mayCrash) :
    NetInv mayCrash crc opts fs₀ up net' := by
  cases netStep_cases hstep with
  | @client i event s sends hevent hmove =>
    refine ⟨h.dirsLE, h.owner, fun j => ?_⟩
    obtain ⟨p, r, hlink, hclient, hserver⟩ := h.transfer j
    by_cases hji : j = i
    · subst hji
      obtain ⟨hclient', hlink'⟩ := hclient.move (a := (up j).serverAddr) hlink hmove haction hevent
      refine ⟨p, r, ?_, ?_, hserver⟩
      · simpa using hlink'
      · simpa using hclient'
    · refine ⟨p, r, ?_, ?_, hserver⟩
      · simpa [Function.update_of_ne hji] using hlink
      · simpa [Function.update_of_ne hji] using hclient
  | @clientReceive i errnoAgain w rest s hchannel hmove =>
    refine ⟨?_, ?_, fun j => ?_⟩
    · exact h.dirsLE
    · exact h.owner
    obtain ⟨p, r, hlink, hclient, hserver⟩ := h.transfer j
    by_cases hji : j = i
    · subst hji
      rw [hchannel] at hlink
      obtain ⟨p', hclient', hlink'⟩ := hclient.receive hlink hmove
      refine ⟨p', r, ?_, ?_, hserver⟩
      · simpa using hlink'
      · simpa using hclient'
    · refine ⟨p, r, ?_, ?_, hserver⟩
      · simpa [Function.update_of_ne hji] using hlink
      · simpa [Function.update_of_ne hji] using hclient
  | @serverReceive i env currentClient w rest hstatus hchannel =>
    obtain ⟨⟨fs, status⟩, client, toServer, toClient⟩ := net
    obtain rfl : status = .running currentClient := hstatus
    obtain ⟨p, r, hlink, hclient, hserver⟩ := h.transfer i
    -- the session of this host is the client's
    have hip : ∀ c, currentClient = some c → c.address.sinAddr = (up i).address.sinAddr →
        c.address = (up i).address := by
      rintro c rfl heq
      obtain ⟨j, hj⟩ := h.owner c.address ⟨c, rfl, rfl⟩
      rw [← hj] at heq ⊢
      rw [hdistinct.address j i heq]
    have hturn := hserver.turn (hchannel ▸ hlink) h.dirsLE hip
      haction (fun c hc => hcrash i env c rfl (by rw [hc]))
    obtain ⟨r', replies, hsends, hlink', hserver', honly⟩ := hturn
    -- client `i` has moved on, and the frame lemma keeps every other client where it was
    refine ⟨honly.dirsLE.trans h.dirsLE, fun a ha => ?_, fun j => ?_⟩
    · rcases honly.status with heq | hboth
      · obtain ⟨c, hc, hca⟩ := ha
        exact h.owner a ⟨c, heq ▸ hc, hca⟩
      · by_cases hia : a = (up i).address
        · exact ⟨i, hia.symm⟩
        · exact absurd ha (hboth a hia).2
    · simp only [Net.client_afterServer, Net.client_setChannel, Net.toServer_afterServer,
        Net.toServer_setChannel_toServer, Net.toClient_afterServer,
        Net.toClient_setChannel_toServer, Net.server_afterServer, hsends,
        filter_replies hdistinct]
      by_cases hji : j = i
      · subst hji
        rw [if_pos rfl, Function.update_self]
        exact ⟨p, r', hlink', hclient, hserver'⟩
      · rw [if_neg hji, Function.update_of_ne hji, List.append_nil]
        obtain ⟨pj, rj, hlinkj, hclientj, hserverj⟩ := h.transfer j
        refine ⟨pj, rj, hlinkj, hclientj, hserverj.frame rfl honly ?_ ?_⟩
        · intro heq
          exact hji (hdistinct.address j i (congrArg SockaddrIn.sinAddr heq))
        · intro l hl
          exact storage_location_ne (fun heq => hji (hdistinct.filename j i heq.symm)) hl
  | @fault i direction f hf =>
    refine ⟨?_, ?_, fun j => ?_⟩
    · simpa using h.dirsLE
    · simpa using h.owner
    obtain ⟨p, r, hlink, hclient, hserver⟩ := h.transfer j
    refine ⟨p, r, ?_, by simpa using hclient, by simpa using hserver⟩
    by_cases hji : j = i
    · subst hji
      cases direction with
      | toServer =>
        have hlink' : Link crc (up j) p r (f.apply (net.toServer j)) (net.toClient j) :=
          hlink.fault_fwd hf
        simpa [Net.channel] using hlink'
      | toClient =>
        have hf' : f.Yields (Refusal crc) := by
          cases f with
          | damage n b => exact Or.inl hf
          | _ => trivial
        have hlink' : Link crc (up j) p r (net.toServer j) (f.apply (net.toClient j)) :=
          hlink.fault_bwd hf'
        simpa [Net.channel] using hlink'
    · cases direction <;> simpa [Function.update_of_ne hji] using hlink

/-- **End-to-end correctness.** One idle server, any number of clients on different hosts with
differently named files of any content, and any interleaving of their steps with losses,
repetitions, damages and delays: a client whose `main` passes the call for its FIN has its
source bytes stored under its name. -/
theorem finished_upload_is_stored (crc : Bytes → UInt32) (opts : ServerOptions) (fs₀ : FileSystem)
    (up : ι → Upload) (hdistinct : Distinct up) (net : Net ι)
    (hrun : Reaches (netStep crc opts up) (fun _ action => action.Undisturbed)
      (Net.initial up crc fs₀) net)
    (i : ι) (hpc : (net.client i).pc = .finished) :
    ∃ l, fs₀.resolve (storagePath opts (up i).filename) = .ok l ∧
      net.server.fs.node l = some (.regular (up i).source) := by
  have hinv : NetInv True crc opts fs₀ up net := by
    refine hrun.invariant .initial ?_
    intro net action net' h haction hstep
    exact h.step hdistinct hstep haction fun _ _ _ _ _ _ => trivial
  exact hinv.stored hpc

end

theorem Smooth.undisturbed {crc : Bytes → UInt32} {net : Net Unit} {action : Action Unit}
    (h : Smooth crc net action) : action.Undisturbed := by
  cases action with
  | client i event => exact h.1
  | serverReceive i env => exact h.1.2
  | clientReceive => trivial
  | fault => trivial

theorem distinct_unit (u : Upload) : Distinct fun _ : Unit => u :=
  ⟨fun _ _ _ => rfl, fun _ _ _ => rfl⟩

/-- A run that uploads a file of one byte to an empty storage directory, and what it leaves. -/
theorem example_upload_is_stored :
    ∃ net : Net Unit, (net.client ()).pc = .finished ∧
      ∃ l, exampleFs.resolve (storagePath exampleOpts (exampleUpload [1]).filename) = .ok l ∧
        net.server.fs.node l = some (.regular (exampleUpload [1]).source) := by
  obtain ⟨net, hrun, hpc, -⟩ := exists_finishing_run CRC.crc32 exampleOpts (exampleUpload [1])
    replace_exampleFs
  exact ⟨net, hpc, finished_upload_is_stored CRC.crc32 exampleOpts exampleFs
    (fun _ => exampleUpload [1]) (distinct_unit _) net (hrun.mono fun _ _ h => h.undisturbed) ()
    hpc⟩

end Rechnernetze.Bft
