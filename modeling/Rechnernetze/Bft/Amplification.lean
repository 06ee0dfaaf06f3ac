import Mathlib.Algebra.Ring.Nat
import Rechnernetze.Bft.Transfer

/-!
# What a timeout costs

The client sends its datagram again not only after a timeout but after every answer it does not
expect, so an acknowledgement that arrives twice makes it send the next datagram twice. Beside
the network runs a `Tally` of what the client sends once its SYN is acknowledged. Over channels
without faults every timeout puts one more message under way, for good: it costs one datagram
for each data or FIN datagram from the one that timed out on (`sent_le_bound`), and no fewer in
the run of `duplicate_acknowledgement_amplified`.
-/

namespace Rechnernetze.Bft

open Lib BftDatagram ClientState

/-- What is counted of a client from the moment its SYN is acknowledged. -/
structure Tally where
  /-- The data and FIN datagrams made. -/
  made : ℕ
  /-- How often one of them has been sent. -/
  sent : ℕ
  /-- The timeouts, each as the number of the datagram that was not answered in time. -/
  timeouts : List ℕ

namespace Tally

/-- The client takes a step of its own. -/
def count (s : ClientState) (t : Tally) : ClientEvent → Tally
  | .read _ => { t with made := t.made + 1 }
  | .sendto true =>
    match s.pc with
    | .send .data _ _ | .send .fin _ _ => { t with sent := t.sent + 1 }
    | _ => t
  | .timeout =>
    match s.pc with
    | .receive .data _ _ | .receive .fin _ _ => { t with timeouts := t.made :: t.timeouts }
    | _ => t
  | _ => t

/-- A step of the network counts as far as it is one of the client's own. -/
def after (net : Net Unit) (t : Tally) : Action Unit → Tally
  | .client _ event => t.count (net.client ()) event
  | _ => t

/-- One for each datagram made, and for each timeout one for each datagram from the one that
timed out on. -/
def bound (t : Tally) : ℕ := t.made + (t.timeouts.map fun k => t.made + 1 - k).sum

end Tally

/-- A step of the network, together with the tally of its client. -/
def tallyStep (crc : Bytes → UInt32) (opts : ServerOptions) (u : Upload)
    (s : Net Unit × Tally) (action : Action Unit) : Option (Net Unit × Tally) :=
  (netStep crc opts (fun _ => u) s.1 action).map fun net => (net, s.2.after s.1 action)

/-- The channels neither lose nor duplicate nor damage. -/
def Action.FaultFree {ι : Type} : Action ι → Prop
  | .fault .. => False
  | _ => True

/-! ## The tally -/

section
variable {t : Tally} {s : ClientState} {call : Call} {d : BftDatagram} {k : ℕ}

/-- Every timeout was one of a datagram that had been made. -/
def Tally.Sound (t : Tally) : Prop := ∀ k ∈ t.timeouts, k ≤ t.made

/-- Another datagram: each timeout so far costs one more. -/
theorem Tally.bound_made (ht : t.Sound) :
    { t with made := t.made + 1 }.bound = t.bound + 1 + t.timeouts.length := by
  have hsum : ∀ l : List ℕ, (∀ k ∈ l, k ≤ t.made) →
      (l.map fun k => t.made + 1 + 1 - k).sum
        = (l.map fun k => t.made + 1 - k).sum + l.length := by
    intro l hl
    induction l with
    | nil => rfl
    | cons k l ih =>
      have hk : k ≤ t.made := hl k (List.mem_cons_self ..)
      have hrest := ih fun k' hk' => hl k' (List.mem_cons_of_mem _ hk')
      simp only [List.map_cons, List.sum_cons, List.length_cons, hrest]
      omega
  simp only [bound, hsum t.timeouts ht]
  omega

theorem Tally.bound_timeout :
    { t with timeouts := t.made :: t.timeouts }.bound = t.bound + 1 := by
  simp only [bound, List.map_cons, List.sum_cons]
  omega

/-- The call is one for a data datagram or the FIN. -/
def Call.Counted (call : Call) : Prop := call = .data ∨ call = .fin

theorem Tally.count_send (hpc : s.pc = .send call d k) (hcall : call.Counted) :
    t.count s (.sendto true) = { t with sent := t.sent + 1 } := by
  rcases hcall with rfl | rfl <;> simp only [count, hpc]

theorem Tally.count_timeout (hpc : s.pc = .receive call d k) (hcall : call.Counted) :
    t.count s .timeout = { t with timeouts := t.made :: t.timeouts } := by
  rcases hcall with rfl | rfl <;> simp only [count, hpc]

theorem Tally.count_timeout_cases (t : Tally) (s : ClientState) :
    t.count s .timeout = t ∨
      t.count s .timeout = { t with timeouts := t.made :: t.timeouts } := by
  simp only [count]
  split
  · exact Or.inr rfl
  · exact Or.inr rfl
  · exact Or.inl rfl

theorem Tally.count_send_of_not (hpc : s.pc = .send call d k) (hcall : ¬ call.Counted) :
    t.count s (.sendto true) = t := by
  cases call with
  | data => exact absurd (Or.inl rfl) hcall
  | fin => exact absurd (Or.inr rfl) hcall
  | syn | abr => simp only [count, hpc]

theorem Tally.count_timeout_of_not (hpc : s.pc = .receive call d k) (hcall : ¬ call.Counted) :
    t.count s .timeout = t := by
  cases call with
  | data => exact absurd (Or.inl rfl) hcall
  | fin => exact absurd (Or.inr rfl) hcall
  | syn | abr => simp only [count, hpc]

end

/-! ## What is under way -/

/-- The SYN as it is sent. -/
def synWire (crc : Bytes → UInt32) (u : Upload) : Bytes :=
  (ofString crc Flags.SYN u.name false).wire

/-- The refusal as it is sent. -/
def abrWire (crc : Bytes → UInt32) : Bytes := (BftDatagram.ABR crc).wire

/-- How many messages under way can make a client that is past its SYN send once more: a copy
of the SYN is answered with a refusal, and a refusal ends the client. -/
def live (crc : Bytes → UInt32) (u : Upload) (net : Net Unit) : ℕ :=
  inFlight (fun w => w ≠ synWire crc u) (fun w => w ≠ abrWire crc)
    (net.toServer ()) (net.toClient ())

/-- How many of them make it send `d` once more: not the copies of `d` and the
acknowledgements of it. -/
def stale (crc : Bytes → UInt32) (u : Upload) (d : BftDatagram) (net : Net Unit) : ℕ :=
  inFlight (fun w => w ≠ synWire crc u ∧ w ≠ d.wire)
    (fun w => w ≠ abrWire crc ∧ w ≠ (d.createACK crc).wire) (net.toServer ()) (net.toClient ())

/-- The SYN has been acknowledged: copies of it that are still under way come first, and they
meet a server that holds a session or has ended. -/
structure SynOver (crc : Bytes → UInt32) (u : Upload) (fwd : List Bytes) (status : Status) :
    Prop where
  shape : Segmented (· = synWire crc u) (· ≠ synWire crc u) fwd
  busy : synWire crc u ∈ fwd → status ≠ .running none

/-- What is under way to a client that still waits for the acknowledgement of its SYN. -/
def Connecting (crc : Bytes → UInt32) (u : Upload) (bwd : List Bytes) : Status → Prop
  | .running (some _) => ∃ rest,
      bwd = ((ofString crc Flags.SYN u.name false).createACK crc).wire :: rest ∧
        ∀ w ∈ rest, w = abrWire crc
  | _ => bwd = []

/-- **The invariant of the tally.** `pending` is 1 while the client is about to send. -/
inductive TallyInv (crc : Bytes → UInt32) (u : Upload) (net : Net Unit) (t : Tally) : Prop
  | connecting {k : ℕ}
      (hpc : (net.client ()).pc = .send .syn (ofString crc Flags.SYN u.name false) k ∨
        (net.client ()).pc = .receive .syn (ofString crc Flags.SYN u.name false) k)
      (hsqn : (net.client ()).currSQN = false) (ht : t = ⟨0, 0, []⟩)
      (hfwd : ∀ w ∈ net.toServer (), w = synWire crc u)
      (hserver : Connecting crc u (net.toClient ()) net.server.status) : TallyInv crc u net t
  | between (hpc : (net.client ()).pc = .openFile ∨ (net.client ()).pc = .readFile)
      (ht : t.Sound) (hsyn : SynOver crc u (net.toServer ()) net.server.status)
      (hlive : live crc u net ≤ t.timeouts.length)
      (hbound : t.sent ≤ t.bound) : TallyInv crc u net t
  | calling {call : Call} {d : BftDatagram} {k : ℕ} (pending : ℕ)
      (hpc : (net.client ()).pc = .send call d k ∧ pending = 1 ∨
        (net.client ()).pc = .receive call d k ∧ pending = 0)
      (hcall : call.Counted) (hd : OfCall crc u call d)
      (hsqn : d.getSQN = (net.client ()).currSQN) (ht : t.Sound)
      (hsyn : SynOver crc u (net.toServer ()) net.server.status)
      (hlive : live crc u net + pending ≤ 1 + t.timeouts.length)
      (hbound : t.sent + stale crc u d net + pending ≤ t.bound) : TallyInv crc u net t
  | ended (hpc : Aborting (net.client ()).pc ∨ (net.client ()).pc = .finished)
      (hbound : t.sent ≤ t.bound) : TallyInv crc u net t

section
variable {crc : Bytes → UInt32} {opts : ServerOptions} {u : Upload} {net net' : Net Unit}
  {t : Tally} {s : ClientState} {call : Call} {d : BftDatagram} {k : ℕ} {w : Bytes}
  {rest : List Bytes} {event : ClientEvent} {sends : List (SockaddrIn × Bytes)} {env : Env}
  {currentClient : Option ClientData} {errnoAgain : Bool}

theorem Call.Counted.ne_abr (h : call.Counted) : call ≠ .abr := by
  rcases h with rfl | rfl <;> decide

theorem Call.not_counted_syn : ¬ Call.Counted .syn := by
  rintro (h | h) <;> cases h

/-- A client that is over and still has a datagram in hand is sending its ABR. -/
theorem call_eq_abr (hpc : s.pc = .send call d k ∨ s.pc = .receive call d k)
    (hended : Aborting s.pc ∨ s.pc = .finished) : call = .abr := by
  rcases hpc with hpc | hpc
  · rw [hpc] at hended
    exact hended.resolve_right nofun
  · rw [hpc] at hended
    exact hended.resolve_right nofun

/-- What is counted is no SYN. -/
theorem Call.Counted.wire_ne (hcall : call.Counted) (hd : OfCall crc u call d) :
    d.wire ≠ synWire crc u := by
  intro h
  have hsyn : (ofString crc Flags.SYN u.name false).WellFormed crc := wellFormed_init ..
  have hreceive := congrArg receive h
  rw [hd.wellFormed.receive_wire, synWire, hsyn.receive_wire] at hreceive
  have hflags := congrArg BftDatagram.flags hreceive
  rcases hcall with rfl | rfl
  · obtain ⟨data, sqn, rfl⟩ := hd
    exact (Upload.flags_data crc data sqn).2.2.1 hflags
  · obtain ⟨sqn, rfl⟩ := hd
    exact (Upload.flags_fin crc sqn).2.1 hflags

theorem stale_le_live : stale crc u d net ≤ live crc u net :=
  inFlight_mono (fun _ h => by simp only [decide_eq_true_eq] at h ⊢; exact h.1)
    fun _ h => by simp only [decide_eq_true_eq] at h ⊢; exact h.1

/-- A read is followed by the call for a datagram with the current SQN. -/
theorem onRead_counted (crc : Bytes → UInt32) (u : Upload) (s : ClientState) (fault : Option ℕ) :
    ∃ call d, call.Counted ∧ OfCall crc u call d ∧
      d.getSQN = (s.onRead crc fault).currSQN ∧ (s.onRead crc fault).pc = .send call d 0 := by
  have hNone : decide (Flags.None &&& Flags.SQN = Flags.SQN) = false := by decide
  have hFIN : decide (Flags.FIN &&& Flags.SQN = Flags.SQN) = false := by decide
  unfold onRead
  dsimp only
  split
  · refine ⟨.fin, _, Or.inr rfl, ⟨_, rfl⟩, ?_, rfl⟩
    rw [ofFlags, getSQN_init, hFIN, Bool.false_or]
  · refine ⟨.data, _, Or.inl rfl, ⟨_, _, rfl⟩, ?_, rfl⟩
    rw [ofRange, getSQN_init, hNone, Bool.false_or]

/-! ## Steps of the client -/

/-- What the client hands to `sendto` is under way unless it goes elsewhere. -/
theorem toServer_afterClient_send (net : Net Unit) (s : ClientState) (a : SockaddrIn) (w : Bytes) :
    (net.afterClient (fun _ => u) () s [(a, w)]).toServer () = net.toServer () ∨
      (net.afterClient (fun _ => u) () s [(a, w)]).toServer () = net.toServer () ++ [w] := by
  by_cases ha : a = u.serverAddr
  · exact Or.inr (by simp [ha])
  · exact Or.inl (by simp [ha])

/-- A client that sends nothing leaves the channels alone. -/
theorem afterClient_silent (net : Net Unit) (s : ClientState) :
    net.afterClient (fun _ => u) () s [] = { net with client := fun _ => s } := by
  simp [Net.afterClient, Net.update_unit]

theorem TallyInv.sent_le (h : TallyInv crc u net t) : t.sent ≤ t.bound := by
  cases h with
  | connecting _ _ ht =>
    rw [ht]
    exact Nat.zero_le _
  | between _ _ _ _ hbound => exact hbound
  | calling _ _ _ _ _ _ _ hbound => omega
  | ended _ hbound => exact hbound

/-- The datagram in hand is sent. -/
theorem TallyInv.send (h : TallyInv crc u net t) (hpc : (net.client ()).pc = .send call d k) :
    TallyInv crc u (net.afterClient (fun _ => u) ()
        { net.client () with pc := .receive call d k } [((net.client ()).serverAddr, d.wire)])
      (t.count (net.client ()) (.sendto true)) := by
  set net' := net.afterClient (fun _ => u) () { net.client () with pc := .receive call d k }
    [((net.client ()).serverAddr, d.wire)] with hnet'
  have hclient : net'.client () = { net.client () with pc := .receive call d k } := by
    simp [hnet']
  have hserver : net'.server = net.server := rfl
  have hbwd : net'.toClient () = net.toClient () := rfl
  have hfwd := toServer_afterClient_send (u := u) net
    { net.client () with pc := .receive call d k } (net.client ()).serverAddr d.wire
  rw [← hnet'] at hfwd
  cases h with
  | @connecting k' hpc' hsqn ht hsyn hconnecting =>
    obtain ⟨rfl, rfl, rfl⟩ : call = .syn ∧ d = ofString crc Flags.SYN u.name false ∧ k = k' := by
      rcases hpc' with h' | h' <;> rw [hpc] at h' <;> cases h'
      exact ⟨rfl, rfl, rfl⟩
    rw [Tally.count_send_of_not hpc Call.not_counted_syn]
    refine .connecting (k := k) (Or.inr (by rw [hclient])) (by rw [hclient]; exact hsqn) ht ?_ ?_
    · intro w hw
      rcases hfwd with h' | h' <;> rw [h'] at hw
      · exact hsyn w hw
      · rcases List.mem_append.mp hw with h'' | h''
        · exact hsyn w h''
        · exact List.mem_singleton.mp h''
    · rw [hserver, hbwd]
      exact hconnecting
  | between hpc' => rcases hpc' with h' | h' <;> rw [hpc] at h' <;> cases h'
  | @calling call' d' k' pending hpc' hcall hd hsqn ht hsyn hlive hbound =>
    obtain ⟨rfl, rfl, rfl, rfl⟩ : call = call' ∧ d = d' ∧ k = k' ∧ pending = 1 := by
      rcases hpc' with ⟨h', hp⟩ | ⟨h', -⟩ <;> rw [hpc] at h' <;> cases h'
      exact ⟨rfl, rfl, rfl, hp⟩
    rw [Tally.count_send hpc hcall]
    have hne : d.wire ≠ synWire crc u := hcall.wire_ne hd
    have hsyn' : SynOver crc u (net'.toServer ()) net'.server.status := by
      rw [hserver]
      rcases hfwd with h' | h' <;> rw [h']
      · exact hsyn
      · refine ⟨hsyn.shape.append_right hne, fun hmem => ?_⟩
        rcases List.mem_append.mp hmem with h'' | h''
        · exact hsyn.busy h''
        · exact absurd (List.mem_singleton.mp h'').symm hne
    -- one message more is under way, which the pending one stood for
    have hlive' : live crc u net' ≤ live crc u net + 1 := by
      unfold live
      rcases hfwd with h' | h' <;> rw [h', hbwd]
      · exact Nat.le_succ _
      · exact inFlight_send
    have hstale' : stale crc u d net' = stale crc u d net := by
      unfold stale
      rcases hfwd with h' | h' <;> rw [h', hbwd]
      exact inFlight_send_of_neg (by simp)
    refine .calling (k := k) 0 (Or.inr ⟨by rw [hclient], rfl⟩) hcall hd
      (by rw [hclient]; exact hsqn) ht hsyn' ?_ ?_
    · show live crc u net' + 0 ≤ 1 + t.timeouts.length
      omega
    · show t.sent + 1 + stale crc u d net' + 0 ≤ t.bound
      omega
  -- the client has ended or aborts, and an ABR is not counted
  | ended hpc' hbound =>
    have hcall : call = .abr := call_eq_abr (Or.inl hpc) hpc'
    rw [Tally.count_send_of_not hpc fun h => h.ne_abr hcall]
    refine .ended (Or.inl ?_) hbound
    rw [hclient]
    exact hcall

/-- A timeout: the datagram will be sent again, or the client gives up. -/
theorem TallyInv.timeout (h : TallyInv crc u net t)
    (hpc : (net.client ()).pc = .receive call d k) :
    TallyInv crc u (net.afterClient (fun _ => u) () ((net.client ()).onTimeout u call d k) [])
      (t.count (net.client ()) .timeout) := by
  rw [afterClient_silent]
  rcases onTimeout_cases u (net.client ()) call d k with ⟨k', htimeout⟩ | ⟨-, e, -, -, htimeout⟩
  · rw [htimeout]
    cases h with
    | connecting hpc' hsqn ht hfwd hserver =>
      obtain ⟨rfl, rfl⟩ : call = .syn ∧ d = ofString crc Flags.SYN u.name false := by
        rcases hpc' with h' | h' <;> rw [hpc] at h' <;> cases h'
        exact ⟨rfl, rfl⟩
      rw [Tally.count_timeout_of_not hpc Call.not_counted_syn]
      exact .connecting (Or.inl rfl) hsqn ht hfwd hserver
    | between hpc' => rcases hpc' with h' | h' <;> rw [hpc] at h' <;> cases h'
    | @calling call' d' k'' pending hpc' hcall hd hsqn ht hsyn hlive hbound =>
      obtain ⟨rfl, rfl, rfl⟩ : call = call' ∧ d = d' ∧ pending = 0 := by
        rcases hpc' with ⟨h', -⟩ | ⟨h', hp⟩ <;> rw [hpc] at h' <;> cases h'
        exact ⟨rfl, rfl, hp⟩
      rw [Tally.count_timeout hpc hcall]
      have hsound : Tally.Sound { t with timeouts := t.made :: t.timeouts } := by
        intro m hm
        rcases List.mem_cons.mp hm with rfl | hm
        · exact Nat.le_refl _
        · exact ht m hm
      refine .calling 1 (Or.inl ⟨rfl, rfl⟩) hcall hd hsqn hsound hsyn ?_ ?_
      · show live crc u net + 1 ≤ 1 + (t.timeouts.length + 1)
        omega
      · rw [Tally.bound_timeout]
        show t.sent + stale crc u d net + 1 ≤ t.bound + 1
        omega
    | ended hpc' hbound =>
      have hcall : call = .abr := call_eq_abr (Or.inr hpc) hpc'
      rw [Tally.count_timeout_of_not hpc fun h => h.ne_abr hcall]
      exact .ended (Or.inl hcall) hbound
  · rw [htimeout]
    -- giving up sends nothing, and one more timeout can only raise the bound
    refine .ended (Or.inl trivial) ?_
    rcases t.count_timeout_cases (net.client ()) with h' | h' <;> rw [h']
    · exact h.sent_le
    · rw [Tally.bound_timeout]
      exact Nat.le_succ_of_le h.sent_le

/-- A chunk is read: another datagram, and every message under way may cost one more of it. -/
theorem TallyInv.read {fault : Option ℕ} (h : TallyInv crc u net t)
    (hpc : (net.client ()).pc = .readFile) :
    TallyInv crc u (net.afterClient (fun _ => u) () ((net.client ()).onRead crc fault) [])
      (t.count (net.client ()) (.read fault)) := by
  rw [afterClient_silent]
  cases h with
  | connecting hpc' => rcases hpc' with h' | h' <;> rw [hpc] at h' <;> cases h'
  | between _ ht hsyn hlive hbound =>
    obtain ⟨call, d, hcall, hd, hsqn, hpc'⟩ := onRead_counted crc u (net.client ()) fault
    have hsound : Tally.Sound { t with made := t.made + 1 } := fun k hk =>
      Nat.le_succ_of_le (ht k hk)
    have hstale : stale crc u d net ≤ live crc u net := stale_le_live
    refine .calling 1 (Or.inl ⟨hpc', rfl⟩) hcall hd hsqn hsound hsyn ?_ ?_
    · show live crc u net + 1 ≤ 1 + t.timeouts.length
      omega
    · show t.sent + stale crc u d net + 1 ≤ Tally.bound { t with made := t.made + 1 }
      rw [Tally.bound_made ht]
      omega
  | calling _ hpc' => rcases hpc' with ⟨h', -⟩ | ⟨h', -⟩ <;> rw [hpc] at h' <;> cases h'
  | ended hpc' =>
    rcases hpc' with h' | h' <;> rw [hpc] at h'
    · exact h'.elim
    · cases h'

/-- **A step of the client** other than the receipt of a datagram. -/
theorem TallyInv.client (h : TallyInv crc u net t) (hevent : event.isDatagram = false)
    (hmove : Move crc u (net.client ()) event s sends) :
    TallyInv crc u (net.afterClient (fun _ => u) () s sends) (t.count (net.client ()) event) := by
  cases hmove with
  | sigint =>
    rw [afterClient_silent]
    exact .ended (Or.inl rfl) h.sent_le
  | send hpc => exact h.send hpc
  | sendError hpc | receiveError hpc =>
    rw [afterClient_silent]
    exact .ended (Or.inl trivial) h.sent_le
  | timeout hpc => exact h.timeout hpc
  | response | emptyAgain | emptyError => cases hevent
  | openFile hpc =>
    rw [afterClient_silent]
    cases h with
    | connecting hpc' => rcases hpc' with h' | h' <;> rw [hpc] at h' <;> cases h'
    | between _ ht hsyn hlive hbound => exact .between (Or.inr rfl) ht hsyn hlive hbound
    | calling _ hpc' => rcases hpc' with ⟨h', -⟩ | ⟨h', -⟩ <;> rw [hpc] at h' <;> cases h'
    | ended hpc' =>
      rcases hpc' with h' | h' <;> rw [hpc] at h'
      · exact h'.elim
      · cases h'
  | read hpc => exact h.read hpc

/-! ## Answers -/

/-- The network when the client has been handed its oldest answer. -/
theorem clientReceive_eq (net : Net Unit) (rest : List Bytes) (s : ClientState) :
    (net.setChannel () .toClient rest).afterClient (fun _ => u) () s []
      = { net with client := fun _ => s, toClient := fun _ => rest } := by
  rw [afterClient_silent]
  simp [Net.setChannel, Net.update_unit]

/-- An acknowledgement ends the call: what is under way from then on is old. -/
theorem TallyInv.acknowledged (ht : t.Sound)
    (hsyn : SynOver crc u (net.toServer ()) net.server.status)
    (hlive : live crc u net ≤ t.timeouts.length) (hbound : t.sent ≤ t.bound)
    (hcall : call.Counted) (hpc : (net.client ()).pc = afterACK call) : TallyInv crc u net t := by
  rcases hcall with rfl | rfl
  · exact .between (Or.inr hpc) ht hsyn hlive hbound
  · exact .ended (Or.inr hpc) hbound

theorem waitForACK_refusal :
    s.waitForACK crc call d (receive (abrWire crc)) = { s with pc := .exited .serverBusy } := by
  have habr : (BftDatagram.ABR crc).WellFormed crc := wellFormed_init ..
  have hbusy : (BftDatagram.ABR crc).getFlags &&& Flags.ABR = Flags.ABR ∧
      (BftDatagram.ABR crc).getSQN = false := by
    show Flags.ABR &&& Flags.ABR = Flags.ABR ∧ _
    exact ⟨by decide, getSQN_init ..⟩
  rw [abrWire, habr.receive_wire]
  exact waitForACK_busy habr.checkIntegrity hbusy

/-- What an answer makes of a client that waits: it ends, it goes on, or it sends its datagram
once more, the latter not after an answer to that datagram. -/
theorem receive_cases {sender : SockaddrIn} (hpc : s.pc = .receive call d k)
    (hcall : call ≠ .abr) (hd : OfCall crc u call d) (hsqn : d.getSQN = s.currSQN)
    {s' : ClientState} (hmove : Move crc u s (.datagram sender w errnoAgain) s' []) :
    (∃ e, s'.pc = .exited e) ∨ (w ≠ abrWire crc ∧ s'.pc = afterACK call) ∨
      (w ≠ abrWire crc ∧ w ≠ (d.createACK crc).wire ∧ s'.currSQN = s.currSQN ∧
        ∃ k', s'.pc = .send call d k') := by
  have habr : (BftDatagram.ABR crc).WellFormed crc := wellFormed_init ..
  have hack : (d.createACK crc).WellFormed crc := wellFormed_createACK d
  cases hmove with
  | response hpc' hbytes =>
    rw [hpc] at hpc'
    cases hpc'
    have hanswered := onResponse_cases crc { s with serverAddr := sender } call d (receive w)
    -- the refusal ends the client, whatever it waits for
    by_cases hrefusal : w = abrWire crc
    · rw [hrefusal, onResponse, if_neg hcall, waitForACK_refusal]
      exact Or.inl ⟨_, rfl⟩
    by_cases hanswer : w = (d.createACK crc).wire
    · refine Or.inr (Or.inl ⟨hrefusal, ?_⟩)
      rw [hanswer, onResponse, if_neg hcall,
        waitForACK_createACK (s := { s with serverAddr := sender }) hcall hd hsqn]
    generalize onResponse crc _ _ _ _ = s' at hanswered ⊢
    cases hanswered with
    | again => exact Or.inr (Or.inr ⟨hrefusal, hanswer, rfl, _, rfl⟩)
    | busy => exact Or.inl ⟨_, rfl⟩
    | acknowledged => exact Or.inr (Or.inl ⟨hrefusal, rfl⟩)
    | abortAcknowledged hcall' => exact absurd hcall' hcall
  | emptyAgain hpc' =>
    rw [hpc] at hpc'
    cases hpc'
    rcases onTimeout_cases u { s with serverAddr := sender } call d k
      with ⟨k', h⟩ | ⟨-, e, -, -, h⟩ <;> rw [h]
    · exact Or.inr (Or.inr ⟨habr.wire_ne_nil.symm, hack.wire_ne_nil.symm, rfl, _, rfl⟩)
    · exact Or.inl ⟨_, rfl⟩
  | emptyError => exact Or.inl ⟨_, rfl⟩

/-- The answer to the SYN: whatever else is under way concerns the SYN, too. -/
theorem connecting_receive {c : ClientData} (hstatus : net.server.status = .running (some c))
    (hsqn : (net.client ()).currSQN = false) (hfwd : ∀ w ∈ net.toServer (), w = synWire crc u)
    (hw : w = ((ofString crc Flags.SYN u.name false).createACK crc).wire)
    (hrest : ∀ w ∈ rest, w = abrWire crc) :
    TallyInv crc u { net with
        client := fun _ => { net.client () with serverAddr := u.serverAddr }.onResponse crc .syn
          (ofString crc Flags.SYN u.name false) (receive w)
        toClient := fun _ => rest } ⟨0, 0, []⟩ := by
  have hd : OfCall crc u .syn (ofString crc Flags.SYN u.name false) := rfl
  have hmatch : (ofString crc Flags.SYN u.name false).getSQN = (net.client ()).currSQN := by
    rw [hsqn]
    exact getSQN_init ..
  rw [hw, onResponse, if_neg (by decide),
    waitForACK_createACK (s := { net.client () with serverAddr := u.serverAddr }) (by decide) hd
      hmatch]
  refine .between (Or.inl rfl) nofun ⟨.of_forall_left hfwd, fun _ => ?_⟩ ?_ (Nat.zero_le _)
  · rw [hstatus]
    nofun
  · refine Nat.le_of_eq (inFlight_eq_zero (fun w hw => ?_) fun w hw => ?_)
    · simp [hfwd w hw]
    · simp [hrest w hw]

/-- **A step of the client** that receives an answer. -/
theorem TallyInv.receive (h : TallyInv crc u net t) (hchannel : net.toClient () = w :: rest)
    (hmove : Move crc u (net.client ()) (.datagram u.serverAddr w errnoAgain) s []) :
    TallyInv crc u ((net.setChannel () .toClient rest).afterClient (fun _ => u) () s []) t := by
  rw [clientReceive_eq]
  cases h with
  | connecting hpc hsqn ht hfwd hserver =>
    -- there is an answer, so the server holds a session, and the first answer acknowledges
    obtain ⟨c, hstatus⟩ : ∃ c, net.server.status = .running (some c) := by
      rw [hchannel] at hserver
      unfold Connecting at hserver
      split at hserver
      · rename_i c hstatus
        exact ⟨c, hstatus⟩
      · cases hserver
    rw [hstatus, hchannel] at hserver
    obtain ⟨rest', hcons, hrest⟩ := hserver
    obtain ⟨hw, rfl⟩ := List.cons.inj hcons
    have hne : w ≠ [] := by
      rw [hw]
      exact (wellFormed_createACK _).wire_ne_nil
    cases hmove with
    | @response call d k sender bytes errnoAgain hpc' hbytes =>
      obtain ⟨rfl, rfl⟩ : call = .syn ∧ d = ofString crc Flags.SYN u.name false := by
        rcases hpc with h' | h' <;> rw [hpc'] at h' <;> cases h'
        exact ⟨rfl, rfl⟩
      rw [ht]
      exact connecting_receive hstatus hsqn hfwd hw hrest
    | emptyAgain | emptyError => exact absurd rfl hne
  | between hpc =>
    cases hmove with
    | response hpc' | emptyAgain hpc' | emptyError hpc' =>
      rcases hpc with h' | h' <;> rw [hpc'] at h' <;> cases h'
  | @calling call d k pending hpc hcall hd hsqn ht hsyn hlive hbound =>
    obtain ⟨k', hpc'⟩ : ∃ k', (net.client ()).pc = .receive call d k' := by
      rcases hpc with ⟨h', -⟩ | ⟨h', -⟩
      · cases hmove with
        | response hpc' | emptyAgain hpc' | emptyError hpc' => rw [hpc'] at h'; cases h'
      · exact ⟨_, h'⟩
    obtain rfl : pending = 0 := by
      rcases hpc with ⟨h', -⟩ | ⟨-, hp⟩
      · rw [hpc'] at h'
        cases h'
      · exact hp
    set net' : Net Unit := { net with client := fun _ => s, toClient := fun _ => rest } with hnet'
    -- one message less is under way
    have hlive' : w ≠ abrWire crc → live crc u net = live crc u net' + 1 := by
      intro hne
      simp only [live, hchannel, hnet']
      exact inFlight_receive (by simpa using hne)
    have hstale' : w ≠ abrWire crc → w ≠ (d.createACK crc).wire →
        stale crc u d net = stale crc u d net' + 1 := by
      intro hne hne'
      simp only [stale, hchannel, hnet']
      exact inFlight_receive (by simpa using ⟨hne, hne'⟩)
    rcases receive_cases hpc' hcall.ne_abr hd hsqn hmove
      with ⟨e, he⟩ | ⟨hne, hack⟩ | ⟨hne, hne', hsqn', k'', hsend⟩
    · refine .ended (Or.inl ?_) (by omega)
      show Aborting s.pc
      rw [he]
      trivial
    · have h1 := hlive' hne
      exact .acknowledged ht hsyn (by omega) (by omega) hcall hack
    · have h1 := hlive' hne
      have h2 := hstale' hne hne'
      exact .calling 1 (Or.inl ⟨hsend, rfl⟩) hcall hd (hsqn.trans hsqn'.symm) ht hsyn
        (by omega) (by omega)
  | ended hpc hbound =>
    refine .ended (Or.inl ?_) hbound
    rcases hpc with h' | h'
    · exact hmove.aborting h'
    · cases hmove with
      | response hpc' | emptyAgain hpc' | emptyError hpc' => rw [hpc'] at h'; cases h'

/-! ## Turns of the server -/

/-- What the server answers to this client. -/
def answers (u : Upload) (out : Outcome) : List Bytes :=
  (out.sends.filter fun x => x.1 = u.address).map (·.2.wire)

theorem mem_answers {out : Outcome} (hw : w ∈ answers u out) :
    ∃ x ∈ out.sends, w = x.2.wire := by
  obtain ⟨x, hx, rfl⟩ := List.mem_map.mp hw
  exact ⟨x, List.mem_of_mem_filter hx, rfl⟩

theorem length_answers (crc : Bytes → UInt32) (opts : ServerOptions) (u : Upload)
    (fs : FileSystem) (currentClient : Option ClientData) (input : ServerInput) :
    (answers u (iteration crc opts fs currentClient input)).length ≤ 1 := by
  refine Nat.le_trans ?_ (turn_cases crc opts fs currentClient input).length_sends
  rw [answers, List.length_map]
  exact List.length_filter_le ..

/-- The network after a turn for a datagram of the client. -/
theorem serverReceive_eq (net : Net Unit) (rest : List Bytes) (out : Outcome) :
    (net.setChannel () .toServer rest).afterServer (fun _ => u) out
      = { net with
          server := out.state
          toServer := fun _ => rest
          toClient := fun _ => net.toClient () ++ answers u out } := by
  simp only [Net.afterServer, Net.setChannel, Net.update_unit, answers]

/-- The turn for a SYN that finds the server idle. -/
theorem connecting_SYN_idle (crc : Bytes → UInt32) (opts : ServerOptions) (u : Upload)
    (fs : FileSystem) (env : Env) :
    Connecting crc u (answers u (iteration crc opts fs none ⟨u.address, synWire crc u, env⟩))
      (iteration crc opts fs none ⟨u.address, synWire crc u, env⟩).state.status := by
  have hsyn : (ofString crc Flags.SYN u.name false).WellFormed crc := wellFormed_init ..
  rw [synWire, iteration_wire hsyn, onIntact_SYN rfl, onSYN]
  rcases handleSYN_cases opts fs (ofString crc Flags.SYN u.name false) u.address env
    with ⟨fs', l, h, -⟩ | ⟨fs', e, h, -⟩ <;> rw [h]
  · exact ⟨[], by simp [answers], by simp⟩
  · rfl

/-- The turn for a copy of the SYN that finds the server busy. -/
theorem answers_SYN_busy {fs : FileSystem} {c : ClientData} :
    iteration crc opts fs (some c) ⟨u.address, synWire crc u, env⟩
      = ⟨[(u.address, BftDatagram.ABR crc)], ⟨fs, .running (some c)⟩⟩ :=
  iteration_SYN_busy (wellFormed_init ..) rfl

/-- Behind the copies of the SYN nothing can bring one back. -/
theorem SynOver.serve {status status' : Status} (h : SynOver crc u (w :: rest) status)
    (hkeep : w = synWire crc u → status' = status) : SynOver crc u rest status' := by
  refine ⟨h.shape.tail, fun hmem => ?_⟩
  by_cases hw : w = synWire crc u
  · rw [hkeep hw]
    exact h.busy (List.mem_cons_of_mem _ hmem)
  · -- order is kept: once the oldest message is no SYN, none is
    exact absurd rfl (h.shape.forall_of_head hw _ (List.mem_cons_of_mem _ hmem))

/-- **A turn of the server.** -/
theorem TallyInv.serverReceive (h : TallyInv crc u net t)
    (hstatus : net.server.status = .running currentClient)
    (hchannel : net.toServer () = w :: rest) :
    TallyInv crc u ((net.setChannel () .toServer rest).afterServer (fun _ => u)
      (iteration crc opts net.server.fs currentClient ⟨u.address, w, env⟩)) t := by
  rw [serverReceive_eq]
  have hone := length_answers crc opts u net.server.fs currentClient ⟨u.address, w, env⟩
  have hturn := turn_cases crc opts net.server.fs currentClient ⟨u.address, w, env⟩
  -- a SYN behind the session is refused, and changes nothing
  have hSYN : SynOver crc u (w :: rest) (.running currentClient) → w = synWire crc u →
      ∃ c, currentClient = some c ∧
        iteration crc opts net.server.fs currentClient ⟨u.address, w, env⟩
          = ⟨[(u.address, BftDatagram.ABR crc)], ⟨net.server.fs, .running (some c)⟩⟩ := by
    rintro hsyn rfl
    cases currentClient with
    | none => exact absurd rfl (hsyn.busy (List.mem_cons_self ..))
    | some c => exact ⟨c, rfl, answers_SYN_busy⟩
  generalize hout : iteration crc opts net.server.fs currentClient ⟨u.address, w, env⟩ = out
    at hone hturn hSYN ⊢
  have hrefusal : SynOver crc u (w :: rest) (.running currentClient) → w = synWire crc u →
      ∀ b ∈ answers u out, b = abrWire crc := by
    intro hsyn hw b hb
    obtain ⟨c, -, hout⟩ := hSYN hsyn hw
    obtain ⟨x, hx, rfl⟩ := mem_answers hb
    rw [hout] at hx
    rw [List.mem_singleton.mp hx, abrWire]
  have hover : SynOver crc u (w :: rest) (.running currentClient) →
      SynOver crc u rest out.state.status := by
    intro hsyn
    refine hsyn.serve fun hw => ?_
    obtain ⟨c, hc, hout⟩ := hSYN hsyn hw
    rw [hout, hc]
  set net' : Net Unit := { net with
    server := out.state
    toServer := fun _ => rest
    toClient := fun _ => net.toClient () ++ answers u out } with hnet'
  -- one message is taken and at most one sent, a refusal for a SYN
  have hlive : SynOver crc u (w :: rest) (.running currentClient) →
      live crc u net' ≤ live crc u net := by
    intro hsyn
    simp only [live, hchannel, hnet']
    refine inFlight_answer hone fun hw b hb => ?_
    simpa using hrefusal hsyn (by simpa using hw) b hb
  cases h with
  | connecting hpc hsqn ht hfwd hserver =>
    rw [hchannel] at hfwd
    obtain rfl := hfwd w (List.mem_cons_self ..)
    refine .connecting hpc hsqn ht (fun w hw => hfwd w (List.mem_cons_of_mem _ hw)) ?_
    show Connecting crc u (net.toClient () ++ answers u out) out.state.status
    rw [hstatus] at hserver
    cases currentClient with
    | none =>
      rw [show net.toClient () = [] from hserver, List.nil_append, ← hout]
      exact connecting_SYN_idle ..
    | some c =>
      obtain ⟨rest', hcons, hrest⟩ := hserver
      rw [← hout, answers_SYN_busy, hcons]
      refine ⟨rest' ++ [abrWire crc], by simp [answers, abrWire], fun w hw => ?_⟩
      rcases List.mem_append.mp hw with h' | h'
      · exact hrest w h'
      · exact List.mem_singleton.mp h'
  | between hpc ht hsyn hlive' hbound =>
    rw [hchannel, hstatus] at hsyn
    exact .between hpc ht (hover hsyn) (Nat.le_trans (hlive hsyn) hlive') hbound
  | @calling call d k pending hpc hcall hd hsqn ht hsyn hlive' hbound =>
    rw [hchannel, hstatus] at hsyn
    have hstale : stale crc u d net' ≤ stale crc u d net := by
      simp only [stale, hchannel, hnet']
      refine inFlight_answer hone fun hw b hb => ?_
      rw [decide_eq_false_iff_not, not_and_or, not_not, not_not] at hw ⊢
      rcases hw with hw | rfl
      · exact Or.inl (hrefusal hsyn hw b hb)
      · -- the answer to a copy of `d`
        obtain ⟨x, hx, rfl⟩ := mem_answers hb
        rcases hturn.reply_wire hd.wellFormed rfl hx with h' | h' <;> rw [h']
        · exact Or.inl rfl
        · exact Or.inr rfl
    have h1 := hlive hsyn
    exact .calling pending hpc hcall hd hsqn ht (hover hsyn) (by omega) (by omega)
  | ended hpc hbound => exact .ended hpc hbound

/-! ## Runs -/

variable {fs₀ : FileSystem} {action : Action Unit}

theorem TallyInv.initial (crc : Bytes → UInt32) (u : Upload) (fs₀ : FileSystem) :
    TallyInv crc u (Net.initial (fun _ => u) crc fs₀) ⟨0, 0, []⟩ :=
  .connecting (k := 0) (Or.inl rfl) rfl rfl nofun rfl

/-- **Every step without a fault keeps the invariant.** -/
theorem TallyInv.step (h : TallyInv crc u net t) (hok : action.FaultFree)
    (hstep : netStep crc opts (fun _ => u) net action = some net') :
    TallyInv crc u net' (t.after net action) := by
  cases netStep_cases hstep with
  | client hevent hmove => exact h.client hevent hmove
  | clientReceive hchannel hmove => exact h.receive hchannel hmove
  | serverReceive hstatus hchannel => exact h.serverReceive hstatus hchannel
  | fault => exact hok.elim

/-- **What a timeout costs.** Over channels without faults the client sends its data datagrams
and its FIN once each, and each timeout makes it send once more every datagram from the one
that timed out on, at the most. -/
theorem sent_le_bound (crc : Bytes → UInt32) (opts : ServerOptions) (u : Upload)
    (fs₀ : FileSystem) (net : Net Unit) (t : Tally)
    (hrun : Reaches (tallyStep crc opts u) (fun _ action => action.FaultFree)
      (Net.initial (fun _ => u) crc fs₀, ⟨0, 0, []⟩) (net, t)) :
    t.sent ≤ t.made + (t.timeouts.map fun k => t.made + 1 - k).sum := by
  have hinv : TallyInv crc u (net, t).1 (net, t).2 := by
    refine hrun.invariant (I := fun s => TallyInv crc u s.1 s.2) (.initial crc u fs₀) ?_
    intro s action s' h hok hstep
    obtain ⟨net'', hnet, rfl⟩ := Option.map_eq_some_iff.mp hstep
    exact h.step hok hnet
  exact hinv.sent_le

/-! ## One early timeout -/

theorem tally_tail {net₀ : Net Unit} {t₀ : Tally}
    (hrun : Reaches (tallyStep crc opts u) (fun _ action => action.FaultFree) (net₀, t₀) (net, t))
    (hstep : netStep crc opts (fun _ => u) net action = some net') (hok : action.FaultFree) :
    Reaches (tallyStep crc opts u) (fun _ action => action.FaultFree) (net₀, t₀)
      (net', t.after net action) :=
  .tail hrun hok (by rw [tallyStep, hstep, Option.map_some])

end

/-- Whatever the checksum function: the client times out before the acknowledgement of its data
datagram arrives, and sends it again. The second acknowledgement makes it send its FIN again. -/
theorem exists_run_early_timeout (crc : Bytes → UInt32) :
    ∃ net : Net Unit, Reaches (tallyStep crc exampleOpts (exampleUpload [7]))
      (fun _ action => action.FaultFree)
      (Net.initial (fun _ => exampleUpload [7]) crc exampleFs, ⟨0, 0, []⟩) (net, ⟨2, 4, [1]⟩) := by
  let u := exampleUpload [7]
  let syn := u.datagram crc 0
  let data := exampleData crc
  let fin : BftDatagram := .ofFlags crc Flags.FIN false
  let idle : ServerState := ⟨exampleFs, .running none⟩
  let opened : ServerState := ⟨exampleStored [], .running (some exampleSession)⟩
  let fs := (exampleStored []).append [[115], [97]] [7]
  let stored : ServerState := ⟨fs, .running (some exampleSessionData)⟩
  let stored' : ServerState :=
    ⟨fs, .running (some { exampleSessionData with nDuplicates := 1 })⟩
  let s₀ : ClientState := .initial crc u
  let s₁ : ClientState := { s₀ with pc := .receive .syn syn 0 }
  let s₂ : ClientState := { s₀ with pc := .openFile, currSQN := true }
  let s₃ : ClientState := { s₂ with pc := .readFile, file := ⟨[7], true⟩ }
  let s₄ : ClientState := { s₂ with pc := .send .data data 0, file := ⟨[], false⟩ }
  let s₅ : ClientState := { s₄ with pc := .receive .data data 0 }
  let s₆ : ClientState := { s₄ with nRetransmissions := 1 }
  let s₇ : ClientState := { s₅ with nRetransmissions := 1 }
  let s₈ : ClientState := { s₆ with pc := .readFile, currSQN := false }
  let s₉ : ClientState := { s₈ with pc := .send .fin fin 0 }
  let s₁₀ : ClientState := { s₈ with pc := .receive .fin fin 0 }
  have hsyn : (syn.createACK crc).WellFormed crc := wellFormed_createACK _
  have hdata : (data.createACK crc).WellFormed crc := wellFormed_createACK _
  have hsqn : data.getSQN = true := getSQN_init ..
  have hcall : OfCall crc u .data data := ⟨_, _, rfl⟩
  have hnoABR : ¬ (data.createACK crc).getFlags &&& Flags.ABR = Flags.ABR :=
    (hcall.flags (by decide)).2
  have h₁ : netStep crc exampleOpts (fun _ => u) (.single idle s₀ [] [])
      (.client () (.sendto true)) = some (.single idle s₁ [syn.wire] []) :=
    Net.netStep_single_send rfl rfl
  have h₂ : netStep crc exampleOpts (fun _ => u) (.single idle s₁ [syn.wire] [])
      (.serverReceive () exampleEnv)
      = some (.single opened s₁ [] [(syn.createACK crc).wire]) :=
    Net.netStep_single_serverReceive (iteration_exampleSYN crc)
  have h₃ : netStep crc exampleOpts (fun _ => u)
      (.single opened s₁ [] [(syn.createACK crc).wire]) (.clientReceive () false)
      = some (.single opened s₂ [] []) := by
    refine Net.netStep_single_clientReceive ?_
    rw [ClientState.clientStep_datagram_wire rfl hsyn, ← hsyn.receive_wire]
    exact congrArg (fun s => some (s, []))
      (waitForACK_createACK (s := s₁) (u := u) (by decide) rfl (getSQN_init ..))
  have h₄ : netStep crc exampleOpts (fun _ => u) (.single opened s₂ [] [])
      (.client () (.openFile true)) = some (.single opened s₃ [] []) :=
    Net.netStep_single_client rfl rfl
  have h₅ : netStep crc exampleOpts (fun _ => u) (.single opened s₃ [] [])
      (.client () (.read none)) = some (.single opened s₄ [] []) :=
    Net.netStep_single_client rfl rfl
  have h₆ : netStep crc exampleOpts (fun _ => u) (.single opened s₄ [] [])
      (.client () (.sendto true)) = some (.single opened s₅ [data.wire] []) :=
    Net.netStep_single_send rfl rfl
  have h₇ : netStep crc exampleOpts (fun _ => u) (.single opened s₅ [data.wire] [])
      (.client () .timeout) = some (.single opened s₆ [data.wire] []) :=
    Net.netStep_single_client rfl rfl
  have h₈ : netStep crc exampleOpts (fun _ => u) (.single opened s₆ [data.wire] [])
      (.client () (.sendto true)) = some (.single opened s₇ [data.wire, data.wire] []) :=
    Net.netStep_single_send rfl rfl
  have h₉ : netStep crc exampleOpts (fun _ => u)
      (.single opened s₇ [data.wire, data.wire] []) (.serverReceive () exampleEnv)
      = some (.single stored s₇ [data.wire] [(data.createACK crc).wire]) :=
    Net.netStep_single_serverReceive (iteration_exampleData crc)
  have h₁₀ : netStep crc exampleOpts (fun _ => u)
      (.single stored s₇ [data.wire] [(data.createACK crc).wire]) (.serverReceive () exampleEnv)
      = some (.single stored' s₇ [] [(data.createACK crc).wire, (data.createACK crc).wire]) := by
    refine Net.netStep_single_serverReceive ?_
    have hflags : data.flags = Flags.None ||| Flags.SQN := rfl
    rw [iteration_wire (wellFormed_exampleData crc), onIntact_regular (by rw [hflags]; decide)
      (by rw [hflags]; decide)]
    exact onRegular_duplicate rfl (by rw [hsqn]; decide)
  have h₁₁ : netStep crc exampleOpts (fun _ => u)
      (.single stored' s₇ [] [(data.createACK crc).wire, (data.createACK crc).wire])
      (.clientReceive () false)
      = some (.single stored' s₈ [] [(data.createACK crc).wire]) := by
    refine Net.netStep_single_clientReceive ?_
    rw [ClientState.clientStep_datagram_wire rfl hdata, ← hdata.receive_wire]
    exact congrArg (fun s => some (s, []))
      (waitForACK_createACK (s := s₇) (by decide) hcall hsqn)
  have h₁₂ : netStep crc exampleOpts (fun _ => u)
      (.single stored' s₈ [] [(data.createACK crc).wire]) (.client () (.read none))
      = some (.single stored' s₉ [] [(data.createACK crc).wire]) :=
    Net.netStep_single_client rfl rfl
  have hFIN : ∀ toServer toClient, netStep crc exampleOpts (fun _ => u)
      (.single stored' s₉ toServer toClient) (.client () (.sendto true))
      = some (.single stored' s₁₀ (toServer ++ [fin.wire]) toClient) :=
    fun toServer toClient => Net.netStep_single_send rfl rfl
  -- the acknowledgement of the data datagram is no answer to the FIN
  have h₁₄ : netStep crc exampleOpts (fun _ => u)
      (.single stored' s₁₀ [fin.wire] [(data.createACK crc).wire]) (.clientReceive () false)
      = some (.single stored' s₉ [fin.wire] []) := by
    refine Net.netStep_single_clientReceive ?_
    rw [ClientState.clientStep_datagram_wire rfl hdata]
    have hSQN : (data.createACK crc).getSQN ≠ s₁₀.currSQN := by
      rw [getSQN_createACK, hsqn]
      show true ≠ false
      decide
    have hagain : s₁₀.waitForACK crc .fin fin (data.createACK crc) = s₉ := by
      rw [waitForACK, if_neg (by rw [hdata.checkIntegrity]; decide),
        if_neg (fun h => hnoABR h.1), if_pos hSQN]
    exact congrArg (fun s => some (s, [])) hagain
  have hrun := tally_tail (tally_tail (tally_tail (tally_tail (tally_tail (tally_tail (tally_tail
    (t := ⟨0, 0, []⟩) .refl h₁ trivial) h₂ trivial) h₃ trivial) h₄ trivial) h₅ trivial)
    h₆ trivial) h₇ trivial
  exact ⟨_, tally_tail (tally_tail (tally_tail (tally_tail (tally_tail (tally_tail (tally_tail
    (tally_tail hrun h₈ trivial) h₉ trivial) h₁₀ trivial) h₁₁ trivial) h₁₂ trivial)
    (hFIN _ _) trivial) h₁₄ trivial) (hFIN _ _) trivial⟩

/-- The early timeout of the first of two datagrams costs two more, and no run can cost more. -/
theorem early_timeout_cost :
    ∃ net : Net Unit, Reaches (tallyStep CRC.crc32 exampleOpts (exampleUpload [7]))
        (fun _ action => action.FaultFree)
        (Net.initial (fun _ => exampleUpload [7]) CRC.crc32 exampleFs, ⟨0, 0, []⟩)
        (net, ⟨2, 4, [1]⟩) ∧
      4 ≤ 2 + ([1].map fun k => 2 + 1 - k).sum := by
  obtain ⟨net, hrun⟩ := exists_run_early_timeout CRC.crc32
  exact ⟨net, hrun, sent_le_bound CRC.crc32 exampleOpts (exampleUpload [7]) exampleFs net
    ⟨2, 4, [1]⟩ hrun⟩

/-- An acknowledgement that arrives twice is answered twice. -/
theorem duplicate_acknowledgement_amplified :
    ¬ ∀ (opts : ServerOptions) (u : Upload) (fs₀ : FileSystem) (net : Net Unit) (t : Tally),
      Reaches (tallyStep CRC.crc32 opts u) (fun _ action => action.FaultFree)
        (Net.initial (fun _ => u) CRC.crc32 fs₀, ⟨0, 0, []⟩) (net, t) →
      t.sent ≤ t.made + t.timeouts.length := by
  intro h
  obtain ⟨net, hrun⟩ := exists_run_early_timeout CRC.crc32
  exact absurd (h exampleOpts (exampleUpload [7]) exampleFs net ⟨2, 4, [1]⟩ hrun) (by decide)

end Rechnernetze.Bft
