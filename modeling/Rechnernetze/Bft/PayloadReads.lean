import Rechnernetze.Bft.ClientTheorems
import Rechnernetze.Bft.ServerTheorems

/-!
# Reads of the payload

`get_payload` and `get_payload_as_string` read `payload_size` bytes of the payload array. The
module lists the datagrams whose payload is read in a turn of the server and in a step of the
client. Behind `check_integrity` the size fits; but `receive` logs the payload before anybody
has looked at the size (`payload_reads_in_bounds_iff`).
-/

namespace Rechnernetze.Bft

open Lib BftDatagram

/-! ## Who reads -/

/-- The payload is logged when a datagram has been received. -/
def receiveReads (bytes : Bytes) : List BftDatagram := [receive bytes]

/-- The payload is logged when a datagram has been sent. -/
def sendReads (d : BftDatagram) : List BftDatagram := [d]

/-- `handle_SYN` reads the file name unless the server is busy. -/
def handleSYNReads (currentClient : Option ClientData) (d : BftDatagram) : List BftDatagram :=
  if currentClient.isSome then [] else [d]

/-- `handle_valid_datagram` reads the payload of a data datagram. -/
def handleValidDatagramReads (d : BftDatagram) : List BftDatagram :=
  if d.getFlags &&& Flags.FIN = Flags.FIN then []
  else if clearFlag d.getFlags Flags.SQN = Flags.None then [d]
  else []

variable (crc : Bytes → UInt32)

/-- The handlers of a datagram that passes `check_integrity`. -/
def handlerReads (currentClient : Option ClientData) (d : BftDatagram) (sender : SockaddrIn) :
    List BftDatagram :=
  if d.isSYN crc then handleSYNReads currentClient d
  else if d.isABR crc then []
  else if currentClient.any fun c =>
      sender.sinAddr = c.address.sinAddr ∧ d.getSQN = c.currentSQN then
    handleValidDatagramReads d
  else []

/-- One turn of the server. -/
def serverReads (opts : ServerOptions) (fs : FileSystem) (currentClient : Option ClientData)
    (input : ServerInput) : List BftDatagram :=
  let received := receive input.bytes
  receiveReads input.bytes ++
    (if received.checkIntegrity crc then handlerReads crc currentClient received input.sender
      else []) ++
    (iteration crc opts fs currentClient input).sends.flatMap fun x => sendReads x.2

/-- One step of the client: it reads the payload only to log it. -/
def clientReads (s : ClientState) : ClientEvent → List BftDatagram
  | .datagram _ bytes _ =>
    match s.pc with
    | .receive .. => receiveReads bytes
    | _ => []
  | .sendto _ =>
    match s.pc with
    | .send _ d _ => sendReads d
    | _ => []
  | _ => []

/-- The read stays inside the payload array. -/
def InBounds (d : BftDatagram) : Prop := d.payloadSize.toNat ≤ maxPayloadSize

/-- The size announced in the bytes received; bytes that are missing count as 0. -/
def announcedSize (bytes : Bytes) : ℕ := (ofLeBytes16 (bytes.getD 4 0) (bytes.getD 5 0)).toNat

variable {crc} {opts : ServerOptions} {fs : FileSystem} {currentClient : Option ClientData}
  {input : ServerInput} {u : Upload} {s : ClientState} {event : ClientEvent} {d r : BftDatagram}
  {sender : SockaddrIn} {bytes : Bytes}

/-! ## The announced size -/

theorem payloadSize_receive : (receive bytes).payloadSize.toNat = announcedSize bytes := by
  have hgetD : ∀ i, i < maxDatagramSize →
      (overlay (bytes.take maxDatagramSize) fresh.toBytes).getD i 0 = bytes.getD i 0 := by
    intro i hi
    rw [overlay, List.getD_eq_getElem?_getD, List.getD_eq_getElem?_getD]
    rcases Nat.lt_or_ge i (bytes.take maxDatagramSize).length with hlt | hge
    · rw [List.getElem?_append_left hlt, List.getElem?_take_of_lt hi]
    · have hnone : bytes[i]? = none := by
        rw [List.length_take] at hge
        exact List.getElem?_eq_none (by omega)
      rw [List.getElem?_append_right hge, toBytes_fresh, List.drop_replicate,
        List.getElem?_replicate, hnone]
      split
      · rfl
      · rfl
  have h4 := hgetD 4 (by decide)
  have h5 := hgetD 5 (by decide)
  rw [announcedSize, ← h4, ← h5]
  rfl

/-- What one of the constructors has built announces no more than a payload. -/
theorem BftDatagram.WellFormed.announcedSize_wire (h : d.WellFormed crc) :
    announcedSize d.wire ≤ maxPayloadSize := by
  rw [← payloadSize_receive, h.receive_wire]
  exact h.payloadSize

theorem inBounds_receive_iff : InBounds (receive bytes) ↔ announcedSize bytes ≤ maxPayloadSize := by
  rw [InBounds, payloadSize_receive]

/-! ## Reads behind `check_integrity` -/

theorem inBounds_of_checkIntegrity (hcheck : d.checkIntegrity crc = true) : InBounds d := by
  have hsize : d.size ≤ maxDatagramSize := (of_decide_eq_true hcheck).2
  unfold InBounds
  unfold BftDatagram.size at hsize
  simp only [maxPayloadSize, maxDatagramSize, headerSize] at hsize ⊢
  omega

/-- The handlers read the payload of the datagram they are given, if any. -/
theorem eq_of_mem_handlerReads (hr : r ∈ handlerReads crc currentClient d sender) : r = d := by
  unfold handlerReads handleSYNReads handleValidDatagramReads at hr
  split_ifs at hr
  all_goals first | exact List.mem_singleton.mp hr | cases hr

/-- The datagrams that are sent are the program's own. -/
theorem inBounds_sends : ∀ x ∈ (iteration crc opts fs currentClient input).sends, InBounds x.2 := by
  intro x hx
  rcases (turn_cases crc opts fs currentClient input).reply x hx with h | ⟨-, sqn, h⟩ | ⟨-, h⟩
  · have hwf : (BftDatagram.ABR crc).WellFormed crc := wellFormed_init ..
    rw [h]
    exact hwf.payloadSize
  · have hwf : (ofFlags crc Flags.AGN sqn).WellFormed crc := wellFormed_init ..
    rw [h]
    exact hwf.payloadSize
  · have hwf : ((receive input.bytes).createACK crc).WellFormed crc := wellFormed_createACK _
    rw [h]
    exact hwf.payloadSize

theorem serverReads_inBounds_iff :
    (∀ r ∈ serverReads crc opts fs currentClient input, InBounds r) ↔
      announcedSize input.bytes ≤ maxPayloadSize := by
  rw [← inBounds_receive_iff]
  constructor
  · intro h
    refine h _ (List.mem_append_left _ (List.mem_append_left _ ?_))
    exact List.mem_singleton_self _
  · intro h r hr
    rcases List.mem_append.mp hr with hr | hr
    · rcases List.mem_append.mp hr with hr | hr
      · rw [List.mem_singleton.mp hr]
        exact h
      · split at hr
        · rename_i hcheck
          rw [eq_of_mem_handlerReads hr]
          exact inBounds_of_checkIntegrity hcheck
        · cases hr
    · obtain ⟨x, hx, hr⟩ := List.mem_flatMap.mp hr
      rw [List.mem_singleton.mp hr]
      exact inBounds_sends x hx

/-! ## The client -/

/-- A client that has run from its start holds a datagram of its own. -/
theorem inHand_of_reaches
    (hrun : Reaches (clientNext crc u) anyStep (ClientState.initial crc u) s) :
    ClientState.InHand crc u s.pc := by
  have hinit : ClientState.InHand crc u (ClientState.initial crc u).pc := rfl
  refine hrun.invariant (I := fun s => ClientState.InHand crc u s.pc) hinit ?_
  intro t e t' ht _ hnext
  obtain ⟨⟨t'', sends⟩, hstep, rfl⟩ := Option.map_eq_some_iff.mp hnext
  exact (ClientState.clientStep_cases hstep).inHand ht

/-- The event is the arrival of these bytes in `recvfrom`. -/
def Receives (s : ClientState) (event : ClientEvent) (bytes : Bytes) : Prop :=
  ∃ call d k sender errnoAgain, s.pc = .receive call d k ∧
    event = .datagram sender bytes errnoAgain

theorem clientReads_inBounds_iff (hhand : ClientState.InHand crc u s.pc) :
    (∀ r ∈ clientReads s event, InBounds r) ↔
      ∀ bytes, Receives s event bytes → announcedSize bytes ≤ maxPayloadSize := by
  constructor
  · rintro h bytes ⟨call, d, k, sender, errnoAgain, hpc, rfl⟩
    rw [← inBounds_receive_iff]
    refine h _ ?_
    rw [clientReads, hpc]
    exact List.mem_singleton_self _
  · intro h r hr
    unfold clientReads at hr
    split at hr
    · rename_i sender bytes errnoAgain
      split at hr
      · rename_i call d k hpc
        rw [List.mem_singleton.mp hr, inBounds_receive_iff]
        exact h bytes ⟨call, d, k, sender, errnoAgain, hpc, rfl⟩
      · cases hr
    · split at hr
      · rename_i call d k hpc
        rw [hpc] at hhand
        rw [List.mem_singleton.mp hr]
        exact (ClientState.OfCall.wellFormed hhand).payloadSize
      · cases hr
    · cases hr

/-- **When the reads stay inside the payload array**: if the size announced in what is received
fits. Only the log in `receive` makes the difference. -/
theorem payload_reads_in_bounds_iff (crc : Bytes → UInt32) (opts : ServerOptions)
    (fs : FileSystem) (currentClient : Option ClientData) (input : ServerInput) (u : Upload)
    (s : ClientState) (event : ClientEvent)
    (hrun : Reaches (clientNext crc u) anyStep (ClientState.initial crc u) s) :
    ((∀ r ∈ serverReads crc opts fs currentClient input, InBounds r) ↔
        announcedSize input.bytes ≤ maxPayloadSize) ∧
      ((∀ r ∈ clientReads s event, InBounds r) ↔
        ∀ bytes, Receives s event bytes → announcedSize bytes ≤ maxPayloadSize) :=
  ⟨serverReads_inBounds_iff, clientReads_inBounds_iff (inHand_of_reaches hrun)⟩

/-- A SYN arrives at the server and is logged. -/
theorem example_read_in_bounds : InBounds (receive (exampleSYN CRC.crc32).wire) := by
  have hsize := (wellFormed_exampleSYN CRC.crc32).announcedSize_wire
  refine (payload_reads_in_bounds_iff CRC.crc32 exampleOpts exampleFs none
    ⟨exampleAddr, (exampleSYN CRC.crc32).wire, exampleEnv⟩ (exampleUpload []) _ .timeout
    .refl).1.mpr hsize _ ?_
  exact List.mem_append_left _ (List.mem_append_left _ (List.mem_singleton_self _))

/-- A header that announces 65535 bytes. -/
def longDatagram : Bytes := [0, 0, 0, 0, 255, 255, 0, 0]

/-- An idle server logs 65535 bytes of a datagram of 8 bytes. -/
theorem log_reads_out_of_bounds :
    ¬ ∀ (opts : ServerOptions) (fs : FileSystem) (s : ServerState)
        (currentClient : Option ClientData) (input : ServerInput),
      Reaches (serverStep CRC.crc32 opts) anyStep ⟨fs, .running none⟩ s →
      s.status = .running currentClient → input.bytes.length ≤ maxDatagramSize →
      ∀ r ∈ serverReads CRC.crc32 opts s.fs currentClient input, InBounds r := by
  intro h
  have hreads := h exampleOpts exampleFs ⟨exampleFs, .running none⟩ none
    ⟨exampleAddr, longDatagram, exampleEnv⟩ .refl rfl (by decide)
  have hsize : announcedSize longDatagram ≤ maxPayloadSize :=
    ((payload_reads_in_bounds_iff CRC.crc32 exampleOpts exampleFs none
      ⟨exampleAddr, longDatagram, exampleEnv⟩ (exampleUpload []) _ .timeout .refl).1).mp hreads
  exact absurd hsize (by decide)

end Rechnernetze.Bft
