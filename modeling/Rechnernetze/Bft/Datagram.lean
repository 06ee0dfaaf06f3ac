import Rechnernetze.Bft.Crc

/-!
# The BFT datagram

`BftDatagram` is a packed object of 512 bytes: checksum, payload size, flags and a payload
array, in the byte order of the (little-endian) machine. Sending writes the first `size`
bytes of the object; receiving overwrites the first bytes of a freshly constructed one.
The checksum covers everything after the checksum field, the unused end of the payload
array included.

`crc` stands for the checksum function throughout.
-/

namespace Rechnernetze.Bft

open Lib

/-! ## Flags -/

/-- `enum class Flags : unsigned short`. Its named values are the powers of two `1 << 0` to
`1 << 5`, the others are sets of them, and any 16-bit value can arrive in a datagram. -/
abbrev Flags := UInt16

namespace Flags

def None : Flags := 0
def SQN : Flags := 0x01
def ACK : Flags := 0x02
def FIN : Flags := 0x04
def ABR : Flags := 0x08
def SYN : Flags := 0x10
def AGN : Flags := 0x20

end Flags

def clearFlag (original flagsToClear : Flags) : Flags := original &&& ~~~flagsToClear

def sqnStartVal : Bool := false

/-! ## The object and its bytes -/

/-- `sizeof(int) + sizeof(short) + sizeof(Flags)`. -/
def headerSize : ℕ := 8

def maxDatagramSize : ℕ := 512

def maxPayloadSize : ℕ := maxDatagramSize - headerSize

structure BftDatagram where
  checksum : UInt32
  payloadSize : UInt16
  flags : Flags
  payload : Bytes
  payload_length : payload.length = maxPayloadSize
deriving DecidableEq

/-- The bytes a constructor copies into the payload array; more than the array holds is
never copied. -/
abbrev Payload := { data : Bytes // data.length ≤ maxPayloadSize }

/-- `data` copied over the first bytes of `object`. -/
def overlay (data object : Bytes) : Bytes := data ++ object.drop data.length

def leBytes16 (x : UInt16) : Bytes := [x.toUInt8, (x >>> 8).toUInt8]

def leBytes32 (x : UInt32) : Bytes :=
  [x.toUInt8, (x >>> 8).toUInt8, (x >>> 16).toUInt8, (x >>> 24).toUInt8]

def ofLeBytes16 (b₀ b₁ : UInt8) : UInt16 := b₀.toUInt16 + b₁.toUInt16 * 256

def ofLeBytes32 (b₀ b₁ b₂ b₃ : UInt8) : UInt32 :=
  b₀.toUInt32 + b₁.toUInt32 * 256 + b₂.toUInt32 * 65536 + b₃.toUInt32 * 16777216

namespace BftDatagram

/-- The bytes from the field `payload_size` to the end of the object. -/
def checkedBytes (d : BftDatagram) : Bytes :=
  leBytes16 d.payloadSize ++ leBytes16 d.flags ++ d.payload

/-- The 512 bytes of the object. -/
def toBytes (d : BftDatagram) : Bytes := leBytes32 d.checksum ++ d.checkedBytes

/-- The object that consists of the given 512 bytes. -/
def ofBytes (l : Bytes) (h : l.length = maxDatagramSize) : BftDatagram where
  checksum := ofLeBytes32 (l.getD 0 0) (l.getD 1 0) (l.getD 2 0) (l.getD 3 0)
  payloadSize := ofLeBytes16 (l.getD 4 0) (l.getD 5 0)
  flags := ofLeBytes16 (l.getD 6 0) (l.getD 7 0)
  payload := l.drop headerSize
  payload_length := by rw [List.length_drop, h, maxPayloadSize]

/-! ## Constructors -/

variable (crc : Bytes → UInt32)

def calcChecksum (d : BftDatagram) : UInt32 := crc d.checkedBytes

/-- What the three constructors have in common: fill in the fields, merge in the SQN bit,
compute the checksum last. -/
def init (flags : Flags) (data : Payload) (sqn : Bool) : BftDatagram :=
  let d : BftDatagram :=
    { checksum := 0
      payloadSize := UInt16.ofNat data.1.length
      flags := if sqn then flags ||| Flags.SQN else flags
      payload := overlay data.1 (List.replicate maxPayloadSize 0)
      payload_length := by
        have := data.2
        simp only [overlay, List.length_append, List.length_drop, List.length_replicate]
        omega }
  -- the SQN bit is in by now, and so is the padding
  { d with checksum := d.calcChecksum crc }

/-- `BftDatagram()`. -/
def fresh : BftDatagram where
  checksum := 0
  payloadSize := 0
  flags := Flags.None
  payload := List.replicate maxPayloadSize 0
  payload_length := List.length_replicate

/-- `BftDatagram(Flags flags, bool sqn)`. -/
def ofFlags (flags : Flags) (sqn : Bool) : BftDatagram := init crc flags ⟨[], Nat.zero_le _⟩ sqn

/-- `BftDatagram(Flags flags, char *data_begin, char *data_end, bool sqn)`. -/
def ofRange (flags : Flags) (data : Payload) (sqn : Bool) : BftDatagram := init crc flags data sqn

/-- `BftDatagram(Flags flags, const std::string &data, bool sqn)`. -/
def ofString (flags : Flags) (data : Payload) (sqn : Bool) : BftDatagram := init crc flags data sqn

/-- `BftDatagram::SYN`. -/
def SYN : BftDatagram := ofFlags crc Flags.SYN sqnStartVal

/-- `BftDatagram::ABR`. -/
def ABR : BftDatagram := ofFlags crc Flags.ABR sqnStartVal

/-! ## Getters -/

def getPayload (d : BftDatagram) : Bytes := d.payload.take d.payloadSize.toNat

def getPayloadAsString (d : BftDatagram) : Bytes := d.payload.take d.payloadSize.toNat

def getFlags (d : BftDatagram) : Flags := d.flags

def getSQN (d : BftDatagram) : Bool := d.flags &&& Flags.SQN = Flags.SQN

def size (d : BftDatagram) : ℕ := d.payloadSize.toNat + headerSize

def isSYN (d : BftDatagram) : Bool :=
  d.getFlags = (SYN crc).flags ∧ d.getSQN = (SYN crc).getSQN

def isABR (d : BftDatagram) : Bool :=
  d.getFlags = (ABR crc).flags ∧ d.getSQN = (ABR crc).getSQN

def checkIntegrity (d : BftDatagram) : Bool :=
  d.calcChecksum crc = d.checksum ∧ d.size ≤ maxDatagramSize

/-! ## Answers -/

def createACK (d : BftDatagram) : BftDatagram := ofFlags crc (d.getFlags ||| Flags.ACK) d.getSQN

/-- `response.is_ACK_for(original)`. -/
def isACKFor (response original : BftDatagram) : Bool :=
  response.getFlags &&& Flags.ACK = Flags.ACK ∧
    clearFlag response.getFlags Flags.ACK = original.getFlags ∧
    response.getSQN = original.getSQN

/-! ## The wire -/

/-- The bytes `send` hands to `sendto`. -/
def wire (d : BftDatagram) : Bytes := d.toBytes.take d.size

theorem length_checkedBytes (d : BftDatagram) : d.checkedBytes.length = maxDatagramSize - 4 := by
  simp [checkedBytes, leBytes16, d.payload_length, maxPayloadSize, maxDatagramSize, headerSize]

theorem length_toBytes (d : BftDatagram) : d.toBytes.length = maxDatagramSize := by
  simp [toBytes, leBytes32, length_checkedBytes, maxDatagramSize]

theorem length_overlay {data object : Bytes} (h : data.length ≤ object.length) :
    (overlay data object).length = object.length := by
  rw [overlay, List.length_append, List.length_drop]
  omega

/-- `receive`: `recvfrom` writes at most 512 bytes over a fresh object. The payload is logged at
once, see `receiveReads`. -/
def receive (w : Bytes) : BftDatagram :=
  ofBytes (overlay (w.take maxDatagramSize) fresh.toBytes) (by
    rw [length_overlay, length_toBytes]
    rw [length_toBytes, List.length_take]
    omega)

end BftDatagram

end Rechnernetze.Bft
