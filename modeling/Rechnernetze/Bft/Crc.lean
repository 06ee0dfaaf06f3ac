import Mathlib.Logic.Function.Iterate
import Rechnernetze.Lib.FileSystem

/-!
# `CRC::Calculate` with `CRC::CRC_32()`

The vendored `CRC.h` computes a checksum byte by byte and, inside a byte, bit by bit; for
reflected parameters the register is shifted to the right and the polynomial is used in
reversed bit order. The datagram code calls it with the parameters `CRC_32` only.

Everything about datagrams is proved for an arbitrary checksum function `crc` on byte
strings; `CRC.crc32` is the function the programs use.
-/

namespace Rechnernetze.Bft

open Lib

namespace CRC

/-- `CRC::Parameters<crcpp_uint32, 32>`. -/
structure Parameters where
  polynomial : UInt32
  initialValue : UInt32
  finalXOR : UInt32
  reflectInput : Bool
  reflectOutput : Bool

/-- The loop of `CRC::Reflect`: move `numBits` bits from `value` to the other end of
`reversedValue`. -/
def reflectLoop : ℕ → UInt32 → UInt32 → UInt32
  | 0, _, reversedValue => reversedValue
  | numBits + 1, value, reversedValue =>
    reflectLoop numBits (value >>> 1) ((reversedValue <<< 1) ||| (value &&& 1))

def reflect (value : UInt32) (numBits : ℕ) : UInt32 := reflectLoop numBits value 0

/-- One turn of the inner loop of `CRC::CalculateRemainder` for reflected input. -/
def shiftBit (polynomial remainder : UInt32) : UInt32 :=
  if remainder &&& 1 = 1 then (remainder >>> 1) ^^^ polynomial else remainder >>> 1

/-- The turn of the outer loop for one byte. -/
def shiftByte (polynomial remainder : UInt32) (byte : UInt8) : UInt32 :=
  (shiftBit polynomial)^[8] (remainder ^^^ byte.toUInt32)

/-- `CRC::CalculateRemainder` for reflected input. -/
def calculateRemainder (data : Bytes) (parameters : Parameters) : UInt32 :=
  data.foldl (shiftByte (reflect parameters.polynomial 32)) parameters.initialValue

/-- `CRC::Calculate`; the register is reflected at the end when only one of input and
output is. -/
def calculate (data : Bytes) (parameters : Parameters) : UInt32 :=
  let remainder := calculateRemainder data parameters
  let remainder :=
    if parameters.reflectInput ≠ parameters.reflectOutput then reflect remainder 32
    else remainder
  remainder ^^^ parameters.finalXOR

/-- `CRC::CRC_32()`. -/
def crc_32 : Parameters where
  polynomial := 0x04C11DB7
  initialValue := 0xFFFFFFFF
  finalXOR := 0xFFFFFFFF
  reflectInput := true
  reflectOutput := true

def crc32 (data : Bytes) : UInt32 := calculate data crc_32

/-- The check value that `CRC.h` documents for `CRC_32`, on the digits `1` to `9`. -/
example : crc32 [49, 50, 51, 52, 53, 54, 55, 56, 57] = 0xCBF43926 := by decide +kernel

end CRC

end Rechnernetze.Bft
