import SimpleOlap.Lib.Codec
import SimpleOlap.Type

/-!
# Binary writer and reader

The primitives of `serialization.h`. A writer is the byte sequence it appends, a reader is a
`Decoder`; a failed reader stands for the exception on reading past the end.

* `decodes_*`: each reader undoes its writer, on values that fit the field.
* `stable_*`: no reader looks behind what it consumes.
-/

namespace SimpleOlap

open Lib

/-! ## Writers -/

/-- Source: `serialization.h` WriteUInt8. -/
def writeUInt8 (value : ℕ) : Bytes := leBytes 1 value

/-- Source: `serialization.h` WriteUInt32. -/
def writeUInt32 (value : ℕ) : Bytes := leBytes 4 value

/-- Source: `serialization.h` WriteUInt64. -/
def writeUInt64 (value : ℕ) : Bytes := leBytes 8 value

/-- The bit pattern of a double, as a 64-bit number. -/
def writeDouble (value : Double) : Bytes := leBytes 8 (binary64.encode value.val)

/-- Length, then content. -/
def writeString (value : Bytes) : Bytes := writeUInt32 value.length ++ value

/-- A vector: its size, then its elements. -/
def writeVector {α : Type} (write : α → Bytes) (xs : List α) : Bytes :=
  writeUInt32 xs.length ++ xs.flatMap write

/-! ## Readers -/

/-- Source: `serialization.h` ReadUInt8. -/
def readUInt8 : Decoder ℕ := Decoder.uintLE 1

/-- Source: `serialization.h` ReadUInt32. -/
def readUInt32 : Decoder ℕ := Decoder.uintLE 4

/-- Source: `serialization.h` ReadUInt64. -/
def readUInt64 : Decoder ℕ := Decoder.uintLE 8

/-- The double a 64-bit pattern denotes. -/
def doubleOfBits (bits : ℕ) : Double := ⟨binary64.decode bits, binary64.mem_decode⟩

/-- Source: `serialization.h` ReadDouble. -/
def readDouble : Decoder Double := doubleOfBits <$> Decoder.uintLE 8

/-- A length, then as many bytes. Source: `serialization.h` ReadString. -/
def readString : Decoder Bytes := do
  let len ← readUInt32
  Decoder.take len

/-- A count, then as many items. -/
def readVector {α : Type} (read : Decoder α) : Decoder (List α) := do
  let count ← readUInt32
  Decoder.repeatN read count

/-! ## Round trips -/

/-- What fits a 32-bit field. -/
def Fits32 (n : ℕ) : Prop := n < 2 ^ 32

/-- Whether a number fits can be decided. -/
instance (n : ℕ) : Decidable (Fits32 n) := inferInstanceAs (Decidable (_ < _))

/-- A byte is read back. -/
theorem decodes_readUInt8 {n : ℕ} (h : n < 256) : Decodes readUInt8 (writeUInt8 n) n :=
  Decodes.uintLE (by simpa using h)

/-- A 32-bit number is read back. -/
theorem decodes_readUInt32 {n : ℕ} (h : Fits32 n) : Decodes readUInt32 (writeUInt32 n) n :=
  Decodes.uintLE h

/-- A 64-bit number is read back. -/
theorem decodes_readUInt64 {n : ℕ} (h : n < 2 ^ 64) : Decodes readUInt64 (writeUInt64 n) n :=
  Decodes.uintLE h

/-- The bits of a double are eight bytes. -/
theorem two_mul_signBit_binary64 : 2 * binary64.signBit = 256 ^ 8 := by decide

/-- A double is read back, NaN as the quiet one. -/
theorem decodes_readDouble (d : Double) : Decodes readDouble (writeDouble d) d := by
  have hlt : binary64.encode d.val < 256 ^ 8 :=
    two_mul_signBit_binary64 ▸ binary64.encode_lt d.property
  have hdec : doubleOfBits (binary64.encode d.val) = d :=
    Subtype.ext (binary64.decode_encode d.property)
  have := Decodes.map doubleOfBits (Decodes.uintLE hlt)
  rwa [hdec] at this

/-- A string is read back. -/
theorem decodes_readString {s : Bytes} (h : Fits32 s.length) :
    Decodes readString (writeString s) s :=
  Decodes.bind (decodes_readUInt32 h) (Decodes.take s)

/-- A vector is read back, where its items are. -/
theorem decodes_readVector {α : Type} {read : Decoder α} {write : α → Bytes} {xs : List α}
    (hlen : Fits32 xs.length) (h : ∀ x ∈ xs, Decodes read (write x) x) :
    Decodes (readVector read) (writeVector write xs) xs :=
  Decodes.bind (decodes_readUInt32 hlen) (Decodes.repeatN h)

/-! ## Stability -/

/-- More bytes change no byte that was read. -/
theorem stable_readUInt8 : Stable readUInt8 := Stable.uintLE 1

/-- More bytes change no 32-bit number that was read. -/
theorem stable_readUInt32 : Stable readUInt32 := Stable.uintLE 4

/-- More bytes change no 64-bit number that was read. -/
theorem stable_readUInt64 : Stable readUInt64 := Stable.uintLE 8

/-- More bytes change no double that was read. -/
theorem stable_readDouble : Stable readDouble := Stable.map _ (Stable.uintLE 8)

/-- More bytes change no string that was read. -/
theorem stable_readString : Stable readString := Stable.bind stable_readUInt32 Stable.take

/-- More bytes change no vector that was read, where its items are stable. -/
theorem stable_readVector {α : Type} {read : Decoder α} (h : Stable read) :
    Stable (readVector read) :=
  Stable.bind stable_readUInt32 (Stable.repeatN h)

end SimpleOlap
