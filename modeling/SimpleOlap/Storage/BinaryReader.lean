import SimpleOlap.Storage.Serialization

/-!
# The binary reader

`BinaryReader` reads from a buffer at an offset that its calls share. Whether a read is in range is checked by
`offset + size > size_` in the arithmetic of `size_t`, where the sum can wrap. Source: `serialization.h`.

* `BinaryReader`, `Call`, `Call.apply`: the reader, its calls, and what a call leaves, returns and reads.
* `BinaryReader.Safe`: a call reads inside the buffer, leaves the offset there, and does not move it when it
  throws. `NoWrap`: the sum of its check does not wrap.
* `safe_iff`: of a call; `always_safe_iff`: of every call of a run.
* `fixed_eq_decoder`: where nothing wraps a read is that of the decoders of the file formats.
-/

namespace SimpleOlap

open Lib

/-! ## Readers and calls -/

/-- Source: BinaryReader. Its size is a `size_t`. -/
structure BinaryReader where
  data : Bytes
  offset : UInt64
  size_lt : data.length < 2 ^ 64

namespace BinaryReader

/-- A reader of a buffer. -/
def ofData (data : Bytes) (h : data.length < 2 ^ 64) : BinaryReader := ⟨data, 0, h⟩

/-- Source: GetSize. -/
def size (r : BinaryReader) : UInt64 := UInt64.ofNat r.data.length

/-- Bytes that are read: the first one, and how many. -/
structure Access where
  start : ℕ
  count : ℕ

/-- What a call returns. -/
inductive Value
  | number (n : ℕ)
  | bytes (bs : Bytes)
  | nothing
  deriving DecidableEq

/-- What a call does: the reader after it, what it returns or throws, and the bytes that it reads. -/
structure Outcome where
  reader : BinaryReader
  result : Except String Value
  accesses : List Access

/-- The reader moved forward. -/
def advance (r : BinaryReader) (n : UInt64) : BinaryReader := { r with offset := r.offset + n }

/-- `n` bytes at the offset. -/
def bytesAt (r : BinaryReader) (n : UInt64) : Bytes := (r.data.drop r.offset.toNat).take n.toNat

/-- The bounds check of a read of `n` bytes, and the read. -/
def fixed (n : UInt64) (error : String) (value : Bytes → Value) (r : BinaryReader) : Outcome :=
  if r.size < r.offset + n then ⟨r, .error error, []⟩
  else ⟨r.advance n, .ok (value (r.bytesAt n)), [⟨r.offset.toNat, n.toNat⟩]⟩

/-- Source: ReadUInt8. -/
def readUInt8 : BinaryReader → Outcome := fixed 1 "BinaryReader::ReadUInt8 - out of range" (.number ∘ leNat)

/-- Source: ReadUInt32. -/
def readUInt32 : BinaryReader → Outcome := fixed 4 "BinaryReader::ReadUInt32 - out of range" (.number ∘ leNat)

/-- Source: ReadUInt64. -/
def readUInt64 : BinaryReader → Outcome := fixed 8 "BinaryReader::ReadUInt64 - out of range" (.number ∘ leNat)

/-- Source: ReadRaw. -/
def readRaw (n : UInt64) : BinaryReader → Outcome := fixed n "BinaryReader::ReadRaw - out of range" .bytes

/-- Source: ReadString: the length is consumed also where the content is out of range. -/
def readString (r : BinaryReader) : Outcome :=
  let length := readUInt32 r
  match length.result with
  | .ok (.number n) =>
    let content := fixed (UInt64.ofNat n) "BinaryReader::ReadString - out of range" .bytes length.reader
    { content with accesses := length.accesses ++ content.accesses }
  | _ => length

/-- Source: Skip. -/
def skip (n : UInt64) (r : BinaryReader) : Outcome :=
  if r.size < r.offset + n then ⟨r, .error "BinaryReader::Skip - out of range", []⟩
  else ⟨r.advance n, .ok .nothing, []⟩

/-- A call. -/
inductive Call
  | readUInt8
  | readUInt32
  | readUInt64
  | readString
  | readRaw (size : UInt64)
  | skip (bytes : UInt64)
  deriving DecidableEq

/-- A call on a reader. -/
def Call.apply : Call → BinaryReader → Outcome
  | readUInt8 => BinaryReader.readUInt8
  | readUInt32 => BinaryReader.readUInt32
  | readUInt64 => BinaryReader.readUInt64
  | readString => BinaryReader.readString
  | readRaw size => BinaryReader.readRaw size
  | skip bytes => BinaryReader.skip bytes

/-! ## Safe calls -/

/-- The offset is in the buffer, or at its end. -/
def InRange (r : BinaryReader) : Prop := r.offset ≤ r.size

/-- No byte outside of the buffer is read. -/
def Outcome.Inside (o : Outcome) (r : BinaryReader) : Prop :=
  ∀ access ∈ o.accesses, ∀ i, access.start ≤ i → i < access.start + access.count → i < r.data.length

/-- What a call promises: it reads inside the buffer, leaves the offset there, and does not move it where it
throws, unless it is a ReadString. -/
structure Safe (r : BinaryReader) (call : Call) : Prop where
  inside : (call.apply r).Inside r
  inRange : (call.apply r).reader.InRange
  unmoved : call ≠ .readString → ∀ e, (call.apply r).result = .error e →
    (call.apply r).reader.offset = r.offset

/-- A read of `n` bytes at the offset does not reach the end of `size_t`. -/
def Below (r : BinaryReader) (n : ℕ) : Prop := r.offset.toNat + n < 2 ^ 64

/-- The sums of the checks before the reads of a call do not wrap. -/
def NoWrap (r : BinaryReader) : Call → Prop
  | .readUInt8 => r.Below 1
  | .readUInt32 => r.Below 4
  | .readUInt64 => r.Below 8
  | .readRaw size => r.Below size.toNat
  | .skip _ => True
  | .readString => r.Below 4 ∧
      (r.offset.toNat + 4 ≤ r.data.length → r.Below (4 + leNat (r.bytesAt 4)))

variable {r : BinaryReader}

/-- The size is not wrapped. -/
@[simp] theorem toNat_size (r : BinaryReader) : r.size.toNat = r.data.length := Nat.mod_eq_of_lt r.size_lt

/-- In range is at most at the end. -/
theorem inRange_iff : r.InRange ↔ r.offset.toNat ≤ r.data.length := by
  rw [InRange, UInt64.le_iff_toNat_le, toNat_size]

/-- The position after an advance. -/
theorem toNat_offset_advance (n : UInt64) :
    (r.advance n).offset.toNat = (r.offset.toNat + n.toNat) % 2 ^ 64 := UInt64.toNat_add _ _

/-- The check fails. -/
theorem size_lt_iff (n : UInt64) :
    r.size < r.offset + n ↔ r.data.length < (r.offset.toNat + n.toNat) % 2 ^ 64 := by
  rw [UInt64.lt_iff_toNat_lt, toNat_size, UInt64.toNat_add]

/-- A sum that wraps passes the check. -/
theorem not_size_lt_of_wrap (h : r.InRange) {n : UInt64} (hwrap : ¬ r.Below n.toNat) :
    ¬ r.size < r.offset + n := by
  have hle := inRange_iff.mp h
  have hoffset := r.offset.toNat_lt
  have hn := n.toNat_lt
  rw [Below] at hwrap
  rw [size_lt_iff]
  omega

/-- Without wrapping, the check fails exactly where the bytes are not there. -/
theorem size_lt_iff_of_below {n : UInt64} (hbelow : r.Below n.toNat) :
    r.size < r.offset + n ↔ r.data.length < r.offset.toNat + n.toNat := by
  rw [size_lt_iff, Nat.mod_eq_of_lt hbelow]

section

variable {n : UInt64} {error : String} {value : Bytes → Value}

/-- A read past the end. -/
theorem fixed_of_lt (h : r.size < r.offset + n) : fixed n error value r = ⟨r, .error error, []⟩ := if_pos h

/-- A read inside the data. -/
theorem fixed_of_not_lt (h : ¬ r.size < r.offset + n) :
    fixed n error value r = ⟨r.advance n, .ok (value (r.bytesAt n)), [⟨r.offset.toNat, n.toNat⟩]⟩ := if_neg h

/-- A read keeps the reader in range. -/
theorem inRange_fixed (h : r.InRange) : (fixed n error value r).reader.InRange := by
  by_cases hcheck : r.size < r.offset + n
  · rw [fixed_of_lt hcheck]
    exact h
  · rw [fixed_of_not_lt hcheck]
    exact UInt64.not_lt.mp hcheck

/-- A read that fails does not move. -/
theorem unmoved_fixed {e : String} (h : (fixed n error value r).result = .error e) :
    (fixed n error value r).reader.offset = r.offset := by
  by_cases hcheck : r.size < r.offset + n
  · rw [fixed_of_lt hcheck]
  · rw [fixed_of_not_lt hcheck] at h
    cases h

/-- **A read stays inside the buffer if and only if the sum of its check does not wrap.** -/
theorem inside_fixed_iff (h : r.InRange) : (fixed n error value r).Inside r ↔ r.Below n.toNat := by
  have hle := inRange_iff.mp h
  constructor
  · intro hinside
    by_contra hwrap
    rw [fixed_of_not_lt (not_size_lt_of_wrap h hwrap)] at hinside
    have hlast := hinside _ List.mem_cons_self r.data.length hle
    have hlt := r.size_lt
    rw [Below] at hwrap
    exact absurd (hlast (by simp only; omega)) (Nat.lt_irrefl _)
  · intro hbelow
    by_cases hcheck : r.size < r.offset + n
    · rw [fixed_of_lt hcheck]
      exact fun access hmem => absurd hmem List.not_mem_nil
    · rw [fixed_of_not_lt hcheck]
      rw [size_lt_iff_of_below hbelow] at hcheck
      intro access hmem i _ hi
      obtain rfl := List.mem_singleton.mp hmem
      exact hi.trans_le (Nat.not_lt.mp hcheck)

/-- Where nothing wraps, a read is that of the decoders on the bytes from the offset on. -/
theorem fixed_eq_decoder (h : r.InRange) (hbelow : r.Below n.toNat) :
    match Decoder.take n.toNat (r.data.drop r.offset.toNat) with
    | some (bs, rest) => (fixed n error value r).result = .ok (value bs) ∧
        (fixed n error value r).reader.data.drop (fixed n error value r).reader.offset.toNat = rest
    | none => (fixed n error value r).result = .error error ∧ (fixed n error value r).reader = r := by
  have hle := inRange_iff.mp h
  rw [Decoder.take, List.length_drop]
  by_cases hcheck : r.size < r.offset + n
  · have hshort := (size_lt_iff_of_below hbelow).mp hcheck
    rw [if_neg (by omega), fixed_of_lt hcheck]
    exact ⟨rfl, rfl⟩
  · have hfits := Nat.not_lt.mp (mt (size_lt_iff_of_below hbelow).mpr hcheck)
    rw [if_pos (by omega), fixed_of_not_lt hcheck]
    refine ⟨rfl, ?_⟩
    rw [toNat_offset_advance, Nat.mod_eq_of_lt hbelow, List.drop_drop]
    rfl

end

/-! ## Each call -/

/-- A read is safe where its end does not wrap. -/
theorem safe_fixed_iff {call : Call} {n : UInt64} {error : String} {value : Bytes → Value}
    (hcall : call.apply = fixed n error value) (h : r.InRange) : Safe r call ↔ r.Below n.toNat := by
  rw [← inside_fixed_iff h]
  constructor
  · intro hsafe
    exact hcall ▸ hsafe.inside
  · intro hinside
    exact ⟨by rwa [hcall], by rw [hcall]; exact inRange_fixed h, fun _ e he => by
      rw [hcall] at he ⊢
      exact unmoved_fixed he⟩

/-- A skip reads nothing. -/
theorem safe_skip (h : r.InRange) (n : UInt64) : Safe r (.skip n) := by
  have hskip : (Call.skip n).apply r = if r.size < r.offset + n then
      ⟨r, .error "BinaryReader::Skip - out of range", []⟩ else ⟨r.advance n, .ok .nothing, []⟩ := rfl
  by_cases hcheck : r.size < r.offset + n
  · rw [if_pos hcheck] at hskip
    refine ⟨?_, ?_, fun _ e _ => ?_⟩
    · rw [hskip]
      exact fun access hmem => absurd hmem List.not_mem_nil
    · rw [hskip]
      exact h
    · rw [hskip]
  · rw [if_neg hcheck] at hskip
    refine ⟨?_, ?_, fun _ e he => ?_⟩
    · rw [hskip]
      exact fun access hmem => absurd hmem List.not_mem_nil
    · rw [hskip]
      exact UInt64.not_lt.mp hcheck
    · rw [hskip] at he
      cases he

/-- The length of a string has 32 bits. -/
theorem toNat_stringLength (r : BinaryReader) :
    (UInt64.ofNat (leNat (r.bytesAt 4))).toNat = leNat (r.bytesAt 4) := by
  have hlen : (r.bytesAt 4).length ≤ 4 := List.length_take_le _ _
  have hlt := (leNat_lt (r.bytesAt 4)).trans_le (Nat.pow_le_pow_right (by decide : 0 < 256) hlen)
  exact Nat.mod_eq_of_lt (hlt.trans (by decide))

/-- The content of a string, behind its length. -/
def content (r : BinaryReader) : Outcome :=
  fixed (UInt64.ofNat (leNat (r.bytesAt 4))) "BinaryReader::ReadString - out of range" .bytes (r.advance 4)

/-- A string whose length cannot be read. -/
theorem readString_of_lt (h : r.size < r.offset + 4) : readString r = readUInt32 r := by
  rw [readString, readUInt32, fixed_of_lt h]

/-- A string whose length is read. -/
theorem readString_of_not_lt (h : ¬ r.size < r.offset + 4) :
    readString r =
      { r.content with accesses := (readUInt32 r).accesses ++ r.content.accesses } := by
  rw [readString, readUInt32, fixed_of_not_lt h]
  rfl

/-- A string is safe where no sum wraps. -/
theorem safe_readString_iff (h : r.InRange) : Safe r .readString ↔ NoWrap r .readString := by
  have hlength : (readUInt32 r).Inside r ↔ r.Below 4 := inside_fixed_iff h
  by_cases hcheck : r.size < r.offset + 4
  · have hbelow : r.Below 4 := by
      by_contra hwrap
      exact not_size_lt_of_wrap (n := 4) h hwrap hcheck
    have hshort := (size_lt_iff_of_below (n := 4) hbelow).mp hcheck
    have happly : Call.readString.apply r = readUInt32 r := readString_of_lt hcheck
    refine iff_of_true ⟨?_, ?_, fun hne => absurd rfl hne⟩ ⟨hbelow, fun hfits => absurd hshort (Nat.not_lt.mpr hfits)⟩
    · rw [happly]
      exact hlength.mpr hbelow
    · rw [happly]
      exact inRange_fixed h
  · have hnext : (r.advance 4).InRange := UInt64.not_lt.mp hcheck
    have hcontent : r.content.Inside r ↔ (r.advance 4).Below (leNat (r.bytesAt 4)) := by
      rw [← toNat_stringLength r]
      exact inside_fixed_iff hnext
    have happly : Call.readString.apply r = _ := readString_of_not_lt hcheck
    have hsplit : (Call.readString.apply r).Inside r ↔ (readUInt32 r).Inside r ∧ r.content.Inside r := by
      rw [happly]
      exact List.forall_mem_append
    have hinside : (Call.readString.apply r).Inside r ↔ NoWrap r .readString := by
      rw [hsplit, hlength, hcontent, NoWrap]
      refine and_congr_right fun hbelow => ?_
      have hfits : r.offset.toNat + 4 ≤ r.data.length :=
        Nat.not_lt.mp (mt (size_lt_iff_of_below (n := 4) hbelow).mpr hcheck)
      have hoffset : (r.advance 4).offset.toNat = r.offset.toNat + 4 :=
        (toNat_offset_advance 4).trans (Nat.mod_eq_of_lt hbelow)
      have hsum : (r.advance 4).Below (leNat (r.bytesAt 4)) ↔ r.Below (4 + leNat (r.bytesAt 4)) := by
        rw [Below, Below, hoffset, Nat.add_assoc]
      exact hsum.trans (imp_iff_right hfits).symm
    refine ⟨fun hsafe => hinside.mp hsafe.inside, fun hwrap => ⟨hinside.mpr hwrap, ?_, fun hne => absurd rfl hne⟩⟩
    rw [happly]
    exact inRange_fixed hnext

/-- **A call is safe if and only if the sum of its check does not wrap.** -/
theorem safe_iff (h : r.InRange) (call : Call) : Safe r call ↔ NoWrap r call := by
  cases call with
  | readUInt8 => exact safe_fixed_iff (n := 1) rfl h
  | readUInt32 => exact safe_fixed_iff (n := 4) rfl h
  | readUInt64 => exact safe_fixed_iff (n := 8) rfl h
  | readString => exact safe_readString_iff h
  | readRaw size => exact safe_fixed_iff (n := size) rfl h
  | skip bytes => exact iff_of_true (safe_skip h bytes) trivial

/-! ## Runs -/

/-- A property of every call of a run, at the reader on which it is made. A call that throws is caught, and the
reader goes on from where the call left it. -/
def Always (P : BinaryReader → Call → Prop) : List Call → BinaryReader → Prop
  | [], _ => True
  | call :: calls, r => P r call ∧ Always P calls (call.apply r).reader

/-- Sequences of calls. -/
theorem always_iff (h : r.InRange) (calls : List Call) : Always Safe calls r ↔ Always NoWrap calls r := by
  induction calls generalizing r with
  | nil => exact Iff.rfl
  | cons call calls ih =>
    rw [Always, Always, ← safe_iff h call]
    exact and_congr_right fun hsafe => ih hsafe.inRange

/-- A new reader is in range. -/
theorem inRange_ofData (data : Bytes) (h : data.length < 2 ^ 64) : (ofData data h).InRange :=
  inRange_iff.mpr (Nat.zero_le _)

/-- **A reader reads inside its buffer, and stays there, if and only if no sum of a check before a read wraps.**
For every buffer and every sequence of calls. -/
theorem always_safe_iff (data : Bytes) (h : data.length < 2 ^ 64) (calls : List Call) :
    Always Safe calls (ofData data h) ↔ Always NoWrap calls (ofData data h) :=
  always_iff (inRange_ofData data h) calls

/-- A byte is read, and two are skipped that are not there. -/
theorem always_safe_iff_skip : Always Safe [.readUInt8, .skip 2] (ofData [7] (by decide)) :=
  (always_safe_iff [7] (by decide) [.readUInt8, .skip 2]).mpr ⟨(by decide : 0 + 1 < 2 ^ 64), trivial, trivial⟩

/-- **A read of `2 ^ 64 - 1` bytes behind the first one passes the check.** -/
theorem readRaw_wraps :
    ¬ Always Safe [.readUInt8, .readRaw 18446744073709551615] (ofData [7] (by decide)) := by
  rw [always_iff (inRange_ofData [7] (by decide))]
  rintro ⟨-, hbelow, -⟩
  have hsum : 1 + 18446744073709551615 < 2 ^ 64 := hbelow
  exact absurd hsum (by decide)

end BinaryReader

end SimpleOlap
