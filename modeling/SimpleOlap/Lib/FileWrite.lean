import SimpleOlap.Lib.Bytes

/-!
# Writing a whole file in place

Opening a file for a truncating write empties it; a write that fails or is interrupted leaves some
prefix of the bytes. `WriteOutcome` is how far one such write gets.
-/

namespace SimpleOlap.Lib

/-- How a truncating whole-file write ends. -/
inductive WriteOutcome
  /-- every byte was written and the writer reports success -/
  | complete
  /-- the file could not be opened; nothing changed -/
  | notOpened
  /-- the write stopped with `n` bytes in the file, and the writer reports failure or never reports -/
  | stopped (n : ℕ)
  /-- all went well until the close, which left only `n` bytes in the file -/
  | lostAtClose (n : ℕ)
  deriving DecidableEq, Repr

namespace WriteOutcome

/-- Whether a writer that does not look at the close reports success. -/
def ok : WriteOutcome → Bool
  | complete | lostAtClose _ => true
  | _ => false

/-- Whether a writer that checks the close reports success. -/
def okClosed : WriteOutcome → Bool
  | complete => true
  | _ => false

/-- The file after the write of `new` over `old` (`none`: no such file). -/
def apply (o : WriteOutcome) (old : Option Bytes) (new : Bytes) : Option Bytes :=
  match o with
  | complete => some new
  | notOpened => old
  | stopped n | lostAtClose n => some (new.take n)

@[simp] theorem ok_complete : complete.ok = true := rfl
@[simp] theorem ok_notOpened : notOpened.ok = false := rfl
@[simp] theorem ok_stopped (n : ℕ) : (stopped n).ok = false := rfl
@[simp] theorem ok_lostAtClose (n : ℕ) : (lostAtClose n).ok = true := rfl

/-- The only outcome that says so. -/
theorem okClosed_iff {o : WriteOutcome} : o.okClosed = true ↔ o = complete := by
  cases o <;> simp [okClosed]

@[simp] theorem apply_complete (old : Option Bytes) (new : Bytes) :
    complete.apply old new = some new := rfl

@[simp] theorem apply_notOpened (old : Option Bytes) (new : Bytes) :
    notOpened.apply old new = old := rfl

@[simp] theorem apply_stopped (n : ℕ) (old : Option Bytes) (new : Bytes) :
    (stopped n).apply old new = some (new.take n) := rfl

@[simp] theorem apply_lostAtClose (n : ℕ) (old : Option Bytes) (new : Bytes) :
    (lostAtClose n).apply old new = some (new.take n) := rfl

/-- The write left a file that is neither the old one nor the whole new one. -/
def Tears (o : WriteOutcome) (new : Bytes) : Prop :=
  match o with
  | stopped n | lostAtClose n => n < new.length
  | _ => False

/-- Whether a file is torn can be decided. -/
instance (o : WriteOutcome) (new : Bytes) : Decidable (o.Tears new) :=
  match o with
  | complete => inferInstanceAs (Decidable False)
  | notOpened => inferInstanceAs (Decidable False)
  | stopped _ => inferInstanceAs (Decidable (_ < _))
  | lostAtClose _ => inferInstanceAs (Decidable (_ < _))

/-- A write that does not tear leaves the old file or the whole new one. -/
theorem apply_of_not_tears {o : WriteOutcome} {new : Bytes} (h : ¬ o.Tears new)
    (old : Option Bytes) : o.apply old new = old ∨ o.apply old new = some new := by
  cases o with
  | complete => exact Or.inr rfl
  | notOpened => exact Or.inl rfl
  | stopped n | lostAtClose n =>
    have hn : new.length ≤ n := Nat.not_lt.mp h
    exact Or.inr (congrArg some (List.take_of_length_le hn))

/-- A write that tears leaves a proper prefix of the new file. -/
theorem apply_of_tears {o : WriteOutcome} {new : Bytes} (h : o.Tears new) (old : Option Bytes) :
    ∃ n < new.length, o.apply old new = some (new.take n) := by
  cases o with
  | complete | notOpened => exact absurd h not_false
  | stopped n | lostAtClose n => exact ⟨n, h, rfl⟩

/-- A write reported as successful that does not tear left the whole new file. -/
theorem apply_of_ok {o : WriteOutcome} {new : Bytes} (hok : o.ok = true) (h : ¬ o.Tears new)
    (old : Option Bytes) : o.apply old new = some new := by
  cases o with
  | complete => rfl
  | notOpened | stopped n => simp at hok
  | lostAtClose n => exact congrArg some (List.take_of_length_le (Nat.not_lt.mp h))

/-- The write did what the writer reports: the whole new file is there, or nothing has changed. -/
def Settles (o : WriteOutcome) (new : Bytes) : Prop :=
  match o with
  | complete | notOpened => True
  | stopped _ => False
  | lostAtClose n => new.length ≤ n

/-- Such a write leaves the file that is reported. -/
theorem apply_of_settles {o : WriteOutcome} {new : Bytes} (h : o.Settles new) (old : Option Bytes) :
    o.apply old new = if o.ok then some new else old := by
  cases o with
  | complete | notOpened => rfl
  | stopped n => exact absurd h not_false
  | lostAtClose n => exact congrArg some (List.take_of_length_le h)

end WriteOutcome

end SimpleOlap.Lib
