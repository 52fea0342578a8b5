import SimpleOlap.Lib.Bytes

/-!
# Text as bytes

* `ascii`: the bytes of a text; `nameText`: a name as text again.
* `decimal`, `signedDecimal`: numbers as `std::to_string` prints them.
* `takeWhile_append_boundary`, `append_inj_of_class`: where a piece of a text ends.
* `decimalValue`: the number of a row of digits (`decimalValue_decimal`).
-/

namespace SimpleOlap.Lib

/-- The bytes of a text of ASCII characters. -/
def ascii (text : List Char) : Bytes := text.map Char.toUInt8

/-- A name as text. -/
def nameText (name : Bytes) : String := String.ofList (name.map fun b => Char.ofNat b.toNat)

/-- The decimal digits of a number. -/
def decimal (n : ℕ) : Bytes := ascii (Nat.toDigits 10 n)

/-- The decimal digits of an integer, after its sign. -/
def signedDecimal (z : ℤ) : Bytes := if z < 0 then ascii ['-'] ++ decimal z.natAbs else decimal z.natAbs

/-- The number that a row of decimal digits denotes. -/
def decimalValue (digits : Bytes) : ℕ := digits.foldl (fun n c => 10 * n + (c.toNat - 48)) 0

/-- A digit is one byte. -/
theorem toNat_toUInt8_of_isDigit {c : Char} (h : c.isDigit = true) : c.toUInt8.toNat = c.toNat := by
  have hle : c.toNat ≤ 57 := by
    have := (Bool.and_eq_true_iff.mp h).2
    exact of_decide_eq_true this
  show c.toNat % 2 ^ 8 = c.toNat
  exact Nat.mod_eq_of_lt (by omega)

theorem decimalValue_decimal (n : ℕ) : decimalValue (decimal n) = n := by
  have hfold : ∀ (l : List Char) (init : ℕ), (∀ c ∈ l, c.isDigit = true) →
      (ascii l).foldl (fun n c => 10 * n + (c.toNat - 48)) init = Nat.ofDigitChars 10 l init := by
    intro l
    induction l with
    | nil => exact fun _ _ => rfl
    | cons c l ih =>
      intro init h
      rw [Nat.ofDigitChars_cons, ← ih _ fun d hd => h d (List.mem_cons_of_mem c hd)]
      show List.foldl _ (10 * init + (c.toUInt8.toNat - 48)) (ascii l) = _
      rw [toNat_toUInt8_of_isDigit (h c List.mem_cons_self)]
      rfl
  rw [decimalValue, decimal, hfold _ _ fun c hc =>
    Nat.isDigit_of_mem_toDigits (by decide) (by decide) hc]
  exact Nat.ofDigitChars_toDigits (by decide) (by decide)

/-- Characters of a class, up to one that is not of it. -/
theorem takeWhile_append_boundary {p : UInt8 → Bool} {bs t : Bytes} (h : ∀ c ∈ bs, p c = true)
    (ht : ∀ c ∈ t.head?, p c = false) : (bs ++ t).takeWhile p = bs ∧ (bs ++ t).dropWhile p = t := by
  induction bs with
  | nil =>
    cases t with
    | nil => exact ⟨rfl, rfl⟩
    | cons c t =>
      have hc : p c = false := ht c rfl
      rw [List.nil_append, List.takeWhile_cons_of_neg (by simp [hc]), List.dropWhile_cons_of_neg (by simp [hc])]
      exact ⟨rfl, rfl⟩
  | cons c bs ih =>
    obtain ⟨htake, hdrop⟩ := ih fun d hd => h d (List.mem_cons_of_mem c hd)
    have hc : p c = true := h c List.mem_cons_self
    rw [List.cons_append, List.takeWhile_cons_of_pos hc, List.dropWhile_cons_of_pos hc, htake, hdrop]
    exact ⟨rfl, rfl⟩

/-- **Two texts of a class of characters** that others follow are the same where the whole is. -/
theorem append_inj_of_class {p : UInt8 → Bool} {as bs s t : Bytes} (ha : ∀ c ∈ as, p c = true)
    (hb : ∀ c ∈ bs, p c = true) (hs : ∀ c ∈ s.head?, p c = false) (ht : ∀ c ∈ t.head?, p c = false)
    (h : as ++ s = bs ++ t) : as = bs ∧ s = t := by
  obtain ⟨htakeA, hdropA⟩ := takeWhile_append_boundary ha hs
  obtain ⟨htakeB, hdropB⟩ := takeWhile_append_boundary hb ht
  rw [h] at htakeA hdropA
  exact ⟨htakeA.symm.trans htakeB, hdropA.symm.trans hdropB⟩

theorem decimal_injective {m n : ℕ} (h : decimal m = decimal n) : m = n := by
  rw [← decimalValue_decimal m, h, decimalValue_decimal]

end SimpleOlap.Lib
