import SimpleOlap.Lib.Bytes

/-!
# Prefix decoders

A `Decoder` reads a value off the front of a byte sequence and leaves the rest, or fails.

* `Decodes p bs a`: on `bs` followed by anything, `p` yields `a` and leaves exactly what follows.
  This is the round-trip statement of an encoder's output, and it composes (`Decodes.bind`,
  `Decodes.map`, `Decodes.repeatN`).
* `Stable p`: what `p` has read does not change when bytes are added behind. With it an encoding is
  prefix free: `p` fails on every proper prefix of a sequence it decodes (`Decodes.prefix_eq_none`).
* `Yields p P`: whatever `p` reads, from whatever bytes, satisfies `P`.
-/

namespace SimpleOlap.Lib

/-- A reader of a value off the front of a byte sequence. -/
abbrev Decoder := StateT Bytes Option

namespace Decoder

/-- Read exactly `n` bytes. -/
def take (n : ℕ) : Decoder Bytes := fun bs =>
  if n ≤ bs.length then some (bs.take n, bs.drop n) else none

/-- Read a `k`-byte little-endian number. -/
def uintLE (k : ℕ) : Decoder ℕ := leNat <$> take k

/-- Read `n` values in a row. -/
def repeatN {α : Type} (p : Decoder α) : ℕ → Decoder (List α)
  | 0 => pure []
  | n + 1 => do
    let a ← p
    let as ← repeatN p n
    return a :: as

end Decoder

/-! ## Round trips -/

/-- On `bs` followed by anything, `p` yields `a` and leaves exactly what follows. -/
def Decodes {α : Type} (p : Decoder α) (bs : Bytes) (a : α) : Prop :=
  ∀ t, p (bs ++ t) = some (a, t)

namespace Decodes

variable {α β : Type}

/-- No bytes for a constant. -/
theorem pure (a : α) : Decodes (pure a) [] a := fun _ => rfl

/-- The bytes of both parts, one behind the other. -/
theorem bind {p : Decoder α} {f : α → Decoder β} {bs cs : Bytes} {a : α} {b : β}
    (hp : Decodes p bs a) (hf : Decodes (f a) cs b) : Decodes (p >>= f) (bs ++ cs) b := by
  intro t
  show (p (bs ++ cs ++ t)).bind (fun x => f x.1 x.2) = some (b, t)
  rw [List.append_assoc, hp (cs ++ t)]
  exact hf t

/-- A function of what is read. -/
theorem map {p : Decoder α} {bs : Bytes} {a : α} (g : α → β) (hp : Decodes p bs a) :
    Decodes (g <$> p) bs (g a) := by
  intro t
  show (p (bs ++ t)).bind (fun x => some (g x.1, x.2)) = some (g a, t)
  rw [hp t]
  rfl

/-- As many bytes as there are. -/
theorem take (bs : Bytes) : Decodes (Decoder.take bs.length) bs bs := by
  intro t
  simp [Decoder.take]

/-- A number of `k` bytes. -/
theorem uintLE {k n : ℕ} (h : n < 256 ^ k) : Decodes (Decoder.uintLE k) (leBytes k n) n := by
  have htake : Decodes (Decoder.take k) (leBytes k n) (leBytes k n) := by
    have := take (leBytes k n)
    rwa [length_leBytes] at this
  have := map leNat htake
  rwa [leNat_leBytes h] at this

/-- Values written one after another are read back one after another. -/
theorem repeatN {p : Decoder α} {enc : α → Bytes} :
    ∀ {as : List α}, (∀ a ∈ as, Decodes p (enc a) a) →
      Decodes (Decoder.repeatN p as.length) (as.flatMap enc) as
  | [], _ => pure []
  | a :: as, h => by
    rw [List.flatMap_cons]
    refine bind (h a List.mem_cons_self) ?_
    rw [← List.append_nil (as.flatMap enc)]
    exact bind (repeatN fun x hx => h x (List.mem_cons_of_mem a hx)) (pure (a :: as))

/-- A decoder that gets its own bytes leaves none. -/
theorem run_eq {p : Decoder α} {bs : Bytes} {a : α} (h : Decodes p bs a) : p bs = some (a, []) := by
  have := h []
  rwa [List.append_nil] at this

end Decodes

/-! ## Stability and prefix freedom -/

/-- Bytes added behind do not change what a decoder has read. -/
def Stable {α : Type} (p : Decoder α) : Prop :=
  ∀ {bs : Bytes} {a : α} {rest : Bytes} (t : Bytes),
    p bs = some (a, rest) → p (bs ++ t) = some (a, rest ++ t)

namespace Stable

variable {α β : Type}

/-- A constant reads nothing. -/
theorem pure (a : α) : Stable (Pure.pure a : Decoder α) := by
  intro bs b rest t h
  have h' : some (a, bs) = some (b, rest) := h
  cases h'
  rfl

/-- In sequence. -/
theorem bind {p : Decoder α} {f : α → Decoder β} (hp : Stable p) (hf : ∀ a, Stable (f a)) :
    Stable (p >>= f) := by
  intro bs b rest t h
  have h' : (p bs).bind (fun x => f x.1 x.2) = some (b, rest) := h
  rw [Option.bind_eq_some_iff] at h'
  obtain ⟨⟨a, mid⟩, hrun, hnext⟩ := h'
  show (p (bs ++ t)).bind (fun x => f x.1 x.2) = some (b, rest ++ t)
  rw [hp t hrun]
  exact hf a t hnext

/-- A function of what is read. -/
theorem map {p : Decoder α} (g : α → β) (hp : Stable p) : Stable (g <$> p) := by
  intro bs b rest t h
  have h' : (p bs).bind (fun x => some (g x.1, x.2)) = some (b, rest) := h
  rw [Option.bind_eq_some_iff] at h'
  obtain ⟨⟨a, mid⟩, hrun, hnext⟩ := h'
  show (p (bs ++ t)).bind (fun x => some (g x.1, x.2)) = some (b, rest ++ t)
  rw [hp t hrun]
  cases hnext
  rfl

/-- So many bytes. -/
theorem take (n : ℕ) : Stable (Decoder.take n) := by
  intro bs a rest t h
  unfold Decoder.take at h ⊢
  split_ifs at h with hn
  cases h
  have hlen : n ≤ (bs ++ t).length := by
    rw [List.length_append]
    omega
  rw [if_pos hlen, List.take_append_of_le_length hn, List.drop_append_of_le_length hn]

/-- A number of `k` bytes. -/
theorem uintLE (k : ℕ) : Stable (Decoder.uintLE k) := map leNat (take k)

/-- So many items. -/
theorem repeatN {p : Decoder α} (hp : Stable p) : ∀ n, Stable (Decoder.repeatN p n)
  | 0 => pure []
  | n + 1 => bind hp fun _ => bind (repeatN hp n) fun _ => pure _

end Stable

/-! ## What can be read -/

/-- Every value that the decoder reads satisfies `P`. -/
def Yields {α : Type} (p : Decoder α) (P : α → Prop) : Prop :=
  ∀ (bs : Bytes) (a : α) (rest : Bytes), p bs = some (a, rest) → P a

namespace Yields

variable {α β : Type}

/-- A constant. -/
theorem pure {P : α → Prop} {a : α} (h : P a) : Yields (Pure.pure a : Decoder α) P := by
  intro bs b rest hrun
  have hrun' : some (a, bs) = some (b, rest) := hrun
  cases hrun'
  exact h

/-- In sequence. -/
theorem bind {p : Decoder α} {f : α → Decoder β} {P : α → Prop} {Q : β → Prop} (hp : Yields p P)
    (hf : ∀ a, P a → Yields (f a) Q) : Yields (p >>= f) Q := by
  intro bs b rest hrun
  have hrun' : (p bs).bind (fun x => f x.1 x.2) = some (b, rest) := hrun
  obtain ⟨⟨a, mid⟩, hread, hnext⟩ := Option.bind_eq_some_iff.mp hrun'
  exact hf a (hp _ _ _ hread) _ _ _ hnext

/-- A function of what is read. -/
theorem map {p : Decoder α} {P : α → Prop} {Q : β → Prop} {g : α → β} (hp : Yields p P)
    (hg : ∀ a, P a → Q (g a)) : Yields (g <$> p) Q := by
  intro bs b rest hrun
  have hrun' : (p bs).bind (fun x => some (g x.1, x.2)) = some (b, rest) := hrun
  obtain ⟨⟨a, mid⟩, hread, hnext⟩ := Option.bind_eq_some_iff.mp hrun'
  cases hnext
  exact hg a (hp _ _ _ hread)

/-- Nothing is said. -/
theorem trivial (p : Decoder α) : Yields p fun _ => True := by
  intro bs a rest hrun
  exact True.intro

/-- So many bytes. -/
theorem take (n : ℕ) : Yields (Decoder.take n) fun bs => bs.length = n := by
  intro bs a rest hrun
  unfold Decoder.take at hrun
  split_ifs at hrun with hn
  cases hrun
  exact List.length_take_of_le hn

/-- A number of `k` bytes is below `256 ^ k`. -/
theorem uintLE (k : ℕ) : Yields (Decoder.uintLE k) fun n => n < 256 ^ k := by
  refine map (take k) fun bs hbs => ?_
  rw [← hbs]
  exact leNat_lt bs

end Yields

/-- **Prefix freedom**: a stable decoder fails on every proper prefix of what it decodes whole. -/
theorem Decodes.prefix_eq_none {α : Type} {p : Decoder α} (hs : Stable p) {pre suf : Bytes} {a : α}
    (h : Decodes p (pre ++ suf) a) (hsuf : suf ≠ []) : p pre = none := by
  rcases hrun : p pre with _ | ⟨b, rest⟩
  · rfl
  · have hlong := hs suf hrun
    rw [h.run_eq] at hlong
    have hnil : rest ++ suf = [] := by
      have := congrArg (Option.map Prod.snd) hlong
      simpa using this.symm
    exact absurd (List.append_eq_nil_iff.mp hnil).2 hsuf

/-- **A decoder fails on a part of its own bytes.** -/
theorem Decodes.take_eq_none {α : Type} {p : Decoder α} (hs : Stable p) {bs : Bytes} {a : α}
    (h : Decodes p bs a) {n : ℕ} (hn : n < bs.length) : p (bs.take n) = none := by
  have hsplit : bs.take n ++ bs.drop n = bs := List.take_append_drop n bs
  have hne : bs.drop n ≠ [] := by
    intro hnil
    have := congrArg List.length hnil
    simp at this
    omega
  exact Decodes.prefix_eq_none hs (hsplit ▸ h) hne

end SimpleOlap.Lib
