import Mathlib.Data.List.Forall2

/-!
# Passes over lists that may fail

* `mapM_eq_ok`, `mapM_zip_ok`: passes that succeed on each element.
* `mapM_perm`: the order of the elements matters only for which error is met first.
* `bind_eq_ok`: a computation in steps succeeds when each step does.
* `FirstAt`, `mapM_eq_error_iff`: which element a pass fails at.
* `AllReached`, `mapM_says`: which elements a pass comes to, and what its result says of the elements.
* `keepM`: the elements that pass a test, where the test may fail.
* `Alike`: two computations fail both, or both succeed with related results.
-/

namespace SimpleOlap.Lib

/-- A computation in steps, taken apart. -/
theorem bind_eq_ok {α β ε : Type} {x : Except ε α} {f : α → Except ε β} {b : β}
    (h : x >>= f = .ok b) : ∃ a, x = .ok a ∧ f a = .ok b := by
  cases x with
  | error e => cases h
  | ok a => exact ⟨a, rfl, h⟩

/-- A pass whose steps have results. -/
theorem mapM_eq_ok {α β ε : Type} {f : α → Except ε β} {g : α → β} :
    ∀ {xs : List α}, (∀ x ∈ xs, f x = .ok (g x)) → xs.mapM f = .ok (xs.map g)
  | [], _ => rfl
  | x :: xs, h => by
    have htail := mapM_eq_ok fun y hy => h y (List.mem_cons_of_mem x hy)
    rw [List.mapM_cons, h x List.mem_cons_self, htail]
    rfl

/-- Passes whose steps have the same results have the same result. -/
theorem mapM_congr {α β γ ε : Type} {f : α → Except ε γ} {g : β → Except ε γ} {xs : List α} {ys : List β}
    (h : List.Forall₂ (fun x y => f x = g y) xs ys) : xs.mapM f = ys.mapM g := by
  induction h with
  | nil => rfl
  | cons hxy _ ih => rw [List.mapM_cons, List.mapM_cons, hxy, ih]

/-- A pass over calls and their states that succeeds on each. -/
theorem mapM_zip_ok {ι τ σ ε : Type} {P : ι → τ → Prop} {Q : ι → σ → Prop} {calls : List ι}
    {states : List τ} {f : ι × τ → Except ε σ} (h : List.Forall₂ P calls states)
    (hf : ∀ c ∈ calls, ∀ s, P c s → ∃ s', f (c, s) = .ok s' ∧ Q c s') :
    ∃ states', (calls.zip states).mapM f = .ok states' ∧ List.Forall₂ Q calls states' := by
  induction h with
  | nil => exact ⟨[], rfl, .nil⟩
  | @cons c s calls states hcs _ ih =>
    obtain ⟨s', hs', hQ⟩ := hf c List.mem_cons_self s hcs
    obtain ⟨rest, hrest, hQs⟩ := ih fun d hd => hf d (List.mem_cons_of_mem c hd)
    refine ⟨s' :: rest, ?_, .cons hQ hQs⟩
    rw [List.zip_cons_cons, List.mapM_cons, hs', hrest]
    rfl

/-- Two lists beside a third. -/
theorem forall₂_zip {ι τ υ : Type} {P : ι → τ → Prop} {Q : ι → υ → Prop} {calls : List ι}
    {s : List τ} {t : List υ} (hs : List.Forall₂ P calls s) (ht : List.Forall₂ Q calls t) :
    List.Forall₂ (fun c p => P c p.1 ∧ Q c p.2) calls (s.zip t) := by
  induction hs generalizing t with
  | nil => exact .nil
  | cons hp _ ih =>
    cases ht with
    | cons hq hqs => exact .cons ⟨hp, hq⟩ (ih hqs)

/-- A pass succeeds with the results of the elements. -/
theorem mapM_eq_ok_iff {α β ε : Type} {f : α → Except ε β} {xs : List α} {ys : List β} :
    xs.mapM f = .ok ys ↔ xs.map f = ys.map .ok := by
  induction xs generalizing ys with
  | nil =>
    cases ys with
    | nil => exact iff_of_true rfl rfl
    | cons y ys => exact iff_of_false (fun h => nomatch h) (fun h => nomatch h)
  | cons x xs ih =>
    rw [List.mapM_cons]
    cases hx : f x with
    | error e =>
      refine iff_of_false (fun h => nomatch h) fun h => ?_
      cases ys with
      | nil => cases h
      | cons y ys => simp [hx] at h
    | ok y =>
      cases hxs : xs.mapM f with
      | error e =>
        refine iff_of_false (fun h => nomatch h) fun h => ?_
        cases ys with
        | nil => cases h
        | cons z zs =>
          have hzs : xs.mapM f = .ok zs := ih.mpr (by simpa [hx] using (List.cons.inj h).2)
          rw [hxs] at hzs
          cases hzs
      | ok zs =>
        have hmap := ih.mp hxs
        constructor
        · intro h
          cases h
          rw [List.map_cons, hx, hmap]
          rfl
        · intro h
          rw [List.map_cons, hx, hmap, ← List.map_cons] at h
          rw [← List.map_injective_iff.mpr (fun _ _ => Except.ok.inj) h]
          rfl

/-- A pass over elements that each succeed succeeds. -/
theorem mapM_isOk {α β ε : Type} {f : α → Except ε β} {xs : List α}
    (h : ∀ x ∈ xs, ∃ y, f x = .ok y) : ∃ ys, xs.mapM f = .ok ys := by
  induction xs with
  | nil => exact ⟨[], rfl⟩
  | cons x xs ih =>
    obtain ⟨y, hy⟩ := h x List.mem_cons_self
    obtain ⟨ys, hys⟩ := ih fun z hz => h z (List.mem_cons_of_mem x hz)
    refine ⟨y :: ys, ?_⟩
    rw [List.mapM_cons, hy, hys]
    rfl

/-- An element that is bad, with good ones in front of it. -/
def FirstAt {α : Type} (Good Bad : α → Prop) (xs : List α) : Prop :=
  ∃ before x after, xs = before ++ x :: after ∧ (∀ y ∈ before, Good y) ∧ Bad x

/-- The first of the elements decides, unless it is good. -/
theorem firstAt_cons_iff {α : Type} {Good Bad : α → Prop} {x : α} {xs : List α} :
    FirstAt Good Bad (x :: xs) ↔ Bad x ∨ Good x ∧ FirstAt Good Bad xs := by
  constructor
  · rintro ⟨before, y, after, heq, hbefore, hy⟩
    cases before with
    | nil =>
      obtain rfl := (List.cons.inj heq).1
      exact .inl hy
    | cons z before =>
      obtain ⟨rfl, rfl⟩ := List.cons.inj heq
      obtain ⟨hx, hrest⟩ := List.forall_mem_cons.mp hbefore
      exact .inr ⟨hx, before, y, after, rfl, hrest, hy⟩
  · rintro (hx | ⟨hx, before, y, after, rfl, hbefore, hy⟩)
    · exact ⟨[], x, xs, rfl, fun y hy => absurd hy List.not_mem_nil, hx⟩
    · exact ⟨x :: before, y, after, rfl, List.forall_mem_cons.mpr ⟨hx, hbefore⟩, hy⟩

/-- Every element that is reached fits: the first one that is not good is the last. -/
def AllReached {α : Type} (Good Fit : α → Prop) (xs : List α) : Prop :=
  ∀ before x after, xs = before ++ x :: after → (∀ y ∈ before, Good y) → Fit x

/-- The first of the elements is reached, and the others if it is good. -/
theorem allReached_cons_iff {α : Type} {Good Fit : α → Prop} {x : α} {xs : List α} :
    AllReached Good Fit (x :: xs) ↔ Fit x ∧ (Good x → AllReached Good Fit xs) := by
  constructor
  · intro h
    refine ⟨h [] x xs rfl (List.forall_mem_nil _), fun hx before y after heq hbefore => ?_⟩
    exact h (x :: before) y after (congrArg (x :: ·) heq) (List.forall_mem_cons.mpr ⟨hx, hbefore⟩)
  · rintro ⟨hx, hrest⟩ before y after heq hbefore
    cases before with
    | nil => exact (List.cons.inj heq).1 ▸ hx
    | cons z before =>
      obtain ⟨rfl, rfl⟩ := List.cons.inj heq
      obtain ⟨hz, hbefore⟩ := List.forall_mem_cons.mp hbefore
      exact hrest hz before y after rfl hbefore

/-- Where all are good, all are reached. -/
theorem AllReached.forall_mem {α : Type} {Good Fit : α → Prop} {xs : List α} (h : AllReached Good Fit xs)
    (hgood : ∀ x ∈ xs, Good x) : ∀ x ∈ xs, Fit x := by
  intro x hx
  obtain ⟨before, after, rfl⟩ := List.append_of_mem hx
  exact h before x after rfl fun y hy => hgood y (List.mem_append_left _ hy)

/-- A pass fails at the first element that fails, with its error. -/
theorem mapM_eq_error_iff {α β ε : Type} {f : α → Except ε β} {xs : List α} {e : ε} :
    xs.mapM f = .error e ↔ FirstAt (fun x => ∃ y, f x = .ok y) (fun x => f x = .error e) xs := by
  induction xs with
  | nil => exact iff_of_false nofun fun ⟨before, x, after, h, _⟩ => by simp at h
  | cons x xs ih =>
    rw [List.mapM_cons, firstAt_cons_iff, ← ih]
    cases hx : f x with
    | error e' =>
      constructor
      · intro h
        cases h
        exact .inl rfl
      · rintro (h | ⟨⟨y, hy⟩, -⟩)
        · cases h
          rfl
        · cases hy
    | ok y =>
      rw [or_iff_right nofun, and_iff_right ⟨y, rfl⟩]
      cases xs.mapM f with
      | error e' => exact ⟨fun h => by cases h; rfl, fun h => by cases h; rfl⟩
      | ok ys => exact iff_of_false nofun nofun

/-- What a step says of its element: success that it is good, an error that it is not, and an error of a kind
that it is bad. -/
def StepSays {α γ ε : Type} (Good Bad : α → Prop) (Kind : ε → Prop) (x : α) : Except ε γ → Prop
  | .ok _ => Good x
  | .error e => ¬ Good x ∧ (Kind e ↔ Bad x)

/-- **What a pass says of its elements**, from what the steps say that it comes to. -/
theorem mapM_says {α β γ ε : Type} {Good Bad Fit : α → Prop} {Kind : ε → Prop} {f : β → Except ε γ} {xs : List α}
    {ys : List β} (hdisjoint : ∀ x, Bad x → ¬ Good x)
    (h : List.Forall₂ (fun x y => Fit x → StepSays Good Bad Kind x (f y)) xs ys) (hfit : AllReached Good Fit xs) :
    StepSays (fun xs => ∀ x ∈ xs, Good x) (FirstAt Good Bad) Kind xs (ys.mapM f) := by
  induction h with
  | nil => exact fun x hx => absurd hx List.not_mem_nil
  | @cons x y xs ys hstep _ ih =>
    obtain ⟨hx, hrestFit⟩ := allReached_cons_iff.mp hfit
    have hstep := hstep hx
    rw [List.mapM_cons]
    cases hfy : f y with
    | error e =>
      rw [hfy] at hstep
      refine ⟨fun hall => hstep.1 (hall x List.mem_cons_self), hstep.2.trans ?_⟩
      rw [firstAt_cons_iff]
      exact ⟨.inl, fun hfirst => hfirst.resolve_right fun hx => hstep.1 hx.1⟩
    | ok z =>
      rw [hfy] at hstep
      have ih := ih (hrestFit hstep)
      cases hrest : ys.mapM f with
      | error e =>
        rw [hrest] at ih
        refine ⟨fun hall => ih.1 fun w hw => hall w (List.mem_cons_of_mem x hw), ih.2.trans ?_⟩
        rw [firstAt_cons_iff]
        exact ⟨fun hfirst => .inr ⟨hstep, hfirst⟩,
          fun hfirst => (hfirst.resolve_left fun hx => hdisjoint x hx hstep).2⟩
      | ok zs =>
        rw [hrest] at ih
        exact List.forall_mem_cons.mpr ⟨hstep, ih⟩

/-- What the results of the steps are is what the results of the pass are. -/
theorem forall₂_of_mapM_eq_ok {α β γ ε : Type} {R : α → Except ε γ → Prop} {f : β → Except ε γ} {xs : List α}
    {ys : List β} {zs : List γ} (h : List.Forall₂ (fun x y => R x (f y)) xs ys) (hok : ys.mapM f = .ok zs) :
    List.Forall₂ (fun x z => R x (.ok z)) xs zs := by
  have hmap : List.Forall₂ R xs (ys.map f) := List.forall₂_map_right_iff.mpr h
  rw [mapM_eq_ok_iff.mp hok] at hmap
  exact List.forall₂_map_right_iff.mp hmap

/-- Each step of a pass that succeeds. -/
theorem forall₂_of_mapM {α β ε : Type} {f : α → Except ε β} {xs : List α} {ys : List β} (h : xs.mapM f = .ok ys) :
    List.Forall₂ (fun x y => f x = .ok y) xs ys :=
  forall₂_of_mapM_eq_ok (R := fun x r => f x = r) (List.forall₂_same.mpr fun _ _ => rfl) h

/-- What stands beside an element. -/
theorem exists_of_mem_left {α β : Type} {R : α → β → Prop} {xs : List α} {ys : List β} (h : List.Forall₂ R xs ys)
    {x : α} (hx : x ∈ xs) : ∃ y ∈ ys, R x y := by
  induction h with
  | nil => exact absurd hx List.not_mem_nil
  | cons hxy _ ih =>
    rcases List.mem_cons.mp hx with rfl | hx
    · exact ⟨_, List.mem_cons_self, hxy⟩
    · obtain ⟨y, hy, hR⟩ := ih hx
      exact ⟨y, List.mem_cons_of_mem _ hy, hR⟩

/-- What an element stands beside. -/
theorem exists_of_mem_right {α β : Type} {R : α → β → Prop} {xs : List α} {ys : List β} (h : List.Forall₂ R xs ys)
    {y : β} (hy : y ∈ ys) : ∃ x ∈ xs, R x y :=
  exists_of_mem_left (R := flip R) h.flip hy

/-- What a pass gives, from what its steps give. -/
theorem mapM_cases {α β γ ε : Type} {R : α → Except ε γ → Prop} {f : β → Except ε γ} {xs : List α} {ys : List β}
    (h : List.Forall₂ (fun x y => R x (f y)) xs ys) :
    (∃ zs, ys.mapM f = .ok zs ∧ List.Forall₂ (fun x z => R x (.ok z)) xs zs) ∨
      ∃ e, ys.mapM f = .error e ∧ ∃ x ∈ xs, R x (.error e) := by
  rcases hresult : ys.mapM f with e | zs
  · obtain ⟨before, y, after, rfl, -, hy⟩ := mapM_eq_error_iff.mp hresult
    obtain ⟨x, hx, hR⟩ := exists_of_mem_right h (List.mem_append_right before List.mem_cons_self)
    exact .inr ⟨e, rfl, x, hx, hy ▸ hR⟩
  · exact .inl ⟨zs, rfl, forall₂_of_mapM_eq_ok h hresult⟩

/-- Each result of a pass is that of an element. -/
theorem mem_of_mapM_eq_ok {α β ε : Type} {f : α → Except ε β} {xs : List α} {ys : List β}
    (h : xs.mapM f = .ok ys) {y : β} (hy : y ∈ ys) : ∃ x ∈ xs, f x = .ok y := by
  have hmem : Except.ok y ∈ xs.map f := mapM_eq_ok_iff.mp h ▸ List.mem_map_of_mem hy
  exact List.mem_map.mp hmem

/-- Each element of a pass has its result. -/
theorem exists_of_mem_mapM {α β ε : Type} {f : α → Except ε β} {xs : List α} {ys : List β}
    (h : xs.mapM f = .ok ys) {x : α} (hx : x ∈ xs) : ∃ y ∈ ys, f x = .ok y := by
  have hmem : f x ∈ ys.map Except.ok := mapM_eq_ok_iff.mp h ▸ List.mem_map_of_mem hx
  obtain ⟨y, hy, hfy⟩ := List.mem_map.mp hmem
  exact ⟨y, hy, hfy.symm⟩

/-- A pass succeeds exactly where each element does. -/
theorem exists_mapM_eq_ok_iff {α β ε : Type} {f : α → Except ε β} {xs : List α} :
    (∃ ys, xs.mapM f = .ok ys) ↔ ∀ x ∈ xs, ∃ y, f x = .ok y := by
  constructor
  · rintro ⟨ys, h⟩ x hx
    obtain ⟨y, -, hy⟩ := exists_of_mem_mapM h hx
    exact ⟨y, hy⟩
  · exact mapM_isOk

/-- A pass has one result for each element. -/
theorem length_of_mapM_eq_ok {α β ε : Type} {f : α → Except ε β} {xs : List α} {ys : List β}
    (h : xs.mapM f = .ok ys) : ys.length = xs.length := by
  simpa using (congrArg List.length (mapM_eq_ok_iff.mp h)).symm

/-- **Elements in another order have the same results in that order.** -/
theorem mapM_perm {α β γ ε : Type} {f : α → Except ε γ} {g : β → Except ε γ} {xs : List α}
    {ys : List β} (h : (xs.map f).Perm (ys.map g)) {zs : List γ} (hx : xs.mapM f = .ok zs) :
    ∃ ws, ys.mapM g = .ok ws ∧ zs.Perm ws := by
  rw [mapM_eq_ok_iff.mp hx] at h
  refine ⟨(ys.map g).filterMap Except.toOption, mapM_eq_ok_iff.mpr ?_, ?_⟩
  · have hall : ∀ r ∈ ys.map g, ∃ z, r = .ok z := by
      intro r hr
      obtain ⟨z, -, hz⟩ := List.mem_map.mp (h.mem_iff.mpr hr)
      exact ⟨z, hz.symm⟩
    generalize ys.map g = rs at hall
    induction rs with
    | nil => rfl
    | cons r rs ih =>
      obtain ⟨z, rfl⟩ := hall r List.mem_cons_self
      have hrest := ih fun r' hr' => hall r' (List.mem_cons_of_mem _ hr')
      exact congrArg (Except.ok z :: ·) hrest
  · have hfilter := h.filterMap Except.toOption
    rwa [List.filterMap_map, show Except.toOption ∘ @Except.ok ε γ = some from rfl,
      List.filterMap_some] at hfilter

/-! ## Tests that may fail -/

/-- The elements that pass a test, in order; the first error of the test is that of the pass. -/
def keepM {α ε : Type} (test : α → Except ε Bool) : List α → Except ε (List α)
  | [] => .ok []
  | x :: xs => do
    let keep ← test x
    let rest ← keepM test xs
    return if keep then x :: rest else rest

/-- A pass succeeds where every test does, and then it is a filter. -/
theorem keepM_eq_ok_iff {α ε : Type} {test : α → Except ε Bool} {xs ys : List α} :
    keepM test xs = .ok ys ↔
      ∃ keep : α → Bool, (∀ x ∈ xs, test x = .ok (keep x)) ∧ ys = xs.filter keep := by
  constructor
  · intro h
    have hall : ∀ {xs ys : List α}, keepM test xs = .ok ys →
        (∀ x ∈ xs, ∃ b, test x = .ok b) ∧ ys = xs.filter fun x => (test x).toOption.getD false := by
      intro xs
      induction xs with
      | nil =>
        intro ys h
        cases h
        exact ⟨by simp, rfl⟩
      | cons x xs ih =>
        intro ys h
        obtain ⟨b, hb, h⟩ := bind_eq_ok h
        obtain ⟨rest, hrest, h⟩ := bind_eq_ok h
        cases h
        obtain ⟨hrows, rfl⟩ := ih hrest
        have hgetD : (test x).toOption.getD false = b := by rw [hb]; rfl
        refine ⟨fun y hy => ?_, ?_⟩
        · rcases List.mem_cons.mp hy with rfl | hy
          · exact ⟨b, hb⟩
          · exact hrows y hy
        · rw [List.filter_cons, hgetD]
    obtain ⟨hrows, rfl⟩ := hall h
    refine ⟨_, fun x hx => ?_, rfl⟩
    obtain ⟨b, hb⟩ := hrows x hx
    rw [hb]
    rfl
  · rintro ⟨keep, hkeep, rfl⟩
    induction xs with
    | nil => rfl
    | cons x xs ih =>
      rw [keepM, hkeep x List.mem_cons_self, ih fun y hy => hkeep y (List.mem_cons_of_mem x hy),
        List.filter_cons]
      rfl

/-- Elements in another order are kept in that order. -/
theorem keepM_perm {α ε : Type} {test : α → Except ε Bool} {xs xs' ys : List α} (hperm : xs.Perm xs')
    (h : keepM test xs = .ok ys) : ∃ ys', keepM test xs' = .ok ys' ∧ ys.Perm ys' := by
  obtain ⟨keep, hkeep, rfl⟩ := keepM_eq_ok_iff.mp h
  exact ⟨xs'.filter keep, keepM_eq_ok_iff.mpr ⟨keep, fun x hx => hkeep x (hperm.mem_iff.mpr hx), rfl⟩,
    hperm.filter keep⟩

/-- All pass. -/
theorem keepM_true {α ε : Type} (xs : List α) : keepM (fun _ => (.ok true : Except ε Bool)) xs = .ok xs :=
  keepM_eq_ok_iff.mpr ⟨fun _ => true, fun _ _ => rfl, by simp⟩

/-- **A filter in front of a test**, where the test rejects what the filter does, and on the rest has the
result of another test. -/
theorem keepM_filter {α ε : Type} {test test' : α → Except ε Bool} {p : α → Bool} {xs ys : List α}
    (h : keepM test xs = .ok ys)
    (hp : ∀ x ∈ xs, ∀ b, test x = .ok b → (p x = true → test' x = .ok b) ∧ (p x = false → b = false)) :
    keepM test' (xs.filter p) = .ok ys := by
  obtain ⟨keep, hkeep, rfl⟩ := keepM_eq_ok_iff.mp h
  refine keepM_eq_ok_iff.mpr ⟨keep, fun x hx => ?_, ?_⟩
  · obtain ⟨hx, hpx⟩ := List.mem_filter.mp hx
    exact (hp x hx _ (hkeep x hx)).1 hpx
  · rw [List.filter_filter]
    apply List.filter_congr
    intro x hx
    cases hpx : p x with
    | true => rw [Bool.and_true]
    | false => rw [Bool.and_false, (hp x hx _ (hkeep x hx)).2 hpx]

/-! ## Computations that are alike -/

/-- Both succeed, with related results, or both fail. -/
def Alike {α β ε ε' : Type} (R : α → β → Prop) : Except ε α → Except ε' β → Prop
  | .ok a, .ok b => R a b
  | .error _, .error _ => True
  | _, _ => False

namespace Alike

variable {α β γ δ ε ε' : Type} {R : α → β → Prop} {S : γ → δ → Prop}

/-- Equal computations are alike. -/
theorem of_eq {x y : Except ε α} (h : x = y) : Alike Eq x y := by
  subst h
  cases x <;> trivial

/-- Computations with the same result, whatever the errors. -/
theorem of_toOption {x : Except ε α} {y : Except ε' α} (h : x.toOption = y.toOption) : Alike Eq x y := by
  cases x <;> cases y <;> first | exact Option.some.inj h | trivial

/-- A weaker relation. -/
theorem mono {R' : α → β → Prop} {x : Except ε α} {y : Except ε' β} (h : Alike R x y)
    (himp : ∀ a b, R a b → R' a b) : Alike R' x y := by
  cases x <;> cases y <;> first | exact himp _ _ h | exact h

/-- Computations that are alike, through a third one. -/
theorem trans {ε'' : Type} {R' : β → γ → Prop} {S' : α → γ → Prop} {x : Except ε α} {y : Except ε' β}
    {z : Except ε'' γ} (h : Alike R x y) (h' : Alike R' y z) (hboth : ∀ a b c, R a b → R' b c → S' a c) :
    Alike S' x z := by
  cases x <;> cases y <;> cases z <;> first | exact hboth _ _ _ h h' | exact h.elim | exact h'.elim | trivial

/-- Steps that are alike, one after the other. -/
theorem bind {x : Except ε α} {y : Except ε' β} {f : α → Except ε γ} {g : β → Except ε' δ}
    (h : Alike R x y) (hstep : ∀ a b, R a b → Alike S (f a) (g b)) : Alike S (x >>= f) (y >>= g) := by
  cases x <;> cases y <;> first | exact hstep _ _ h | exact h.elim | trivial

/-- The results, changed. -/
theorem map {x : Except ε α} {y : Except ε' β} {f : α → γ} {g : β → δ} (h : Alike R x y)
    (hstep : ∀ a b, R a b → S (f a) (g b)) : Alike S (f <$> x) (g <$> y) := by
  cases x <;> cases y <;> first | exact hstep _ _ h | exact h.elim | trivial

/-- Passes whose steps are alike. -/
theorem mapM {f : α → Except ε γ} {g : β → Except ε' δ} {xs : List α} {ys : List β}
    (h : List.Forall₂ (fun x y => Alike S (f x) (g y)) xs ys) :
    Alike (List.Forall₂ S) (xs.mapM f) (ys.mapM g) := by
  induction h with
  | nil => exact List.Forall₂.nil
  | cons hxy _ ih =>
    rw [List.mapM_cons, List.mapM_cons]
    refine hxy.bind fun c d hcd => ih.bind fun cs ds hrest => ?_
    exact List.Forall₂.cons hcd hrest

/-- Loops whose steps are alike. -/
theorem foldlM {f : α → γ → Except ε α} {g : β → δ → Except ε' β} {xs : List γ} {ys : List δ}
    (h : List.Forall₂ (fun x y => ∀ a b, R a b → Alike R (f a x) (g b y)) xs ys) {a : α} {b : β}
    (hab : R a b) : Alike R (xs.foldlM f a) (ys.foldlM g b) := by
  induction h generalizing a b with
  | nil => exact hab
  | cons hxy _ ih =>
    rw [List.foldlM_cons, List.foldlM_cons]
    exact (hxy a b hab).bind fun a' b' hab' => ih hab'

end Alike

/-! ## Passes over parts -/

/-- The elements behind others. -/
theorem keepM_append {α ε : Type} (test : α → Except ε Bool) (xs ys : List α) :
    keepM test (xs ++ ys) = do return (← keepM test xs) ++ (← keepM test ys) := by
  induction xs with
  | nil =>
    show keepM test ys = _
    cases keepM test ys <;> rfl
  | cons x xs ih =>
    rw [List.cons_append, keepM, keepM, ih]
    rcases test x with e | b
    · rfl
    · rcases keepM test xs with e | kept
      · rfl
      · rcases keepM test ys with e | kept'
        · rfl
        · cases b <;> rfl

/-- A filter of parts that are put together. -/
theorem keepM_flatten {α ε : Type} (test : α → Except ε Bool) (parts : List (List α)) :
    keepM test parts.flatten = List.flatten <$> parts.mapM (keepM test) := by
  induction parts with
  | nil => rfl
  | cons part parts ih =>
    rw [List.flatten_cons, keepM_append, ih, List.mapM_cons]
    rcases keepM test part with e | kept
    · rfl
    · rcases parts.mapM (keepM test) with e | rest <;> rfl

/-- A pass over parts that are put together. -/
theorem mapM_flatten {α β ε : Type} (f : α → Except ε β) (parts : List (List α)) :
    parts.flatten.mapM f = List.flatten <$> parts.mapM fun part => part.mapM f := by
  induction parts with
  | nil => rfl
  | cons part parts ih =>
    rw [List.flatten_cons, List.mapM_append, ih, List.mapM_cons]
    simp only [map_bind, bind_map_left, map_pure, List.flatten_cons]

/-- A loop over parts that are put together. -/
theorem foldlM_flatten {α β ε : Type} (f : β → α → Except ε β) (parts : List (List α)) (b : β) :
    parts.flatten.foldlM f b = parts.foldlM (fun b part => part.foldlM f b) b := by
  induction parts generalizing b with
  | nil => rfl
  | cons part parts ih =>
    rw [List.flatten_cons, List.foldlM_append, List.foldlM_cons]
    exact bind_congr fun b' => ih b'

/-- Two passes, one after the other or element by element: only which error comes first may differ. -/
theorem Alike.mapM_bind {α β γ ε : Type} (f : α → Except ε β) (g : β → Except ε γ) (xs : List α) :
    Alike Eq (xs.mapM f >>= fun ys => ys.mapM g) (xs.mapM fun x => f x >>= g) := by
  induction xs with
  | nil => exact rfl
  | cons x xs ih =>
    rw [List.mapM_cons, List.mapM_cons]
    rcases hf : f x with e | y
    · trivial
    · rcases hxs : xs.mapM f with e | ys
      · rw [hxs] at ih
        show Alike Eq (Except.error e) (g y >>= fun z => (xs.mapM fun x => f x >>= g) >>= fun zs => pure (z :: zs))
        rcases g y with e' | z
        · trivial
        · rcases hrest : xs.mapM fun x => f x >>= g with e' | zs
          · trivial
          · rw [hrest] at ih
            exact ih.elim
      · rw [hxs] at ih
        show Alike Eq ((y :: ys).mapM g) (g y >>= fun z => (xs.mapM fun x => f x >>= g) >>= fun zs => pure (z :: zs))
        rw [List.mapM_cons]
        refine (Alike.of_eq rfl).bind fun z z' hz => ?_
        obtain rfl : z = z' := hz
        exact ih.bind fun zs zs' hzs => hzs ▸ rfl

/-- A list in another order comes from the items in another order. -/
theorem exists_perm_of_perm_map {α β : Type} {f : α → β} {xs : List α} {ys : List β} (h : (xs.map f).Perm ys) :
    ∃ zs, xs.Perm zs ∧ zs.map f = ys := by
  generalize hl : xs.map f = l at h
  induction h generalizing xs with
  | nil => exact ⟨xs, .refl _, hl⟩
  | cons y _ ih =>
    obtain ⟨x, xs', rfl, rfl, hrest⟩ := List.map_eq_cons_iff.mp hl
    obtain ⟨zs, hperm, hzs⟩ := ih hrest
    exact ⟨x :: zs, hperm.cons x, by rw [List.map_cons, hzs]⟩
  | swap y y' l =>
    obtain ⟨x, tail, rfl, rfl, htail⟩ := List.map_eq_cons_iff.mp hl
    obtain ⟨x', xs', rfl, rfl, hrest⟩ := List.map_eq_cons_iff.mp htail
    exact ⟨x' :: x :: xs', .swap x' x xs', by rw [List.map_cons, List.map_cons, hrest]⟩
  | trans _ _ ih ih' =>
    obtain ⟨zs, hperm, hzs⟩ := ih hl
    obtain ⟨zs', hperm', hzs'⟩ := ih' hzs
    exact ⟨zs', hperm.trans hperm', hzs'⟩

/-- A list that is put together out of parts splits what it is the image of. -/
theorem exists_parts {α β γ : Type} {f : α → List γ} {g : β → γ} {xs : List α} {ys : List β}
    (h : xs.flatMap f = ys.map g) :
    ∃ parts : List (List β), parts.flatten = ys ∧ List.Forall₂ (fun x part => f x = part.map g) xs parts := by
  induction xs generalizing ys with
  | nil =>
    refine ⟨[], ?_, .nil⟩
    simpa using h.symm
  | cons x xs ih =>
    rw [List.flatMap_cons] at h
    obtain ⟨part, rest, rfl, hpart, hrest⟩ := List.map_eq_append_iff.mp h.symm
    obtain ⟨parts, rfl, hall⟩ := ih hrest.symm
    exact ⟨part :: parts, rfl, .cons hpart.symm hall⟩

end SimpleOlap.Lib
