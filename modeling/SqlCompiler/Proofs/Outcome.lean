import Mathlib.Data.List.Forall2

/-!
# Outcomes of Compilation

A compilation ends in a fault or in a result. Two questions are asked about outcomes:

- *what a result satisfies*: a compilation in several steps has a result exactly if every step has
  one, so a result opens into the results of the steps (`bind_eq_ok`, `mapM_eq_ok`), and what holds
  of the result of every step holds of all of them (`forall_of_mapM`)
- *how two outcomes compare*: `Alike R x y` says that both are the same fault, or both are results
  that `R` relates. This is a relation between runs that goes through step by step
-/

namespace SqlCompiler

variable {ε α β γ δ : Type}

/-! ## §1 Results of steps -/

/-- Two steps have a result if the first one has one and the second one goes on from it. -/
theorem bind_eq_ok {x : Except ε α} {f : α → Except ε β} {b : β} :
    x >>= f = .ok b ↔ ∃ a, x = .ok a ∧ f a = .ok b := by
  cases x with
  | error e => exact ⟨fun h => (by cases h), fun ⟨_, h, _⟩ => (by cases h)⟩
  | ok a => exact ⟨fun h => ⟨a, rfl, h⟩, fun ⟨_, h, hf⟩ => by cases h; exact hf⟩

theorem pure_eq_ok {a b : α} : (pure a : Except ε α) = .ok b ↔ a = b :=
  ⟨fun h => Except.ok.inj h, fun h => h ▸ rfl⟩

theorem throw_eq_ok {e : ε} {a : α} : (throw e : Except ε α) = .ok a ↔ False :=
  ⟨fun h => (by cases h), False.elim⟩

theorem throw_bind (e : ε) (f : α → Except ε β) : (throw e >>= f : Except ε β) = throw e := rfl

/-- Steps taken for every item of a list have results exactly if each of them has one. -/
theorem mapM_eq_ok {f : α → Except ε β} {xs : List α} {ys : List β} :
    xs.mapM f = .ok ys ↔ List.Forall₂ (fun x y => f x = .ok y) xs ys := by
  induction xs generalizing ys with
  | nil =>
    rw [List.mapM_nil, pure_eq_ok]
    constructor
    · rintro rfl
      exact .nil
    · intro h
      cases h
      rfl
  | cons x xs ih =>
    simp only [List.mapM_cons, bind_eq_ok, pure_eq_ok, ih]
    constructor
    · rintro ⟨y, hy, rest, hrest, rfl⟩
      exact .cons hy hrest
    · intro h
      cases h with
      | cons hy hrest => exact ⟨_, hy, _, hrest, rfl⟩

/-- What every single result satisfies, all results of steps taken for the items of a list do. -/
theorem forall_of_mapM {f : α → Except ε β} {P : β → Prop} {xs : List α} {ys : List β}
    (h : xs.mapM f = .ok ys) (hf : ∀ x ∈ xs, ∀ y, f x = .ok y → P y) : ∀ y ∈ ys, P y := by
  rw [mapM_eq_ok] at h
  induction h with
  | nil =>
    intro y hy
    exact absurd hy List.not_mem_nil
  | cons hxy _ ih =>
    have hrest := ih fun x hx => hf x (List.mem_cons_of_mem _ hx)
    exact List.forall_mem_cons.2 ⟨hf _ List.mem_cons_self _ hxy, hrest⟩

/-- The results of steps taken for every item, as a function of the item. -/
theorem exists_map_of_mapM [Inhabited β] {f : α → Except ε β} {xs : List α} {ys : List β}
    (h : xs.mapM f = .ok ys) : ∃ g : α → β, (∀ x ∈ xs, f x = .ok (g x)) ∧ ys = xs.map g := by
  -- every item of the list has a result, so the default is never taken
  have hvalue : ∀ x y, f x = .ok y → (f x).toOption.getD default = y := by
    intro x y hxy
    rw [hxy]
    rfl
  refine ⟨fun x => (f x).toOption.getD default, ?_⟩
  rw [mapM_eq_ok] at h
  induction h with
  | nil => exact ⟨fun _ hx => absurd hx List.not_mem_nil, rfl⟩
  | cons hxy _ ih =>
    obtain ⟨hall, hmap⟩ := ih
    refine ⟨fun x hx => ?_, by rw [List.map_cons, ← hmap, hvalue _ _ hxy]⟩
    rcases List.mem_cons.1 hx with rfl | hx
    · exact hxy.trans (congrArg _ (hvalue _ _ hxy).symm)
    · exact hall x hx

/-! ## §2 Two outcomes compared -/

/-- The same fault twice, or two results in a relation. -/
inductive Alike (R : α → β → Prop) : Except ε α → Except ε β → Prop where
  | fault (e : ε) : Alike R (.error e) (.error e)
  | result {a : α} {b : β} (h : R a b) : Alike R (.ok a) (.ok b)

namespace Alike

variable {R : α → β → Prop} {S : γ → δ → Prop}

/-- Results that are in relation. -/
theorem pure {a : α} {b : β} (h : R a b) :
    Alike R (Pure.pure a : Except ε α) (Pure.pure b : Except ε β) :=
  .result h

/-- Runs that agree in their first step and in all that follows agree as a whole. -/
theorem bind {x : Except ε α} {y : Except ε β} {f : α → Except ε γ} {g : β → Except ε δ}
    (h : Alike R x y) (hfg : ∀ a b, R a b → Alike S (f a) (g b)) :
    Alike S (x >>= f) (y >>= g) := by
  cases h with
  | fault e => exact .fault e
  | result hab => exact hfg _ _ hab

/-- Runs with the same first step agree if they agree after it. -/
theorem step (x : Except ε α) {f : α → Except ε γ} {g : α → Except ε δ}
    (h : ∀ a, Alike S (f a) (g a)) : Alike S (x >>= f) (x >>= g) := by
  cases x with
  | error e => exact .fault e
  | ok a => exact h a

/-- A run and itself. -/
theorem refl {Q : α → α → Prop} (hQ : ∀ a, Q a a) (x : Except ε α) : Alike Q x x := by
  cases x with
  | error e => exact .fault e
  | ok a => exact .result (hQ a)

/-- Two runs the other way round. -/
theorem symm {Q : α → α → Prop} (hQ : ∀ a b, Q a b → Q b a) {x y : Except ε α}
    (h : Alike Q x y) : Alike Q y x := by
  cases h with
  | fault e => exact .fault e
  | result hab => exact .result (hQ _ _ hab)

/-- Two runs through a third one. -/
theorem trans {Q : α → α → Prop} (hQ : ∀ a b c, Q a b → Q b c → Q a c) {x y z : Except ε α}
    (h : Alike Q x y) (h' : Alike Q y z) : Alike Q x z := by
  cases h with
  | fault e => exact h'
  | result hab =>
    cases h' with
    | result hbc => exact .result (hQ _ _ _ hab hbc)

/-- A step taken for every item of two lists that correspond. -/
theorem mapM {P : α → β → Prop} {f : α → Except ε γ} {g : β → Except ε δ} {xs : List α}
    {ys : List β} (h : List.Forall₂ P xs ys) (hfg : ∀ x y, P x y → Alike S (f x) (g y)) :
    Alike (List.Forall₂ S) (xs.mapM f) (ys.mapM g) := by
  -- both runs stop at the first item with a fault, or go on to the end
  induction h with
  | nil => exact .result .nil
  | cons hxy _ ih =>
    rw [List.mapM_cons, List.mapM_cons]
    refine (hfg _ _ hxy).bind fun a b hab => ?_
    exact ih.bind fun as bs hrest => .pure (.cons hab hrest)

/-- A step taken for every item of a list, and for the image of every item. -/
theorem mapM_map {m : α → β} {f : β → Except ε γ} {g : α → Except ε δ} (xs : List α)
    (h : ∀ x, Alike S (f (m x)) (g x)) :
    Alike (List.Forall₂ S) ((xs.map m).mapM f) (xs.mapM g) := by
  induction xs with
  | nil => exact .result .nil
  | cons x xs ih =>
    rw [List.map_cons, List.mapM_cons, List.mapM_cons]
    refine (h x).bind fun a b hab => ?_
    exact ih.bind fun as bs hrest => .pure (.cons hab hrest)

end Alike

end SqlCompiler
