import Mathlib.Logic.Equiv.Sum
import Mathlib.Tactic.Common

/-!
# Chains of interceptors

An interceptor stands before a continuation. It answers a request itself, or returns what the
continuation makes of a request. Of the results of the continuation it knows only what can be
observed of them, so it is natural in the maps that keep the observation. A chain of
interceptors passes a request from one to the next.
-/

universe u

/-- A function that answers itself, or with a result of its continuation. -/
structure Interceptor (R M O F : Type) where
  /-- What can be observed of an answer. -/
  observe : F → O
  run : {X : Type} → (X → O) → R → M → (R → M → X) → F ⊕ X
  natural : ∀ {X Y : Type} {obs : X → O} {obs' : Y → O} (f : X → Y),
    (∀ x, obs' (f x) = obs x) → ∀ (r : R) (m : M) (next : R → M → X),
      run obs' r m (fun r m => f (next r m)) = (run obs r m next).map id f

namespace Interceptor

variable {R M O X : Type}

/-! ## Answers of one of several interceptors -/

/-- An answer of one of some interceptors, and which one. -/
def Answer {A : Type u} (F : A → Type) : List A → Type
  | [] => Empty
  | a :: as => F a ⊕ Answer F as

variable {A : Type u} {F : A → Type}

/-- An answer of one of the first interceptors. -/
def Answer.left {bs : List A} : {as : List A} → Answer F as → Answer F (as ++ bs)
  | _ :: _, .inl f => .inl f
  | _ :: _, .inr g => .inr (Answer.left g)

/-- An answer of one of the last interceptors. -/
def Answer.right {bs : List A} : (as : List A) → Answer F bs → Answer F (as ++ bs)
  | [], g => g
  | _ :: as, g => .inr (Answer.right as g)

/-- The outcome of two groups of interceptors. -/
def Answer.append {as bs : List A} : Answer F as ⊕ (Answer F bs ⊕ X) → Answer F (as ++ bs) ⊕ X
  | .inl f => .inl f.left
  | .inr (.inl g) => .inl (.right as g)
  | .inr (.inr x) => .inr x

theorem Answer.append_nil_inr {bs : List A} (o : Answer F bs ⊕ X) :
    @Answer.append X A F [] bs (.inr o) = o := by
  cases o <;> rfl

variable (hook : ∀ a, Interceptor R M O (F a))

/-- What can be observed of an answer is what the interceptor lets be observed. -/
def Answer.observe : {as : List A} → Answer F as → O
  | a :: _, .inl f => (hook a).observe f
  | _ :: _, .inr g => Answer.observe g

theorem Answer.observe_left {as : List A} (bs : List A) (f : Answer F as) :
    Answer.observe hook (@Answer.left A F bs as f) = f.observe hook := by
  induction as with
  | nil => cases f
  | cons a as ih =>
    cases f with
    | inl f => rfl
    | inr g => exact ih g

theorem Answer.observe_right (as : List A) {bs : List A} (g : Answer F bs) :
    Answer.observe hook (Answer.right as g) = g.observe hook := by
  induction as with
  | nil => rfl
  | cons a as ih => exact ih

/-- Two groups of interceptors are observed as one. -/
theorem Answer.observe_append {as bs : List A} (obs : X → O)
    (outcome : Answer F as ⊕ (Answer F bs ⊕ X)) :
    Sum.elim (Answer.observe hook) obs (Answer.append outcome) =
      Sum.elim (Answer.observe hook) (Sum.elim (Answer.observe hook) obs) outcome := by
  rcases outcome with f | g | x
  · exact Answer.observe_left hook bs f
  · exact Answer.observe_right hook as g
  · rfl

/-! ## Chains -/

/-- Each interceptor has the rest of the chain as its continuation. -/
def chain (obs : X → O) (next : R → M → X) : (as : List A) → R → M → Answer F as ⊕ X
  | [], r, m => .inr (next r m)
  | a :: as, r, m => (Equiv.sumAssoc _ _ _).symm
      ((hook a).run (Sum.elim (Answer.observe hook) obs) r m (chain obs next as))

/-- The last part of a chain is the continuation of the first part. -/
theorem chain_append (obs : X → O) (next : R → M → X) (as bs : List A) (r : R) (m : M) :
    chain hook obs next (as ++ bs) r m =
      Answer.append (chain hook (Sum.elim (Answer.observe hook) obs)
        (chain hook obs next bs) as r m) := by
  induction as generalizing r m with
  | nil => exact (Answer.append_nil_inr (chain hook obs next bs r m)).symm
  | cons a as ih =>
    have hrest : chain hook obs next (as ++ bs) = fun r m =>
        Answer.append (chain hook (Sum.elim (Answer.observe hook) obs)
          (chain hook obs next bs) as r m) :=
      funext fun r => funext fun m => ih r m
    simp only [List.cons_append, chain]
    rw [hrest, (hook a).natural Answer.append (Answer.observe_append hook obs)]
    generalize (hook a).run _ r m _ = outcome
    rcases outcome with f | g | h | x <;> rfl

/-- An interceptor does what a chain does, if its answers are read in some way. -/
structure Presents {G : Type} (a : Interceptor R M O G) {as : List A} (forget : G → Answer F as) :
    Prop where
  observe_eq : ∀ g, (forget g).observe hook = a.observe g
  run_eq : ∀ {X : Type} (obs : X → O) (r : R) (m : M) (next : R → M → X),
    (a.run obs r m next).map forget id = chain hook obs next as r m

end Interceptor
