import JsonRpc.Core.Types
import JsonRpc.Lib.Interceptor

/-!
# Middlewares

A middleware stands before the handler of requests, and before the handler of calls. Tuples of
two, three and four middlewares are middlewares, so the same middlewares can be composed in
several ways. The ways differ in the nesting of the futures of their answers, and in nothing
else.
-/

namespace JsonRpc

/-- `Middleware`, with metadata in `M`. Futures of one output are different types, which a
middleware knows as futures only: it can box them. The boxed futures of a response, `NoopFuture`,
are `B`, and those of an output, `NoopCallFuture`, are `C`. -/
structure Middleware (M B C : Type) where
  /-- The future of an answer to a request. -/
  Future : Type
  /-- The future of an answer to a call. -/
  CallFuture : Type
  onRequest : Interceptor Request M B Future
  onCall : Interceptor Call M C CallFuture

/-! ## Tuples -/

def repack {A B X : Type} : A ⊕ (B ⊕ X) → (A ⊕ B) ⊕ X
  | .inl a => .inl (.inl a)
  | .inr (.inl b) => .inl (.inr b)
  | .inr (.inr x) => .inr x

theorem map_repack {A B X Y : Type} (f : X → Y) (result : A ⊕ (B ⊕ X)) :
    (repack result).map id f = repack (result.map id (Sum.map id f)) := by
  rcases result with a | b | x <;> rfl

section Hooks

variable {R M O A B C D : Type}

/-- The default of `on_request` and `on_call`. The middleware has no futures of its own, and
names the boxed ones. -/
def defaultHook : Interceptor R M O O where
  observe := id
  run _ r m next := .inr (next r m)
  natural _ _ _ _ _ := rfl

/-- `on_request` and `on_call` of a pair. -/
def pairHook (a : Interceptor R M O A) (b : Interceptor R M O B) :
    Interceptor R M O (A ⊕ B) where
  observe := Sum.elim a.observe b.observe
  run obs r m process :=
    repack (a.run (Sum.elim b.observe obs) r m fun r m => b.run obs r m process)
  natural {X Y obs obs'} f hf r m process := by
    have hmap : ∀ x, Sum.elim b.observe obs' (Sum.map id f x) = Sum.elim b.observe obs x := by
      rintro (x | x)
      · rfl
      · exact hf x
    simp only [b.natural f hf, a.natural (Sum.map id f) hmap, map_repack]

/-- `on_request` and `on_call` of a triple. -/
def tripleHook (a : Interceptor R M O A) (b : Interceptor R M O B) (c : Interceptor R M O C) :
    Interceptor R M O (A ⊕ (B ⊕ C)) where
  observe := Sum.elim a.observe (Sum.elim b.observe c.observe)
  run obs r m process :=
    repack (a.run (Sum.elim (Sum.elim b.observe c.observe) obs) r m fun r m =>
      repack (b.run (Sum.elim c.observe obs) r m fun r m => c.run obs r m process))
  natural := (pairHook a (pairHook b c)).natural

/-- `on_request` and `on_call` of a tuple of four. -/
def quadrupleHook (a : Interceptor R M O A) (b : Interceptor R M O B) (c : Interceptor R M O C)
    (d : Interceptor R M O D) : Interceptor R M O (A ⊕ (B ⊕ (C ⊕ D))) where
  observe := Sum.elim a.observe (Sum.elim b.observe (Sum.elim c.observe d.observe))
  run obs r m process :=
    repack (a.run (Sum.elim (Sum.elim b.observe (Sum.elim c.observe d.observe)) obs) r m
      fun r m => repack (b.run (Sum.elim (Sum.elim c.observe d.observe) obs) r m
        fun r m => repack (c.run (Sum.elim d.observe obs) r m fun r m => d.run obs r m process)))
  natural := (pairHook a (pairHook b (pairHook c d))).natural

end Hooks

namespace Middleware

variable {M B C : Type}

/-- The futures of the default are boxed ones. -/
def noop : Middleware M B C := ⟨B, C, defaultHook, defaultHook⟩

def pair (a b : Middleware M B C) : Middleware M B C :=
  ⟨a.Future ⊕ b.Future, a.CallFuture ⊕ b.CallFuture, pairHook a.onRequest b.onRequest,
    pairHook a.onCall b.onCall⟩

def triple (a b c : Middleware M B C) : Middleware M B C :=
  ⟨a.Future ⊕ (b.Future ⊕ c.Future), a.CallFuture ⊕ (b.CallFuture ⊕ c.CallFuture),
    tripleHook a.onRequest b.onRequest c.onRequest, tripleHook a.onCall b.onCall c.onCall⟩

def quadruple (a b c d : Middleware M B C) : Middleware M B C :=
  ⟨a.Future ⊕ (b.Future ⊕ (c.Future ⊕ d.Future)),
    a.CallFuture ⊕ (b.CallFuture ⊕ (c.CallFuture ⊕ d.CallFuture)),
    quadrupleHook a.onRequest b.onRequest c.onRequest d.onRequest,
    quadrupleHook a.onCall b.onCall c.onCall d.onCall⟩

/-- The middleware of the example: it answers every request itself, with the boxed future of the
continuation. What it prints is left out. -/
def myMiddleware : Middleware M B C where
  Future := B
  CallFuture := C
  onRequest :=
    { observe := id
      run := fun box request metadata next => .inl (box (next request metadata))
      natural := fun _ hf _ _ _ => congrArg Sum.inl (hf _) }
  onCall := defaultHook

end Middleware

/-! ## Nested tuples -/

section Nesting

universe u

/-- Tuples of tuples, down to some middlewares in this order. -/
inductive Nesting {A : Type u} : List A → Type u
  | single (a : A) : Nesting [a]
  | pair {as bs : List A} (s : Nesting as) (t : Nesting bs) : Nesting (as ++ bs)
  | triple {as bs cs : List A} (s : Nesting as) (t : Nesting bs) (v : Nesting cs) :
    Nesting (as ++ (bs ++ cs))
  | quadruple {as bs cs ds : List A} (s : Nesting as) (t : Nesting bs) (v : Nesting cs)
    (w : Nesting ds) : Nesting (as ++ (bs ++ (cs ++ ds)))

namespace Nesting

open Interceptor (Answer chain)

variable {A : Type u} {R M O : Type}

/-- The future of a nested tuple. -/
def Future (F : A → Type) : {as : List A} → Nesting as → Type
  | _, .single a => F a
  | _, .pair s t => s.Future F ⊕ t.Future F
  | _, .triple s t v => s.Future F ⊕ (t.Future F ⊕ v.Future F)
  | _, .quadruple s t v w => s.Future F ⊕ (t.Future F ⊕ (v.Future F ⊕ w.Future F))

variable {F : A → Type}

/-- The method of a nested tuple. -/
def hook (h : ∀ a, Interceptor R M O (F a)) :
    {as : List A} → (t : Nesting as) → Interceptor R M O (t.Future F)
  | _, .single a => h a
  | _, .pair s t => pairHook (s.hook h) (t.hook h)
  | _, .triple s t v => tripleHook (s.hook h) (t.hook h) (v.hook h)
  | _, .quadruple s t v w => quadrupleHook (s.hook h) (t.hook h) (v.hook h) (w.hook h)

/-- An answer of one of two groups. -/
def join {B C : Type} {as bs : List A} (f : B → Answer F as) (g : C → Answer F bs) :
    B ⊕ C → Answer F (as ++ bs)
  | .inl b => (f b).left
  | .inr c => .right as (g c)

/-- Which middleware answered, whatever the nesting. -/
def forget : {as : List A} → (t : Nesting as) → t.Future F → Answer F as
  | _, .single _, f => .inl f
  | _, .pair s t, f => join s.forget t.forget f
  | _, .triple s t v, f => join s.forget (join t.forget v.forget) f
  | _, .quadruple s t v w, f => join s.forget (join t.forget (join v.forget w.forget)) f

variable {h : ∀ a, Interceptor R M O (F a)}

/-- A pair does what the chain of its two groups does. -/
theorem presents_pairHook {B C : Type} {as bs : List A} {a : Interceptor R M O B}
    {b : Interceptor R M O C} {f : B → Answer F as} {g : C → Answer F bs}
    (ha : a.Presents h f) (hb : b.Presents h g) : (pairHook a b).Presents h (join f g) where
  observe_eq answer := by
    cases answer with
    | inl x => exact (Answer.observe_left h bs (f x)).trans (ha.observe_eq x)
    | inr y => exact (Answer.observe_right h as (g y)).trans (hb.observe_eq y)
  run_eq {X} obs r m next := by
    have hrest : (fun r m => (b.run obs r m next).map g id) = chain h obs next bs :=
      funext fun r => funext fun m => hb.run_eq obs r m next
    have hmap : ∀ x : C ⊕ X, Sum.elim (Answer.observe h) obs (x.map g id) =
        Sum.elim b.observe obs x := by
      rintro (y | x)
      · exact hb.observe_eq y
      · rfl
    rw [Interceptor.chain_append, ← ha.run_eq, ← hrest, a.natural (Sum.map g id) hmap]
    dsimp only [pairHook]
    rcases a.run (Sum.elim b.observe obs) r m fun r m => b.run obs r m next with x | y | z <;> rfl

/-- A middleware alone is a chain of one. -/
theorem presents_single (a : A) : (h a).Presents h (forget (F := F) (single a)) where
  observe_eq _ := rfl
  run_eq obs r m next := by
    have hlast : (h a).run (Sum.elim (Answer.observe h) obs) r m (chain h obs next []) =
        ((h a).run obs r m next).map id Sum.inr := (h a).natural Sum.inr (fun _ => rfl) r m next
    rw [chain, hlast]
    cases (h a).run obs r m next <;> rfl

/-- A nested tuple does what the chain of its middlewares does. -/
theorem presents_hook {as : List A} (t : Nesting as) :
    (t.hook h).Presents h (t.forget (F := F)) := by
  induction t with
  | single a => exact presents_single a
  | pair s t hs ht => exact presents_pairHook hs ht
  | triple s t v hs ht hv =>
    have htv := presents_pairHook hs (presents_pairHook ht hv)
    exact ⟨htv.observe_eq, htv.run_eq⟩
  | quadruple s t v w hs ht hv hw =>
    have htvw := presents_pairHook hs (presents_pairHook ht (presents_pairHook hv hw))
    exact ⟨htvw.observe_eq, htvw.run_eq⟩

variable {B C X : Type} {as : List (Middleware M B C)}

/-- The middleware of a nested tuple. -/
def middleware (t : Nesting as) : Middleware M B C :=
  ⟨t.Future Middleware.Future, t.Future Middleware.CallFuture, t.hook Middleware.onRequest,
    t.hook Middleware.onCall⟩

/-- A middleware alone is not changed, and the tuples below are the ones of the source. -/
theorem middleware_single (a : Middleware M B C) : (single a).middleware = a := rfl

theorem middleware_pair {bs : List (Middleware M B C)} (s : Nesting as) (t : Nesting bs) :
    (pair s t).middleware = s.middleware.pair t.middleware := rfl

theorem middleware_triple {bs cs : List (Middleware M B C)} (s : Nesting as) (t : Nesting bs)
    (v : Nesting cs) :
    (triple s t v).middleware = s.middleware.triple t.middleware v.middleware := rfl

theorem middleware_quadruple {bs cs ds : List (Middleware M B C)} (s : Nesting as) (t : Nesting bs)
    (v : Nesting cs) (w : Nesting ds) :
    (quadruple s t v w).middleware =
      s.middleware.quadruple t.middleware v.middleware w.middleware := rfl

/-- The outcome of a request: which middleware answered, or the result of the continuation. -/
def requestOutcome (t : Nesting as) (box : X → B) (request : Request) (metadata : M)
    (next : Request → M → X) : Answer Middleware.Future as ⊕ X :=
  (t.middleware.onRequest.run box request metadata next).map t.forget id

/-- The outcome of a call. -/
def callOutcome (t : Nesting as) (box : X → C) (call : Call) (metadata : M)
    (next : Call → M → X) : Answer Middleware.CallFuture as ⊕ X :=
  (t.middleware.onCall.run box call metadata next).map t.forget id

end Nesting

end Nesting

/-! ## Pairs with the default -/

section Noop

variable {R M O A X : Type} (a : Interceptor R M O A) (obs : X → O) (r : R) (m : M)
  (next : R → M → X)

theorem pairHook_defaultHook :
    (pairHook a defaultHook).run obs r m next = (a.run obs r m next).map Sum.inl id := by
  have hinner : (a.run (Sum.elim id obs) r m fun r m => (Sum.inr (next r m) : O ⊕ X)) =
      (a.run obs r m next).map id Sum.inr := a.natural Sum.inr (fun _ => rfl) r m next
  dsimp only [pairHook, defaultHook]
  rw [hinner]
  cases a.run obs r m next <;> rfl

theorem defaultHook_pairHook :
    (pairHook defaultHook a).run obs r m next = (a.run obs r m next).map Sum.inr id := by
  dsimp only [pairHook, defaultHook]
  cases a.run obs r m next <;> rfl

end Noop

/-- **Tuples of middlewares.** Two nested tuples of the same middlewares, in the same order,
give the same outcome to every request and to every call, whatever the futures of the
continuation are. A pair with `noop` gives the outcome of the other middleware. -/
theorem nesting_outcome_eq {M B C X : Type} {as : List (Middleware M B C)} (s t : Nesting as)
    (a : Middleware M B C) :
    (∀ (box : X → B) request metadata (next : Request → M → X),
      s.requestOutcome box request metadata next = t.requestOutcome box request metadata next ∧
      (a.pair .noop).onRequest.run box request metadata next =
        (a.onRequest.run box request metadata next).map Sum.inl id ∧
      (Middleware.noop.pair a).onRequest.run box request metadata next =
        (a.onRequest.run box request metadata next).map Sum.inr id) ∧
    (∀ (box : X → C) call metadata (next : Call → M → X),
      s.callOutcome box call metadata next = t.callOutcome box call metadata next ∧
      (a.pair .noop).onCall.run box call metadata next =
        (a.onCall.run box call metadata next).map Sum.inl id ∧
      (Middleware.noop.pair a).onCall.run box call metadata next =
        (a.onCall.run box call metadata next).map Sum.inr id) := by
  constructor
  · intro box request metadata next
    refine ⟨?_, pairHook_defaultHook _ _ _ _ _, defaultHook_pairHook _ _ _ _ _⟩
    exact (s.presents_hook.run_eq box _ _ next).trans (t.presents_hook.run_eq box _ _ next).symm
  · intro box call metadata next
    refine ⟨?_, pairHook_defaultHook _ _ _ _ _, defaultHook_pairHook _ _ _ _ _⟩
    exact (s.presents_hook.run_eq box _ _ next).trans (t.presents_hook.run_eq box _ _ next).symm

/-- The example boxes what the next middleware answers, or what the continuation answers. -/
example {M B C X : Type} (a : Middleware M B C) (box : X → B) (request : Request) (metadata : M)
    (next : Request → M → X) :
    (Middleware.myMiddleware.pair a).onRequest.run box request metadata next =
      .inl (.inl (Sum.elim a.onRequest.observe box (a.onRequest.run box request metadata next))) :=
  rfl

end JsonRpc
