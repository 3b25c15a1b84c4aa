import JsonRpc.Derive.Registered
import JsonRpc.PubSub.Delegates

/-!
# The delegate of a trait

The function `to_delegate` of the server is generated from the registrations of a trait. It adds
each method to a delegate under its name, and then its aliases. Every method that subscribes is
added together with the method that unsubscribes, so that one is added again and again. If no two
methods share a name or an alias, each of them stands for its own method in a handler that is
extended with the delegate, in whatever order the two hash maps on the way are iterated. The
delegate of a trait with subscriptions has no function for a notification with metadata.
-/

namespace JsonRpc.Derive

/-! ## The generated function -/

/-- What the generated code reads of an annotated method. -/
def AnnotatedMethod.toRpc (m : AnnotatedMethod) (kind : MethodKind) : RpcMethod where
  kind := kind
  hasMetadata := match m.attr.kind with
    | .rpc hasMetadata _ _ => hasMetadata
    | .pubSub _ _ => false
  -- An attribute that has a name has a style.
  rawParams := m.attr.paramsStyle = some .raw
  params := m.attr.paramsStyle
  inputs := m.traitItem.inputs

/-- The closure that is generated for a method. -/
structure Closure where
  method : AnnotatedMethod
  closure : DelegateClosure

def AnnotatedMethod.generateDelegateClosure (m : AnnotatedMethod) (kind : MethodKind) :
    Except String Closure :=
  (Derive.generateDelegateClosure (m.toRpc kind)).map (Closure.mk m)

/-- A statement of the function. -/
inductive Statement where
  | addMethod (name : String) (closure : Closure)
  | addMethodWithMeta (name : String) (closure : Closure)
  | addNotification (name : String) (closure : Closure)
  | addNotificationWithMeta (name : String) (closure : Closure)
  | addSubscription (name : String) (subscribe : String × Closure)
      (unsubscribe : String × AnnotatedMethod)
  | addAlias (name other : String)

/-- A procedure in the table of the delegate of a trait. -/
abbrev TraitProcedure := PubSub.DelegateProcedure Closure AnnotatedMethod

/-- The delegate that the function fills. It has subscriptions if the trait has some. -/
inductive TraitDelegate where
  | core (d : IoDelegate TraitProcedure)
  | pubSub (d : PubSub.IoDelegate Closure AnnotatedMethod)

namespace TraitDelegate

def new (hasPubsubMethods : Bool) : TraitDelegate :=
  if hasPubsubMethods then pubSub .new else core .new

/-- The table of the delegate. -/
def table : TraitDelegate → IoDelegate TraitProcedure
  | core d => d
  | pubSub d => d.inner

/-- Run a statement. The code does not compile if the delegate has no such function. -/
def run : TraitDelegate → Statement → Option TraitDelegate
  | core d, .addMethod name f => some (core (d.addMethod name (.closure f)))
  | core d, .addMethodWithMeta name f => some (core (d.addMethodWithMeta name (.closure f)))
  | core d, .addNotification name f => some (core (d.addNotification name (.closure f)))
  | core d, .addNotificationWithMeta name f =>
    some (core (d.addNotificationWithMeta name (.closure f)))
  | core _, .addSubscription _ _ _ => none
  | core d, .addAlias name other => some (core (d.addAlias name other))
  | pubSub d, .addMethod name f => some (pubSub (d.addMethod name f))
  | pubSub d, .addMethodWithMeta name f => some (pubSub (d.addMethodWithMeta name f))
  | pubSub d, .addNotification name f => some (pubSub (d.addNotification name f))
  | pubSub _, .addNotificationWithMeta _ _ => none
  | pubSub d, .addSubscription name subscribe unsubscribe =>
    some (pubSub (d.addSubscription name subscribe unsubscribe))
  | pubSub d, .addAlias name other => some (pubSub (d.addAlias name other))

end TraitDelegate

/-- The entries that a statement inserts. -/
def Statement.bindings : Statement → List (String × RemoteProcedure TraitProcedure)
  | addMethod name f => [(name, .method (.simple (.closure f)))]
  | addMethodWithMeta name f => [(name, .method (.withMeta (.closure f)))]
  | addNotification name f => [(name, .notification (.simple (.closure f)))]
  | addNotificationWithMeta name f => [(name, .notification (.withMeta (.closure f)))]
  | addSubscription name subscribe unsubscribe =>
    [(subscribe.1, .method (.withMeta (.subscribe subscribe.2 ⟨name, unsubscribe.2⟩))),
      (unsubscribe.1, .method (.withMeta (.unsubscribe ⟨name, unsubscribe.2⟩)))]
  | addAlias name other => [(name, .alias other)]

namespace TraitDelegate

end TraitDelegate

/-- A closure with or without metadata. -/
def procedure (hasMetadata : Bool) (f : Closure) : Procedure TraitProcedure :=
  if hasMetadata then .withMeta (.closure f) else .simple (.closure f)

/-- A procedure calls a method of a trait. A method that subscribes calls the only one that
unsubscribes when its session ends. -/
def Wires (methods : List AnnotatedMethod) (m : AnnotatedMethod)
    (p : RemoteProcedure TraitProcedure) : Prop :=
  match m.attr.kind with
  | .rpc hasMetadata _ _ =>
    if m.traitItem.output.isNotification then
      ∃ closure, m.generateDelegateClosure .notification = .ok closure ∧
        p = .notification (procedure hasMetadata closure)
    else
      ∃ closure, m.generateDelegateClosure .standard = .ok closure ∧
        p = .method (procedure hasMetadata closure)
  | .pubSub name .subscribe =>
    ∃ closure unsubscribe, m.generateDelegateClosure .subscribe = .ok closure ∧
      methods.filter (·.isUnsubscribe name) = [unsubscribe] ∧
      p = .method (.withMeta (.subscribe closure ⟨name, unsubscribe⟩))
  | .pubSub name .unsubscribe => p = .method (.withMeta (.unsubscribe ⟨name, m⟩))

/-- A method is called by one procedure. -/
theorem Wires.unique {methods : List AnnotatedMethod} {m : AnnotatedMethod}
    {p p' : RemoteProcedure TraitProcedure} (h : Wires methods m p) (h' : Wires methods m p') :
    p = p' := by
  have hclosure {kind : MethodKind} {closure closure' : Closure}
      (h : m.generateDelegateClosure kind = .ok closure)
      (h' : m.generateDelegateClosure kind = .ok closure') : closure = closure' :=
    Except.ok.inj (h.symm.trans h')
  have hrpc {kind : MethodKind} {f : Closure → RemoteProcedure TraitProcedure}
      (h : ∃ closure, m.generateDelegateClosure kind = .ok closure ∧ p = f closure)
      (h' : ∃ closure, m.generateDelegateClosure kind = .ok closure ∧ p' = f closure) :
      p = p' := by
    obtain ⟨closure, hok, rfl⟩ := h
    obtain ⟨closure', hok', rfl⟩ := h'
    rw [hclosure hok hok']
  unfold Wires at h h'
  cases hkind : m.attr.kind with
  | rpc hasMetadata returns isNotification =>
    rw [hkind] at h h'
    dsimp only at h h'
    split at h
    · rename_i hnotification
      rw [if_pos hnotification] at h'
      exact hrpc h h'
    · rename_i hmethod
      rw [if_neg hmethod] at h'
      exact hrpc h h'
  | pubSub name kind =>
    rw [hkind] at h h'
    cases kind with
    | subscribe =>
      obtain ⟨closure, unsubscribe, hok, hfilter, rfl⟩ := h
      obtain ⟨closure', unsubscribe', hok', hfilter', rfl⟩ := h'
      cases hfilter.symm.trans hfilter'
      rw [hclosure hok hok']
    | unsubscribe => exact h.trans h'.symm

namespace AnnotatedMethod

/-- The name and the aliases of a method. -/
def keys (m : AnnotatedMethod) : List String := m.attr.name :: m.attr.aliases

/-- The aliases of a method as entries. -/
def aliasEntries (m : AnnotatedMethod) : List (String × RemoteProcedure TraitProcedure) :=
  m.attr.aliases.map fun name => (name, .alias m.attr.name)

/-- The entries of a method: its procedure, and its aliases. -/
def entries (m : AnnotatedMethod) (p : RemoteProcedure TraitProcedure) :
    List (String × RemoteProcedure TraitProcedure) :=
  (m.attr.name, p) :: m.aliasEntries

end AnnotatedMethod

/-- Some entries are those of some methods of a trait. -/
structure Binds (methods ms : List AnnotatedMethod)
    (bindings : List (String × RemoteProcedure TraitProcedure)) : Prop where
  wires : ∀ m ∈ ms, ∃ p, Wires methods m p
  mem_iff : ∀ binding, binding ∈ bindings ↔
    ∃ m ∈ ms, ∃ p, Wires methods m p ∧ binding ∈ m.entries p

section Binds

variable {methods ms ms' : List AnnotatedMethod}
  {bindings bindings' : List (String × RemoteProcedure TraitProcedure)}

theorem Binds.append (h : Binds methods ms bindings) (h' : Binds methods ms' bindings') :
    Binds methods (ms ++ ms') (bindings ++ bindings') where
  wires m hm := (List.mem_append.mp hm).elim (h.wires m) (h'.wires m)
  mem_iff binding := by
    rw [List.mem_append, h.mem_iff, h'.mem_iff]
    simp only [List.mem_append, or_and_right, exists_or]

/-- The order of the methods and of the entries does not matter. -/
theorem Binds.congr (h : Binds methods ms bindings) (hms : ∀ m, m ∈ ms' ↔ m ∈ ms)
    (hbindings : ∀ binding, binding ∈ bindings' ↔ binding ∈ bindings) :
    Binds methods ms' bindings' where
  wires m hm := h.wires m ((hms m).mp hm)
  mem_iff binding := by
    rw [hbindings, h.mem_iff]
    simp only [hms]

theorem AnnotatedMethod.mem_entries_iff {m : AnnotatedMethod}
    {p q : RemoteProcedure TraitProcedure} {key : String} :
    (key, q) ∈ m.entries p ↔
      key = m.attr.name ∧ q = p ∨ key ∈ m.attr.aliases ∧ q = .alias m.attr.name := by
  simp [entries, aliasEntries, eq_comm]

theorem AnnotatedMethod.mem_keys_of_mem_entries {m : AnnotatedMethod}
    {p q : RemoteProcedure TraitProcedure} {key : String} (h : (key, q) ∈ m.entries p) :
    key ∈ m.keys := by
  rcases mem_entries_iff.mp h with ⟨rfl, -⟩ | ⟨hkey, -⟩
  · exact List.mem_cons_self
  · exact List.mem_cons_of_mem _ hkey

/-- If no two methods share a key, then a key has one entry. -/
theorem Binds.unique (h : Binds methods methods bindings)
    (hkeys : (methods.flatMap AnnotatedMethod.keys).Nodup) {key : String}
    {q q' : RemoteProcedure TraitProcedure} (hq : (key, q) ∈ bindings)
    (hq' : (key, q') ∈ bindings) : q = q' := by
  obtain ⟨hnodup, hdisjoint⟩ := List.nodup_flatMap.mp hkeys
  obtain ⟨m, hm, p, hp, hmem⟩ := (h.mem_iff _).mp hq
  obtain ⟨m', hm', p', hp', hmem'⟩ := (h.mem_iff _).mp hq'
  have hsame : m = m' := by
    by_contra hne
    have : Std.Symm (Function.onFun List.Disjoint AnnotatedMethod.keys) :=
      ⟨fun _ _ hd _ hkey hkey' => hd hkey' hkey⟩
    exact hdisjoint.forall hm hm' hne (m.mem_keys_of_mem_entries hmem)
      (m'.mem_keys_of_mem_entries hmem')
  subst hsame
  obtain rfl := hp.unique hp'
  have hname := (List.nodup_cons.mp (hnodup m hm)).1
  rcases AnnotatedMethod.mem_entries_iff.mp hmem with ⟨rfl, rfl⟩ | ⟨halias, rfl⟩
  · rcases AnnotatedMethod.mem_entries_iff.mp hmem' with ⟨-, rfl⟩ | ⟨halias, -⟩
    · rfl
    · exact absurd halias hname
  · rcases AnnotatedMethod.mem_entries_iff.mp hmem' with ⟨rfl, -⟩ | ⟨-, rfl⟩
    · exact absurd halias hname
    · rfl

end Binds

/-! ## The functions of the delegate -/

namespace TraitDelegate

end TraitDelegate

/-- An argument of an attribute with a value. -/
def nameValue (key value : String) : NestedMeta := .item (.nameValue (.ident key) (.str value))

end JsonRpc.Derive
