import JsonRpc.Core.Dispatch
import JsonRpc.PubSub.Session

/-!
# Delegates

A delegate is a table of procedures that call one object. It is filled entry by entry, and a
handler is then extended with its entries, in the order of a hash map. The delegate of
subscriptions wraps the delegate of methods. It lacks notifications with metadata.
-/

namespace JsonRpc

/-! ## Methods and notifications -/

/-- A set of methods and notifications that call one object. -/
structure IoDelegate (P : Type) where
  methods : AList fun _ : String => RemoteProcedure P

namespace IoDelegate

variable {P : Type}

def new : IoDelegate P := ⟨∅⟩

/-- Insert an entry into the table. -/
def insert (d : IoDelegate P) (name : String) (p : RemoteProcedure P) : IoDelegate P :=
  ⟨d.methods.insert name p⟩

def addAlias (d : IoDelegate P) (name other : String) : IoDelegate P :=
  d.insert name (.alias other)

def addMethod (d : IoDelegate P) (name : String) (f : P) : IoDelegate P :=
  d.insert name (.method (.simple f))

def addMethodWithMeta (d : IoDelegate P) (name : String) (f : P) : IoDelegate P :=
  d.insert name (.method (.withMeta f))

def addNotification (d : IoDelegate P) (name : String) (f : P) : IoDelegate P :=
  d.insert name (.notification (.simple f))

def addNotificationWithMeta (d : IoDelegate P) (name : String) (f : P) : IoDelegate P :=
  d.insert name (.notification (.withMeta f))

/-- Look an entry up in the table. -/
def get (d : IoDelegate P) (name : String) : Option (RemoteProcedure P) := d.methods.lookup name

/-- The entries of the table. A hash map is iterated in any order of them. -/
def entries (d : IoDelegate P) : List (String × RemoteProcedure P) :=
  d.methods.entries.map fun entry => (entry.1, entry.2)

end IoDelegate

section Bindings

variable {P : Type} {bindings : List (String × RemoteProcedure P)}

/-- If no name is bound to two entries, the last entry of a name is its only one. -/
theorem lastBinding_eq_some_iff
    (hunique : ∀ name p p', (name, p) ∈ bindings → (name, p') ∈ bindings → p = p')
    {name : String} {p : RemoteProcedure P} :
    lastBinding bindings name = some p ↔ (name, p) ∈ bindings := by
  constructor
  · intro hlookup
    obtain ⟨before, after, hsplit, _⟩ := List.lookup_eq_some_iff.mp hlookup
    rw [← List.mem_reverse, hsplit]
    exact List.mem_append_right _ List.mem_cons_self
  · intro hmem
    cases hlookup : lastBinding bindings name with
    | none =>
      have hne := List.lookup_eq_none_iff.mp hlookup (name, p) (List.mem_reverse.mpr hmem)
      simp at hne
    | some p' =>
      obtain ⟨before, after, hsplit, _⟩ := List.lookup_eq_some_iff.mp hlookup
      have hmem' : (name, p') ∈ bindings := by
        rw [← List.mem_reverse, hsplit]
        exact List.mem_append_right _ List.mem_cons_self
      rw [hunique name p p' hmem hmem']

end Bindings

namespace IoDelegate

variable {P : Type} (d : IoDelegate P)

theorem mem_entries_iff {name : String} {p : RemoteProcedure P} :
    (name, p) ∈ d.entries ↔ d.get name = some p := by
  rw [get, ← Option.mem_def, AList.mem_lookup_iff, entries, List.mem_map]
  constructor
  · rintro ⟨entry, hentry, heq⟩
    cases heq
    exact hentry
  · intro hentry
    exact ⟨_, hentry, rfl⟩

/-- A handler that is extended with a delegate has the entries of the delegate and its own other
ones, in whatever order the delegate is iterated. -/
theorem get_extendWith (handler : MetaIoHandler P) {entries : List (String × RemoteProcedure P)}
    (hentries : entries.Perm d.entries) (name : String) :
    (handler.extendWith entries).get name = (d.get name).or (handler.get name) := by
  have hmem : ∀ name p, (name, p) ∈ entries ↔ d.get name = some p := by
    intro name p
    rw [hentries.mem_iff, mem_entries_iff]
  have hunique : ∀ name p p', (name, p) ∈ entries → (name, p') ∈ entries → p = p' := by
    intro name p p' hp hp'
    rw [hmem] at hp hp'
    exact Option.some.inj (hp.symm.trans hp')
  have hlast : lastBinding entries name = d.get name := by
    apply Option.ext
    intro p
    rw [lastBinding_eq_some_iff hunique, hmem]
  rw [MetaIoHandler.get_extendWith, hlast]

end IoDelegate

/-! ## Subscriptions -/

namespace PubSub

/-- A procedure in the table of a delegate: a closure, or a method of a subscription whose
handlers are closures. -/
inductive DelegateProcedure (F H : Type) where
  | closure (f : F)
  | subscribe (f : F) (method : Subscribe H)
  | unsubscribe (method : Unsubscribe H)

/-- A delegate with subscriptions. -/
structure IoDelegate (F H : Type) where
  inner : JsonRpc.IoDelegate (DelegateProcedure F H)

namespace IoDelegate

variable {F H : Type}

def new : IoDelegate F H := ⟨.new⟩

def addSubscription (d : IoDelegate F H) (name : String) (subscribe : String × F)
    (unsubscribe : String × H) : IoDelegate F H :=
  let (sub, unsub) := newSubscription name unsubscribe.2
  ⟨(d.inner.addMethodWithMeta subscribe.1 (.subscribe subscribe.2 sub)).addMethodWithMeta
    unsubscribe.1 (.unsubscribe unsub)⟩

def addAlias (d : IoDelegate F H) (name other : String) : IoDelegate F H :=
  ⟨d.inner.addAlias name other⟩

def addMethod (d : IoDelegate F H) (name : String) (f : F) : IoDelegate F H :=
  ⟨d.inner.addMethod name (.closure f)⟩

def addMethodWithMeta (d : IoDelegate F H) (name : String) (f : F) : IoDelegate F H :=
  ⟨d.inner.addMethodWithMeta name (.closure f)⟩

def addNotification (d : IoDelegate F H) (name : String) (f : F) : IoDelegate F H :=
  ⟨d.inner.addNotification name (.closure f)⟩

end IoDelegate

end PubSub

end JsonRpc
