import JsonRpc.Derive.Attribute
import JsonRpc.Lib.Partition
import Mathlib.Data.List.AList

/-!
# Registration of methods

The annotated methods of a trait are registered in two passes. The first pass goes over the
methods: it registers each `rpc` method at once and groups the `pubsub` methods by the name of
their subscription. The second pass goes over the groups, in the order of a hash map, and
registers each of them if it is complete. The registrations are a partition of the methods,
whatever this order is.
-/

namespace JsonRpc.Derive

/-! ## Methods of a trait -/

structure TraitItemMethod where
  ident : String
  attrs : List Attribute
  inputs : List FnArg
  output : ReturnType

inductive TraitItem where
  | method (method : TraitItemMethod)
  | other (tokens : String)

/-- A method of a trait with its attribute. -/
structure AnnotatedMethod where
  attr : RpcMethodAttribute
  traitItem : TraitItemMethod

/-- The first argument with the type of a subscriber. -/
def AnnotatedMethod.subscriberArg (m : AnnotatedMethod) : Option Ty :=
  (m.traitItem.inputs.filterMap FnArg.ty?).find? isSubscriberType

/-- Collect results up to the first error. -/
def collect {α : Type} : List (Except String α) → Except String (List α)
  | [] => .ok []
  | .error e :: _ => .error e
  | .ok a :: results => (collect results).map (a :: ·)

def RpcMethodAttribute.parseAttr (method : TraitItemMethod) :
    Except String (Option RpcMethodAttribute) :=
  match collect (method.attrs.filterMap fun attr => parseMeta attr method.output) with
  | .error e => .error e
  | .ok attrs =>
    if attrs.length ≤ 1 then .ok attrs.head?
    else .error "Expected only a single rpc attribute per method"

/-- The method of an item, if it is annotated. -/
def TraitItem.annotated : TraitItem → Option (Except String AnnotatedMethod)
  | method m =>
    match RpcMethodAttribute.parseAttr m with
    | .ok (some attr) => some (.ok ⟨attr, m⟩)
    | .ok none => none
    | .error e => some (.error e)
  | other _ => none

inductive MethodRegistration where
  | standard (method : AnnotatedMethod) (hasMetadata : Bool)
  | pubSub (name : String) (subscribes : List AnnotatedMethod) (unsubscribe : AnnotatedMethod)
  | notification (method : AnnotatedMethod) (hasMetadata : Bool)

/-! ## The two passes -/

/-- The methods to subscribe to and to unsubscribe from each subscription. -/
abbrev PubSubMethodPairs :=
  AList fun _ : String => List AnnotatedMethod × Option AnnotatedMethod

/-- The entries of a hash map. -/
abbrev PubSubEntry := Σ _ : String, List AnnotatedMethod × Option AnnotatedMethod

structure Registering where
  pubsubMethodPairs : PubSubMethodPairs
  methodRegistrations : List MethodRegistration

/-- Register one method in the first pass. -/
def Registering.add (r : Registering) (m : AnnotatedMethod) : Except String Registering :=
  match m.attr.kind with
  | .rpc hasMetadata _ true =>
    .ok { r with methodRegistrations := r.methodRegistrations ++ [.notification m hasMetadata] }
  | .rpc hasMetadata _ false =>
    .ok { r with methodRegistrations := r.methodRegistrations ++ [.standard m hasMetadata] }
  | .pubSub name kind =>
    let pair := (r.pubsubMethodPairs.lookup name).getD ([], none)
    match kind with
    | .subscribe =>
      .ok { r with pubsubMethodPairs := r.pubsubMethodPairs.insert name (pair.1 ++ [m], pair.2) }
    | .unsubscribe =>
      match pair.2 with
      | none =>
        .ok { r with pubsubMethodPairs := r.pubsubMethodPairs.insert name (pair.1, some m) }
      | some _ =>
        .error ("Subscription '" ++ name ++ "' unsubscribe method is already defined")

/-- The first pass. -/
def Registering.addAll : Registering → List AnnotatedMethod → Except String Registering
  | r, [] => .ok r
  | r, m :: methods =>
    match r.add m with
    | .error e => .error e
    | .ok r => r.addAll methods

/-- What the registration rests on. -/
structure RegistrationLibraries where
  /-- The tokens of a type. -/
  tokens : Ty → String
  /-- The order in which a hash map is iterated. -/
  iterate : List PubSubEntry → List PubSubEntry
  iterate_perm : ∀ entries, (iterate entries).Perm entries

/-- Hash maps that are iterated in the order of their entries. -/
def RegistrationLibraries.inOrder : RegistrationLibraries where
  tokens _ := ""
  iterate := id
  iterate_perm := List.Perm.refl

variable (L : RegistrationLibraries)

def missingSubscribeMethodErr : String :=
  "Can't find subscribe method, expected a method annotated with `subscribe` " ++
    "e.g. `#[pubsub(subscription = \"hello\", subscribe, name = \"hello_subscribe\")]`"

def missingUnsubscribeMethodErr : String :=
  "Can't find unsubscribe method, expected a method annotated with `unsubscribe` " ++
    "e.g. `#[pubsub(subscription = \"hello\", unsubscribe, name = \"hello_unsubscribe\")]`"

/-- The types of subscribers are the first one. -/
def checkSubscriberArgs : List Ty → Except String Unit
  | [] => .ok ()
  | first :: rest =>
    match rest.find? fun ty => ty ≠ first with
    | none => .ok ()
    | some next =>
      .error ("Inconsistent signature for 'Subscriber' argument: " ++ L.tokens next ++
        ", previously defined: " ++ L.tokens first)

/-- Register one subscription in the second pass. -/
def registerPair (name : String) :
    List AnnotatedMethod × Option AnnotatedMethod → Except String MethodRegistration
  | (subscribers, some unsubscribe) =>
    if subscribers.isEmpty then
      .error ("subscription '" ++ name ++ "'. " ++ missingSubscribeMethodErr)
    else
      match checkSubscriberArgs L (subscribers.filterMap AnnotatedMethod.subscriberArg) with
      | .error e => .error e
      | .ok () => .ok (.pubSub name subscribers unsubscribe)
  | (_, none) => .error ("subscription '" ++ name ++ "'. " ++ missingUnsubscribeMethodErr)

/-- The second pass. -/
def registerPairs : List MethodRegistration → List PubSubEntry →
    Except String (List MethodRegistration)
  | registrations, [] => .ok registrations
  | registrations, ⟨name, pair⟩ :: entries =>
    match registerPair L name pair with
    | .error e => .error e
    | .ok registration => registerPairs (registrations ++ [registration]) entries

def computeMethodRegistrations (items : List TraitItem) :
    Except String (List MethodRegistration × List AnnotatedMethod) :=
  match collect (items.filterMap TraitItem.annotated) with
  | .error e => .error e
  | .ok methods =>
    match Registering.addAll ⟨∅, []⟩ methods with
    | .error e => .error e
    | .ok r =>
      match registerPairs L r.methodRegistrations (L.iterate r.pubsubMethodPairs.entries) with
      | .error e => .error e
      | .ok registrations => .ok (registrations, methods)

/-! ## Annotated methods -/

/-- Every attribute of a method is read without an error, and at most one of them is `rpc` or
`pubsub`. -/
def TraitItemMethod.WellAnnotated (m : TraitItemMethod) : Prop :=
  (∀ attr ∈ m.attrs, ∀ e, RpcMethodAttribute.parseMeta attr m.output ≠ some (.error e)) ∧
    (m.attrs.filter fun attr =>
      (RpcMethodAttribute.parseMeta attr m.output).isSome).length ≤ 1

/-- The annotated methods, in the order of the source. -/
def annotatedMethods (items : List TraitItem) : List AnnotatedMethod :=
  items.filterMap fun item => item.annotated.bind Except.toOption

theorem bind_eq_ok_iff {α β : Type} {x : Except String α} {f : α → Except String β} {b : β} :
    x.bind f = .ok b ↔ ∃ a, x = .ok a ∧ f a = .ok b := by
  cases x <;> simp [Except.bind]

theorem collect_eq_ok_iff {α : Type} {results : List (Except String α)} {as : List α} :
    collect results = .ok as ↔ results = as.map .ok := by
  induction results generalizing as with
  | nil => cases as <;> simp [collect]
  | cons result results ih =>
    cases result with
    | error e => cases as <;> simp [collect]
    | ok a =>
      have hcons : collect (.ok a :: results) =
          (collect results).bind fun as' => .ok (a :: as') := rfl
      rw [hcons, bind_eq_ok_iff]
      simp only [ih]
      constructor
      · rintro ⟨as', rfl, has⟩
        cases has
        rfl
      · intro h
        obtain ⟨a', as', rfl, ha, hrest⟩ := List.map_eq_cons_iff.mp h.symm
        cases ha
        exact ⟨as', hrest.symm, rfl⟩

/-- Results without an error are collected. -/
theorem exists_collect_eq_ok {α : Type} {results : List (Except String α)}
    (h : ∀ e, .error e ∉ results) : ∃ as, collect results = .ok as := by
  induction results with
  | nil => exact ⟨[], rfl⟩
  | cons result results ih =>
    obtain ⟨as, has⟩ := ih fun e he => h e (List.mem_cons_of_mem _ he)
    cases result with
    | error e => exact absurd List.mem_cons_self (h e)
    | ok a =>
      refine ⟨a :: as, ?_⟩
      rw [collect, has]
      rfl

theorem not_mem_of_collect {α : Type} {results : List (Except String α)} {as : List α}
    (h : collect results = .ok as) (e : String) : .error e ∉ results := by
  rw [collect_eq_ok_iff] at h
  rw [h, List.mem_map]
  rintro ⟨a, _, ha⟩
  cases ha

/-- The attribute of a method is found exactly if the method is well annotated. -/
theorem exists_parseAttr_eq_ok_iff (m : TraitItemMethod) :
    (∃ attr, RpcMethodAttribute.parseAttr m = .ok attr) ↔ m.WellAnnotated := by
  have hmem (e : String) : (.error e ∈ m.attrs.filterMap fun attr =>
      RpcMethodAttribute.parseMeta attr m.output) ↔
        ∃ attr ∈ m.attrs, RpcMethodAttribute.parseMeta attr m.output = some (.error e) :=
    List.mem_filterMap
  have hlength : (m.attrs.filter fun attr =>
      (RpcMethodAttribute.parseMeta attr m.output).isSome).length =
        (m.attrs.filterMap fun attr => RpcMethodAttribute.parseMeta attr m.output).length := by
    rw [← List.countP_eq_length_filter, List.length_filterMap_eq_countP]
  unfold RpcMethodAttribute.parseAttr TraitItemMethod.WellAnnotated
  rw [hlength]
  constructor
  · rintro ⟨attr, hattr⟩
    split at hattr
    · cases hattr
    · rename_i attrs hattrs
      have hlength' : (m.attrs.filterMap fun attr =>
          RpcMethodAttribute.parseMeta attr m.output).length = attrs.length := by
        rw [collect_eq_ok_iff.mp hattrs, List.length_map]
      split at hattr
      · rename_i hle
        refine ⟨fun attr' hattr' e he => ?_, hlength'.trans_le hle⟩
        exact not_mem_of_collect hattrs e ((hmem e).mpr ⟨attr', hattr', he⟩)
      · cases hattr
  · rintro ⟨hnone, hle⟩
    obtain ⟨attrs, hattrs⟩ := exists_collect_eq_ok fun e he => by
      obtain ⟨attr, hattr, hparse⟩ := (hmem e).mp he
      exact hnone attr hattr e hparse
    refine ⟨attrs.head?, ?_⟩
    rw [collect_eq_ok_iff.mp hattrs, List.length_map] at hle
    rw [hattrs]
    exact if_pos hle

theorem annotated_method_eq_error_iff {m : TraitItemMethod} {e : String} :
    (TraitItem.method m).annotated = some (.error e) ↔
      RpcMethodAttribute.parseAttr m = .error e := by
  rw [TraitItem.annotated]
  cases RpcMethodAttribute.parseAttr m with
  | error e' => simp
  | ok attr => cases attr <;> simp

theorem eq_annotatedMethods_of_collect {items : List TraitItem} {methods : List AnnotatedMethod}
    (h : collect (items.filterMap TraitItem.annotated) = .ok methods) :
    methods = annotatedMethods items := by
  rw [collect_eq_ok_iff] at h
  calc methods
      = (methods.map Except.ok).filterMap Except.toOption := by
        rw [List.filterMap_map]
        exact (List.filterMap_some (l := methods)).symm
    _ = annotatedMethods items := by
        rw [← h, List.filterMap_filterMap]
        rfl

/-- The methods are found exactly if all of them are well annotated. -/
theorem collect_annotated_eq_ok_iff {items : List TraitItem} {methods : List AnnotatedMethod} :
    collect (items.filterMap TraitItem.annotated) = .ok methods ↔
      (∀ m, .method m ∈ items → m.WellAnnotated) ∧ methods = annotatedMethods items := by
  constructor
  · intro h
    refine ⟨fun m hm => ?_, eq_annotatedMethods_of_collect h⟩
    rw [← exists_parseAttr_eq_ok_iff]
    cases hattr : RpcMethodAttribute.parseAttr m with
    | error e =>
      have herror := annotated_method_eq_error_iff.mpr hattr
      exact absurd (List.mem_filterMap.mpr ⟨_, hm, herror⟩) (not_mem_of_collect h e)
    | ok attr => exact ⟨attr, rfl⟩
  · rintro ⟨hwell, rfl⟩
    obtain ⟨methods, hmethods⟩ : ∃ methods,
        collect (items.filterMap TraitItem.annotated) = .ok methods := by
      apply exists_collect_eq_ok
      intro e he
      obtain ⟨item, hitem, herror⟩ := List.mem_filterMap.mp he
      cases item with
      | method m =>
        obtain ⟨attr, hattr⟩ := (exists_parseAttr_eq_ok_iff m).mpr (hwell m hitem)
        rw [annotated_method_eq_error_iff, hattr] at herror
        cases herror
      | other tokens => cases herror
    rw [hmethods, eq_annotatedMethods_of_collect hmethods]

/-! ## What is registered -/

namespace AnnotatedMethod

/-- The name of the subscription of a method. -/
def subscription (m : AnnotatedMethod) : Option String :=
  match m.attr.kind with
  | .rpc _ _ _ => none
  | .pubSub name _ => some name

def isSubscribe (name : String) (m : AnnotatedMethod) : Bool :=
  m.attr.kind = .pubSub name .subscribe

def isUnsubscribe (name : String) (m : AnnotatedMethod) : Bool :=
  m.attr.kind = .pubSub name .unsubscribe

/-- The registration of an `rpc` method. Its return type says whether it is a notification. -/
def rpcRegistration (m : AnnotatedMethod) : Option MethodRegistration :=
  match m.attr.kind with
  | .rpc hasMetadata _ _ =>
    if m.traitItem.output.isNotification then some (.notification m hasMetadata)
    else some (.standard m hasMetadata)
  | .pubSub _ _ => none

/-- The attribute agrees with the return type. -/
def Typed (m : AnnotatedMethod) : Prop :=
  ∀ {hasMetadata returns isNotification},
    m.attr.kind = .rpc hasMetadata returns isNotification →
      isNotification = m.traitItem.output.isNotification

variable {m : AnnotatedMethod} {name : String}

theorem subscription_of_isSubscribe (h : m.isSubscribe name) : m.subscription = some name := by
  rw [isSubscribe, decide_eq_true_eq] at h
  rw [subscription, h]

theorem subscription_of_isUnsubscribe (h : m.isUnsubscribe name) :
    m.subscription = some name := by
  rw [isUnsubscribe, decide_eq_true_eq] at h
  rw [subscription, h]

/-- A method of a subscription subscribes or unsubscribes. -/
theorem subscription_eq_some_iff :
    m.subscription = some name ↔ m.isSubscribe name ∨ m.isUnsubscribe name := by
  constructor
  · intro h
    rw [subscription] at h
    rw [isSubscribe, isUnsubscribe, decide_eq_true_eq, decide_eq_true_eq]
    split at h
    · cases h
    · rename_i name' kind hkind
      cases h
      rw [hkind]
      cases kind with
      | subscribe => exact .inl rfl
      | unsubscribe => exact .inr rfl
  · rintro (h | h)
    · exact subscription_of_isSubscribe h
    · exact subscription_of_isUnsubscribe h

theorem isUnsubscribe_eq_false (h : m.isSubscribe name) : m.isUnsubscribe name = false := by
  rw [isSubscribe, decide_eq_true_eq] at h
  rw [isUnsubscribe, h]
  simp

theorem isSubscribe_eq_false (h : m.isUnsubscribe name) : m.isSubscribe name = false := by
  rw [isUnsubscribe, decide_eq_true_eq] at h
  rw [isSubscribe, h]
  simp

theorem subscription_of_rpcRegistration {r : MethodRegistration}
    (h : m.rpcRegistration = some r) : m.subscription = none := by
  rw [rpcRegistration] at h
  split at h
  · rename_i hkind
    rw [subscription, hkind]
  · cases h

theorem isSome_rpcRegistration (m : AnnotatedMethod) :
    m.rpcRegistration.isSome = !m.subscription.isSome := by
  rw [rpcRegistration, subscription]
  cases m.attr.kind with
  | rpc hasMetadata returns isNotification =>
    dsimp only
    split <;> rfl
  | pubSub name kind => rfl

end AnnotatedMethod

namespace RpcMethodAttribute

theorem kind_of_ofKind {m : Meta} {kind : AttributeKind} {attr : RpcMethodAttribute}
    (h : ofKind m kind = .ok attr) : attr.kind = kind := by
  unfold ofKind at h
  split at h
  · cases h
  · split at h
    · cases h
    · cases h
      rfl

/-- An attribute is read from one of the two kinds. -/
theorem ofMeta_eq_some_ok {m : Meta} {output : ReturnType} {attr : RpcMethodAttribute}
    (h : ofMeta m output = some (.ok attr)) :
    parseRpc m output = .ok attr.kind ∨ parsePubsub m = .ok attr.kind := by
  have hkind {result : Except String AttributeKind} (hbind : result.bind (ofKind m) = .ok attr) :
      result = .ok attr.kind := by
    cases result with
    | error e => cases hbind
    | ok kind => rw [kind_of_ofKind hbind]
  unfold ofMeta at h
  split at h
  · exact .inl (hkind (Option.some.inj h))
  · split at h
    · exact .inr (hkind (Option.some.inj h))
    · cases h

/-- The return type says whether a method is a notification. -/
theorem isNotification_of_parseRpc {m : Meta} {output : ReturnType} {hasMetadata : Bool}
    {returns : Option String} {isNotification : Bool}
    (h : parseRpc m output = .ok (.rpc hasMetadata returns isNotification)) :
    isNotification = output.isNotification := by
  unfold parseRpc at h
  dsimp only at h
  split at h
  · cases h
  · cases h
    rfl

theorem parsePubsub_ne_rpc {m : Meta} {hasMetadata : Bool} {returns : Option String}
    {isNotification : Bool} :
    parsePubsub m ≠ .ok (.rpc hasMetadata returns isNotification) := by
  intro h
  unfold parsePubsub at h
  split at h
  · cases h
  · split at h
    · cases h
    · split at h <;> cases h

theorem isNotification_of_parseMeta {source : Attribute} {output : ReturnType}
    {attr : RpcMethodAttribute} (h : parseMeta source output = some (.ok attr))
    {hasMetadata : Bool} {returns : Option String} {isNotification : Bool}
    (hkind : attr.kind = .rpc hasMetadata returns isNotification) :
    isNotification = output.isNotification := by
  unfold parseMeta at h
  split at h
  · cases h
  · split at h
    · cases h
    · rcases ofMeta_eq_some_ok h with hrpc | hpubsub
      · rw [hkind] at hrpc
        exact isNotification_of_parseRpc hrpc
      · rw [hkind] at hpubsub
        exact absurd hpubsub parsePubsub_ne_rpc

theorem exists_parseMeta_of_parseAttr {m : TraitItemMethod} {attr : RpcMethodAttribute}
    (h : parseAttr m = .ok (some attr)) :
    ∃ source ∈ m.attrs, parseMeta source m.output = some (.ok attr) := by
  unfold parseAttr at h
  split at h
  · cases h
  · rename_i attrs hattrs
    split at h
    · have hmem : attr ∈ attrs := List.mem_of_head? (Except.ok.inj h)
      have hok : .ok attr ∈ attrs.map (Except.ok : _ → Except String RpcMethodAttribute) :=
        List.mem_map_of_mem hmem
      rw [← collect_eq_ok_iff.mp hattrs] at hok
      exact List.mem_filterMap.mp hok
    · cases h

end RpcMethodAttribute

/-- The attribute of an annotated method agrees with its return type. -/
theorem typed_of_mem_annotatedMethods {items : List TraitItem} {m : AnnotatedMethod}
    (hm : m ∈ annotatedMethods items) : m.Typed := by
  obtain ⟨item, _, hitem⟩ := List.mem_filterMap.mp hm
  have hannotated : item.annotated = some (.ok m) := by
    cases hresult : item.annotated with
    | none =>
      rw [hresult] at hitem
      cases hitem
    | some result =>
      rw [hresult] at hitem
      cases result with
      | error e => cases hitem
      | ok m' =>
        cases hitem
        rfl
  unfold TraitItem.annotated at hannotated
  split at hannotated
  · split at hannotated
    · rename_i hattr
      cases hannotated
      obtain ⟨source, _, hparse⟩ := RpcMethodAttribute.exists_parseMeta_of_parseAttr hattr
      intro hasMetadata returns isNotification hkind
      exact RpcMethodAttribute.isNotification_of_parseMeta hparse hkind
    · cases hannotated
    · cases hannotated
  · cases hannotated

/-- The methods of a registration. -/
def MethodRegistration.methods : MethodRegistration → List AnnotatedMethod
  | standard m _ => [m]
  | notification m _ => [m]
  | pubSub _ subscribes unsubscribe => subscribes ++ [unsubscribe]

theorem AnnotatedMethod.methods_of_rpcRegistration {m : AnnotatedMethod} {r : MethodRegistration}
    (h : m.rpcRegistration = some r) : r.methods = [m] := by
  rw [rpcRegistration] at h
  split at h
  · split at h
    · cases h
      rfl
    · cases h
      rfl
  · cases h

/-- The registration of a subscription. Its methods are in the order of the source. -/
def IsSubscription (methods : List AnnotatedMethod) (name : String) (r : MethodRegistration) :
    Prop :=
  ∃ unsubscribe, methods.filter (·.isUnsubscribe name) = [unsubscribe] ∧
    r = .pubSub name (methods.filter (·.isSubscribe name)) unsubscribe

/-- A subscription can be registered: it has one method to unsubscribe and at least one to
subscribe, and its methods to subscribe agree on the type of a subscriber. -/
structure Complete (methods : List AnnotatedMethod) (name : String) : Prop where
  unsubscribe : (methods.filter (·.isUnsubscribe name)).length = 1
  subscribe : ∃ m ∈ methods, m.isSubscribe name
  agree : ∀ m ∈ methods, ∀ m' ∈ methods, m.isSubscribe name → m'.isSubscribe name →
    ∀ ty ty', m.subscriberArg = some ty → m'.subscriberArg = some ty' → ty = ty'

/-- Every subscription that occurs can be registered. -/
def Registrable (methods : List AnnotatedMethod) : Prop :=
  ∀ name, (∃ m ∈ methods, m.subscription = some name) → Complete methods name

/-- The registrations of some methods: the `rpc` methods in the order of the source, and then one
registration for each subscription, in some order. -/
def Registers (methods : List AnnotatedMethod) (registrations : List MethodRegistration) :
    Prop :=
  ∃ names subscriptions, names.Nodup ∧
    (∀ name, name ∈ names ↔ ∃ m ∈ methods, m.subscription = some name) ∧
    List.Forall₂ (IsSubscription methods) names subscriptions ∧
    registrations = methods.filterMap AnnotatedMethod.rpcRegistration ++ subscriptions

end JsonRpc.Derive
