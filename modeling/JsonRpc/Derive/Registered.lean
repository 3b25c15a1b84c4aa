import JsonRpc.Derive.Registration

/-!
# Registrations are a partition

The first pass keeps the methods grouped: the pair of a subscription holds its methods in the
order of the source. From this it follows when both passes succeed, and what they register. No
method is lost or registered twice.
-/

namespace JsonRpc.Derive

/-! ## The first pass -/

/-- The pair of a subscription. -/
def group (methods : List AnnotatedMethod) (name : String) :
    Option (List AnnotatedMethod × Option AnnotatedMethod) :=
  if methods.any (·.subscription = some name) then
    some (methods.filter (·.isSubscribe name), (methods.filter (·.isUnsubscribe name)).head?)
  else none

/-- The state of the first pass after some methods. -/
structure Grouped (methods : List AnnotatedMethod) (r : Registering) : Prop where
  registrations : r.methodRegistrations = methods.filterMap AnnotatedMethod.rpcRegistration
  lookup : ∀ name, r.pubsubMethodPairs.lookup name = group methods name
  length_le : ∀ name, (methods.filter (·.isUnsubscribe name)).length ≤ 1

section Group

variable {methods : List AnnotatedMethod} {m : AnnotatedMethod} {name : String}

theorem filter_isSubscribe_append_of_ne (h : m.subscription ≠ some name) :
    (methods ++ [m]).filter (·.isSubscribe name) = methods.filter (·.isSubscribe name) := by
  have hm : ¬m.isSubscribe name := fun hm => h (AnnotatedMethod.subscription_of_isSubscribe hm)
  simp [hm]

theorem filter_isUnsubscribe_append_of_ne (h : m.subscription ≠ some name) :
    (methods ++ [m]).filter (·.isUnsubscribe name) = methods.filter (·.isUnsubscribe name) := by
  have hm : ¬m.isUnsubscribe name :=
    fun hm => h (AnnotatedMethod.subscription_of_isUnsubscribe hm)
  simp [hm]

/-- Other subscriptions keep their pair. -/
theorem group_append_of_ne (h : m.subscription ≠ some name) :
    group (methods ++ [m]) name = group methods name := by
  unfold group
  rw [filter_isSubscribe_append_of_ne h, filter_isUnsubscribe_append_of_ne h, List.any_append]
  simp [h]

theorem group_append_of_eq (h : m.subscription = some name) :
    group (methods ++ [m]) name =
      some ((methods ++ [m]).filter (·.isSubscribe name),
        ((methods ++ [m]).filter (·.isUnsubscribe name)).head?) := by
  rw [group, if_pos]
  simp [h]

/-- A subscription that did not occur has no methods. -/
theorem getD_group (methods : List AnnotatedMethod) (name : String) :
    (group methods name).getD ([], none) =
      (methods.filter (·.isSubscribe name), (methods.filter (·.isUnsubscribe name)).head?) := by
  unfold group
  split
  · rfl
  · rename_i hnone
    rw [List.any_eq_true] at hnone
    have hsubscribe : methods.filter (·.isSubscribe name) = [] := by
      rw [List.filter_eq_nil_iff]
      intro m hm hsub
      exact hnone ⟨m, hm, decide_eq_true (AnnotatedMethod.subscription_of_isSubscribe hsub)⟩
    have hunsubscribe : methods.filter (·.isUnsubscribe name) = [] := by
      rw [List.filter_eq_nil_iff]
      intro m hm hunsub
      exact hnone ⟨m, hm, decide_eq_true (AnnotatedMethod.subscription_of_isUnsubscribe hunsub)⟩
    rw [hsubscribe, hunsubscribe]
    rfl

end Group

namespace Grouped

variable {methods : List AnnotatedMethod} {m : AnnotatedMethod} {r r' : Registering}

theorem empty : Grouped [] ⟨∅, []⟩ where
  registrations := rfl
  lookup _ := rfl
  length_le _ := Nat.zero_le _

/-- An `rpc` method is registered at once. -/
theorem append_rpc (h : Grouped methods r) {registration : MethodRegistration}
    (hm : m.rpcRegistration = some registration) :
    Grouped (methods ++ [m])
      { r with methodRegistrations := r.methodRegistrations ++ [registration] } := by
  have hne (name : String) : m.subscription ≠ some name := by
    rw [AnnotatedMethod.subscription_of_rpcRegistration hm]
    simp
  constructor
  · rw [List.filterMap_append, ← h.registrations]
    simp [hm]
  · intro name
    rw [group_append_of_ne (hne name)]
    exact h.lookup name
  · intro name
    rw [filter_isUnsubscribe_append_of_ne (hne name)]
    exact h.length_le name

/-- A `pubsub` method goes to the pair of its subscription. -/
theorem append_pubSub (h : Grouped methods r) {name : String}
    (hm : m.subscription = some name)
    (hle : ((methods ++ [m]).filter (·.isUnsubscribe name)).length ≤ 1) :
    Grouped (methods ++ [m])
      ⟨r.pubsubMethodPairs.insert name
        ((methods ++ [m]).filter (·.isSubscribe name),
          ((methods ++ [m]).filter (·.isUnsubscribe name)).head?),
        r.methodRegistrations⟩ := by
  have hrpc : m.rpcRegistration = none := by
    have hsome := m.isSome_rpcRegistration
    rw [hm] at hsome
    exact Option.isNone_iff_eq_none.mp (by simpa using hsome)
  constructor
  · rw [List.filterMap_append, ← h.registrations]
    simp [hrpc]
  · intro name'
    by_cases hname : name' = name
    · subst hname
      rw [group_append_of_eq hm]
      exact AList.lookup_insert _
    · rw [group_append_of_ne (by rw [hm]; simpa [eq_comm] using hname), ← h.lookup]
      exact AList.lookup_insert_ne hname
  · intro name'
    by_cases hname : name' = name
    · subst hname
      exact hle
    · rw [filter_isUnsubscribe_append_of_ne (by rw [hm]; simpa [eq_comm] using hname)]
      exact h.length_le name'

/-- One method in the first pass. It is refused if its subscription has a method to unsubscribe
already. -/
theorem add (h : Grouped methods r) (hm : m.Typed) :
    (∃ r', r.add m = .ok r' ∧ Grouped (methods ++ [m]) r') ∨
      (∃ e, r.add m = .error e) ∧
        ∃ name, ((methods ++ [m]).filter (·.isUnsubscribe name)).length = 2 := by
  unfold Registering.add
  cases hkind : m.attr.kind with
  | rpc hasMetadata returns isNotification =>
    have hnotification := hm hkind
    subst hnotification
    left
    cases houtput : m.traitItem.output.isNotification with
    | true =>
      refine ⟨_, rfl, h.append_rpc ?_⟩
      rw [AnnotatedMethod.rpcRegistration, hkind]
      exact if_pos houtput
    | false =>
      refine ⟨_, rfl, h.append_rpc ?_⟩
      rw [AnnotatedMethod.rpcRegistration, hkind]
      exact if_neg (by simp [houtput])
  | pubSub name kind =>
    have hsubscription : m.subscription = some name := by
      rw [AnnotatedMethod.subscription, hkind]
    have hgrouped := h.append_pubSub hsubscription
    have hle := h.length_le name
    dsimp only
    rw [h.lookup name, getD_group]
    cases kind with
    | subscribe =>
      have hsub : m.isSubscribe name := decide_eq_true hkind
      have hunsub := AnnotatedMethod.isUnsubscribe_eq_false hsub
      rw [List.filter_append, List.filter_append, List.filter_cons_of_pos hsub,
        List.filter_cons_of_neg (by simp [hunsub]), List.filter_nil, List.filter_nil,
        List.append_nil] at hgrouped
      exact .inl ⟨_, rfl, hgrouped hle⟩
    | unsubscribe =>
      have hunsub : m.isUnsubscribe name := decide_eq_true hkind
      have hsub := AnnotatedMethod.isSubscribe_eq_false hunsub
      have happend : (methods ++ [m]).filter (·.isUnsubscribe name) =
          methods.filter (·.isUnsubscribe name) ++ [m] := by
        rw [List.filter_append, List.filter_cons_of_pos hunsub, List.filter_nil]
      rw [happend, List.filter_append, List.filter_cons_of_neg (by simp [hsub]), List.filter_nil,
        List.append_nil] at hgrouped
      cases hfilter : methods.filter (·.isUnsubscribe name) with
      | nil =>
        rw [hfilter] at hgrouped
        exact .inl ⟨_, rfl, hgrouped le_rfl⟩
      | cons first rest =>
        refine .inr ⟨⟨_, rfl⟩, name, ?_⟩
        rw [hfilter, List.length_cons] at hle
        rw [happend, List.length_append, hfilter, List.length_cons, List.length_singleton]
        omega

/-- The first pass succeeds if no subscription has two methods to unsubscribe. -/
theorem addAll {rest : List AnnotatedMethod} (h : Grouped methods r)
    (hrest : ∀ m ∈ rest, m.Typed) :
    (∃ r', r.addAll rest = .ok r' ∧ Grouped (methods ++ rest) r') ∨
      (∃ e, r.addAll rest = .error e) ∧
        ∃ name, 1 < ((methods ++ rest).filter (·.isUnsubscribe name)).length := by
  induction rest generalizing methods r with
  | nil =>
    rw [List.append_nil]
    exact .inl ⟨r, rfl, h⟩
  | cons m rest ih =>
    rw [List.append_cons, Registering.addAll]
    rcases h.add (hrest m List.mem_cons_self) with ⟨r', hadd, h'⟩ | ⟨⟨e, hadd⟩, name, hlength⟩
    · rw [hadd]
      exact ih h' fun m' hm' => hrest m' (List.mem_cons_of_mem _ hm')
    · rw [hadd]
      refine .inr ⟨⟨e, rfl⟩, name, ?_⟩
      rw [List.filter_append, List.length_append]
      omega

/-- The subscriptions of the pairs are the ones of the methods. -/
theorem mem_keys_iff (h : Grouped methods r) (name : String) :
    name ∈ r.pubsubMethodPairs.keys ↔ ∃ m ∈ methods, m.subscription = some name := by
  rw [← AList.mem_keys, ← AList.lookup_isSome, h.lookup, group]
  split
  · rename_i hany
    simpa using hany
  · rename_i hany
    simpa using hany

/-- Each pair holds the methods of its subscription. -/
theorem entry_eq (h : Grouped methods r) {entry : PubSubEntry}
    (hentry : entry ∈ r.pubsubMethodPairs.entries) :
    entry.2 = (methods.filter (·.isSubscribe entry.1),
      (methods.filter (·.isUnsubscribe entry.1)).head?) := by
  have hlookup : r.pubsubMethodPairs.lookup entry.1 = some entry.2 :=
    AList.mem_lookup_iff.mpr hentry
  rw [← getD_group, ← h.lookup, hlookup, Option.getD_some]

end Grouped

/-! ## The second pass -/

section Pairs

variable {L : RegistrationLibraries}

/-- The types of subscribers agree. -/
theorem checkSubscriberArgs_eq_ok_iff {types : List Ty} :
    checkSubscriberArgs L types = .ok () ↔ ∀ ty ∈ types, ∀ ty' ∈ types, ty = ty' := by
  cases types with
  | nil => simp [checkSubscriberArgs]
  | cons first rest =>
    have hfirst : (∀ ty ∈ first :: rest, ∀ ty' ∈ first :: rest, ty = ty') ↔
        ∀ ty ∈ rest, ty = first := by
      constructor
      · intro h ty hty
        exact h ty (List.mem_cons_of_mem _ hty) first List.mem_cons_self
      · intro h
        have hall : ∀ ty ∈ first :: rest, ty = first := by
          intro ty hty
          rcases List.mem_cons.mp hty with rfl | hty
          · rfl
          · exact h ty hty
        intro ty hty ty' hty'
        rw [hall ty hty, hall ty' hty']
    rw [hfirst, checkSubscriberArgs]
    cases hfind : rest.find? fun ty => ty ≠ first with
    | none =>
      rw [List.find?_eq_none] at hfind
      simpa using hfind
    | some next =>
      have hne := List.find?_some hfind
      have hmem := List.mem_of_find?_eq_some hfind
      rw [decide_eq_true_eq] at hne
      constructor
      · intro h
        cases h
      · intro h
        exact absurd (h next hmem) hne

/-- A subscription is registered if it is complete. -/
theorem registerPair_eq_ok_iff {name : String} {subscribers : List AnnotatedMethod}
    {unsubscribe : Option AnnotatedMethod} {registration : MethodRegistration} :
    registerPair L name (subscribers, unsubscribe) = .ok registration ↔
      ∃ m, unsubscribe = some m ∧ subscribers ≠ [] ∧
        (∀ ty ∈ subscribers.filterMap AnnotatedMethod.subscriberArg,
          ∀ ty' ∈ subscribers.filterMap AnnotatedMethod.subscriberArg, ty = ty') ∧
        registration = .pubSub name subscribers m := by
  rw [← checkSubscriberArgs_eq_ok_iff (L := L)]
  cases unsubscribe with
  | none => simp [registerPair]
  | some m =>
    rw [registerPair]
    cases subscribers with
    | nil => simp
    | cons first rest =>
      rw [if_neg (by simp)]
      cases checkSubscriberArgs L ((first :: rest).filterMap AnnotatedMethod.subscriberArg) with
      | error e => simp
      | ok u => simp [eq_comm]

/-- The second pass registers each pair. -/
theorem registerPairs_eq_ok_iff {registrations out : List MethodRegistration}
    {entries : List PubSubEntry} :
    registerPairs L registrations entries = .ok out ↔
      ∃ subscriptions,
        List.Forall₂ (fun entry r => registerPair L entry.1 entry.2 = .ok r)
          entries subscriptions ∧
        out = registrations ++ subscriptions := by
  induction entries generalizing registrations with
  | nil => simp [registerPairs, eq_comm]
  | cons entry entries ih =>
    have hbind : registerPairs L registrations (entry :: entries) =
        (registerPair L entry.1 entry.2).bind fun registration =>
          registerPairs L (registrations ++ [registration]) entries := by
      rw [registerPairs]
      cases registerPair L entry.1 entry.2 <;> rfl
    rw [hbind, bind_eq_ok_iff]
    simp only [ih, List.forall₂_cons_left_iff]
    constructor
    · rintro ⟨registration, hpair, subscriptions, h, rfl⟩
      exact ⟨_, ⟨registration, subscriptions, hpair, h, rfl⟩, by simp⟩
    · rintro ⟨_, ⟨registration, subscriptions, hpair, h, rfl⟩, rfl⟩
      exact ⟨registration, hpair, subscriptions, h, by simp⟩

variable {methods : List AnnotatedMethod} {name : String}

/-- The types of subscribers in the pair of a subscription are the ones of its methods. -/
theorem mem_subscriberArgs_iff {ty : Ty} :
    ty ∈ (methods.filter (·.isSubscribe name)).filterMap AnnotatedMethod.subscriberArg ↔
      ∃ m ∈ methods, m.isSubscribe name ∧ m.subscriberArg = some ty := by
  simp only [List.mem_filterMap, List.mem_filter, and_assoc]

/-- The pair of a subscription is registered if the subscription is complete. -/
theorem registerPair_group_iff
    (hle : (methods.filter (·.isUnsubscribe name)).length ≤ 1)
    {registration : MethodRegistration} :
    registerPair L name (methods.filter (·.isSubscribe name),
        (methods.filter (·.isUnsubscribe name)).head?) = .ok registration ↔
      Complete methods name ∧ IsSubscription methods name registration := by
  rw [registerPair_eq_ok_iff]
  simp only [mem_subscriberArgs_iff]
  constructor
  · rintro ⟨unsubscribe, hhead, hne, hagree, rfl⟩
    have hfilter : methods.filter (·.isUnsubscribe name) = [unsubscribe] := by
      obtain ⟨rest, hrest⟩ := List.head?_eq_some_iff.mp hhead
      rw [hrest, List.length_cons] at hle
      have hnil : rest = [] := List.length_eq_zero_iff.mp (by omega)
      rw [hrest, hnil]
    refine ⟨⟨by rw [hfilter]; rfl, ?_, ?_⟩, unsubscribe, hfilter, rfl⟩
    · obtain ⟨m, hm⟩ := List.exists_mem_of_ne_nil _ hne
      exact ⟨m, List.mem_filter.mp hm⟩
    · intro m hm m' hm' hsub hsub' ty ty' hty hty'
      exact hagree ty ⟨m, hm, hsub, hty⟩ ty' ⟨m', hm', hsub', hty'⟩
  · rintro ⟨hcomplete, unsubscribe, hfilter, rfl⟩
    refine ⟨unsubscribe, by rw [hfilter]; rfl, ?_, ?_, rfl⟩
    · obtain ⟨m, hm, hsub⟩ := hcomplete.subscribe
      exact List.ne_nil_of_mem (List.mem_filter.mpr ⟨hm, hsub⟩)
    · rintro ty ⟨m, hm, hsub, hty⟩ ty' ⟨m', hm', hsub', hty'⟩
      exact hcomplete.agree m hm m' hm' hsub hsub' ty ty' hty hty'

/-- A complete subscription has a registration. -/
theorem Complete.exists_isSubscription (h : Complete methods name) :
    ∃ registration, IsSubscription methods name registration := by
  obtain ⟨unsubscribe, hfilter⟩ := List.length_eq_one_iff.mp h.unsubscribe
  exact ⟨_, unsubscribe, hfilter, rfl⟩

variable {r : Registering}

/-- The second pass after the first one. -/
theorem Grouped.registerPairs_eq_ok_iff (h : Grouped methods r) {out : List MethodRegistration} :
    registerPairs L r.methodRegistrations (L.iterate r.pubsubMethodPairs.entries) = .ok out ↔
      Registrable methods ∧
        ∃ subscriptions,
          List.Forall₂ (IsSubscription methods)
            ((L.iterate r.pubsubMethodPairs.entries).map Sigma.fst) subscriptions ∧
          out = methods.filterMap AnnotatedMethod.rpcRegistration ++ subscriptions := by
  have hentry : ∀ entry ∈ L.iterate r.pubsubMethodPairs.entries, ∀ registration,
      registerPair L entry.1 entry.2 = .ok registration ↔
        Complete methods entry.1 ∧ IsSubscription methods entry.1 registration := by
    intro entry hentry registration
    rw [h.entry_eq ((L.iterate_perm _).mem_iff.mp hentry)]
    exact registerPair_group_iff (h.length_le entry.1)
  have hregistrable : (∀ entry ∈ L.iterate r.pubsubMethodPairs.entries,
      Complete methods entry.1) ↔ Registrable methods := by
    unfold Registrable
    simp only [← h.mem_keys_iff, (L.iterate_perm _).mem_iff]
    rw [AList.keys, List.keys, List.forall_mem_map]
  rw [JsonRpc.Derive.registerPairs_eq_ok_iff, ← h.registrations]
  simp only [List.forall₂_iff_of_mem hentry, List.forall₂_and_left, hregistrable,
    List.forall₂_map_left_iff]
  constructor
  · rintro ⟨subscriptions, ⟨hmethods, hsubscriptions⟩, rfl⟩
    exact ⟨hmethods, subscriptions, hsubscriptions, rfl⟩
  · rintro ⟨hmethods, subscriptions, hsubscriptions, rfl⟩
    exact ⟨subscriptions, ⟨hmethods, hsubscriptions⟩, rfl⟩

end Pairs

/-! ## The partition -/

section Partition

variable {methods : List AnnotatedMethod}

/-- Each `rpc` method is in its own registration. -/
theorem flatMap_rpcRegistration (methods : List AnnotatedMethod) :
    (methods.filterMap AnnotatedMethod.rpcRegistration).flatMap MethodRegistration.methods =
      methods.filter fun m => !m.subscription.isSome := by
  induction methods with
  | nil => rfl
  | cons m methods ih =>
    have hsome := m.isSome_rpcRegistration
    cases hrpc : m.rpcRegistration with
    | none =>
      rw [hrpc, Option.isSome_none] at hsome
      rw [List.filterMap_cons_none hrpc, List.filter_cons_of_neg (by rw [← hsome]; simp), ih]
    | some registration =>
      rw [hrpc, Option.isSome_some] at hsome
      rw [List.filterMap_cons_some hrpc, List.filter_cons_of_pos (by rw [← hsome]),
        List.flatMap_cons, AnnotatedMethod.methods_of_rpcRegistration hrpc, ih]
      rfl

/-- All methods of a subscription are in its registration. -/
theorem IsSubscription.methods_perm {name : String} {registration : MethodRegistration}
    (h : IsSubscription methods name registration) :
    registration.methods.Perm (methods.filter fun m => m.subscription = some name) := by
  obtain ⟨unsubscribe, hfilter, rfl⟩ := h
  rw [MethodRegistration.methods, ← hfilter]
  apply List.filter_append_filter_perm
  · intro m _ hsub
    exact AnnotatedMethod.isUnsubscribe_eq_false hsub
  · intro m _
    simp [AnnotatedMethod.subscription_eq_some_iff]

/-- No method is lost or registered twice. -/
theorem Registers.flatMap_perm {registrations : List MethodRegistration}
    (h : Registers methods registrations) :
    (registrations.flatMap MethodRegistration.methods).Perm methods := by
  obtain ⟨names, subscriptions, hnodup, hnames, hsubscriptions, rfl⟩ := h
  have hgroups := hsubscriptions.flatMap_perm fun name registration hr => hr.methods_perm
  have hpubsub : (methods.filter fun m => m.subscription.any (names.contains ·)) =
      methods.filter fun m => m.subscription.isSome := by
    apply List.filter_congr
    intro m hm
    cases hm' : m.subscription with
    | none => rfl
    | some name => simpa using (hnames name).mpr ⟨m, hm, hm'⟩
  rw [List.flatMap_append, flatMap_rpcRegistration]
  have hkeys := List.flatMap_filter_perm AnnotatedMethod.subscription hnodup methods
  rw [hpubsub] at hkeys
  refine ((hgroups.trans hkeys).append_left _).trans ?_
  exact List.perm_append_comm.trans (List.filter_append_perm _ _)

end Partition

/-! ## Both passes -/

section Passes

variable {L : RegistrationLibraries} {methods : List AnnotatedMethod} {r : Registering}

theorem computeMethodRegistrations_eq_ok_iff {items : List TraitItem}
    {registrations : List MethodRegistration} :
    computeMethodRegistrations L items = .ok (registrations, methods) ↔
      collect (items.filterMap TraitItem.annotated) = .ok methods ∧
        ∃ r, Registering.addAll ⟨∅, []⟩ methods = .ok r ∧
          registerPairs L r.methodRegistrations (L.iterate r.pubsubMethodPairs.entries) =
            .ok registrations := by
  have hbind : computeMethodRegistrations L items =
      (collect (items.filterMap TraitItem.annotated)).bind fun methods =>
        (Registering.addAll ⟨∅, []⟩ methods).bind fun r =>
          (registerPairs L r.methodRegistrations
            (L.iterate r.pubsubMethodPairs.entries)).bind fun registrations =>
              .ok (registrations, methods) := by
    unfold computeMethodRegistrations
    cases collect (items.filterMap TraitItem.annotated) with
    | error e => rfl
    | ok methods =>
      dsimp only [Except.bind]
      cases Registering.addAll ⟨∅, []⟩ methods with
      | error e => rfl
      | ok r =>
        dsimp only
        cases registerPairs L r.methodRegistrations
          (L.iterate r.pubsubMethodPairs.entries) <;> rfl
  rw [hbind]
  simp only [bind_eq_ok_iff, Except.ok.injEq, Prod.mk.injEq]
  constructor
  · rintro ⟨methods', hcollect, r, hadd, registrations', hpairs, rfl, rfl⟩
    exact ⟨hcollect, r, hadd, hpairs⟩
  · rintro ⟨hcollect, r, hadd, hpairs⟩
    exact ⟨methods, hcollect, r, hadd, registrations, hpairs, rfl, rfl⟩

/-- The names of the pairs, in the order of an iteration. -/
theorem mem_iterate_iff (h : Grouped methods r) (name : String) :
    name ∈ (L.iterate r.pubsubMethodPairs.entries).map Sigma.fst ↔
      ∃ m ∈ methods, m.subscription = some name := by
  rw [← h.mem_keys_iff]
  exact ((L.iterate_perm _).map _).mem_iff

/-- After the first pass the second one registers the methods. -/
theorem Grouped.registers (h : Grouped methods r) {out : List MethodRegistration}
    (hout : registerPairs L r.methodRegistrations (L.iterate r.pubsubMethodPairs.entries) =
      .ok out) : Registers methods out := by
  obtain ⟨_, subscriptions, hsubscriptions, hout⟩ := h.registerPairs_eq_ok_iff.mp hout
  have hnodup : ((L.iterate r.pubsubMethodPairs.entries).map Sigma.fst).Nodup :=
    ((L.iterate_perm _).map _).nodup_iff.mpr r.pubsubMethodPairs.keys_nodup
  exact ⟨_, subscriptions, hnodup, mem_iterate_iff h, hsubscriptions, hout⟩

theorem Grouped.exists_registerPairs (h : Grouped methods r) (hmethods : Registrable methods) :
    ∃ out, registerPairs L r.methodRegistrations (L.iterate r.pubsubMethodPairs.entries) =
      .ok out := by
  obtain ⟨subscriptions, hsubscriptions⟩ : ∃ subscriptions,
      List.Forall₂ (IsSubscription methods)
        ((L.iterate r.pubsubMethodPairs.entries).map Sigma.fst) subscriptions := by
    apply List.exists_forall₂
    intro name hname
    exact (hmethods name ((mem_iterate_iff h name).mp hname)).exists_isSubscription
  exact ⟨_, h.registerPairs_eq_ok_iff.mpr ⟨hmethods, subscriptions, hsubscriptions, rfl⟩⟩

/-- Methods that can be registered pass the first pass. -/
theorem Registrable.exists_addAll (h : Registrable methods)
    (htyped : ∀ m ∈ methods, m.Typed) :
    ∃ r, Registering.addAll ⟨∅, []⟩ methods = .ok r := by
  rcases Grouped.empty.addAll htyped with ⟨r, hr, _⟩ | ⟨_, name, hlength⟩
  · exact ⟨r, hr⟩
  · rw [List.nil_append] at hlength
    obtain ⟨m, hm⟩ := List.exists_mem_of_length_pos (Nat.zero_lt_of_lt hlength)
    obtain ⟨hm, hunsub⟩ := List.mem_filter.mp hm
    have hcomplete := h name ⟨m, hm, AnnotatedMethod.subscription_of_isUnsubscribe hunsub⟩
    have hone := hcomplete.unsubscribe
    omega

/-- The first pass groups the methods. -/
theorem Grouped.of_addAll (htyped : ∀ m ∈ methods, m.Typed)
    (h : Registering.addAll ⟨∅, []⟩ methods = .ok r) : Grouped methods r := by
  rcases Grouped.empty.addAll htyped with ⟨r', hr', hgrouped⟩ | ⟨⟨e, he⟩, _⟩
  · rw [h] at hr'
    cases hr'
    exact hgrouped
  · rw [h] at he
    cases he

end Passes

/-- **Registrations.** The methods of a trait are registered exactly if all of them are well
annotated and every subscription is complete. Then the `rpc` methods come in the order of the
source, followed by one registration for each subscription. These registrations are a
partition of the annotated methods, in whatever order a hash map is iterated. -/
theorem registrations_partition (L : RegistrationLibraries) (items : List TraitItem) :
    ((∃ out, computeMethodRegistrations L items = .ok out) ↔
      (∀ m, .method m ∈ items → m.WellAnnotated) ∧ Registrable (annotatedMethods items)) ∧
    ∀ registrations methods, computeMethodRegistrations L items = .ok (registrations, methods) →
      methods = annotatedMethods items ∧ Registers methods registrations ∧
        (registrations.flatMap MethodRegistration.methods).Perm methods := by
  have htyped : ∀ m ∈ annotatedMethods items, m.Typed :=
    fun m hm => typed_of_mem_annotatedMethods hm
  refine ⟨⟨?_, ?_⟩, ?_⟩
  · rintro ⟨⟨registrations, methods⟩, hout⟩
    obtain ⟨hcollect, r, hadd, hpairs⟩ := computeMethodRegistrations_eq_ok_iff.mp hout
    obtain ⟨hwell, rfl⟩ := collect_annotated_eq_ok_iff.mp hcollect
    have hgrouped := Grouped.of_addAll htyped hadd
    exact ⟨hwell, (hgrouped.registerPairs_eq_ok_iff.mp hpairs).1⟩
  · rintro ⟨hwell, hregistrable⟩
    have hcollect := collect_annotated_eq_ok_iff.mpr ⟨hwell, rfl⟩
    obtain ⟨r, hadd⟩ := hregistrable.exists_addAll htyped
    obtain ⟨out, hpairs⟩ := (Grouped.of_addAll htyped hadd).exists_registerPairs hregistrable
    exact ⟨_, computeMethodRegistrations_eq_ok_iff.mpr ⟨hcollect, r, hadd, hpairs⟩⟩
  · intro registrations methods hout
    obtain ⟨hcollect, r, hadd, hpairs⟩ := computeMethodRegistrations_eq_ok_iff.mp hout
    obtain ⟨_, rfl⟩ := collect_annotated_eq_ok_iff.mp hcollect
    have hregisters := (Grouped.of_addAll htyped hadd).registers hpairs
    exact ⟨rfl, hregisters, hregisters.flatMap_perm⟩

end JsonRpc.Derive
