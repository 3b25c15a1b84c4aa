import JsonRpc.Derive.Generate

/-!
# Accepted methods

A method of a trait is accepted if the client and the server can be generated for it and the
generated code compiles. Its arguments are the metadata, the subscriber and the arguments that
are passed in the parameters. The client takes the last of these if and only if it keeps every
argument but the metadata.
-/

namespace JsonRpc.Derive

/-- The special arguments that the registration of a method passes to its closure. -/
def RpcMethod.expectedSpecialArgs (m : RpcMethod) : List SpecialArg :=
  match m.kind with
  | .subscribe => [.metadata, .subscriber]
  | _ => if m.hasMetadata then [.metadata] else []

/-- The types of the arguments after the special ones. -/
def RpcMethod.passedTypes (m : RpcMethod) : List Ty :=
  (m.inputs.filterMap FnArg.ty?).drop m.expectedSpecialArgs.length

/-- The last of the types is an option. -/
def endsInOption (types : List Ty) : Bool := types.getLast?.any isOptionType

theorem trailingArgsNum_ne_zero_iff (types : List Ty) :
    trailingArgsNum types ≠ 0 ↔ endsInOption types = true := by
  rw [trailingArgsNum, endsInOption, List.getLast?_eq_head?_reverse]
  cases types.reverse with
  | nil => simp
  | cons ty rest => cases hty : isOptionType ty <;> simp [hty]

def FnArg.isTyped : FnArg → Bool
  | receiver => false
  | typed _ _ => true

/-- The argument has a name. -/
def FnArg.isNamed : FnArg → Bool
  | typed (.ident _) _ => true
  | _ => false

/-- A method for which a client and a server are generated. -/
structure Accepted where
  method : RpcMethod
  /-- The style that the attribute of the trait gives. -/
  optionsStyle : ParamStyle
  client : ClientMethod
  closure : DelegateClosure
  client_eq : generateClientMethod optionsStyle method = .ok client
  closure_eq : generateDelegateClosure method = .ok closure
  /-- Named parameters are refused for a server. -/
  paramsStyle_ne : method.paramsStyle ≠ some .named
  /-- The method has the signature that the closure expects. -/
  types_eq : method.inputs.filterMap FnArg.ty? =
    closure.specialArgs.map Prod.snd ++ closure.paramTypes
  /-- The closure has the arguments that its registration expects. -/
  specialArgs_eq : closure.specialArgs.map Prod.fst = method.expectedSpecialArgs
  /-- Raw parameters are a single argument. -/
  length_raw : closure.parseParams = .raw → closure.paramTypes.length = 1

namespace Accepted

variable (a : Accepted)

/-- The arguments of the method. -/
def typedInputs : List FnArg := a.method.inputs.filter FnArg.isTyped

/-- The arguments of the method but the metadata. -/
def afterMetadata : List FnArg := a.typedInputs.drop (min 1 a.closure.specialArgs.length)

/-- The arguments that are passed in the parameters. -/
def params : List FnArg := a.typedInputs.drop a.closure.specialArgs.length

/-! ## The arguments of the client -/

theorem filterMap_ty?_filter (inputs : List FnArg) :
    (inputs.filter FnArg.isTyped).filterMap FnArg.ty? = inputs.filterMap FnArg.ty? := by
  rw [List.filterMap_filter]
  apply List.filterMap_congr
  rintro (_ | ⟨pat, ty⟩) - <;> rfl

/-- The types of arguments are taken one by one. -/
theorem filterMap_ty?_drop {args : List FnArg} (htyped : ∀ arg ∈ args, arg.isTyped = true)
    (n : ℕ) : (args.drop n).filterMap FnArg.ty? = (args.filterMap FnArg.ty?).drop n := by
  induction args generalizing n with
  | nil => simp
  | cons arg args ih =>
    obtain ⟨harg, hargs⟩ := List.forall_mem_cons.mp htyped
    cases arg with
    | receiver => cases harg
    | typed pat ty =>
      cases n with
      | zero => rfl
      | succ n => exact ih hargs n

theorem isTyped_of_mem_typedInputs {arg : FnArg} (harg : arg ∈ a.typedInputs) :
    arg.isTyped = true :=
  (List.mem_filter.mp harg).2

theorem filterMap_ty?_typedInputs :
    a.typedInputs.filterMap FnArg.ty? =
      a.closure.specialArgs.map Prod.snd ++ a.closure.paramTypes :=
  (filterMap_ty?_filter _).trans a.types_eq

/-- The arguments that are passed in the parameters have the types of the parameters. -/
theorem filterMap_ty?_params : a.params.filterMap FnArg.ty? = a.closure.paramTypes := by
  rw [params, filterMap_ty?_drop fun arg harg => a.isTyped_of_mem_typedInputs harg,
    filterMap_ty?_typedInputs]
  apply List.drop_left'
  simp

/-- The parameters of the closure are the arguments after the special ones. -/
theorem passedTypes_method : a.method.passedTypes = a.closure.paramTypes := by
  rw [RpcMethod.passedTypes, a.types_eq, ← a.specialArgs_eq]
  apply List.drop_left'
  simp

/-- How the closure of a method is generated. -/
structure Generated (m : RpcMethod) (closure : DelegateClosure) : Prop where
  specialArgs_eq : closure.specialArgs = specialArgs (m.inputs.filterMap FnArg.ty?)
  withTrailing : (∃ n, closure.parseParams = .withTrailing n) ↔
    endsInOption closure.paramTypes = true
  noParams : closure.parseParams = .noParams ↔ closure.paramTypes = []
  raw : closure.parseParams = .raw → m.paramsStyle = some .raw
  positional : closure.parseParams = .positional → m.paramsStyle = some .positional

theorem generated : Generated a.method a.closure := by
  have hclosure := a.closure_eq
  generalize a.closure = closure at hclosure
  unfold generateDelegateClosure at hclosure
  dsimp only at hclosure
  split at hclosure
  · cases hclosure
  · split at hclosure
    · rename_i htrailing
      cases hclosure
      refine ⟨rfl, ⟨fun _ => (trailingArgsNum_ne_zero_iff _).mp htrailing, fun _ => ⟨_, rfl⟩⟩,
        ⟨nofun, fun hnil => absurd ?_ htrailing⟩, nofun, nofun⟩
      dsimp only at hnil
      rw [hnil]
      rfl
    · rename_i htrailing
      have hends := (trailingArgsNum_ne_zero_iff _).not.mp htrailing
      split at hclosure
      · rename_i hnil
        cases hclosure
        exact ⟨rfl, ⟨nofun, fun h => absurd h hends⟩, ⟨fun _ => hnil, fun _ => rfl⟩, nofun, nofun⟩
      · rename_i hnil
        split at hclosure
        · rename_i hraw
          cases hclosure
          exact ⟨rfl, ⟨nofun, fun h => absurd h hends⟩, ⟨nofun, fun h => absurd h hnil⟩,
            fun _ => hraw, nofun⟩
        · split at hclosure
          · rename_i hpositional
            cases hclosure
            exact ⟨rfl, ⟨nofun, fun h => absurd h hends⟩, ⟨nofun, fun h => absurd h hnil⟩, nofun,
              fun _ => hpositional⟩
          · cases hclosure

/-- The metadata has its type. -/
theorem isMetadataType_of_mem {types : List Ty} {ty : Ty}
    (hmem : (SpecialArg.metadata, ty) ∈ specialArgs types) : isMetadataType ty = true := by
  unfold specialArgs at hmem
  rcases List.mem_append.mp hmem with hmem | hmem
  · obtain ⟨ty', hty', heq⟩ := Option.map_eq_some_iff.mp (Option.mem_toList.mp hmem)
    cases heq
    exact (Option.filter_eq_some_iff.mp hty').2
  · obtain ⟨ty', -, heq⟩ := Option.map_eq_some_iff.mp (Option.mem_toList.mp hmem)
    cases heq

/-- The first special argument is the metadata. -/
theorem specialArg_eq_metadata {m : RpcMethod} {special : SpecialArg} {rest : List SpecialArg}
    (h : m.expectedSpecialArgs = special :: rest) : special = .metadata := by
  unfold RpcMethod.expectedSpecialArgs at h
  split at h
  · cases h
    rfl
  · split at h
    · cases h
      rfl
    · cases h

/-- The client does not keep the metadata. -/
theorem isClientArg_metadata {pat : Pat} {ty : Ty} (hty : isMetadataType ty = true) :
    (FnArg.typed pat ty).isClientArg = false := by
  rw [of_decide_eq_true hty]
  rfl

theorem isTyped_of_isClientArg {arg : FnArg} (harg : arg.isClientArg = true) :
    arg.isTyped = true := by
  cases arg with
  | receiver => cases harg
  | typed pat ty => rfl

/-- The client keeps some of the arguments but the metadata. -/
theorem computeArgs_eq :
    computeArgs a.method.inputs = a.afterMetadata.filter FnArg.isClientArg := by
  have htyped : computeArgs a.method.inputs = a.typedInputs.filter FnArg.isClientArg := by
    rw [typedInputs, List.filter_filter, computeArgs]
    apply List.filter_congr
    intro arg _
    cases harg : arg.isClientArg with
    | true => rw [isTyped_of_isClientArg harg]; rfl
    | false => rfl
  have hmetadata : ∀ arg ∈ a.typedInputs.take (min 1 a.closure.specialArgs.length),
      arg.isClientArg = false := by
    have htypes := a.filterMap_ty?_typedInputs
    have hspecial := a.specialArgs_eq
    have hgenerated := a.generated.specialArgs_eq
    cases hargs : a.closure.specialArgs with
    | nil => simp
    | cons special rest =>
      obtain ⟨special, ty⟩ := special
      rw [hargs] at htypes hspecial hgenerated
      obtain rfl := specialArg_eq_metadata hspecial.symm
      have hty : isMetadataType ty = true :=
        isMetadataType_of_mem (hgenerated ▸ List.mem_cons_self)
      cases hinputs : a.typedInputs with
      | nil =>
        rw [hinputs] at htypes
        cases htypes
      | cons first inputs =>
        intro arg harg
        obtain rfl : arg = first := by simpa using harg
        rw [hinputs] at htypes
        cases arg with
        | receiver =>
          have htyped := a.isTyped_of_mem_typedInputs (hinputs ▸ List.mem_cons_self)
          cases htyped
        | typed pat ty' =>
          obtain ⟨rfl, -⟩ := List.cons.inj htypes
          exact isClientArg_metadata hty
  rw [htyped, afterMetadata]
  nth_rewrite 1 [← List.take_append_drop (min 1 a.closure.specialArgs.length) a.typedInputs]
  rw [List.filter_append, List.filter_eq_nil_iff.mpr, List.nil_append]
  intro arg harg
  rw [hmetadata arg harg]
  exact Bool.false_ne_true

theorem of_eq_ok {args : List FnArg} {encoding : Encoding} {client : ClientMethod}
    (h : ClientMethod.of args encoding = .ok client) :
    client.args = args ∧ client.encoding = encoding := by
  unfold ClientMethod.of at h
  split at h
  · cases h
    exact ⟨rfl, rfl⟩
  · cases h

/-- How the function of the client is generated. -/
inductive ClientGenerated : Prop
  | standard (hkind : a.method.kind = .standard)
      (hafter : a.afterMetadata = a.params)
      (hargs : a.client.args = a.params.filter FnArg.isClientArg)
      (hencoding : a.client.encoding = .call (a.method.paramsStyle.getD a.optionsStyle))
  | notification (hkind : a.method.kind = .notification)
      (hafter : a.afterMetadata = a.params)
      (hargs : a.client.args = a.params.filter FnArg.isClientArg)
      (hencoding : a.client.encoding = .notify)
  | subscribe (first subscriber : FnArg) (hkind : a.method.kind = .subscribe)
      (hafter : a.afterMetadata = subscriber :: a.params)
      (hargs : a.afterMetadata.filter FnArg.isClientArg = first :: a.client.args)
      (hencoding : a.client.encoding = .subscribe)

/-- Only a subscription has a special argument after the metadata. -/
theorem afterMetadata_eq_params (hkind : a.method.kind ≠ .subscribe) :
    a.afterMetadata = a.params := by
  have hlength : a.closure.specialArgs.length ≤ 1 := by
    have hspecial := congrArg List.length a.specialArgs_eq
    rw [List.length_map, RpcMethod.expectedSpecialArgs] at hspecial
    split at hspecial
    · contradiction
    · split at hspecial <;> simp [hspecial]
  rw [afterMetadata, params, Nat.min_eq_right hlength]

/-- A subscription has the metadata, the subscriber and the parameters. -/
theorem exists_subscriber (hkind : a.method.kind = .subscribe) :
    ∃ subscriber, a.afterMetadata = subscriber :: a.params := by
  have hlength : a.closure.specialArgs.length = 2 := by
    have hspecial := congrArg List.length a.specialArgs_eq
    rw [List.length_map, RpcMethod.expectedSpecialArgs, hkind] at hspecial
    exact hspecial
  have hinputs : 1 < a.typedInputs.length := by
    have htypes := congrArg List.length a.filterMap_ty?_typedInputs
    have hle := List.length_filterMap_le FnArg.ty? a.typedInputs
    rw [List.length_append, List.length_map, hlength] at htypes
    omega
  refine ⟨a.typedInputs[1], ?_⟩
  rw [afterMetadata, params, hlength]
  exact List.drop_eq_getElem_cons hinputs

theorem clientGenerated : a.ClientGenerated := by
  have hclient := a.client_eq
  unfold generateClientMethod at hclient
  rw [a.computeArgs_eq] at hclient
  cases hkind : a.method.kind with
  | standard =>
    rw [hkind] at hclient
    obtain ⟨hargs, hencoding⟩ := of_eq_ok hclient
    have hafter := a.afterMetadata_eq_params (by rw [hkind]; exact nofun)
    exact .standard hkind hafter (hafter ▸ hargs) hencoding
  | notification =>
    rw [hkind] at hclient
    obtain ⟨hargs, hencoding⟩ := of_eq_ok hclient
    have hafter := a.afterMetadata_eq_params (by rw [hkind]; exact nofun)
    exact .notification hkind hafter (hafter ▸ hargs) hencoding
  | subscribe =>
    rw [hkind] at hclient
    dsimp only at hclient
    obtain ⟨subscriber, hafter⟩ := a.exists_subscriber hkind
    split at hclient
    · cases hclient
    · rename_i first args hfilter
      split at hclient
      · obtain ⟨hargs, hencoding⟩ := of_eq_ok hclient
        exact .subscribe first subscriber hkind hafter (hargs ▸ hfilter) hencoding
      · cases hclient

/-- The client takes the arguments that are passed in the parameters if and only if it keeps
every argument but the metadata. -/
theorem args_eq_iff :
    a.client.args = a.params ↔ ∀ arg ∈ a.afterMetadata, arg.isClientArg = true := by
  cases a.clientGenerated with
  | standard hkind hafter hargs => rw [hargs, hafter, List.filter_eq_self]
  | notification hkind hafter hargs => rw [hargs, hafter, List.filter_eq_self]
  | subscribe first subscriber hkind hafter hargs =>
    rw [hafter] at hargs ⊢
    cases hsubscriber : subscriber.isClientArg with
    | true =>
      rw [List.filter_cons_of_pos hsubscriber] at hargs
      rw [← (List.cons.inj hargs).2, List.filter_eq_self, List.forall_mem_cons]
      exact (and_iff_right hsubscriber).symm
    | false =>
      -- The client takes the first parameter for the subscriber.
      rw [List.filter_cons_of_neg (by simp [hsubscriber])] at hargs
      refine iff_of_false (fun heq => ?_) fun hall => ?_
      · have hlength := List.length_filter_le FnArg.isClientArg a.params
        rw [hargs, heq, List.length_cons] at hlength
        omega
      · cases hsubscriber.symm.trans (hall subscriber List.mem_cons_self)

end Accepted

end JsonRpc.Derive
