import JsonRpc.Client.Transport
import JsonRpc.Derive.Accepted
import JsonRpc.Derive.Params

/-!
# Agreement of the generated client and server

The client and the server of an accepted method agree if the function of the client takes the
arguments that are passed in the parameters, and the server reads back what the client sends.
They agree exactly for the methods whose arguments are all kept by the client, have names, and
are written in a way that the server reads.
-/

namespace JsonRpc.Derive

namespace Accepted

variable (a : Accepted)

/-- **Agreement.** The client takes the arguments that are passed in the parameters, and the
server reads back the arguments that the client sends, whatever the types are. An argument
with raw parameters has the type of parameters. -/
def Agrees : Prop :=
  a.client.args = a.params ∧
    ∀ (U : Type) (I : ArgTypes U),
      (a.closure.parseParams = .raw → ∀ ty ∈ a.closure.paramTypes, I.IsParams ty) →
      ∀ us, List.Forall₂ I.Has a.closure.paramTypes us →
        ∃ params, a.client.send I us = .ok params ∧ a.closure.read I params = .ok us

/-- The server reads parameters in the style in which the client writes them. If the style is not
positional and there are parameters, then those of a call do not end in an option, and those of
a notification or of a subscription do. -/
def StylesMatch : Prop :=
  a.method.paramsStyle = some .positional ∨ a.method.passedTypes = [] ∨
    (a.method.kind = .standard ∧ endsInOption a.method.passedTypes = false) ∨
    (a.method.kind ≠ .standard ∧ endsInOption a.method.passedTypes = true)

/-- The client keeps the arguments, they have names, and the styles match. -/
structure Compatible : Prop where
  isClientArg : ∀ arg ∈ a.afterMetadata, arg.isClientArg = true
  isNamed : ∀ arg ∈ a.params, arg.isNamed = true
  stylesMatch : a.StylesMatch

end Accepted

/-! ## What is sent and what is read -/

section Semantics

variable {U : Type} (I : ArgTypes U)

/-- The values of arguments that all have names. -/
theorem namedValues_eq {args : List FnArg} (hnamed : ∀ arg ∈ args, arg.isNamed = true)
    (us : List U) :
    namedValues I args us = List.zipWith I.serialize (args.filterMap FnArg.ty?) us := by
  induction args generalizing us with
  | nil => rfl
  | cons arg args ih =>
    obtain ⟨harg, hargs⟩ := List.forall_mem_cons.mp hnamed
    match arg, us with
    | .typed (.ident name) ty, [] => rfl
    | .typed (.ident name) ty, u :: us => exact congrArg (I.serialize ty u :: ·) (ih hargs us)

/-- The parameters of a tuple. -/
def tupleParams (values : List Value) : Params := if values = [] then .none else .array values

theorem deserialize_serializeTuple (values : List Value) :
    Params.deserialize (serializeTuple values).content = some (tupleParams values) := by
  unfold serializeTuple tupleParams
  split
  · rfl
  · have hvalues : (values.map Value.content).map Value.deserialize = values := by
      rw [List.map_map]
      exact (List.map_congr_left fun v _ => v.deserialize_serialize).trans (List.map_id values)
    rw [Value.array, Params.deserialize, hvalues]

theorem callMethod_serializeTuple (values : List Value) :
    callMethod (serializeTuple values) = .ok (tupleParams values) := by
  rw [callMethod, deserialize_serializeTuple]

theorem notify_serializeTuple (values : List Value) :
    notify (serializeTuple values) = .ok (tupleParams values) := by
  rw [notify, deserialize_serializeTuple]
  cases values <;> rfl

/-- The arguments are written as a tuple. -/
def Encoding.isTuple : Encoding → Bool
  | .call .positional | .notify | .subscribe => true
  | .call _ => false

theorem send_eq_tuple {client : ClientMethod} (htuple : client.encoding.isTuple = true)
    (us : List U) :
    client.send I us = .ok (tupleParams (namedValues I client.args us)) := by
  obtain ⟨args, argNames, encoding⟩ := client
  match encoding with
  | .call .positional => exact callMethod_serializeTuple _
  | .notify => exact notify_serializeTuple _
  | .subscribe => exact notify_serializeTuple _

variable {types : List Ty} {us : List U}

/-- The values of arguments are read back. -/
theorem decodes_zipWith (htyped : List.Forall₂ I.Has types us) :
    Decodes I types (List.zipWith I.serialize types us) us := by
  induction htyped with
  | nil => exact .nil
  | cons hu _ ih => exact .cons (I.deserialize_serialize hu) ih

theorem length_zipWith_serialize (htyped : List.Forall₂ I.Has types us) :
    (List.zipWith I.serialize types us).length = types.length := by
  rw [List.length_zipWith, htyped.length_eq, Nat.min_self]

theorem parse_zipWith (htyped : List.Forall₂ I.Has types us) :
    parse I types (.array (List.zipWith I.serialize types us)) = .ok us :=
  parse_eq_ok_iff.mpr
    ⟨_, rfl, (length_zipWith_serialize I htyped).symm, decodes_zipWith I htyped⟩

/-- All parameters of a method are read back, whether or not some of them are optional. -/
theorem paramsWithTrailing_zipWith (htyped : List.Forall₂ I.Has types us) (trailing : ℕ) :
    paramsWithTrailing I trailing types (.array (List.zipWith I.serialize types us)) = .ok us := by
  have hlength := length_zipWith_serialize I htyped
  rw [paramsWithTrailing_eq_ok_iff rfl (by omega) (by omega)]
  refine ⟨us, decodes_zipWith I htyped, ?_⟩
  rw [hlength, Nat.sub_self, List.replicate_zero, List.append_nil]

/-- A tuple of all parameters of a method is read back. -/
theorem read_tupleParams {m : RpcMethod} {closure : DelegateClosure}
    (hclosure : Accepted.Generated m closure) (hraw : closure.parseParams ≠ .raw)
    (htyped : List.Forall₂ I.Has closure.paramTypes us) :
    closure.read I (tupleParams (List.zipWith I.serialize closure.paramTypes us)) = .ok us := by
  by_cases hnil : closure.paramTypes = []
  · have hus : us = [] := by
      rw [hnil] at htyped
      exact List.forall₂_nil_left_iff.mp htyped
    rw [DelegateClosure.read, hclosure.noParams.mpr hnil, hnil, hus]
    rfl
  · have harray : tupleParams (List.zipWith I.serialize closure.paramTypes us) =
        .array (List.zipWith I.serialize closure.paramTypes us) := by
      apply if_neg
      intro hzip
      have hlength := congrArg List.length hzip
      rw [List.length_zipWith, htyped.length_eq, Nat.min_self, List.length_nil,
        ← htyped.length_eq] at hlength
      exact hnil (List.length_eq_zero_iff.mp hlength)
    rw [harray, DelegateClosure.read]
    cases hparse : closure.parseParams with
    | withTrailing n => exact paramsWithTrailing_zipWith I htyped n
    | noParams => exact absurd (hclosure.noParams.mp hparse) hnil
    | raw => exact absurd hparse hraw
    | positional => exact parse_zipWith I htyped

/-- Values are sent for arguments with a name only. -/
theorem length_namedValues_le (args : List FnArg) (us : List U) :
    (namedValues I args us).length ≤ args.countP FnArg.isNamed := by
  induction args generalizing us with
  | nil => exact Nat.zero_le _
  | cons arg args ih =>
    match arg, us with
    | arg, [] => exact Nat.zero_le _
    | .receiver, u :: us => exact ih us
    | .typed .wild ty, u :: us => exact ih us
    | .typed (.other tokens) ty, u :: us => exact ih us
    | .typed (.ident name) ty, u :: us =>
      rw [List.countP_cons_of_pos rfl]
      exact Nat.succ_le_succ (ih us)

theorem exists_array_of_parse {params : Params} (h : parse I types params = .ok us) :
    ∃ values, params = .array values ∧ values.length = us.length := by
  obtain ⟨values, rfl, hlength, hdecodes⟩ := parse_eq_ok_iff.mp h
  exact ⟨values, rfl, (hdecodes.length_eq hlength.ge).symm⟩

/-- Optional arguments that are all given are read from as many values. -/
theorem exists_array_of_paramsWithTrailing {trailing : ℕ} {params : Params}
    (h : paramsWithTrailing I trailing types params = .ok us) (hnone : I.none ∉ us) :
    us = [] ∨ ∃ values, params = .array values ∧ values.length = us.length := by
  obtain ⟨values, hvalues, hge, hle⟩ := length_of_paramsWithTrailing h
  obtain ⟨given, hgiven, rfl⟩ := (paramsWithTrailing_eq_ok_iff hvalues hge hle).mp h
  have hlength := hgiven.length_eq hle
  have hall : types.length - values.length = 0 := by
    by_contra hne
    exact hnone (List.mem_append_right _ (List.mem_replicate.mpr ⟨hne, rfl⟩))
  rw [hall, List.replicate_zero, List.append_nil]
  by_cases hnil : values = []
  · rw [hnil] at hlength
    exact .inl (List.length_eq_zero_iff.mp hlength)
  · exact .inr ⟨values, eq_array_of_passedValues hvalues hnil, hlength.symm⟩

/-- Arguments that are all given are read from as many values. -/
theorem exists_array_of_read {closure : DelegateClosure} {params : Params}
    (hraw : closure.parseParams ≠ .raw) (h : closure.read I params = .ok us)
    (hnone : I.none ∉ us) :
    us = [] ∨ ∃ values, params = .array values ∧ values.length = us.length := by
  unfold DelegateClosure.read at h
  cases hparse : closure.parseParams with
  | withTrailing n =>
    rw [hparse] at h
    exact exists_array_of_paramsWithTrailing I h hnone
  | noParams =>
    rw [hparse] at h
    dsimp only at h
    split at h
    · cases h
      exact .inl rfl
    · cases h
  | raw => exact absurd hparse hraw
  | positional =>
    rw [hparse] at h
    exact .inr (exists_array_of_parse I h)

end Semantics

namespace Accepted

variable (a : Accepted)

/-- Notifications and subscriptions are written as tuples. -/
theorem isTuple_of_kind_ne (hkind : a.method.kind ≠ .standard) :
    a.client.encoding.isTuple = true := by
  cases a.clientGenerated with
  | standard hkind' => exact absurd hkind' hkind
  | notification _ _ _ hencoding => rw [hencoding]; rfl
  | subscribe _ _ _ _ _ hencoding => rw [hencoding]; rfl

/-- The call of a method is written in the style of the method. -/
theorem encoding_of_standard {style : ParamStyle} (hkind : a.method.kind = .standard)
    (hstyle : a.method.paramsStyle = some style) : a.client.encoding = .call style := by
  cases a.clientGenerated with
  | standard _ _ _ hencoding => rw [hencoding, hstyle]; rfl
  | notification hkind' => rw [hkind] at hkind'; cases hkind'
  | subscribe _ _ hkind' => rw [hkind] at hkind'; cases hkind'

theorem isTuple_of_positional (hstyle : a.method.paramsStyle = some .positional) :
    a.client.encoding.isTuple = true := by
  by_cases hkind : a.method.kind = .standard
  · rw [a.encoding_of_standard hkind hstyle]
    rfl
  · exact a.isTuple_of_kind_ne hkind

theorem paramsStyle_eq :
    a.method.paramsStyle = some .positional ∨ a.method.paramsStyle = some .raw := by
  have hne := a.paramsStyle_ne
  unfold RpcMethod.paramsStyle at hne ⊢
  split
  · exact .inr rfl
  · rename_i hraw
    rw [if_neg hraw] at hne
    cases hstyle : a.method.params.getD .positional with
    | positional => exact .inl rfl
    | named => rw [hstyle] at hne; exact absurd rfl hne
    | raw => exact .inr rfl

/-- Arguments that are not written as a tuple are raw. -/
theorem encoding_eq_raw (hencoding : ¬a.client.encoding.isTuple = true) :
    a.client.encoding = .call .raw := by
  have hkind : a.method.kind = .standard := by
    by_contra hkind
    exact hencoding (a.isTuple_of_kind_ne hkind)
  rcases a.paramsStyle_eq with hstyle | hstyle
  · exact absurd (a.isTuple_of_positional hstyle) hencoding
  · exact a.encoding_of_standard hkind hstyle

/-- What the closure of a method does in a style that matches. -/
theorem stylesMatch_iff :
    a.StylesMatch ↔
      a.method.paramsStyle = some .positional ∨ a.closure.parseParams = .noParams ∨
        (a.method.kind = .standard ∧ a.closure.parseParams = .raw) ∨
        (a.method.kind ≠ .standard ∧ ∃ n, a.closure.parseParams = .withTrailing n) := by
  rw [StylesMatch, a.passedTypes_method, ← a.generated.noParams, ← a.generated.withTrailing]
  have htrailing := a.generated.withTrailing
  have hpositional := a.generated.positional
  cases hparse : a.closure.parseParams with
  | withTrailing n =>
    rw [hparse] at htrailing
    simp [htrailing.mp ⟨n, rfl⟩]
  | noParams => simp
  | raw =>
    have hends : endsInOption a.closure.paramTypes = false := by
      simpa [hparse] using htrailing
    simp [hends]
  | positional => simp [hpositional hparse]

/-- **Agreement.** A compatible method is read as it is sent. -/
theorem agrees_of_compatible (h : a.Compatible) : a.Agrees := by
  have hargs := a.args_eq_iff.mpr h.isClientArg
  refine ⟨hargs, fun U I hI us htyped => ?_⟩
  have hvalues : namedValues I a.client.args us =
      List.zipWith I.serialize a.closure.paramTypes us := by
    rw [hargs, namedValues_eq I h.isNamed, a.filterMap_ty?_params]
  have htuple (hencoding : a.client.encoding.isTuple = true)
      (hraw : a.closure.parseParams ≠ .raw) :
      ∃ params, a.client.send I us = .ok params ∧ a.closure.read I params = .ok us := by
    refine ⟨_, send_eq_tuple I hencoding us, ?_⟩
    rw [hvalues]
    exact read_tupleParams I a.generated hraw htyped
  have hstyles := a.stylesMatch_iff.mp h.stylesMatch
  rcases hstyles with hstyle | hnone | ⟨hkind, hraw⟩ | ⟨hkind, n, htrailing⟩
  · refine htuple (a.isTuple_of_positional hstyle) fun hraw => ?_
    have hstyle' := a.generated.raw hraw
    rw [hstyle] at hstyle'
    cases hstyle'
  · by_cases hencoding : a.client.encoding.isTuple = true
    · exact htuple hencoding (by rw [hnone]; exact nofun)
    · rw [a.generated.noParams.mp hnone] at htyped hvalues
      refine ⟨.none, ?_, ?_⟩
      · rw [ClientMethod.send, a.encoding_eq_raw hencoding, hvalues]
        rfl
      · rw [DelegateClosure.read, hnone, List.forall₂_nil_left_iff.mp htyped]
        rfl
  · obtain ⟨ty, hty⟩ := List.length_eq_one_iff.mp (a.length_raw hraw)
    have hparams := hI hraw ty (hty ▸ List.mem_singleton_self ty)
    rw [hty] at htyped hvalues
    obtain ⟨u, us, hu, hus, rfl⟩ := List.forall₂_cons_left_iff.mp htyped
    obtain rfl := List.forall₂_nil_left_iff.mp hus
    obtain ⟨params, rfl⟩ := (hparams.has_iff u).mp hu
    refine ⟨params, ?_, ?_⟩
    · rw [ClientMethod.send, a.encoding_of_standard hkind (a.generated.raw hraw), hvalues]
      change callMethod (I.serialize ty (I.ofParams params)) = _
      rw [callMethod, hparams.serialize_eq, Params.deserialize_serialize]
    · rw [DelegateClosure.read, hraw]
  · exact htuple (a.isTuple_of_kind_ne hkind) (by rw [htrailing]; exact nofun)

end Accepted

/-! ## What agreement needs -/

theorem content_toValue (params : Params) : params.toValue.content = params.serialize := by
  cases params <;> rfl

theorem callMethod_toValue (params : Params) : callMethod params.toValue = .ok params := by
  rw [callMethod, content_toValue, Params.deserialize_serialize]

/-- The types where every type stands for the parameters. -/
def paramsTypes : ArgTypes Params where
  Has _ _ := True
  serialize _ := Params.toValue
  deserialize _ := callMethod
  deserialize_serialize _ := callMethod_toValue _
  none := .none
  ofParams := id
  tupleError _ _ := ""
  debugParams _ := ""
  debugString := id

theorem isParams_paramsTypes (ty : Ty) : paramsTypes.IsParams ty where
  has_iff u := iff_of_true trivial ⟨u, rfl⟩
  serialize_eq := content_toValue

theorem forall₂_paramsTypes (types : List Ty) (params : Params) :
    List.Forall₂ paramsTypes.Has types (List.replicate types.length params) := by
  induction types with
  | nil => exact .nil
  | cons ty types ih => exact .cons trivial ih

theorem tupleParams_ne (values : List Value) : tupleParams values ≠ .array [] := by
  cases values with
  | nil => exact nofun
  | cons v values => simp [tupleParams]

/-- The values of empty arrays. -/
theorem eq_array_of_mem_namedValues {args : List FnArg} {n : ℕ} {v : Value}
    (hv : v ∈ namedValues paramsTypes args (List.replicate n (.array []))) : v = .array [] := by
  obtain ⟨⟨arg, u⟩, hmem, hvalue⟩ := List.mem_filterMap.mp hv
  obtain rfl : u = .array [] := List.eq_of_mem_replicate (List.of_mem_zip hmem).2
  split at hvalue
  · rename_i heq
    cases heq
    exact (Option.some.inj hvalue).symm
  · cases hvalue

namespace Accepted

variable (a : Accepted)

theorem length_params : a.params.length = a.closure.paramTypes.length := by
  rw [← a.filterMap_ty?_params, eq_comm, List.filterMap_length_eq_length]
  intro arg harg
  have htyped := a.isTyped_of_mem_typedInputs (List.mem_of_mem_drop harg)
  cases arg with
  | receiver => cases htyped
  | typed pat ty => rfl

/-- Empty arrays for all arguments. -/
def emptyArrays : List Params := List.replicate a.closure.paramTypes.length (.array [])

/-- The values that are sent for empty arrays. -/
def emptyValues : List Value := namedValues paramsTypes a.client.args a.emptyArrays

/-- If the method agrees, empty arrays are read back. -/
theorem exists_params_of_agrees (h : a.Agrees) :
    ∃ params, a.client.send paramsTypes a.emptyArrays = .ok params ∧
      a.closure.read paramsTypes params = .ok a.emptyArrays :=
  h.2 Params paramsTypes (fun _ ty _ => isParams_paramsTypes ty) _ (forall₂_paramsTypes _ _)

/-- If a value is sent for every argument, every argument has a name. -/
theorem isNamed_of_le_length (hargs : a.client.args = a.params)
    (hlength : a.closure.paramTypes.length ≤ a.emptyValues.length) :
    ∀ arg ∈ a.params, arg.isNamed = true := by
  have hle := length_namedValues_le paramsTypes a.client.args a.emptyArrays
  rw [hargs] at hle
  rw [emptyValues, hargs, ← a.length_params] at hlength
  exact List.countP_eq_length.mp (le_antisymm List.countP_le_length (hlength.trans hle))

/-- A raw server reads its parameters as the only argument. -/
theorem eq_of_read_raw {params : Params} (hraw : a.closure.parseParams = .raw)
    (hread : a.closure.read paramsTypes params = .ok a.emptyArrays) : params = .array [] := by
  rw [DelegateClosure.read, hraw] at hread
  have hmem : params ∈ a.emptyArrays := by
    rw [← Except.ok.inj hread]
    exact List.mem_singleton_self params
  exact List.eq_of_mem_replicate hmem

/-- Any other server reads an array of all arguments. -/
theorem exists_array_of_read_emptyArrays {params : Params} (hraw : a.closure.parseParams ≠ .raw)
    (hread : a.closure.read paramsTypes params = .ok a.emptyArrays) :
    a.closure.paramTypes = [] ∨
      ∃ values, params = .array values ∧ values.length = a.closure.paramTypes.length := by
  have hnone : paramsTypes.none ∉ a.emptyArrays := fun hmem =>
    nomatch List.eq_of_mem_replicate hmem
  rcases exists_array_of_read paramsTypes hraw hread hnone with hnil | ⟨values, hparams, hlength⟩
  · exact .inl (List.length_eq_zero_iff.mp ((List.replicate_eq_nil_iff _).mp hnil))
  · exact .inr ⟨values, hparams, hlength.trans List.length_replicate⟩

/-- A method that writes a tuple agrees only if the server reads a tuple. -/
theorem of_agrees_tuple (h : a.Agrees) (htuple : a.client.encoding.isTuple = true) :
    a.closure.parseParams ≠ .raw ∧ ∀ arg ∈ a.params, arg.isNamed = true := by
  obtain ⟨params, hsend, hread⟩ := a.exists_params_of_agrees h
  obtain rfl : tupleParams a.emptyValues = params :=
    Except.ok.inj ((send_eq_tuple paramsTypes htuple a.emptyArrays).symm.trans hsend)
  have hraw : a.closure.parseParams ≠ .raw := fun hraw =>
    tupleParams_ne _ (a.eq_of_read_raw hraw hread)
  refine ⟨hraw, a.isNamed_of_le_length h.1 ?_⟩
  rcases a.exists_array_of_read_emptyArrays hraw hread with hnil | ⟨values, hparams, hlength⟩
  · rw [hnil]
    exact Nat.zero_le _
  · unfold tupleParams at hparams
    split at hparams
    · cases hparams
    · cases hparams
      exact hlength.ge

/-- A method that writes its first argument agrees only if the server reads raw parameters or
none. -/
theorem of_agrees_raw (h : a.Agrees) (hencoding : a.client.encoding = .call .raw) :
    (a.closure.parseParams = .raw ∨ a.closure.parseParams = .noParams) ∧
      ∀ arg ∈ a.params, arg.isNamed = true := by
  obtain ⟨params, hsend, hread⟩ := a.exists_params_of_agrees h
  have hcall : callMethod (a.emptyValues.headD .null) = .ok params := by
    rw [ClientMethod.send, hencoding] at hsend
    exact hsend
  by_cases hraw : a.closure.parseParams = .raw
  · refine ⟨.inl hraw, a.isNamed_of_le_length h.1 ?_⟩
    obtain rfl := a.eq_of_read_raw hraw hread
    rw [a.length_raw hraw]
    cases hvalues : a.emptyValues with
    | nil =>
      rw [hvalues] at hcall
      cases hcall
    | cons v values => exact Nat.succ_le_succ (Nat.zero_le _)
  · have hnil : a.closure.paramTypes = [] := by
      rcases a.exists_array_of_read_emptyArrays hraw hread with hnil | ⟨values, rfl, hlength⟩
      · exact hnil
      · cases hvalues : a.emptyValues with
        | nil =>
          rw [hvalues] at hcall
          cases hcall
        | cons v rest =>
          obtain rfl : v = .array [] :=
            eq_array_of_mem_namedValues (hvalues.symm ▸ List.mem_cons_self)
          rw [hvalues] at hcall
          cases hcall
          exact List.length_eq_zero_iff.mp hlength.symm
    refine ⟨.inr (a.generated.noParams.mpr hnil), a.isNamed_of_le_length h.1 ?_⟩
    rw [hnil]
    exact Nat.zero_le _

theorem stylesMatch_of_agrees (h : a.Agrees) : a.StylesMatch := by
  rw [stylesMatch_iff]
  rcases a.paramsStyle_eq with hstyle | hstyle
  · exact .inl hstyle
  · by_cases hkind : a.method.kind = .standard
    · rcases (a.of_agrees_raw h (a.encoding_of_standard hkind hstyle)).1 with hraw | hnone
      · exact .inr (.inr (.inl ⟨hkind, hraw⟩))
      · exact .inr (.inl hnone)
    · have hraw := (a.of_agrees_tuple h (a.isTuple_of_kind_ne hkind)).1
      cases hparse : a.closure.parseParams with
      | withTrailing n => exact .inr (.inr (.inr ⟨hkind, n, rfl⟩))
      | noParams => exact .inr (.inl rfl)
      | raw => exact absurd hparse hraw
      | positional => exact .inl (a.generated.positional hparse)

theorem compatible_of_agrees (h : a.Agrees) : a.Compatible where
  isClientArg := a.args_eq_iff.mp h.1
  isNamed := by
    by_cases htuple : a.client.encoding.isTuple = true
    · exact (a.of_agrees_tuple h htuple).2
    · exact (a.of_agrees_raw h (a.encoding_eq_raw htuple)).2
  stylesMatch := a.stylesMatch_of_agrees h

/-- **Agreement.** The generated client and server of a method agree if and only if the client
keeps the arguments, they have names, and the styles match. -/
theorem agrees_iff_compatible : a.Agrees ↔ a.Compatible :=
  ⟨a.compatible_of_agrees, a.agrees_of_compatible⟩

/-- `fn add(&self, pair: (u64, u64)) -> Result<u64>`. -/
def pairArgument : Accepted where
  method :=
    { kind := .standard
      hasMetadata := false
      rawParams := false
      params := none
      inputs := [.receiver, .typed (.ident "pair") (.tuple "(u64, u64)")] }
  optionsStyle := .positional
  client := ⟨[], [], .call .positional⟩
  closure := ⟨[], [.tuple "(u64, u64)"], .positional⟩
  client_eq := rfl
  closure_eq := rfl
  paramsStyle_ne := by decide
  types_eq := rfl
  specialArgs_eq := rfl
  length_raw := nofun

/-- `fn log(&self, params: Params)` with raw parameters. -/
def rawNotification : Accepted where
  method :=
    { kind := .notification
      hasMetadata := false
      rawParams := true
      params := none
      inputs := [.receiver, .typed (.ident "params") (.path none ⟨"Params", .none⟩ [])] }
  optionsStyle := .positional
  client := ⟨[.typed (.ident "params") (.path none ⟨"Params", .none⟩ [])], ["params"], .notify⟩
  closure := ⟨[], [.path none ⟨"Params", .none⟩ []], .raw⟩
  client_eq := rfl
  closure_eq := rfl
  paramsStyle_ne := by decide
  types_eq := rfl
  specialArgs_eq := rfl
  length_raw _ := rfl

/-- A pair is not an argument of the client, whose call the server then refuses. A raw
notification without parameters is read as an array with `null`. -/
theorem not_agrees_pairArgument_rawNotification :
    (pairArgument.client.args = [] ∧
      pairArgument.client.send paramsTypes [] = .ok .none ∧
      pairArgument.closure.read paramsTypes .none = .error (.invalidParams "Invalid params: .") ∧
      ¬pairArgument.Agrees) ∧
    (rawNotification.client.send paramsTypes [.none] = .ok (.array [.null]) ∧
      rawNotification.closure.read paramsTypes (.array [.null]) = .ok [.array [.null]] ∧
      ¬rawNotification.Agrees) := by
  refine ⟨⟨rfl, rfl, rfl, fun h => ?_⟩, rfl, rfl, fun h => ?_⟩
  · cases h.1
  · obtain ⟨params, hsend, hread⟩ := h.2 Params paramsTypes
      (fun _ ty _ => isParams_paramsTypes ty) [.none] (forall₂_paramsTypes _ _)
    cases hsend
    cases hread

end Accepted

end JsonRpc.Derive
