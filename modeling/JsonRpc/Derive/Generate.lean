import JsonRpc.Core.Types

/-!
# The code generated for a trait

A trait is turned into a client and into a server. For each method of the trait the client
has a function that sends parameters, and the server has a closure that reads them. Both
are generated from the arguments of the method. The client keeps the arguments whose type
is a path that does not start with `Self`. The server leaves out the metadata and the
subscriber.
-/

namespace JsonRpc.Derive

/-! ## Methods of a trait -/

/-- An argument of a generic type. -/
inductive GenericArgument where
  | type (tokens : String)
  | other (tokens : String)
  deriving DecidableEq

/-- The arguments of a segment of a path. -/
inductive PathArguments where
  | none
  | angleBracketed (args : List GenericArgument)
  | parenthesized (tokens : String)
  deriving DecidableEq

/-- A segment of a path. -/
structure PathSegment where
  ident : String
  arguments : PathArguments
  deriving DecidableEq

/-- The type of an argument. A path has at least one segment. -/
inductive Ty where
  | path (qself : Option String) (head : PathSegment) (tail : List PathSegment)
  | tuple (tokens : String)
  | array (tokens : String)
  | other (tokens : String)
  deriving DecidableEq

/-- The pattern of an argument. -/
inductive Pat where
  | ident (name : String)
  | wild
  | other (tokens : String)
  deriving DecidableEq

/-- An argument of a method. -/
inductive FnArg where
  | receiver
  | typed (pat : Pat) (ty : Ty)
  deriving DecidableEq

/-- How parameters are written. -/
inductive ParamStyle where
  | positional
  | named
  | raw
  deriving DecidableEq

/-- How a method is registered. -/
inductive MethodKind where
  | standard
  | notification
  | subscribe
  deriving DecidableEq

/-- A method of a trait with its attribute. -/
structure RpcMethod where
  kind : MethodKind
  /-- The attribute has the word `meta`. -/
  hasMetadata : Bool
  /-- The attribute has the word `raw_params`. -/
  rawParams : Bool
  /-- The style that the attribute gives. -/
  params : Option ParamStyle
  inputs : List FnArg
  deriving DecidableEq

/-- The style of a method, as it is read from its attribute. -/
def RpcMethod.paramsStyle (m : RpcMethod) : Option ParamStyle :=
  if m.rawParams then some .raw else some (m.params.getD .positional)

/-! ## The client -/

/-- The client keeps the argument. -/
def FnArg.isClientArg : FnArg → Bool
  | typed _ (.path _ head _) => head.ident ≠ "Self"
  | _ => false

def computeArgs (inputs : List FnArg) : List FnArg := inputs.filter FnArg.isClientArg

def computeArgIdentifiers : List FnArg → Except String (List String)
  | [] => .ok []
  | .typed (.ident name) _ :: args =>
    match computeArgIdentifiers args with
    | .ok names => .ok (name :: names)
    | .error e => .error e
  | .typed .wild _ :: _ => .error "No wildcard patterns allowed in rpc trait."
  | _ :: args => computeArgIdentifiers args

def getFirstTypeArgument : PathArguments → Option String
  | .angleBracketed (.type tokens :: _) => some tokens
  | _ => none

/-- The type of the notifications of a subscription. -/
def computeSubscriptionType : FnArg → Except String String
  | .typed _ (.path _ head tail) =>
    match getFirstTypeArgument ((head :: tail).getLast (List.cons_ne_nil _ _)).arguments with
    | some tokens => .ok tokens
    | none => .error "a subscription needs a return type"
  | _ => .error "a subscription needs a return type"

/-- How the client writes the arguments of a function. -/
inductive Encoding where
  /-- `call_method` with arguments in a style. -/
  | call (style : ParamStyle)
  /-- `notify` with a tuple. -/
  | notify
  /-- `subscribe` with a tuple. -/
  | subscribe
  deriving DecidableEq

/-- A function of the client. -/
structure ClientMethod where
  args : List FnArg
  argNames : List String
  encoding : Encoding
  deriving DecidableEq

/-- A function that takes some arguments. -/
def ClientMethod.of (args : List FnArg) (encoding : Encoding) : Except String ClientMethod :=
  match computeArgIdentifiers args with
  | .ok argNames => .ok ⟨args, argNames, encoding⟩
  | .error e => .error e

def generateClientMethod (optionsStyle : ParamStyle) (m : RpcMethod) : Except String ClientMethod :=
  match m.kind with
  | .standard => ClientMethod.of (computeArgs m.inputs) (.call (m.paramsStyle.getD optionsStyle))
  | .notification => ClientMethod.of (computeArgs m.inputs) .notify
  | .subscribe =>
    match computeArgs m.inputs with
    | [] => .error "called Option::unwrap() on a None value"
    | first :: args =>
      match computeSubscriptionType first with
      | .ok _ => ClientMethod.of args .subscribe
      | .error e => .error e

/-! ## The server -/

def isMetadataType (ty : Ty) : Bool := ty = .path none ⟨"Self", .none⟩ [⟨"Metadata", .none⟩]

def isSubscriberType : Ty → Bool
  | .path _ head tail => (head :: tail).any fun s => s.ident = "Subscriber"
  | _ => false

def isOptionType : Ty → Bool
  | .path _ head _ => head.ident = "Option"
  | _ => false

/-- An argument that is not passed in the parameters. -/
inductive SpecialArg where
  | metadata
  | subscriber
  deriving DecidableEq

def specialArgs (paramTypes : List Ty) : List (SpecialArg × Ty) :=
  ((paramTypes[0]?.filter isMetadataType).map fun ty => (.metadata, ty)).toList ++
    ((paramTypes[1]?.filter isSubscriberType).map fun ty => (.subscriber, ty)).toList

/-- How the server reads the parameters. -/
inductive ParseParams where
  | withTrailing (trailingArgsNum : ℕ)
  | noParams
  | raw
  | positional
  deriving DecidableEq

/-- The closure of a method. -/
structure DelegateClosure where
  specialArgs : List (SpecialArg × Ty)
  paramTypes : List Ty
  parseParams : ParseParams
  deriving DecidableEq

/-- The types of the arguments. -/
def FnArg.ty? : FnArg → Option Ty
  | receiver => none
  | typed _ ty => some ty

/-- The number of options at the end. -/
def trailingArgsNum (paramTypes : List Ty) : ℕ := (paramTypes.reverse.takeWhile isOptionType).length

def generateDelegateClosure (m : RpcMethod) : Except String DelegateClosure :=
  let types := m.inputs.filterMap FnArg.ty?
  let special := specialArgs types
  let paramTypes := types.filter fun ty => !special.any fun s => s.2 = ty
  if 16 < paramTypes.length then .error "Maximum supported number of params is 16"
  else if trailingArgsNum paramTypes ≠ 0 then
    .ok ⟨special, paramTypes, .withTrailing (trailingArgsNum paramTypes)⟩
  else if paramTypes = [] then .ok ⟨special, paramTypes, .noParams⟩
  else if m.paramsStyle = some .raw then .ok ⟨special, paramTypes, .raw⟩
  else if m.paramsStyle = some .positional then .ok ⟨special, paramTypes, .positional⟩
  else .error "Server side named parameters are not implemented"

/-! ## What the generated code does -/

/-- The types of arguments, with their values in one universe. Each of them is read back
from the value that it is written as. -/
structure ArgTypes (U : Type) where
  /-- The values of a type. -/
  Has : Ty → U → Prop
  serialize : Ty → U → Value
  deserialize : Ty → Value → Except String U
  deserialize_serialize : ∀ {ty u}, Has ty u → deserialize ty (serialize ty u) = .ok u
  /-- The value for an optional argument that is not given. -/
  none : U
  /-- The parameters themselves. -/
  ofParams : Params → U
  /-- The text of the error for parameters that are no tuple of some types. -/
  tupleError : List Ty → Params → String
  debugParams : Params → String
  debugString : String → String

/-- The type stands for the parameters themselves. -/
structure ArgTypes.IsParams {U : Type} (I : ArgTypes U) (ty : Ty) : Prop where
  has_iff : ∀ u, I.Has ty u ↔ ∃ params, u = I.ofParams params
  serialize_eq : ∀ params, (I.serialize ty (I.ofParams params)).content = params.serialize

section Semantics

variable {U : Type} (I : ArgTypes U)

/-- `TypedClient::call_method`: the parameters of a call. -/
def callMethod (args : Value) : Except String Params :=
  match Params.deserialize args.content with
  | some params => .ok params
  | none => .error "RPC params should serialize to a JSON array, JSON object or null"

/-- `TypedClient::notify` and `TypedClient::subscribe`: the parameters of a notification or of a
subscription. -/
def notify (args : Value) : Except String Params :=
  match Params.deserialize args.content with
  | some (.array values) => .ok (.array values)
  | some .none => .ok .none
  | _ => .error "RPC params should serialize to a JSON array, or null"

/-- A tuple is written as an array, and the empty tuple as null. -/
def serializeTuple (values : List Value) : Value :=
  if values = [] then .null else .array values

/-- The values of the arguments that have a name. -/
def namedValues (args : List FnArg) (us : List U) : List Value :=
  (args.zip us).filterMap fun
    | (.typed (.ident _) ty, u) => some (I.serialize ty u)
    | _ => none

/-- An object with some fields. -/
def serializeObject (names : List String) (values : List Value) : Value :=
  .deserialize (.map (names.zip (values.map Value.serialize)))

/-- The parameters that a function of the client sends for some arguments. -/
def ClientMethod.send (client : ClientMethod) (us : List U) : Except String Params :=
  let values := namedValues I client.args us
  match client.encoding with
  | .call .named => callMethod (serializeObject client.argNames values)
  | .call .positional => callMethod (serializeTuple values)
  | .call .raw => callMethod (values.headD .null)
  | .notify | .subscribe => notify (serializeTuple values)

/-- `Params::expect_no_params`. -/
def expectNoParams : Params → Except Error Unit
  | .none => .ok ()
  | .array [] => .ok ()
  | params =>
    .error (.invalidParamsWithDetails "No parameters were expected" (I.debugParams params))

/-- Read the values of a tuple. -/
def deserializeTuple (lengthError : String) : List Ty → List Value → Except String (List U)
  | [], [] => .ok []
  | ty :: types, v :: values =>
    match I.deserialize ty v with
    | .error e => .error e
    | .ok u =>
      match deserializeTuple lengthError types values with
      | .error e => .error e
      | .ok us => .ok (u :: us)
  | _, _ => .error lengthError

/-- `Params::parse` at a type of tuples. -/
def parse (types : List Ty) (params : Params) : Except Error (List U) :=
  let result := match params with
    | .array values => deserializeTuple I (I.tupleError types params) types values
    | _ => .error (I.tupleError types params)
  match result with
  | .ok us => .ok us
  | .error e => .error (.invalidParams ("Invalid params: " ++ e ++ "."))

/-- The number of parameters that were passed. -/
def passedArgsNum : Params → Except Error ℕ
  | .array values => .ok values.length
  | .none => .ok 0
  | .map _ => .error (.invalidParams "`params` should be an array")

/-- Read parameters of which some at the end are optional. -/
def paramsWithTrailing (trailing : ℕ) (types : List Ty) (params : Params) :
    Except Error (List U) :=
  let required := types.length - trailing
  match passedArgsNum params with
  | .error e => .error e
  | .ok passed =>
    if passed < required then
      .error (.invalidParams
        ("`params` should have at least " ++ toString required ++ " argument(s)"))
    else if passed ≤ types.length then
      let missed := List.replicate (types.length - passed) I.none
      if passed = 0 then
        match expectNoParams I params with
        | .ok () => .ok missed
        | .error e => .error e
      else
        match parse I (types.take passed) params with
        | .ok us => .ok (us ++ missed)
        | .error e => .error e
    else
      .error (.invalidParamsWithDetails
        ("Expected from " ++ toString required ++ " to " ++ toString types.length ++ " parameters.")
        (I.debugString ("Got: " ++ toString passed)))

/-- The arguments that the closure of a method reads from some parameters. -/
def DelegateClosure.read (closure : DelegateClosure) (params : Params) : Except Error (List U) :=
  match closure.parseParams with
  | .withTrailing trailing => paramsWithTrailing I trailing closure.paramTypes params
  | .noParams =>
    match expectNoParams I params with
    | .ok () => .ok []
    | .error e => .error e
  | .raw => .ok [I.ofParams params]
  | .positional => parse I closure.paramTypes params

end Semantics

end JsonRpc.Derive
