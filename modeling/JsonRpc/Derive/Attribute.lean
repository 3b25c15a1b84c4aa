import JsonRpc.Derive.Generate

/-!
# Attributes of traits and methods

A method of a trait is annotated with `rpc` or `pubsub`, and the trait itself with `rpc`. Both
attributes may give a style for the parameters. The style of a method is meant to override the
style of its trait. The parser of a method's attribute fills in the default style by itself, so
the style of the trait is never looked at.
-/

namespace JsonRpc.Derive

/-! ## Syntax -/

/-- The path of an attribute or of one of its arguments. -/
structure MetaPath where
  leadingColon : Bool
  head : String
  tail : List String
  deriving DecidableEq

/-- `syn::Path::get_ident`. -/
def MetaPath.getIdent (path : MetaPath) : Option String :=
  if path.leadingColon = false ∧ path.tail = [] then some path.head else none

/-- The path of an identifier. -/
def MetaPath.ident (name : String) : MetaPath := ⟨false, name, []⟩

inductive Lit where
  | str (value : String)
  | other (tokens : String)
  deriving DecidableEq

mutual

/-- An attribute after it is parsed. -/
inductive Meta where
  | path (path : MetaPath)
  | list (path : MetaPath) (nested : List NestedMeta)
  | nameValue (path : MetaPath) (lit : Lit)

/-- An argument of an attribute. -/
inductive NestedMeta where
  | item (item : Meta)
  | lit (lit : Lit)

end

/-- The path of an attribute. -/
def Meta.getPath : Meta → MetaPath
  | path p => p
  | list p _ => p
  | nameValue p _ => p

/-- An attribute in the source. Its tokens may be no meta. -/
abbrev Attribute := Except String Meta

/-- The type that a method returns. -/
inductive ReturnType where
  | default
  | tuple (elems : List String) (trailingComma : Bool)
  | other (tokens : String)
  deriving DecidableEq

/-! ## Arguments of attributes -/

def pathEqStr (path : MetaPath) (s : String) : Bool := path.getIdent = some s

def getMetaList : Meta → Option (List NestedMeta)
  | .list _ nested => some nested
  | _ => none

/-- The value of the first argument with a key and a text. -/
def getNameValue (key : String) (nested : List NestedMeta) : Option String :=
  nested.findSome? fun
    | .item (.nameValue path (.str value)) => if pathEqStr path key then some value else none
    | _ => none

def hasMetaWord (word : String) (nested : List NestedMeta) : Bool :=
  nested.any fun
    | .item (.path path) => pathEqStr path word
    | _ => false

/-- The texts in the first list of aliases. -/
def getAliases (nested : List NestedMeta) : List String :=
  let list := nested.findSome? fun
    | .item (.list path nested) => if pathEqStr path "alias" then some nested else none
    | _ => none
  (list.getD []).filterMap fun
    | .lit (.str value) => some value
    | _ => none

/-- `ParamStyle::from_str`. -/
def ParamStyle.fromStr (s : String) : Except String ParamStyle :=
  if s = "positional" then .ok .positional
  else if s = "named" then .ok .named
  else if s = "raw" then .ok .raw
  else .error "Invalid value for params key. Must be one of [positional, named, raw]"

def getParamsStyle (nested : List NestedMeta) : Except String ParamStyle :=
  match getNameValue "params" nested with
  | none => .ok .positional
  | some s => ParamStyle.fromStr s

/-! ## Validation -/

/-- The names of the arguments of an attribute that are words, keys and lists. -/
structure Visitor where
  metaWords : List String
  nameValueNames : List String
  metaListNames : List String

/-- The visitor sees the arguments of the attribute, and not what is nested in them. -/
def Visitor.visit (m : Meta) : Visitor :=
  let nested := (getMetaList m).getD []
  ⟨nested.filterMap fun
    | .item (.path path) => path.getIdent
    | _ => none,
  nested.filterMap fun
    | .item (.nameValue path _) => path.getIdent
    | _ => none,
  nested.filterMap fun
    | .item (.list path _) => path.getIdent
    | _ => none⟩

def validateIdents (idents valid : List String) : Except String Unit :=
  let invalid := idents.filter fun ident => !valid.contains ident
  if invalid = [] then .ok ()
  else .error ("Invalid attribute parameter(s): '" ++ ", ".intercalate invalid ++
    "'. Expected '" ++ ", ".intercalate valid ++ "'")

/-- The arguments that the visitor saw are words, keys and lists that an attribute may have. -/
def Visitor.validate (v : Visitor) (words keys lists : List String) : Except String Unit :=
  match validateIdents v.metaWords words with
  | .error e => .error e
  | .ok () =>
    match validateIdents v.nameValueNames keys with
    | .error e => .error e
    | .ok () => validateIdents v.metaListNames lists

def validateAttributeMeta (m : Meta) : Except String Unit :=
  if m.getPath.getIdent = some "rpc" then
    (Visitor.visit m).validate ["meta", "raw_params"] ["name", "returns", "params"] ["alias"]
  else if m.getPath.getIdent = some "pubsub" then
    (Visitor.visit m).validate ["subscribe", "unsubscribe", "raw_params"]
      ["subscription", "name"] ["alias"]
  else .ok ()

/-! ## The attribute of a method -/

inductive PubSubMethodKind where
  | subscribe
  | unsubscribe
  deriving DecidableEq

inductive AttributeKind where
  | rpc (hasMetadata : Bool) (returns : Option String) (isNotification : Bool)
  | pubSub (subscriptionName : String) (kind : PubSubMethodKind)
  deriving DecidableEq

structure RpcMethodAttribute where
  name : String
  aliases : List String
  kind : AttributeKind
  /-- None means do not override the top level default. -/
  paramsStyle : Option ParamStyle
  deriving DecidableEq

/-- A method that returns nothing is a notification. So is one that returns a tuple with a comma
at its end. -/
def ReturnType.isNotification : ReturnType → Bool
  | default => true
  | tuple elems trailingComma => elems.isEmpty || trailingComma
  | other _ => false

namespace RpcMethodAttribute

def parseRpc (m : Meta) (output : ReturnType) : Except String AttributeKind :=
  let hasMetadata := (getMetaList m).any (hasMetaWord "meta")
  let returns := (getMetaList m).bind (getNameValue "returns")
  if output.isNotification && returns.isSome then .error "Notifications must return ()"
  else .ok (.rpc hasMetadata returns output.isNotification)

def parsePubsub (m : Meta) : Except String AttributeKind :=
  match getMetaList m with
  | none => .error "pubsub attribute should have a subscription name"
  | some nested =>
    match getNameValue "subscription" nested with
    | none => .error "pubsub attribute should have a subscription name"
    | some subName =>
      match hasMetaWord "subscribe" nested, hasMetaWord "unsubscribe" nested with
      | true, false => .ok (.pubSub subName .subscribe)
      | false, true => .ok (.pubSub subName .unsubscribe)
      | true, true => .error "pubsub attribute annotated with both subscribe and unsubscribe"
      | false, false =>
        .error "pubsub attribute not annotated with either subscribe or unsubscribe"

/-- The style of an attribute: `raw_params` comes first. -/
def readStyle (m : Meta) : Except String (Option ParamStyle) :=
  if (getMetaList m).any (hasMetaWord "raw_params") then .ok (some .raw)
  else
    match getMetaList m with
    | none => .ok none
    | some nested => (getParamsStyle nested).map some

/-- The attribute of a kind. -/
def ofKind (m : Meta) (kind : AttributeKind) : Except String RpcMethodAttribute :=
  match (getMetaList m).bind (getNameValue "name") with
  | none => .error "rpc attribute should have a name e.g. `name = \"method_name\"`"
  | some name =>
    match readStyle m with
    | .error e => .error e
    | .ok style => .ok ⟨name, ((getMetaList m).map getAliases).getD [], kind, style⟩

/-- Attributes other than `rpc` and `pubsub` are ignored. -/
def ofMeta (m : Meta) (output : ReturnType) : Option (Except String RpcMethodAttribute) :=
  if m.getPath.getIdent = some "rpc" then
    some ((parseRpc m output).bind (ofKind m))
  else if m.getPath.getIdent = some "pubsub" then
    some ((parsePubsub m).bind (ofKind m))
  else none

def parseMeta (attr : Attribute) (output : ReturnType) :
    Option (Except String RpcMethodAttribute) :=
  match attr with
  | .error e => some (.error e)
  | .ok m =>
    match validateAttributeMeta m with
    | .error e => some (.error e)
    | .ok () => ofMeta m output

end RpcMethodAttribute

/-! ## The attribute of a trait -/

structure DeriveOptions where
  enableClient : Bool
  enableServer : Bool
  paramsStyle : ParamStyle
  deriving DecidableEq

namespace DeriveOptions

/-- Read one argument. -/
def readArg (options : DeriveOptions) : NestedMeta → Except String DeriveOptions
  | .item (.path path) =>
    match path.getIdent with
    | none => .error "Expecting identifier `client` or `server`"
    | some word =>
      if word = "client" then .ok { options with enableClient := true }
      else if word = "server" then .ok { options with enableServer := true }
      else .ok options
  | .item (.nameValue path lit) =>
    if pathEqStr path "params" then
      match lit with
      | .str value =>
        (ParamStyle.fromStr value).map fun style => { options with paramsStyle := style }
      | .other _ => .ok options
    else .error "Unexpected RPC attribute key"
  | .item (.list _ _) => .error "Unexpected use of RPC attribute macro"
  | .lit _ => .ok options

/-- Without a word for one of them both the client and the server are generated. The server
does not support named parameters: the source panics with this text. -/
def finish (options : DeriveOptions) : Except String DeriveOptions :=
  let options :=
    if !options.enableClient && !options.enableServer then
      { options with enableClient := true, enableServer := true }
    else options
  if options.enableServer ∧ options.paramsStyle = .named then
    .error ("Server code generation only supports `params = \"positional\"` (default) or " ++
      "`params = \"raw\" at this time.")
  else .ok options

def tryFrom (args : List NestedMeta) : Except String DeriveOptions :=
  (args.foldlM readArg ⟨false, false, .positional⟩).bind finish

end DeriveOptions

/-! ## The style of a call -/

/-- The style that the arguments of an attribute give. -/
def ownStyle (nested : List NestedMeta) : Option ParamStyle :=
  if hasMetaWord "raw_params" nested then some .raw
  else (getNameValue "params" nested).bind fun s => (ParamStyle.fromStr s).toOption

/-- A method whose attribute has some arguments. -/
def RpcMethod.ofNested (nested : List NestedMeta) (kind : MethodKind) (inputs : List FnArg) :
    RpcMethod where
  kind := kind
  hasMetadata := hasMetaWord "meta" nested
  rawParams := hasMetaWord "raw_params" nested
  params := (getNameValue "params" nested).bind fun s => (ParamStyle.fromStr s).toOption
  inputs := inputs

theorem RpcMethod.paramsStyle_ofNested (nested : List NestedMeta) (kind : MethodKind)
    (inputs : List FnArg) :
    (RpcMethod.ofNested nested kind inputs).paramsStyle =
      some ((ownStyle nested).getD .positional) := by
  unfold RpcMethod.paramsStyle RpcMethod.ofNested ownStyle
  dsimp only
  split
  · rfl
  · rfl

namespace RpcMethodAttribute

/-- The default style is filled in when the attribute is read. -/
theorem readStyle_list {path : MetaPath} {nested : List NestedMeta} {style : Option ParamStyle}
    (h : readStyle (.list path nested) = .ok style) :
    style = some ((ownStyle nested).getD .positional) := by
  have hlist : readStyle (.list path nested) =
      if hasMetaWord "raw_params" nested then .ok (some .raw)
      else (getParamsStyle nested).map some := rfl
  rw [hlist] at h
  rw [ownStyle]
  by_cases hraw : hasMetaWord "raw_params" nested
  · rw [if_pos hraw] at h ⊢
    cases h
    rfl
  · rw [if_neg hraw, getParamsStyle] at h
    rw [if_neg hraw]
    cases hparams : getNameValue "params" nested with
    | none =>
      rw [hparams] at h
      cases h
      rfl
    | some s =>
      rw [hparams] at h
      dsimp only at h
      cases hstyle : ParamStyle.fromStr s with
      | error e =>
        rw [hstyle] at h
        cases h
      | ok style' =>
        rw [hstyle] at h
        cases h
        simp [hstyle, Except.toOption]

theorem paramsStyle_of_ofKind {path : MetaPath} {nested : List NestedMeta} {kind : AttributeKind}
    {attr : RpcMethodAttribute} (h : ofKind (.list path nested) kind = .ok attr) :
    attr.paramsStyle = some ((ownStyle nested).getD .positional) := by
  unfold ofKind at h
  split at h
  · cases h
  · split at h
    · cases h
    · rename_i style hstyle
      cases h
      exact readStyle_list hstyle

/-- An attribute that is read has a style. -/
theorem paramsStyle_of_parseMeta {nested : List NestedMeta} {output : ReturnType}
    {attr : RpcMethodAttribute}
    (h : parseMeta (.ok (.list (.ident "rpc") nested)) output = some (.ok attr)) :
    attr.paramsStyle = some ((ownStyle nested).getD .positional) := by
  unfold parseMeta at h
  dsimp only at h
  split at h
  · cases h
  · have hident : (Meta.list (.ident "rpc") nested).getPath.getIdent = some "rpc" := rfl
    rw [ofMeta, if_pos hident] at h
    cases hkind : parseRpc (.list (.ident "rpc") nested) output with
    | error e =>
      rw [hkind] at h
      cases h
    | ok kind =>
      rw [hkind] at h
      exact paramsStyle_of_ofKind (Option.some.inj h)

end RpcMethodAttribute

/-- The kind of a method with an `rpc` attribute. -/
def ReturnType.methodKind (output : ReturnType) : MethodKind :=
  if output.isNotification then .notification else .standard

/-- A function of the client for a method with an `rpc` attribute in a trait with an `rpc`
attribute. Both attributes are read without an error. -/
structure ClientCall where
  /-- The arguments of the attribute of the trait. -/
  traitArgs : List NestedMeta
  options : DeriveOptions
  tryFrom_eq : DeriveOptions.tryFrom traitArgs = .ok options
  /-- The arguments of the attribute of the method. -/
  nested : List NestedMeta
  output : ReturnType
  attr : RpcMethodAttribute
  parseMeta_eq : RpcMethodAttribute.parseMeta (.ok (.list (.ident "rpc") nested)) output =
    some (.ok attr)
  inputs : List FnArg
  client : ClientMethod
  generate_eq : generateClientMethod options.paramsStyle
    (.ofNested nested output.methodKind inputs) = .ok client

/-- The style that arguments are written in. A tuple is positional. -/
def Encoding.style : Encoding → ParamStyle
  | call style => style
  | notify => .positional
  | subscribe => .positional

namespace ClientCall

theorem encoding_of_of {args : List FnArg} {encoding : Encoding} {client : ClientMethod}
    (h : ClientMethod.of args encoding = .ok client) : client.encoding = encoding := by
  unfold ClientMethod.of at h
  split at h
  · cases h
    rfl
  · cases h

variable (c : ClientCall)

/-- The arguments of a notification are written as a tuple. -/
theorem encoding_of_isNotification (h : c.output.isNotification) :
    c.client.encoding = .notify := by
  have hgenerate := c.generate_eq
  rw [ReturnType.methodKind, if_pos h] at hgenerate
  exact encoding_of_of hgenerate

/-- The style of the attribute is used for a call, with the style of the trait behind it. -/
theorem encoding_of_not_isNotification (h : ¬c.output.isNotification) :
    c.client.encoding = .call (c.attr.paramsStyle.getD c.options.paramsStyle) := by
  have hgenerate := c.generate_eq
  rw [ReturnType.methodKind, if_neg h] at hgenerate
  have hstyle : (RpcMethod.ofNested c.nested .standard c.inputs).paramsStyle =
      c.attr.paramsStyle := by
    rw [RpcMethod.paramsStyle_ofNested,
      RpcMethodAttribute.paramsStyle_of_parseMeta c.parseMeta_eq]
  rw [← hstyle]
  exact encoding_of_of hgenerate

/-- **Styles of parameters.** The arguments are written in the style of the method if its
attribute gives one and in the style of the trait otherwise, exactly if the attribute of a method
that is no notification gives one or the style is positional. -/
theorem style_resolved_iff :
    c.client.encoding.style = (ownStyle c.nested).getD c.options.paramsStyle ↔
      (c.output.isNotification = false ∧ (ownStyle c.nested).isSome) ∨
        (ownStyle c.nested).getD c.options.paramsStyle = .positional := by
  by_cases hnotification : c.output.isNotification
  · rw [c.encoding_of_isNotification hnotification, hnotification, Encoding.style,
      @eq_comm _ ParamStyle.positional]
    simp
  · rw [c.encoding_of_not_isNotification hnotification, Encoding.style,
      RpcMethodAttribute.paramsStyle_of_parseMeta c.parseMeta_eq, Option.getD_some]
    rw [Bool.not_eq_true] at hnotification
    cases ownStyle c.nested with
    | none =>
      rw [Option.getD_none, Option.getD_none, @eq_comm _ ParamStyle.positional]
      simp
    | some style => simp [hnotification]

/-- A method with a name only, in a trait with a client whose parameters are named. -/
def namedTrait : ClientCall where
  traitArgs :=
    [.item (.path (.ident "client")), .item (.nameValue (.ident "params") (.str "named"))]
  options := ⟨true, false, .named⟩
  tryFrom_eq := rfl
  nested := [.item (.nameValue (.ident "name") (.str "add"))]
  output := .other "Result<u64>"
  attr := ⟨"add", [], .rpc false none false, some .positional⟩
  parseMeta_eq := rfl
  inputs := [.receiver, .typed (.ident "a") (.path none ⟨"u64", .none⟩ [])]
  client := ⟨[.typed (.ident "a") (.path none ⟨"u64", .none⟩ [])], ["a"], .call .positional⟩
  generate_eq := rfl

/-- The parameters of this call are not named. -/
theorem not_resolved_namedTrait :
    ownStyle namedTrait.nested = none ∧ namedTrait.options.paramsStyle = .named ∧
      namedTrait.client.encoding.style ≠
        (ownStyle namedTrait.nested).getD namedTrait.options.paramsStyle := by
  decide

end ClientCall

end JsonRpc.Derive
