import JsonRpc.Core.RequestWire
import Mathlib.Data.List.AList

/-!
# The request handler

The handler with its table of procedures. Handling a call with the middleware
that does nothing runs at most one procedure of the user and returns a future.
What the procedures do is not part of the program, so the model records which
procedures are run, in their order, and leaves the results of the methods open
until the future is resolved. User procedures are values of an arbitrary type
`P`, and the metadata of a request is a value of an arbitrary type `M`.
-/

namespace JsonRpc

/-! ## Compatibility -/

/-- The protocol versions a handler is compatible with. -/
inductive Compatibility where
  /-- Only JSON-RPC 1.x. -/
  | v1
  /-- Only JSON-RPC 2.0. -/
  | v2
  /-- Both. -/
  | both
  deriving DecidableEq

/-- The version of a call is accepted. -/
def Compatibility.isVersionValid : Compatibility → Option Version → Bool
  | .v1, none => true
  | .v2, some .v2 => true
  | .both, _ => true
  | _, _ => false

/-- The version of answers to requests without one. -/
def Compatibility.defaultVersion : Compatibility → Option Version
  | .v1 => none
  | .v2 | .both => some .v2

/-! ## The table of procedures -/

section Table

variable {P : Type}

/-- A procedure of the user as the table holds it. -/
inductive Procedure (P : Type) where
  /-- The procedure takes the parameters and the metadata. -/
  | withMeta (f : P)
  /-- The procedure takes the parameters only and is wrapped. -/
  | simple (f : P)
  deriving DecidableEq

/-- An entry of the table. -/
inductive RemoteProcedure (P : Type) where
  /-- A method. -/
  | method (f : Procedure P)
  /-- A notification. -/
  | notification (f : Procedure P)
  /-- An alias to another entry. -/
  | alias (other : String)
  deriving DecidableEq

/-- The request handler. -/
structure MetaIoHandler (P : Type) where
  /-- The accepted versions. -/
  compatibility : Compatibility
  /-- The table of procedures. -/
  methods : AList fun _ : String => RemoteProcedure P

namespace MetaIoHandler

/-- A handler with an empty table. -/
def withCompatibility (compatibility : Compatibility) : MetaIoHandler P := ⟨compatibility, ∅⟩

/-- Insert an entry into the table. -/
def insert (h : MetaIoHandler P) (name : String) (p : RemoteProcedure P) : MetaIoHandler P :=
  { h with methods := h.methods.insert name p }

/-- Look an entry up in the table. -/
def get (h : MetaIoHandler P) (name : String) : Option (RemoteProcedure P) :=
  h.methods.lookup name

def addAlias (h : MetaIoHandler P) (name other : String) : MetaIoHandler P :=
  h.insert name (.alias other)

def addMethodWithMeta (h : MetaIoHandler P) (name : String) (f : Procedure P) : MetaIoHandler P :=
  h.insert name (.method f)

def addMethod (h : MetaIoHandler P) (name : String) (f : P) : MetaIoHandler P :=
  h.addMethodWithMeta name (.simple f)

def addNotificationWithMeta (h : MetaIoHandler P) (name : String) (f : Procedure P) :
    MetaIoHandler P :=
  h.insert name (.notification f)

def addNotification (h : MetaIoHandler P) (name : String) (f : P) : MetaIoHandler P :=
  h.addNotificationWithMeta name (.simple f)

def extendWith (h : MetaIoHandler P) (methods : List (String × RemoteProcedure P)) :
    MetaIoHandler P :=
  methods.foldl (fun h entry => h.insert entry.1 entry.2) h

end MetaIoHandler

end Table

/-! ## Handling a call -/

section Handling

variable {P M : Type}

/-- A method that was called, with the arguments it was given. -/
structure Invocation (P M : Type) where
  /-- The method. -/
  method : Procedure P
  /-- The parameters of the call. -/
  params : Params
  /-- The metadata of the request. -/
  metadata : M
  deriving DecidableEq

/-- A run of a user procedure. -/
inductive Event (P M : Type) where
  /-- A method is called. -/
  | call (invocation : Invocation P M)
  /-- A notification is executed. -/
  | execute (f : Procedure P) (params : Params) (metadata : M)
  deriving DecidableEq

/-- The future of a call. -/
inductive FutureRpcOutput (P M : Type) where
  /-- The future of a method, whose result becomes the output. -/
  | call (invocation : Invocation P M) (id : Id) (jsonrpc : Option Version)
  /-- An output that is ready. -/
  | ready (output : Option Output)

/-- The future of a request. -/
inductive FutureRpcResult (P M : Type) where
  /-- The future of a single call. -/
  | single (output : FutureRpcOutput P M)
  /-- The joined futures of a batch. -/
  | batch (outputs : List (FutureRpcOutput P M))

/-- What handling returns: the procedures it ran, in order, and a future. -/
structure Handled (P M α : Type) where
  /-- The procedures that were run. -/
  invoked : List (Event P M)
  /-- The future that is returned. -/
  future : α

namespace MetaIoHandler

variable (h : MetaIoHandler P)

/-- The method a call runs, after the check of the version. -/
def resolveMethod (validVersion : Bool) (name : String) : Except Error (Procedure P) :=
  match validVersion, h.get name with
  | false, _ => .error .invalidVersion
  | true, some (.method f) => .ok f
  | true, some (.alias other) =>
    match h.get other with
    | some (.method f) => .ok f
    | _ => .error .methodNotFound
  | true, _ => .error .methodNotFound

/-- The notification a name stands for. -/
def resolveNotification (name : String) : Option (Procedure P) :=
  match h.get name with
  | some (.notification f) => some f
  | some (.alias other) =>
    match h.get other with
    | some (.notification f) => some f
    | _ => none
  | _ => none

/-- Handle a single call. -/
def handleCall (call : Call) (metadata : M) : Handled P M (FutureRpcOutput P M) :=
  match call with
  | .methodCall m =>
    match h.resolveMethod (h.compatibility.isVersionValid m.jsonrpc) m.method with
    | .ok f =>
      let invocation := ⟨f, m.params, metadata⟩
      ⟨[.call invocation], .call invocation m.id m.jsonrpc⟩
    | .error err => ⟨[], .ready (some (Output.from (.error err) m.id m.jsonrpc))⟩
  | .notification n =>
    if h.compatibility.isVersionValid n.jsonrpc then
      match h.resolveNotification n.method with
      | some f => ⟨[.execute f n.params metadata], .ready none⟩
      | none => ⟨[], .ready none⟩
    else ⟨[], .ready none⟩
  | .invalid id =>
    ⟨[], .ready (some (Output.invalidRequest id h.compatibility.defaultVersion))⟩

/-- Handle a request that was read. -/
def handleRpcRequest (request : Request) (metadata : M) : Handled P M (FutureRpcResult P M) :=
  match request with
  | .single call =>
    let handled := h.handleCall call metadata
    ⟨handled.invoked, .single handled.future⟩
  | .batch calls =>
    let handled := calls.map fun call => h.handleCall call metadata
    ⟨handled.flatMap Handled.invoked, .batch (handled.map Handled.future)⟩

end MetaIoHandler

/-! ## Resolving the futures -/

/-- The response of a single output. -/
def outputAsResponse (output : Option Output) : Option Response := output.map .single

/-- The response of the outputs of a batch. -/
def outputsAsBatch (outputs : List (Option Output)) : Option Response :=
  let outputs := outputs.reduceOption
  if outputs.isEmpty then none else some (.batch outputs)

/-- The output of a call whose method returns `result`. -/
def FutureRpcOutput.resolve (result : Invocation P M → Except Error Value) :
    FutureRpcOutput P M → Option Output
  | .call invocation id jsonrpc => some (Output.from (result invocation) id jsonrpc)
  | .ready output => output

/-- The response of a request, when the method called at position `i` returns
`results i`. -/
def FutureRpcResult.resolve (results : ℕ → Invocation P M → Except Error Value) :
    FutureRpcResult P M → Option Response
  | .single output => outputAsResponse (output.resolve (results 0))
  | .batch outputs => outputsAsBatch (outputs.mapIdx fun i output => output.resolve (results i))

/-! ## Handling a text -/

/-- Read the text of a request. -/
def readRequest (json : SerdeJson) (request : String) : Except Error Request :=
  match Request.fromStr json request with
  | some request => .ok request
  | none => .error (.new .parseError)

/-- Write a response. -/
def writeResponse (json : SerdeJson) (response : Response) : String :=
  json.toString response.serialize

/-- The future of the text of a request. -/
inductive FutureResult (P M : Type) where
  /-- A response that is ready. -/
  | ready (response : Option Response)
  /-- The future of a request that was read. -/
  | request (result : FutureRpcResult P M)

/-- The response of the text of a request. -/
def FutureResult.resolve (results : ℕ → Invocation P M → Except Error Value) :
    FutureResult P M → Option Response
  | .ready response => response
  | .request result => result.resolve results

/-- Handle the text of a request. -/
def MetaIoHandler.handleRequest (h : MetaIoHandler P) (json : SerdeJson) (request : String)
    (metadata : M) : Handled P M (FutureResult P M) :=
  match readRequest json request with
  | .error error =>
    ⟨[], .ready (some (Response.from error h.compatibility.defaultVersion))⟩
  | .ok request =>
    let handled := h.handleRpcRequest request metadata
    ⟨handled.invoked, .request handled.future⟩

end Handling

end JsonRpc
