import JsonRpc.Core.Handler
import Mathlib.Data.List.Forall2
import Mathlib.Data.List.ReduceOption

/-!
# The dispatch contract

What handling a request does, stated without the handler: which entry a name
stands for after any sequence of changes to the table, which procedures a call
runs, and how it is answered. The contract holds for every sequence of changes
and every request. It is proved for one call first, and then for the list of
calls of a request.
-/

namespace JsonRpc

/-! ## Changes to the table -/

section Table

variable {P : Type}

/-- A change to the table. -/
inductive TableOp (P : Type) where
  | addAlias (name other : String)
  | addMethod (name : String) (f : P)
  | addMethodWithMeta (name : String) (f : P)
  | addNotification (name : String) (f : P)
  | addNotificationWithMeta (name : String) (f : P)
  | extendWith (methods : List (String × RemoteProcedure P))

/-- The handler after a change. -/
def TableOp.apply (h : MetaIoHandler P) : TableOp P → MetaIoHandler P
  | addAlias name other => h.addAlias name other
  | addMethod name f => h.addMethod name f
  | addMethodWithMeta name f => h.addMethodWithMeta name (.withMeta f)
  | addNotification name f => h.addNotification name f
  | addNotificationWithMeta name f => h.addNotificationWithMeta name (.withMeta f)
  | extendWith methods => h.extendWith methods

/-- The entries a change binds, in order. -/
def TableOp.bindings : TableOp P → List (String × RemoteProcedure P)
  | addAlias name other => [(name, .alias other)]
  | addMethod name f => [(name, .method (.simple f))]
  | addMethodWithMeta name f => [(name, .method (.withMeta f))]
  | addNotification name f => [(name, .notification (.simple f))]
  | addNotificationWithMeta name f => [(name, .notification (.withMeta f))]
  | extendWith methods => methods

/-- The last entry that is bound to a name. -/
def lastBinding (bindings : List (String × RemoteProcedure P)) (name : String) :
    Option (RemoteProcedure P) :=
  bindings.reverse.lookup name

/-- A change extends the table with the entries it binds. -/
theorem TableOp.apply_eq_extendWith (h : MetaIoHandler P) (op : TableOp P) :
    op.apply h = h.extendWith op.bindings := by
  cases op <;> rfl

/-- Changes extend the table with all entries they bind. -/
theorem foldl_apply_eq_extendWith (h : MetaIoHandler P) (ops : List (TableOp P)) :
    ops.foldl TableOp.apply h = h.extendWith (ops.flatMap TableOp.bindings) := by
  induction ops generalizing h with
  | nil => rfl
  | cons op ops ih =>
    rw [List.foldl_cons, ih, TableOp.apply_eq_extendWith, List.flatMap_cons,
      MetaIoHandler.extendWith, MetaIoHandler.extendWith, MetaIoHandler.extendWith,
      List.foldl_append]

namespace MetaIoHandler

@[simp] theorem get_insert_self (h : MetaIoHandler P) (name : String) (p : RemoteProcedure P) :
    (h.insert name p).get name = some p :=
  AList.lookup_insert _

theorem get_insert_of_ne (h : MetaIoHandler P) {name name' : String} (p : RemoteProcedure P)
    (hne : name' ≠ name) : (h.insert name p).get name' = h.get name' :=
  AList.lookup_insert_ne hne

/-- An extended table has the last of the new entries, or else the old one. -/
theorem get_extendWith (h : MetaIoHandler P) (bindings : List (String × RemoteProcedure P))
    (name : String) :
    (h.extendWith bindings).get name = (lastBinding bindings name).or (h.get name) := by
  induction bindings generalizing h with
  | nil => rfl
  | cons binding bindings ih =>
    obtain ⟨key, p⟩ := binding
    have hcons : h.extendWith ((key, p) :: bindings) = (h.insert key p).extendWith bindings := rfl
    rw [hcons, ih, lastBinding, lastBinding, List.reverse_cons, List.lookup_append,
      Option.or_assoc]
    congr 1
    by_cases hname : name = key
    · subst hname
      simp
    · rw [h.get_insert_of_ne _ hname]
      simp [List.lookup_cons, beq_eq_false_iff_ne.mpr hname]

/-- Changes keep the compatibility of the handler. -/
theorem extendWith_compatibility (h : MetaIoHandler P)
    (bindings : List (String × RemoteProcedure P)) :
    (h.extendWith bindings).compatibility = h.compatibility := by
  induction bindings generalizing h with
  | nil => rfl
  | cons binding bindings ih => exact ih (h.insert binding.1 binding.2)

end MetaIoHandler

/-- A name stands for an entry directly or through one alias. -/
inductive Resolves (look : String → Option (RemoteProcedure P)) (name : String)
    (p : RemoteProcedure P) : Prop where
  | direct (hname : look name = some p)
  | hop (other : String) (hname : look name = some (.alias other)) (hother : look other = some p)

namespace MetaIoHandler

variable (h : MetaIoHandler P)

/-- A call with an accepted version runs the method its name stands for. -/
theorem resolveMethod_eq_ok_iff {validVersion : Bool} {name : String} {f : Procedure P} :
    h.resolveMethod validVersion name = .ok f ↔
      validVersion = true ∧ Resolves h.get name (.method f) := by
  constructor
  · intro hok
    unfold resolveMethod at hok
    split at hok
    · cases hok
    · cases hok
      exact ⟨rfl, .direct ‹_›⟩
    · split at hok
      · cases hok
        exact ⟨rfl, .hop _ ‹_› ‹_›⟩
      · cases hok
    · cases hok
  · rintro ⟨rfl, hname | ⟨other, hname, hother⟩⟩
    · simp only [resolveMethod, hname]
    · simp only [resolveMethod, hname, hother]

/-- A call that runs no method fails because of its version or its name. -/
theorem resolveMethod_eq_error {validVersion : Bool} {name : String} {error : Error}
    (herror : h.resolveMethod validVersion name = .error error) :
    validVersion = false ∧ error = .invalidVersion ∨
      validVersion = true ∧ error = .methodNotFound := by
  unfold resolveMethod at herror
  split at herror
  · cases herror
    exact Or.inl ⟨rfl, rfl⟩
  · cases herror
  · split at herror <;> cases herror
    exact Or.inr ⟨rfl, rfl⟩
  · cases herror
    exact Or.inr ⟨rfl, rfl⟩

/-- A notification runs the procedure its name stands for. -/
theorem resolveNotification_eq_some_iff {name : String} {f : Procedure P} :
    h.resolveNotification name = some f ↔ Resolves h.get name (.notification f) := by
  constructor
  · intro hsome
    unfold resolveNotification at hsome
    split at hsome
    · cases hsome
      exact .direct ‹_›
    · split at hsome
      · cases hsome
        exact .hop _ ‹_› ‹_›
      · cases hsome
    · cases hsome
  · rintro (hname | ⟨other, hname, hother⟩)
    · simp only [resolveNotification, hname]
    · simp only [resolveNotification, hname, hother]

end MetaIoHandler

end Table

/-! ## What a call does -/

/-- The call gets an output. -/
def Call.isAnswered : Call → Bool
  | .methodCall _ | .invalid _ => true
  | .notification _ => false

/-- The id of a call, if it can be answered. -/
def Call.id : Call → Option Id
  | .methodCall m => some m.id
  | .notification _ => none
  | .invalid id => some id

/-- The version of the output of a call. -/
def Call.version (compatibility : Compatibility) : Call → Option Version
  | .methodCall m => m.jsonrpc
  | .notification n => n.jsonrpc
  | .invalid _ => compatibility.defaultVersion

section Contract

variable {P M : Type} (compatibility : Compatibility)
  (look : String → Option (RemoteProcedure P)) (metadata : M)

/-- The user procedures a call runs. -/
inductive Runs : Call → List (Event P M) → Prop where
  /-- An accepted method call whose name stands for a method runs it once. -/
  | method {m : MethodCall} {f : Procedure P}
      (hversion : compatibility.isVersionValid m.jsonrpc)
      (hname : Resolves look m.method (.method f)) :
      Runs (.methodCall m) [.call ⟨f, m.params, metadata⟩]
  /-- Any other method call runs nothing. -/
  | noMethod {m : MethodCall}
      (h : ∀ f, compatibility.isVersionValid m.jsonrpc → ¬ Resolves look m.method (.method f)) :
      Runs (.methodCall m) []
  /-- An accepted notification whose name stands for a notification runs it once. -/
  | notification {n : Notification} {f : Procedure P}
      (hversion : compatibility.isVersionValid n.jsonrpc)
      (hname : Resolves look n.method (.notification f)) :
      Runs (.notification n) [.execute f n.params metadata]
  /-- Any other notification runs nothing. -/
  | noNotification {n : Notification}
      (h : ∀ f, compatibility.isVersionValid n.jsonrpc →
        ¬ Resolves look n.method (.notification f)) :
      Runs (.notification n) []
  /-- An invalid call runs nothing. -/
  | invalid (id : Id) : Runs (.invalid id) []

/-- The result a call is answered with, when methods return `result`. The version
is checked first, and the name is resolved second. -/
inductive Outcome (result : Invocation P M → Except Error Value) :
    Call → Except Error Value → Prop where
  /-- The version is not accepted. -/
  | invalidVersion {m : MethodCall} (hversion : ¬ compatibility.isVersionValid m.jsonrpc) :
      Outcome result (.methodCall m) (.error .invalidVersion)
  /-- The name does not stand for a method. -/
  | notFound {m : MethodCall} (hversion : compatibility.isVersionValid m.jsonrpc)
      (hname : ∀ f, ¬ Resolves look m.method (.method f)) :
      Outcome result (.methodCall m) (.error .methodNotFound)
  /-- The name stands for a method. -/
  | returned {m : MethodCall} {f : Procedure P}
      (hversion : compatibility.isVersionValid m.jsonrpc)
      (hname : Resolves look m.method (.method f)) :
      Outcome result (.methodCall m) (result ⟨f, m.params, metadata⟩)
  /-- The call is invalid. -/
  | invalid (id : Id) : Outcome result (.invalid id) (.error (.new .invalidRequest))

/-- The output answers the call. -/
structure Answers (result : Invocation P M → Except Error Value) (call : Call)
    (output : Output) : Prop where
  /-- The output has the id of the call. -/
  id_eq : some output.id = call.id
  /-- The output has the version of the call, or the default for invalid calls. -/
  version_eq : output.version = call.version compatibility
  /-- The output is the outcome of the call. -/
  outcome : Outcome compatibility look metadata result call output.toResult

end Contract

section Contract

variable {P M : Type} (h : MetaIoHandler P) (metadata : M)

@[simp] theorem Output.id_from (result : Except Error Value) (id : Id)
    (jsonrpc : Option Version) : (Output.from result id jsonrpc).id = id := by
  cases result <;> rfl

@[simp] theorem Output.version_from (result : Except Error Value) (id : Id)
    (jsonrpc : Option Version) : (Output.from result id jsonrpc).version = jsonrpc := by
  cases result <;> rfl

@[simp] theorem Output.toResult_from (result : Except Error Value) (id : Id)
    (jsonrpc : Option Version) : (Output.from result id jsonrpc).toResult = result := by
  cases result <;> rfl

/-- Handling one call runs what the call runs. -/
theorem handleCall_runs (call : Call) :
    Runs h.compatibility h.get metadata call (h.handleCall call metadata).invoked := by
  cases call with
  | methodCall m =>
    simp only [MetaIoHandler.handleCall]
    cases hresolve : h.resolveMethod (h.compatibility.isVersionValid m.jsonrpc) m.method with
    | ok f =>
      obtain ⟨hversion, hname⟩ := h.resolveMethod_eq_ok_iff.mp hresolve
      exact .method hversion hname
    | error error =>
      refine .noMethod fun f hversion hname => ?_
      rw [h.resolveMethod_eq_ok_iff.mpr ⟨hversion, hname⟩] at hresolve
      cases hresolve
  | notification n =>
    simp only [MetaIoHandler.handleCall]
    split
    · rename_i hversion
      cases hresolve : h.resolveNotification n.method with
      | some f => exact .notification hversion (h.resolveNotification_eq_some_iff.mp hresolve)
      | none =>
        refine .noNotification fun f _ hname => ?_
        rw [h.resolveNotification_eq_some_iff.mpr hname] at hresolve
        cases hresolve
    · rename_i hversion
      exact .noNotification fun f hvalid _ => hversion hvalid
  | invalid id => exact .invalid id

/-- The future of a call has an output exactly when the call is answered. -/
theorem isSome_resolve_handleCall (result : Invocation P M → Except Error Value) (call : Call) :
    ((h.handleCall call metadata).future.resolve result).isSome = call.isAnswered := by
  cases call with
  | methodCall m =>
    simp only [MetaIoHandler.handleCall]
    split <;> rfl
  | notification n =>
    simp only [MetaIoHandler.handleCall]
    split
    · split <;> rfl
    · rfl
  | invalid id => rfl

/-- The output of a call answers it. -/
theorem answers_of_resolve_handleCall {result : Invocation P M → Except Error Value} {call : Call}
    {output : Output} (houtput : (h.handleCall call metadata).future.resolve result = some output) :
    Answers h.compatibility h.get metadata result call output := by
  cases call with
  | methodCall m =>
    simp only [MetaIoHandler.handleCall] at houtput
    cases hresolve : h.resolveMethod (h.compatibility.isVersionValid m.jsonrpc) m.method with
    | ok f =>
      obtain ⟨hversion, hname⟩ := h.resolveMethod_eq_ok_iff.mp hresolve
      rw [hresolve] at houtput
      obtain rfl := Option.some.inj houtput
      refine ⟨by simp [Call.id], by simp [Call.version], ?_⟩
      rw [Output.toResult_from]
      exact .returned hversion hname
    | error error =>
      rw [hresolve] at houtput
      obtain rfl := Option.some.inj houtput
      refine ⟨by simp [Call.id], by simp [Call.version], ?_⟩
      rw [Output.toResult_from]
      rcases h.resolveMethod_eq_error hresolve with ⟨hversion, rfl⟩ | ⟨hversion, rfl⟩
      · exact .invalidVersion (by simp [hversion])
      · refine .notFound hversion fun f hname => ?_
        rw [h.resolveMethod_eq_ok_iff.mpr ⟨hversion, hname⟩] at hresolve
        cases hresolve
  | notification n =>
    have hsome := isSome_resolve_handleCall h metadata result (.notification n)
    rw [houtput] at hsome
    cases hsome
  | invalid id =>
    obtain rfl := Option.some.inj houtput
    exact ⟨rfl, rfl, .invalid id⟩

end Contract

/-! ## What a request does -/

/-- The calls of a request. -/
def Request.calls : Request → List Call
  | .single call => [call]
  | .batch calls => calls

/-- The request is a batch. -/
def Request.isBatch : Request → Bool
  | .single _ => false
  | .batch _ => true

/-- The outputs of a response. -/
def Response.outputs : Response → List Output
  | .single output => [output]
  | .batch outputs => outputs

/-- The response is a batch. -/
def Response.isBatch : Response → Bool
  | .single _ => false
  | .batch _ => true

/-- The values of a partial function on a list correspond to the elements where
it is defined. -/
theorem forall₂_filter_reduceOption {α β : Type} (f : α → Option β) (as : List α) :
    List.Forall₂ (fun a b => f a = some b) (as.filter fun a => (f a).isSome)
      (as.map f).reduceOption := by
  induction as with
  | nil => exact .nil
  | cons a as ih =>
    cases hfa : f a with
    | none =>
      rw [List.map_cons, hfa, List.reduceOption_cons_of_none,
        List.filter_cons_of_neg (by simp [hfa])]
      exact ih
    | some b =>
      rw [List.map_cons, hfa, List.reduceOption_cons_of_some,
        List.filter_cons_of_pos (by simp [hfa])]
      exact .cons hfa ih

section Requests

variable {P M : Type} (h : MetaIoHandler P) (metadata : M)
  (results : ℕ → Invocation P M → Except Error Value)

/-- The output of the call at a position. -/
def outputAt (call : Call × ℕ) : Option Output :=
  (h.handleCall call.1 metadata).future.resolve (results call.2)

/-- The outputs of the calls of a request. -/
def outputsOf (request : Request) : List Output :=
  (request.calls.zipIdx.map (outputAt h metadata results)).reduceOption

/-- A batch is answered by the outputs of its calls. -/
theorem resolve_handleRpcRequest_batch (calls : List Call) :
    (h.handleRpcRequest (.batch calls) metadata).future.resolve results =
      if (outputsOf h metadata results (.batch calls)).isEmpty then none
      else some (.batch (outputsOf h metadata results (.batch calls))) := by
  have houtputs : ((calls.map fun call => h.handleCall call metadata).map Handled.future).mapIdx
      (fun i output => output.resolve (results i)) =
      calls.zipIdx.map (outputAt h metadata results) := by
    rw [List.map_map, List.mapIdx_eq_zipIdx_map, List.zipIdx_map, List.map_map]
    rfl
  simp only [MetaIoHandler.handleRpcRequest, FutureRpcResult.resolve, houtputs, outputsAsBatch,
    outputsOf, Request.calls]
  rfl

/-- A request has no response exactly when its calls have no output. -/
theorem resolve_eq_none_iff (request : Request) :
    (h.handleRpcRequest request metadata).future.resolve results = none ↔
      outputsOf h metadata results request = [] := by
  cases request with
  | single call =>
    change outputAsResponse (outputAt h metadata results (call, 0)) = none ↔
      [outputAt h metadata results (call, 0)].reduceOption = []
    cases outputAt h metadata results (call, 0) <;> simp [outputAsResponse]
  | batch calls =>
    rw [resolve_handleRpcRequest_batch]
    split <;> simp_all

/-- A response has the outputs of the calls of its request. -/
theorem outputs_of_resolve {request : Request} {response : Response}
    (hresponse : (h.handleRpcRequest request metadata).future.resolve results = some response) :
    response.isBatch = request.isBatch ∧
      response.outputs = outputsOf h metadata results request := by
  cases request with
  | single call =>
    change outputAsResponse (outputAt h metadata results (call, 0)) = some response at hresponse
    obtain ⟨output, houtput, rfl⟩ := Option.map_eq_some_iff.mp hresponse
    refine ⟨rfl, ?_⟩
    change [output] = [outputAt h metadata results (call, 0)].reduceOption
    rw [houtput]
    rfl
  | batch calls =>
    rw [resolve_handleRpcRequest_batch] at hresponse
    split at hresponse
    · cases hresponse
    · obtain rfl := Option.some.inj hresponse
      exact ⟨rfl, rfl⟩

/-- The calls that have an output are those that are answered. -/
theorem filter_isSome_outputAt (calls : List (Call × ℕ)) :
    calls.filter (fun call => (outputAt h metadata results call).isSome) =
      calls.filter fun call => call.1.isAnswered := by
  simp only [outputAt, isSome_resolve_handleCall]

/-- The procedures a request runs are those of its calls, in order. -/
theorem invoked_handleRpcRequest (request : Request) :
    (h.handleRpcRequest request metadata).invoked =
      request.calls.flatMap fun call => (h.handleCall call metadata).invoked := by
  cases request with
  | single call => simp [MetaIoHandler.handleRpcRequest, Request.calls]
  | batch calls => simp [MetaIoHandler.handleRpcRequest, Request.calls, List.flatMap_map]

end Requests

/-- A handler that was changed from an empty one has the last entry bound to
each name. -/
theorem get_foldl_apply {P : Type} (compatibility : Compatibility) (ops : List (TableOp P)) :
    (ops.foldl TableOp.apply (.withCompatibility compatibility)).get =
      lastBinding (ops.flatMap TableOp.bindings) := by
  funext name
  have hempty : (MetaIoHandler.withCompatibility compatibility : MetaIoHandler P).get name = none :=
    AList.lookup_empty name
  rw [foldl_apply_eq_extendWith, MetaIoHandler.get_extendWith, hempty, Option.or_none]

/-- **Dispatch contract.** After any changes to the table, a request has no
response exactly when none of its calls is answered. Otherwise the response is a
batch exactly when the request is one, and its outputs answer the answered calls
one by one, in their order. The user procedures that are run are, in the order of
the calls, those that each call runs. -/
theorem handleRpcRequest_contract {P M : Type} (compatibility : Compatibility)
    (ops : List (TableOp P)) (request : Request) (metadata : M)
    (results : ℕ → Invocation P M → Except Error Value) :
    let h : MetaIoHandler P := ops.foldl TableOp.apply (.withCompatibility compatibility)
    let look := lastBinding (ops.flatMap TableOp.bindings)
    let handled := h.handleRpcRequest request metadata
    (handled.future.resolve results = none ↔ ∀ call ∈ request.calls, ¬ call.isAnswered) ∧
    (∀ response, handled.future.resolve results = some response →
      response.isBatch = request.isBatch ∧
      List.Forall₂
        (fun call output =>
          Answers compatibility look metadata (results call.2) call.1 output)
        (request.calls.zipIdx.filter fun call => call.1.isAnswered) response.outputs) ∧
    ∃ runs, List.Forall₂ (Runs compatibility look metadata) request.calls runs ∧
      handled.invoked = runs.flatten := by
  intro h look handled
  have hlook : h.get = look := get_foldl_apply compatibility ops
  have hcompatibility : h.compatibility = compatibility := by
    simp only [h, foldl_apply_eq_extendWith, MetaIoHandler.extendWith_compatibility]
    rfl
  have houtputs := forall₂_filter_reduceOption (outputAt h metadata results) request.calls.zipIdx
  rw [filter_isSome_outputAt] at houtputs
  refine ⟨?_, ?_, ?_⟩
  · -- No output is left exactly when no call passes the filter.
    have hnil : outputsOf h metadata results request = [] ↔
        (request.calls.zipIdx.filter fun call => call.1.isAnswered) = [] := by
      rw [← List.length_eq_zero_iff, ← List.length_eq_zero_iff, houtputs.length_eq]
      rfl
    rw [resolve_eq_none_iff, hnil, List.filter_eq_nil_iff]
    constructor
    · intro hcalls call hcall
      obtain ⟨i, hi⟩ := List.mem_iff_getElem?.mp hcall
      exact hcalls (call, i) (List.mem_zipIdx_iff_getElem?.mpr hi)
    · intro hcalls call hcall
      exact hcalls call.1 (List.fst_mem_of_mem_zipIdx hcall)
  · intro response hresponse
    obtain ⟨hbatch, heq⟩ := outputs_of_resolve h metadata results hresponse
    refine ⟨hbatch, heq ▸ houtputs.imp fun call output houtput => ?_⟩
    have hanswers := answers_of_resolve_handleCall h metadata houtput
    rwa [hlook, hcompatibility] at hanswers
  · refine ⟨request.calls.map fun call => (h.handleCall call metadata).invoked, ?_, ?_⟩
    · rw [List.forall₂_map_right_iff, List.forall₂_same]
      intro call _
      have hruns := handleCall_runs h metadata call
      rwa [hlook, hcompatibility] at hruns
    · rw [← List.flatMap_def]
      exact invoked_handleRpcRequest h metadata request

end JsonRpc
