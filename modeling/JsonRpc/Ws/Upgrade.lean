import JsonRpc.Codec.StreamCodec
import JsonRpc.ServerUtils.Cors

/-!
# Handshakes of WebSocket connections

A connection starts with a request of the peer. A middleware of the server may decide about
it. Unless it decides otherwise, the origin and the host of the request have to be allowed, and
a request that is not allowed is answered with a rejection. Otherwise the metadata of the
connection is extracted, and the library of websockets answers the request.
-/

namespace JsonRpc.Ws

open ServerUtils

/-- The request of a peer, as the library of websockets gives it. -/
structure Request where
  /-- What stands in the first header of a name. -/
  header : String → Option Bytes
  /-- The protocols that the peer asks for. -/
  protocols : Except String (List String)

/-- The library of websockets, as far as it answers requests. -/
structure Library where
  /-- The response to a request. -/
  Response : Type
  new : ℕ → String → Bytes → Response
  pushHeader : Response → String → Bytes → Response
  setProtocol : Response → String → Response
  /-- `Response::from_request`. -/
  fromRequest : Request → Except String Response
  status : Response → ℕ
  status_new : ∀ code reason body, status (new code reason body) = code
  status_pushHeader : ∀ response name value,
    status (pushHeader response name value) = status response

/-- What the middleware does with a request. -/
inductive MiddlewareAction (L : Library) where
  | proceed
  | respond (response : L.Response) (validateOrigin validateHosts : Bool)

namespace MiddlewareAction

variable {L : Library}

def shouldVerifyOrigin : MiddlewareAction L → Bool
  | proceed => true
  | respond _ validateOrigin _ => validateOrigin

def shouldVerifyHosts : MiddlewareAction L → Bool
  | proceed => true
  | respond _ _ validateHosts => validateHosts

/-- The action of a middleware that may have a response. -/
def ofOption : Option L.Response → MiddlewareAction L
  | some res => respond res true true
  | none => proceed

end MiddlewareAction

/-- The number of a session. -/
abbrev SessionId := UInt64

/-- What is known about a connection. -/
structure RequestContext (G : Globset) where
  sessionId : SessionId
  origin : Option (ServerUtils.Origin G)
  protocols : List String

/-- How a server answers handshakes. -/
structure Access (G : Globset) (L : Library) (M : Type) where
  unicode : Unicode
  metaExtractor : RequestContext G → M
  allowedOrigins : Option (List (ServerUtils.Origin G))
  allowedHosts : Option (List (Host G))
  requestMiddleware : Option (Request → MiddlewareAction L)

/-! ## The checks -/

/-- Whether a header matches one of the patterns that are allowed. -/
def headerIsAllowed {T : Type} (isMatch : T → Text → Bool) (allowed : Option (List T))
    (header : Option Bytes) : Bool :=
  match header.map fromUtf8, allowed with
  -- There is nothing to check.
  | none, _ => true
  -- Nothing is checked.
  | _, none => true
  | some (some val), some values => values.any fun v => isMatch v val.toList
  | _, _ => false

def forbidden (L : Library) (title message : String) : L.Response :=
  L.pushHeader (L.new 403 "Forbidden" (intoBytes (title ++ "\n" ++ message ++ "\n")))
    "Connection" (intoBytes "close")

namespace Access

variable {G : Globset} {L : Library} {M : Type} (access : Access G L M)

def readOrigin (req : Request) : Option Bytes := req.header "origin"

def verifyOrigin (origin : Option Bytes) : Option L.Response :=
  if !headerIsAllowed ServerUtils.Origin.matchesText access.allowedOrigins origin then
    some (forbidden L "URL Blocked" "Connection Origin has been rejected.")
  else none

def verifyHost (req : Request) : Option L.Response :=
  let host := req.header "host"
  if !headerIsAllowed Host.matchesText access.allowedHosts host then
    some (forbidden L "URL Blocked" "Connection Host has been rejected.")
  else none

def action (req : Request) : MiddlewareAction L :=
  match access.requestMiddleware with
  | some middleware => middleware req
  | none => .proceed

/-- The checks of a request. The origin is checked before the host. -/
def verify (req : Request) : Option L.Response :=
  let action := access.action req
  let rejected := if action.shouldVerifyOrigin then access.verifyOrigin (readOrigin req) else none
  match rejected with
  | some response => some response
  | none => if action.shouldVerifyHosts then access.verifyHost req else none

/-- What is known about the connection after a request. -/
def contextOf (context : RequestContext G) (req : Request) : RequestContext G :=
  { context with
    origin := ((readOrigin req).bind fromUtf8).map fun origin =>
      ServerUtils.Origin.parse access.unicode origin.toList
    protocols := req.protocols.toOption.getD [] }

/-- The response to a request that has passed the checks. -/
def respond (context : RequestContext G) (req : Request) : Except String L.Response :=
  match access.action req with
  | .proceed => (L.fromRequest req).map fun res =>
    match context.protocols.head? with
    | some protocol => L.setProtocol res protocol
    | none => res
  | .respond response _ _ => .ok response

end Access

/-- The part of a session that handshakes change. -/
structure Handshake (G : Globset) (M : Type) where
  context : RequestContext G
  metadata : Option M

namespace Handshake

variable {G : Globset} {L : Library} {M : Type}

/-- The start of a session. -/
def new (sessionId : SessionId) : Handshake G M := ⟨⟨sessionId, none, []⟩, none⟩

/-- Answer the request of the peer. -/
def onRequest (access : Access G L M) (h : Handshake G M) (req : Request) :
    Handshake G M × Except String L.Response :=
  match access.verify req with
  | some response => (h, .ok response)
  | none =>
    let context := access.contextOf h.context req
    (⟨context, some (access.metaExtractor context)⟩, access.respond context req)

/-- The library opens a connection when the request is answered with this status. -/
def isUpgrade : Except String L.Response → Bool
  | .ok response => L.status response == 101
  | .error _ => false

end Handshake

namespace Access

variable {G : Globset} {L : Library} {M : Type} (access : Access G L M)

/-- What is known about a new session after a request. -/
def newContext (sessionId : SessionId) (req : Request) : RequestContext G :=
  access.contextOf ⟨sessionId, none, []⟩ req

/-- The metadata of a session that a request opens. -/
def metadataOf (sessionId : SessionId) (req : Request) : M :=
  access.metaExtractor (access.newContext sessionId req)

/-- A request that has passed the checks opens the connection. -/
def isUpgrade (sessionId : SessionId) (req : Request) : Bool :=
  Handshake.isUpgrade (access.respond (access.newContext sessionId req) req)

end Access

/-! ## What is let through -/

/-- A header that is there matches one of the patterns, if there are any. -/
def Admits {T : Type} (isMatch : T → Text → Bool) (allowed : Option (List T))
    (header : Option Bytes) : Prop :=
  ∀ values, allowed = some values → ∀ bytes, header = some bytes →
    ∃ text, fromUtf8 bytes = some text ∧ ∃ v ∈ values, isMatch v text.toList = true

theorem headerIsAllowed_iff {T : Type} {isMatch : T → Text → Bool} {allowed : Option (List T)}
    {header : Option Bytes} :
    headerIsAllowed isMatch allowed header = true ↔ Admits isMatch allowed header := by
  cases header with
  | none => simp [headerIsAllowed, Admits]
  | some bytes =>
    cases allowed with
    | none => simp [headerIsAllowed, Admits]
    | some values =>
      cases hbytes : fromUtf8 bytes with
      | none => simp [headerIsAllowed, Admits, hbytes]
      | some text => simp [headerIsAllowed, Admits, hbytes]

/-- A request passes: what the middleware wants to be checked is allowed. -/
structure Access.Passes {G : Globset} {L : Library} {M : Type} (access : Access G L M)
    (req : Request) : Prop where
  origin : (access.action req).shouldVerifyOrigin = true →
    Admits ServerUtils.Origin.matchesText access.allowedOrigins (req.header "origin")
  host : (access.action req).shouldVerifyHosts = true →
    Admits Host.matchesText access.allowedHosts (req.header "host")

namespace Access

variable {G : Globset} {L : Library} {M : Type} {access : Access G L M} {req : Request}

theorem verifyOrigin_eq_none_iff {origin : Option Bytes} :
    access.verifyOrigin origin = none ↔
      Admits ServerUtils.Origin.matchesText access.allowedOrigins origin := by
  rw [verifyOrigin, ← headerIsAllowed_iff]
  simp

theorem verifyHost_eq_none_iff :
    access.verifyHost req = none ↔
      Admits Host.matchesText access.allowedHosts (req.header "host") := by
  rw [verifyHost, ← headerIsAllowed_iff]
  simp

/-- A request is answered by the checks unless it passes. -/
theorem verify_eq_none_iff : access.verify req = none ↔ access.Passes req := by
  have hpasses : access.Passes req ↔
      ((access.action req).shouldVerifyOrigin = true →
          access.verifyOrigin (readOrigin req) = none) ∧
        ((access.action req).shouldVerifyHosts = true → access.verifyHost req = none) := by
    rw [verifyOrigin_eq_none_iff, verifyHost_eq_none_iff]
    exact ⟨fun h => ⟨h.origin, h.host⟩, fun h => ⟨h.1, h.2⟩⟩
  rw [hpasses, verify]
  cases (access.action req).shouldVerifyOrigin <;> cases (access.action req).shouldVerifyHosts <;>
    cases access.verifyOrigin (readOrigin req) <;> simp

/-- A rejection has the status 403. -/
theorem status_forbidden (title message : String) : L.status (forbidden L title message) = 403 := by
  rw [forbidden, L.status_pushHeader, L.status_new]

theorem status_of_verify {response : L.Response} (h : access.verify req = some response) :
    L.status response = 403 := by
  have horigin : ∀ r, access.verifyOrigin (readOrigin req) = some r → L.status r = 403 := by
    intro r hr
    unfold verifyOrigin at hr
    split at hr
    · cases hr
      exact status_forbidden _ _
    · cases hr
  have hhost : ∀ r, access.verifyHost req = some r → L.status r = 403 := by
    intro r hr
    unfold verifyHost at hr
    dsimp only at hr
    split at hr
    · cases hr
      exact status_forbidden _ _
    · cases hr
  unfold verify at h
  dsimp only at h
  split at h
  · rename_i r hr
    cases h
    split at hr
    · exact horigin _ hr
    · cases hr
  · split at h
    · exact hhost _ h
    · cases h

end Access

/-- A request that opens a connection has passed, and has left the metadata of the connection. -/
theorem Handshake.of_isUpgrade {G : Globset} {L : Library} {M : Type} {access : Access G L M}
    {sessionId : SessionId} {req : Request}
    (hupgrade : isUpgrade ((new sessionId).onRequest access req).2 = true) :
    access.Passes req ∧ access.isUpgrade sessionId req = true ∧
      ((new sessionId).onRequest access req).1.metadata =
        some (access.metadataOf sessionId req) := by
  unfold onRequest at hupgrade ⊢
  split at hupgrade
  · rename_i response hverify
    simp [isUpgrade, Access.status_of_verify hverify] at hupgrade
  · rename_i hverify
    exact ⟨Access.verify_eq_none_iff.mp hverify, hupgrade, rfl⟩

end JsonRpc.Ws
