import JsonRpc.ServerUtils.Hosts

/-!
# Cross-origin requests

A request with an origin is allowed if the origin is that of the server itself, or if it
matches an allowed origin. The response names the origin that is allowed. The headers of a
request, and the headers that it asks for, are compared with the allowed headers.
-/

namespace JsonRpc.ServerUtils

open Text

/-! ## Origins -/

/-- The protocol of an origin. -/
inductive OriginProtocol where
  | http
  | https
  | custom (protocol : Text)
  deriving DecidableEq

def originString {G : Globset} (protocol : OriginProtocol) (host : Host G) : Text :=
  (match protocol with
    | .http => "http".toList
    | .https => "https".toList
    | .custom protocol => protocol) ++ "://".toList ++ host.asString

/-- The origin of a request. -/
structure Origin (G : Globset) where
  protocol : OriginProtocol
  host : Host G
  asString : Text
  matcher : Matcher G
  asString_eq : asString = originString protocol host
  matcher_eq : matcher = .new asString

namespace Origin

variable {G : Globset} (U : Unicode)

def withHost (protocol : OriginProtocol) (host : Host G) : Origin G :=
  ⟨protocol, host, originString protocol host, .new (originString protocol host), rfl, rfl⟩

def new (protocol : OriginProtocol) (host : Text) (port : Port) : Origin G :=
  withHost protocol (Host.new U host port)

def parse (data : Text) : Origin G :=
  let (proto, rest) := splitOnce "://".toList data
  match rest with
  | none => withHost .http (Host.parse U proto)
  | some rest =>
    let proto := U.toLowercase proto
    let hostname := Host.parse U (splitOnce "://".toList rest).1
    if proto = "http".toList then withHost .http hostname
    else if proto = "https".toList then withHost .https hostname
    else withHost (.custom proto) hostname

def matchesText (origin : Origin G) (other : Text) : Bool := origin.matcher.matchesText other

end Origin

/-- An origin that is allowed. -/
inductive AccessControlAllowOrigin (G : Globset) where
  | value (origin : Origin G)
  /-- The origin of a file. -/
  | null
  /-- Every origin but that of a file. -/
  | any

/-- Headers that are allowed. -/
inductive AccessControlAllowHeaders where
  | only (headers : List Text)
  | any

/-! ## Verdicts -/

/-- The verdict on a request. -/
inductive AllowCors (α : Type) where
  | notRequired
  | invalid
  | ok (a : α)

namespace AllowCors

variable {α β : Type}

def map (f : α → β) : AllowCors α → AllowCors β
  | notRequired => notRequired
  | invalid => invalid
  | ok val => ok (f val)

/-- The header of a response. -/
def toOption : AllowCors α → Option α
  | notRequired | invalid => none
  | ok header => some header

/-- The request is not allowed. -/
def isInvalid : AllowCors α → Bool
  | invalid => true
  | notRequired | ok _ => false

/-- The response names something that is allowed. -/
def isOk : AllowCors α → Bool
  | ok _ => true
  | notRequired | invalid => false

@[simp] theorem isOk_map (f : α → β) (verdict : AllowCors α) :
    (verdict.map f).isOk = verdict.isOk := by
  cases verdict <;> rfl

theorem toOption_isSome (verdict : AllowCors α) : verdict.toOption.isSome = verdict.isOk := by
  cases verdict <;> rfl

end AllowCors

/-- The verdict on the origin of a request. -/
def getCorsAllowOrigin {G : Globset} (U : Unicode) (origin host : Option Text)
    (allowed : Option (List (AccessControlAllowOrigin G))) :
    AllowCors (AccessControlAllowOrigin G) :=
  match origin with
  | none => .notRequired
  | some origin =>
    let isSameServer := match host with
      | none => false
      | some host =>
        decide (host <:+ origin) && (Origin.parse (G := G) U origin).host.asString == host
    if isSameServer then .notRequired
    else
      match allowed with
      | none =>
        if origin = "null".toList then .ok .null else .ok (.value (.parse U origin))
      | some allowed =>
        if origin = "null".toList then
          if allowed.any fun | .null => true | _ => false then .ok .null else .invalid
        else
          let isAllowed := allowed.any fun
            | .any => true
            | .value val => val.matchesText origin
            | .null => false
          if isAllowed then .ok (.value (.parse U origin)) else .invalid

section Verdict

variable {G : Globset} {U : Unicode} {origin : Text} {host : Option Text}
  {allowed : List (AccessControlAllowOrigin G)}

/-- The origin of a request is that of the server. -/
def IsSameServer (G : Globset) (U : Unicode) (origin : Text) (host : Option Text) : Prop :=
  ∃ h, host = some h ∧ h <:+ origin ∧ (Origin.parse U origin : Origin G).host.asString = h

theorem not_isSameServer_none : ¬ IsSameServer G U origin none := by
  rintro ⟨_, hnone, _⟩
  cases hnone

/-- An entry of an allow list allows an origin. -/
def AccessControlAllowOrigin.Allows (entry : AccessControlAllowOrigin G) (origin : Text) : Prop :=
  entry = .any ∨ ∃ val, entry = .value val ∧ val.matchesText origin = true

theorem getCorsAllowOrigin_of_isSameServer (h : IsSameServer G U origin host)
    (allowed : Option (List (AccessControlAllowOrigin G))) :
    getCorsAllowOrigin U (some origin) host allowed = .notRequired := by
  obtain ⟨h, rfl, hsuffix, hhost⟩ := h
  unfold getCorsAllowOrigin
  dsimp only
  rw [if_pos]
  rw [Bool.and_eq_true, beq_iff_eq]
  exact ⟨decide_eq_true hsuffix, hhost⟩

/-- The verdict of an allow list on an origin. -/
theorem getCorsAllowOrigin_of_not_isSameServer (h : ¬ IsSameServer G U origin host)
    (hnull : origin ≠ "null".toList) :
    ((∃ entry ∈ allowed, entry.Allows origin) ∧
      getCorsAllowOrigin U (some origin) host (some allowed) = .ok (.value (.parse U origin))) ∨
    ((∀ entry ∈ allowed, ¬ entry.Allows origin) ∧
      getCorsAllowOrigin U (some origin) host (some allowed) = .invalid) := by
  unfold getCorsAllowOrigin
  dsimp only
  rw [if_neg, if_neg hnull]
  · split
    · rename_i hallowed
      obtain ⟨entry, hmem, hentry⟩ := List.any_eq_true.mp hallowed
      refine .inl ⟨⟨entry, hmem, ?_⟩, rfl⟩
      cases entry with
      | value val => exact .inr ⟨val, rfl, hentry⟩
      | null => cases hentry
      | any => exact .inl rfl
    · rename_i hnone
      refine .inr ⟨fun entry hmem hallows => hnone (List.any_eq_true.mpr ⟨entry, hmem, ?_⟩), rfl⟩
      rcases hallows with rfl | ⟨val, rfl, hmatch⟩
      · rfl
      · exact hmatch
  · intro hsame
    cases host with
    | none => cases hsame
    | some text =>
      rw [Bool.and_eq_true, beq_iff_eq] at hsame
      exact h ⟨text, rfl, of_decide_eq_true hsame.1, hsame.2⟩

/-- An allow list of one origin. -/
theorem isInvalid_getCorsAllowOrigin_value {val : Origin G} (h : ¬ IsSameServer G U origin host)
    (hnull : origin ≠ "null".toList) :
    (getCorsAllowOrigin U (some origin) host (some [.value val])).isInvalid =
      !val.matchesText origin := by
  have hverdict := @getCorsAllowOrigin_of_not_isSameServer G U origin host [.value val] h hnull
  obtain ⟨⟨entry, hmem, hallows⟩, hok⟩ | ⟨hnone, hinvalid⟩ := hverdict
  · cases List.mem_singleton.mp hmem
    rcases hallows with hany | ⟨val', hval, hmatch⟩
    · cases hany
    · cases hval
      rw [hok, hmatch]
      rfl
  · have hmatch : ¬ val.matchesText origin = true := fun hmatch =>
      hnone _ (List.mem_singleton_self _) (.inr ⟨val, rfl, hmatch⟩)
    rw [hinvalid, Bool.eq_false_iff.mpr hmatch]
    rfl

end Verdict

/-- The headers that are always allowed. -/
def alwaysAllowedHeaders : List Text :=
  ["Accept".toList, "Accept-Language".toList, "Access-Control-Allow-Origin".toList,
    "Access-Control-Request-Headers".toList, "Content-Language".toList, "Content-Type".toList,
    "Host".toList, "Origin".toList, "Content-Length".toList, "Connection".toList,
    "User-Agent".toList]

/-- A header is on a list of headers, or always allowed. -/
def isAllowedHeader (only : List Text) (header : Text) : Bool :=
  only.any (fun h => eqIgnoreAsciiCase h header) ||
    alwaysAllowedHeaders.any (fun h => eqIgnoreAsciiCase h header)

/-- The verdict on the headers of a request, and on the headers that it asks for. -/
def getCorsAllowHeaders {α : Type} (headers requestedHeaders : List Text)
    (corsAllowHeaders : AccessControlAllowHeaders) (toResult : Text → α) : AllowCors (List α) :=
  let areAllAllowed := match corsAllowHeaders with
    | .only only => headers.all (isAllowedHeader only)
    | .any => true
  if !areAllAllowed then .invalid
  else
    let (filtered, headers) := match corsAllowHeaders with
      | .any => (false, requestedHeaders.map toResult)
      | .only only =>
        -- The filter was asked about some header.
        (!requestedHeaders.isEmpty, (requestedHeaders.filter (isAllowedHeader only)).map toResult)
    if headers.isEmpty then
      if filtered then .invalid else .notRequired
    else .ok headers

end JsonRpc.ServerUtils
