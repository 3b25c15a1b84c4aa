import JsonRpc.Codec.StreamCodec
import JsonRpc.Core.Types
import JsonRpc.ServerUtils.Cors

/-!
# HTTP requests and responses

A request is a method, a path, headers and a body, which comes in chunks. The headers of a
request decide whether its host, its origin and its headers are allowed. A response is a
status code, a content type and a content, to which further headers are added.
-/

namespace JsonRpc.Http

open Text ServerUtils

/-- The value of a header. -/
abbrev HeaderValue := Bytes

/-- The libraries that the server uses. -/
structure Libraries where
  unicode : Unicode
  json : SerdeJson
  /-- `HeaderValue::to_str`. -/
  toStr : HeaderValue → Option Text
  /-- `HeaderValue::from_str`. -/
  fromStr : Text → Option HeaderValue
  /-- The text of a response in an error message. -/
  debug : Option JsonRpc.Response → String

/-! ## Requests -/

/-- The method of a request. -/
inductive Method where
  | options
  | get
  | post
  | put
  | delete
  | head
  | trace
  | connect
  | patch
  | other (name : Text)
  deriving DecidableEq

/-- An error of the connection. -/
structure HyperError where
  message : String
  deriving DecidableEq

/-- What a body answers when it is polled. It ends after the last event. -/
inductive BodyEvent where
  | chunk (data : Bytes)
  | pending
  | error (e : HyperError)
  deriving DecidableEq

/-- A request. The names of headers are in lower case. -/
structure Request where
  method : Method
  path : Text
  headers : List (Text × HeaderValue)
  body : List BodyEvent
  deriving DecidableEq

/-- The bytes of a body that ends without an error. -/
def assemble : List BodyEvent → Option Bytes
  | [] => some []
  | .chunk data :: body => (assemble body).map (data ++ ·)
  | .pending :: body => assemble body
  | .error _ :: _ => none

namespace Request

/-- The values of a header. -/
def getAll (request : Request) (name : Text) : List HeaderValue :=
  (request.headers.filter (·.1 = name)).map Prod.snd

/-- The first value of a header. -/
def get (request : Request) (name : Text) : Option HeaderValue := (request.getAll name).head?

end Request

/-! ## What the headers decide -/

section Utils

variable {G : Globset} (L : Libraries) (request : Request)

def readHeader (name : Text) : Option Text := (request.get name).bind L.toStr

def isHostAllowed (allowedHosts : Option (List (Host G))) : Bool :=
  isHostValid (readHeader L request "host".toList) allowedHosts

def corsAllowOrigin (corsDomains : Option (List (AccessControlAllowOrigin G))) :
    AllowCors HeaderValue :=
  (getCorsAllowOrigin L.unicode (readHeader L request "origin".toList)
    (readHeader L request "host".toList) corsDomains).map fun
    | .value val => (L.fromStr val.asString).getD (intoBytes "null")
    | .null => intoBytes "null"
    | .any => intoBytes "*"

def corsAllowHeaders (allowHeaders : AccessControlAllowHeaders) : AllowCors (List HeaderValue) :=
  let headers := (request.headers.map Prod.fst).dedup
  let requestedHeaders :=
    (((request.getAll "access-control-request-headers".toList).filterMap L.toStr).flatMap
      (split ", ".toList)).flatMap (split [','])
  getCorsAllowHeaders headers requestedHeaders allowHeaders fun name =>
    (L.fromStr name).getD (intoBytes "unknown")

/-- Keep the connection alive after the response. -/
def keepAlive (keepAlive : Bool) : Bool :=
  match readHeader L request "connection".toList with
  | some val => keepAlive && val ≠ "close".toList
  | none => keepAlive

/-- The content type of a JSON message. -/
def isJson (contentType : Option HeaderValue) : Bool :=
  match contentType.bind L.toStr with
  | some content =>
    eqIgnoreAsciiCase content "application/json".toList ||
      eqIgnoreAsciiCase content "application/json; charset=utf-8".toList ||
      eqIgnoreAsciiCase content "application/json;charset=utf-8".toList
  | none => false

/-- The request has the content type of a JSON message. -/
def hasJson : Bool := isJson L (request.get "content-type".toList)

end Utils

/-! ## Responses -/

/-- A response of the server. -/
structure Response where
  code : ℕ
  contentType : HeaderValue
  content : String
  deriving DecidableEq

namespace Response

def plainText : HeaderValue := intoBytes "text/plain; charset=utf-8"

def jsonText : HeaderValue := intoBytes "application/json; charset=utf-8"

def ok (response : String) : Response := ⟨200, jsonText, response⟩

def empty : Response := ok ""

def internalError (msg : String) : Response :=
  ⟨500, plainText, "Internal Server Error: " ++ msg⟩

def serviceUnavailable (msg : String) : Response := ⟨503, jsonText, msg⟩

def hostNotAllowed : Response := ⟨403, plainText, "Provided Host header is not whitelisted.\n"⟩

def unsupportedContentType : Response :=
  ⟨415, plainText,
    "Supplied content type is not allowed. Content-Type: application/json is required\n"⟩

def methodNotAllowed : Response :=
  ⟨405, plainText, "Used HTTP Method is not allowed. POST or OPTIONS is required\n"⟩

def invalidAllowOrigin : Response :=
  ⟨403, plainText, "Origin of the request is not whitelisted. CORS headers would not be sent " ++
    "and any side-effects were cancelled as well.\n"⟩

def invalidAllowHeaders : Response :=
  ⟨403, plainText, "Requested headers are not allowed for CORS. CORS headers would not be sent " ++
    "and any side-effects were cancelled as well.\n"⟩

def badRequest (msg : String) : Response := ⟨400, plainText, msg⟩

def tooLarge (msg : String) : Response := ⟨413, plainText, msg⟩

def closing : Response := ⟨503, plainText, "Server is closing."⟩

end Response

/-- A response with its headers. -/
structure HyperResponse where
  status : ℕ
  headers : List (String × HeaderValue)
  body : String
  deriving DecidableEq

/-- The headers of a response, besides its content type. -/
def responseHeaders (isOptions : Bool) (corsMaxAge : Option UInt32)
    (corsAllowOrigin : Option HeaderValue) (corsAllowHeaders : Option (List HeaderValue))
    (keepAlive : Bool) : List (String × HeaderValue) :=
  let concat (headers : List HeaderValue) : HeaderValue := List.intercalate (intoBytes ", ") headers
  let allowed := concat [intoBytes "OPTIONS", intoBytes "POST"]
  (if isOptions then [("allow", allowed), ("accept", intoBytes "application/json")] else []) ++
    (match corsAllowOrigin with
      | some corsAllowOrigin =>
        [("vary", intoBytes "origin"), ("access-control-allow-methods", allowed),
          ("access-control-allow-origin", corsAllowOrigin)] ++
        (match corsMaxAge with
          | some cma => [("access-control-max-age", intoBytes (toString cma.toNat))]
          | none => []) ++
        (match corsAllowHeaders with
          | some corsAllowHeaders =>
            if corsAllowHeaders.isEmpty then []
            else [("access-control-allow-headers", concat corsAllowHeaders)]
          | none => [])
      | none => []) ++
    (if keepAlive then [] else [("connection", intoBytes "close")])

/-- A response with its content type and further headers. -/
def Response.into (res : Response) (headers : List (String × HeaderValue)) : HyperResponse :=
  ⟨res.code, ("content-type", res.contentType) :: headers, res.content⟩

/-- The response names the allowed origin if and only if there is one. -/
theorem exists_allowOrigin_iff {res : Response} {isOptions : Bool} {corsMaxAge : Option UInt32}
    {origin : Option HeaderValue} {headers : Option (List HeaderValue)} {keepAlive : Bool} :
    (∃ v, ("access-control-allow-origin", v) ∈
        (res.into (responseHeaders isOptions corsMaxAge origin headers keepAlive)).headers) ↔
      origin.isSome = true := by
  cases origin with
  | none => cases isOptions <;> cases keepAlive <;> simp [Response.into, responseHeaders]
  | some origin => simp [Response.into, responseHeaders]

end JsonRpc.Http
