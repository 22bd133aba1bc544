import YtdlBot.Framework.Program
import YtdlBot.Transport.RangeResponse

/-!
# Requests that follow redirects

`MediaTransport._request` with `URLPolicy.resolve`, and the `request_response` of the providers,
as programs over what they await: the deadline, name resolution, connections and closings. URL
parsing and address classes come from the standard library and are parameters.
-/

namespace YtdlBot.Transport

open Framework
open Framework.Program (ofExcept)

/-- `urlsplit(url)` with the properties that are read. -/
structure SplitResult where
  scheme : String
  hostname : Option String
  username : Option String
  password : Option String
  port : Option Nat

structure IpAddress where
  text : String
  isGlobal : Bool
  isMulticast : Bool
  isUnspecified : Bool
  isReserved : Bool
deriving DecidableEq

def IpAddress.public (address : IpAddress) : Bool :=
  address.isGlobal && !address.isMulticast && !address.isUnspecified && !address.isReserved

/-- What `urllib.parse`, `ipaddress` and `str.lower` do; `none` is a `ValueError`. -/
structure UrlLibrary where
  urlsplit : String → Option SplitResult
  urljoin : String → String → Option String
  ipAddress : String → Option IpAddress
  lowerHost : String → String

structure Origin where
  scheme : List Char
  host : String
  port : Option Nat
deriving DecidableEq

/-- `str.rstrip(".")`. -/
def rstripDots (s : String) : String :=
  String.ofList (s.toList.reverse.dropWhile (· = '.')).reverse

def redirects : List Nat := [301, 302, 303, 307, 308]

/-- `port or (443 if scheme == "https" else 80)`. -/
def portOrDefault (split : SplitResult) : Nat :=
  match split.port with
  | none | some 0 => if lower split.scheme = "https".toList then 443 else 80
  | some port => port

/-- `_origin` of the transport. -/
def UrlLibrary.origin (U : UrlLibrary) (url : String) : Option Origin :=
  (U.urlsplit url).map fun split =>
    ⟨lower split.scheme, rstripDots (U.lowerHost (split.hostname.getD "")),
      some (portOrDefault split)⟩

/-- `str.upper` of an ASCII word. -/
def upper (s : String) : String := String.ofList (s.toList.map Char.toUpper)

inductive TransferError where
  | unsafeMediaURL (message : String)
  | mediaHostResolution (message : String)
  | credentialRedirect (message : String)
  | transferTimeout (message : String)
  | downloadFailed (message : String) (retryAfter : Option Rat := none)
  | valueError
deriving DecidableEq

/-- How name resolution ends, its timeout included. -/
inductive Resolution where
  | addresses (raw : List String)
  | osError
  | valueError
  | timeout
  | other
deriving DecidableEq

/-- How opening a connection ends, its timeout included. -/
inductive Connection where
  | response (response : Response)
  | materializationError (error : TransferError)
  | timeoutOrOSError
  | other
deriving DecidableEq

inductive RequestEffect where
  /-- `_remaining(deadline)`: is there time left? -/
  | remaining
  | resolver (host : String) (port : Nat)
  | open (proxy : Option String) (method url : String) (headers : Headers) (address : IpAddress)
  /-- `_close_response`, which may raise. -/
  | closeResponse (response : Response)

def RequestEffect.Result : RequestEffect → Type
  | .remaining => Bool
  | .resolver _ _ => Resolution
  | .open _ _ _ _ _ => Connection
  | .closeResponse _ => Except TransferError Unit

abbrev Requesting (α : Type) := Program TransferError RequestEffect RequestEffect.Result α

structure ResolvedURL where
  url : String
  host : String
  port : Nat
  addresses : List IpAddress

section URLPolicy

variable (U : UrlLibrary)

/-- The checks of `resolve` before the name is looked up: host and port. -/
def resolveTarget (url : String) : Except TransferError (String × Nat) :=
  match U.urlsplit url with
  | none => .error (.unsafeMediaURL "malformed media URL")
  | some split =>
    if (lower split.scheme ≠ "http".toList ∧ lower split.scheme ≠ "https".toList) ∨
        split.hostname.getD "" = "" then
      .error (.unsafeMediaURL "media URL must use HTTP(S)")
    else if split.username ≠ none ∨ split.password ≠ none then
      .error (.unsafeMediaURL "media URL must not contain credentials")
    else if portOrDefault split < 1 ∨ 65535 < portOrDefault split then
      .error (.unsafeMediaURL "invalid media URL port")
    else .ok (U.lowerHost (rstripDots (split.hostname.getD "")), portOrDefault split)

/-- The checks of `resolve` on what the resolver returned. -/
def approveAddresses (raw : List String) : Except TransferError (List IpAddress) :=
  match raw.mapM U.ipAddress with
  | none => .error (.unsafeMediaURL "media host resolution failed")
  | some addresses =>
    if addresses = [] then .error (.mediaHostResolution "media host resolved to no addresses")
    else if addresses.any fun address => !address.public then
      .error (.unsafeMediaURL "media host resolved to a non-public address")
    else .ok addresses

/-- The handlers of `resolve` and `_request` for what ends a resolution. -/
def resolutionResult : Resolution → Except TransferError (List String)
  | .addresses raw => .ok raw
  | .osError => .error (.mediaHostResolution "media host resolution failed")
  | .valueError => .error (.unsafeMediaURL "media host resolution failed")
  | .timeout => .error (.transferTimeout "media connection failed")
  | .other => .error (.downloadFailed "media connection failed")

/-- `URLPolicy.resolve`. -/
def resolve (url : String) : Requesting ResolvedURL := do
  let target ← ofExcept (resolveTarget U url)
  let raw ← Program.attempt (.resolver target.1 target.2) resolutionResult
  let addresses ← ofExcept (approveAddresses U raw)
  pure ⟨url, target.1, target.2, addresses⟩

end URLPolicy

def remainingResult : Bool → Except TransferError Unit
  | true => .ok ()
  | false => .error (.transferTimeout "materialization deadline exceeded")

/-- `_remaining(deadline)`. -/
def checkRemaining : Requesting Unit := Program.attempt .remaining remainingResult

/-- What the loop of `_request` carries from hop to hop. -/
structure Hop where
  url : String
  method : String
  headers : Headers
  bodySensitive : Bool

def crossOriginHeaderAllowlist : List String :=
  ["accept", "accept-encoding", "range", "user-agent"]

/-- `key.lower() in names`. -/
def named (names : List String) (key : String) : Bool :=
  names.any fun name => lower key = lower name

section Request

variable (U : UrlLibrary)

/-- The handlers of `_request` for what ends an opening. -/
def connectionResult : Connection → Except TransferError Response
  | .response response => .ok response
  | .materializationError error => .error error
  | .timeoutOrOSError => .error (.transferTimeout "media connection failed")
  | .other => .error (.downloadFailed "media connection failed")

/-- Resolve the URL and open it at the first address; `addresses[0]` of no address is an
`IndexError`, which is handled like any other exception. -/
def openHop (proxy : Option String) (hop : Hop) : Requesting Response := do
  checkRemaining
  let resolved ← resolve U hop.url
  checkRemaining
  match resolved.addresses with
  | [] => .raise (.downloadFailed "media connection failed")
  | address :: _ =>
    Program.attempt (.open proxy hop.method hop.url hop.headers address) connectionResult

/-- The hop a redirect leads to. -/
def redirected (hop : Hop) (response : Response) : Except TransferError Hop :=
  match header response.headers "location" with
  | none | some "" => .error (.downloadFailed "invalid media redirect")
  | some location =>
    match U.urljoin hop.url location with
    | none => .error .valueError
    | some nextUrl =>
      match U.origin hop.url, U.origin nextUrl with
      | some current, some next =>
        if current ≠ next ∧ response.statusCode ∈ [307, 308] ∧ hop.bodySensitive = true then
          .error (.credentialRedirect "refusing cross-origin body-preserving redirect")
        else
          let headers :=
            if current ≠ next then
              hop.headers.filter fun field => named crossOriginHeaderAllowlist field.1
            else hop.headers
          if response.statusCode ∈ [301, 302, 303] then .ok ⟨nextUrl, "GET", headers, false⟩
          else .ok ⟨nextUrl, hop.method, headers, hop.bodySensitive⟩
      | _, _ => .error .valueError

/-- The loop of `_request` with this many attempts left. -/
def requestLoop (proxy : Option String) : Nat → Hop → Requesting (Response × String)
  | 0, _ => .raise (.downloadFailed "too many media redirects")
  | attempts + 1, hop => do
    let response ← openHop U proxy hop
    if response.statusCode ∉ redirects then pure (response, hop.url)
    else
      Program.attempt (.closeResponse response) id
      if attempts = 0 then .raise (.downloadFailed "invalid media redirect")
      else
        let next ← ofExcept (redirected U hop response)
        requestLoop proxy attempts next

/-- `MediaTransport._request`; `proxyUrl` is what the proxy pool knows of a key. -/
def request (maxRedirects : Nat) (proxyUrl : String → Option String) (method url : String)
    (headers : Headers) (bodySensitive : Bool) (proxyKey : Option String) :
    Requesting (Response × String) := do
  checkRemaining
  let hop : Hop := ⟨url, upper method, headers, bodySensitive⟩
  match proxyKey with
  | none => requestLoop U none (maxRedirects + 1) hop
  | some key =>
    match proxyUrl key with
    | none => .raise (.downloadFailed "media proxy route is unavailable")
    | some proxy => requestLoop U (some proxy) (maxRedirects + 1) hop

end Request

namespace Providers

/-- `ProviderError` of these kinds, or a `ValueError` of URL parsing. -/
inductive RequestError where
  | transient (message : String)
  | config (message : String)
  | other (message : String)
  | valueError

/-- `_origin` of the providers. -/
def origin (U : UrlLibrary) (url : String) : Option Origin :=
  (U.urlsplit url).map fun split =>
    ⟨lower split.scheme, U.lowerHost (split.hostname.getD ""), split.port⟩

def sensitiveHeaders : List String :=
  ["authorization", "cookie", "proxy-authorization", "x-api-key"]

variable {β : Type}

/-- `transport.request`; `β` is the type of bodies. -/
structure Sent (β : Type) where
  method : String
  url : String
  headers : Headers
  json : Option β
  data : Option β

abbrev Requesting (β α : Type) :=
  Program RequestError (Sent β) (fun _ => Except RequestError Response) α

/-- The request a redirect leads to. -/
def redirected (U : UrlLibrary) (sent : Sent β) (response : Response) :
    Except RequestError (Sent β) :=
  match header response.headers "location" with
  | none | some "" => .error (.transient "invalid redirect response")
  | some location =>
    match U.urljoin sent.url location with
    | none => .error .valueError
    | some nextUrl =>
      match origin U nextUrl, origin U sent.url with
      | some next, some current =>
        if next ≠ current ∧ response.statusCode ∈ [307, 308] ∧
            (sent.json.isSome ∨ sent.data.isSome) then
          .error (.config "refusing cross-origin body-preserving redirect")
        else
          let headers :=
            if next ≠ current then
              sent.headers.filter fun field => !named sensitiveHeaders field.1
            else sent.headers
          if response.statusCode ∈ [301, 302, 303] then
            .ok ⟨if upper sent.method ≠ "GET" then "GET" else sent.method, nextUrl, headers, none,
              none⟩
          else .ok ⟨sent.method, nextUrl, headers, sent.json, sent.data⟩
      | _, _ => .error .valueError

/-- The loop of `request_response` with this many attempts left. -/
def responseLoop (U : UrlLibrary) : Nat → Sent β → Requesting β Response
  | 0, _ => .raise (.transient "too many redirects")
  | attempts + 1, sent => do
    let response ← Program.attempt sent id
    if response.statusCode ∉ redirects then pure response
    else if attempts = 0 then .raise (.transient "invalid redirect response")
    else
      let next ← ofExcept (redirected U sent response)
      responseLoop U attempts next

def requestResponse (U : UrlLibrary) (maxRedirects : Int) (sent : Sent β) :
    Requesting β Response :=
  responseLoop U (maxRedirects + 1).toNat sent

end Providers

end YtdlBot.Transport
