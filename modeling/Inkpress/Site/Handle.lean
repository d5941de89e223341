import Inkpress.Blog
import Inkpress.Site.Address
import Inkpress.Site.Response
import Inkpress.Site.Route
import Inkpress.Text.Basic

namespace Inkpress.Site

def version : String := "0.3.0"

structure Request where
  method : String
  address : Address
  headers : List (String × String)

namespace Request

def header? (r : Request) (name : String) : Option String :=
  (r.headers.find? (fun h => h.1.map Char.toLower = name)).map (·.2)

end Request

/-- The id that a segment of a path stands for: a number of 32 bits, perhaps with a sign. -/
def idOf? (segment : List Char) : Option Int := do
  let s ← Address.decode? segment
  Text.Numeral.signed? 32 s.toList

def healthResponse : Response :=
  .json 200 (.object [("status", .text "healthy"), ("version", .text version)])

def readyResponse (b : Blog) : Response :=
  let (status, label, check) := match b.pool.ping with
    | .ok () => (200, "ready", [("status", Json.text "up"), ("latency_ms", Json.nat 0)])
    | .error e => (503, "not_ready", [("status", .text "down"), ("error", .text e.message)])
  .json status (.object [("status", .text label),
    ("checks", .object [("database", .object check)])])

def postsResponse (b : Blog) : Response :=
  match b.pool.list with
  | .ok posts => .json 200 (.array (posts.map Store.Summary.toJson))
  | .error e => .ofError e

def postResponse (b : Blog) (segment : List Char) : Response :=
  match idOf? segment with
  | none => .ofError (.invalidPostId (String.ofList segment))
  | some id =>
    match b.pool.detail id with
    | .ok d => .json 200 d.toJson
    | .error e => .ofError e

def imageNotFound : Response :=
  .text 404 "Image not found"

/-- An image's bytes under its content type, if that can stand in a header. -/
def imageBytes (i : Store.Image) : Response :=
  if i.shownContentType.toList.all Response.isHeaderChar then
    .ofBody 200 i.shownContentType i.data
  else .text 500 "failed to parse header value"

/-- An image, and the blog with the bytes of it counted. -/
def imageResponse (b : Blog) (segment : List Char) : Response × Blog :=
  match idOf? segment with
  | none => (imageNotFound, b)
  | some id =>
    match b.pool.image id with
    | .ok i => (imageBytes i, { b with metrics := b.metrics.recordImageServed i.data.size })
    | .error (.imageNotFound _) => (imageNotFound, b)
    | .error e => (.text 500 e.message, b)

def homeResponse (segment : List Char) : Response :=
  match Address.decode? segment with
  | some name => .html 200 (Html.greeting name)
  | none => .text 400 ("Invalid URL: Invalid UTF-8 in " ++ "\x60name\x60")

def echoResponse (query : Option (List Char)) : Response :=
  .text 200 (String.ofList (query.getD []))

def routeResponse (b : Blog) (a : Address) : Route → Response × Blog
  | .health => (healthResponse, b)
  | .ready => (readyResponse b, b)
  | .posts => (postsResponse b, b)
  | .post segment => (postResponse b segment, b)
  | .image segment => imageResponse b segment
  | .home segment => (homeResponse segment, b)
  | .echo => (echoResponse a.query, b)

def allow : String × String := ("allow", "GET,HEAD")

def methodNotAllowed : Response :=
  ⟨405, [allow, Response.contentLength 0], .empty⟩

def routed (b : Blog) (r : Request) (route : Route) : Response × Blog :=
  if r.method = "GET" then routeResponse b r.address route
  else if r.method = "HEAD" then
    let (response, b) := routeResponse b r.address route
    (response.withoutBody, b)
  else (methodNotAllowed, b)

def counted (route : Route) (method : String) (answer : Response × Blog) : Response × Blog :=
  match route.endpoint? with
  | none => answer
  | some endpoint =>
    let (response, b) := answer
    (response, { b with metrics := b.metrics.recordRequest method endpoint response.status })

/-- The origin that may read answers: any, unless a single valid one is configured. -/
def allowedOrigin (configured : String) : String :=
  let origin := Text.trim configured
  if origin = "*" then "*"
  else if origin.toList.all Response.isHeaderChar then origin
  else "*"

def preflight (route : Option Route) : Response :=
  let base : List (String × String) :=
    [("access-control-allow-methods", "GET,OPTIONS"), ("access-control-allow-headers", "*")]
  match route with
  | some _ => ⟨200, base ++ [allow, Response.contentLength 0], .empty⟩
  | none => ⟨200, base, .empty⟩

def respond (b : Blog) (r : Request) : Response × Blog :=
  let route := Route.ofPath? r.address.path
  if r.method = "OPTIONS" then (preflight route, b)
  else match route with
    | none => (.bare 404, b)
    | some route => counted route r.method (routed b r route)

/-- Answers a request. The new id is for requests that bring none of their own. -/
def handle (b : Blog) (configuredOrigin newId : String) (r : Request) : Response × Blog :=
  let (response, b) := respond b r
  let id := (r.header? "x-request-id").getD newId
  (((response.header ("access-control-allow-origin", allowedOrigin configuredOrigin)).header
    ("vary", "origin, access-control-request-method, access-control-request-headers")).header
    ("x-request-id", id), b)

end Inkpress.Site
