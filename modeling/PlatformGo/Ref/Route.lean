import PlatformGo.Ref.RoutePolicy

/-!
# Routes and their ids

`NewRoute` makes a key of a protocol, a method, a path and a service name, and
the id of the route is the version 5 UUID of that key. `stableid` refuses a
key that is not in canonical form.

`unicode.ToLower` and the hash are parameters. What is needed of the former is
that it is the usual one on ASCII and that nothing else becomes a colon, an
asterisk or a slash.
-/

namespace PlatformGo.StableID

/-- The parts of the Go library the ids depend on. -/
structure Runtime where
  /-- `unicode.ToLower`. -/
  lower : Char → Char
  isPrint : Char → Bool
  /-- The UUID of `uuid.NewSHA1`, as text. -/
  newSHA1 : String → String → String

/-- What is known of `unicode.ToLower`. -/
structure Runtime.Lawful (rt : Runtime) : Prop where
  ascii : ∀ c : Char, c.toNat < 128 → rt.lower c = c.toLower
  separators : ∀ c, rt.lower c = ':' ∨ rt.lower c = '*' ∨ rt.lower c = '/' →
    rt.lower c = c

/-- `strings.ToLower`. -/
def Runtime.toLower (rt : Runtime) (s : String) : String :=
  String.ofList (s.toList.map rt.lower)

def errInvalidKey : GoErr := .sentinel "invalid canonical business key"

/-- A character of `[a-z0-9_.-]`. -/
def isKeyChar (c : Char) : Bool :=
  ('a' ≤ c && c ≤ 'z') || ('0' ≤ c && c ≤ '9') || c = '_' || c = '.' || c = '-'

def isLetter (c : Char) : Bool := 'a' ≤ c && c ≤ 'z'

def isLetterOrDigit (c : Char) : Bool :=
  ('a' ≤ c && c ≤ 'z') || ('0' ≤ c && c ≤ '9')

/-- A part of a canonical key: a character of the first kind, and key
characters behind it. -/
def isPart (first : Char → Bool) : List Char → Bool
  | [] => false
  | c :: cs => first c && cs.all isKeyChar

/-- The regular expression `canonicalKey`. A colon is no key character, so the
parts are what the colons separate. -/
def canonicalKey (key : String) : Bool :=
  match key.toList.splitOn ':' with
  | first :: part :: parts =>
      isPart isLetter first && (part :: parts).all (isPart isLetterOrDigit)
  | _ => false

/-- `Generator.String`, for a namespace that is not nil. -/
def Runtime.generate (rt : Runtime) (namespaceID key : String) :
    Except GoErr String :=
  if key ≠ trimSpace key ∨ key ≠ rt.toLower key ∨ ¬ canonicalKey key then
    .error (.detail errInvalidKey (quote rt.isPrint key))
  else .ok (rt.newSHA1 namespaceID key)

end PlatformGo.StableID

namespace PlatformGo.RoutePolicy

open StableID (Runtime)

/-- `RouteNamespace`, which is a UUID, so that `stableid.New` accepts it. -/
def routeNamespace : String := "afc952de-95c3-455a-bc5c-89fb3c2a5da5"

structure Route where
  id : String
  protocol : String
  method : String
  path : String
  serviceName : String
  sourceVersion : String
  deriving DecidableEq, Repr

/-- The arguments of `NewRoute`. -/
structure RouteArgs where
  protocol : String
  method : String
  routePath : String
  serviceName : String
  sourceVersion : String
  deriving DecidableEq, Repr

/-- The regular expression `routeSegment`. -/
def routeSegment (s : List Char) : Bool :=
  s != [] && s.all StableID.isKeyChar

/-- `strings.TrimPrefix`, for a single character. -/
def trimPrefix (c : Char) : List Char → List Char
  | [] => []
  | d :: cs => if d = c then cs else d :: cs

/-- `strings.Trim`, for a single character. -/
def trimChar (c : Char) (s : List Char) : List Char :=
  ((s.dropWhile (· = c)).reverse.dropWhile (· = c)).reverse

/-- Without its marker, in lower case. -/
def segmentName (rt : Runtime) (segment : List Char) : List Char :=
  (trimPrefix '*' (trimPrefix ':' segment)).map rt.lower

/-- What may not start with a letter or a digit gets something in front, and
so does what looks as if it had. -/
def escape (segment : List Char) : List Char :=
  if ['.'].isPrefixOf segment || ['x', '-'].isPrefixOf segment then
    'x' :: '-' :: segment
  else segment

/-- The loop over the segments of a path. -/
def routeSegments (rt : Runtime) :
    List (List Char) → Except GoErr (List (List Char))
  | [] => .ok []
  | segment :: rest =>
      let name := segmentName rt segment
      if name = [] ∨ ¬ routeSegment name then
        .error (.detail errInvalid
          ("unsupported route segment " ++
            quote rt.isPrint (String.ofList name)))
      else
        match routeSegments rt rest with
        | .error err => .error err
        | .ok segments => .ok (escape name :: segments)

/-- The segments of a path, as they are written. -/
def pathSegments (routePath : String) : List (List Char) :=
  (trimChar '/' routePath.toList).splitOn '/'

/-- `strings.Join` with a colon. -/
def joinColon (segments : List (List Char)) : String :=
  String.ofList ([':'].intercalate segments)

def newRoute (rt : Runtime) (args : RouteArgs) : Except GoErr Route :=
  let protocol := rt.toLower (trimSpace args.protocol)
  let method := rt.toLower (trimSpace args.method)
  let routePath := trimSpace args.routePath
  let serviceName := rt.toLower (trimSpace args.serviceName)
  if (protocol ≠ "http" ∧ protocol ≠ "grpc") ∨ method = "" ∨
      routePath = "" ∨ serviceName = "" ∨
      ¬ routeSegment serviceName.toList then
    .error (.detail errInvalid "incomplete route identity")
  else
    match routeSegments rt (pathSegments routePath) with
    | .error err => .error err
    | .ok segments =>
        match rt.generate routeNamespace
            (joinColon ("route".toList :: serviceName.toList ::
              protocol.toList :: method.toList :: segments)) with
        | .error err => .error (.wrap "generate route id" err)
        | .ok id =>
            .ok {
              id, protocol, method, path := routePath, serviceName
              sourceVersion := args.sourceVersion }

end PlatformGo.RoutePolicy
