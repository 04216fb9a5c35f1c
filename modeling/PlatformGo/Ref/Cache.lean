import PlatformGo.Lib.Expiring
import PlatformGo.Lib.Lts
import PlatformGo.Lib.Remote

/-!
# The cache and its Redis

A `RedisStore` puts its prefix before every key and sends one command per
call. What the client makes of a time to live is left open (`expiration`). The
server is taken to be a map of entries with deadlines, in milliseconds, that
loses nothing before its deadline: Redis is assumed not to evict.

The machine plays the calls of any number of stores on one server in the order
their commands run, with the clock moving between them.
-/

namespace PlatformGo.Cache

def errMiss : GoErr := .sentinel "cache miss"

def errInvalidKey : GoErr := .sentinel "invalid cache key"

def errInvalidTTL : GoErr := .sentinel "invalid cache ttl"

def errValueTooLarge : GoErr := .sentinel "cache value too large"

def errUnavailable : GoErr := .sentinel "cache backend unavailable"

/-- The client's answer to `GET` of a key that is not there. -/
def redisNil : String := "redis: nil"

def defaultMaxValueBytes : Int := 16 * 2 ^ 20

structure RedisStore where
  /-- Whether there is a store and it has a client. -/
  client : Bool := true
  keyPrefix : String := ""
  maxValueBytes : Int := defaultMaxValueBytes
  /-- The expiry in milliseconds the client asks the server for. -/
  expiration : Time → Option Int
  /-- The printable characters of `%q`. -/
  isPrint : Char → Bool

def withKeyPrefix (keyPrefix : String) (store : RedisStore) : RedisStore :=
  { store with keyPrefix }

def withMaxValueBytes (size : Int) (store : RedisStore) : RedisStore :=
  { store with maxValueBytes := size }

def newRedisStore (client : Bool) (expiration : Time → Option Int)
    (isPrint : Char → Bool) (options : List (RedisStore → RedisStore)) :
    RedisStore :=
  options.foldl (fun store option => option store)
    { client, expiration, isPrint }

def RedisStore.qualifiedKey (s : RedisStore) (key : String) :
    Except GoErr String :=
  if !s.client then .error errUnavailable
  else
    let qualified := s.keyPrefix ++ key
    if key = "" ∨ key ≠ trimSpace key ∨
        s.keyPrefix ≠ trimSpace s.keyPrefix ∨ key.utf8ByteSize > 1024 ∨
        qualified.utf8ByteSize > 2048 ∨ key.toList.any isControl ∨
        s.keyPrefix.toList.any isControl then
      .error errInvalidKey
    else .ok qualified

def tooLarge (value : Bytes) (limit : Int) : GoErr :=
  .detail errValueTooLarge ("got " ++ toString value.length ++
    " bytes, maximum " ++ toString limit)

def RedisStore.validate (s : RedisStore) (key : String) (value : Bytes)
    (ttl : Time) : Except GoErr String :=
  match s.qualifiedKey key with
  | .error e => .error e
  | .ok qualified =>
      if ttl < 0 then .error errInvalidTTL
      else if (value.length : Int) > s.maxValueBytes then
        .error (tooLarge value s.maxValueBytes)
      else .ok qualified

/-! ## The calls -/

abbrev Redis := Expiring.Store String Bytes

/-- `Get(...).Bytes()`: a missing key is an error of its own. -/
def bytesOf : Except GoErr (Option Bytes) → Except GoErr Bytes
  | .ok (some value) => .ok value
  | .ok none => .error (.sentinel redisNil)
  | .error e => .error e

def RedisStore.get (s : RedisStore) (key : String) (fault : Fault)
    (r : Redis) : Redis × Except GoErr Bytes :=
  match s.qualifiedKey key with
  | .error e => (r, .error e)
  | .ok qualified =>
      let reply := fault.run (fun r => (r, r.lookup qualified)) r
      (reply.1,
        match bytesOf reply.2 with
        | .error e =>
            if e.is redisNil then .error errMiss
            else .error (.wrap
              ("get cache key " ++ quote s.isPrint qualified) e)
        | .ok value =>
            if (value.length : Int) > s.maxValueBytes then
              .error (tooLarge value s.maxValueBytes)
            else .ok value)

def RedisStore.set (s : RedisStore) (key : String) (value : Bytes)
    (ttl : Time) (fault : Fault) (r : Redis) : Redis × Option GoErr :=
  match s.validate key value ttl with
  | .error e => (r, some e)
  | .ok qualified =>
      let reply :=
        fault.run (fun r => (r.put qualified value (s.expiration ttl), ())) r
      (reply.1,
        match reply.2 with
        | .error e =>
            some (.wrap ("set cache key " ++ quote s.isPrint qualified) e)
        | .ok _ => none)

def RedisStore.setIfAbsent (s : RedisStore) (key : String) (value : Bytes)
    (ttl : Time) (fault : Fault) (r : Redis) : Redis × Except GoErr Bool :=
  match s.validate key value ttl with
  | .error e => (r, .error e)
  | .ok qualified =>
      let reply :=
        fault.run (fun r => r.putNew qualified value (s.expiration ttl)) r
      (reply.1,
        match reply.2 with
        | .error e => .error (.wrap ("set cache key " ++
            quote s.isPrint qualified ++ " if absent") e)
        | .ok created => .ok created)

/-- The loop of `Delete` over its keys: the first invalid one ends it. -/
def RedisStore.qualifiedKeys (s : RedisStore) :
    List String → Except GoErr (List String)
  | [] => .ok []
  | key :: keys =>
      match s.qualifiedKey key with
      | .error e => .error e
      | .ok qualified =>
          match s.qualifiedKeys keys with
          | .error e => .error e
          | .ok rest => .ok (qualified :: rest)

def RedisStore.delete (s : RedisStore) (keys : List String) (fault : Fault)
    (r : Redis) : Redis × Option GoErr :=
  if keys.length = 0 then (r, none)
  else if keys.length > 1000 then
    (r, some (.detail errInvalidKey "delete accepts at most 1000 keys"))
  else
    match s.qualifiedKeys keys with
    | .error e => (r, some e)
    | .ok qualified =>
        let reply := fault.run (fun r => (r.erase qualified, ())) r
        (reply.1,
          match reply.2 with
          | .error e => some (.wrap "delete cache keys" e)
          | .ok _ => none)

/-- `Exists`. -/
def RedisStore.existsKey (s : RedisStore) (key : String) (fault : Fault)
    (r : Redis) : Redis × Except GoErr Bool :=
  match s.qualifiedKey key with
  | .error e => (r, .error e)
  | .ok qualified =>
      let reply := fault.run
        (fun r => (r, if (r.find qualified).isSome then 1 else 0)) r
      (reply.1,
        match reply.2 with
        | .error e => .error (.wrap
            ("check cache key " ++ quote s.isPrint qualified) e)
        | .ok count => .ok (decide ((count : Nat) > 0)))

/-! ## Stores on one server -/

inductive Command where
  | get (key : String)
  | set (key : String) (value : Bytes) (ttl : Time)
  | setIfAbsent (key : String) (value : Bytes) (ttl : Time)
  | delete (keys : List String)
  | existsKey (key : String)
  deriving DecidableEq, Repr

inductive Answer where
  | error (err : GoErr)
  | value (value : Bytes)
  | ok
  | flag (b : Bool)
  deriving DecidableEq, Repr

def ofBytes : Except GoErr Bytes → Answer
  | .error e => .error e
  | .ok value => .value value

def ofBool : Except GoErr Bool → Answer
  | .error e => .error e
  | .ok b => .flag b

def ofErr : Option GoErr → Answer
  | some e => .error e
  | none => .ok

def RedisStore.call (s : RedisStore) (fault : Fault) (r : Redis) :
    Command → Redis × Answer
  | .get key => ((s.get key fault r).1, ofBytes (s.get key fault r).2)
  | .set key value ttl =>
      ((s.set key value ttl fault r).1, ofErr (s.set key value ttl fault r).2)
  | .setIfAbsent key value ttl =>
      ((s.setIfAbsent key value ttl fault r).1,
        ofBool (s.setIfAbsent key value ttl fault r).2)
  | .delete keys =>
      ((s.delete keys fault r).1, ofErr (s.delete keys fault r).2)
  | .existsKey key =>
      ((s.existsKey key fault r).1, ofBool (s.existsKey key fault r).2)

inductive Action where
  | call (store : Nat) (command : Command) (fault : Fault)
  /-- So many milliseconds pass. -/
  | tick (ms : Nat)
  deriving DecidableEq, Repr

structure Sys where
  redis : Redis := {}
  /-- The answers so far, each with the store it was given to. -/
  answers : List (Nat × Answer) := []

def step (stores : Nat → RedisStore) (s : Sys) : Action → Option Sys
  | .call i command fault =>
      let reply := (stores i).call fault s.redis command
      some { redis := reply.1, answers := s.answers ++ [(i, reply.2)] }
  | .tick ms => some { s with redis := s.redis.tick ms }

end PlatformGo.Cache
