import Mathlib.Data.List.Basic
import PlatformGo.Lib.Utf8

/-!
# Calling a method by its name

`dynamicgrpc` calls an allow-listed unary method from JSON. Before anything is
sent the method is looked up through the reflection of the server, under the
name that `symbolName` makes of the full method. The call itself is made by
`grpcurl`, which takes the name it is given apart once more.

The name is a Go string, of bytes that need not be text. `grpcurl` is a
parameter, apart from how it takes a name apart (`parseSymbol`); what the
reflection of one connection answers does not change during a call. The
functions return what they do to the connection beside their result.
-/

namespace PlatformGo.DynamicGrpc

def slash : UInt8 := 0x2f

def dot : UInt8 := 0x2e

/-! ## Names -/

/-- `strings.TrimPrefix`, for a single byte. -/
def trimPrefix (c : UInt8) : Bytes → Bytes
  | [] => []
  | b :: rest => if b = c then rest else b :: rest

/-- `strings.Replace` of the first `old`. -/
def replaceFirst (old new : UInt8) (b : Bytes) : Bytes :=
  match Utf8.cut old b with
  | none => b
  | some (before, after) => before ++ new :: after

def validFullMethod (value : Bytes) : Bool :=
  match (trimPrefix slash (Utf8.trimSpace value)).splitOn slash with
  | [service, method] => service.contains dot && method != []
  | _ => false

def symbolName (fullMethod : Bytes) : Bytes :=
  replaceFirst slash dot (trimPrefix slash (Utf8.trimSpace fullMethod))

/-- The service and the method `grpcurl` makes of a name: it is cut at the last
slash, and at the last dot if there is none. -/
def parseSymbol (name : Bytes) : Bytes × Bytes :=
  match Utf8.cutLast slash name with
  | some cut => cut
  | none => (Utf8.cutLast dot name).getD ([], [])

/-! ## The libraries -/

/-- A descriptor, as far as it is looked at. -/
inductive Descriptor (Message : Type) where
  | method (isClientStreaming isServerStreaming : Bool) (inputType : Message)
  | other

/-- The handler after a call. -/
structure Handler where
  /-- The error of the status; none also where there is no status. -/
  status : Option GoErr
  numResponses : Nat
  output : Bytes

/-- `grpcurl` and `grpcreflect` on a connection. -/
structure Grpcurl (Conn Message Parser : Type) where
  findSymbol : Conn → Bytes → Except GoErr (Descriptor Message)
  requestParser : Conn → Bytes → Except GoErr Parser
  /-- One message is read, as a type of messages has it. -/
  next : Parser → Message → Option GoErr × Parser
  /-- The call, of a service and a method of it. -/
  invokeRPC : Conn → Bytes → Bytes → Parser → Except GoErr Handler
  /-- The table behind `%q`. -/
  isPrint : Char → Bool

/-- What is done to a connection. -/
inductive Effect where
  | newClientAuto
  | findSymbol (symbol : Bytes)
  | invokeRPC (service method : Bytes)
  | reset
  deriving DecidableEq, Repr

def errUpstreamNotConfigured : GoErr := .sentinel "gRPC upstream is not configured"

def eof : String := "EOF"

/-! ## The invoker -/

structure Invoker (Conn : Type) where
  registry : String → Option Conn

def new {Conn : Type} (registry : Option (String → Option Conn)) :
    Except GoErr (Invoker Conn) :=
  match registry with
  | none => .error (.new (bytes "gRPC connection registry is required"))
  | some registry => .ok ⟨registry⟩

variable {Conn Message Parser : Type} (g : Grpcurl Conn Message Parser)

/-- The input type of the method, if it is unary. -/
def unaryMethod (source : Conn) (fullMethod : Bytes) : Except GoErr Message :=
  match g.findSymbol source (symbolName fullMethod) with
  | .error err =>
      .error (.wrap ("resolve gRPC method " ++ Utf8.quote g.isPrint fullMethod) err)
  | .ok (.method false false inputType) => .ok inputType
  | .ok _ =>
      .error (.new (bytes ("gRPC target " ++ Utf8.quote g.isPrint fullMethod ++
        " must be a unary method")))

namespace Invoker

variable (i : Invoker Conn)

def resolve (upstream : String) (fullMethod : Bytes) :
    List Effect × Except GoErr Conn :=
  match i.registry (trimSpace upstream) with
  | none => ([], .error (.detail errUpstreamNotConfigured upstream))
  | some connection =>
      if ¬ validFullMethod fullMethod then
        ([], .error (.new (bytes
          ("invalid full gRPC method " ++ Utf8.quote g.isPrint fullMethod))))
      else
        match unaryMethod g connection fullMethod with
        | .error err =>
            ([.newClientAuto, .findSymbol (symbolName fullMethod), .reset],
              .error (.wrap ("resolve gRPC method " ++
                Utf8.quote g.isPrint fullMethod ++ " through reflection") err))
        | .ok _ =>
            ([.newClientAuto, .findSymbol (symbolName fullMethod)], .ok connection)

/-- The part of `Validate` that reads the request: exactly one message. -/
def checkRequest (fullMethod : Bytes) (inputType : Message) (parser : Parser) :
    Option GoErr :=
  match g.next parser inputType with
  | (some err, _) =>
      some (.wrap ("decode request JSON for " ++ Utf8.quote g.isPrint fullMethod) err)
  | (none, parser) =>
      let exhausted := match (g.next parser inputType).1 with
        | none => false
        | some err => err.is eof
      if exhausted then none
      else some (.new (bytes ("request JSON for " ++ Utf8.quote g.isPrint fullMethod ++
        " must contain exactly one message")))

def validate (upstream : String) (fullMethod requestJSON : Bytes) :
    List Effect × Option GoErr :=
  match i.resolve g upstream fullMethod with
  | (effects, .error err) => (effects, some err)
  | (effects, .ok source) =>
      match g.requestParser source requestJSON with
      | .error err =>
          (effects ++ [.reset], some (.wrap "create dynamic JSON parser" err))
      | .ok parser =>
          let effects := effects ++ [.findSymbol (symbolName fullMethod), .reset]
          match unaryMethod g source fullMethod with
          | .error err => (effects, some err)
          | .ok inputType => (effects, checkRequest g fullMethod inputType parser)

/-- The part of `Invoke` after the call. -/
def response (fullMethod : Bytes) : Except GoErr Handler → Except GoErr Bytes
  | .error err =>
      .error (.wrap ("invoke dynamic gRPC method " ++
        Utf8.quote g.isPrint fullMethod) err)
  | .ok handler =>
      match handler.status with
      | some err => .error err
      | none =>
          if handler.numResponses ≠ 1 then
            .error (.new (bytes ("unary gRPC method " ++
              Utf8.quote g.isPrint fullMethod ++ " returned " ++
              toString handler.numResponses ++ " responses")))
          else .ok (Utf8.trimSpace handler.output)

def invoke (upstream : String) (fullMethod requestJSON : Bytes) :
    List Effect × Except GoErr Bytes :=
  match i.resolve g upstream fullMethod with
  | (effects, .error err) => (effects, .error err)
  | (effects, .ok connection) =>
      match g.requestParser connection requestJSON with
      | .error err =>
          (effects ++ [.reset], .error (.wrap "create dynamic request codec" err))
      | .ok parser =>
          let (service, method) := parseSymbol (trimPrefix slash fullMethod)
          (effects ++ [.invokeRPC service method, .reset],
            response g fullMethod (g.invokeRPC connection service method parser))

end Invoker

end PlatformGo.DynamicGrpc
