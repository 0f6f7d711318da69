import WhaleLand.Generated
import WhaleLand.Lib.Scope

/-!
# The emitted request proxies and event handlers

The other two loops of the generator over the procedures of an interface: the
`send_*` functions of the request proxy, and the event handler trait with its
`handle_*` prototypes and the match arms of `handle_event`. Both emit
statements that refer to arguments by their names, next to names of the
generator's own, so running them keeps a scope.
-/

namespace WhaleLand

/-! ## What is emitted -/

namespace Wlproto

/-- The types of the parameters of a proxy: those of the fields, with strings
and arrays borrowed. -/
inductive OutgoingType
  | strRef
  | sliceRef
  | incoming (type : RustType)
deriving DecidableEq, Repr

def tokenizeOutgoingArgType : ArgType → Bool → OutgoingType
  | .string, _ => .strRef
  | .array, _ => .sliceRef
  | other, knownInterface => .incoming (tokenizeIncomingArgType other knownInterface)

def Arg.outgoingType (arg : Arg) : OutgoingType :=
  tokenizeOutgoingArgType arg.argType arg.interface.isSome

/-- `__packet . #arg_write_func ( #arg_write_ref #arg_name );` -/
structure ArgWriteFuncCall where
  argWriteFunc : WriteFunc
  argWriteRef : Bool
  argName : String
deriving DecidableEq, Repr

/-- An emitted `send_*` function. -/
structure ProxyFunc where
  reqName : String
  args : List (String × OutgoingType)
  reqIndexLiteral : Nat
  argWriteFuncCalls : List ArgWriteFuncCall
deriving DecidableEq, Repr

/-- The emitted proxy of an interface. -/
structure RequestProxy where
  name : String
  proxyFuncs : List ProxyFunc
deriving DecidableEq, Repr

/-- One turn of the loop over the requests. -/
def tokenizeProxyFunc (reqIndex : Nat) (req : Procedure) : ProxyFunc where
  reqName := "send_" ++ req.name
  args := req.args.map fun arg => (arg.name, arg.outgoingType)
  reqIndexLiteral := reqIndex
  argWriteFuncCalls := req.args.map fun arg => ⟨arg.writeFunc, arg.writeReference, arg.name⟩

/-- An interface without requests has no proxy. -/
def Interface.requestProxy (interface : Interface) : Option RequestProxy :=
  if interface.requests.length > 0 then
    some {
      name := interface.nameVer ++ "_request_proxy"
      proxyFuncs := interface.requests.zipIdx.map fun (req, i) => tokenizeProxyFunc i req }
  else
    none

/-- `let #arg_name = __packet_reader . #arg_type_read_func ()?;` -/
structure ArgDecoder where
  argName : String
  argTypeReadFunc : ReadFunc
deriving DecidableEq, Repr

/-- An emitted prototype `fn handle_*`: its name and its parameters after the
connection and the packet. -/
structure HandleFuncPrototype where
  handleFuncName : String
  args : List (String × RustType)
deriving DecidableEq, Repr

/-- An emitted arm of the match in `handle_event`. -/
structure MatchVariant where
  eventIndexLiteral : Nat
  argDecoders : List ArgDecoder
  handleFuncName : String
  argNames : List String
deriving DecidableEq, Repr

/-- The emitted event handler trait of an interface. -/
structure EventHandlerTrait where
  name : String
  handleFuncPrototypes : List HandleFuncPrototype
  matchVariants : List MatchVariant
deriving DecidableEq, Repr

/-- One turn of the loop over the events emits a prototype and an arm. -/
def tokenizeHandleFuncPrototype (event : Procedure) : HandleFuncPrototype where
  handleFuncName := "handle_" ++ event.name
  args := event.args.map fun arg => (arg.name, arg.incomingType)

def tokenizeMatchVariant (eventIndex : Nat) (event : Procedure) : MatchVariant where
  eventIndexLiteral := eventIndex
  argDecoders := event.args.map fun arg => ⟨arg.name, arg.readFunc⟩
  handleFuncName := "handle_" ++ event.name
  argNames := event.args.map Arg.name

/-- An interface without events has no event handler. -/
def Interface.eventHandler (interface : Interface) : Option EventHandlerTrait :=
  if interface.events.length > 0 then
    some {
      name := interface.nameVer ++ "_event_handler"
      handleFuncPrototypes := interface.events.map tokenizeHandleFuncPrototype
      matchVariants := interface.events.zipIdx.map fun (event, i) => tokenizeMatchVariant i event }
  else
    none

end Wlproto

open Wlproto

/-! ## Running it -/

/-- What a name in scope stands for: a value of an argument, or one of the
things that the generator has given a name. -/
inductive Binding
  | value (v : Value)
  | receiver
  | connection
  | packet
  | packetReader
deriving DecidableEq, Repr

def Binding.toValue : Binding → Option Value
  | .value v => some v
  | .receiver | .connection | .packet | .packetReader => none

/-- The names in scope, the last one bound first. -/
abbrev Locals := List (String × Binding)

namespace Locals

/-- The value of an argument; the generator's own things have other types. -/
def lookupValue (locals : Locals) (name : String) : Option Value :=
  (locals.lookup name).bind Binding.toValue

/-- The name stands for the thing that the generator means by it. -/
def Means (locals : Locals) (name : String) (binding : Binding) : Prop :=
  locals.lookup name = some binding

instance (locals : Locals) (name : String) (binding : Binding) :
    Decidable (locals.Means name binding) :=
  inferInstanceAs (Decidable (_ = _))

end Locals

/-! ### The proxies -/

/-- The writes of a proxy. A call with a name that is not an argument's does
not compile. -/
def runArgWriteFuncCalls (t : Target) (locals : Locals) :
    List ArgWriteFuncCall → Packet → Except Fault Packet
  | [], packet => .ok packet
  | call :: calls, packet =>
    match locals.lookupValue call.argName with
    | some v => do
      let packet ← call.argWriteFunc.run t packet v
      runArgWriteFuncCalls t locals calls packet
    | none => .error .panic

namespace Wlproto.ProxyFunc

/-- What is in scope for the writes: the parameters, and the two variables that
the function binds itself. -/
def locals (proxyFunc : ProxyFunc) (args : List Value) : Locals :=
  ("connection", .connection) :: ("__packet", .packet) ::
    Scope.bindAll (proxyFunc.args.map Prod.fst) (args.map .value) [("self", .receiver)]

/-- The packet that a call hands to `send_packet`, on a connection that is
alive or has been dropped. -/
def run (t : Target) (proxyFunc : ProxyFunc) (objectId : ObjectId) (alive : Bool)
    (args : List Value) : Except Fault Packet :=
  let packet := Packet.new objectId (UInt16.ofNat proxyFunc.reqIndexLiteral)
  if alive then
    runArgWriteFuncCalls t (proxyFunc.locals args) proxyFunc.argWriteFuncCalls packet
  else
    .error (.error .connectionDeleted)

end Wlproto.ProxyFunc

/-! ### The event handlers -/

/-- A use of one of the generator's names. If an argument has taken the name,
the code does not compile. -/
def useName (locals : Locals) (name : String) (binding : Binding) : ReadM Unit :=
  if locals.Means name binding then pure () else throw .panic

/-- The `let`s of a match arm. -/
def runArgDecoders (t : Target) (packet : Packet) : List ArgDecoder → Locals → ReadM Locals
  | [], locals => pure locals
  | decoder :: decoders, locals => do
    useName locals "__packet_reader" .packetReader
    let v ← decoder.argTypeReadFunc.run t packet
    runArgDecoders t packet decoders ((decoder.argName, .value v) :: locals)

/-- What is in scope in `handle_event` once the arm has made its reader. -/
def handleEventLocals : Locals :=
  [("__packet_reader", .packetReader), ("__packet", .packet), ("__connection", .connection),
    ("self", .receiver)]

/-- A match arm up to its call: the arguments that it passes on after the
connection and the packet. -/
def Wlproto.MatchVariant.run (t : Target) (packet : Packet) (variant : MatchVariant) :
    ReadM (List Value) := do
  let locals ← runArgDecoders t packet variant.argDecoders handleEventLocals
  useName locals "__packet_reader" .packetReader
  PacketReader.finish packet
  useName locals "self" .receiver
  useName locals "__connection" .connection
  useName locals "__packet" .packet
  match variant.argNames.mapM (fun name => locals.lookupValue name) with
  | some args => return args
  | none => throw .panic

/-- A call of a method of an event handler. -/
inductive HandlerCall
  | handle (handleFuncName : String) (packet : Packet) (args : Env)
  | unknownEvent (packet : Packet)
deriving DecidableEq, Repr

namespace Wlproto.EventHandlerTrait

/-- The call of a method: its parameters get the arguments in order. -/
def call (eventHandler : EventHandlerTrait) (handleFuncName : String) (packet : Packet)
    (args : List Value) : Option HandlerCall :=
  match eventHandler.handleFuncPrototypes.find? (·.handleFuncName == handleFuncName) with
  | some handle => some (.handle handleFuncName packet ((handle.args.map Prod.fst).zip args))
  | none => none

/-- `handle_event`: the calls that it makes, and its result. -/
def handleEvent (t : Target) (eventHandler : EventHandlerTrait) (packet : Packet) :
    List HandlerCall × Except Fault Unit :=
  match eventHandler.matchVariants.find? (·.eventIndexLiteral == packet.opcode.toNat) with
  | some variant =>
    match runReader (variant.run t packet) with
    | .ok args =>
      match eventHandler.call variant.handleFuncName packet args with
      | some call => ([call], .ok ())
      | none => ([], .error .panic)
    | .error e => ([], .error e)
  | none => ([.unknownEvent packet], .ok ())

end Wlproto.EventHandlerTrait

end WhaleLand
