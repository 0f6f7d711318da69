import Mathlib.Init

/-!
# The code generator's tables and argument structs

The part of `wlproto` that turns a procedure's arguments into Rust types, read
functions and write functions, and emits one `*_args` struct per procedure.
Emitted code is data here; `WhaleLand.Generated` runs it.
-/

namespace WhaleLand.Wlproto

/-! ## The protocol model -/

inductive ArgType
  | uint
  | int
  | fixed
  | string
  | objectId
  | newId
  | array
  | fileDescriptor
deriving DecidableEq, Repr

structure Arg where
  name : String
  argType : ArgType
  interface : Option String
deriving DecidableEq, Repr

structure Procedure where
  name : String
  args : List Arg
deriving DecidableEq, Repr

structure EnumVariant where
  name : String
  value : UInt32
deriving DecidableEq, Repr

structure Enum where
  name : String
  variants : List EnumVariant
deriving DecidableEq, Repr

structure Interface where
  name : String
  version : UInt32
  requests : List Procedure
  events : List Procedure
  enums : List Enum := []
deriving DecidableEq, Repr

structure Protocol where
  name : String
  interfaces : List Interface
deriving DecidableEq, Repr

/-! ## What the emitted code can name -/

/-- The types of the emitted fields. -/
inductive RustType
  | u32
  | i32
  | fixed
  | string
  | optionObjectId
  | newObjectId
  | newObject
  | vecU8
  | rawFd
deriving DecidableEq, Repr

/-- The methods of `PacketReader` that the emitted code calls on an argument. -/
inductive ReadFunc
  | readUint
  | readInt
  | readFixed
  | readStr
  | readObject
  | readNewIdKnownInterface
  | readNewIdUnknownInterface
  | readArray
  | readFd
deriving DecidableEq, Repr

/-- The methods of `Packet` that the emitted code calls on an argument. -/
inductive WriteFunc
  | pushUint
  | pushInt
  | pushFixed
  | pushStr
  | pushObject
  | pushNewIdKnownInterface
  | pushNewIdUnknownInterface
  | pushArray
  | pushFd
deriving DecidableEq, Repr

/-! ## The tables -/

def tokenizeIncomingArgType : ArgType → Bool → RustType
  | .uint, _ => .u32
  | .int, _ => .i32
  | .fixed, _ => .fixed
  | .string, _ => .string
  | .objectId, _ => .optionObjectId
  | .newId, knownInterface => if knownInterface then .newObjectId else .newObject
  | .array, _ => .vecU8
  | .fileDescriptor, _ => .rawFd

def tokenizeArgTypeReadFunc : ArgType → Bool → ReadFunc
  | .uint, _ => .readUint
  | .int, _ => .readInt
  | .fixed, _ => .readFixed
  | .string, _ => .readStr
  | .objectId, _ => .readObject
  | .newId, knownInterface =>
    if knownInterface then .readNewIdKnownInterface else .readNewIdUnknownInterface
  | .array, _ => .readArray
  | .fileDescriptor, _ => .readFd

def tokenizeArgTypeWriteFunc : ArgType → Bool → WriteFunc
  | .uint, _ => .pushUint
  | .int, _ => .pushInt
  | .fixed, _ => .pushFixed
  | .string, _ => .pushStr
  | .objectId, _ => .pushObject
  | .newId, knownInterface =>
    if knownInterface then .pushNewIdKnownInterface else .pushNewIdUnknownInterface
  | .array, _ => .pushArray
  | .fileDescriptor, _ => .pushFd

/-- Whether the argument is passed as `& arg`. -/
def tokenizeArgTypeWriteReference : ArgType → Bool → Bool
  | .uint, _ | .int, _ | .fixed, _ | .objectId, _ | .fileDescriptor, _ => false
  | .string, _ | .array, _ => true
  | .newId, knownInterface => !knownInterface

namespace Arg

def incomingType (arg : Arg) : RustType :=
  tokenizeIncomingArgType arg.argType arg.interface.isSome

def readFunc (arg : Arg) : ReadFunc := tokenizeArgTypeReadFunc arg.argType arg.interface.isSome

def writeFunc (arg : Arg) : WriteFunc := tokenizeArgTypeWriteFunc arg.argType arg.interface.isSome

def writeReference (arg : Arg) : Bool :=
  tokenizeArgTypeWriteReference arg.argType arg.interface.isSome

end Arg

/-! ## The argument structs -/

/-- `let #field_name = __reader.#read_name()?;` -/
structure FieldRead where
  fieldName : String
  readName : ReadFunc
deriving DecidableEq, Repr

/-- `__packet.#write_name(#write_reference self.#field_name);` -/
structure FieldWrite where
  writeName : WriteFunc
  writeReference : Bool
  fieldName : String
deriving DecidableEq, Repr

/-- An emitted `*_args` struct: its fields, its `OPCODE`, the reads and the
constructed fields of `try_from_packet`, the writes of `try_into_packet`. -/
structure ArgsStruct where
  name : String
  opcode : Nat
  fields : List (String × RustType)
  fieldReads : List FieldRead
  fieldNames : List String
  fieldWrites : List FieldWrite
deriving DecidableEq, Repr

/-- `format!("{}_v{}", interface.name, interface.version)`. -/
def Interface.nameVer (interface : Interface) : String :=
  interface.name ++ "_v" ++ toString interface.version.toNat

/-- One turn of the loop over the interface's procedures. -/
def tokenizeArgsStruct (interfaceNameVer kind : String) (i : Nat) (procedure : Procedure) :
    ArgsStruct where
  name := interfaceNameVer ++ "_" ++ kind ++ "_" ++ procedure.name ++ "_args"
  opcode := i
  fields := procedure.args.map fun arg => (arg.name, arg.incomingType)
  fieldReads := procedure.args.map fun arg => ⟨arg.name, arg.readFunc⟩
  fieldNames := procedure.args.map Arg.name
  fieldWrites := procedure.args.map fun arg => ⟨arg.writeFunc, arg.writeReference, arg.name⟩

/-- The argument structs of an interface: requests first, then events. -/
def Interface.argsStructs (interface : Interface) : List ArgsStruct :=
  (interface.requests.zipIdx.map fun (procedure, i) =>
    tokenizeArgsStruct interface.nameVer "request" i procedure) ++
  (interface.events.zipIdx.map fun (procedure, i) =>
    tokenizeArgsStruct interface.nameVer "event" i procedure)

/-- Every emitted struct comes from one procedure of the interface. -/
theorem mem_argsStructs {interface : Interface} {struct : ArgsStruct}
    (h : struct ∈ interface.argsStructs) :
    ∃ kind i procedure, (procedure ∈ interface.requests ∨ procedure ∈ interface.events) ∧
      struct = tokenizeArgsStruct interface.nameVer kind i procedure := by
  rcases List.mem_append.mp h with h | h
  · obtain ⟨⟨procedure, i⟩, hmem, rfl⟩ := List.mem_map.mp h
    exact ⟨"request", i, procedure, .inl (List.fst_mem_of_mem_zipIdx hmem), rfl⟩
  · obtain ⟨⟨procedure, i⟩, hmem, rfl⟩ := List.mem_map.mp h
    exact ⟨"event", i, procedure, .inr (List.fst_mem_of_mem_zipIdx hmem), rfl⟩

/-- The struct of the `k`-th request. -/
theorem argsStructs_request {interface : Interface} {k : Nat} {req : Procedure}
    (h : interface.requests[k]? = some req) :
    interface.argsStructs[k]? = some (tokenizeArgsStruct interface.nameVer "request" k req) := by
  obtain ⟨hlt, _⟩ := List.getElem?_eq_some_iff.mp h
  rw [Interface.argsStructs, List.getElem?_append_left (by simpa using hlt)]
  simp [h]

/-- The struct of the `k`-th event. -/
theorem argsStructs_event {interface : Interface} {k : Nat} {event : Procedure}
    (h : interface.events[k]? = some event) :
    interface.argsStructs[interface.requests.length + k]? =
      some (tokenizeArgsStruct interface.nameVer "event" k event) := by
  rw [Interface.argsStructs, List.getElem?_append_right (by simp)]
  simp [h]

end WhaleLand.Wlproto
