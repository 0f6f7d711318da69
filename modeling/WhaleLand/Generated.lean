import WhaleLand.PacketReader
import WhaleLand.Wlproto

/-!
# Running the emitted argument code

Values of the emitted types, the methods that the emitted code calls on them,
and the two conversions of an `*_args` struct.
-/

namespace WhaleLand

open Wlproto

/-! ## Values -/

/-- A value of one of the emitted types. -/
inductive Value
  | uint (v : UInt32)
  | int (v : Int32)
  | fixed (v : Fixed)
  | string (v : String)
  | object (v : Option ObjectId)
  | newId (v : NewObjectId)
  | newObject (v : NewObject)
  | array (v : List UInt8)
  | fd (v : RawFd)
deriving DecidableEq, Repr

namespace Value

/-- The Rust type of a value. -/
def type : Value → RustType
  | .uint _ => .u32
  | .int _ => .i32
  | .fixed _ => .fixed
  | .string _ => .string
  | .object _ => .optionObjectId
  | .newId _ => .newObjectId
  | .newObject _ => .newObject
  | .array _ => .vecU8
  | .fd _ => .rawFd

/-- A string that `push_str` accepts: no NUL, and a length that fits in the
declared one. -/
def StrPushable (s : String) : Prop := 0 ∉ strBytes s ∧ (strBytes s).length + 1 ≤ u32Max

instance (s : String) : Decidable (StrPushable s) := inferInstanceAs (Decidable (_ ∧ _))

/-- A value that its push function accepts. -/
def Pushable : Value → Prop
  | .string s => StrPushable s
  | .newObject n => StrPushable n.interface
  | .array bytes => bytes.length ≤ u32Max
  | _ => True

instance (v : Value) : Decidable v.Pushable :=
  match v with
  | .string s => inferInstanceAs (Decidable (StrPushable s))
  | .newObject n => inferInstanceAs (Decidable (StrPushable n.interface))
  | .array bytes => inferInstanceAs (Decidable (bytes.length ≤ u32Max))
  | .uint _ | .int _ | .fixed _ | .object _ | .newId _ | .fd _ => inferInstanceAs (Decidable True)

/-- The descriptors that a value puts into the packet. -/
def fds : Value → List RawFd
  | .fd v => [v]
  | _ => []

end Value

/-- The values fit the arguments, one by one. -/
def WellTyped (args : List Arg) (vs : List Value) : Prop :=
  List.Forall₂ (fun arg v => v.type = arg.incomingType) args vs

/-! ## The methods -/

/-- The read method `f` on the reader. -/
def Wlproto.ReadFunc.run (t : Target) (p : Packet) : ReadFunc → ReadM Value
  | .readUint => Value.uint <$> PacketReader.readUint t p
  | .readInt => Value.int <$> PacketReader.readInt t p
  | .readFixed => Value.fixed <$> PacketReader.readFixed t p
  | .readStr => Value.string <$> PacketReader.readStr t p
  | .readObject => Value.object <$> PacketReader.readObject t p
  | .readNewIdKnownInterface => Value.newId <$> PacketReader.readNewIdKnownInterface t p
  | .readNewIdUnknownInterface => Value.newObject <$> PacketReader.readNewIdUnknownInterface t p
  | .readArray => Value.array <$> PacketReader.readArray t p
  | .readFd => Value.fd <$> PacketReader.readFd t p

/-- The push method `f` on the packet. The last case is a call with a value of
another type, which the compiler rejects. -/
def Wlproto.WriteFunc.run (t : Target) (p : Packet) : WriteFunc → Value → Except Fault Packet
  | .pushUint, .uint v => .ok (p.pushUint t v)
  | .pushInt, .int v => .ok (p.pushInt t v)
  | .pushFixed, .fixed v => .ok (p.pushFixed t v)
  | .pushStr, .string v => p.pushStr t v
  | .pushObject, .object v => .ok (p.pushObject t v)
  | .pushNewIdKnownInterface, .newId v => .ok (p.pushNewIdKnownInterface t v)
  | .pushNewIdUnknownInterface, .newObject v => p.pushNewIdUnknownInterface t v
  | .pushArray, .array v => p.pushArray t v
  | .pushFd, .fd v => .ok (p.pushFd v)
  | _, _ => .error .panic

/-- The type that a read method returns. -/
def Wlproto.ReadFunc.returns : ReadFunc → RustType
  | .readUint => .u32
  | .readInt => .i32
  | .readFixed => .fixed
  | .readStr => .string
  | .readObject => .optionObjectId
  | .readNewIdKnownInterface => .newObjectId
  | .readNewIdUnknownInterface => .newObject
  | .readArray => .vecU8
  | .readFd => .rawFd

/-- The type that a push method takes, up to a reference. -/
def Wlproto.WriteFunc.takes : WriteFunc → RustType
  | .pushUint => .u32
  | .pushInt => .i32
  | .pushFixed => .fixed
  | .pushStr => .string
  | .pushObject => .optionObjectId
  | .pushNewIdKnownInterface => .newObjectId
  | .pushNewIdUnknownInterface => .newObject
  | .pushArray => .vecU8
  | .pushFd => .rawFd

/-- The three tables agree: what is read has the field's type. -/
theorem readFunc_returns (arg : Arg) : arg.readFunc.returns = arg.incomingType := by
  unfold Arg.readFunc Arg.incomingType
  cases arg.argType <;> cases arg.interface.isSome <;> rfl

/-- What is written has the field's type. -/
theorem writeFunc_takes (arg : Arg) : arg.writeFunc.takes = arg.incomingType := by
  unfold Arg.writeFunc Arg.incomingType
  cases arg.argType <;> cases arg.interface.isSome <;> rfl

/-! ## Argument lists -/

/-- The reads of an argument list, in order. -/
def readArgs (t : Target) (p : Packet) : List Arg → ReadM (List Value)
  | [] => pure []
  | arg :: args => do
    let v ← arg.readFunc.run t p
    let vs ← readArgs t p args
    return v :: vs

/-- The writes of an argument list, in order; no values are left over. -/
def pushArgs (t : Target) (p : Packet) : List Arg → List Value → Except Fault Packet
  | [], [] => .ok p
  | arg :: args, v :: vs => do
    let p ← arg.writeFunc.run t p v
    pushArgs t p args vs
  | _, _ => .error .panic

/-- What a computation on a fresh reader of a packet returns. -/
def runReader {α : Type} (x : ReadM α) : Except Fault α :=
  match x.run Packet.read with
  | .ok a _ => .ok a
  | .error e _ => .error e

/-- Reads the arguments of a packet in order and finishes. -/
def decodeArgs (t : Target) (args : List Arg) (p : Packet) : Except Fault (List Value) :=
  runReader do
    let vs ← readArgs t p args
    PacketReader.finish p
    return vs

/-! ## The conversions of an argument struct -/

/-- Named values: the fields of a struct, or the local variables in scope with
the last one first. -/
abbrev Env := List (String × Value)

/-- The `let`s of `try_from_packet`. -/
def runReads (t : Target) (p : Packet) : List FieldRead → Env → ReadM Env
  | [], env => pure env
  | r :: reads, env => do
    let v ← r.readName.run t p
    runReads t p reads ((r.fieldName, v) :: env)

/-- `Self { #( #field_names , )* }`. A name that is not in scope does not
compile. -/
def construct (fieldNames : List String) (env : Env) : Env :=
  fieldNames.filterMap fun name => (env.lookup name).map (name, ·)

def Wlproto.ArgsStruct.tryFromPacket (t : Target) (struct : ArgsStruct) (value : Packet) :
    Except Fault Env :=
  runReader do
    let env ← runReads t value struct.fieldReads []
    PacketReader.finish value
    return construct struct.fieldNames env

/-- The statements of `try_into_packet`. A field that does not exist does not
compile. -/
def runWrites (t : Target) (self : Env) : List FieldWrite → Packet → Except Fault Packet
  | [], packet => .ok packet
  | w :: writes, packet =>
    match self.lookup w.fieldName with
    | some v => do
      let packet ← w.writeName.run t packet v
      runWrites t self writes packet
    | none => .error .panic

def Wlproto.ArgsStruct.tryIntoPacket (t : Target) (struct : ArgsStruct) (self : Env)
    (objectId : ObjectId) : Except Fault Packet :=
  runWrites t self struct.fieldWrites (Packet.new objectId (UInt16.ofNat struct.opcode))

end WhaleLand
