import WhaleLand.MessageAgreement
import WhaleLand.ProtocolXml

/-!
# The emitted code follows the XML document

What the `<interface>` element says about a message, in its own terms: the
index of the `<request>` or `<event>` among its like, and for each `<arg>` the
types on the wire that its `type` attribute stands for (`argWireTypes`). The
emitted code is compared with that directly, through the parser and the
generator (`follows_document`).
-/

namespace WhaleLand

open Wlproto PacketReader Xml Collect

/-! ## Types on the wire -/

/-- The types on the wire that a `type` attribute stands for. An id of a new
object whose interface is not known goes behind its name and version. -/
def wireTypes (type : String) (hasInterface : Bool) : Option (List RustType) :=
  match type with
  | "uint" => some [.u32]
  | "int" => some [.i32]
  | "fixed" => some [.fixed]
  | "string" => some [.string]
  | "object" => some [.optionObjectId]
  | "new_id" => some (if hasInterface then [.newObjectId] else [.string, .u32, .newObjectId])
  | "array" => some [.vecU8]
  | "fd" => some [.rawFd]
  | _ => none

def argWireTypes (argElem : Element) : Option (List RustType) :=
  (argElem.attributeValue "type").bind fun type =>
    wireTypes type (argElem.attributeValue "interface").isSome

/-- The values that a value consists of on the wire. -/
def Value.parts : Value → List Value
  | .newObject n => [.string n.interface, .uint n.interfaceVersion, .newId ⟨n.objectId⟩]
  | v => [v]

/-- The value is one for an argument with these types on the wire. -/
def Value.HasWireTypes (v : Value) (types : List RustType) : Prop :=
  v.parts.map Value.type = types

section Parts

variable {t : Target}

theorem encodeAll_parts (v : Value) : encodeAll t v.parts = encode t v := by
  cases v with
  | newObject n => simp [encodeAll, Value.parts, encode]
  | uint _ | int _ | fixed _ | string _ | object _ | newId _ | array _ | fd _ =>
    simp [encodeAll, Value.parts]

theorem fdsOfValues_parts (v : Value) : fdsOfValues v.parts = v.fds := by
  cases v <;> rfl

theorem encodesAll_singleton {v : Value} {chunk : List UInt8} :
    EncodesAll t [v] chunk ↔ Encodes t v chunk := by
  constructor
  · rintro ⟨first, _, hv, rfl, rfl⟩
    rwa [List.append_nil]
  · exact fun hv => ⟨chunk, [], hv, rfl, (List.append_nil _).symm⟩

theorem encodesAll_parts {v : Value} {chunk : List UInt8} :
    EncodesAll t v.parts chunk ↔ Encodes t v chunk := by
  cases v with
  | newObject n =>
    constructor
    · rintro ⟨str, _, hstr, ⟨_, _, rfl, ⟨_, _, rfl, rfl, rfl⟩, rfl⟩, rfl⟩
      exact ⟨str, hstr, by rw [List.append_nil]⟩
    · rintro ⟨str, hstr, rfl⟩
      exact ⟨str, _, hstr, ⟨_, _, rfl, encodesAll_singleton.mpr rfl, rfl⟩, rfl⟩
  | uint _ | int _ | fixed _ | string _ | object _ | newId _ | array _ | fd _ =>
    exact encodesAll_singleton

/-- The generator's types are those of the document. -/
theorem hasWireTypes_iff {type : String} {argType : ArgType}
    (h : ArgType.tryFromStr type = some argType) (hasInterface : Bool) :
    ∃ types, wireTypes type hasInterface = some types ∧ ∀ v : Value,
      v.HasWireTypes types ↔ v.type = tokenizeIncomingArgType argType hasInterface := by
  unfold ArgType.tryFromStr at h
  split at h <;> cases h
  all_goals
    refine ⟨_, rfl, fun v => ?_⟩
    cases hasInterface <;> cases v <;> simp [Value.HasWireTypes, Value.parts, Value.type,
      tokenizeIncomingArgType]

end Parts

/-! ## Statements for an argument -/

section Statements

variable (t : Target) (argElem : Element)

/-- The push function puts the parts of a value for the argument on the wire,
one after the other. -/
def WritesArg (f : WriteFunc) : Prop :=
  ∃ types, argWireTypes argElem = some types ∧
    ∀ (p : Packet) (v : Value), v.HasWireTypes types → v.Pushable →
      f.run t p v = .ok { p with
        payload := p.payload ++ encodeAll t v.parts
        fds := p.fds ++ fdsOfValues v.parts }

/-- The read function takes the parts of a value for the argument off the wire,
one after the other, and no other read succeeds. -/
def ReadsArg (f : ReadFunc) : Prop :=
  ∃ types, argWireTypes argElem = some types ∧
    ∀ (p : Packet) (s : PacketReader),
      (∀ (v : Value) (s' : PacketReader), (f.run t p).run s = .ok v s' →
        v.HasWireTypes types ∧ ∃ chunk, EncodesAll t v.parts chunk ∧ chunk <+: rest p s ∧
          fdsOfValues v.parts <+: p.fds.drop s.fdPos ∧
          s' = s.skip chunk.length (fdsOfValues v.parts).length) ∧
      ∀ (v : Value) (chunk : List UInt8), v.HasWireTypes types → EncodesAll t v.parts chunk →
        chunk <+: rest p s → fdsOfValues v.parts <+: p.fds.drop s.fdPos →
        s.payloadPos + chunk.length ≤ t.usizeMax →
        s.fdPos + (fdsOfValues v.parts).length ≤ t.usizeMax →
        (f.run t p).run s = .ok v (s.skip chunk.length (fdsOfValues v.parts).length)

/-- The named writes follow the `<arg>` children of a procedure. -/
def WritesInOrder (procElem : Element) (writes : List (String × WriteFunc)) : Prop :=
  List.Forall₂ (fun argElem write =>
    argElem.attributeValue "name" = some write.1 ∧ WritesArg t argElem write.2)
    (procElem.childrenNamed "arg") writes

/-- The named reads follow the `<arg>` children of a procedure. -/
def ReadsInOrder (procElem : Element) (reads : List (String × ReadFunc)) : Prop :=
  List.Forall₂ (fun argElem read =>
    argElem.attributeValue "name" = some read.1 ∧ ReadsArg t argElem read.2)
    (procElem.childrenNamed "arg") reads

end Statements

/-- A `send_*` function sends the message of this index. -/
structure Wlproto.ProxyFunc.Follows (t : Target) (proxyFunc : ProxyFunc) (procElem : Element)
    (k : Nat) : Prop where
  name : ∃ name, procElem.attributeValue "name" = some name ∧ proxyFunc.reqName = "send_" ++ name
  opcode : proxyFunc.reqIndexLiteral = k
  writes : WritesInOrder t procElem
    (proxyFunc.argWriteFuncCalls.map fun call => (call.argName, call.argWriteFunc))

/-- A match arm takes the message of this index. -/
structure Wlproto.MatchVariant.Follows (t : Target) (variant : MatchVariant) (procElem : Element)
    (k : Nat) : Prop where
  name : ∃ name, procElem.attributeValue "name" = some name ∧
    variant.handleFuncName = "handle_" ++ name
  opcode : variant.eventIndexLiteral = k
  reads : ReadsInOrder t procElem
    (variant.argDecoders.map fun decoder => (decoder.argName, decoder.argTypeReadFunc))
  passes : variant.argNames = variant.argDecoders.map ArgDecoder.argName

/-- An argument struct is that of the message of this index. -/
structure Wlproto.ArgsStruct.Follows (t : Target) (struct : ArgsStruct) (nameVer kind : String)
    (procElem : Element) (k : Nat) : Prop where
  name : ∃ name, procElem.attributeValue "name" = some name ∧
    struct.name = nameVer ++ "_" ++ kind ++ "_" ++ name ++ "_args"
  opcode : struct.opcode = k
  reads : ReadsInOrder t procElem
    (struct.fieldReads.map fun read => (read.fieldName, read.readName))
  writes : WritesInOrder t procElem
    (struct.fieldWrites.map fun write => (write.fieldName, write.writeName))
  constructs : struct.fieldNames = struct.fieldReads.map FieldRead.fieldName

/-! ## From the document to the code -/

section Follows

variable {t : Target} {argElem procElem : Element} {arg : Arg} {procedure : Procedure}

theorem argWireTypes_of_processArg (h : processArg argElem = .ok arg) :
    ∃ types, argWireTypes argElem = some types ∧
      ∀ v : Value, v.HasWireTypes types ↔ v.type = arg.incomingType := by
  obtain ⟨_, ⟨type, htype, hargType⟩, hinterface⟩ := processArg_ok h
  rw [argWireTypes, htype, ← hinterface]
  exact hasWireTypes_iff hargType arg.interface.isSome

theorem writesArg_of_processArg (h : processArg argElem = .ok arg) :
    WritesArg t argElem arg.writeFunc := by
  obtain ⟨types, htypes, hiff⟩ := argWireTypes_of_processArg h
  refine ⟨types, htypes, fun p v hv hpush => ?_⟩
  rw [encodeAll_parts, fdsOfValues_parts]
  exact writeFunc_of_pushable (((hiff v).mp hv).trans (writeFunc_takes arg).symm) hpush

theorem readsArg_of_processArg (h : processArg argElem = .ok arg) :
    ReadsArg t argElem arg.readFunc := by
  obtain ⟨types, htypes, hiff⟩ := argWireTypes_of_processArg h
  refine ⟨types, htypes, fun p s => ⟨fun v s' hread => ?_, fun v chunk hv hc => ?_⟩⟩
  · obtain ⟨hty, chunk, hc, hread⟩ := readFunc_ok hread
    rw [fdsOfValues_parts]
    exact ⟨(hiff v).mpr (hty.trans (readFunc_returns arg)), chunk, encodesAll_parts.mpr hc, hread⟩
  · rw [fdsOfValues_parts]
    exact readFunc_of_encodes (((hiff v).mp hv).trans (readFunc_returns arg).symm)
      (encodesAll_parts.mp hc)

theorem writesInOrder_of_processProcedure (h : processProcedure procElem = .ok procedure) :
    WritesInOrder t procElem (procedure.args.map fun arg => (arg.name, arg.writeFunc)) :=
  List.forall₂_map_right_iff.mpr ((processProcedure_ok h).2.imp fun _ _ harg =>
    ⟨(processArg_ok harg).1, writesArg_of_processArg harg⟩)

theorem readsInOrder_of_processProcedure (h : processProcedure procElem = .ok procedure) :
    ReadsInOrder t procElem (procedure.args.map fun arg => (arg.name, arg.readFunc)) :=
  List.forall₂_map_right_iff.mpr ((processProcedure_ok h).2.imp fun _ _ harg =>
    ⟨(processArg_ok harg).1, readsArg_of_processArg harg⟩)

theorem tokenizeProxyFunc_follows (h : processProcedure procElem = .ok procedure) (k : Nat) :
    (tokenizeProxyFunc k procedure).Follows t procElem k where
  name := ⟨procedure.name, (processProcedure_ok h).1, rfl⟩
  opcode := rfl
  writes := by
    simpa [tokenizeProxyFunc, Function.comp_def] using writesInOrder_of_processProcedure h

theorem tokenizeMatchVariant_follows (h : processProcedure procElem = .ok procedure) (k : Nat) :
    (tokenizeMatchVariant k procedure).Follows t procElem k where
  name := ⟨procedure.name, (processProcedure_ok h).1, rfl⟩
  opcode := rfl
  reads := by
    simpa [tokenizeMatchVariant, Function.comp_def] using readsInOrder_of_processProcedure h
  passes := by simp [tokenizeMatchVariant]

theorem tokenizeArgsStruct_follows (h : processProcedure procElem = .ok procedure)
    (nameVer kind : String) (k : Nat) :
    (tokenizeArgsStruct nameVer kind k procedure).Follows t nameVer kind procElem k where
  name := ⟨procedure.name, (processProcedure_ok h).1, rfl⟩
  opcode := rfl
  reads := by
    simpa [tokenizeArgsStruct, Function.comp_def] using readsInOrder_of_processProcedure h
  writes := by
    simpa [tokenizeArgsStruct, Function.comp_def] using writesInOrder_of_processProcedure h
  constructs := by simp [tokenizeArgsStruct]

end Follows

/-- In the code that is emitted for an `<interface>` element:
1. the `k`-th `<request>` has a `send_*` function and an argument struct with
   the opcode `k`;
2. the `k`-th `<event>` has a match arm, which is the one that `handle_event`
   takes for the opcode `k`, and an argument struct with the opcode `k`;
3. each of these writes or reads the `<arg>` children in their order, each with
   its types on the wire. -/
theorem follows_document (t : Target) (interfaceElem : Element) (interface : Interface)
    (h : processInterface interfaceElem = .ok interface) :
    (∀ (k : Nat) (procElem : Element),
      (interfaceElem.childrenNamed "request")[k]? = some procElem →
      ∃ proxy proxyFunc struct,
        interface.requestProxy = some proxy ∧ proxy.proxyFuncs[k]? = some proxyFunc ∧
        proxyFunc.Follows t procElem k ∧
        interface.argsStructs[k]? = some struct ∧
        struct.Follows t interface.nameVer "request" procElem k) ∧
    (∀ (k : Nat) (procElem : Element),
      (interfaceElem.childrenNamed "event")[k]? = some procElem →
      ∃ eventHandler variant struct,
        interface.eventHandler = some eventHandler ∧
        eventHandler.matchVariants.find? (·.eventIndexLiteral == k) = some variant ∧
        variant.Follows t procElem k ∧
        interface.argsStructs[interface.requests.length + k]? = some struct ∧
        struct.Follows t interface.nameVer "event" procElem k) := by
  obtain ⟨_, _, hrequests, hevents, _⟩ := processInterface_ok h
  constructor
  · intro k procElem hproc
    obtain ⟨request, hrequest, hprocess⟩ := exists_getElem?_of_forall₂ hrequests hproc
    obtain ⟨proxy, hproxy, hfunc⟩ := requestProxy_of_request hrequest
    exact ⟨proxy, _, _, hproxy, hfunc, tokenizeProxyFunc_follows hprocess k,
      argsStructs_request hrequest, tokenizeArgsStruct_follows hprocess _ _ k⟩
  · intro k procElem hproc
    obtain ⟨event, hevent, hprocess⟩ := exists_getElem?_of_forall₂ hevents hproc
    have hne : interface.events ≠ [] := by
      rintro hnil
      simp [hnil] at hevent
    obtain ⟨eventHandler, hhandler⟩ := exists_eventHandler hne
    exact ⟨eventHandler, _, _, hhandler, find?_matchVariants_of_event hhandler hevent,
      tokenizeMatchVariant_follows hprocess k, argsStructs_event hevent,
      tokenizeArgsStruct_follows hprocess _ _ k⟩

/-- An `<arg>` element. -/
def argElement (name type : String) : ChildOfElement :=
  .element (.mk (.new "arg") [(.new "name", name), (.new "type", type)] [])

/-- A child of an `<interface>` element. -/
def procElement (kind name : String) (children : List ChildOfElement) : Element :=
  .mk (.new kind) [(.new "name", name)] children

/-- Events around a request, with an enum, a comment and an element of another
name between them. -/
def mixedElement : Element :=
  .mk (.new "interface") [(.new "name", "wl_mixed"), (.new "version", "3")] [
    .element (procElement "event" "global" [argElement "name" "uint", argElement "label" "string"]),
    .element (procElement "enum" "error" []),
    .comment "the only request",
    .element (procElement "request" "bind" [argElement "name" "uint", argElement "id" "new_id"]),
    .element (procElement "since" "other" []),
    .element (procElement "event" "removed" [argElement "name" "uint"])]

theorem follows_document_mixed :
    ∃ interface eventHandler variant, processInterface mixedElement = .ok interface ∧
      interface.eventHandler = some eventHandler ∧
      eventHandler.matchVariants.find? (·.eventIndexLiteral == 1) = some variant ∧
      variant.Follows ⟨.little, .w64⟩
        (procElement "event" "removed" [argElement "name" "uint"]) 1 := by
  obtain ⟨interface, hinterface⟩ : ∃ interface, processInterface mixedElement = .ok interface :=
    ⟨_, rfl⟩
  obtain ⟨eventHandler, variant, _, hhandler, hvariant, hfollows, _⟩ :=
    (follows_document ⟨.little, .w64⟩ mixedElement interface hinterface).2 1 _ rfl
  exact ⟨interface, eventHandler, variant, hinterface, hhandler, hvariant, hfollows⟩

end WhaleLand
