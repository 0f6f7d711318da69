import WhaleLand.Lib.Checks
import WhaleLand.MessageCode
import WhaleLand.ProtocolXml

/-!
# The run of the code generator

`main` of `wlproto`, from the parsed document to the code that it prints, with
all its panics: those of the `process_*` functions, and those of `Ident::new`,
which the `tokenize_*` functions call with names that come from the document.

All that can fail on the way is a check. The lists of checks below are in the
order in which the program makes them, and `main` follows them (`main_follows`):
it panics with the text of the first check that fails.
-/

namespace WhaleLand.Wlproto

open Xml Collect Checks

/-! ## Outside the program -/

/-- What is not the program's own: the `Debug` text of an element, the texts
that are identifiers with the panic at other texts, and `str::to_uppercase`. -/
structure Externals where
  debugElement : Element → String
  isIdent : String → Bool
  identPanic : String → String
  toUppercase : String → String

/-! ## The emitted enums -/

/-- The two tuple structs of an enum, with their constants. -/
structure EnumCode where
  enumNameU32 : String
  variantsU32 : List (String × UInt32)
  enumNameI32 : String
  variantsI32 : List (String × Int32)
deriving DecidableEq, Repr

/-- The code of an interface. -/
structure InterfaceCode where
  eventHandler : Option EventHandlerTrait
  requestProxy : Option RequestProxy
  argsStructs : List ArgsStruct
  enums : List EnumCode
deriving DecidableEq, Repr

/-- `name.starts_with(|c| c >= '0' && c <= '9')`. -/
def startsWithDigit (name : String) : Bool :=
  match name.toList with
  | [] => false
  | c :: _ => decide ('0' ≤ c ∧ c ≤ '9')

section Pure

variable (ext : Externals)

/-- The name of a variant's constants. -/
def EnumVariant.constName (variant : EnumVariant) : String :=
  if startsWithDigit variant.name then
    "VARIANT_" ++ ext.toUppercase variant.name
  else
    ext.toUppercase variant.name

def Enum.nameU32 (nameVer : String) (enu : Enum) : String := nameVer ++ "_" ++ enu.name ++ "_u32"

def Enum.nameI32 (nameVer : String) (enu : Enum) : String := nameVer ++ "_" ++ enu.name ++ "_i32"

/-- What is emitted for an enum. The second constant is `variant.value as i32`. -/
def Enum.code (nameVer : String) (enu : Enum) : EnumCode where
  enumNameU32 := enu.nameU32 nameVer
  variantsU32 := enu.variants.map fun variant => (variant.constName ext, variant.value)
  enumNameI32 := enu.nameI32 nameVer
  variantsI32 := enu.variants.map fun variant => (variant.constName ext, variant.value.toInt32)

/-- What is emitted for an interface. -/
def Interface.code (interface : Interface) : InterfaceCode where
  eventHandler := interface.eventHandler
  requestProxy := interface.requestProxy
  argsStructs := interface.argsStructs
  enums := interface.enums.map (Enum.code ext interface.nameVer)

end Pure

/-! ## The generator with its panics -/

section Generator

variable (ext : Externals)

/-- `Ident::new`. The identifier is its text. -/
def newIdent (name : String) : Except String Unit :=
  panicUnless (ext.isIdent name) (ext.identPanic name)

/-- The identifiers of one turn of a loop over procedures: the function or
struct, and the arguments. -/
def newIdents (name : String) (procedure : Procedure) : Except String Unit := do
  newIdent ext name
  procedure.args.forM fun arg => newIdent ext arg.name

def tokenizeEventHandler (interface : Interface) : Except String (Option EventHandlerTrait) := do
  if interface.events.length > 0 then
    newIdent ext (interface.nameVer ++ "_event_handler")
    interface.events.forM fun event => newIdents ext ("handle_" ++ event.name) event
  return interface.eventHandler

def tokenizeRequestProxy (interface : Interface) : Except String (Option RequestProxy) := do
  if interface.requests.length > 0 then
    newIdent ext (interface.nameVer ++ "_request_proxy")
    interface.requests.forM fun req => newIdents ext ("send_" ++ req.name) req
  return interface.requestProxy

/-- One turn of the loop over the enums. -/
def tokenizeEnum (nameVer : String) (enu : Enum) : Except String EnumCode := do
  newIdent ext (enu.nameU32 nameVer)
  newIdent ext (enu.nameI32 nameVer)
  enu.variants.forM fun variant => newIdent ext (variant.constName ext)
  return enu.code ext nameVer

/-- The name of a procedure's argument struct. -/
def argsStructName (nameVer kind : String) (procedure : Procedure) : String :=
  nameVer ++ "_" ++ kind ++ "_" ++ procedure.name ++ "_args"

def tokenizeArgsStructs (interface : Interface) : Except String (List ArgsStruct) := do
  interface.requests.forM fun req =>
    newIdents ext (argsStructName interface.nameVer "request" req) req
  interface.events.forM fun event =>
    newIdents ext (argsStructName interface.nameVer "event" event) event
  return interface.argsStructs

def tokenizeInterface (interface : Interface) : Except String InterfaceCode := do
  let eventHandler ← tokenizeEventHandler ext interface
  let requestProxy ← tokenizeRequestProxy ext interface
  let enums ← interface.enums.mapM (tokenizeEnum ext interface.nameVer)
  let argsStructs ← tokenizeArgsStructs ext interface
  return { eventHandler, requestProxy, argsStructs, enums }

def protocolToCode (protocol : Protocol) : Except String (List InterfaceCode) :=
  protocol.interfaces.mapM (tokenizeInterface ext)

end Generator

/-! ## The root of the document -/

inductive SingleIterError (α : Type)
  | noItem
  | multipleItems (first second : α)

/-- The `Debug` text, from that of the items. -/
def SingleIterError.debug {α : Type} (debugItem : α → String) : SingleIterError α → String
  | .noItem => "NoItem"
  | .multipleItems first second =>
    "MultipleItems \x7b first: " ++ debugItem first ++ ", second: " ++ debugItem second ++ " \x7d"

/-- `SingleIterExt::single`. -/
def single {α : Type} : List α → Except (SingleIterError α) α
  | [] => .error .noItem
  | [first] => .ok first
  | first :: second :: _ => .error (.multipleItems first second)

def rootElement (ext : Externals) (children : List ChildOfRoot) : Except String Element :=
  match single (children.filterMap ChildOfRoot.element?) with
  | .ok rootElem => .ok rootElem
  | .error e => .error ("multiple root elements: " ++ e.debug ext.debugElement)

/-- The first half of `main`, from the children of the document's root. -/
def readProtocol (ext : Externals) (children : List ChildOfRoot) : Except String Protocol := do
  let rootElem ← rootElement ext children
  panicUnless (rootElem.name = .new "protocol") "root element is not <protocol>"
  processProtocol rootElem

/-- `main`: the code that is printed. -/
def main (ext : Externals) (children : List ChildOfRoot) : Except String (List InterfaceCode) := do
  let protocol ← readProtocol ext children
  protocolToCode ext protocol

/-! ## The checks of a document -/

section DocumentChecks

/-- `attribute_value(name).expect(msg)`. -/
def requires (element : Element) (name msg : String) : Check String :=
  ⟨(element.attributeValue name).isSome, msg⟩

/-- `.expect(msg)` on what an integer parser makes of an attribute. -/
def parses (element : Element) (name : String) (parse : String → Except IntErrorKind UInt32)
    (msg : String) : Check String :=
  match parse ((element.attributeValue name).getD "") with
  | .ok _ => ⟨true, msg⟩
  | .error kind => ⟨false, msg ++ ": " ++ kind.debug⟩

def argChecks (argElem : Element) : List (Check String) :=
  [requires argElem "name" "<arg> without name=\"...\"",
    requires argElem "type" "<arg> without type=\"...\"",
    ⟨((argElem.attributeValue "type").bind ArgType.tryFromStr).isSome,
      "<arg> with unknown type=\"...\""⟩]

def procedureChecks (procElem : Element) : List (Check String) :=
  requires procElem "name" "<request>/<event> without name=\"...\"" ::
    (procElem.childrenNamed "arg").flatMap argChecks

def entryChecks (variantElem : Element) : List (Check String) :=
  [requires variantElem "name" "<entry> without name=\"...\"",
    requires variantElem "value" "<entry> without value=\"...\"",
    parses variantElem "value" parseU32BasePrefix "<entry> with non-u32 value=\"...\""]

def enumChecks (enumElem : Element) : List (Check String) :=
  requires enumElem "name" "<enum> without name=\"...\"" ::
    (enumElem.childrenNamed "entry").flatMap entryChecks

/-- The checks of a child of an interface, whichever it is. -/
def interfaceChildChecks (childElem : Element) : List (Check String) :=
  if childElem.isNamed "request" || childElem.isNamed "event" then procedureChecks childElem
  else if childElem.isNamed "enum" then enumChecks childElem
  else []

def interfaceChecks (interfaceElem : Element) : List (Check String) :=
  [requires interfaceElem "name" "<interface> is missing name=\"...\"",
    requires interfaceElem "version" "<interface> is missing version=\"...\"",
    parses interfaceElem "version" (fun s => u32FromStrRadix s.toList 10)
      "<interface> has non-numeric version=\"...\""] ++
    interfaceElem.childElements.flatMap interfaceChildChecks

def protocolChecks (protocolElem : Element) : List (Check String) :=
  requires protocolElem "name" "root <protocol> is missing name=\"...\"" ::
    (protocolElem.childrenNamed "interface").flatMap interfaceChecks

/-- All the checks of a document, the root's first. -/
def documentChecks (ext : Externals) (children : List ChildOfRoot) : List (Check String) :=
  match single (children.filterMap ChildOfRoot.element?) with
  | .ok rootElem =>
    ⟨rootElem.isNamed "protocol", "root element is not <protocol>"⟩ :: protocolChecks rootElem
  | .error e => [⟨false, "multiple root elements: " ++ e.debug ext.debugElement⟩]

end DocumentChecks

/-! ## The checks of the identifiers -/

section IdentChecks

variable (ext : Externals)

def identCheck (name : String) : Check String := ⟨ext.isIdent name, ext.identPanic name⟩

/-- The identifiers of a function or struct that names the arguments of a procedure. -/
def procedureIdents (name : String) (procedure : Procedure) : List String :=
  name :: procedure.args.map Arg.name

namespace Interface

variable (interface : Interface)

def eventIdents : List String :=
  if interface.events = [] then []
  else (interface.nameVer ++ "_event_handler") ::
    interface.events.flatMap fun event => procedureIdents ("handle_" ++ event.name) event

def requestIdents : List String :=
  if interface.requests = [] then []
  else (interface.nameVer ++ "_request_proxy") ::
    interface.requests.flatMap fun req => procedureIdents ("send_" ++ req.name) req

def enumIdents : List String :=
  interface.enums.flatMap fun enu =>
    enu.nameU32 interface.nameVer :: enu.nameI32 interface.nameVer ::
      enu.variants.map (EnumVariant.constName ext)

def structIdents : List String :=
  (interface.requests.flatMap fun req =>
    procedureIdents (argsStructName interface.nameVer "request" req) req) ++
  (interface.events.flatMap fun event =>
    procedureIdents (argsStructName interface.nameVer "event" event) event)

/-- The identifiers that are made for an interface, in their order. -/
def idents : List String :=
  interface.eventIdents ++ interface.requestIdents ++ interface.enumIdents ext ++
    interface.structIdents

end Interface

def Protocol.idents (protocol : Protocol) : List String :=
  protocol.interfaces.flatMap (Interface.idents ext)

end IdentChecks

/-! ## `main` makes these checks -/

section Follows

variable {ext : Externals}

theorem follows_panicUnless {cond : Prop} [Decidable cond] {holds : Bool} {msg : String}
    (h : holds = true ↔ cond) : Follows (panicUnless cond msg) [⟨holds, msg⟩] := by
  unfold panicUnless
  split
  · next hcond =>
    rw [h.mpr hcond]
    exact ⟨(), rfl⟩
  · next hcond =>
    rw [Bool.eq_false_iff.mpr fun hholds => hcond (h.mp hholds)]
    rfl

theorem follows_expect {α : Type} {value : Option α} {msg : String} :
    Follows (expect value msg) [⟨value.isSome, msg⟩] := by
  cases value with
  | none => exact rfl
  | some v => exact ⟨v, rfl⟩

/-- What follows an attribute that is there. -/
theorem follows_attribute {β : Type} {element : Element} {name msg : String}
    {f : String → Except String β} {checks : List (Check String)}
    (hf : ∀ value, element.attributeValue name = some value → Follows (f value) checks) :
    Follows (expect (element.attributeValue name) msg >>= f)
      (requires element name msg :: checks) :=
  follows_expect.bind fun value h => hf value (expect_eq_ok.mp h)

theorem follows_expectParsed {element : Element} {name value msg : String}
    {parse : String → Except IntErrorKind UInt32} (h : element.attributeValue name = some value) :
    Follows (expectParsed (parse value) msg) [parses element name parse msg] := by
  unfold parses
  rw [h, Option.getD_some]
  cases parse value with
  | ok v => exact ⟨v, rfl⟩
  | error kind => exact rfl

/-- A check that always holds where it is made. -/
theorem follows_panicUnless_bind {β : Type} {cond : Prop} [Decidable cond] {msg : String}
    {f : Unit → Except String β} {checks : List (Check String)} (h : cond)
    (hf : Follows (f ()) checks) : Follows (panicUnless cond msg >>= f) checks := by
  rw [panicUnless, if_pos h]
  exact hf

theorem follows_collectChild {β : Type} {passed wanted : String}
    {make : Element → Except String β} {checksOf : Element → List (Check String)}
    (hne : passed ≠ wanted)
    (h : ∀ e : Element, e.name = .new wanted → Follows (make e) (checksOf e))
    (made : List β) (childElem : Element) :
    Follows (collectChild passed wanted make made childElem)
      (if childElem.isNamed wanted then checksOf childElem else []) := by
  unfold collectChild
  split
  · next hname =>
    rw [if_neg (by simp [Element.isNamed, hname, hne])]
    exact follows_ok made
  · split
    · next hname =>
      rw [if_pos (by simp [Element.isNamed, hname])]
      exact (h childElem hname).bind_ok
    · next hname =>
      rw [if_neg (by simp [Element.isNamed, hname])]
      exact follows_ok made

theorem follows_processArg {argElem : Element} (h : argElem.name = .new "arg") :
    Follows (processArg argElem) (argChecks argElem) := by
  refine follows_panicUnless_bind h (follows_attribute fun name _ => ?_)
  refine follows_attribute fun type htype => ?_
  rw [htype]
  exact follows_expect.bind_ok

theorem follows_processProcedure {procElem : Element}
    (h : procElem.name = .new "request" ∨ procElem.name = .new "event") :
    Follows (processProcedure procElem) (procedureChecks procElem) := by
  refine follows_panicUnless_bind h (follows_attribute fun name _ => ?_)
  exact (Follows.foldlM_filter
    (follows_collectChild (by decide) fun _ => follows_processArg) _ _).bind_ok

theorem follows_processEnumVariant {variantElem : Element} (h : variantElem.name = .new "entry") :
    Follows (processEnumVariant variantElem) (entryChecks variantElem) := by
  refine follows_panicUnless_bind h (follows_attribute fun name _ => ?_)
  exact follows_attribute fun value hvalue => (follows_expectParsed hvalue).bind_ok

theorem follows_processEnum {enumElem : Element} (h : enumElem.name = .new "enum") :
    Follows (processEnum enumElem) (enumChecks enumElem) := by
  refine follows_panicUnless_bind h (follows_attribute fun name _ => ?_)
  exact (Follows.foldlM_filter
    (follows_collectChild (by decide) fun _ => follows_processEnumVariant) _ _).bind_ok

theorem follows_processInterfaceChild (lists : InterfaceLists) (childElem : Element) :
    Follows (processInterfaceChild lists childElem) (interfaceChildChecks childElem) := by
  unfold processInterfaceChild interfaceChildChecks
  split
  · next hname =>
    simp only [Element.isNamed, hname]
    exact follows_ok lists
  split
  · next hname =>
    rw [if_pos (by simp [Element.isNamed, hname])]
    exact (follows_processProcedure (.inl hname)).bind_ok
  split
  · next hname =>
    rw [if_pos (by simp [Element.isNamed, hname])]
    exact (follows_processProcedure (.inr hname)).bind_ok
  split
  · next hname =>
    rw [if_neg (by simp [Element.isNamed, hname]), if_pos (by simp [Element.isNamed, hname])]
    exact (follows_processEnum hname).bind_ok
  · next hrequest hevent henum =>
    rw [if_neg (by simp [Element.isNamed, hrequest, hevent]),
      if_neg (by simp [Element.isNamed, henum])]
    exact follows_ok lists

theorem follows_processInterface {interfaceElem : Element}
    (h : interfaceElem.name = .new "interface") :
    Follows (processInterface interfaceElem) (interfaceChecks interfaceElem) := by
  refine follows_panicUnless_bind h (follows_attribute fun name _ => ?_)
  refine follows_attribute fun version hversion => ?_
  refine (@follows_expectParsed _ _ _ _ (fun s => u32FromStrRadix s.toList 10) hversion).bind ?_
  intro version _
  exact (Follows.foldlM follows_processInterfaceChild _ _).bind_ok

theorem follows_processProtocol {protocolElem : Element}
    (h : protocolElem.name = .new "protocol") :
    Follows (processProtocol protocolElem) (protocolChecks protocolElem) := by
  refine follows_panicUnless_bind h (follows_attribute fun name _ => ?_)
  exact (Follows.foldlM_filter
    (follows_collectChild (by decide) fun _ => follows_processInterface) _ _).bind_ok

theorem follows_readProtocol (children : List ChildOfRoot) :
    Follows (readProtocol ext children) (documentChecks ext children) := by
  unfold readProtocol rootElement documentChecks
  cases single (children.filterMap ChildOfRoot.element?) with
  | error e => exact rfl
  | ok rootElem =>
    have hname : rootElem.isNamed "protocol" = true ↔ rootElem.name = .new "protocol" := beq_iff_eq
    refine (follows_panicUnless hname).bind fun _ h => ?_
    exact follows_processProtocol (panicUnless_eq_ok.mp h)

theorem follows_newIdent (name : String) :
    Follows (newIdent ext name) [identCheck ext name] :=
  follows_panicUnless Iff.rfl

theorem follows_newIdents (name : String) (procedure : Procedure) :
    Follows (newIdents ext name procedure)
      ((procedureIdents name procedure).map (identCheck ext)) := by
  refine (follows_newIdent name).bind fun _ _ => ?_
  rw [List.map_map, List.map_eq_flatMap]
  exact Follows.forM (fun arg : Arg => follows_newIdent arg.name) _

/-- The loop over the requests or the events. -/
theorem follows_loop (rename : Procedure → String) (procedures : List Procedure) :
    Follows (procedures.forM fun procedure => newIdents ext (rename procedure) procedure)
      ((procedures.flatMap fun procedure =>
        procedureIdents (rename procedure) procedure).map (identCheck ext)) := by
  rw [List.map_flatMap]
  exact Follows.forM (fun procedure => follows_newIdents (rename procedure) procedure) _

theorem follows_tokenizeEventHandler (interface : Interface) :
    Follows (tokenizeEventHandler ext interface)
      (interface.eventIdents.map (identCheck ext)) := by
  unfold tokenizeEventHandler Interface.eventIdents
  rcases interface.events with _ | ⟨event, events⟩
  · exact follows_ok _
  · exact (follows_newIdent _).bind fun _ _ =>
      (follows_loop (fun event => "handle_" ++ event.name) _).bind_ok

theorem follows_tokenizeRequestProxy (interface : Interface) :
    Follows (tokenizeRequestProxy ext interface)
      (interface.requestIdents.map (identCheck ext)) := by
  unfold tokenizeRequestProxy Interface.requestIdents
  rcases interface.requests with _ | ⟨req, requests⟩
  · exact follows_ok _
  · exact (follows_newIdent _).bind fun _ _ =>
      (follows_loop (fun req => "send_" ++ req.name) _).bind_ok

theorem follows_tokenizeEnum (nameVer : String) (enu : Enum) :
    Follows (tokenizeEnum ext nameVer enu)
      ((enu.nameU32 nameVer :: enu.nameI32 nameVer ::
        enu.variants.map (EnumVariant.constName ext)).map (identCheck ext)) := by
  refine (follows_newIdent _).bind fun _ _ => (follows_newIdent _).bind fun _ _ => ?_
  rw [List.map_map, List.map_eq_flatMap]
  exact (Follows.forM (fun variant : EnumVariant => follows_newIdent (variant.constName ext))
    _).bind_ok

theorem follows_tokenizeArgsStructs (interface : Interface) :
    Follows (tokenizeArgsStructs ext interface)
      (interface.structIdents.map (identCheck ext)) := by
  unfold Interface.structIdents
  rw [List.map_append]
  exact (follows_loop (argsStructName interface.nameVer "request") _).bind fun _ _ =>
    (follows_loop (argsStructName interface.nameVer "event") _).bind_ok

theorem follows_tokenizeInterface (interface : Interface) :
    Follows (tokenizeInterface ext interface)
      ((interface.idents ext).map (identCheck ext)) := by
  unfold Interface.idents Interface.enumIdents
  rw [List.map_append, List.map_append, List.map_append, List.append_assoc, List.append_assoc,
    List.map_flatMap]
  refine (follows_tokenizeEventHandler interface).bind fun _ _ => ?_
  refine (follows_tokenizeRequestProxy interface).bind fun _ _ => ?_
  refine (Follows.mapM (follows_tokenizeEnum interface.nameVer) _).bind fun _ _ => ?_
  exact (follows_tokenizeArgsStructs interface).bind_ok

theorem follows_protocolToCode (protocol : Protocol) :
    Follows (protocolToCode ext protocol)
      ((protocol.idents ext).map (identCheck ext)) := by
  unfold Protocol.idents
  rw [List.map_flatMap]
  exact Follows.mapM follows_tokenizeInterface _

end Follows

/-! ## What it returns -/

section Returned

variable {ext : Externals}

theorem tokenizeEventHandler_ok {interface : Interface} {eventHandler : Option EventHandlerTrait}
    (h : tokenizeEventHandler ext interface = .ok eventHandler) :
    eventHandler = interface.eventHandler := by
  unfold tokenizeEventHandler at h
  split at h
  · obtain ⟨_, _, h⟩ := bind_eq_ok.mp h
    obtain ⟨_, _, h⟩ := bind_eq_ok.mp h
    cases h
    rfl
  · cases h
    rfl

theorem tokenizeRequestProxy_ok {interface : Interface} {requestProxy : Option RequestProxy}
    (h : tokenizeRequestProxy ext interface = .ok requestProxy) :
    requestProxy = interface.requestProxy := by
  unfold tokenizeRequestProxy at h
  split at h
  · obtain ⟨_, _, h⟩ := bind_eq_ok.mp h
    obtain ⟨_, _, h⟩ := bind_eq_ok.mp h
    cases h
    rfl
  · cases h
    rfl

theorem tokenizeEnum_ok {nameVer : String} {enu : Enum} {code : EnumCode}
    (h : tokenizeEnum ext nameVer enu = .ok code) : code = enu.code ext nameVer := by
  obtain ⟨_, _, h⟩ := bind_eq_ok.mp h
  obtain ⟨_, _, h⟩ := bind_eq_ok.mp h
  obtain ⟨_, _, h⟩ := bind_eq_ok.mp h
  cases h
  rfl

theorem tokenizeArgsStructs_ok {interface : Interface} {structs : List ArgsStruct}
    (h : tokenizeArgsStructs ext interface = .ok structs) :
    structs = interface.argsStructs := by
  obtain ⟨_, _, h⟩ := bind_eq_ok.mp h
  obtain ⟨_, _, h⟩ := bind_eq_ok.mp h
  cases h
  rfl

theorem tokenizeInterface_ok {interface : Interface} {code : InterfaceCode}
    (h : tokenizeInterface ext interface = .ok code) : code = interface.code ext := by
  simp only [tokenizeInterface, bind_eq_ok] at h
  obtain ⟨eventHandler, hevents, requestProxy, hrequests, enums, henums, structs, hstructs, h⟩ := h
  cases h
  rw [tokenizeEventHandler_ok hevents, tokenizeRequestProxy_ok hrequests,
    tokenizeArgsStructs_ok hstructs, eq_map_of_mapM_ok (fun _ _ => tokenizeEnum_ok) henums]
  rfl

theorem protocolToCode_ok {protocol : Protocol} {code : List InterfaceCode}
    (h : protocolToCode ext protocol = .ok code) :
    code = protocol.interfaces.map (Interface.code ext) :=
  eq_map_of_mapM_ok (fun _ _ => tokenizeInterface_ok) h

end Returned

end WhaleLand.Wlproto
