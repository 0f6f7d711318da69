import WhaleLand.Lib.Collect
import WhaleLand.Lib.Xml
import WhaleLand.Wlproto

/-!
# From the XML document to the protocol model

The `process_*` functions of `wlproto`. A panic of the program is an error
here, with the text that it prints. Descriptions and summaries are left out:
they end up in comments, or nowhere.

Each loop over child elements is a fold of its body over them, and each body
has lemmas that say what a turn of the loop collects (`collects_*`). From these,
the `process*_ok` say what a document that is accepted has been turned into.
-/

namespace WhaleLand.Wlproto

open Xml Collect

/-! ## Panics and integers -/

/-- A check that panics if the condition does not hold. -/
def panicUnless (cond : Prop) [Decidable cond] (msg : String) : Except String Unit :=
  if cond then .ok () else .error msg

/-- `Option::expect`. -/
def expect {α : Type} (value : Option α) (msg : String) : Except String α :=
  match value with
  | some v => .ok v
  | none => .error msg

inductive IntErrorKind
  | empty
  | invalidDigit
  | posOverflow
deriving DecidableEq, Repr

namespace IntErrorKind

/-- The `Debug` text of the `ParseIntError`. -/
def debug (kind : IntErrorKind) : String :=
  "ParseIntError \x7b kind: " ++
    (match kind with
      | .empty => "Empty"
      | .invalidDigit => "InvalidDigit"
      | .posOverflow => "PosOverflow") ++ " \x7d"

end IntErrorKind

/-- `Result::expect` on the result of an integer parser. -/
def expectParsed {α : Type} (value : Except IntErrorKind α) (msg : String) : Except String α :=
  match value with
  | .ok v => .ok v
  | .error kind => .error (msg ++ ": " ++ kind.debug)

/-- `char::to_digit`. -/
def toDigit (c : Char) (radix : Nat) : Option Nat :=
  let digit :=
    if '0' ≤ c ∧ c ≤ '9' then some (c.toNat - '0'.toNat)
    else if 'a' ≤ c ∧ c ≤ 'z' then some (c.toNat - 'a'.toNat + 10)
    else if 'A' ≤ c ∧ c ≤ 'Z' then some (c.toNat - 'A'.toNat + 10)
    else none
  digit.filter (· < radix)

/-- One more digit of a `u32`. -/
def pushDigit (radix result : Nat) (c : Char) : Except IntErrorKind Nat :=
  match toDigit c radix with
  | none => .error .invalidDigit
  | some x =>
    if result * radix + x < UInt32.size then .ok (result * radix + x) else .error .posOverflow

/-- `u32::from_str_radix`. -/
def u32FromStrRadix (src : List Char) (radix : Nat) : Except IntErrorKind UInt32 :=
  match src with
  | [] => .error .empty
  | ['+'] | ['-'] => .error .invalidDigit
  | '+' :: digits => return UInt32.ofNat (← digits.foldlM (pushDigit radix) 0)
  | digits => return UInt32.ofNat (← digits.foldlM (pushDigit radix) 0)

def parseU32BasePrefix (intStr : String) : Except IntErrorKind UInt32 :=
  match intStr.toList with
  | '0' :: 'x' :: hex => u32FromStrRadix hex 16
  | '0' :: 'b' :: bin => u32FromStrRadix bin 2
  | digits => u32FromStrRadix digits 10

def ArgType.tryFromStr (s : String) : Option ArgType :=
  match s with
  | "uint" => some .uint
  | "int" => some .int
  | "fixed" => some .fixed
  | "string" => some .string
  | "object" => some .objectId
  | "new_id" => some .newId
  | "array" => some .array
  | "fd" => some .fileDescriptor
  | _ => none

/-! ## The elements -/

/-- The body of a loop that makes something of the children of one name. It
tests for another name before. -/
def collectChild {β : Type} (passed wanted : String) (make : Element → Except String β)
    (made : List β) (childElem : Element) : Except String (List β) :=
  if childElem.name = .new passed then
    return made
  else if childElem.name = .new wanted then do
    let b ← make childElem
    return made ++ [b]
  else
    return made

def processArg (argElem : Element) : Except String Arg := do
  panicUnless (argElem.name = .new "arg") "process_arg called on non-<arg> element"
  let name ← expect (argElem.attributeValue "name") "<arg> without name=\"...\""
  let type ← expect (argElem.attributeValue "type") "<arg> without type=\"...\""
  let argType ← expect (ArgType.tryFromStr type) "<arg> with unknown type=\"...\""
  return { name, argType, interface := argElem.attributeValue "interface" }

/-- The loop of `process_procedure`. -/
def processProcedureChild : List Arg → Element → Except String (List Arg) :=
  collectChild "description" "arg" processArg

def processProcedure (procElem : Element) : Except String Procedure := do
  panicUnless (procElem.name = .new "request" ∨ procElem.name = .new "event")
    "process_procedure called on non-<request>, non-<event> element"
  let name ← expect (procElem.attributeValue "name") "<request>/<event> without name=\"...\""
  let args ← procElem.childElements.foldlM processProcedureChild []
  return { name, args }

def processEnumVariant (variantElem : Element) : Except String EnumVariant := do
  panicUnless (variantElem.name = .new "entry") "process_enum_variant called on non-<entry> element"
  let name ← expect (variantElem.attributeValue "name") "<entry> without name=\"...\""
  let valueStr ← expect (variantElem.attributeValue "value") "<entry> without value=\"...\""
  let value ← expectParsed (parseU32BasePrefix valueStr) "<entry> with non-u32 value=\"...\""
  return { name, value }

/-- The loop of `process_enum`. -/
def processEnumChild : List EnumVariant → Element → Except String (List EnumVariant) :=
  collectChild "description" "entry" processEnumVariant

def processEnum (enumElem : Element) : Except String Enum := do
  panicUnless (enumElem.name = .new "enum") "process_enum called on non-<enum> element"
  let name ← expect (enumElem.attributeValue "name") "<enum> without name=\"...\""
  let variants ← enumElem.childElements.foldlM processEnumChild []
  return { name, variants }

/-- The lists that the loop of `process_interface` fills. -/
structure InterfaceLists where
  requests : List Procedure
  events : List Procedure
  enums : List Enum

/-- The loop of `process_interface`. -/
def processInterfaceChild (lists : InterfaceLists) (childElem : Element) :
    Except String InterfaceLists :=
  if childElem.name = .new "description" then
    return lists
  else if childElem.name = .new "request" then do
    let request ← processProcedure childElem
    return { lists with requests := lists.requests ++ [request] }
  else if childElem.name = .new "event" then do
    let event ← processProcedure childElem
    return { lists with events := lists.events ++ [event] }
  else if childElem.name = .new "enum" then do
    let enumeration ← processEnum childElem
    return { lists with enums := lists.enums ++ [enumeration] }
  else
    return lists

def processInterface (interfaceElem : Element) : Except String Interface := do
  panicUnless (interfaceElem.name = .new "interface")
    "process_interface called on non-<interface> element"
  let name ← expect (interfaceElem.attributeValue "name") "<interface> is missing name=\"...\""
  let versionStr ←
    expect (interfaceElem.attributeValue "version") "<interface> is missing version=\"...\""
  let version ← expectParsed (u32FromStrRadix versionStr.toList 10)
    "<interface> has non-numeric version=\"...\""
  let lists ← interfaceElem.childElements.foldlM processInterfaceChild ⟨[], [], []⟩
  return { name, version, requests := lists.requests, events := lists.events, enums := lists.enums }

/-- The loop of `process_protocol`. -/
def processProtocolChild : List Interface → Element → Except String (List Interface) :=
  collectChild "copyright" "interface" processInterface

def processProtocol (protocolElem : Element) : Except String Protocol := do
  panicUnless (protocolElem.name = .new "protocol")
    "process_protocol called on non-<protocol> element"
  let name ← expect (protocolElem.attributeValue "name") "root <protocol> is missing name=\"...\""
  let interfaces ← protocolElem.childElements.foldlM processProtocolChild []
  return { name, interfaces }

/-! ## What is accepted -/

section Accepted

@[simp] theorem panicUnless_eq_ok {cond : Prop} [Decidable cond] {msg : String} {u : Unit} :
    panicUnless cond msg = .ok u ↔ cond := by
  unfold panicUnless
  split <;> simp_all

@[simp] theorem expect_eq_ok {α : Type} {value : Option α} {msg : String} {a : α} :
    expect value msg = .ok a ↔ value = some a := by
  cases value <;> simp [expect]

@[simp] theorem expectParsed_eq_ok {α : Type} {value : Except IntErrorKind α} {msg : String}
    {a : α} : expectParsed value msg = .ok a ↔ value = .ok a := by
  cases value <;> simp [expectParsed]

theorem processArg_ok {argElem : Element} {arg : Arg} (h : processArg argElem = .ok arg) :
    argElem.attributeValue "name" = some arg.name ∧
      (∃ type, argElem.attributeValue "type" = some type ∧
        ArgType.tryFromStr type = some arg.argType) ∧
      arg.interface = argElem.attributeValue "interface" := by
  simp only [processArg, bind_eq_ok, panicUnless_eq_ok, expect_eq_ok] at h
  obtain ⟨_, _, name, hname, type, htype, argType, hargType, hlast⟩ := h
  cases hlast
  exact ⟨hname, ⟨type, htype, hargType⟩, rfl⟩

/-- A turn of the loop collects a child of the wanted name. -/
theorem collects_collectChild {β : Type} {passed wanted : String}
    {make : Element → Except String β} (hne : passed ≠ wanted) :
    Collects (collectChild passed wanted make) id (Element.isNamed wanted) make := by
  intro made childElem made' h
  unfold collectChild at h
  split at h
  · next hname =>
    cases h
    exact .inr ⟨by simp [Element.isNamed, hname, hne], rfl⟩
  · split at h
    · next hname =>
      obtain ⟨b, hb, hlast⟩ := bind_eq_ok.mp h
      cases hlast
      exact .inl ⟨by simp [Element.isNamed, hname], b, hb, rfl⟩
    · next hname =>
      cases h
      exact .inr ⟨by simp [Element.isNamed, hname], rfl⟩

/-- What the loop makes of the children of an element. -/
theorem foldlM_collectChild {β : Type} {passed wanted : String} {make : Element → Except String β}
    {parent : Element} {made : List β} (hne : passed ≠ wanted)
    (h : parent.childElements.foldlM (collectChild passed wanted make) [] = .ok made) :
    List.Forall₂ (fun child b => make child = .ok b) (parent.childrenNamed wanted) made :=
  (collects_collectChild hne).run_nil rfl h

theorem processProcedure_ok {procElem : Element} {procedure : Procedure}
    (h : processProcedure procElem = .ok procedure) :
    procElem.attributeValue "name" = some procedure.name ∧
      List.Forall₂ (fun argElem arg => processArg argElem = .ok arg)
        (procElem.childrenNamed "arg") procedure.args := by
  simp only [processProcedure, bind_eq_ok, panicUnless_eq_ok, expect_eq_ok] at h
  obtain ⟨_, _, name, hname, args, hargs, hlast⟩ := h
  cases hlast
  exact ⟨hname, foldlM_collectChild (by decide) hargs⟩

/-- What a turn of the loop over an interface's children does. -/
theorem processInterfaceChild_cases {lists lists' : InterfaceLists} {childElem : Element}
    (h : processInterfaceChild lists childElem = .ok lists') :
    (childElem.name = .new "request" ∧ ∃ request, processProcedure childElem = .ok request ∧
      lists' = { lists with requests := lists.requests ++ [request] }) ∨
    (childElem.name = .new "event" ∧ ∃ event, processProcedure childElem = .ok event ∧
      lists' = { lists with events := lists.events ++ [event] }) ∨
    (childElem.name = .new "enum" ∧ ∃ enumeration, processEnum childElem = .ok enumeration ∧
      lists' = { lists with enums := lists.enums ++ [enumeration] }) ∨
    (childElem.name ∉ [QName.new "request", .new "event", .new "enum"] ∧ lists' = lists) := by
  unfold processInterfaceChild at h
  split at h
  · next hname =>
    cases h
    exact .inr (.inr (.inr ⟨by simp [hname], rfl⟩))
  split at h
  · next hname =>
    obtain ⟨request, hrequest, hlast⟩ := bind_eq_ok.mp h
    cases hlast
    exact .inl ⟨hname, request, hrequest, rfl⟩
  split at h
  · next hname =>
    obtain ⟨event, hevent, hlast⟩ := bind_eq_ok.mp h
    cases hlast
    exact .inr (.inl ⟨hname, event, hevent, rfl⟩)
  split at h
  · next hname =>
    obtain ⟨enumeration, henumeration, hlast⟩ := bind_eq_ok.mp h
    cases hlast
    exact .inr (.inr (.inl ⟨hname, enumeration, henumeration, rfl⟩))
  · next hrequest hevent henum =>
    cases h
    exact .inr (.inr (.inr ⟨by simp [hrequest, hevent, henum], rfl⟩))

theorem collects_requests :
    Collects processInterfaceChild InterfaceLists.requests (Element.isNamed "request")
      processProcedure := by
  intro lists childElem lists' h
  rcases processInterfaceChild_cases h with ⟨hname, request, hrequest, rfl⟩ |
    ⟨hname, _, _, rfl⟩ | ⟨hname, _, _, rfl⟩ | ⟨hname, rfl⟩
  · exact .inl ⟨by simp [Element.isNamed, hname], request, hrequest, rfl⟩
  · exact .inr ⟨by simp [Element.isNamed, hname], rfl⟩
  · exact .inr ⟨by simp [Element.isNamed, hname], rfl⟩
  · exact .inr ⟨by simp_all [Element.isNamed], rfl⟩

theorem collects_events :
    Collects processInterfaceChild InterfaceLists.events (Element.isNamed "event")
      processProcedure := by
  intro lists childElem lists' h
  rcases processInterfaceChild_cases h with ⟨hname, _, _, rfl⟩ | ⟨hname, event, hevent, rfl⟩ |
    ⟨hname, _, _, rfl⟩ | ⟨hname, rfl⟩
  · exact .inr ⟨by simp [Element.isNamed, hname], rfl⟩
  · exact .inl ⟨by simp [Element.isNamed, hname], event, hevent, rfl⟩
  · exact .inr ⟨by simp [Element.isNamed, hname], rfl⟩
  · exact .inr ⟨by simp_all [Element.isNamed], rfl⟩

theorem collects_enums :
    Collects processInterfaceChild InterfaceLists.enums (Element.isNamed "enum") processEnum := by
  intro lists childElem lists' h
  rcases processInterfaceChild_cases h with ⟨hname, _, _, rfl⟩ | ⟨hname, _, _, rfl⟩ |
    ⟨hname, enumeration, henumeration, rfl⟩ | ⟨hname, rfl⟩
  · exact .inr ⟨by simp [Element.isNamed, hname], rfl⟩
  · exact .inr ⟨by simp [Element.isNamed, hname], rfl⟩
  · exact .inl ⟨by simp [Element.isNamed, hname], enumeration, henumeration, rfl⟩
  · exact .inr ⟨by simp_all [Element.isNamed], rfl⟩

/-- Requests, events and enums each keep the order of their elements, however
these are mixed with each other and with other children. -/
theorem processInterface_ok {interfaceElem : Element} {interface : Interface}
    (h : processInterface interfaceElem = .ok interface) :
    interfaceElem.attributeValue "name" = some interface.name ∧
      (∃ versionStr, interfaceElem.attributeValue "version" = some versionStr ∧
        u32FromStrRadix versionStr.toList 10 = .ok interface.version) ∧
      List.Forall₂ (fun procElem request => processProcedure procElem = .ok request)
        (interfaceElem.childrenNamed "request") interface.requests ∧
      List.Forall₂ (fun procElem event => processProcedure procElem = .ok event)
        (interfaceElem.childrenNamed "event") interface.events ∧
      List.Forall₂ (fun enumElem enumeration => processEnum enumElem = .ok enumeration)
        (interfaceElem.childrenNamed "enum") interface.enums := by
  simp only [processInterface, bind_eq_ok, panicUnless_eq_ok, expect_eq_ok,
    expectParsed_eq_ok] at h
  obtain ⟨_, _, name, hname, versionStr, hversionStr, version, hversion, lists, hlists, hlast⟩ := h
  cases hlast
  exact ⟨hname, ⟨versionStr, hversionStr, hversion⟩, collects_requests.run_nil rfl hlists,
    collects_events.run_nil rfl hlists, collects_enums.run_nil rfl hlists⟩

end Accepted

end WhaleLand.Wlproto
