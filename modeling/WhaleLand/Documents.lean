import WhaleLand.CodeGenerator
import WhaleLand.Lib.Numeral

/-!
# The documents that are accepted

What a document says, as relations between elements and the protocol model: an
attribute holds a name, a type's keyword, or a numeral; the children of a name
stand for the members of a list, in their order. Other attributes and children
do not matter. `readProtocol_eq_ok`: these are the documents that are accepted,
and what a document says is what is made of it.
-/

namespace WhaleLand.Wlproto

open Xml Collect Checks

/-! ## Numerals -/

section Numerals

/-- The text is the digits of the value, of which there is at least one. -/
def Spells (radix : Nat) (text : List Char) (v : UInt32) : Prop :=
  text ≠ [] ∧ ∃ digits, List.Forall₂ (fun c d => toDigit c radix = some d) text digits ∧
    Numeral.value radix digits = v.toNat

/-- There may be a sign, but not a minus. -/
def IsNumeral (radix : Nat) (text : List Char) (v : UInt32) : Prop :=
  Spells radix text v ∨ ∃ digits, text = '+' :: digits ∧ Spells radix digits v

/-- A numeral in one of three bases, with its prefix. -/
def IsPrefixedNumeral (text : String) (v : UInt32) : Prop :=
  (∃ hex, text.toList = '0' :: 'x' :: hex ∧ IsNumeral 16 hex v) ∨
  (∃ bin, text.toList = '0' :: 'b' :: bin ∧ IsNumeral 2 bin v) ∨
  IsNumeral 10 text.toList v

theorem pushDigit_eq_ok {radix n m : Nat} {c : Char} :
    pushDigit radix n c = .ok m ↔
      ∃ d, toDigit c radix = some d ∧ m = n * radix + d ∧ m < UInt32.size := by
  unfold pushDigit
  cases toDigit c radix with
  | none => simp
  | some d =>
    simp only [Option.some.injEq, exists_eq_left']
    split
    · next hlt =>
      constructor
      · intro h
        cases h
        exact ⟨rfl, hlt⟩
      · rintro ⟨rfl, _⟩
        rfl
    · next hlt =>
      constructor
      · intro h
        cases h
      · rintro ⟨rfl, hm⟩
        exact absurd hm hlt

/-- The loop over the digits. -/
theorem digits_eq_ok {radix : Nat} (hradix : 0 < radix) {text : List Char} {v : UInt32} :
    (return UInt32.ofNat (← text.foldlM (pushDigit radix) 0) : Except IntErrorKind UInt32) = .ok v ↔
      ∃ digits, List.Forall₂ (fun c d => toDigit c radix = some d) text digits ∧
        Numeral.value radix digits = v.toNat := by
  have hloop : ∀ m, text.foldlM (pushDigit radix) 0 = .ok m ↔ _ := fun m =>
    Numeral.foldlM_eq_ok hradix (fun n c m => @pushDigit_eq_ok radix n m c) (by decide)
  simp only [Nat.zero_mul, Nat.zero_add] at hloop
  rw [bind_eq_ok]
  constructor
  · rintro ⟨m, hm, hv⟩
    obtain ⟨digits, hdigits, rfl, hlt⟩ := (hloop m).mp hm
    cases hv
    exact ⟨digits, hdigits, (UInt32.toNat_ofNat_of_lt' hlt).symm⟩
  · rintro ⟨digits, hdigits, hv⟩
    refine ⟨v.toNat, (hloop _).mpr ⟨digits, hdigits, hv.symm, v.toNat_lt_size⟩, ?_⟩
    rw [UInt32.ofNat_toNat]
    rfl

/-- What begins with something else is not the digits of a value. -/
theorem not_spells {radix : Nat} {c : Char} {text : List Char} {v : UInt32}
    (h : toDigit c radix = none) : ¬ Spells radix (c :: text) v := by
  rintro ⟨-, digits, hdigits, -⟩
  cases hdigits with
  | cons hd _ =>
    rw [h] at hd
    cases hd

theorem u32FromStrRadix_eq_ok {radix : Nat} (hradix : 0 < radix) {text : List Char} {v : UInt32} :
    u32FromStrRadix text radix = .ok v ↔ IsNumeral radix text v := by
  have hempty : ¬ Spells radix [] v := fun h => h.1 rfl
  have hplus : ∀ digits, ¬ Spells radix ('+' :: digits) v := fun _ => not_spells rfl
  have hminus : ∀ digits, ¬ Spells radix ('-' :: digits) v := fun _ => not_spells rfl
  unfold u32FromStrRadix IsNumeral
  split
  · simp [hempty]
  · simp [hempty, hplus]
  · simp [hminus]
  · next digits hne =>
    rw [digits_eq_ok hradix]
    constructor
    · intro h
      exact .inr ⟨digits, rfl, fun hnil => hne (by rw [hnil]), h⟩
    · rintro (h | ⟨_, hdigits, h⟩)
      · exact absurd h (hplus digits)
      · cases hdigits
        exact h.2
  · next hnil _ _ hsign =>
    rw [digits_eq_ok hradix]
    constructor
    · intro h
      exact .inl ⟨hnil, h⟩
    · rintro (h | ⟨digits, hdigits, _⟩)
      · exact h.2
      · exact absurd hdigits (hsign digits)

/-- A decimal numeral begins with neither of the other prefixes. -/
theorem not_isNumeral_ten {c : Char} {text : List Char} {v : UInt32} (h : toDigit c 10 = none) :
    ¬ IsNumeral 10 ('0' :: c :: text) v := by
  rintro (⟨-, digits, hdigits, -⟩ | ⟨_, hsign, -⟩)
  · cases hdigits with
    | cons _ hdigits =>
      cases hdigits with
      | cons hd _ =>
        rw [h] at hd
        cases hd
  · cases hsign

theorem parseU32BasePrefix_eq_ok {text : String} {v : UInt32} :
    parseU32BasePrefix text = .ok v ↔ IsPrefixedNumeral text v := by
  unfold parseU32BasePrefix IsPrefixedNumeral
  split
  · next hex htext =>
    rw [u32FromStrRadix_eq_ok (by decide), htext]
    constructor
    · intro h
      exact .inl ⟨hex, rfl, h⟩
    · rintro (⟨_, heq, h⟩ | ⟨_, heq, _⟩ | h)
      · cases heq
        exact h
      · cases heq
      · exact absurd h (not_isNumeral_ten rfl)
  · next bin htext =>
    rw [u32FromStrRadix_eq_ok (by decide), htext]
    constructor
    · intro h
      exact .inr (.inl ⟨bin, rfl, h⟩)
    · rintro (⟨_, heq, _⟩ | ⟨_, heq, h⟩ | h)
      · cases heq
      · cases heq
        exact h
      · exact absurd h (not_isNumeral_ten rfl)
  · next hhex hbin =>
    rw [u32FromStrRadix_eq_ok (by decide)]
    constructor
    · intro h
      exact .inr (.inr h)
    · rintro (⟨hex, htext, _⟩ | ⟨bin, htext, _⟩ | h)
      · exact absurd htext (hhex hex)
      · exact absurd htext (hbin bin)
      · exact h

end Numerals

/-! ## What a document says -/

/-- The value of `type="..."`. -/
def ArgType.keyword : ArgType → String
  | .uint => "uint"
  | .int => "int"
  | .fixed => "fixed"
  | .string => "string"
  | .objectId => "object"
  | .newId => "new_id"
  | .array => "array"
  | .fileDescriptor => "fd"

structure IsArg (argElem : Element) (arg : Arg) : Prop where
  tag : argElem.name = .new "arg"
  named : argElem.attributeValue "name" = some arg.name
  typed : argElem.attributeValue "type" = some arg.argType.keyword
  interface : argElem.attributeValue "interface" = arg.interface

structure IsProcedure (procElem : Element) (procedure : Procedure) : Prop where
  tag : procElem.name = .new "request" ∨ procElem.name = .new "event"
  named : procElem.attributeValue "name" = some procedure.name
  args : List.Forall₂ IsArg (procElem.childrenNamed "arg") procedure.args

structure IsEnumVariant (variantElem : Element) (variant : EnumVariant) : Prop where
  tag : variantElem.name = .new "entry"
  named : variantElem.attributeValue "name" = some variant.name
  valued : ∃ text, variantElem.attributeValue "value" = some text ∧
    IsPrefixedNumeral text variant.value

structure IsEnum (enumElem : Element) (enu : Enum) : Prop where
  tag : enumElem.name = .new "enum"
  named : enumElem.attributeValue "name" = some enu.name
  variants : List.Forall₂ IsEnumVariant (enumElem.childrenNamed "entry") enu.variants

structure IsInterface (interfaceElem : Element) (interface : Interface) : Prop where
  tag : interfaceElem.name = .new "interface"
  named : interfaceElem.attributeValue "name" = some interface.name
  versioned : ∃ text, interfaceElem.attributeValue "version" = some text ∧
    IsNumeral 10 text.toList interface.version
  requests : List.Forall₂ IsProcedure (interfaceElem.childrenNamed "request") interface.requests
  events : List.Forall₂ IsProcedure (interfaceElem.childrenNamed "event") interface.events
  enums : List.Forall₂ IsEnum (interfaceElem.childrenNamed "enum") interface.enums

structure IsProtocol (protocolElem : Element) (protocol : Protocol) : Prop where
  tag : protocolElem.name = .new "protocol"
  named : protocolElem.attributeValue "name" = some protocol.name
  interfaces :
    List.Forall₂ IsInterface (protocolElem.childrenNamed "interface") protocol.interfaces

/-- The document has one root element, and this says what the protocol is. -/
def Describes (children : List ChildOfRoot) (protocol : Protocol) : Prop :=
  ∃ rootElem, children.filterMap ChildOfRoot.element? = [rootElem] ∧ IsProtocol rootElem protocol

/-! ## What is accepted, and as what -/

section Accepted

theorem tryFromStr_eq_some {text : String} {argType : ArgType} :
    ArgType.tryFromStr text = some argType ↔ text = argType.keyword := by
  constructor
  · intro h
    unfold ArgType.tryFromStr at h
    split at h <;> cases h <;> rfl
  · rintro rfl
    cases argType <;> rfl

theorem processArg_eq_ok {argElem : Element} {arg : Arg} :
    processArg argElem = .ok arg ↔ IsArg argElem arg := by
  simp only [processArg, bind_eq_ok, panicUnless_eq_ok, expect_eq_ok, tryFromStr_eq_some]
  constructor
  · rintro ⟨_, htag, name, hname, _, htype, argType, rfl, hlast⟩
    cases hlast
    exact ⟨htag, hname, htype, rfl⟩
  · rintro ⟨htag, hnamed, htyped, hinterface⟩
    rw [hinterface]
    exact ⟨(), htag, arg.name, hnamed, _, htyped, arg.argType, rfl, rfl⟩

theorem processEnumVariant_eq_ok {variantElem : Element} {variant : EnumVariant} :
    processEnumVariant variantElem = .ok variant ↔ IsEnumVariant variantElem variant := by
  simp only [processEnumVariant, bind_eq_ok, panicUnless_eq_ok, expect_eq_ok, expectParsed_eq_ok,
    parseU32BasePrefix_eq_ok]
  constructor
  · rintro ⟨_, htag, name, hname, text, htext, value, hvalue, hlast⟩
    cases hlast
    exact ⟨htag, hname, text, htext, hvalue⟩
  · rintro ⟨htag, hnamed, text, htext, hvalue⟩
    exact ⟨(), htag, variant.name, hnamed, text, htext, variant.value, hvalue, rfl⟩

section Children

variable {β : Type} {passed wanted : String} {make : Element → Except String β}
  {R : Element → β → Prop} {parent : Element}

/-- Of each child of a name something is made, if it says what. -/
theorem exists_made {made : List β} (hmake : ∀ e b, make e = .ok b ↔ R e b)
    (h : List.Forall₂ R (parent.childrenNamed wanted) made) {childElem : Element}
    (hmem : childElem ∈ parent.childElements) (hname : childElem.name = .new wanted) :
    ∃ b, make childElem = .ok b := by
  have hchild : childElem ∈ parent.childrenNamed wanted :=
    List.mem_filter.mpr ⟨hmem, beq_iff_eq.mpr hname⟩
  obtain ⟨b, hb⟩ := exists_of_forall₂ h hchild
  exact ⟨b, (hmake childElem b).mpr hb⟩

/-- The loop over the children of one name. -/
theorem foldlM_collectChild_eq_ok (hne : passed ≠ wanted) (hmake : ∀ e b, make e = .ok b ↔ R e b)
    {made : List β} :
    parent.childElements.foldlM (collectChild passed wanted make) [] = .ok made ↔
      List.Forall₂ R (parent.childrenNamed wanted) made := by
  have hR : R = fun e b => make e = .ok b := by
    funext e b
    exact propext (hmake e b).symm
  constructor
  · intro h
    rw [hR]
    exact foldlM_collectChild hne h
  · intro h
    have hturn : ∀ childElem ∈ parent.childElements, ∀ made : List β,
        ∃ made', collectChild passed wanted make made childElem = .ok made' := by
      intro childElem hmem made
      unfold collectChild
      split
      · exact ⟨made, rfl⟩
      split
      · next hname =>
        obtain ⟨b, hb⟩ := exists_made hmake h hmem hname
        exact ⟨made ++ [b], bind_eq_ok.mpr ⟨b, hb, rfl⟩⟩
      · exact ⟨made, rfl⟩
    obtain ⟨made', hmade'⟩ := exists_foldlM_ok hturn []
    rw [hR] at h
    rw [hmade', eq_of_forall₂_ok h (foldlM_collectChild hne hmade')]

end Children

theorem processProcedure_eq_ok {procElem : Element} {procedure : Procedure} :
    processProcedure procElem = .ok procedure ↔ IsProcedure procElem procedure := by
  simp only [processProcedure, bind_eq_ok, panicUnless_eq_ok, expect_eq_ok, processProcedureChild,
    foldlM_collectChild_eq_ok (show "description" ≠ "arg" by decide) fun _ _ => processArg_eq_ok]
  constructor
  · rintro ⟨_, htag, name, hname, args, hargs, hlast⟩
    cases hlast
    exact ⟨htag, hname, hargs⟩
  · rintro ⟨htag, hnamed, hargs⟩
    exact ⟨(), htag, procedure.name, hnamed, procedure.args, hargs, rfl⟩

theorem processEnum_eq_ok {enumElem : Element} {enu : Enum} :
    processEnum enumElem = .ok enu ↔ IsEnum enumElem enu := by
  simp only [processEnum, bind_eq_ok, panicUnless_eq_ok, expect_eq_ok, processEnumChild,
    foldlM_collectChild_eq_ok (show "description" ≠ "entry" by decide)
      fun _ _ => processEnumVariant_eq_ok]
  constructor
  · rintro ⟨_, htag, name, hname, variants, hvariants, hlast⟩
    cases hlast
    exact ⟨htag, hname, hvariants⟩
  · rintro ⟨htag, hnamed, hvariants⟩
    exact ⟨(), htag, enu.name, hnamed, enu.variants, hvariants, rfl⟩

/-- The loop over the children of an interface returns if each of them says
what it is. -/
theorem exists_interfaceLists {interfaceElem : Element} {requests events : List Procedure}
    {enums : List Enum}
    (hrequests : List.Forall₂ IsProcedure (interfaceElem.childrenNamed "request") requests)
    (hevents : List.Forall₂ IsProcedure (interfaceElem.childrenNamed "event") events)
    (henums : List.Forall₂ IsEnum (interfaceElem.childrenNamed "enum") enums) :
    ∃ lists, interfaceElem.childElements.foldlM processInterfaceChild ⟨[], [], []⟩ = .ok lists := by
  refine exists_foldlM_ok (fun childElem hmem lists => ?_) _
  unfold processInterfaceChild
  split
  · exact ⟨lists, rfl⟩
  split
  · next hname =>
    obtain ⟨request, h⟩ := exists_made (fun _ _ => processProcedure_eq_ok) hrequests hmem hname
    exact ⟨_, bind_eq_ok.mpr ⟨request, h, rfl⟩⟩
  split
  · next hname =>
    obtain ⟨event, h⟩ := exists_made (fun _ _ => processProcedure_eq_ok) hevents hmem hname
    exact ⟨_, bind_eq_ok.mpr ⟨event, h, rfl⟩⟩
  split
  · next hname =>
    obtain ⟨enu, h⟩ := exists_made (fun _ _ => processEnum_eq_ok) henums hmem hname
    exact ⟨_, bind_eq_ok.mpr ⟨enu, h, rfl⟩⟩
  · exact ⟨lists, rfl⟩

theorem processInterface_eq_ok {interfaceElem : Element} {interface : Interface} :
    processInterface interfaceElem = .ok interface ↔ IsInterface interfaceElem interface := by
  constructor
  · intro h
    have htag : interfaceElem.name = .new "interface" := by
      obtain ⟨_, htag, _⟩ := bind_eq_ok.mp h
      exact panicUnless_eq_ok.mp htag
    obtain ⟨hname, ⟨text, htext, hversion⟩, hrequests, hevents, henums⟩ := processInterface_ok h
    simp only [processProcedure_eq_ok] at hrequests hevents
    simp only [processEnum_eq_ok] at henums
    exact ⟨htag, hname, ⟨text, htext, (u32FromStrRadix_eq_ok (by decide)).mp hversion⟩,
      hrequests, hevents, henums⟩
  · rintro ⟨htag, hnamed, ⟨text, htext, hversion⟩, hrequests, hevents, henums⟩
    obtain ⟨lists, hlists⟩ := exists_interfaceLists hrequests hevents henums
    -- what the loop has collected is what the children say
    have hrequests := eq_of_forall₂_ok (collects_requests.run_nil rfl hlists)
      (hrequests.imp fun _ _ => processProcedure_eq_ok.mpr)
    have hevents := eq_of_forall₂_ok (collects_events.run_nil rfl hlists)
      (hevents.imp fun _ _ => processProcedure_eq_ok.mpr)
    have henums := eq_of_forall₂_ok (collects_enums.run_nil rfl hlists)
      (henums.imp fun _ _ => processEnum_eq_ok.mpr)
    simp only [processInterface, bind_eq_ok, panicUnless_eq_ok, expect_eq_ok, expectParsed_eq_ok]
    refine ⟨(), htag, interface.name, hnamed, text, htext, interface.version,
      (u32FromStrRadix_eq_ok (by decide)).mpr hversion, lists, hlists, ?_⟩
    rw [hrequests, hevents, henums]
    rfl

theorem processProtocol_eq_ok {protocolElem : Element} {protocol : Protocol} :
    processProtocol protocolElem = .ok protocol ↔ IsProtocol protocolElem protocol := by
  simp only [processProtocol, bind_eq_ok, panicUnless_eq_ok, expect_eq_ok, processProtocolChild,
    foldlM_collectChild_eq_ok (show "copyright" ≠ "interface" by decide)
      fun _ _ => processInterface_eq_ok]
  constructor
  · rintro ⟨_, htag, name, hname, interfaces, hinterfaces, hlast⟩
    cases hlast
    exact ⟨htag, hname, hinterfaces⟩
  · rintro ⟨htag, hnamed, hinterfaces⟩
    exact ⟨(), htag, protocol.name, hnamed, protocol.interfaces, hinterfaces, rfl⟩

theorem rootElement_eq_ok {ext : Externals} {children : List ChildOfRoot} {rootElem : Element} :
    rootElement ext children = .ok rootElem ↔
      children.filterMap ChildOfRoot.element? = [rootElem] := by
  unfold rootElement
  rcases children.filterMap ChildOfRoot.element? with _ | ⟨first, _ | ⟨second, rest⟩⟩ <;>
    simp [single]

theorem readProtocol_eq_ok {ext : Externals} {children : List ChildOfRoot} {protocol : Protocol} :
    readProtocol ext children = .ok protocol ↔ Describes children protocol := by
  simp only [readProtocol, bind_eq_ok, panicUnless_eq_ok, rootElement_eq_ok, processProtocol_eq_ok]
  constructor
  · rintro ⟨rootElem, hroot, _, _, h⟩
    exact ⟨rootElem, hroot, h⟩
  · rintro ⟨rootElem, hroot, h⟩
    exact ⟨rootElem, hroot, (), h.tag, h⟩

end Accepted

end WhaleLand.Wlproto
