import WhaleLand.Documents
import WhaleLand.WireFormat

/-!
# What the code generator does with a document

For a document that says what a protocol is, the rest of the run makes
identifiers, so what is left to ask is which names of a protocol can be made
into them. The generator puts the names of procedures and enums behind parts of
its own, so they can begin with a digit (`idents_iff`). With this,
`prints_iff`: the documents for which code is printed, and the code.
`panics_iff`: all other documents, and the text of the panic.
-/

namespace WhaleLand.Wlproto

open Xml Collect Checks

/-! ## Identifiers -/

/-- Every character can stand in an identifier, after the first. -/
def IsTail (continues : Char → Bool) (name : String) : Prop :=
  ∀ c ∈ name.toList, continues c = true

/-- What is documented of identifiers: a first character that starts one, and
characters that continue it. Letters and underscores start identifiers, and
digits too continue them. -/
structure Externals.Lexical (ext : Externals) (starts continues : Char → Bool) : Prop where
  isIdent_iff : ∀ name, ext.isIdent name = true ↔
    ∃ c rest, name.toList = c :: rest ∧ starts c = true ∧ ∀ d ∈ rest, continues d = true
  starts_of : ∀ c : Char, c.isAlpha = true ∨ c = '_' → starts c = true
  continues_of : ∀ c : Char, c.isAlphanum = true ∨ c = '_' → continues c = true

section Nameable

variable (ext : Externals) (continues : Char → Bool)

structure Procedure.Nameable (procedure : Procedure) : Prop where
  named : IsTail continues procedure.name
  args : ∀ arg ∈ procedure.args, ext.isIdent arg.name = true

/-- A name that begins with a digit has a prefix before it. -/
def EnumVariant.Nameable (variant : EnumVariant) : Prop :=
  if startsWithDigit variant.name then IsTail continues (ext.toUppercase variant.name)
  else ext.isIdent (ext.toUppercase variant.name) = true

structure Enum.Nameable (enu : Enum) : Prop where
  named : IsTail continues enu.name
  variants : ∀ variant ∈ enu.variants, variant.Nameable ext continues

/-- The names of an interface that make identifiers. An interface without a name
has items with names that begin with an underscore. -/
structure Interface.Nameable (interface : Interface) : Prop where
  named : interface.requests ≠ [] ∨ interface.events ≠ [] ∨ interface.enums ≠ [] →
    interface.name = "" ∨ ext.isIdent interface.name = true
  requests : ∀ req ∈ interface.requests, req.Nameable ext continues
  events : ∀ event ∈ interface.events, event.Nameable ext continues
  enums : ∀ enu ∈ interface.enums, enu.Nameable ext continues

end Nameable

section Identifiers

variable {ext : Externals} {starts continues : Char → Bool}

theorem isTail_append {a b : String} :
    IsTail continues (a ++ b) ↔ IsTail continues a ∧ IsTail continues b := by
  simp only [IsTail, String.toList_append, List.mem_append]
  constructor
  · intro h
    exact ⟨fun c hc => h c (.inl hc), fun c hc => h c (.inr hc)⟩
  · rintro ⟨ha, hb⟩ c (hc | hc)
    · exact ha c hc
    · exact hb c hc

/-- A part of a name that is the generator's own. -/
def isOwnPart (part : String) : Bool := part.toList.all fun c => c.isAlphanum || c == '_'

theorem Externals.Lexical.isTail (h : ext.Lexical starts continues) {part : String}
    (hpart : isOwnPart part = true) : IsTail continues part := by
  intro c hc
  have hown := List.all_eq_true.mp hpart c hc
  exact h.continues_of c (by simpa using hown)

theorem Externals.Lexical.isIdent_append (h : ext.Lexical starts continues) {a b : String} :
    ext.isIdent (a ++ b) = true ↔
      a = "" ∧ ext.isIdent b = true ∨ ext.isIdent a = true ∧ IsTail continues b := by
  rw [h.isIdent_iff, h.isIdent_iff, h.isIdent_iff, String.toList_append, ← String.toList_eq_nil_iff]
  unfold IsTail
  rcases a.toList with _ | ⟨c, cs⟩
  · simp
  · simp only [List.cons_append, List.cons.injEq, reduceCtorEq, false_and, false_or]
    constructor
    · rintro ⟨_, _, ⟨rfl, rfl⟩, hstarts, hrest⟩
      exact ⟨⟨_, _, ⟨rfl, rfl⟩, hstarts, fun d hd => hrest d (List.mem_append_left _ hd)⟩,
        fun d hd => hrest d (List.mem_append_right _ hd)⟩
    · rintro ⟨⟨_, _, ⟨rfl, rfl⟩, hstarts, hrest⟩, hb⟩
      refine ⟨_, _, ⟨rfl, rfl⟩, hstarts, fun d hd => ?_⟩
      rcases List.mem_append.mp hd with hd | hd
      · exact hrest d hd
      · exact hb d hd

/-- A name that begins with a part of the generator's own. -/
theorem Externals.Lexical.isIdent_own (h : ext.Lexical starts continues) {part name : String}
    (hhead : ∃ c rest, part.toList = c :: rest ∧ (c.isAlpha = true ∨ c = '_'))
    (hpart : isOwnPart part = true) :
    ext.isIdent (part ++ name) = true ↔ IsTail continues name := by
  obtain ⟨c, rest, htext, hc⟩ := hhead
  have hident : ext.isIdent part = true := by
    refine (h.isIdent_iff part).mpr ⟨c, rest, htext, h.starts_of c hc, fun d hd => ?_⟩
    exact h.isTail hpart d (htext ▸ List.mem_cons_of_mem c hd)
  have hne : part ≠ "" := by
    rintro rfl
    cases htext
  rw [h.isIdent_append]
  simp [hne, hident]

theorem isAlphanum_of_mem_toString {n : Nat} {c : Char} (h : c ∈ (toString n).toList) :
    c.isAlphanum = true := by
  rw [Nat.toString_eq_repr, Nat.toList_repr] at h
  rw [Char.isAlphanum, Nat.isDigit_of_mem_toDigits (by decide) (by decide) h, Bool.or_true]

/-- An item of an interface. -/
theorem Externals.Lexical.isIdent_nameVer (h : ext.Lexical starts continues)
    {interface : Interface} {name : String} :
    ext.isIdent (interface.nameVer ++ name) = true ↔
      (interface.name = "" ∨ ext.isIdent interface.name = true) ∧ IsTail continues name := by
  have hversion : IsTail continues (toString interface.version.toNat) :=
    fun c hc => h.continues_of c (.inl (isAlphanum_of_mem_toString hc))
  have hv : IsTail continues "_v" := h.isTail rfl
  unfold Interface.nameVer
  rw [String.append_assoc, String.append_assoc, h.isIdent_append,
    h.isIdent_own ⟨'_', ['v'], rfl, .inr rfl⟩ rfl, isTail_append, isTail_append]
  simp only [isTail_append, hversion, hv, true_and, or_and_right]

theorem procedureIdents_iff {name : String} {procedure : Procedure}
    (hname : ext.isIdent name = true ↔ IsTail continues procedure.name) :
    (∀ ident ∈ procedureIdents name procedure, ext.isIdent ident = true) ↔
      procedure.Nameable ext continues := by
  simp only [procedureIdents, List.forall_mem_cons, List.forall_mem_map, hname]
  exact ⟨fun ⟨hnamed, hargs⟩ => ⟨hnamed, hargs⟩, fun ⟨hnamed, hargs⟩ => ⟨hnamed, hargs⟩⟩

theorem constName_iff (h : ext.Lexical starts continues) {variant : EnumVariant} :
    ext.isIdent (variant.constName ext) = true ↔ variant.Nameable ext continues := by
  unfold EnumVariant.constName EnumVariant.Nameable
  split
  · exact h.isIdent_own ⟨'V', _, rfl, .inl rfl⟩ rfl
  · exact Iff.rfl

/-- The names of the interface's items begin as identifiers do. -/
def Interface.Begins (ext : Externals) (interface : Interface) : Prop :=
  interface.name = "" ∨ ext.isIdent interface.name = true

/-- The identifiers of the proxy or the event handler: that of the item, and
those of its functions. -/
theorem itemIdents_iff (h : ext.Lexical starts continues) (interface : Interface)
    (procedures : List Procedure) {suffix own : String} (hsuffix : IsTail continues suffix)
    (hown : ∀ name, ext.isIdent (own ++ name) = true ↔ IsTail continues name) :
    (∀ ident ∈ (if procedures = [] then [] else (interface.nameVer ++ suffix) ::
        procedures.flatMap fun procedure => procedureIdents (own ++ procedure.name) procedure),
      ext.isIdent ident = true) ↔
      (procedures ≠ [] → interface.Begins ext) ∧
        ∀ procedure ∈ procedures, procedure.Nameable ext continues := by
  have hprocedure : ∀ procedure : Procedure,
      (∀ ident ∈ procedureIdents (own ++ procedure.name) procedure, ext.isIdent ident = true) ↔
        procedure.Nameable ext continues := fun procedure => procedureIdents_iff (hown _)
  unfold Interface.Begins
  split
  · next hnil => simp [hnil]
  · next hne =>
    simp only [List.forall_mem_cons, List.forall_mem_flatMap, hprocedure, h.isIdent_nameVer,
      hsuffix, and_true, ne_eq, hne, not_false_eq_true, forall_const]

theorem enumStructName_iff (h : ext.Lexical starts continues) {interface : Interface}
    {name suffix : String} (hsuffix : IsTail continues suffix) :
    ext.isIdent (interface.nameVer ++ "_" ++ name ++ suffix) = true ↔
      interface.Begins ext ∧ IsTail continues name := by
  have htail : IsTail continues "_" := h.isTail rfl
  rw [String.append_assoc, String.append_assoc, h.isIdent_nameVer]
  simp only [isTail_append, htail, hsuffix, true_and, and_true]
  exact Iff.rfl

theorem enumIdents_iff (h : ext.Lexical starts continues) (interface : Interface) :
    (∀ ident ∈ interface.enumIdents ext, ext.isIdent ident = true) ↔
      (interface.enums ≠ [] → interface.Begins ext) ∧
        ∀ enu ∈ interface.enums, enu.Nameable ext continues := by
  have henum : ∀ enu : Enum,
      (∀ ident ∈ enu.nameU32 interface.nameVer :: enu.nameI32 interface.nameVer ::
        enu.variants.map (EnumVariant.constName ext), ext.isIdent ident = true) ↔
        interface.Begins ext ∧ enu.Nameable ext continues := by
    intro enu
    rw [List.forall_mem_cons, List.forall_mem_cons, List.forall_mem_map, Enum.nameU32,
      Enum.nameI32, enumStructName_iff h (h.isTail rfl),
      enumStructName_iff h (h.isTail rfl)]
    simp only [constName_iff h]
    constructor
    · rintro ⟨⟨hbegins, hnamed⟩, -, hvariants⟩
      exact ⟨hbegins, hnamed, hvariants⟩
    · rintro ⟨hbegins, hnamed, hvariants⟩
      exact ⟨⟨hbegins, hnamed⟩, ⟨hbegins, hnamed⟩, hvariants⟩
  unfold Interface.enumIdents
  simp only [List.forall_mem_flatMap, henum]
  constructor
  · intro hall
    refine ⟨fun hne => ?_, fun enu hmem => (hall enu hmem).2⟩
    obtain ⟨enu, hmem⟩ := List.exists_mem_of_ne_nil _ hne
    exact (hall enu hmem).1
  · rintro ⟨hbegins, hall⟩ enu hmem
    exact ⟨hbegins (List.ne_nil_of_mem hmem), hall enu hmem⟩

/-- The argument structs ask for nothing that the other items do not ask for. -/
theorem structIdents_of_nameable (h : ext.Lexical starts continues) {interface : Interface}
    {kind : String} {procedures : List Procedure} (hkind : IsTail continues kind)
    (hbegins : procedures ≠ [] → interface.Begins ext)
    (hnameable : ∀ procedure ∈ procedures, procedure.Nameable ext continues) :
    ∀ ident ∈ procedures.flatMap fun procedure =>
        procedureIdents (argsStructName interface.nameVer kind procedure) procedure,
      ext.isIdent ident = true := by
  intro ident hident
  obtain ⟨procedure, hmem, hident⟩ := List.mem_flatMap.mp hident
  have hprocedure := hnameable procedure hmem
  have hunderscore : IsTail continues "_" := h.isTail rfl
  have hargs : IsTail continues "_args" := h.isTail rfl
  have hstruct : ext.isIdent (argsStructName interface.nameVer kind procedure) = true := by
    unfold argsStructName
    simp only [String.append_assoc, h.isIdent_nameVer, isTail_append]
    exact ⟨hbegins (List.ne_nil_of_mem hmem), hunderscore, hkind, hunderscore, hprocedure.named,
      hargs⟩
  rcases List.mem_cons.mp hident with rfl | hident
  · exact hstruct
  · obtain ⟨arg, harg, rfl⟩ := List.mem_map.mp hident
    exact hprocedure.args arg harg

/-- All the names that are made into identifiers can be. -/
theorem idents_iff (h : ext.Lexical starts continues) (interface : Interface) :
    (∀ ident ∈ interface.idents ext, ext.isIdent ident = true) ↔
      interface.Nameable ext continues := by
  have hhandle : ∀ name, ext.isIdent ("handle_" ++ name) = true ↔ IsTail continues name :=
    fun _ => h.isIdent_own ⟨'h', _, rfl, .inl rfl⟩ rfl
  have hsend : ∀ name, ext.isIdent ("send_" ++ name) = true ↔ IsTail continues name :=
    fun _ => h.isIdent_own ⟨'s', _, rfl, .inl rfl⟩ rfl
  have hhandler : IsTail continues "_event_handler" := h.isTail rfl
  have hproxy : IsTail continues "_request_proxy" := h.isTail rfl
  unfold Interface.idents Interface.eventIdents Interface.requestIdents
  rw [List.forall_mem_append, List.forall_mem_append, List.forall_mem_append,
    itemIdents_iff h interface _ hhandler hhandle, itemIdents_iff h interface _ hproxy hsend,
    enumIdents_iff h]
  constructor
  · rintro ⟨⟨⟨⟨hbe, hevents⟩, hbr, hrequests⟩, hbn, henums⟩, -⟩
    refine ⟨?_, hrequests, hevents, henums⟩
    rintro (hne | hne | hne)
    · exact hbr hne
    · exact hbe hne
    · exact hbn hne
  · rintro ⟨hnamed, hrequests, hevents, henums⟩
    have hbr : interface.requests ≠ [] → interface.Begins ext := fun hne => hnamed (.inl hne)
    have hbe : interface.events ≠ [] → interface.Begins ext := fun hne => hnamed (.inr (.inl hne))
    have hbn : interface.enums ≠ [] → interface.Begins ext := fun hne => hnamed (.inr (.inr hne))
    refine ⟨⟨⟨⟨hbe, hevents⟩, hbr, hrequests⟩, hbn, henums⟩, ?_⟩
    unfold Interface.structIdents
    rw [List.forall_mem_append]
    exact ⟨structIdents_of_nameable h (h.isTail rfl) hbr hrequests,
      structIdents_of_nameable h (h.isTail rfl) hbe hevents⟩

end Identifiers

/-! ## The whole run -/

section Run

variable {ext : Externals} {starts continues : Char → Bool}

/-- All the names of a protocol make identifiers. -/
def Protocol.Nameable (ext : Externals) (continues : Char → Bool) (protocol : Protocol) : Prop :=
  ∀ interface ∈ protocol.interfaces, interface.Nameable ext continues

/-- The code of a protocol. -/
def Protocol.code (ext : Externals) (protocol : Protocol) : List InterfaceCode :=
  protocol.interfaces.map (Interface.code ext)

theorem protocolToCode_eq_ok (h : ext.Lexical starts continues) {protocol : Protocol}
    {code : List InterfaceCode} :
    protocolToCode ext protocol = .ok code ↔
      protocol.Nameable ext continues ∧ code = protocol.code ext := by
  have hreturns : (∃ code, protocolToCode ext protocol = .ok code) ↔
      protocol.Nameable ext continues := by
    rw [(follows_protocolToCode protocol).returns_iff]
    unfold Protocol.Nameable Protocol.idents
    simp only [List.forall_mem_map, List.forall_mem_flatMap, identCheck, ← idents_iff h]
  constructor
  · intro hcode
    exact ⟨hreturns.mp ⟨code, hcode⟩, protocolToCode_ok hcode⟩
  · rintro ⟨hnameable, rfl⟩
    obtain ⟨code, hcode⟩ := hreturns.mpr hnameable
    rw [hcode, protocolToCode_ok hcode]
    rfl

/-- Code is printed for the documents that say what a protocol is, if its names
make identifiers; it is the code of this protocol. -/
theorem prints_iff (h : ext.Lexical starts continues) (children : List ChildOfRoot)
    (code : List InterfaceCode) :
    main ext children = .ok code ↔
      ∃ protocol, Describes children protocol ∧ protocol.Nameable ext continues ∧
        code = protocol.code ext := by
  simp only [main, bind_eq_ok, readProtocol_eq_ok, protocolToCode_eq_ok h]

/-- The panic is that of the first check that fails, of the checks of the
document and then of those of the identifiers. -/
theorem panics_iff (ext : Externals) (children : List ChildOfRoot) (msg : String) :
    main ext children = .error msg ↔
      firstFailure (documentChecks ext children) = some msg ∨
      ∃ protocol, Describes children protocol ∧
        firstFailure ((protocol.idents ext).map (identCheck ext)) = some msg := by
  rw [← (follows_readProtocol children).error_iff]
  simp only [← (follows_protocolToCode _).error_iff, ← @readProtocol_eq_ok ext]
  unfold main
  cases readProtocol ext children with
  | error e => simp [bind, Except.bind]
  | ok protocol => simp [bind, Except.bind]

end Run

/-! ## The constants of the enums -/

section Constants

/-- The two constants are the same word on the wire: it is pushed for either,
and where one is read the other could have been. -/
def SameWord (u : UInt32) (i : Int32) : Prop :=
  ∀ (t : Target) (packet : Packet), packet.pushUint t u = packet.pushInt t i ∧
    ∀ s s', (PacketReader.readUint t packet).run s = .ok u s' ↔
      (PacketReader.readInt t packet).run s = .ok i s'

theorem sameWord_toInt32 (u : UInt32) : SameWord u u.toInt32 := by
  intro t packet
  constructor
  · unfold Packet.pushUint Packet.pushInt
    rw [UInt32.toUInt32_toInt32]
  · intro s s'
    rw [readInt_eq, run_map_eq_ok]
    constructor
    · intro h
      exact ⟨u, h, rfl⟩
    · rintro ⟨u', h, hu⟩
      rw [← UInt32.toUInt32_toInt32 u, ← hu, UInt32.toUInt32_toInt32]
      exact h

/-- Every `<entry>` of the document has a constant in each of the two structs of
its `<enum>`, of one name and with the value that the numeral stands for; both are
the same word on the wire. -/
def EntriesKept (children : List ChildOfRoot) (code : List InterfaceCode) : Prop :=
  ∃ rootElem, children.filterMap ChildOfRoot.element? = [rootElem] ∧
    ∀ (i j k : Nat) (interfaceElem enumElem variantElem : Element),
      (rootElem.childrenNamed "interface")[i]? = some interfaceElem →
      (interfaceElem.childrenNamed "enum")[j]? = some enumElem →
      (enumElem.childrenNamed "entry")[k]? = some variantElem →
      ∃ interfaceCode enumCode name u int text,
        code[i]? = some interfaceCode ∧ interfaceCode.enums[j]? = some enumCode ∧
        enumCode.variantsU32[k]? = some (name, u) ∧
        enumCode.variantsI32[k]? = some (name, int) ∧
        variantElem.attributeValue "value" = some text ∧ IsPrefixedNumeral text u ∧
        SameWord u int

/-- The code that is printed for a document keeps its entries. -/
theorem entries_kept (ext : Externals) (children : List ChildOfRoot) (code : List InterfaceCode)
    (h : main ext children = .ok code) : EntriesKept children code := by
  obtain ⟨protocol, hread, hcode⟩ := bind_eq_ok.mp h
  obtain ⟨rootElem, hroot, hprotocol⟩ := readProtocol_eq_ok.mp hread
  refine ⟨rootElem, hroot, fun i j k interfaceElem enumElem variantElem hi hj hk => ?_⟩
  obtain ⟨interface, hinterface, hisInterface⟩ :=
    exists_getElem?_of_forall₂ hprotocol.interfaces hi
  obtain ⟨enu, henu, hisEnum⟩ := exists_getElem?_of_forall₂ hisInterface.enums hj
  obtain ⟨variant, hvariant, hisVariant⟩ := exists_getElem?_of_forall₂ hisEnum.variants hk
  obtain ⟨text, htext, hnumeral⟩ := hisVariant.valued
  refine ⟨interface.code ext, enu.code ext interface.nameVer, variant.constName ext, variant.value,
    variant.value.toInt32, text, ?_, ?_, ?_, ?_, htext, hnumeral, sameWord_toInt32 _⟩
  · rw [protocolToCode_ok hcode, List.getElem?_map, hinterface]
    rfl
  · rw [Interface.code, List.getElem?_map, henu]
    rfl
  · rw [Enum.code, List.getElem?_map, hvariant]
    rfl
  · rw [Enum.code, List.getElem?_map, hvariant]
    rfl

end Constants

/-! ## A run -/

section Output

/-- Identifiers of ASCII characters. -/
def asciiExternals : Externals where
  debugElement _ := "Element"
  isIdent name :=
    match name.toList with
    | [] => false
    | c :: rest => (c.isAlpha || c == '_') && rest.all fun d => d.isAlphanum || d == '_'
  identPanic name := name ++ " is not a valid Ident"
  toUppercase name := String.ofList (name.toList.map Char.toUpper)

theorem asciiExternals_lexical :
    asciiExternals.Lexical (fun c => c.isAlpha || c == '_')
      (fun c => c.isAlphanum || c == '_') where
  isIdent_iff name := by
    dsimp only [asciiExternals]
    rcases name.toList with _ | ⟨c, rest⟩ <;> simp
  starts_of c h := by simpa using h
  continues_of c h := by simpa using h

/-- An element that has a name and other attributes. -/
def element (tag name : String) (attributes : List (String × String)) (children : List Element) :
    Element :=
  .mk (.new tag) ((("name", name) :: attributes).map fun attr => (.new attr.1, attr.2))
    (children.map .element)

/-- A document with an event and an enum. The description and the comment do not
matter. -/
def outputDocument : List ChildOfRoot :=
  [.comment "outputs",
    .element (element "protocol" "output" []
      [element "interface" "wl_output" [("version", "4")]
        [.mk (.new "description") [] [.text "a screen"],
          element "enum" "transform" []
            [element "entry" "90" [("value", "1")] [],
              element "entry" "flipped" [("value", "0x80000000")] []],
          element "event" "scale" []
            [element "arg" "factor" [("type", "int")] []]]])]

def outputProtocol : Protocol where
  name := "output"
  interfaces := [{
    name := "wl_output"
    version := 4
    requests := []
    events := [⟨"scale", [⟨"factor", .int, none⟩]⟩]
    enums := [⟨"transform", [⟨"90", 1⟩, ⟨"flipped", 0x80000000⟩]⟩] }]

theorem describes_output : Describes outputDocument outputProtocol :=
  (@readProtocol_eq_ok asciiExternals _ _).mp rfl

theorem nameable_output :
    outputProtocol.Nameable asciiExternals fun c => c.isAlphanum || c == '_' := by
  intro interface hmem
  refine (idents_iff asciiExternals_lexical interface).mp ?_
  rw [List.mem_singleton.mp hmem]
  decide

theorem prints_iff_output :
    main asciiExternals outputDocument = .ok (outputProtocol.code asciiExternals) :=
  (prints_iff asciiExternals_lexical outputDocument _).mpr
    ⟨outputProtocol, describes_output, nameable_output, rfl⟩

theorem entries_kept_output :
    EntriesKept outputDocument (outputProtocol.code asciiExternals) :=
  entries_kept asciiExternals outputDocument _ rfl

end Output

end WhaleLand.Wlproto
