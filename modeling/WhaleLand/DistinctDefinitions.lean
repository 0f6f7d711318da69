import WhaleLand.GeneratorRun

/-!
# Definitions of the same name

The printed code defines items in the file, functions in the event handler traits
and the proxies, fields in the argument structs, and constants in the structs of
the enums. Where two definitions of one scope have the same name, the code does
not compile. `distinctDefinitions_iff`: if no interface's items can be taken for
another's, it is enough that the members of each interface are told apart by
their names, but for one name: an event `event` gives its trait a second
`handle_event`.
-/

namespace WhaleLand.Wlproto

/-! ## The scopes of the code -/

namespace InterfaceCode

variable (code : InterfaceCode)

def itemNames : List String :=
  code.eventHandler.toList.map EventHandlerTrait.name ++
  code.requestProxy.toList.map RequestProxy.name ++
  code.argsStructs.map ArgsStruct.name ++
  code.enums.flatMap fun enu => [enu.enumNameU32, enu.enumNameI32]

/-- The names that are defined in each scope inside the items. -/
def memberNames : List (List String) :=
  (code.eventHandler.toList.map fun handler =>
    handler.handleFuncPrototypes.map HandleFuncPrototype.handleFuncName ++
      ["unknown_event", "handle_event"]) ++
  (code.requestProxy.toList.map fun proxy => "new" :: proxy.proxyFuncs.map ProxyFunc.reqName) ++
  (code.argsStructs.map fun struct => struct.fields.map Prod.fst) ++
  code.enums.flatMap fun enu => [enu.variantsU32.map Prod.fst, enu.variantsI32.map Prod.fst]

end InterfaceCode

/-- No scope of the file has two definitions of one name. -/
structure DistinctDefinitions (code : List InterfaceCode) : Prop where
  items : (code.flatMap InterfaceCode.itemNames).Nodup
  members : ∀ interfaceCode ∈ code, ∀ names ∈ interfaceCode.memberNames, names.Nodup

/-- The members of an interface are told apart by their names. -/
structure Interface.ToldApart (ext : Externals) (interface : Interface) : Prop where
  requests : (interface.requests.map Procedure.name).Nodup
  events : (interface.events.map Procedure.name).Nodup
  notEvent : "event" ∉ interface.events.map Procedure.name
  enums : (interface.enums.map Enum.name).Nodup
  args : ∀ procedure ∈ interface.requests ++ interface.events,
    (procedure.args.map Arg.name).Nodup
  constants : ∀ enu ∈ interface.enums, (enu.variants.map (EnumVariant.constName ext)).Nodup

/-- Neither interface has items that begin as those of the other. -/
def Interface.Apart (a b : Interface) : Prop :=
  ¬ (a.nameVer ++ "_").toList <+: (b.nameVer ++ "_").toList ∧
    ¬ (b.nameVer ++ "_").toList <+: (a.nameVer ++ "_").toList

instance (a b : Interface) : Decidable (a.Apart b) := inferInstanceAs (Decidable (_ ∧ _))

/-! ## The items -/

section Items

/-- An item of an interface, without the interface's name. -/
inductive Item
  | eventHandler
  | requestProxy
  | requestArgs (name : String)
  | eventArgs (name : String)
  | enumU32 (name : String)
  | enumI32 (name : String)
deriving DecidableEq, Repr

def Item.text (nameVer : String) : Item → String
  | .eventHandler => nameVer ++ "_event_handler"
  | .requestProxy => nameVer ++ "_request_proxy"
  | .requestArgs name => nameVer ++ "_" ++ "request" ++ "_" ++ name ++ "_args"
  | .eventArgs name => nameVer ++ "_" ++ "event" ++ "_" ++ name ++ "_args"
  | .enumU32 name => nameVer ++ "_" ++ name ++ "_u32"
  | .enumI32 name => nameVer ++ "_" ++ name ++ "_i32"

/-- The end of the text tells the kinds of items apart, but for the two kinds of
argument structs, which differ in the middle. -/
theorem Item.text_injective (nameVer : String) : Function.Injective (Item.text nameVer) := by
  intro a b h
  have hend := congrArg (fun s : String => s.toList.reverse) h
  cases a <;> cases b <;> simp [Item.text, String.append_assoc] at h hend ⊢
  case requestArgs.requestArgs | eventArgs.eventArgs | enumU32.enumU32 | enumI32.enumI32 =>
    exact h
  case requestArgs.eventArgs | eventArgs.requestArgs =>
    exact absurd (congrArg String.toList h) (by simp)

/-- The items of an interface, in their order. -/
def Interface.itemList (interface : Interface) : List Item :=
  (if interface.events = [] then [] else [.eventHandler]) ++
  (if interface.requests = [] then [] else [.requestProxy]) ++
  ((interface.requests.map fun req => .requestArgs req.name) ++
    interface.events.map fun event => .eventArgs event.name) ++
  interface.enums.flatMap fun enu => [.enumU32 enu.name, .enumI32 enu.name]

variable {ext : Externals} {interface : Interface}

/-- One property of what a loop over the procedures emits. -/
theorem map_zipIdx {α β : Type} {emit : Nat → Procedure → α} {f : α → β} {g : Procedure → β}
    (h : ∀ i procedure, f (emit i procedure) = g procedure) (procedures : List Procedure) :
    (procedures.zipIdx.map fun x => emit x.2 x.1).map f = procedures.map g := by
  conv_rhs => rw [← List.zipIdx_map_fst 0 procedures, List.map_map]
  rw [List.map_map]
  exact List.map_congr_left fun x _ => h x.2 x.1

theorem map_argsStructs {β : Type} {f : ArgsStruct → β} {g : String → Procedure → β}
    (h : ∀ kind i procedure,
      f (tokenizeArgsStruct interface.nameVer kind i procedure) = g kind procedure) :
    interface.argsStructs.map f =
      interface.requests.map (g "request") ++ interface.events.map (g "event") := by
  unfold Interface.argsStructs
  rw [List.map_append]
  exact congrArg₂ _ (map_zipIdx (h "request") _) (map_zipIdx (h "event") _)

theorem itemNames_code :
    (interface.code ext).itemNames = interface.itemList.map (Item.text interface.nameVer) := by
  have hhandler : interface.eventHandler.toList.map EventHandlerTrait.name =
      (if interface.events = [] then [] else [Item.eventHandler]).map
        (Item.text interface.nameVer) := by
    unfold Interface.eventHandler
    rcases interface.events with _ | ⟨event, events⟩ <;> rfl
  have hproxy : interface.requestProxy.toList.map RequestProxy.name =
      (if interface.requests = [] then [] else [Item.requestProxy]).map
        (Item.text interface.nameVer) := by
    unfold Interface.requestProxy
    rcases interface.requests with _ | ⟨req, requests⟩ <;> rfl
  have hstructs := @map_argsStructs interface _ ArgsStruct.name
    (argsStructName interface.nameVer) fun _ _ _ => rfl
  have henums : ((interface.code ext).enums.flatMap fun enu => [enu.enumNameU32, enu.enumNameI32]) =
      (interface.enums.flatMap fun enu => [Item.enumU32 enu.name, .enumI32 enu.name]).map
        (Item.text interface.nameVer) := by
    unfold Interface.code
    rw [List.flatMap_map, List.map_flatMap]
    rfl
  unfold InterfaceCode.itemNames Interface.itemList
  rw [henums]
  simp only [Interface.code, hhandler, hproxy, hstructs, List.map_append, List.map_map]
  rfl

theorem nodup_itemList :
    interface.itemList.Nodup ↔ (interface.requests.map Procedure.name).Nodup ∧
      (interface.events.map Procedure.name).Nodup ∧ (interface.enums.map Enum.name).Nodup := by
  have hrequests : (interface.requests.map fun req => Item.requestArgs req.name).Nodup ↔
      (interface.requests.map Procedure.name).Nodup := by
    rw [← List.nodup_map_iff (f := Item.requestArgs) fun _ _ => Item.requestArgs.inj, List.map_map]
    rfl
  have hevents : (interface.events.map fun event => Item.eventArgs event.name).Nodup ↔
      (interface.events.map Procedure.name).Nodup := by
    rw [← List.nodup_map_iff (f := Item.eventArgs) fun _ _ => Item.eventArgs.inj, List.map_map]
    rfl
  have henums : (interface.enums.flatMap fun enu =>
      [Item.enumU32 enu.name, Item.enumI32 enu.name]).Nodup ↔
      (interface.enums.map Enum.name).Nodup := by
    have hpair : ∀ enu ∈ interface.enums, [Item.enumU32 enu.name, .enumI32 enu.name].Nodup := by
      simp
    rw [List.nodup_flatMap, and_iff_right hpair]
    unfold List.Nodup
    rw [List.pairwise_map]
    refine List.Pairwise.iff fun a b => ?_
    simp [Function.onFun, eq_comm]
  have hhandler : ∀ item ∈ (if interface.events = [] then [] else [Item.eventHandler]),
      item = .eventHandler := by
    split <;> simp
  have hproxy : ∀ item ∈ (if interface.requests = [] then [] else [Item.requestProxy]),
      item = .requestProxy := by
    split <;> simp
  have hsingle : ∀ (P : Prop) [Decidable P] (item : Item), (if P then [] else [item]).Nodup := by
    intro P _ item
    split <;> simp
  unfold Interface.itemList
  rw [List.nodup_append', List.nodup_append', List.nodup_append', List.nodup_append', hrequests,
    hevents, henums]
  constructor
  · rintro ⟨⟨-, ⟨hr, he, -⟩, -⟩, hn, -⟩
    exact ⟨hr, he, hn⟩
  · rintro ⟨hr, he, hn⟩
    -- what is left is that items of different kinds are different
    refine ⟨⟨⟨hsingle _ _, hsingle _ _, fun item ha hb => ?_⟩, ⟨hr, he, ?_⟩, fun item ha hb => ?_⟩,
      hn, fun item ha hb => ?_⟩
    · cases (hhandler item ha).symm.trans (hproxy item hb)
    · simp [List.disjoint_left]
    · rcases List.mem_append.mp ha with ha | ha
      · rw [hhandler item ha] at hb
        simp at hb
      · rw [hproxy item ha] at hb
        simp at hb
    · rcases List.mem_append.mp ha with ha | ha
      · rcases List.mem_append.mp ha with ha | ha
        · rw [hhandler item ha] at hb
          simp at hb
        · rw [hproxy item ha] at hb
          simp at hb
      · obtain ⟨enu, -, hb⟩ := List.mem_flatMap.mp hb
        rcases List.mem_pair.mp hb with rfl | rfl <;> simp at ha

theorem Item.isPrefix_text (nameVer : String) (item : Item) :
    (nameVer ++ "_").toList <+: (item.text nameVer).toList := by
  cases item <;> simp [Item.text]

/-- Interfaces that are apart have no item of the same name. -/
theorem disjoint_of_apart {a b : Interface} (h : a.Apart b) :
    (a.code ext).itemNames.Disjoint (b.code ext).itemNames := by
  rw [itemNames_code, itemNames_code, List.disjoint_left]
  intro name ha hb
  obtain ⟨item, -, rfl⟩ := List.mem_map.mp ha
  obtain ⟨item', -, heq⟩ := List.mem_map.mp hb
  have hitem' := item'.isPrefix_text b.nameVer
  rw [heq] at hitem'
  rcases List.prefix_or_prefix_of_prefix (item.isPrefix_text a.nameVer) hitem' with hpre | hpre
  · exact h.1 hpre
  · exact h.2 hpre

end Items

/-! ## The other scopes -/

section Scopes

variable {ext : Externals} {interface : Interface}

/-- The functions of the event handler trait. -/
theorem nodup_handleFuncs (names : List String) :
    (names.map ("handle_" ++ ·) ++ ["unknown_event", "handle_event"]).Nodup ↔
      names.Nodup ∧ "event" ∉ names := by
  have hunknown : ∀ name, "handle_" ++ name ≠ "unknown_event" := by
    intro name h
    simpa using congrArg String.toList h
  have hevent : ∀ name, "handle_" ++ name = "handle_event" ↔ name = "event" := by
    intro name
    rw [show "handle_event" = "handle_" ++ "event" from rfl, String.append_right_inj]
  have hinjective : Function.Injective ("handle_" ++ ·) := fun _ _ =>
    (String.append_right_inj "handle_").mp
  rw [List.nodup_append', List.nodup_map_iff hinjective, and_congr_right_iff]
  intro _
  simp only [List.disjoint_left, List.forall_mem_map, List.mem_pair, hunknown, hevent, false_or]
  constructor
  · rintro ⟨-, h⟩ hmem
    exact h "event" hmem rfl
  · intro hmem
    refine ⟨by decide, ?_⟩
    rintro name hname rfl
    exact hmem hname

/-- The functions of the request proxy. -/
theorem nodup_sendFuncs (names : List String) :
    ("new" :: names.map ("send_" ++ ·)).Nodup ↔ names.Nodup := by
  have hnew : "new" ∉ names.map ("send_" ++ ·) := by
    intro hmem
    obtain ⟨name, -, h⟩ := List.mem_map.mp hmem
    simpa using congrArg String.toList h
  have hinjective : Function.Injective ("send_" ++ ·) := fun _ _ =>
    (String.append_right_inj "send_").mp
  rw [List.nodup_cons, List.nodup_map_iff hinjective, and_iff_right hnew]

theorem eventHandler_nodup :
    (∀ names ∈ interface.eventHandler.toList.map fun handler =>
      handler.handleFuncPrototypes.map HandleFuncPrototype.handleFuncName ++
        ["unknown_event", "handle_event"], names.Nodup) ↔
      (interface.events.map Procedure.name).Nodup ∧
        "event" ∉ interface.events.map Procedure.name := by
  rw [← nodup_handleFuncs, List.map_map]
  unfold Interface.eventHandler
  split
  · next hlen =>
    simp only [Option.toList_some, List.map_singleton, List.mem_singleton, forall_eq,
      List.map_map]
    exact Iff.rfl
  · next hlen =>
    rw [List.length_eq_zero_iff.mp (Nat.eq_zero_of_not_pos hlen)]
    simp

theorem requestProxy_nodup :
    (∀ names ∈ interface.requestProxy.toList.map fun proxy =>
      "new" :: proxy.proxyFuncs.map ProxyFunc.reqName, names.Nodup) ↔
      (interface.requests.map Procedure.name).Nodup := by
  rw [← nodup_sendFuncs, List.map_map]
  unfold Interface.requestProxy
  split
  · next hlen =>
    have hnames := @map_zipIdx _ _ tokenizeProxyFunc ProxyFunc.reqName
      (fun req => "send_" ++ req.name) (fun _ _ => rfl) interface.requests
    simp only [Option.toList_some, List.map_singleton, List.mem_singleton, forall_eq, hnames]
    exact Iff.rfl
  · next hlen =>
    rw [List.length_eq_zero_iff.mp (Nat.eq_zero_of_not_pos hlen)]
    simp

theorem argsStructs_nodup :
    (∀ names ∈ interface.argsStructs.map fun struct => struct.fields.map Prod.fst, names.Nodup) ↔
      ∀ procedure ∈ interface.requests ++ interface.events,
        (procedure.args.map Arg.name).Nodup := by
  have hfields := @map_argsStructs interface _ (fun struct => struct.fields.map Prod.fst)
    (fun _ procedure => procedure.args.map Arg.name) fun _ _ _ => by
      simp only [tokenizeArgsStruct, List.map_map]
      rfl
  rw [hfields, ← List.map_append, List.forall_mem_map]

theorem enums_nodup :
    (∀ names ∈ (interface.code ext).enums.flatMap fun enu =>
      [enu.variantsU32.map Prod.fst, enu.variantsI32.map Prod.fst], names.Nodup) ↔
      ∀ enu ∈ interface.enums, (enu.variants.map (EnumVariant.constName ext)).Nodup := by
  unfold Interface.code
  simp only [List.flatMap_map, List.forall_mem_flatMap]
  refine forall₂_congr fun enu _ => ?_
  have hnames : ∀ {α : Type} (value : EnumVariant → α),
      (enu.variants.map fun variant => (variant.constName ext, value variant)).map Prod.fst =
        enu.variants.map (EnumVariant.constName ext) := by
    intro α value
    rw [List.map_map]
    rfl
  rw [List.forall_mem_cons, List.forall_mem_singleton, Enum.code, hnames, hnames, and_self_iff]

/-- The scopes inside the items of an interface. -/
theorem memberNames_nodup :
    (∀ names ∈ (interface.code ext).memberNames, names.Nodup) ↔
      ((interface.events.map Procedure.name).Nodup ∧
        "event" ∉ interface.events.map Procedure.name) ∧
      (interface.requests.map Procedure.name).Nodup ∧
      (∀ procedure ∈ interface.requests ++ interface.events,
        (procedure.args.map Arg.name).Nodup) ∧
      ∀ enu ∈ interface.enums, (enu.variants.map (EnumVariant.constName ext)).Nodup := by
  unfold InterfaceCode.memberNames
  rw [List.forall_mem_append, List.forall_mem_append, List.forall_mem_append, enums_nodup,
    and_assoc, and_assoc]
  simp only [Interface.code, eventHandler_nodup, requestProxy_nodup, argsStructs_nodup]

theorem toldApart_iff :
    (interface.code ext).itemNames.Nodup ∧
        (∀ names ∈ (interface.code ext).memberNames, names.Nodup) ↔
      interface.ToldApart ext := by
  rw [itemNames_code, List.nodup_map_iff (Item.text_injective _), nodup_itemList,
    memberNames_nodup]
  constructor
  · rintro ⟨⟨hrequests, hevents, henums⟩, ⟨-, hevent⟩, -, hargs, hconstants⟩
    exact ⟨hrequests, hevents, hevent, henums, hargs, hconstants⟩
  · rintro ⟨hrequests, hevents, hevent, henums, hargs, hconstants⟩
    exact ⟨⟨hrequests, hevents, henums⟩, ⟨hevents, hevent⟩, hrequests, hargs, hconstants⟩

end Scopes

/-- No scope of the printed code has two definitions of one name, if and only if
the members of each interface are told apart by their names and none of its events
is called `event`. -/
theorem distinctDefinitions_iff (ext : Externals) (protocol : Protocol)
    (h : protocol.interfaces.Pairwise Interface.Apart) :
    DistinctDefinitions (protocol.code ext) ↔
      ∀ interface ∈ protocol.interfaces, interface.ToldApart ext := by
  have hdisjoint : (protocol.code ext).Pairwise
      (Function.onFun List.Disjoint InterfaceCode.itemNames) := by
    unfold Protocol.code
    rw [List.pairwise_map]
    exact h.imp disjoint_of_apart
  have hitems : ((protocol.code ext).flatMap InterfaceCode.itemNames).Nodup ↔
      ∀ interfaceCode ∈ protocol.code ext, interfaceCode.itemNames.Nodup := by
    rw [List.nodup_flatMap, and_iff_left hdisjoint]
  have hfile : DistinctDefinitions (protocol.code ext) ↔
      ∀ interfaceCode ∈ protocol.code ext, interfaceCode.itemNames.Nodup ∧
        ∀ names ∈ interfaceCode.memberNames, names.Nodup := by
    constructor
    · rintro ⟨hnodup, hmembers⟩ interfaceCode hmem
      exact ⟨hitems.mp hnodup interfaceCode hmem, hmembers interfaceCode hmem⟩
    · intro hall
      exact ⟨hitems.mpr fun interfaceCode hmem => (hall interfaceCode hmem).1,
        fun interfaceCode hmem => (hall interfaceCode hmem).2⟩
  rw [hfile]
  unfold Protocol.code
  rw [List.forall_mem_map]
  exact forall₂_congr fun interface _ => toldApart_iff

/-- Two interfaces of a protocol, the name of one of which begins as the other's. -/
def shellProtocol : Protocol where
  name := "shell"
  interfaces := [
    ⟨"wl_shell", 1, [⟨"get_shell_surface", [⟨"id", .newId, some "wl_shell_surface"⟩]⟩], [],
      [⟨"error", [⟨"role", 0⟩]⟩]⟩,
    ⟨"wl_shell_surface", 1, [⟨"pong", [⟨"serial", .uint, none⟩]⟩],
      [⟨"ping", [⟨"serial", .uint, none⟩]⟩], [⟨"resize", [⟨"none", 0⟩, ⟨"top", 1⟩]⟩]⟩]

theorem distinctDefinitions_iff_shell :
    DistinctDefinitions (shellProtocol.code asciiExternals) := by
  refine (distinctDefinitions_iff asciiExternals shellProtocol (by decide)).mpr ?_
  rw [shellProtocol, List.forall_mem_cons, List.forall_mem_singleton]
  exact ⟨⟨by decide, by decide, by decide, by decide, by decide, by decide⟩,
    ⟨by decide, by decide, by decide, by decide, by decide, by decide⟩⟩

end WhaleLand.Wlproto
