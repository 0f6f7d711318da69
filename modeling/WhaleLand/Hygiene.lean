import WhaleLand.Lib.Mentions
import WhaleLand.MessageAgreement

/-!
# Names in the emitted functions

Five of the emitted functions name the arguments of a procedure, next to
variables of the generator's own. Most of these are kept apart by their two
underscores. Two are not: a proxy binds `connection` before it writes its
arguments, and a `handle_*` prototype has the parameters `connection` and
`packet`. An argument with such a name is hidden, or is a second parameter of
that name. `hygienic_iff`: these, and the names that no variable can have, are
all the names that clash. Among the latter are the tuple structs of all enums of
the protocol, as its interfaces are emitted into one module. `run_of_hygienic`:
without a clash, what the functions write and pass on are their own arguments.
-/

namespace WhaleLand

open Wlproto Mentions

/-! ## What the functions mention -/

/-- What a name of an emitted function is meant to stand for. -/
inductive Referent
  | argument (name : String)
  | receiver
  | connection
  | packet
  | packetReader
  | objectId
deriving DecidableEq, Repr

/-- A function as its names. -/
abbrev FunctionNames := Function String Referent

/-- The variables or fields of some arguments. -/
def arguments (names : List String) : List (String × Referent) :=
  names.map fun name => (name, .argument name)

/-- Names that a protocol can choose for the arguments of a procedure. -/
structure ArgNames (names : List String) : Prop where
  distinct : names.Nodup
  notSelf : "self" ∉ names
  notReserved : ∀ name ∈ names, ¬ "__".toList <+: name.toList

instance (names : List String) : Decidable (ArgNames names) :=
  decidable_of_iff
    (names.Nodup ∧ "self" ∉ names ∧ ∀ name ∈ names, ¬ "__".toList <+: name.toList)
    ⟨fun ⟨hdistinct, hself, hreserved⟩ => ⟨hdistinct, hself, hreserved⟩,
      fun h => ⟨h.distinct, h.notSelf, h.notReserved⟩⟩

namespace Wlproto

/-- `send_*`. The variable `c` of its match is in scope in one arm only, where no
argument is named. -/
def ProxyFunc.names (proxyFunc : ProxyFunc) : FunctionNames where
  params := ("self", .receiver) :: arguments (proxyFunc.args.map Prod.fst)
  fields := [("object_id", .objectId), ("connection", .connection)]
  body :=
    [.use "self" .receiver, .field "object_id" .objectId, .bind "__packet" .packet,
      .use "self" .receiver, .field "connection" .connection, .bind "connection" .connection] ++
    (proxyFunc.argWriteFuncCalls.flatMap fun call =>
      [.use "__packet" .packet, .use call.argName (.argument call.argName)]) ++
    [.use "connection" .connection, .use "__packet" .packet]

/-- `handle_*`, which has no body. -/
def HandleFuncPrototype.names (prototype : HandleFuncPrototype) : FunctionNames where
  params := ("self", .receiver) :: ("connection", .connection) :: ("packet", .packet) ::
    arguments (prototype.args.map Prod.fst)
  fields := []
  body := []

/-- `handle_event`, with the arm that is taken. -/
def MatchVariant.names (variant : MatchVariant) : FunctionNames where
  params := [("self", .receiver), ("__connection", .connection), ("__packet", .packet)]
  fields := []
  body :=
    [.use "__packet" .packet, .use "__packet" .packet, .bind "__packet_reader" .packetReader] ++
    (variant.argDecoders.flatMap fun decoder =>
      [.use "__packet_reader" .packetReader,
        .bind decoder.argName (.argument decoder.argName)]) ++
    [.use "__packet_reader" .packetReader, .use "self" .receiver,
      .use "__connection" .connection, .use "__packet" .packet] ++
    variant.argNames.flatMap fun name => [.use name (.argument name)]

/-- `try_from_packet`. Its last expression names each field and its variable. -/
def ArgsStruct.tryFromPacketNames (struct : ArgsStruct) : FunctionNames where
  params := [("__value", .packet)]
  fields := arguments (struct.fields.map Prod.fst)
  body :=
    [.use "__value" .packet, .bind "__reader" .packetReader] ++
    (struct.fieldReads.flatMap fun read =>
      [.use "__reader" .packetReader, .bind read.fieldName (.argument read.fieldName)]) ++
    [.use "__reader" .packetReader] ++
    struct.fieldNames.flatMap fun name => [.field name (.argument name), .use name (.argument name)]

/-- `try_into_packet`. -/
def ArgsStruct.tryIntoPacketNames (struct : ArgsStruct) : FunctionNames where
  params := [("self", .receiver), ("__object_id", .objectId)]
  fields := arguments (struct.fields.map Prod.fst)
  body :=
    [.use "__object_id" .objectId, .bind "__packet" .packet] ++
    (struct.fieldWrites.flatMap fun write =>
      [.use "__packet" .packet, .use "self" .receiver,
        .field write.fieldName (.argument write.fieldName)]) ++
    [.use "__packet" .packet]

namespace Interface

variable (interface : Interface)

/-- The emitted functions that name arguments. -/
def functions : List FunctionNames :=
  (interface.requestProxy.toList.flatMap fun proxy => proxy.proxyFuncs.map ProxyFunc.names) ++
  (interface.eventHandler.toList.flatMap fun handler =>
    handler.handleFuncPrototypes.map HandleFuncPrototype.names ++
      handler.matchVariants.map MatchVariant.names) ++
  interface.argsStructs.flatMap fun struct =>
    [struct.tryFromPacketNames, struct.tryIntoPacketNames]

/-- The tuple structs that are emitted for the enums. -/
def enumStructNames : List String :=
  interface.enums.flatMap fun enu =>
    [interface.nameVer ++ "_" ++ enu.name ++ "_u32", interface.nameVer ++ "_" ++ enu.name ++ "_i32"]

/-- The arguments of every procedure have names as they can be chosen. -/
def WellNamed : Prop :=
  ∀ procedure ∈ interface.requests ++ interface.events, ArgNames (procedure.args.map Arg.name)

instance : Decidable interface.WellNamed :=
  inferInstanceAs (Decidable (∀ procedure ∈ _, _))

end Interface

/-- The items in scope that a pattern cannot hide: the variants in the prelude,
and the tuple structs of all interfaces. -/
def Protocol.items (protocol : Protocol) : List String :=
  ["Some", "None", "Ok", "Err"] ++ protocol.interfaces.flatMap Interface.enumStructNames

namespace Interface

variable (interface : Interface) (protocol : Protocol)

/-- In all the functions, as part of a protocol's module, every name stands for
what the generator means. -/
def Hygienic : Prop := ∀ f ∈ interface.functions, Mentions.Hygienic protocol.items f

/-- No argument has one of the names that clash. -/
structure NoClash : Prop where
  requests : ∀ req ∈ interface.requests, "connection" ∉ req.args.map Arg.name
  events : ∀ event ∈ interface.events,
    "connection" ∉ event.args.map Arg.name ∧ "packet" ∉ event.args.map Arg.name
  items : ∀ procedure ∈ interface.requests ++ interface.events,
    ∀ name ∈ procedure.args.map Arg.name, name ∉ protocol.items

end Interface

end Wlproto

/-! ## Lookups -/

section Lookups

variable {names items : List String} {fields scope : List (String × Referent)} {name : String}

theorem ArgNames.ne_of_reserved (h : ArgNames names) {other : String}
    (hother : "__".toList <+: other.toList) : other ∉ names :=
  fun hmem => h.notReserved other hmem hother

theorem map_fst_arguments (names : List String) : (arguments names).map Prod.fst = names := by
  unfold arguments
  rw [List.map_map]
  exact List.map_id' names

theorem lookup_arguments_of_mem (h : name ∈ names) :
    (arguments names ++ scope).lookup name = some (.argument name) :=
  lookup_map_append_of_mem Referent.argument h

theorem lookup_arguments_of_notMem (h : name ∉ names) :
    (arguments names ++ scope).lookup name = scope.lookup name :=
  lookup_map_append_of_notMem Referent.argument h

theorem lookup_arguments (h : name ∈ names) :
    (arguments names).lookup name = some (.argument name) := by
  rw [← List.append_nil (arguments names)]
  exact lookup_arguments_of_mem h

/-- The reads of some arguments, each into a variable of its name. -/
def readMentions (reader : String) (names : List String) : List (Mention String Referent) :=
  names.flatMap fun name => [.use reader .packetReader, .bind name (.argument name)]

theorem scopeAfter_readMentions (reader : String) :
    scopeAfter scope (readMentions reader names) = arguments names.reverse ++ scope := by
  unfold readMentions arguments
  induction names generalizing scope with
  | nil => rfl
  | cons name names ih =>
    rw [List.flatMap_cons, scopeAfter_append, ih, List.reverse_cons, List.map_append,
      List.append_assoc]
    rfl

/-- The reads are in order if no argument hides the reader, and every name can
be that of a variable. -/
theorem resolved_readMentions_iff {reader : String} (hreader : reader ∉ names)
    (hscope : scope.lookup reader = some .packetReader) :
    Resolved items fields scope (readMentions reader names) ↔ ∀ name ∈ names, name ∉ items := by
  unfold readMentions
  induction names generalizing scope with
  | nil => exact iff_of_true trivial nofun
  | cons name names ih =>
    obtain ⟨hne, hreader⟩ := not_or.mp (mt List.mem_cons.mpr hreader)
    have hnext : List.lookup reader ((name, Referent.argument name) :: scope) =
        some .packetReader := by
      rw [Scope.lookup_cons_of_ne hne]
      exact hscope
    rw [List.flatMap_cons, resolved_append_iff, List.forall_mem_cons]
    show (_ ∧ _ ∧ True) ∧ Resolved items fields ((name, .argument name) :: scope) _ ↔ _
    rw [ih hreader hnext, and_true, and_iff_right hscope]

end Lookups

/-! ## The functions, one by one -/

/-- The names that the generator gives to variables. -/
def generatorNames : List String :=
  ["self", "connection", "packet", "__connection", "__packet", "__packet_reader", "__value",
    "__reader", "__object_id"]

section Emitted

variable (procedure : Procedure)

theorem names_tokenizeProxyFunc (k : Nat) : (tokenizeProxyFunc k procedure).names =
    { params := ("self", .receiver) :: arguments (procedure.args.map Arg.name)
      fields := [("object_id", .objectId), ("connection", .connection)]
      body :=
        [.use "self" .receiver, .field "object_id" .objectId, .bind "__packet" .packet,
          .use "self" .receiver, .field "connection" .connection,
          .bind "connection" .connection] ++
        ((procedure.args.map Arg.name).flatMap fun name =>
          [.use "__packet" .packet, .use name (.argument name)]) ++
        [.use "connection" .connection, .use "__packet" .packet] } := by
  unfold ProxyFunc.names tokenizeProxyFunc
  simp only [List.map_map, List.flatMap_map]
  rfl

theorem names_tokenizeHandleFuncPrototype : (tokenizeHandleFuncPrototype procedure).names =
    { params := ("self", .receiver) :: ("connection", .connection) :: ("packet", .packet) ::
        arguments (procedure.args.map Arg.name)
      fields := []
      body := [] } := by
  unfold HandleFuncPrototype.names tokenizeHandleFuncPrototype
  simp only [List.map_map]
  rfl

theorem names_tokenizeMatchVariant (k : Nat) : (tokenizeMatchVariant k procedure).names =
    { params := [("self", .receiver), ("__connection", .connection), ("__packet", .packet)]
      fields := []
      body :=
        [.use "__packet" .packet, .use "__packet" .packet,
          .bind "__packet_reader" .packetReader] ++
        readMentions "__packet_reader" (procedure.args.map Arg.name) ++
        [.use "__packet_reader" .packetReader, .use "self" .receiver,
          .use "__connection" .connection, .use "__packet" .packet] ++
        (procedure.args.map Arg.name).flatMap fun name => [.use name (.argument name)] } := by
  unfold MatchVariant.names tokenizeMatchVariant readMentions
  simp only [List.flatMap_map]

theorem tryFromPacketNames_tokenizeArgsStruct (nameVer kind : String) (k : Nat) :
    (tokenizeArgsStruct nameVer kind k procedure).tryFromPacketNames =
    { params := [("__value", .packet)]
      fields := arguments (procedure.args.map Arg.name)
      body :=
        [.use "__value" .packet, .bind "__reader" .packetReader] ++
        readMentions "__reader" (procedure.args.map Arg.name) ++
        [.use "__reader" .packetReader] ++
        (procedure.args.map Arg.name).flatMap fun name =>
          [.field name (.argument name), .use name (.argument name)] } := by
  unfold ArgsStruct.tryFromPacketNames tokenizeArgsStruct readMentions
  simp only [List.map_map, List.flatMap_map]
  rfl

theorem tryIntoPacketNames_tokenizeArgsStruct (nameVer kind : String) (k : Nat) :
    (tokenizeArgsStruct nameVer kind k procedure).tryIntoPacketNames =
    { params := [("self", .receiver), ("__object_id", .objectId)]
      fields := arguments (procedure.args.map Arg.name)
      body :=
        [.use "__object_id" .objectId, .bind "__packet" .packet] ++
        ((procedure.args.map Arg.name).flatMap fun name =>
          [.use "__packet" .packet, .use "self" .receiver, .field name (.argument name)]) ++
        [.use "__packet" .packet] } := by
  unfold ArgsStruct.tryIntoPacketNames tokenizeArgsStruct
  simp only [List.map_map, List.flatMap_map]
  rfl

end Emitted

section Functions

variable {items names : List String} {procedure : Procedure}
  (hitems : ∀ name ∈ generatorNames, name ∉ items)
  (h : ArgNames (procedure.args.map Arg.name))
include hitems h

theorem hygienic_proxyFunc_iff (k : Nat) :
    Mentions.Hygienic items (tokenizeProxyFunc k procedure).names ↔
      "connection" ∉ procedure.args.map Arg.name ∧
        ∀ name ∈ procedure.args.map Arg.name, name ∉ items := by
  rw [names_tokenizeProxyFunc]
  generalize procedure.args.map Arg.name = names at h ⊢
  have hparams : (("self", Referent.receiver) :: arguments names).map Prod.fst =
      "self" :: names := by
    rw [List.map_cons, map_fst_arguments]
  constructor
  · rintro ⟨-, hbindable, hresolved⟩
    rw [hparams] at hbindable
    refine ⟨fun hmem => ?_, fun name hmem => hbindable name (List.mem_cons_of_mem _ hmem)⟩
    rw [resolved_append_iff, resolved_append_iff] at hresolved
    have hwrite := (resolved_flatMap_iff (fun _ => rfl) names).mp hresolved.1.2 "connection" hmem
    -- the variable of the function hides the parameter
    cases hwrite.2.1
  · rintro ⟨hconnection, hnames⟩
    refine ⟨?_, ?_, ?_⟩
    · rw [hparams]
      exact List.nodup_cons.mpr ⟨h.notSelf, h.distinct⟩
    · rw [hparams]
      exact List.forall_mem_cons.mpr ⟨hitems _ (by decide), hnames⟩
    · rw [resolved_append_iff, resolved_append_iff]
      refine ⟨⟨?_, ?_⟩, ?_⟩
      · exact ⟨rfl, rfl, hitems _ (by decide), rfl, rfl, hitems _ (by decide), trivial⟩
      · refine (resolved_flatMap_iff (fun _ => rfl) names).mpr fun name hmem => ?_
        have hne : name ≠ "connection" := fun heq => hconnection (heq ▸ hmem)
        have hpacket : name ≠ "__packet" := fun heq => h.ne_of_reserved (by decide) (heq ▸ hmem)
        have hself : name ≠ "self" := fun heq => h.notSelf (heq ▸ hmem)
        refine ⟨rfl, ?_, trivial⟩
        show List.lookup name (("connection", _) :: ("__packet", _) :: ("self", _) ::
          arguments names) = _
        rw [Scope.lookup_cons_of_ne hne, Scope.lookup_cons_of_ne hpacket,
          Scope.lookup_cons_of_ne hself, lookup_arguments hmem]
      · rw [scopeAfter_append, scopeAfter_flatMap (fun _ => rfl)]
        exact ⟨rfl, rfl, trivial⟩

theorem hygienic_prototype_iff :
    Mentions.Hygienic items (tokenizeHandleFuncPrototype procedure).names ↔
      ("connection" ∉ procedure.args.map Arg.name ∧ "packet" ∉ procedure.args.map Arg.name) ∧
        ∀ name ∈ procedure.args.map Arg.name, name ∉ items := by
  rw [names_tokenizeHandleFuncPrototype]
  generalize procedure.args.map Arg.name = names at h ⊢
  have hparams : (("self", Referent.receiver) :: ("connection", .connection) ::
      ("packet", .packet) :: arguments names).map Prod.fst =
      "self" :: "connection" :: "packet" :: names := by
    rw [List.map_cons, List.map_cons, List.map_cons, map_fst_arguments]
  constructor
  · rintro ⟨hdistinct, hbindable, -⟩
    rw [hparams] at hdistinct hbindable
    have hconnection := (List.nodup_cons.mp (List.nodup_cons.mp hdistinct).2)
    refine ⟨⟨fun hmem => hconnection.1 (List.mem_cons_of_mem _ hmem),
      (List.nodup_cons.mp hconnection.2).1⟩, fun name hmem => hbindable name ?_⟩
    exact List.mem_cons_of_mem _ (List.mem_cons_of_mem _ (List.mem_cons_of_mem _ hmem))
  · rintro ⟨⟨hconnection, hpacket⟩, hnames⟩
    refine ⟨?_, ?_, trivial⟩
    · rw [hparams]
      simp [h.notSelf, h.distinct, hconnection, hpacket]
    · rw [hparams]
      simp only [List.forall_mem_cons]
      exact ⟨hitems _ (by decide), hitems _ (by decide), hitems _ (by decide), hnames⟩

theorem hygienic_matchVariant_iff (k : Nat) :
    Mentions.Hygienic items (tokenizeMatchVariant k procedure).names ↔
      ∀ name ∈ procedure.args.map Arg.name, name ∉ items := by
  rw [names_tokenizeMatchVariant]
  generalize procedure.args.map Arg.name = names at h ⊢
  have hreader : "__packet_reader" ∉ names := h.ne_of_reserved (by decide)
  have hreads : Resolved items [] [("__packet_reader", .packetReader), ("self", .receiver),
      ("__connection", .connection), ("__packet", .packet)]
      (readMentions "__packet_reader" names) ↔ ∀ name ∈ names, name ∉ items :=
    resolved_readMentions_iff hreader rfl
  constructor
  · rintro ⟨-, -, hresolved⟩
    rw [resolved_append_iff, resolved_append_iff, resolved_append_iff] at hresolved
    exact hreads.mp hresolved.1.1.2
  · intro hnames
    have hmem : ∀ {name : String}, name ∈ names → name ∈ names.reverse := List.mem_reverse.mpr
    have hnot : ∀ {name : String}, name ∉ names → name ∉ names.reverse :=
      mt List.mem_reverse.mp
    refine ⟨by simp, ?_, ?_⟩
    · simp only [List.map_cons, List.map_nil, List.forall_mem_cons]
      exact ⟨hitems _ (by decide), hitems _ (by decide), hitems _ (by decide), nofun⟩
    · rw [resolved_append_iff, resolved_append_iff, resolved_append_iff]
      refine ⟨⟨⟨?_, hreads.mpr hnames⟩, ?_⟩, ?_⟩
      · exact ⟨rfl, rfl, hitems _ (by decide), trivial⟩
      · rw [scopeAfter_append, scopeAfter_readMentions]
        have hpacket : "__packet" ∉ names := h.ne_of_reserved (by decide)
        have hconnection : "__connection" ∉ names := h.ne_of_reserved (by decide)
        exact ⟨lookup_arguments_of_notMem (hnot hreader),
          lookup_arguments_of_notMem (hnot h.notSelf),
          lookup_arguments_of_notMem (hnot hconnection),
          lookup_arguments_of_notMem (hnot hpacket), trivial⟩
      · rw [scopeAfter_append, scopeAfter_append, scopeAfter_readMentions]
        refine (resolved_flatMap_iff (fun _ => rfl) names).mpr fun name hname => ?_
        exact ⟨lookup_arguments_of_mem (hmem hname), trivial⟩

theorem hygienic_tryFromPacket_iff (nameVer kind : String) (k : Nat) :
    Mentions.Hygienic items (tokenizeArgsStruct nameVer kind k procedure).tryFromPacketNames ↔
      ∀ name ∈ procedure.args.map Arg.name, name ∉ items := by
  rw [tryFromPacketNames_tokenizeArgsStruct]
  generalize procedure.args.map Arg.name = names at h ⊢
  have hreader : "__reader" ∉ names := h.ne_of_reserved (by decide)
  have hreads : Resolved items (arguments names)
      [("__reader", .packetReader), ("__value", .packet)] (readMentions "__reader" names) ↔
        ∀ name ∈ names, name ∉ items :=
    resolved_readMentions_iff hreader rfl
  constructor
  · rintro ⟨-, -, hresolved⟩
    rw [resolved_append_iff, resolved_append_iff, resolved_append_iff] at hresolved
    exact hreads.mp hresolved.1.1.2
  · intro hnames
    refine ⟨List.nodup_singleton _, List.forall_mem_singleton.mpr (hitems _ (by decide)), ?_⟩
    rw [resolved_append_iff, resolved_append_iff, resolved_append_iff]
    refine ⟨⟨⟨?_, hreads.mpr hnames⟩, ?_⟩, ?_⟩
    · exact ⟨rfl, hitems _ (by decide), trivial⟩
    · rw [scopeAfter_append, scopeAfter_readMentions]
      exact ⟨lookup_arguments_of_notMem (mt List.mem_reverse.mp hreader), trivial⟩
    · rw [scopeAfter_append, scopeAfter_append, scopeAfter_readMentions]
      refine (resolved_flatMap_iff (fun _ => rfl) names).mpr fun name hname => ?_
      exact ⟨lookup_arguments hname,
        lookup_arguments_of_mem (List.mem_reverse.mpr hname), trivial⟩

omit h in
theorem hygienic_tryIntoPacket (nameVer kind : String) (k : Nat) :
    Mentions.Hygienic items (tokenizeArgsStruct nameVer kind k procedure).tryIntoPacketNames := by
  rw [tryIntoPacketNames_tokenizeArgsStruct]
  generalize procedure.args.map Arg.name = names
  refine ⟨by simp, ?_, ?_⟩
  · simp only [List.map_cons, List.map_nil, List.forall_mem_cons]
    exact ⟨hitems _ (by decide), hitems _ (by decide), nofun⟩
  · rw [resolved_append_iff, resolved_append_iff]
    refine ⟨⟨?_, ?_⟩, ?_⟩
    · exact ⟨rfl, hitems _ (by decide), trivial⟩
    · refine (resolved_flatMap_iff (fun _ => rfl) names).mpr fun name hname => ?_
      exact ⟨rfl, rfl, lookup_arguments hname, trivial⟩
    · rw [scopeAfter_append, scopeAfter_flatMap (fun _ => rfl)]
      exact ⟨rfl, trivial⟩

end Functions

/-! ## All of an interface -/

section Interfaces

variable {protocol : Protocol} {interface : Interface}

/-- The last character tells the tuple structs from the generator's variables. -/
theorem notMem_items {name : String} (h : name ∈ generatorNames) : name ∉ protocol.items := by
  have hvariants : ∀ name ∈ generatorNames, name ∉ ["Some", "None", "Ok", "Err"] := by decide
  have hlast : ∀ name ∈ generatorNames, name.toList.getLast? ≠ some '2' := by decide
  intro hmem
  rcases List.mem_append.mp hmem with hmem | hmem
  · exact hvariants name h hmem
  · obtain ⟨interface, -, hinterface⟩ := List.mem_flatMap.mp hmem
    obtain ⟨enu, -, hstruct⟩ := List.mem_flatMap.mp hinterface
    refine hlast name h ?_
    rcases List.mem_pair.mp hstruct with rfl | rfl
    · rw [String.toList_append, List.getLast?_append]
      rfl
    · rw [String.toList_append, List.getLast?_append]
      rfl

theorem mem_proxyFuncs_iff {f : FunctionNames} :
    (f ∈ interface.requestProxy.toList.flatMap fun proxy => proxy.proxyFuncs.map ProxyFunc.names) ↔
      ∃ k req, interface.requests[k]? = some req ∧ f = (tokenizeProxyFunc k req).names := by
  unfold Interface.requestProxy
  split
  · simp only [Option.toList_some, List.flatMap_cons, List.flatMap_nil, List.append_nil,
      List.map_map, List.mem_map]
    constructor
    · rintro ⟨⟨req, k⟩, hmem, rfl⟩
      exact ⟨k, req, List.mk_mem_zipIdx_iff_getElem?.mp hmem, rfl⟩
    · rintro ⟨k, req, hreq, rfl⟩
      exact ⟨(req, k), List.mk_mem_zipIdx_iff_getElem?.mpr hreq, rfl⟩
  · next hempty =>
    have hnil : interface.requests = [] := by simpa using hempty
    simp [hnil]

theorem mem_eventHandlers_iff {f : FunctionNames} :
    (f ∈ interface.eventHandler.toList.flatMap fun handler =>
      handler.handleFuncPrototypes.map HandleFuncPrototype.names ++
        handler.matchVariants.map MatchVariant.names) ↔
      ∃ k event, interface.events[k]? = some event ∧
        (f = (tokenizeHandleFuncPrototype event).names ∨
          f = (tokenizeMatchVariant k event).names) := by
  unfold Interface.eventHandler
  split
  · simp only [Option.toList_some, List.flatMap_cons, List.flatMap_nil, List.append_nil,
      List.map_map, List.mem_append, List.mem_map]
    constructor
    · rintro (⟨event, hmem, rfl⟩ | ⟨⟨event, k⟩, hmem, rfl⟩)
      · obtain ⟨k, hk⟩ := List.getElem?_of_mem hmem
        exact ⟨k, event, hk, .inl rfl⟩
      · exact ⟨k, event, List.mk_mem_zipIdx_iff_getElem?.mp hmem, .inr rfl⟩
    · rintro ⟨k, event, hevent, rfl | rfl⟩
      · exact .inl ⟨event, List.mem_of_getElem? hevent, rfl⟩
      · exact .inr ⟨(event, k), List.mk_mem_zipIdx_iff_getElem?.mpr hevent, rfl⟩
  · next hempty =>
    have hnil : interface.events = [] := by simpa using hempty
    simp [hnil]

/-- What hygienic names say about each request and each event. -/
theorem noClash_of_hygienic (h : interface.WellNamed) (hhygienic : interface.Hygienic protocol) :
    interface.NoClash protocol := by
  have hrequest : ∀ req ∈ interface.requests, "connection" ∉ req.args.map Arg.name ∧
      ∀ name ∈ req.args.map Arg.name, name ∉ protocol.items := by
    intro req hmem
    obtain ⟨k, hreq⟩ := List.getElem?_of_mem hmem
    have hf := mem_proxyFuncs_iff.mpr ⟨k, req, hreq, rfl⟩
    exact (hygienic_proxyFunc_iff (fun _ => notMem_items)
      (h req (List.mem_append_left _ hmem)) k).mp
      (hhygienic _ (List.mem_append_left _ (List.mem_append_left _ hf)))
  have hevent : ∀ event ∈ interface.events,
      ("connection" ∉ event.args.map Arg.name ∧ "packet" ∉ event.args.map Arg.name) ∧
        ∀ name ∈ event.args.map Arg.name, name ∉ protocol.items := by
    intro event hmem
    obtain ⟨k, hevent⟩ := List.getElem?_of_mem hmem
    have hf := mem_eventHandlers_iff.mpr ⟨k, event, hevent, .inl rfl⟩
    exact (hygienic_prototype_iff (fun _ => notMem_items)
      (h event (List.mem_append_right _ hmem))).mp
      (hhygienic _ (List.mem_append_left _ (List.mem_append_right _ hf)))
  refine ⟨fun req hmem => (hrequest req hmem).1, fun event hmem => (hevent event hmem).1, ?_⟩
  intro procedure hmem
  rcases List.mem_append.mp hmem with hmem | hmem
  · exact (hrequest procedure hmem).2
  · exact (hevent procedure hmem).2

theorem hygienic_of_noClash (h : interface.WellNamed) (hclash : interface.NoClash protocol) :
    interface.Hygienic protocol := by
  intro f hf
  rcases List.mem_append.mp hf with hf | hf
  · rcases List.mem_append.mp hf with hf | hf
    · obtain ⟨k, req, hreq, rfl⟩ := mem_proxyFuncs_iff.mp hf
      have hmem := List.mem_of_getElem? hreq
      have hprocedure := List.mem_append_left interface.events hmem
      exact (hygienic_proxyFunc_iff (fun _ => notMem_items) (h req hprocedure) k).mpr
        ⟨hclash.requests req hmem, hclash.items req hprocedure⟩
    · obtain ⟨k, event, hevent, rfl | rfl⟩ := mem_eventHandlers_iff.mp hf
      · have hmem := List.mem_of_getElem? hevent
        have hprocedure := List.mem_append_right interface.requests hmem
        exact (hygienic_prototype_iff (fun _ => notMem_items) (h event hprocedure)).mpr
          ⟨hclash.events event hmem, hclash.items event hprocedure⟩
      · have hprocedure := List.mem_append_right interface.requests (List.mem_of_getElem? hevent)
        exact (hygienic_matchVariant_iff (fun _ => notMem_items) (h event hprocedure) k).mpr
          (hclash.items event hprocedure)
  · obtain ⟨struct, hstruct, hf⟩ := List.mem_flatMap.mp hf
    obtain ⟨kind, k, procedure, hmem, rfl⟩ := mem_argsStructs hstruct
    have hprocedure := List.mem_append.mpr hmem
    rcases List.mem_pair.mp hf with rfl | rfl
    · exact (hygienic_tryFromPacket_iff (fun _ => notMem_items) (h procedure hprocedure)
        _ kind k).mpr (hclash.items procedure hprocedure)
    · exact hygienic_tryIntoPacket (fun _ => notMem_items) _ kind k

/-- In each interface of a protocol, the names of the arguments are hygienic if
and only if none of them clashes. -/
theorem hygienic_iff (protocol : Protocol)
    (h : ∀ interface ∈ protocol.interfaces, interface.WellNamed) :
    ∀ interface ∈ protocol.interfaces,
      (interface.Hygienic protocol ↔ interface.NoClash protocol) :=
  fun interface hmem => ⟨noClash_of_hygienic (h interface hmem),
    hygienic_of_noClash (h interface hmem)⟩

/-- The functions of a request and of an event use the values of their own
arguments, in their order. -/
theorem run_of_hygienic (t : Target) (h : interface.WellNamed)
    (hhygienic : interface.Hygienic protocol) :
    (∀ k req, interface.requests[k]? = some req → ∀ (vs : List Value) (objectId : ObjectId),
      vs.length = req.args.length →
        (tokenizeProxyFunc k req).run t objectId true vs =
          pushArgs t (Packet.new objectId (UInt16.ofNat k)) req.args vs) ∧
    ∀ k event, interface.events[k]? = some event → ∀ packet : Packet,
      runReader ((tokenizeMatchVariant k event).run t packet) =
        decodeArgs t event.args packet := by
  have hclash := noClash_of_hygienic h hhygienic
  constructor
  · intro k req hreq vs objectId hlen
    have hmem := List.mem_of_getElem? hreq
    have hnames := h req (List.mem_append_left _ hmem)
    refine runArgWriteFuncCalls_eq (lookupValue_locals hnames.distinct ?_ ?_)
    · simp only [List.forall_mem_cons]
      exact ⟨hclash.requests req hmem, hnames.ne_of_reserved (by decide), nofun⟩
    · rw [List.length_map, hlen]
  · intro k event hevent packet
    have hnames := h event (List.mem_append_right _ (List.mem_of_getElem? hevent))
    refine run_tokenizeMatchVariant hnames.distinct ?_
    unfold armNames
    simp only [List.forall_mem_cons]
    exact ⟨hnames.notSelf, hnames.ne_of_reserved (by decide), hnames.ne_of_reserved (by decide),
      hnames.ne_of_reserved (by decide), nofun⟩

end Interfaces

def screenOutput : Interface where
  name := "wl_output"
  version := 4
  requests := [⟨"release", []⟩]
  events := [⟨"scale", [⟨"factor", .int, none⟩]⟩]
  enums := [⟨"transform", []⟩]

def screenSurface : Interface where
  name := "wl_surface"
  version := 6
  requests := [⟨"set_buffer_transform", [⟨"transform", .int, none⟩]⟩]
  events := [⟨"enter", [⟨"output", .objectId, some "wl_output"⟩]⟩]
  enums := []

/-- A protocol of two interfaces, one of them with an enum. -/
def screenProtocol : Protocol := ⟨"screen", [screenOutput, screenSurface]⟩

theorem hygienic_iff_screen :
    screenOutput.Hygienic screenProtocol ∧ screenSurface.Hygienic screenProtocol := by
  have hnamed : ∀ interface ∈ screenProtocol.interfaces, interface.WellNamed := by decide
  constructor
  · exact (hygienic_iff screenProtocol hnamed screenOutput (by simp [screenProtocol])).mpr
      ⟨by decide, by decide, by decide⟩
  · exact (hygienic_iff screenProtocol hnamed screenSurface (by simp [screenProtocol])).mpr
      ⟨by decide, by decide, by decide⟩

/-- The variable of the proxy has the name of the argument. -/
theorem connection_argument_hidden :
    ¬ ∀ protocol : Protocol, (∀ interface ∈ protocol.interfaces, interface.WellNamed) →
      ∀ interface ∈ protocol.interfaces, interface.Hygienic protocol := by
  intro h
  let seat : Interface := ⟨"wl_seat", 1, [⟨"join", [⟨"connection", .uint, none⟩]⟩], [], []⟩
  have hnamed : seat.WellNamed := by decide
  have hhygienic := h ⟨"seats", [seat]⟩ (List.forall_mem_singleton.mpr hnamed) seat
    List.mem_cons_self
  exact (noClash_of_hygienic hnamed hhygienic).requests _ (List.mem_singleton.mpr rfl) (by decide)

end WhaleLand
