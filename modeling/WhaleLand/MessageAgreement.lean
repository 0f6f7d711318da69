import WhaleLand.ArgsRoundTrip
import WhaleLand.MessageCode

/-!
# The code paths of a message agree

Three pieces of code are emitted for a message: the conversions of its argument
struct, and the function of the request proxy or the arm of the event handler.
A proxy sends the packet that the struct is turned into (`run_tokenizeProxyFunc`);
an arm passes on the fields that the struct is given (`run_tokenizeMatchVariant`).
Both are seen by comparing with the encoding and decoding of the argument list.
`code_paths_agree` puts them together for an interface.
-/

namespace WhaleLand

open Wlproto PacketReader

/-! ## Names -/

/-- The names that the generator introduces in functions with arguments. -/
def introducedNames : List String :=
  ["self", "connection", "packet", "__packet", "__connection", "__packet_reader", "__other",
    "__value", "__reader", "__object_id", "__structure"]

/-- The names of an interface do not clash. -/
structure Wlproto.Interface.DistinctNames (interface : Interface) : Prop where
  requests : (interface.requests.map Procedure.name).Nodup
  events : (interface.events.map Procedure.name).Nodup
  args : ∀ procedure ∈ interface.requests ++ interface.events,
    (procedure.args.map Arg.name).Nodup
  introduced : ∀ procedure ∈ interface.requests ++ interface.events,
    ∀ name ∈ introducedNames, name ∉ procedure.args.map Arg.name

section Names

variable {names : List String} {vs : List Value} {outer : Locals}

theorem lookupValue_cons_of_ne {name other : String} {binding : Binding} (h : name ≠ other) :
    Locals.lookupValue ((other, binding) :: outer) name = outer.lookupValue name := by
  rw [Locals.lookupValue, Scope.lookup_cons_of_ne h, Locals.lookupValue]

/-- Arguments with distinct names are found by their names. -/
theorem lookupValue_bindAll (outer : Locals) (hnodup : names.Nodup)
    (hlen : names.length = vs.length) :
    List.Forall₂
      (fun name v => Locals.lookupValue (Scope.bindAll names (vs.map .value) outer) name = some v)
      names vs := by
  have hlen' : names.length = (vs.map Binding.value).length := by rw [hlen, List.length_map]
  have hbound := Scope.lookup_bindAll outer hnodup hlen'
  rw [List.forall₂_map_right_iff] at hbound
  refine hbound.imp fun name v h => ?_
  rw [Locals.lookupValue, h]
  rfl

/-- A name that no argument has keeps its meaning. -/
theorem means_bindAll {name : String} {binding : Binding} (h : name ∉ names)
    (houter : outer.Means name binding) :
    Locals.Means (Scope.bindAll names (vs.map .value) outer) name binding := by
  rw [Locals.Means, Scope.lookup_bindAll_of_notMem h]
  exact houter

theorem useName_of_means {name : String} {binding : Binding} (h : outer.Means name binding) :
    useName outer name binding = pure () :=
  if_pos h

/-- Names that all have a value are passed on with their values. -/
theorem mapM_lookupValue
    (h : List.Forall₂ (fun name v => outer.lookupValue name = some v) names vs) :
    names.mapM (fun name => outer.lookupValue name) = some vs := by
  induction h with
  | nil => rfl
  | cons hv _ ih =>
    rw [List.mapM_cons, hv, ih]
    rfl

end Names

/-! ## Proxies -/

section Proxies

variable {t : Target} {locals : Locals}

theorem runArgWriteFuncCalls_eq {args : List Arg} {vs : List Value} {p : Packet}
    (h : List.Forall₂ (fun name v => locals.lookupValue name = some v) (args.map Arg.name) vs) :
    runArgWriteFuncCalls t locals
      (args.map fun arg => ⟨arg.writeFunc, arg.writeReference, arg.name⟩) p =
        pushArgs t p args vs := by
  rw [List.forall₂_map_left_iff] at h
  induction h generalizing p with
  | nil => rfl
  | @cons arg v args vs hv _ ih =>
    simp only [List.map_cons, runArgWriteFuncCalls, pushArgs, hv]
    exact bind_congr fun q => ih

/-- The proxy of an interface has a function for each request. -/
theorem requestProxy_of_request {interface : Interface} {k : Nat} {req : Procedure}
    (h : interface.requests[k]? = some req) :
    ∃ proxy, interface.requestProxy = some proxy ∧
      proxy.proxyFuncs[k]? = some (tokenizeProxyFunc k req) := by
  obtain ⟨hlt, _⟩ := List.getElem?_eq_some_iff.mp h
  exact ⟨_, if_pos (Nat.zero_lt_of_lt hlt), by simp [h]⟩

/-- The function's own variables do not hide the parameters. -/
theorem lookupValue_locals {k : Nat} {req : Procedure} {vs : List Value}
    (hnodup : (req.args.map Arg.name).Nodup)
    (hown : ∀ name ∈ ["connection", "__packet"], name ∉ req.args.map Arg.name)
    (hlen : (req.args.map Arg.name).length = vs.length) :
    List.Forall₂ (fun name v => ((tokenizeProxyFunc k req).locals vs).lookupValue name = some v)
      (req.args.map Arg.name) vs := by
  have hparams : (tokenizeProxyFunc k req).args.map Prod.fst = req.args.map Arg.name := by
    simp [tokenizeProxyFunc]
  have hbound := lookupValue_bindAll [("self", .receiver)] hnodup hlen
  refine List.forall₂_iff_zip.mpr ⟨hlen, fun {name v} hmem => ?_⟩
  have hne : ∀ other ∈ ["connection", "__packet"], name ≠ other := by
    rintro other hother rfl
    exact hown name hother (List.of_mem_zip hmem).1
  rw [ProxyFunc.locals, hparams, lookupValue_cons_of_ne (hne _ (by decide)),
    lookupValue_cons_of_ne (hne _ (by decide))]
  exact (List.forall₂_iff_zip.mp hbound).2 hmem

/-- The packet of a `send_*` call is that of the argument struct. -/
theorem run_tokenizeProxyFunc {nameVer kind : String} {k : Nat} {req : Procedure} {a : Env}
    (hnodup : (req.args.map Arg.name).Nodup)
    (hintroduced : ∀ name ∈ introducedNames, name ∉ req.args.map Arg.name)
    (ha : (tokenizeArgsStruct nameVer kind k req).HasFields a) (objectId : ObjectId) :
    (tokenizeProxyFunc k req).run t objectId true (a.map Prod.snd) =
      (tokenizeArgsStruct nameVer kind k req).tryIntoPacket t a objectId := by
  obtain ⟨hnames, hty⟩ := wellTyped_of_hasFields ha
  have hown : ∀ name ∈ ["connection", "__packet"], name ∈ introducedNames := by decide
  have hlen : (req.args.map Arg.name).length = (a.map Prod.snd).length := by
    rw [List.length_map]
    exact hty.length_eq
  rw [tryIntoPacket_eq hnodup hnames]
  exact runArgWriteFuncCalls_eq
    (lookupValue_locals hnodup (fun name hmem => hintroduced name (hown name hmem)) hlen)

end Proxies

/-! ## Event handlers -/

section EventHandlers

variable {t : Target} {p : Packet}

/-- The decoders of an arm read the arguments and bind them to their names. -/
theorem runArgDecoders_eq {args : List Arg} {locals : Locals}
    (hnew : "__packet_reader" ∉ args.map Arg.name)
    (hreader : locals.Means "__packet_reader" .packetReader) :
    runArgDecoders t p (args.map fun arg => ⟨arg.name, arg.readFunc⟩) locals = (do
      let vs ← readArgs t p args
      return Scope.bindAll (args.map Arg.name) (vs.map .value) locals) := by
  induction args generalizing locals with
  | nil => rfl
  | cons arg args ih =>
    rw [List.map_cons, List.mem_cons, not_or] at hnew
    obtain ⟨hne, hnew⟩ := hnew
    simp only [List.map_cons, runArgDecoders, useName_of_means hreader, readArgs, pure_bind,
      bind_assoc, Scope.bindAll_cons]
    refine bind_congr fun v => ih hnew ?_
    rw [Locals.Means, Scope.lookup_cons_of_ne hne]
    exact hreader

/-- The names that an arm refers to next to those of its arguments. -/
def armNames : List String := ["self", "__connection", "__packet", "__packet_reader"]

/-- An arm passes on the decoded arguments. -/
theorem run_tokenizeMatchVariant {k : Nat} {event : Procedure}
    (hnodup : (event.args.map Arg.name).Nodup)
    (harm : ∀ name ∈ armNames, name ∉ event.args.map Arg.name) :
    runReader ((tokenizeMatchVariant k event).run t p) = decodeArgs t event.args p := by
  have hreader : handleEventLocals.Means "__packet_reader" .packetReader := rfl
  simp only [MatchVariant.run, tokenizeMatchVariant,
    runArgDecoders_eq (harm _ (by decide)) hreader, bind_assoc, pure_bind]
  refine (runReader_readArgs (g := id) fun vs hlen => ?_).trans (by rw [Except.map_id, id])
  -- the generator's names still mean what it means by them, and the arguments are found
  have hlocals := lookupValue_bindAll handleEventLocals hnodup
    (by rw [List.length_map, hlen])
  have hmeans : ∀ {name : String} {binding : Binding}, name ∈ armNames →
      handleEventLocals.Means name binding → Locals.Means (Scope.bindAll (event.args.map Arg.name)
        (vs.map .value) handleEventLocals) name binding :=
    fun hmem => means_bindAll (harm _ hmem)
  rw [useName_of_means (hmeans (by decide) hreader),
    useName_of_means (hmeans (by decide) (rfl : handleEventLocals.Means "self" .receiver)),
    useName_of_means
      (hmeans (by decide) (rfl : handleEventLocals.Means "__connection" .connection)),
    useName_of_means (hmeans (by decide) (rfl : handleEventLocals.Means "__packet" .packet)),
    mapM_lookupValue hlocals]
  rfl

variable {interface : Interface} {eventHandler : EventHandlerTrait}

theorem exists_eventHandler (h : interface.events ≠ []) :
    ∃ eventHandler, interface.eventHandler = some eventHandler :=
  ⟨_, if_pos (List.length_pos_of_ne_nil h)⟩

/-- What the trait of an interface consists of. -/
theorem eventHandler_eq (h : interface.eventHandler = some eventHandler) :
    eventHandler.handleFuncPrototypes = interface.events.map tokenizeHandleFuncPrototype ∧
      eventHandler.matchVariants =
        interface.events.zipIdx.map fun (event, i) => tokenizeMatchVariant i event := by
  unfold Interface.eventHandler at h
  split at h
  · cases h
    exact ⟨rfl, rfl⟩
  · cases h

/-- The arm for an opcode is that of the event with this index. -/
theorem find?_matchVariants_of_event (h : interface.eventHandler = some eventHandler)
    {k : Nat} {event : Procedure} (hevent : interface.events[k]? = some event) :
    eventHandler.matchVariants.find? (·.eventIndexLiteral == k) =
      some (tokenizeMatchVariant k event) := by
  have hliterals : ((interface.events.zipIdx.map fun (event, i) =>
      tokenizeMatchVariant i event).map MatchVariant.eventIndexLiteral).Nodup := by
    have hindices : (interface.events.zipIdx.map Prod.snd).Nodup := by
      rw [List.zipIdx_map_snd]
      exact List.nodup_range'
    rw [List.map_map]
    exact hindices
  have hmem : tokenizeMatchVariant k event ∈ interface.events.zipIdx.map fun (event, i) =>
      tokenizeMatchVariant i event :=
    List.mem_map.mpr ⟨(event, k), List.mk_mem_zipIdx_iff_getElem?.mpr hevent, rfl⟩
  rw [(eventHandler_eq h).2]
  exact Scope.find?_key_of_mem hliterals hmem

/-- No arm is for an opcode past the last event. -/
theorem find?_matchVariants_of_le (h : interface.eventHandler = some eventHandler) {k : Nat}
    (hle : interface.events.length ≤ k) :
    eventHandler.matchVariants.find? (·.eventIndexLiteral == k) = none := by
  rw [(eventHandler_eq h).2, List.find?_eq_none]
  intro variant hmem
  obtain ⟨⟨event, i⟩, hi, rfl⟩ := List.mem_map.mp hmem
  obtain ⟨hlt, _⟩ := List.getElem?_eq_some_iff.mp (List.mk_mem_zipIdx_iff_getElem?.mp hi)
  have hne : i ≠ k := Nat.ne_of_lt (Nat.lt_of_lt_of_le hlt hle)
  show ¬(i == k) = true
  simpa using hne

/-- The method that an event's arm calls is the one with the event's parameters. -/
theorem call_of_event (h : interface.eventHandler = some eventHandler)
    (hnodup : (interface.events.map Procedure.name).Nodup) {event : Procedure}
    (hmem : event ∈ interface.events) (args : List Value) :
    eventHandler.call ("handle_" ++ event.name) p args =
      some (.handle ("handle_" ++ event.name) p ((event.args.map Arg.name).zip args)) := by
  have hnames : ((interface.events.map tokenizeHandleFuncPrototype).map
      HandleFuncPrototype.handleFuncName).Nodup := by
    have hinj : Function.Injective ("handle_" ++ · : String → String) :=
      fun _ _ h => (String.append_right_inj _).mp h
    have hmapped := hnodup.map hinj
    rw [List.map_map] at hmapped ⊢
    exact hmapped
  have hfind := Scope.find?_key_of_mem hnames (List.mem_map_of_mem hmem)
  rw [EventHandlerTrait.call, (eventHandler_eq h).1]
  simp only [tokenizeHandleFuncPrototype] at hfind ⊢
  rw [hfind]
  simp [Function.comp_def]

/-- The arm of an event calls its method with the decoded arguments, or returns
the error of the decoding. -/
theorem handleEvent_of_event (h : interface.eventHandler = some eventHandler)
    (hnames : interface.DistinctNames) {k : Nat} {event : Procedure}
    (hevent : interface.events[k]? = some event) (hop : p.opcode.toNat = k) :
    eventHandler.handleEvent t p =
      match decodeArgs t event.args p with
      | .ok args =>
        ([.handle ("handle_" ++ event.name) p ((event.args.map Arg.name).zip args)], .ok ())
      | .error e => ([], .error e) := by
  have hmem := List.mem_of_getElem? hevent
  have hprocedure := List.mem_append_right interface.requests hmem
  have harm : ∀ name ∈ armNames, name ∈ introducedNames := by decide
  rw [EventHandlerTrait.handleEvent, hop, find?_matchVariants_of_event h hevent]
  simp only
  rw [run_tokenizeMatchVariant (hnames.args event hprocedure)
    fun name hname => hnames.introduced event hprocedure name (harm name hname)]
  cases decodeArgs t event.args p with
  | error e => rfl
  | ok args => simp only [tokenizeMatchVariant, call_of_event h hnames.events hmem]

/-- The arguments are the fields that the event's argument struct gets. -/
theorem handleEvent_of_struct (h : interface.eventHandler = some eventHandler)
    (hnames : interface.DistinctNames) (nameVer kind : String) {k : Nat} {event : Procedure}
    (hevent : interface.events[k]? = some event) (hop : p.opcode.toNat = k) :
    eventHandler.handleEvent t p =
      match (tokenizeArgsStruct nameVer kind k event).tryFromPacket t p with
      | .ok fields => ([.handle ("handle_" ++ event.name) p fields], .ok ())
      | .error e => ([], .error e) := by
  have hprocedure := List.mem_append_right interface.requests (List.mem_of_getElem? hevent)
  rw [handleEvent_of_event h hnames hevent hop, tryFromPacket_eq (hnames.args event hprocedure)]
  cases decodeArgs t event.args p <;> rfl

theorem handleEvent_of_le (h : interface.eventHandler = some eventHandler)
    (hle : interface.events.length ≤ p.opcode.toNat) :
    eventHandler.handleEvent t p = ([.unknownEvent p], .ok ()) := by
  rw [EventHandlerTrait.handleEvent, find?_matchVariants_of_le h hle]

end EventHandlers

/-! ## The agreement -/

/-- For an interface whose names do not clash:
1. `send_R` hands to `send_packet` the packet that `R_args` is turned into;
2. `handle_event` calls `handle_E` once with the fields that `E_args` gets from
   the packet and succeeds, or calls nothing and returns the error of that
   conversion; it calls `unknown_event` once and succeeds if the opcode is no
   event's index. -/
theorem code_paths_agree (t : Target) (interface : Interface) (h : interface.DistinctNames) :
    (∀ (k : Nat) (req : Procedure), interface.requests[k]? = some req →
      ∃ struct proxy proxyFunc, interface.argsStructs[k]? = some struct ∧
        struct.name = interface.nameVer ++ "_request_" ++ req.name ++ "_args" ∧
        interface.requestProxy = some proxy ∧ proxy.proxyFuncs[k]? = some proxyFunc ∧
        proxyFunc.reqName = "send_" ++ req.name ∧
        ∀ (a : Env) (objectId : ObjectId), struct.HasFields a →
          proxyFunc.run t objectId true (a.map Prod.snd) = struct.tryIntoPacket t a objectId) ∧
    (interface.events ≠ [] → ∃ eventHandler, interface.eventHandler = some eventHandler ∧
      ∀ p : Packet,
        (∀ (k : Nat) (event : Procedure), interface.events[k]? = some event → p.opcode.toNat = k →
          ∃ struct, interface.argsStructs[interface.requests.length + k]? = some struct ∧
            struct.name = interface.nameVer ++ "_event_" ++ event.name ++ "_args" ∧
            eventHandler.handleEvent t p =
              match struct.tryFromPacket t p with
              | .ok fields => ([.handle ("handle_" ++ event.name) p fields], .ok ())
              | .error e => ([], .error e)) ∧
        (interface.events.length ≤ p.opcode.toNat →
          eventHandler.handleEvent t p = ([.unknownEvent p], .ok ()))) := by
  constructor
  · intro k req hreq
    have hmem := List.mem_append_left interface.events (List.mem_of_getElem? hreq)
    obtain ⟨proxy, hproxy, hfunc⟩ := requestProxy_of_request hreq
    refine ⟨_, proxy, _, argsStructs_request hreq, ?_, hproxy, hfunc, rfl,
      fun a objectId ha => ?_⟩
    · simp [tokenizeArgsStruct, String.append_assoc]
    · exact run_tokenizeProxyFunc (h.args req hmem) (h.introduced req hmem) ha objectId
  · intro hne
    obtain ⟨eventHandler, hhandler⟩ := exists_eventHandler hne
    refine ⟨eventHandler, hhandler, fun p => ⟨fun k event hevent hop => ?_, ?_⟩⟩
    · refine ⟨_, argsStructs_event hevent, ?_, handleEvent_of_struct hhandler h _ _ hevent hop⟩
      simp [tokenizeArgsStruct, String.append_assoc]
    · exact handleEvent_of_le hhandler

/-- `wl_registry`: one request and two events. -/
def registryInterface : Interface where
  name := "wl_registry"
  version := 1
  requests := [⟨"bind", [⟨"name", .uint, none⟩, ⟨"id", .newId, none⟩]⟩]
  events := [
    ⟨"global", [⟨"name", .uint, none⟩, ⟨"interface", .string, none⟩, ⟨"version", .uint, none⟩]⟩,
    ⟨"global_remove", [⟨"name", .uint, none⟩]⟩]

theorem code_paths_agree_registry :
    ∃ eventHandler, registryInterface.eventHandler = some eventHandler ∧
      eventHandler.handleEvent ⟨.little, .w64⟩ (Packet.new (.ofNat 2) 7) =
        ([.unknownEvent (Packet.new (.ofNat 2) 7)], .ok ()) := by
  have hnames : registryInterface.DistinctNames :=
    ⟨by decide, by decide, by decide, by decide⟩
  obtain ⟨eventHandler, heq, hrun⟩ :=
    (code_paths_agree ⟨.little, .w64⟩ registryInterface hnames).2 (by decide)
  exact ⟨eventHandler, heq, (hrun (Packet.new (.ofNat 2) 7)).2 (by decide)⟩

end WhaleLand
