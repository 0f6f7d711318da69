import WhaleLand.Channel
import WhaleLand.MessageAgreement

/-!
# Messages over a connection

The emitted code at both ends of a connection. A request is sent by its proxy
function and turned back into the fields of its argument struct; the fields of
an event's struct are turned into a packet, and the event handler of the other
end calls the event's method with them. In between are the interleaved calls
of `send_packet` and `recv_packet` (`request_delivered`, `event_delivered`).
The fields come through exactly when the packet is returned with its own
descriptors.
-/

namespace WhaleLand

open Relation Transition CriticalSection Wlproto

/-! ## What can be pushed -/

section Pushes

variable {t : Target}

theorem strPushable_of_pushStr {s : String} {p q : Packet} (h : p.pushStr t s = .ok q) :
    Value.StrPushable s := by
  unfold Packet.pushStr at h
  split at h
  · cases h
  · next hnul =>
    refine ⟨hnul, ?_⟩
    by_contra hlong
    simp only [if_pos (Nat.not_le.mp hlong)] at h
    cases h

theorem length_le_of_pushArray {bytes : List UInt8} {p q : Packet}
    (h : p.pushArray t bytes = .ok q) : bytes.length ≤ u32Max := by
  by_contra hlong
  simp only [Packet.pushArray, if_pos (Nat.not_le.mp hlong)] at h
  cases h

theorem strPushable_of_pushNewId {newObj : NewObject} {p q : Packet}
    (h : p.pushNewIdUnknownInterface t newObj = .ok q) : Value.StrPushable newObj.interface := by
  unfold Packet.pushNewIdUnknownInterface at h
  cases hstr : p.pushStr t newObj.interface with
  | error e =>
    rw [hstr] at h
    cases h
  | ok p' => exact strPushable_of_pushStr hstr

/-- A push that does not panic has been given what it accepts. -/
theorem pushable_of_writeFunc {f : WriteFunc} {v : Value} {p q : Packet}
    (h : f.run t p v = .ok q) : v.Pushable := by
  cases f <;> cases v <;> first | trivial | cases h | skip
  case pushStr.string s => exact strPushable_of_pushStr h
  case pushArray.array bytes => exact length_le_of_pushArray h
  case pushNewIdUnknownInterface.newObject newObj => exact strPushable_of_pushNewId h

theorem pushable_of_pushArgs {args : List Arg} {vs : List Value} {p q : Packet}
    (hty : WellTyped args vs) (h : pushArgs t p args vs = .ok q) : ∀ v ∈ vs, v.Pushable := by
  induction hty generalizing p with
  | nil => simp
  | @cons arg v args vs _ _ ih =>
    rw [pushArgs] at h
    cases hfirst : arg.writeFunc.run t p v with
    | error e =>
      rw [hfirst] at h
      cases h
    | ok p' =>
      rw [hfirst] at h
      exact List.forall_mem_cons.mpr ⟨pushable_of_writeFunc hfirst, ih h⟩

end Pushes

/-! ## One message -/

section OneMessage

variable {t : Target} {nameVer kind : String} {i : Nat} {procedure : Procedure} {a : Env}
  {objectId : ObjectId} {p : Packet}

theorem pushArgs_header {args : List Arg} {vs : List Value} {p q : Packet}
    (hty : WellTyped args vs) (h : pushArgs t p args vs = .ok q) :
    q.objectId = p.objectId ∧ q.opcode = p.opcode := by
  rw [pushArgs_ok hty (pushable_of_pushArgs hty h)] at h
  cases h
  exact ⟨rfl, rfl⟩

theorem maxSize_le_isizeMax (t : Target) : Packet.maxSize ≤ t.isizeMax := by
  unfold Target.isizeMax
  cases t.pointerWidth <;> decide

theorem tryFromPacket_iff (hnodup : (procedure.args.map Arg.name).Nodup)
    (hnames : a.map Prod.fst = procedure.args.map Arg.name) :
    (tokenizeArgsStruct nameVer kind i procedure).tryFromPacket t p = .ok a ↔
      decodeArgs t procedure.args p = .ok (a.map Prod.snd) := by
  rw [tryFromPacket_eq hnodup]
  cases hdecode : decodeArgs t procedure.args p with
  | error e => exact iff_of_false (fun h => by cases h) (fun h => by cases h)
  | ok vs =>
    obtain ⟨hty, _, _⟩ := decodeArgs_ok hdecode
    have hlen : (procedure.args.map Arg.name).length = vs.length := by
      rw [List.length_map]
      exact hty.length_eq
    simp only [Except.map, Except.ok.injEq]
    constructor
    · rintro rfl
      exact (List.map_snd_zip hlen.ge).symm
    · rintro rfl
      exact (List.zip_of_prod hnames rfl).symm

/-- The packet of an argument struct comes through but for its descriptors, and
the fields can be read off it exactly when these are its own. -/
theorem struct_received (hnodup : (procedure.args.map Arg.name).Nodup) (hi : i ≤ 0xFF)
    (ha : (tokenizeArgsStruct nameVer kind i procedure).HasFields a)
    (hp : (tokenizeArgsStruct nameVer kind i procedure).tryIntoPacket t a objectId = .ok p)
    (hsend : p.Sendable) (hown : 4 * p.fds.length ≤ t.isizeMax) (fds : List RawFd) :
    (p.asReceived fds).objectId = objectId ∧ (p.asReceived fds).opcode.toNat = i ∧
      ((tokenizeArgsStruct nameVer kind i procedure).tryFromPacket t (p.asReceived fds) = .ok a ↔
        fds = p.fds) := by
  obtain ⟨hnames, hty⟩ := wellTyped_of_hasFields ha
  rw [tryIntoPacket_eq hnodup hnames] at hp
  obtain ⟨hobject, hopcode⟩ := pushArgs_header hty hp
  have hindex : p.opcode.toNat = i := by
    rw [hopcode]
    exact UInt16.toNat_ofNat_of_lt' (Nat.lt_of_le_of_lt hi (by decide))
  have hlow : p.opcode &&& 0xFF = p.opcode := by
    refine mask_eq_self.mpr ?_
    rw [UInt16.le_iff_toNat_le, hindex]
    exact hi
  have halloc : p.Allocated t :=
    ⟨(Nat.le_of_add_left_le hsend).trans (maxSize_le_isizeMax t), hown⟩
  obtain ⟨q, hq, _, hdecode⟩ := decodeArgs_pushArgs hty (pushable_of_pushArgs hty hp) objectId
    (UInt16.ofNat i)
  cases hp.symm.trans hq
  obtain ⟨_, _, hvalues⟩ := decodeArgs_ok (hdecode halloc)
  refine ⟨hobject, (congrArg UInt16.toNat hlow).trans hindex, ?_⟩
  rw [tryFromPacket_iff hnodup hnames]
  constructor
  · intro h
    obtain ⟨_, _, hreceived⟩ := decodeArgs_ok h
    exact hreceived.symm.trans hvalues
  · rintro rfl
    rw [Packet.asReceived, hlow]
    exact hdecode halloc

end OneMessage

/-! ## Messages between any number of tasks -/

section Delivery

variable {kernel : Kernel} {t : Target} {Sender Receiver : Type} [DecidableEq Sender]
  [DecidableEq Receiver] {c : Channel kernel t Sender Receiver} {interface : Interface} {k i : Nat}
  {p : Packet} {task : Receiver} {o : Except Error Packet} {a : Env} {objectId : ObjectId}

theorem sendable_of_accepted (hrun : ReflTransGen ChannelStep (.opened kernel t Sender Receiver) c)
    (hp : c.accepted[k]? = some p) : p.Sendable := by
  obtain ⟨_, _, _, hps⟩ := wire_of_accepted (linked hrun)
  exact hps p (List.mem_of_getElem? hp)

theorem result_of_finished (hrun : ReflTransGen ChannelStep (.opened kernel t Sender Receiver) c)
    (hp : c.accepted[k]? = some p) (hk : c.receiving.finished[k]? = some (task, (), o)) :
    o = .ok (p.asReceived (kernel.handedOver c.accepted k)) := by
  have hc := linked hrun
  obtain ⟨_, _, hdelivered, _⟩ := history_at_packet hc
  obtain ⟨net, hhist⟩ := (serialized hc.receives).exists_history
  refine ((hdelivered net hhist).2 k task () o hk).packet _ ?_
  rw [Kernel.getElem?_received, hp]
  rfl

/-- If the `k`-th packet to take the lock of the sending end is that of a call
`proxy.send_R(connection, args)`, then the `k`-th finished call of
`recv_packet` has returned a packet for the same object and with the opcode of
`R`, and `R_args::try_from_packet` gives the arguments back exactly if the
packet is returned with its own descriptors. -/
theorem request_delivered (hrun : ReflTransGen ChannelStep (.opened kernel t Sender Receiver) c)
    (hnames : interface.DistinctNames) (hi : i ≤ 0xFF) {req : Procedure} {proxy : RequestProxy}
    {proxyFunc : ProxyFunc} {struct : ArgsStruct} (hreq : interface.requests[i]? = some req)
    (hproxy : interface.requestProxy = some proxy) (hfunc : proxy.proxyFuncs[i]? = some proxyFunc)
    (hstruct : interface.argsStructs[i]? = some struct) (ha : struct.HasFields a)
    (hpacket : proxyFunc.run t objectId true (a.map Prod.snd) = .ok p)
    (hfds : 4 * p.fds.length ≤ t.isizeMax) (hp : c.accepted[k]? = some p)
    (hk : c.receiving.finished[k]? = some (task, (), o)) :
    ∃ q, o = .ok q ∧ q.objectId = objectId ∧ q.opcode.toNat = i ∧
      (struct.tryFromPacket t q = .ok a ↔ kernel.handedOver c.accepted k = p.fds) := by
  have hmem := List.mem_append_left interface.events (List.mem_of_getElem? hreq)
  obtain ⟨proxy', hproxy', hfunc'⟩ := requestProxy_of_request hreq
  cases hproxy.symm.trans hproxy'
  cases hfunc.symm.trans hfunc'
  cases hstruct.symm.trans (argsStructs_request hreq)
  rw [run_tokenizeProxyFunc (hnames.args req hmem) (hnames.introduced req hmem) ha] at hpacket
  exact ⟨_, result_of_finished hrun hp hk, struct_received (hnames.args req hmem) hi ha hpacket
    (sendable_of_accepted hrun hp) hfds _⟩

/-- If the `k`-th packet to take the lock of the sending end was made of the
fields of an `E_args`, then the `k`-th finished call of `recv_packet` has
returned a packet for the same object, and `handle_event` calls `handle_E`
once, with these fields, and succeeds exactly if the packet is returned with
its own descriptors. -/
theorem event_delivered (hrun : ReflTransGen ChannelStep (.opened kernel t Sender Receiver) c)
    (hnames : interface.DistinctNames) (hi : i ≤ 0xFF) {event : Procedure}
    {eventHandler : EventHandlerTrait} {struct : ArgsStruct}
    (hevent : interface.events[i]? = some event)
    (hhandler : interface.eventHandler = some eventHandler)
    (hstruct : interface.argsStructs[interface.requests.length + i]? = some struct)
    (ha : struct.HasFields a) (hpacket : struct.tryIntoPacket t a objectId = .ok p)
    (hfds : 4 * p.fds.length ≤ t.isizeMax) (hp : c.accepted[k]? = some p)
    (hk : c.receiving.finished[k]? = some (task, (), o)) :
    ∃ q, o = .ok q ∧ q.objectId = objectId ∧
      (eventHandler.handleEvent t q = ([.handle ("handle_" ++ event.name) q a], .ok ()) ↔
        kernel.handedOver c.accepted k = p.fds) := by
  have hmem := List.mem_append_right interface.requests (List.mem_of_getElem? hevent)
  cases hstruct.symm.trans (argsStructs_event hevent)
  obtain ⟨hobject, hopcode, hfields⟩ := struct_received (hnames.args event hmem) hi ha hpacket
    (sendable_of_accepted hrun hp) hfds (kernel.handedOver c.accepted k)
  refine ⟨_, result_of_finished hrun hp hk, hobject, ?_⟩
  rw [handleEvent_of_struct hhandler hnames _ _ hevent hopcode, ← hfields]
  cases ArgsStruct.tryFromPacket t _ _ with
  | error e => exact iff_of_false (fun h => by cases h) (fun h => by cases h)
  | ok fields => simp

end Delivery

/-- `wl_registry.bind` with the number 1 and a new `wl_shm`. -/
def bindFields : Env := [("name", .uint 1), ("id", .newObject ⟨.ofNat 3, "wl_shm", 1⟩)]

/-- It is on its way from one task to another. -/
theorem request_delivered_bind :
    ∃ (c : Channel .linux ⟨.little, .w64⟩ Bool Bool) (struct : ArgsStruct) (q : Packet),
      registryInterface.argsStructs[0]? = some struct ∧
      c.receiving.finished = [(false, (), .ok q)] ∧
      struct.tryFromPacket ⟨.little, .w64⟩ q = .ok bindFields := by
  have hnames : registryInterface.DistinctNames := ⟨by decide, by decide, by decide, by decide⟩
  have hpacket : (tokenizeProxyFunc 0 ⟨"bind", bindArgs⟩).run ⟨.little, .w64⟩ (.ofNat 2) true
      (bindFields.map Prod.snd) = .ok ⟨.ofNat 2, 0, encodeAll ⟨.little, .w64⟩ bindValues, []⟩ := by
    rfl
  obtain ⟨c, hrun, haccepted, hreceived⟩ : ∃ c : Channel .linux ⟨.little, .w64⟩ Bool Bool, _ :=
    exists_delivered_one (p := ⟨.ofNat 2, 0, encodeAll ⟨.little, .w64⟩ bindValues, []⟩)
      (by decide +kernel) (by decide +kernel) true false
  obtain ⟨q, hq, _, _, hfields⟩ := request_delivered (k := 0) (i := 0) hrun hnames (by decide)
    rfl rfl rfl rfl (a := bindFields) rfl hpacket (by decide) (by rw [haccepted]; rfl)
    (by rw [hreceived]; rfl)
  refine ⟨c, _, q, rfl, by rw [hreceived, hq], hfields.mpr ?_⟩
  rw [haccepted]
  exact Kernel.handedOver_single _ _

/-- So is `wl_registry.global_remove`. -/
theorem event_delivered_globalRemove :
    ∃ (c : Channel .linux ⟨.little, .w64⟩ Bool Bool) (eventHandler : EventHandlerTrait)
      (q : Packet),
      registryInterface.eventHandler = some eventHandler ∧
      c.receiving.finished = [(false, (), .ok q)] ∧
      eventHandler.handleEvent ⟨.little, .w64⟩ q =
        ([.handle "handle_global_remove" q [("name", .uint 7)]], .ok ()) := by
  have hnames : registryInterface.DistinctNames := ⟨by decide, by decide, by decide, by decide⟩
  have hpacket : (tokenizeArgsStruct registryInterface.nameVer "event" 1
      ⟨"global_remove", [⟨"name", .uint, none⟩]⟩).tryIntoPacket ⟨.little, .w64⟩
      [("name", .uint 7)] (.ofNat 2) = .ok ⟨.ofNat 2, 1, [7, 0, 0, 0], []⟩ := by
    rfl
  obtain ⟨c, hrun, haccepted, hreceived⟩ : ∃ c : Channel .linux ⟨.little, .w64⟩ Bool Bool, _ :=
    exists_delivered_one (p := ⟨.ofNat 2, 1, [7, 0, 0, 0], []⟩) (by decide) (by decide) true false
  obtain ⟨q, hq, _, hcalls⟩ := event_delivered (k := 0) (i := 1) hrun hnames (by decide)
    rfl rfl rfl (a := [("name", .uint 7)]) rfl hpacket (by decide) (by rw [haccepted]; rfl)
    (by rw [hreceived]; rfl)
  refine ⟨c, _, q, rfl, by rw [hreceived, hq], hcalls.mpr ?_⟩
  rw [haccepted]
  exact Kernel.handedOver_single _ _

end WhaleLand
