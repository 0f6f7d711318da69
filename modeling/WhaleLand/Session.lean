import WhaleLand.Interfaces
import WhaleLand.TypedMessages

/-!
# Sessions

What the messages of a connection mean to its two ends: which objects there
are, with which interfaces, and what has been announced in the registry. A
request is accepted if its object exists, its opcode and its arguments are
those of a request of that object's interface, the objects that it names exist
with the interfaces that it wants, and the ids of its new objects are the next
ones in turn. Interfaces are told apart by their names. Objects stay: the
client destroys none.
-/

namespace WhaleLand

open Wlproto

/-- A message of a session: a packet from the server or to it. -/
inductive Message
  | event (packet : Packet)
  | request (packet : Packet)
deriving DecidableEq, Repr

/-- The names of the objects' interfaces, by their ids from 1 on, the announced
globals, and the layer surfaces with the surfaces that they were made of. -/
structure WlSession where
  interfaces : List String
  globals : List (UInt32 × String × UInt32)
  layerSurfaces : List (ObjectId × ObjectId)
deriving DecidableEq, Repr

theorem ObjectId.toNat_inj {a b : ObjectId} : a.val.toNat = b.val.toNat ↔ a = b := by
  constructor
  · intro h
    have hval := UInt32.toNat_inj.mp h
    cases a
    cases b
    cases hval
    rfl
  · rintro rfl
    rfl

namespace WlSession

/-- There is the display, and nothing has been announced. -/
def opened : WlSession := ⟨["wl_display"], [], []⟩

def interfaceOf (s : WlSession) (objectId : ObjectId) : Option String :=
  s.interfaces[objectId.val.toNat - 1]?

/-- The id whose turn it is. -/
def nextId (s : WlSession) : Nat := s.interfaces.length + 1

def created (s : WlSession) (interface : String) : WlSession :=
  { s with interfaces := s.interfaces ++ [interface] }

def create (s : WlSession) (objectId : ObjectId) (interface : String) : Option WlSession :=
  if objectId.val.toNat = s.nextId then some (s.created interface) else none

/-- An argument is in order; an id for a new object makes it exist. -/
def argument (s : WlSession) (arg : Arg) : Value → Option WlSession
  | .object (some objectId) =>
    match s.interfaceOf objectId with
    | some interface => if arg.interface.all (· == interface) then some s else none
    | none => none
  | .newId newId => arg.interface.bind fun interface => s.create newId.objectId interface
  | .newObject newObject => s.create newObject.objectId newObject.interface
  | .uint _ | .int _ | .fixed _ | .string _ | .object none | .array _ | .fd _ => some s

def arguments (s : WlSession) : List Arg → List Value → Option WlSession
  | [], [] => some s
  | arg :: args, v :: vs => (s.argument arg v).bind fun s => s.arguments args vs
  | _, _ => none

/-- A new object with a free choice of interface is for a global, with the
name, the interface and the version that were announced. -/
def binds (s : WlSession) : List Value → Bool
  | [.uint name, .newObject newObject] =>
    s.globals.contains (name, newObject.interface, newObject.interfaceVersion)
  | vs => vs.all fun v => v.type != .newObject

def promote (s : WlSession) (layerSurface surface : ObjectId) : WlSession :=
  { s with layerSurfaces := s.layerSurfaces ++ [(layerSurface, surface)] }

/-- What an accepted request with these arguments does:
`zwlr_layer_shell_v1.get_layer_surface` makes a layer surface of a surface. -/
def carryOut (s : WlSession) (interface : String) (opcode : UInt16) : List Value → WlSession
  | .newId layerSurface :: .object (some surface) :: _ =>
    if interface = zwlrLayerShell.name ∧ opcode = 0 then
      s.promote layerSurface.objectId surface
    else
      s
  | _ => s

section Messages

variable (t : Target)

/-- The session after a request, if it is accepted. -/
def request (s : WlSession) (p : Packet) : Option WlSession := do
  let name ← s.interfaceOf p.objectId
  let interface ← clientInterfaces.find? (·.name == name)
  let req ← interface.requests[p.opcode.toNat]?
  let vs ← (decodeArgs t req.args p).toOption
  if s.binds vs then
    (s.arguments req.args vs).map (·.carryOut name p.opcode vs)
  else
    none

/-- The session after an event: `wl_registry.global` announces a global. -/
def event (s : WlSession) (p : Packet) : WlSession :=
  if s.interfaceOf p.objectId = some wlRegistry.name ∧ p.opcode = 0 then
    match decodeArgs t [⟨"name", .uint, none⟩, ⟨"interface", .string, none⟩,
      ⟨"version", .uint, none⟩] p with
    | .ok [.uint name, .string interface, .uint version] =>
      { s with globals := s.globals ++ [(name, interface, version)] }
    | _ => s
  else
    s

def message (s : WlSession) : Message → Option WlSession
  | .event packet => some (s.event t packet)
  | .request packet => s.request t packet

/-- The session after a conversation, if all its requests are accepted. -/
def converse (s : WlSession) (messages : List Message) : Option WlSession :=
  messages.foldlM (fun s m => s.message t m) s

end Messages

/-! ## Objects that exist -/

section Objects

variable {s : WlSession} {objectId : ObjectId} {interface other : String}

/-- There is such an object. -/
def Has (s : WlSession) (objectId : ObjectId) (interface : String) : Prop :=
  s.interfaceOf objectId = some interface

instance (s : WlSession) (objectId : ObjectId) (interface : String) :
    Decidable (s.Has objectId interface) :=
  inferInstanceAs (Decidable (_ = _))

theorem nextId_created : (s.created interface).nextId = s.nextId + 1 := by
  simp [nextId, created]

theorem nextId_promote {layerSurface surface : ObjectId} :
    (s.promote layerSurface surface).nextId = s.nextId :=
  rfl

theorem Has.lt (h : s.Has objectId interface) : objectId.val.toNat < s.nextId := by
  obtain ⟨hlt, _⟩ := List.getElem?_eq_some_iff.mp h
  unfold nextId
  omega

theorem interfaceOf_created_of_lt (h : objectId.val.toNat < s.nextId) :
    (s.created other).interfaceOf objectId = s.interfaceOf objectId := by
  have hpos : objectId.val.toNat ≠ 0 := fun hzero =>
    objectId.nonzero (UInt32.toNat_inj.mp hzero)
  unfold nextId at h
  exact List.getElem?_append_left (by omega)

theorem has_created (h : objectId.val.toNat = s.nextId) :
    (s.created interface).Has objectId interface := by
  show (s.interfaces ++ [interface])[objectId.val.toNat - 1]? = some interface
  rw [h, nextId, Nat.add_sub_cancel, List.getElem?_concat_length]

theorem Has.created (h : s.Has objectId interface) : (s.created other).Has objectId interface :=
  (interfaceOf_created_of_lt h.lt).trans h

/-- The object that was not there before is the new one. -/
theorem has_created_iff :
    (s.created other).Has objectId interface ↔
      s.Has objectId interface ∨ (objectId.val.toNat = s.nextId ∧ interface = other) := by
  constructor
  · intro h
    have hle := h.lt
    rw [nextId_created, Nat.lt_succ_iff] at hle
    rcases Nat.lt_or_eq_of_le hle with hlt | heq
    · exact .inl ((interfaceOf_created_of_lt hlt).symm.trans h)
    · have hnew : (s.created other).Has objectId other := has_created heq
      exact .inr ⟨heq, Option.some.inj (h.symm.trans hnew)⟩
  · rintro (h | ⟨h, rfl⟩)
    · exact h.created
    · exact has_created h

theorem event_interfaces (t : Target) (s : WlSession) (p : Packet) :
    (s.event t p).interfaces = s.interfaces := by
  unfold event
  split
  · split <;> rfl
  · rfl

theorem layerSurfaces_event (t : Target) (s : WlSession) (p : Packet) :
    (s.event t p).layerSurfaces = s.layerSurfaces := by
  unfold event
  split
  · split <;> rfl
  · rfl

theorem has_event {t : Target} {p : Packet} :
    (s.event t p).Has objectId interface ↔ s.Has objectId interface := by
  unfold Has interfaceOf
  rw [event_interfaces]

/-- The globals that `wl_registry.global` announces. -/
theorem mem_globals_event {t : Target} {p : Packet} {name version : UInt32}
    (hregistry : s.Has p.objectId wlRegistry.name) (hopcode : p.opcode = 0)
    (hdecode : decodeArgs t [⟨"name", .uint, none⟩, ⟨"interface", .string, none⟩,
      ⟨"version", .uint, none⟩] p = .ok [.uint name, .string interface, .uint version]) :
    (name, interface, version) ∈ (s.event t p).globals := by
  unfold event
  rw [if_pos ⟨hregistry, hopcode⟩, hdecode]
  exact List.mem_append_right _ (List.mem_singleton_self _)

theorem create_eq_some (h : objectId.val.toNat = s.nextId) :
    s.create objectId interface = some (s.created interface) :=
  if_pos h

end Objects

end WlSession

/-! ## The packets of requests -/

/-- The packet of a request: what a proxy sends. -/
def requestPacket (t : Target) (objectId : ObjectId) (k : Nat) (vs : List Value) : Packet :=
  ⟨objectId, UInt16.ofNat k, encodeAll t vs, fdsOfValues vs⟩

section Packets

variable {t : Target} {s s' : WlSession} {interface : Interface} {k : Nat} {req : Procedure}
  {objectId : ObjectId} {vs : List Value}

theorem run_proxyFunc (hmem : interface ∈ clientInterfaces)
    (hreq : interface.requests[k]? = some req) (hty : WellTyped req.args vs)
    (hpush : ∀ v ∈ vs, v.Pushable) :
    (tokenizeProxyFunc k req).run t objectId true vs = .ok (requestPacket t objectId k vs) := by
  have hnames := distinctNames_of_mem hmem
  have hprocedure := List.mem_append_left interface.events (List.mem_of_getElem? hreq)
  have hfields : (tokenizeArgsStruct "" "" k req).HasFields ((req.args.map Arg.name).zip vs) :=
    hasFields_zip hty
  have hlen : (req.args.map Arg.name).length = vs.length := by
    rw [List.length_map, hty.length_eq]
  have hrun := run_tokenizeProxyFunc (t := t) (hnames.args req hprocedure)
    (hnames.introduced req hprocedure) hfields objectId
  rw [tryIntoPacket_eq (hnames.args req hprocedure) (wellTyped_of_hasFields hfields).1,
    List.map_snd_zip (Nat.le_of_eq hlen.symm), pushArgs_ok hty hpush] at hrun
  exact hrun

/-- A request of an object's interface, with arguments that are in order. -/
theorem WlSession.request_requestPacket (hmem : interface ∈ clientInterfaces)
    (hreq : interface.requests[k]? = some req) (hk : k < 65536) (hty : WellTyped req.args vs)
    (hpush : ∀ v ∈ vs, v.Pushable) (hsend : (requestPacket t objectId k vs).Sendable)
    (hfds : (fdsOfValues vs).length ≤ 1) (hobject : s.Has objectId interface.name)
    (hbinds : s.binds vs = true) (hargs : s.arguments req.args vs = some s') :
    s.request t (requestPacket t objectId k vs) =
      some (s'.carryOut interface.name (.ofNat k) vs) := by
  have hfind : clientInterfaces.find? (·.name == interface.name) = some interface :=
    Scope.find?_key_of_mem (by decide) hmem
  have hopcode : (requestPacket t objectId k vs).opcode.toNat = k := UInt16.toNat_ofNat_of_lt' hk
  have hroom : 4 ≤ t.isizeMax := Nat.le_trans (by decide) (maxSize_le_isizeMax t)
  have halloc : (requestPacket t objectId k vs).Allocated t :=
    ⟨(Nat.le_of_add_left_le hsend).trans (maxSize_le_isizeMax t),
      (Nat.mul_le_mul_left 4 hfds).trans hroom⟩
  obtain ⟨p, hp, _, hdecode⟩ := decodeArgs_pushArgs (t := t) hty hpush objectId (UInt16.ofNat k)
  have hpacket : p = requestPacket t objectId k vs := by
    rw [pushArgs_ok hty hpush] at hp
    exact (Except.ok.inj hp).symm
  subst hpacket
  unfold request
  have hobject' : s.interfaceOf (requestPacket t objectId k vs).objectId = some interface.name :=
    hobject
  simp only [hobject', Option.bind_eq_bind, Option.bind_some, hfind, hopcode, hreq,
    hdecode halloc, Except.toOption, hbinds, if_true, hargs, Option.map_some]
  rfl

end Packets

end WhaleLand
