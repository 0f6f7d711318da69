import WhaleLand.ActivateLinux
import WhaleLand.Registry

/-!
# The client keeps to its session

Whatever packets come in, and whatever calls fail: as long as there are object
ids, every request that the client sends is accepted by the session of its
connection (`requests_accepted`), and the event handlers that it has registered
are those of the objects with events (`finds_handlers`). Both come from one
invariant of the client and the session (`Agrees`), which every turn of the
loop keeps.
-/

namespace WhaleLand.ActivateLinux

open Program Wlproto Dispatch

/-! ## The client and the session -/

/-- The event handler that the next `dispatch` finds for an object. -/
def Client.registry (c : Client) : ObjectId → Option Handler :=
  State.registry
    ⟨fun _ : Unit => .idle, c.queuedEventHandlerOperations, c.objectIdToEventHandler⟩

/-- The requests of the client have been accepted, and have led to the
session. -/
def Client.Converses (t : Target) (c : Client) (s : WlSession) : Prop :=
  WlSession.opened.converse t c.conversation = some s

/-- The objects that the display state names are what they should be. The
layer surface is the latest one, made of the surface, and the others are there
before it. -/
structure DisplayState.Agrees (d : DisplayState) (s : WlSession) : Prop where
  compositor : ∀ o, d.compositorOid = some o → s.Has o wlCompositor.name
  layerShell : ∀ o, d.layerShellOid = some o → s.Has o zwlrLayerShell.name
  shm : ∀ o, d.shmOid = some o → s.Has o wlShm.name
  surface : ∀ o, d.surfaceOid = some o → s.Has o wlSurface.name
  layerSurface : ∀ o, d.layerSurfaceOid = some o → s.Has o zwlrLayerSurface.name
  latest : ∀ o o', d.layerSurfaceOid = some o → s.Has o' zwlrLayerSurface.name →
    o'.val.toNat ≤ o.val.toNat
  promoted : ∀ o o', d.layerSurfaceOid = some o → d.surfaceOid = some o' →
    (o, o') ∈ s.layerSurfaces
  complete : ∀ o, s.Has o zwlrLayerSurface.name →
    d.compositorOid.isSome ∧ d.shmOid.isSome ∧ d.surfaceOid.isSome ∧ d.layerSurfaceOid.isSome

/-- Between two packets, the client knows the session. -/
structure Client.Agrees (t : Target) (c : Client) (s : WlSession) : Prop where
  converses : c.Converses t s
  nextObjectId : c.nextObjectId = .ofNat s.nextId
  displayState : c.displayState.Agrees s
  handlers : ∀ o (h : Handler), c.registry o = some h ↔ s.Has o h.interface.name

/-- How the client may stop: with all requests accepted, and without a missing
object. -/
structure Stopped (t : Target) (stop : Stop) (c : Client) : Prop where
  converses : ∃ s, c.Converses t s
  unwraps : stop ≠ .unwrapNone
  compiles : stop ≠ .doesNotCompile

/-! ## Registrations -/

section Registrations

variable {c : Client} {s : WlSession} {objectId : ObjectId} {eventHandler : Handler}

theorem Handler.interface_injective {h h' : Handler}
    (heq : h.interface.name = h'.interface.name) : h = h' := by
  revert heq
  cases h <;> cases h' <;> decide

theorem registry_registering :
    (c.registering objectId eventHandler).registry =
      Function.update c.registry objectId (some eventHandler) :=
  registry_insert ⟨fun _ : Unit => .idle, c.queuedEventHandlerOperations, c.objectIdToEventHandler⟩
    ⟨objectId, .register eventHandler⟩

@[simp] theorem registry_logging (log : List Action) : (c.logging log).registry = c.registry := rfl

@[simp] theorem registry_acting (action : Action) : (c.acting action).registry = c.registry := rfl

@[simp] theorem registry_showing (f : DisplayState → DisplayState) :
    (c.showing f).registry = c.registry := rfl

@[simp] theorem registry_counting (nextObjectId : UInt32) :
    (c.counting nextObjectId).registry = c.registry := rfl

/-- What `dispatch` finds in the map. -/
theorem getElem?_draining (c : Client) (objectId : ObjectId) :
    c.draining.objectIdToEventHandler[objectId]? = c.registry objectId :=
  congrFun (getElem?_updateEventHandlerRegistrations _ _) objectId

theorem registry_draining : c.draining.registry = c.registry := by
  funext objectId
  rw [← getElem?_draining c objectId]
  simp [Client.registry, State.registry, Overlay.overlay, Client.draining]

variable {registry : ObjectId → Option Handler}

/-- A new object without a handler. -/
theorem handlers_created {interface : String}
    (hhandlers : ∀ o (h : Handler), registry o = some h ↔ s.Has o h.interface.name)
    (hnone : ∀ h : Handler, h.interface.name ≠ interface) (o : ObjectId) (h : Handler) :
    registry o = some h ↔ (s.created interface).Has o h.interface.name := by
  rw [hhandlers, WlSession.has_created_iff]
  exact ⟨.inl, fun hor => hor.resolve_right fun hnew => hnone h hnew.2⟩

/-- A new object with its handler. -/
theorem handlers_registered
    (hhandlers : ∀ o (h : Handler), registry o = some h ↔ s.Has o h.interface.name)
    (hnew : objectId.val.toNat = s.nextId) (o : ObjectId) (h : Handler) :
    Function.update registry objectId (some eventHandler) o = some h ↔
      (s.created eventHandler.interface.name).Has o h.interface.name := by
  rw [WlSession.has_created_iff]
  rcases eq_or_ne o objectId with rfl | hne
  · rw [Function.update_self, Option.some.injEq]
    constructor
    · rintro rfl
      exact .inr ⟨hnew, rfl⟩
    · rintro (hold | ⟨_, hname⟩)
      · exact absurd hnew (Nat.ne_of_lt hold.lt)
      · exact (Handler.interface_injective hname).symm
  · rw [Function.update_of_ne hne, hhandlers]
    refine ⟨.inl, fun hor => hor.resolve_right fun hsame => hne ?_⟩
    exact ObjectId.toNat_inj.mp (hsame.1.trans hnew.symm)

end Registrations

/-! ## Commands -/

section Commands

variable {env : Environment} {c : Client} {s s' : WlSession} {Q : Unit → Client → Prop}

theorem Client.Converses.acting {t : Target} (h : c.Converses t s) {action : Action}
    (hmessage : action.message? = none) : (c.acting action).Converses t s := by
  unfold Client.Converses Client.conversation Client.acting Client.logging
  rw [List.filterMap_append, List.filterMap_cons_none hmessage, List.filterMap_nil,
    List.append_nil]
  exact h

theorem Client.Converses.message {t : Target} (h : c.Converses t s) {action : Action}
    {message : Message} (hmessage : action.message? = some message)
    (hs' : s.message t message = some s') : (c.acting action).Converses t s' := by
  unfold Client.Converses Client.conversation WlSession.converse at h ⊢
  unfold Client.acting Client.logging
  rw [List.filterMap_append, List.filterMap_cons_some hmessage, List.filterMap_nil,
    List.foldlM_append, h]
  show List.foldlM (fun s m => s.message t m) s [message] = some s'
  rw [List.foldlM_cons, hs']
  rfl

/-- The next object id is the one whose turn it is, while there are any. -/
theorem ends_getAndIncrementNextObjectId {Q : ObjectId → Client → Prop}
    {E : Stop → Client → Prop} {n : Nat} (hnext : c.nextObjectId = .ofNat n) (hpos : 0 < n)
    (hlt : n < 4294967296)
    (hQ : ∀ oid : ObjectId, oid.val.toNat = n → Q oid (c.counting (.ofNat (n + 1)))) :
    Ends getAndIncrementNextObjectId c Q E := by
  have hn : (UInt32.ofNat n).toNat = n := UInt32.toNat_ofNat_of_lt' hlt
  have hsucc : UInt32.ofNat n + 1 = .ofNat (n + 1) := UInt32.ofNat_add n 1 |>.symm
  cases hnew : ObjectId.new c.nextObjectId with
  | none =>
    rw [ObjectId.new_eq_none] at hnew
    rw [← hnext, hnew] at hn
    exact absurd hn (Nat.ne_of_lt hpos)
  | some oid =>
    have hval := ObjectId.new_eq_some.mp hnew
    have hfetch : fetchObjectId c.nextObjectId = (oid, .ofNat (n + 1)) := by
      rw [fetchObjectId, hnew, hnext, hsucc]
    unfold getAndIncrementNextObjectId
    refine ends_bind (ends_get ?_)
    simp only [hfetch]
    refine ends_bind (ends_modify (ends_pure (hQ oid ?_)))
    rw [← hval, hnext, hn]

/-- The proxy's function for a request of the interface. -/
theorem proxyFunc_of_request {interface : Interface} {k : Nat} {req : Procedure}
    (hmem : interface ∈ clientInterfaces) (hreq : interface.requests[k]? = some req) :
    proxyFunc interface req.name = some (tokenizeProxyFunc k req) := by
  obtain ⟨proxy, hproxy, hfunc⟩ := requestProxy_of_request hreq
  have hfuncs : some proxy = some ⟨interface.nameVer ++ "_request_proxy",
      interface.requests.zipIdx.map fun x => tokenizeProxyFunc x.2 x.1⟩ :=
    hproxy.symm.trans (if_pos (List.length_pos_of_mem (List.mem_of_getElem? hreq)))
  have hkeys : (proxy.proxyFuncs.map ProxyFunc.reqName).Nodup := by
    have hinj : Function.Injective ("send_" ++ · : String → String) :=
      fun _ _ h => (String.append_right_inj _).mp h
    have hmapped := (distinctNames_of_mem hmem).requests.map hinj
    rw [List.map_map, ← List.zipIdx_map_fst 0 interface.requests, List.map_map] at hmapped
    rw [Option.some.inj hfuncs, List.map_map]
    exact hmapped
  rw [proxyFunc, hproxy, Option.bind_some]
  exact Scope.find?_key_of_mem hkeys (List.mem_of_getElem? hfunc)

theorem Client.Converses.stopped {t : Target} (h : c.Converses t s) (p : Panic) :
    Stopped t (.panic p) c :=
  ⟨⟨s, h⟩, Stop.noConfusion, Stop.noConfusion⟩

theorem ends_unwrap {α : Type} {o : Option α} {a : α} {Q : α → Client → Prop}
    {E : Stop → Client → Prop} (ho : o = some a) (hQ : Q a c) : Ends (unwrap o) c Q E := by
  subst ho
  exact ends_pure hQ

theorem ends_computed {α : Type} {x : Except Panic α} {Q : α → Client → Prop}
    {E : Stop → Client → Prop} (hQ : ∀ a, x = .ok a → Q a c)
    (hE : ∀ p, x = .error p → E (.panic p) c) : Ends (computed x) c Q E := by
  cases x with
  | ok a => exact ends_pure (hQ a rfl)
  | error p => exact ends_throw (hE p rfl)

theorem ends_computed_of_converses {α : Type} {t : Target} {x : Except Panic α}
    {Q : α → Client → Prop} (hc : c.Converses t s) (hQ : ∀ a, x = .ok a → Q a c) :
    Ends (computed x) c Q (Stopped t) :=
  ends_computed hQ fun p _ => hc.stopped p

theorem ends_newSharedMemory {length : Int32} {Q : RawFd → Client → Prop}
    (hc : c.Converses env.target s)
    (hQ : ∀ fd log, (c.logging log).Converses env.target s → Q fd (c.logging log)) :
    Ends (newSharedMemory env length) c Q (Stopped env.target) := by
  unfold newSharedMemory
  refine ends_bind (ends_get ?_)
  cases env.newAnonymous c.log with
  | none => exact ends_throw (hc.stopped _)
  | some fd =>
    refine ends_bind (ends_modify (ends_bind (ends_get ?_)))
    split
    · exact ends_bind (ends_modify (ends_pure (hQ fd _ ((hc.acting rfl).acting rfl))))
    · exact ends_throw ((hc.acting rfl).stopped _)

theorem ends_writeSharedMemory {fd : RawFd} {bytes : List UInt8}
    (hc : c.Converses env.target s)
    (hQ : ∀ log, (c.logging log).Converses env.target s → Q () (c.logging log)) :
    Ends (writeSharedMemory env fd bytes) c Q (Stopped env.target) := by
  unfold writeSharedMemory
  refine ends_bind (ends_get ?_)
  split
  · exact ends_modify (hQ _ (hc.acting rfl))
  · exact ends_throw (hc.stopped _)

section Arguments

variable {args : List Arg} {vs : List Value} {name : String} {oid : ObjectId}

theorem arguments_newId {interface : String} (hnew : oid.val.toNat = s.nextId)
    (hrest : (s.created interface).arguments args vs = some s') :
    s.arguments (⟨name, .newId, some interface⟩ :: args) (.newId ⟨oid⟩ :: vs) = some s' := by
  show (s.create oid interface).bind _ = some s'
  rw [WlSession.create_eq_some hnew]
  exact hrest

theorem arguments_object {interface : String} (hobject : s.Has oid interface)
    (hrest : s.arguments args vs = some s') :
    s.arguments (⟨name, .objectId, some interface⟩ :: args) (.object (some oid) :: vs) =
      some s' := by
  have hargument : s.argument ⟨name, .objectId, some interface⟩ (.object (some oid)) = some s := by
    have hinterface : s.interfaceOf oid = some interface := hobject
    simp [WlSession.argument, hinterface]
  rw [WlSession.arguments, hargument]
  exact hrest

end Arguments

/-- A request, which may not go out. -/
theorem ends_request (k : Nat) {interface : Interface} {req : Procedure} {objectId : ObjectId}
    {vs : List Value} {msg : String} {E : Stop → Client → Prop}
    (hmem : interface ∈ clientInterfaces) (hreq : interface.requests[k]? = some req)
    (hty : WellTyped req.args vs) (hpush : ∀ v ∈ vs, v.Pushable)
    (hQ : (requestPacket env.target objectId k vs).Sendable →
      Q () (c.acting (.sent (requestPacket env.target objectId k vs))))
    (hE : ((requestPacket env.target objectId k vs).Sendable →
      env.sends c.log (requestPacket env.target objectId k vs) = false) →
        E (.panic (.expect msg)) c) :
    Ends (send env interface req.name objectId vs msg) c Q E := by
  unfold send
  simp only [proxyFunc_of_request hmem hreq, run_proxyFunc hmem hreq hty hpush]
  refine ends_bind (ends_get ?_)
  split
  · next hsend => exact ends_modify (hQ hsend.1)
  · next hfails => exact ends_throw (hE fun hsend => by simpa [hsend] using hfails)

/-- A request that the session accepts, and what it makes of the session. -/
theorem ends_send (s' : WlSession) (k : Nat) {s₁ : WlSession} {interface : Interface}
    {name : String}
    {args : List Arg} {objectId : ObjectId} {vs : List Value} {msg : String}
    (hmem : interface ∈ clientInterfaces) (hreq : interface.requests[k]? = some ⟨name, args⟩)
    (hk : k < 65536) (hty : WellTyped args vs) (hpush : ∀ v ∈ vs, v.Pushable)
    (hfds : (fdsOfValues vs).length ≤ 1) (hc : c.Converses env.target s)
    (hobject : s.Has objectId interface.name) (hbinds : s.binds vs = true)
    (hargs : s.arguments args vs = some s₁) (hdone : s₁.carryOut interface.name (.ofNat k) vs = s')
    (hQ : ∀ log, (c.logging log).Converses env.target s' → Q () (c.logging log)) :
    Ends (send env interface name objectId vs msg) c Q (Stopped env.target) := by
  refine ends_request k hmem hreq hty hpush (fun hsend => hQ _ (hc.message rfl ?_))
    fun _ => hc.stopped _
  exact hdone ▸
    WlSession.request_requestPacket hmem hreq hk hty hpush hsend hfds hobject hbinds hargs

end Commands

/-! ## The handlers -/

section Handlers

variable {env : Environment} {c : Client} {s : WlSession}

theorem DisplayState.Agrees.created {d : DisplayState} (h : d.Agrees s) (interface : String)
    (hne : interface ≠ zwlrLayerSurface.name) : d.Agrees (s.created interface) where
  compositor o ho := (h.compositor o ho).created
  layerShell o ho := (h.layerShell o ho).created
  shm o ho := (h.shm o ho).created
  surface o ho := (h.surface o ho).created
  layerSurface o ho := (h.layerSurface o ho).created
  latest o o' ho ho' := h.latest o o' ho ((WlSession.has_created_iff.mp ho').resolve_right
    fun hnew => hne hnew.2.symm)
  promoted o o' ho ho' := h.promoted o o' ho ho'
  complete o ho := h.complete o ((WlSession.has_created_iff.mp ho).resolve_right fun hnew =>
    hne hnew.2.symm)

/-- A surface has been made, and a layer surface of it. -/
theorem DisplayState.Agrees.surfaces {d : DisplayState} (h : d.Agrees s)
    {compositorOid shmOid surfaceOid layerSurfaceOid : ObjectId} {interface interface' : String}
    (hcompositor : d.compositorOid = some compositorOid) (hshm : d.shmOid = some shmOid)
    (hsurface : ((s.created interface).created interface').Has surfaceOid wlSurface.name)
    (hlayerSurface :
      ((s.created interface).created interface').Has layerSurfaceOid zwlrLayerSurface.name)
    (hlatest : layerSurfaceOid.val.toNat = (s.created interface).nextId) :
    DisplayState.Agrees { d with
      surfaceOid := some surfaceOid, layerSurfaceOid := some layerSurfaceOid }
      (((s.created interface).created interface').promote layerSurfaceOid surfaceOid) where
  compositor o ho := (h.compositor o ho).created.created
  layerShell o ho := (h.layerShell o ho).created.created
  shm o ho := (h.shm o ho).created.created
  surface := by
    rintro o ⟨⟩
    exact hsurface
  layerSurface := by
    rintro o ⟨⟩
    exact hlayerSurface
  latest := by
    rintro o o' ⟨⟩ ho'
    have hlt := ho'.lt
    rw [WlSession.nextId_promote, WlSession.nextId_created] at hlt
    rw [hlatest]
    exact Nat.le_of_lt_succ hlt
  promoted := by
    rintro o o' ⟨⟩ ⟨⟩
    exact List.mem_append_right _ (List.mem_singleton_self _)
  complete o _ := by simp [hcompositor, hshm]

/-- How a handler may return: the client knows the session, in which at most
`n` objects have been made. -/
def Settled (t : Target) (s : WlSession) (n : Nat) (_ : Unit) (c : Client) : Prop :=
  ∃ s', c.Agrees t s' ∧ s'.nextId ≤ s.nextId + n

theorem nextId_pos (s : WlSession) : 0 < s.nextId := Nat.succ_pos _

theorem ends_surfaceCreationRigmarole (h : c.Agrees env.target s)
    (hroom : s.nextId + 2 ≤ 4294967296) :
    Ends (RegistryHandler.surfaceCreationRigmarole env) c (Settled env.target s 2)
      (Stopped env.target) := by
  unfold RegistryHandler.surfaceCreationRigmarole
  refine ends_bind (ends_get ?_)
  dsimp only
  split
  · next compositorOid layerShellOid shmOid hcompositor₀ hlayerShell hshm =>
    have hcompositor := h.displayState.compositor _ hcompositor₀
    have hlayerShell := h.displayState.layerShell _ hlayerShell
    refine ends_bind (ends_getAndIncrementNextObjectId h.nextObjectId (nextId_pos s) (by omega)
      fun surfaceOid hsurface => ?_)
    refine ends_bind (ends_modify ?_)
    refine ends_bind (ends_send (s.created wlSurface.name) 0 (by decide) rfl (by decide)
      (wellTyped_iff.mpr rfl) (by simp [Value.Pushable]) (by simp [fdsOfValues, Value.fds])
      h.converses hcompositor rfl (arguments_newId hsurface rfl) rfl fun _ hconv => ?_)
    refine ends_bind (ends_getAndIncrementNextObjectId rfl (Nat.succ_pos _) (by omega)
      fun layerSurfaceOid hlayerSurface => ?_)
    refine ends_bind (ends_modify ?_)
    have hsurface' : (s.created wlSurface.name).Has surfaceOid wlSurface.name :=
      WlSession.has_created hsurface
    have hlayerSurface' : layerSurfaceOid.val.toNat = (s.created wlSurface.name).nextId := by
      rw [hlayerSurface, WlSession.nextId_created]
    refine ends_bind (ends_send
      (((s.created wlSurface.name).created zwlrLayerSurface.name).promote layerSurfaceOid
        surfaceOid)
      0 (by decide) rfl (by decide) (wellTyped_iff.mpr rfl) ?_ (by simp [fdsOfValues, Value.fds])
      hconv hlayerShell.created rfl
      (arguments_newId hlayerSurface' (arguments_object hsurface'.created rfl)) rfl
      fun _ hconv => ?_)
    · simp only [List.forall_mem_cons, Value.Pushable, true_and]
      exact ⟨by decide, List.forall_mem_nil _⟩
    refine ends_bind (ends_modify ?_)
    refine ends_bind (ends_modify ?_)
    refine ends_send
      (((s.created wlSurface.name).created zwlrLayerSurface.name).promote layerSurfaceOid
        surfaceOid)
      6 (by decide) rfl (by decide) .nil (by simp) (by decide) hconv
      hsurface'.created rfl rfl rfl fun _ hconv => ?_
    refine ⟨_, ⟨hconv, ?_, ?_, ?_⟩, ?_⟩
    · rw [WlSession.nextId_promote, WlSession.nextId_created, WlSession.nextId_created]
      rfl
    · exact h.displayState.surfaces hcompositor₀ hshm hsurface'.created
        (WlSession.has_created hlayerSurface') hlayerSurface'
    · simp only [registry_logging, registry_registering, registry_showing, registry_counting]
      exact handlers_registered (handlers_registered h.handlers hsurface) hlayerSurface'
    · rw [WlSession.nextId_promote, WlSession.nextId_created, WlSession.nextId_created]
  · exact ends_pure ⟨s, h, Nat.le_add_right _ _⟩

/-- An announced global is bound. -/
theorem ends_sendBind {objectId oid : ObjectId} {name version : UInt32} {interface msg : String}
    {Q : Unit → Client → Prop} (hc : c.Converses env.target s)
    (hregistry : s.Has objectId wlRegistry.name)
    (hglobal : (name, interface, version) ∈ s.globals) (hnew : oid.val.toNat = s.nextId)
    (hpush : Value.StrPushable interface)
    (hQ : ∀ log, (c.logging log).Converses env.target (s.created interface) →
      Q () (c.logging log)) :
    Ends (send env wlRegistry "bind" objectId [.uint name, .newObject ⟨oid, interface, version⟩]
      msg) c Q (Stopped env.target) := by
  refine ends_send (s.created interface) 0 (by decide) rfl (by decide) (wellTyped_iff.mpr rfl) ?_
    (by simp [fdsOfValues, Value.fds]) hc hregistry ?_ ?_ rfl hQ
  · simp only [List.forall_mem_cons, Value.Pushable, true_and]
    exact ⟨hpush, List.forall_mem_nil _⟩
  · exact List.contains_iff_mem.mpr hglobal
  · show (s.create oid interface).bind some = some (s.created interface)
    rw [WlSession.create_eq_some hnew, Option.bind_some]

theorem ends_handleGlobal {packet : Packet} {name version : UInt32} {interface : String}
    (h : c.Agrees env.target s) (hroom : s.nextId + 3 ≤ 4294967296)
    (hregistry : s.Has packet.objectId wlRegistry.name)
    (hglobal : (name, interface, version) ∈ s.globals) :
    Ends (RegistryHandler.handleGlobal env packet name interface version) c
      (Settled env.target s 3) (Stopped env.target) := by
  have hnext : (s.created interface).nextId = s.nextId + 1 := WlSession.nextId_created
  have hsettled : ∀ u c', Settled env.target (s.created interface) 2 u c' →
      Settled env.target s 3 u c' :=
    fun _ _ ⟨s', hs', hle⟩ => ⟨s', hs', by omega⟩
  unfold RegistryHandler.handleGlobal
  split
  · next hinterface =>
    subst hinterface
    refine ends_bind (ends_getAndIncrementNextObjectId h.nextObjectId (nextId_pos s) (by omega)
      fun oid hnew => ?_)
    refine ends_bind (ends_sendBind h.converses hregistry hglobal hnew (by decide)
      fun _ hconv => ?_)
    refine ends_bind (ends_modify ?_)
    refine (ends_surfaceCreationRigmarole (s := s.created "wl_compositor") ?_ (by omega)).mono
      hsettled fun _ _ hstopped => hstopped
    have hdisplay := h.displayState.created "wl_compositor" (by decide)
    refine ⟨hconv, by rw [hnext]; rfl, ?_,
      handlers_created h.handlers (fun h => by cases h <;> decide)⟩
    exact { hdisplay with
      compositor := fun o ho => Option.some.inj ho ▸ WlSession.has_created hnew
      complete := fun o ho => ⟨rfl, (hdisplay.complete o ho).2⟩ }
  split
  · next hinterface =>
    subst hinterface
    refine ends_bind (ends_getAndIncrementNextObjectId h.nextObjectId (nextId_pos s) (by omega)
      fun oid hnew => ?_)
    refine ends_bind (ends_sendBind h.converses hregistry hglobal hnew (by decide)
      fun _ hconv => ?_)
    refine ends_bind (ends_modify ?_)
    refine (ends_surfaceCreationRigmarole (s := s.created "zwlr_layer_shell_v1") ?_
      (by omega)).mono hsettled fun _ _ hstopped => hstopped
    have hdisplay := h.displayState.created "zwlr_layer_shell_v1" (by decide)
    refine ⟨hconv, by rw [hnext]; rfl, ?_,
      handlers_created h.handlers (fun h => by cases h <;> decide)⟩
    exact { hdisplay with
      layerShell := fun o ho => Option.some.inj ho ▸ WlSession.has_created hnew
      complete := fun o ho => hdisplay.complete o ho }
  split
  · next hinterface =>
    subst hinterface
    refine ends_bind (ends_getAndIncrementNextObjectId h.nextObjectId (nextId_pos s) (by omega)
      fun oid hnew => ?_)
    refine ends_bind (ends_modify ?_)
    refine ends_bind (ends_sendBind h.converses hregistry hglobal hnew (by decide)
      fun _ hconv => ?_)
    refine ends_bind (ends_modify ?_)
    refine (ends_surfaceCreationRigmarole (s := s.created "wl_shm") ?_ (by omega)).mono
      hsettled fun _ _ hstopped => hstopped
    have hdisplay := h.displayState.created "wl_shm" (by decide)
    refine ⟨hconv, by rw [hnext]; rfl, ?_, ?_⟩
    · exact { hdisplay with
        shm := fun o ho => Option.some.inj ho ▸ WlSession.has_created hnew
        complete := fun o ho => ⟨(hdisplay.complete o ho).1, rfl, (hdisplay.complete o ho).2.2⟩ }
    · simp only [registry_logging, registry_registering, registry_showing, registry_counting]
      exact handlers_registered h.handlers hnew
  · exact ends_pure ⟨s, h, Nat.le_add_right _ _⟩

theorem ends_placeSurface {layerSurface : ObjectId} {textImage : Image}
    {preferredScaleU32 : UInt32} {Q : Unit → Client → Prop} (hc : c.Converses env.target s)
    (hlayerSurface : s.Has layerSurface zwlrLayerSurface.name)
    (hQ : ∀ log, (c.logging log).Converses env.target s → Q () (c.logging log)) :
    Ends (LayerSurfaceHandler.placeSurface env layerSurface textImage preferredScaleU32) c
      Q (Stopped env.target) := by
  unfold LayerSurfaceHandler.placeSurface
  refine ends_bind (ends_send s 0 (by decide) rfl (by decide) (wellTyped_iff.mpr rfl)
    (by simp [Value.Pushable]) (by simp [fdsOfValues, Value.fds]) hc hlayerSurface rfl rfl rfl
    fun _ hc => ?_)
  refine ends_bind (ends_send s 1 (by decide) rfl (by decide) (wellTyped_iff.mpr rfl)
    (by simp [Value.Pushable]) (by simp [fdsOfValues, Value.fds]) hc hlayerSurface rfl rfl rfl
    fun _ hc => ?_)
  exact ends_send s 3 (by decide) rfl (by decide) (wellTyped_iff.mpr rfl)
    (by simp [Value.Pushable]) (by simp [fdsOfValues, Value.fds]) hc hlayerSurface rfl rfl rfl hQ

/-- The pool and the buffer are made; the buffer has its handler. -/
theorem ends_createBuffer {shmOid : Option ObjectId} {shm : ObjectId} {textImage : Image}
    {textImageArgb : List UInt8} {Q : RawFd × ObjectId → Client → Prop}
    (hc : c.Converses env.target s) (hnext : c.nextObjectId = .ofNat s.nextId)
    (hroom : s.nextId + 2 ≤ 4294967296) (hsome : shmOid = some shm) (hshm : s.Has shm wlShm.name)
    (hQ : ∀ fd bufferOid log, bufferOid.val.toNat = (s.created wlShmPool.name).nextId →
      (c.logging log).Converses env.target ((s.created wlShmPool.name).created wlBuffer.name) →
      Q (fd, bufferOid) (((c.counting (.ofNat (s.nextId + 2))).registering bufferOid
        .bufferHandler).logging log)) :
    Ends (LayerSurfaceHandler.createBuffer env shmOid textImage textImageArgb) c Q
      (Stopped env.target) := by
  unfold LayerSurfaceHandler.createBuffer
  refine ends_bind (ends_computed_of_converses hc fun sharedMemoryLength _ => ?_)
  refine ends_bind (ends_newSharedMemory hc fun sharedMemory _ hc => ?_)
  refine ends_bind (ends_unwrap hsome ?_)
  refine ends_bind (ends_getAndIncrementNextObjectId hnext (nextId_pos s) (by omega)
    fun shmPoolId hpool => ?_)
  refine ends_bind (ends_send (s.created wlShmPool.name) 0 (by decide) rfl (by decide)
    (wellTyped_iff.mpr rfl) (by simp [Value.Pushable]) (by simp [fdsOfValues, Value.fds]) hc hshm
    rfl (arguments_newId hpool rfl) rfl fun _ hc => ?_)
  refine ends_bind (ends_getAndIncrementNextObjectId rfl (Nat.succ_pos _) (by omega)
    fun bufferOid hbuffer => ?_)
  rw [← WlSession.nextId_created] at hbuffer
  refine ends_bind (ends_modify ?_)
  refine ends_bind (ends_computed_of_converses hc fun bufferWidth _ => ?_)
  refine ends_bind (ends_computed_of_converses hc fun bufferHeight _ => ?_)
  refine ends_bind (ends_computed_of_converses hc fun stride _ => ?_)
  refine ends_bind (ends_send ((s.created wlShmPool.name).created wlBuffer.name) 0 (by decide) rfl
    (by decide) (wellTyped_iff.mpr rfl) (by simp [Value.Pushable])
    (by simp [fdsOfValues, Value.fds]) hc (WlSession.has_created hpool) rfl
    (arguments_newId hbuffer rfl) rfl fun _ hc => ?_)
  exact ends_bind (ends_writeSharedMemory hc fun log hc => ends_pure (hQ _ _ log hbuffer hc))

theorem ends_showBuffer {surfaceOid : Option ObjectId} {surface bufferOid emptyRegionOid : ObjectId}
    {preferredScale : Int32} {Q : Unit → Client → Prop} (hc : c.Converses env.target s)
    (hsome : surfaceOid = some surface) (hsurface : s.Has surface wlSurface.name)
    (hbuffer : s.Has bufferOid wlBuffer.name) (hregion : s.Has emptyRegionOid "wl_region")
    (hQ : ∀ log, (c.logging log).Converses env.target s → Q () (c.logging log)) :
    Ends (LayerSurfaceHandler.showBuffer env surfaceOid bufferOid emptyRegionOid preferredScale) c
      Q (Stopped env.target) := by
  unfold LayerSurfaceHandler.showBuffer
  refine ends_bind (ends_unwrap hsome ?_)
  refine ends_bind (ends_send s 1 (by decide) rfl (by decide) (wellTyped_iff.mpr rfl)
    (by simp [Value.Pushable]) (by simp [fdsOfValues, Value.fds]) hc hsurface rfl
    (arguments_object hbuffer rfl) rfl fun _ hc => ?_)
  refine ends_bind (ends_send s 8 (by decide) rfl (by decide) (wellTyped_iff.mpr rfl)
    (by simp [Value.Pushable]) (by simp [fdsOfValues, Value.fds]) hc hsurface rfl rfl
    rfl fun _ hc => ?_)
  refine ends_bind (ends_send s 5 (by decide) rfl (by decide) (wellTyped_iff.mpr rfl)
    (by simp [Value.Pushable]) (by simp [fdsOfValues, Value.fds]) hc hsurface rfl
    (arguments_object hregion rfl) rfl fun _ hc => ?_)
  exact ends_send s 6 (by decide) rfl (by decide) .nil (by simp) (by decide) hc hsurface rfl rfl rfl
    hQ

/-- With a layer surface in the session, the client knows all the objects that a
`configure` event needs. -/
theorem DisplayState.Agrees.exists_oids {d : DisplayState} (h : d.Agrees s)
    (hlayerSurface : ∃ o, s.Has o zwlrLayerSurface.name) :
    ∃ compositor shm surface layerSurface, d.compositorOid = some compositor ∧
      d.shmOid = some shm ∧ d.surfaceOid = some surface ∧
      d.layerSurfaceOid = some layerSurface := by
  obtain ⟨o, ho⟩ := hlayerSurface
  obtain ⟨hcompositor, hshm, hsurface, hlayerSurface⟩ := h.complete o ho
  obtain ⟨compositor, hcompositor⟩ := Option.isSome_iff_exists.mp hcompositor
  obtain ⟨shm, hshm⟩ := Option.isSome_iff_exists.mp hshm
  obtain ⟨surface, hsurface⟩ := Option.isSome_iff_exists.mp hsurface
  obtain ⟨layerSurface, hlayerSurface⟩ := Option.isSome_iff_exists.mp hlayerSurface
  exact ⟨compositor, shm, surface, layerSurface, hcompositor, hshm, hsurface, hlayerSurface⟩

theorem ends_handleConfigure {serial width height : UInt32} (h : c.Agrees env.target s)
    (hroom : s.nextId + 3 ≤ 4294967296) (hlayerSurface : ∃ o, s.Has o zwlrLayerSurface.name) :
    Ends (LayerSurfaceHandler.handleConfigure env serial width height) c (Settled env.target s 3)
      (Stopped env.target) := by
  obtain ⟨compositor, shm, surface, layerSurface, hcompositor, hshm, hsurface, hlayerSurface⟩ :=
    h.displayState.exists_oids hlayerSurface
  have hcompositor' := h.displayState.compositor _ hcompositor
  have hshm' := h.displayState.shm _ hshm
  have hsurface' := h.displayState.surface _ hsurface
  have hlayerSurface' := h.displayState.layerSurface _ hlayerSurface
  have hregion₁ : (s.created "wl_region").nextId = s.nextId + 1 := WlSession.nextId_created
  unfold LayerSurfaceHandler.handleConfigure
  refine ends_bind (ends_modify (ends_bind (ends_get ?_)))
  dsimp only
  refine ends_bind (ends_unwrap hlayerSurface ?_)
  refine ends_bind (ends_send s 6 (by decide) rfl (by decide) (wellTyped_iff.mpr rfl)
    (by simp [Value.Pushable]) (by simp [fdsOfValues, Value.fds]) h.converses hlayerSurface' rfl rfl
    rfl fun _ hc => ?_)
  refine ends_bind (ends_computed_of_converses hc fun drawn _ => ?_)
  obtain ⟨preferredScaleU32, textImage, textImageArgb⟩ := drawn
  refine ends_bind (ends_placeSurface hc hlayerSurface' fun _ hc => ?_)
  refine ends_bind (ends_unwrap hcompositor ?_)
  refine ends_bind (ends_getAndIncrementNextObjectId h.nextObjectId (nextId_pos s) (by omega)
    fun emptyRegionOid hregion => ?_)
  refine ends_bind (ends_send (s.created "wl_region") 1 (by decide) rfl (by decide)
    (wellTyped_iff.mpr rfl) (by simp [Value.Pushable]) (by simp [fdsOfValues, Value.fds]) hc
    hcompositor' rfl (arguments_newId hregion rfl) rfl fun _ hc => ?_)
  refine ends_bind (ends_createBuffer hc (by rw [hregion₁]; rfl) (by omega) hshm hshm'.created
    fun sharedMemory bufferOid _ hbuffer hc => ?_)
  refine ends_bind (ends_showBuffer hc hsurface hsurface'.created.created.created
    (WlSession.has_created hbuffer) (WlSession.has_created hregion).created.created fun _ hc => ?_)
  refine ends_modify ⟨_, ⟨hc.acting rfl, ?_, ?_, ?_⟩, ?_⟩
  · simp only [WlSession.nextId_created]
    rfl
  · have hdisplay := ((h.displayState.created "wl_region" (by decide)).created wlShmPool.name
      (by decide)).created wlBuffer.name (by decide)
    exact { hdisplay with }
  · simp only [registry_acting, registry_logging, registry_registering, registry_showing,
      registry_counting]
    exact handlers_registered (handlers_created (handlers_created h.handlers
      fun h => by cases h <;> decide) fun h => by cases h <;> decide) hbuffer
  · rw [WlSession.nextId_created, WlSession.nextId_created, WlSession.nextId_created]

/-- A setting that names no object. -/
theorem Client.Agrees.showing {t : Target} (h : c.Agrees t s) {f : DisplayState → DisplayState}
    (hf : (f c.displayState).Agrees s) : (c.showing f).Agrees t s :=
  ⟨h.converses, h.nextObjectId, hf, h.handlers⟩

/-- A method of an event handler that is called for an object of its
interface; a global that it is told of has been announced. -/
theorem ends_call {eventHandler : Handler} {method : String} {packet : Packet}
    {args : WhaleLand.Env} (h : c.Agrees env.target s) (hroom : s.nextId + 3 ≤ 4294967296)
    (hobject : s.Has packet.objectId eventHandler.interface.name)
    (hglobal : eventHandler = .registryHandler → method = "handle_global" →
      ∀ name interface version,
        args.map Prod.snd = [.uint name, .string interface, .uint version] →
          (name, interface, version) ∈ s.globals) :
    Ends (eventHandler.call env (.handle method packet args)) c (Settled env.target s 3)
      (Stopped env.target) := by
  have hsame : ∀ c', c'.Agrees env.target s → Settled env.target s 3 () c' :=
    fun c' hc' => ⟨s, hc', Nat.le_add_right _ _⟩
  unfold Handler.call
  dsimp only
  split
  · next name interface version hargs =>
    exact ends_handleGlobal h hroom hobject (hglobal rfl rfl name interface version hargs)
  · exact ends_modify (hsame _ (h.showing { h.displayState with }))
  · exact ends_modify (hsame _ (h.showing { h.displayState with }))
  · exact ends_handleConfigure h hroom ⟨_, hobject⟩
  · exact ends_pure (hsame c h)

end Handlers

/-! ## The loop -/

section Loop

variable {env : Environment} {c : Client} {s : WlSession} {packet : Packet}

theorem nextId_event {t : Target} : (s.event t packet).nextId = s.nextId := by
  unfold WlSession.nextId
  rw [WlSession.event_interfaces]

theorem Client.Agrees.received {t : Target} (h : c.Agrees t s) (packet : Packet) :
    (c.acting (.received packet)).Agrees t (s.event t packet) where
  converses := h.converses.message rfl rfl
  nextObjectId := h.nextObjectId.trans (by rw [nextId_event])
  displayState :=
    { compositor := fun o ho => WlSession.has_event.mpr (h.displayState.compositor o ho)
      layerShell := fun o ho => WlSession.has_event.mpr (h.displayState.layerShell o ho)
      shm := fun o ho => WlSession.has_event.mpr (h.displayState.shm o ho)
      surface := fun o ho => WlSession.has_event.mpr (h.displayState.surface o ho)
      layerSurface := fun o ho => WlSession.has_event.mpr (h.displayState.layerSurface o ho)
      latest := fun o o' ho ho' => h.displayState.latest o o' ho (WlSession.has_event.mp ho')
      promoted := fun o o' ho ho' => by
        rw [WlSession.layerSurfaces_event]
        exact h.displayState.promoted o o' ho ho'
      complete := fun o ho => h.displayState.complete o (WlSession.has_event.mp ho) }
  handlers := fun o eventHandler => (h.handlers o eventHandler).trans WlSession.has_event.symm

theorem Client.Agrees.draining {t : Target} (h : c.Agrees t s) : c.draining.Agrees t s :=
  ⟨h.converses, h.nextObjectId, h.displayState, fun o eventHandler => by
    rw [registry_draining]
    exact h.handlers o eventHandler⟩

theorem Handler.interface_mem (eventHandler : Handler) :
    eventHandler.interface ∈ clientInterfaces := by
  cases eventHandler <;> decide

theorem Handler.events_ne_nil (eventHandler : Handler) : eventHandler.interface.events ≠ [] := by
  cases eventHandler <;> decide

/-- What `handle_global` is called with has been announced. -/
theorem mem_globals_of_decode {event : Procedure} {args : List Value}
    (hregistry : s.Has packet.objectId wlRegistry.name)
    (hevent : wlRegistry.events[packet.opcode.toNat]? = some event)
    (hmethod : "handle_" ++ event.name = "handle_global")
    (hdecode : decodeArgs env.target event.args packet = .ok args) {name version : UInt32}
    {interface : String}
    (hargs : ((event.args.map Arg.name).zip args).map Prod.snd =
      [.uint name, .string interface, .uint version]) :
    (name, interface, version) ∈ (s.event env.target packet).globals := by
  obtain ⟨hty, _⟩ := decodeArgs_ok hdecode
  have hlen : args.length ≤ (event.args.map Arg.name).length := by
    rw [List.length_map, hty.length_eq]
  rw [List.map_snd_zip hlen] at hargs
  subst hargs
  have hname : event.name = "global" := (String.append_right_inj "handle_").mp hmethod
  have hopcode : packet.opcode.toNat = 0 := by
    match hk : packet.opcode.toNat with
    | 0 => rfl
    | 1 =>
      rw [hk] at hevent
      cases hevent
      exact absurd hname (by decide)
    | k + 2 =>
      rw [hk] at hevent
      cases hevent
  rw [hopcode] at hevent
  cases hevent
  exact WlSession.mem_globals_event hregistry (UInt16.toNat_inj.mp hopcode) hdecode

section HandleEvent

variable {eventHandler : Handler} {Q : Unit → Client → Prop} {E : Stop → Client → Prop}

/-- An unknown opcode. -/
theorem ends_handleEvent_of_none
    (hevent : eventHandler.interface.events[packet.opcode.toNat]? = none) (hQ : Q () c) :
    Ends (eventHandler.handleEvent env packet) c Q E := by
  obtain ⟨eventHandlerTrait, htrait⟩ := exists_eventHandler eventHandler.events_ne_nil
  unfold Handler.handleEvent
  simp only [htrait]
  rw [handleEvent_of_le htrait (List.getElem?_eq_none_iff.mp hevent)]
  exact ends_bind (ends_bind (ends_pure (ends_pure (ends_pure hQ))))

variable {event : Procedure}

/-- Arguments that cannot be read. -/
theorem ends_handleEvent_of_error {e : Fault}
    (hevent : eventHandler.interface.events[packet.opcode.toNat]? = some event)
    (hdecode : decodeArgs env.target event.args packet = .error e) (hE : E (.library e) c) :
    Ends (eventHandler.handleEvent env packet) c Q E := by
  obtain ⟨eventHandlerTrait, htrait⟩ := exists_eventHandler eventHandler.events_ne_nil
  unfold Handler.handleEvent
  simp only [htrait]
  rw [handleEvent_of_event htrait (distinctNames_of_mem eventHandler.interface_mem) hevent rfl,
    hdecode]
  exact ends_bind (ends_pure (ends_throw hE))

theorem ends_handleEvent_of_ok {args : List Value}
    (hevent : eventHandler.interface.events[packet.opcode.toNat]? = some event)
    (hdecode : decodeArgs env.target event.args packet = .ok args)
    (hcall : Ends (eventHandler.call env
      (.handle ("handle_" ++ event.name) packet ((event.args.map Arg.name).zip args))) c Q E) :
    Ends (eventHandler.handleEvent env packet) c Q E := by
  obtain ⟨eventHandlerTrait, htrait⟩ := exists_eventHandler eventHandler.events_ne_nil
  unfold Handler.handleEvent
  simp only [htrait]
  rw [handleEvent_of_event htrait (distinctNames_of_mem eventHandler.interface_mem) hevent rfl,
    hdecode]
  exact ends_bind (ends_bind (hcall.mono (fun _ _ hQ => ends_pure (ends_pure hQ))
    fun _ _ hE => hE))

end HandleEvent

theorem ends_handleEvent {eventHandler : Handler}
    (h : c.Agrees env.target (s.event env.target packet)) (hroom : s.nextId + 3 ≤ 4294967296)
    (hobject : s.Has packet.objectId eventHandler.interface.name) :
    Ends (eventHandler.handleEvent env packet) c (Settled env.target s 3) (Stopped env.target) := by
  have hnext : (s.event env.target packet).nextId = s.nextId := nextId_event
  cases hevent : eventHandler.interface.events[packet.opcode.toNat]? with
  | none =>
    exact ends_handleEvent_of_none hevent ⟨_, h, by rw [hnext]; exact Nat.le_add_right _ _⟩
  | some event =>
    cases hdecode : decodeArgs env.target event.args packet with
    | error e =>
      exact ends_handleEvent_of_error hevent hdecode
        ⟨⟨_, h.converses⟩, Stop.noConfusion, Stop.noConfusion⟩
    | ok args =>
      refine ends_handleEvent_of_ok hevent hdecode ((ends_call h (by omega)
        (WlSession.has_event.mpr hobject) ?_).mono ?_ fun _ _ hstopped => hstopped)
      · rintro rfl hmethod name interface version hargs
        exact mem_globals_of_decode hobject hevent hmethod hdecode hargs
      · rintro _ c' ⟨s', hs', hle⟩
        exact ⟨s', hs', by omega⟩

/-- The handler that is registered for the object gets the packet. -/
theorem dispatch_of_handler {eventHandler : Handler}
    (h : c.registry packet.objectId = some eventHandler) :
    (dispatch env packet).run c = (eventHandler.handleEvent env packet).run c.draining := by
  rw [← getElem?_draining] at h
  simp only [dispatch, EStateM.run_bind, EStateM.run_modify, EStateM.run_get, h]

theorem dispatch_of_none (h : c.registry packet.objectId = none) :
    (dispatch env packet).run c =
      .error (.library (.error (.noEventHandler packet.objectId))) c.draining := by
  rw [← getElem?_draining] at h
  simp only [dispatch, EStateM.run_bind, EStateM.run_modify, EStateM.run_get, h, EStateM.run_throw]

theorem ends_receive_of_handler {Q : Unit → Client → Prop} {E : Stop → Client → Prop}
    {eventHandler : Handler} (hregistry : c.registry packet.objectId = some eventHandler)
    (h : Ends (eventHandler.handleEvent env packet) (c.acting (.received packet)).draining Q E) :
    Ends (receive env packet) c Q E :=
  ends_bind (ends_modify (ends_congr (dispatch_of_handler hregistry) h))

theorem ends_receive_of_none {Q : Unit → Client → Prop} {E : Stop → Client → Prop}
    (hregistry : c.registry packet.objectId = none)
    (hE : E (.library (.error (.noEventHandler packet.objectId)))
      (c.acting (.received packet)).draining) :
    Ends (receive env packet) c Q E :=
  ends_bind (ends_modify (ends_of_error (dispatch_of_none hregistry) hE))

theorem ends_receive (h : c.Agrees env.target s) (hroom : s.nextId + 3 ≤ 4294967296) :
    Ends (receive env packet) c (Settled env.target s 3) (Stopped env.target) := by
  have hreceived := h.received packet
  cases hregistry : c.registry packet.objectId with
  | none =>
    exact ends_receive_of_none hregistry
      ⟨⟨_, hreceived.converses⟩, Stop.noConfusion, Stop.noConfusion⟩
  | some eventHandler =>
    have hobject : s.Has packet.objectId eventHandler.interface.name :=
      (h.handlers packet.objectId eventHandler).mp hregistry
    exact ends_receive_of_handler hregistry (ends_handleEvent hreceived.draining hroom hobject)

theorem mem_of_has {objectId : ObjectId} {interface : String} (h : s.Has objectId interface) :
    interface ∈ s.interfaces :=
  List.mem_of_getElem? h

/-- At the start, there are the display and the registry. -/
theorem ends_start :
    Ends (start env) {} (fun _ c => ∃ s, c.Agrees env.target s ∧ s.nextId = 3)
      (Stopped env.target) := by
  have hopened : Client.Converses env.target {} WlSession.opened := rfl
  have hdisplay : WlSession.opened.Has .display wlDisplay.name := rfl
  unfold start
  refine ends_bind (ends_modify ?_)
  refine ends_bind (ends_getAndIncrementNextObjectId (n := 2) rfl (by decide) (by decide)
    fun registryOid hnew => ?_)
  refine ends_bind (ends_modify ?_)
  refine ends_send (WlSession.opened.created wlRegistry.name) 1 (by decide) rfl (by decide)
    (wellTyped_iff.mpr rfl) (by simp [Value.Pushable]) (by simp [fdsOfValues, Value.fds]) hopened
    hdisplay rfl (arguments_newId hnew rfl) rfl fun _ hconv => ⟨_, ⟨hconv, rfl, ?_, ?_⟩, rfl⟩
  · exact
      { compositor := fun _ ho => absurd ho (Option.some_ne_none _).symm
        layerShell := fun _ ho => absurd ho (Option.some_ne_none _).symm
        shm := fun _ ho => absurd ho (Option.some_ne_none _).symm
        surface := fun _ ho => absurd ho (Option.some_ne_none _).symm
        layerSurface := fun _ ho => absurd ho (Option.some_ne_none _).symm
        latest := fun _ _ ho => absurd ho (Option.some_ne_none _).symm
        promoted := fun _ _ ho => absurd ho (Option.some_ne_none _).symm
        complete := fun o ho => by
          rcases WlSession.has_created_iff.mp ho with hopened | ⟨_, hname⟩
          · exact absurd (mem_of_has hopened) (by decide)
          · exact absurd hname (by decide) }
  · simp only [registry_logging, registry_registering, registry_counting]
    have hnone : ∀ o (h : Handler), Client.registry {} o = some h ↔
        (⟨[], [], []⟩ : WlSession).Has o h.interface.name :=
      fun o h => ⟨fun ho => absurd ho (Option.some_ne_none _).symm, fun ho =>
        absurd (mem_of_has ho) List.not_mem_nil⟩
    exact handlers_registered (handlers_registered hnone rfl) hnew

/-- Each packet leads to at most three new objects. -/
theorem ends_run_room {packets : List Packet} {k : Nat}
    (hroom : 3 * (packets.length + k) + 3 ≤ 4294967296) :
    Ends (run env packets) {}
      (fun _ c => ∃ s, c.Agrees env.target s ∧ s.nextId + 3 * k ≤ 4294967296)
      (Stopped env.target) := by
  unfold run
  refine ends_bind (ends_start.mono ?_ fun _ _ hstopped => hstopped)
  rintro _ c ⟨s, hs, hnext⟩
  refine (ends_forM (I := fun turns c => ∃ s, c.Agrees env.target s ∧
    s.nextId + 3 * (turns + k) ≤ 4294967296) ⟨s, hs, by omega⟩ ?_).mono ?_
    fun _ _ hstopped => hstopped
  · rintro packet _ turns c ⟨s, hs, hle⟩
    refine (ends_receive hs (by omega)).mono ?_ fun _ _ hstopped => hstopped
    rintro _ c' ⟨s', hs', hle'⟩
    exact ⟨s', hs', by omega⟩
  · rintro _ c' ⟨s', hs', hle⟩
    exact ⟨s', hs', by omega⟩

theorem ends_run {packets : List Packet} (hroom : 3 * packets.length + 3 ≤ 4294967296) :
    Ends (run env packets) {} (fun _ c => ∃ s, c.Agrees env.target s) (Stopped env.target) :=
  (ends_run_room (k := 0) hroom).mono (fun _ _ ⟨s, hs, _⟩ => ⟨s, hs⟩) fun _ _ hstopped => hstopped

/-- All requests of a run are accepted, however it ends, and no object that it
needs is missing. -/
theorem requests_accepted (env : Environment) (packets : List Packet)
    (hroom : 3 * packets.length + 3 ≤ 4294967296) :
    Ends (run env packets) {} (fun _ c => ∃ s, c.Converses env.target s) (Stopped env.target) :=
  (ends_run hroom).mono (fun _ _ ⟨s, hs⟩ => ⟨s, hs.converses⟩) fun _ _ hstopped => hstopped

/-- `wl_shm` is announced. -/
def shmAnnouncement : Packet :=
  requestPacket ⟨.little, .w64⟩ (.ofNat 2) 0 [.uint 1, .string "wl_shm", .uint 2]

theorem requests_accepted_shm :
    Ends (run (.obliging fun _ => .error "no font") [shmAnnouncement]) {}
      (fun _ c => ∃ s, c.Converses ⟨.little, .w64⟩ s) (Stopped ⟨.little, .w64⟩) :=
  requests_accepted (.obliging fun _ => .error "no font") [shmAnnouncement] (by decide)

/-- After a run, an object's events are handled if its interface has events; a
packet for any other object id stops the client. -/
theorem finds_handlers (env : Environment) (packets : List Packet) (c : Client)
    (hroom : 3 * packets.length + 3 ≤ 4294967296)
    (hrun : (run env packets).run {} = .ok () c) :
    ∃ s, c.Converses env.target s ∧ ∀ packet : Packet,
      (∀ eventHandler : Handler, s.Has packet.objectId eventHandler.interface.name →
        (dispatch env packet).run c = (eventHandler.handleEvent env packet).run c.draining) ∧
      ((∀ eventHandler : Handler, ¬ s.Has packet.objectId eventHandler.interface.name) →
        (dispatch env packet).run c =
          .error (.library (.error (.noEventHandler packet.objectId))) c.draining) := by
  obtain ⟨s, hs⟩ := (ends_run hroom).ok hrun
  refine ⟨s, hs.converses, fun packet => ⟨fun eventHandler hobject => ?_, fun hnone => ?_⟩⟩
  · exact dispatch_of_handler ((hs.handlers _ _).mpr hobject)
  · refine dispatch_of_none (Option.eq_none_iff_forall_ne_some.mpr fun eventHandler hsome => ?_)
    exact hnone eventHandler ((hs.handlers _ _).mp hsome)

/-- The client that `wl_shm` has been announced to. -/
def announced : Client := final (run (.obliging fun _ => .error "no font") [shmAnnouncement]) {}

theorem finds_handlers_shm :
    ∃ s, announced.Converses ⟨.little, .w64⟩ s ∧ ∀ packet : Packet,
      (∀ eventHandler : Handler, s.Has packet.objectId eventHandler.interface.name →
        (dispatch (.obliging fun _ => .error "no font") packet).run announced =
          (eventHandler.handleEvent (.obliging fun _ => .error "no font") packet).run
            announced.draining) ∧
      ((∀ eventHandler : Handler, ¬ s.Has packet.objectId eventHandler.interface.name) →
        (dispatch (.obliging fun _ => .error "no font") packet).run announced =
          .error (.library (.error (.noEventHandler packet.objectId))) announced.draining) :=
  finds_handlers (.obliging fun _ => .error "no font") [shmAnnouncement] announced (by decide)
    (run_of_returns (by decide +kernel))

end Loop

end WhaleLand.ActivateLinux
