import WhaleLand.Configure

/-!
# What the client survives

Where no call fails, a packet stops the client only if nobody handles the
events of its object, if its arguments cannot be read, or if it is a `configure`
event for a text that does not fit. So it can be said of every sequence of
packets whether the client lives through it (`run_returns_iff`).
-/

namespace WhaleLand.ActivateLinux

open Program Wlproto Dispatch

/-! ## Announcements -/

section Announcements

variable {env : Environment} {c : Client} {P : Prop}

theorem length_encodeStr_le (t : Target) (s : String) :
    (encodeStr t s).length ≤ (strBytes s).length + 8 := by
  have hpadding : Packet.realignCount (strBytes s ++ [0]).length < 4 :=
    Nat.mod_lt _ (by decide)
  simp only [encodeStr, encodeSlice, List.length_append, List.length_replicate,
    length_u32ToNeBytes, List.length_singleton] at hpadding ⊢
  omega

theorem ends_anyObjectId {Q : ObjectId → Client → Prop} {E : Stop → Client → Prop}
    (hQ : ∀ oid c', Q oid c') : Ends getAndIncrementNextObjectId c Q E :=
  ends_bind (ends_get (ends_bind (ends_modify (ends_pure (hQ _ _)))))

theorem ends_sendBind_refuses {objectId oid : ObjectId} {name version : UInt32}
    {interface msg : String} {Q : Unit → Client → Prop} (hpush : Value.StrPushable interface)
    (hlen : (strBytes interface).length ≤ 64) (hQ : ∀ c', Q () c') :
    Ends (send env wlRegistry "bind" objectId [.uint name, .newObject ⟨oid, interface, version⟩]
      msg) c Q (Refuses env P) := by
  refine ends_request_sendable 0 (by decide) rfl (wellTyped_iff.mpr rfl) ?_ ?_ (hQ _)
  · simp only [List.forall_mem_cons, Value.Pushable, true_and]
    exact ⟨hpush, List.forall_mem_nil _⟩
  · have hstr := length_encodeStr_le env.target interface
    show 8 + (encodeAll env.target _).length ≤ 65535
    simp only [encodeAll, List.flatMap_cons, List.flatMap_nil, encode, List.length_append,
      length_u32ToNeBytes, List.length_nil]
    omega

/-- All that the registry's handler does with the others is sending. -/
theorem ends_surfaceCreationRigmarole_refuses :
    Ends (RegistryHandler.surfaceCreationRigmarole env) c (fun _ _ => True) (Refuses env P) := by
  unfold RegistryHandler.surfaceCreationRigmarole
  refine ends_bind (ends_get ?_)
  dsimp only
  split
  · refine ends_bind (ends_anyObjectId fun surfaceOid c₁ => ends_bind (ends_modify ?_))
    refine ends_bind (ends_request_words 0 (by decide) rfl (wellTyped_iff.mpr rfl) rfl (by simp) ?_)
    refine ends_bind (ends_anyObjectId fun layerSurfaceOid c₂ => ends_bind (ends_modify ?_))
    refine ends_bind (ends_request_sendable 0 (by decide) rfl (wellTyped_iff.mpr rfl) ?_ ?_ ?_)
    · simp only [List.forall_mem_cons, Value.Pushable, true_and]
      exact ⟨by decide, List.forall_mem_nil _⟩
    · have hstr := length_encodeStr_le env.target "activation"
      have hname : (strBytes "activation").length = 10 := by decide
      show 8 + (encodeAll env.target _).length ≤ 65535
      simp only [encodeAll, List.flatMap_cons, List.flatMap_nil, encode, List.length_append,
        length_u32ToNeBytes, List.length_nil]
      omega
    refine ends_bind (ends_modify (ends_bind (ends_modify ?_)))
    exact ends_request_words 6 (by decide) rfl .nil rfl (by simp) trivial
  · exact ends_pure trivial

theorem ends_handleGlobal_refuses {packet : Packet} {name version : UInt32} {interface : String} :
    Ends (RegistryHandler.handleGlobal env packet name interface version) c (fun _ _ => True)
      (Refuses env P) := by
  unfold RegistryHandler.handleGlobal
  split
  · next h =>
    subst h
    refine ends_bind (ends_anyObjectId fun _ _ => ?_)
    refine ends_bind (ends_sendBind_refuses (by decide) (by decide) fun _ => ?_)
    exact ends_bind (ends_modify ends_surfaceCreationRigmarole_refuses)
  split
  · next h =>
    subst h
    refine ends_bind (ends_anyObjectId fun _ _ => ?_)
    refine ends_bind (ends_sendBind_refuses (by decide) (by decide) fun _ => ?_)
    exact ends_bind (ends_modify ends_surfaceCreationRigmarole_refuses)
  split
  · next h =>
    subst h
    refine ends_bind (ends_anyObjectId fun _ _ => ends_bind (ends_modify ?_))
    refine ends_bind (ends_sendBind_refuses (by decide) (by decide) fun _ => ?_)
    exact ends_bind (ends_modify ends_surfaceCreationRigmarole_refuses)
  · exact ends_pure trivial

end Announcements

/-! ## One packet -/

section OnePacket

/-- Somebody handles the events of the object; if the event is a known one, its
arguments can be read; and if it is a `configure` event, the text fits. -/
def Accepts (env : Environment) (c : Client) (packet : Packet) : Prop :=
  ∃ eventHandler : Handler, c.registry packet.objectId = some eventHandler ∧
    ∀ event, eventHandler.interface.events[packet.opcode.toNat]? = some event →
      (∃ args, decodeArgs env.target event.args packet = .ok args) ∧
        (eventHandler = .layerSurfaceHandler → event.name = "configure" →
          ∃ text image, Fits env c.displayState.preferredScale text image)

variable {env : Environment} {c c' : Client} {s : WlSession} {packet : Packet}
  {eventHandler : Handler} {event : Procedure} {args : List Value}

theorem eq_uint {v : Value} (h : v.type = .u32) : ∃ n, v = .uint n := by
  cases v with
  | uint n => exact ⟨n, rfl⟩
  | int _ | fixed _ | string _ | object _ | newId _ | newObject _ | array _ | fd _ => cases h

theorem configure_opcode {k : Nat} (hevent : zwlrLayerSurface.events[k]? = some event)
    (hname : event.name = "configure") : k = 0 := by
  match k with
  | 0 => rfl
  | 1 =>
    cases hevent
    exact absurd hname (by decide)
  | k + 2 => cases hevent

/-- The arguments of a `configure` event. -/
theorem isConfigure_of_decode
    (hevent : zwlrLayerSurface.events[packet.opcode.toNat]? = some event)
    (hname : event.name = "configure")
    (hdecode : decodeArgs env.target event.args packet = .ok args) :
    ∃ serial width height, IsConfigure env.target packet serial width height := by
  have hopcode := configure_opcode hevent hname
  rw [hopcode] at hevent
  cases hevent
  obtain ⟨hty, _⟩ := decodeArgs_ok hdecode
  obtain _ | ⟨hserial, _ | ⟨hwidth, _ | ⟨hheight, _ | _⟩⟩⟩ := hty
  obtain ⟨serial, rfl⟩ := eq_uint hserial
  obtain ⟨width, rfl⟩ := eq_uint hwidth
  obtain ⟨height, rfl⟩ := eq_uint hheight
  exact ⟨serial, width, height, UInt16.toNat_inj.mp hopcode, hdecode⟩

/-- Every other method does what it does, or sends. -/
theorem ends_call_of_ne {method : String} {env' : WhaleLand.Env} {P : Prop}
    (hne : eventHandler = .layerSurfaceHandler → method ≠ "handle_configure") :
    Ends (eventHandler.call env (.handle method packet env')) c (fun _ _ => True)
      (Refuses env P) := by
  unfold Handler.call
  dsimp only
  split
  · exact ends_handleGlobal_refuses
  · exact ends_modify trivial
  · exact ends_modify trivial
  · exact absurd rfl (hne rfl)
  · exact ends_pure trivial

/-- What is accepted depends on the one handler that is registered. -/
theorem accepts_iff (hregistry : c.registry packet.objectId = some eventHandler) :
    Accepts env c packet ↔
      ∀ event, eventHandler.interface.events[packet.opcode.toNat]? = some event →
        (∃ args, decodeArgs env.target event.args packet = .ok args) ∧
          (eventHandler = .layerSurfaceHandler → event.name = "configure" →
            ∃ text image, Fits env c.displayState.preferredScale text image) := by
  constructor
  · rintro ⟨eventHandler', hsome, hevents⟩
    cases hregistry.symm.trans hsome
    exact hevents
  · exact fun hevents => ⟨eventHandler, hregistry, hevents⟩

theorem ends_receive_accepts
    (hmaps : ∀ log fd (length : Int), env.maps log fd length = true → 0 < length)
    (h : c.Agrees env.target s) (hroom : s.nextId + 3 ≤ 4294967296) :
    Ends (receive env packet) c (fun _ _ => Accepts env c packet)
      (Refuses env (¬ Accepts env c packet)) := by
  cases hregistry : c.registry packet.objectId with
  | none =>
    refine ends_receive_of_none hregistry fun _ haccepts => ?_
    obtain ⟨eventHandler, hsome, _⟩ := haccepts
    cases hregistry.symm.trans hsome
  | some eventHandler =>
    rw [accepts_iff hregistry]
    cases hevent : eventHandler.interface.events[packet.opcode.toNat]? with
    | none =>
      refine ends_receive_of_handler hregistry (ends_handleEvent_of_none hevent ?_)
      exact fun _ hsome => absurd hsome (Option.some_ne_none _).symm
    | some event =>
      simp only [Option.some.injEq, forall_eq']
      cases hdecode : decodeArgs env.target event.args packet with
      | error e =>
        refine ends_receive_of_handler hregistry (ends_handleEvent_of_error hevent hdecode ?_)
        rintro _ ⟨⟨args, hargs⟩, _⟩
        cases hargs
      | ok args =>
        by_cases hconfigure : eventHandler = .layerSurfaceHandler ∧ event.name = "configure"
        · obtain ⟨rfl, hname⟩ := hconfigure
          obtain ⟨serial, width, height, hargs⟩ := isConfigure_of_decode hevent hname hdecode
          refine ends_receive_configure hargs hregistry ?_
          refine (ends_handleConfigure_presents hmaps (h.received packet).draining
            (by rw [nextId_event]; exact hroom)
            ⟨_, WlSession.has_event.mpr ((h.handlers _ _).mp hregistry)⟩).mono ?_ ?_
          · rintro _ c' ⟨text, image, _, _, hfits, _⟩
            exact ⟨⟨args, rfl⟩, fun _ _ => ⟨text, image, hfits⟩⟩
          · rintro _ _ hrefuses hobliges ⟨_, hfits⟩
            obtain ⟨text, image, hfits⟩ := hfits rfl hname
            exact hrefuses hobliges text image hfits
        · refine ends_receive_of_handler hregistry (ends_handleEvent_of_ok hevent hdecode
            ((ends_call_of_ne ?_).mono ?_ fun _ _ hrefuses => hrefuses))
          · intro hhandler hmethod
            exact hconfigure ⟨hhandler, (String.append_right_inj "handle_").mp hmethod⟩
          · exact fun _ _ _ => ⟨⟨args, rfl⟩, fun hhandler hname =>
              absurd ⟨hhandler, hname⟩ hconfigure⟩

end OnePacket

/-! ## All packets -/

section AllPackets

variable {env : Environment}

theorem ends_start_refuses {c : Client} {P : Prop} :
    Ends (start env) c (fun _ _ => True) (Refuses env P) := by
  unfold start
  refine ends_bind (ends_modify (ends_bind (ends_anyObjectId fun _ _ => ?_)))
  refine ends_bind (ends_modify ?_)
  exact ends_request_words 1 (by decide) rfl (wellTyped_iff.mpr rfl) rfl (by simp) trivial

theorem run_concat (packets : List Packet) (packet : Packet) :
    run env (packets ++ [packet]) = run env packets >>= fun _ => receive env packet := by
  have hloop : forM (packets ++ [packet]) (receive env) =
      forM packets (receive env) >>= fun _ => receive env packet := by
    rw [List.forM_append, List.forM_cons, List.forM_nil]
    exact bind_congr fun _ => bind_pure _
  unfold run
  rw [bind_assoc]
  exact bind_congr fun _ => hloop

/-- Where no call fails, the client lives through a sequence of packets exactly
if it accepts each of them in the state that it is in by then. -/
theorem run_returns_iff (env : Environment) (packets : List Packet) (hobliges : env.Obliges)
    (hmaps : ∀ log fd (length : Int), env.maps log fd length = true → 0 < length)
    (hroom : 3 * packets.length + 3 ≤ 4294967296) :
    returns (run env packets) {} = true ↔ ∀ k packet, packets[k]? = some packet →
      Accepts env (final (run env (packets.take k)) {}) packet := by
  induction packets using List.reverseRecOn with
  | nil =>
    have hstart : Ends (run env []) {} (fun _ _ => True) fun _ _ => ¬ True :=
      ends_bind (ends_start_refuses.mono (fun _ _ _ => ends_pure trivial)
        fun _ _ hrefuses => hrefuses hobliges)
    exact iff_of_true (hstart.returns_iff.mpr trivial) fun k packet hsome => by cases hsome
  | append_singleton packets packet ih =>
    rw [List.length_append, List.length_singleton] at hroom
    have hlast : (packets ++ [packet])[packets.length]? = some packet :=
      List.getElem?_concat_length
    have htake : ∀ k, k ≤ packets.length → (packets ++ [packet]).take k = packets.take k :=
      fun k hk => List.take_append_of_le_length hk
    have hreceive : returns (run env packets) {} = true →
        (returns (receive env packet) (final (run env packets) {}) = true ↔
          Accepts env (final (run env packets) {}) packet) := by
      intro hbefore
      obtain ⟨s, hs, hle⟩ := (ends_run_room (k := 1) hroom).ok (run_of_returns hbefore)
      exact ((ends_receive_accepts hmaps hs hle).mono (fun _ _ haccepts => haccepts)
        fun _ _ hrefuses => hrefuses hobliges).returns_iff
    rw [run_concat, returns_bind]
    constructor
    · rintro ⟨hbefore, hreturns⟩ k packet' hsome
      obtain ⟨hlt, _⟩ := List.getElem?_eq_some_iff.mp hsome
      rw [List.length_append, List.length_singleton, Nat.lt_succ_iff_lt_or_eq] at hlt
      rcases hlt with hlt | rfl
      · rw [List.getElem?_append_left hlt] at hsome
        rw [htake k hlt.le]
        exact (ih (by omega)).mp hbefore k packet' hsome
      · rw [hlast] at hsome
        cases hsome
        rw [htake _ (Nat.le_refl _), List.take_length]
        exact (hreceive hbefore).mp hreturns
    · intro hall
      have hbefore : returns (run env packets) {} = true := by
        refine (ih (by omega)).mpr fun k packet' hsome => ?_
        obtain ⟨hlt, _⟩ := List.getElem?_eq_some_iff.mp hsome
        rw [← htake k hlt.le]
        exact hall k packet' ((List.getElem?_append_left hlt).trans hsome)
      have haccepts := hall packets.length packet hlast
      rw [htake _ (Nat.le_refl _), List.take_length] at haccepts
      exact ⟨hbefore, (hreceive hbefore).mpr haccepts⟩

/-- `preferred_buffer_scale`, with the scale 0, for the surface. -/
def scaleEvent : Packet := requestPacket ⟨.little, .w64⟩ (.ofNat 6) 2 [.int 0]

/-- The `configure` event is accepted at the scale 1, and no longer at 0. -/
theorem run_returns_iff_overlapping :
    Accepts overlapping readyClient configureEvent ∧
      ¬ Accepts overlapping (final (run overlapping (announcements ++ [scaleEvent])) {})
        configureEvent := by
  have hscaled := (run_returns_iff overlapping (announcements ++ [scaleEvent]) (obliges_obliging _)
    maps_obliging (by decide)).mp (by decide +kernel)
  constructor
  · exact (run_returns_iff overlapping (announcements ++ [configureEvent]) (obliges_obliging _)
      maps_obliging (by decide)).mp (by decide +kernel) 3 configureEvent rfl
  · intro haccepts
    have hstops : ¬ returns
        (run overlapping (announcements ++ [scaleEvent] ++ [configureEvent])) {} = true := by
      decide +kernel
    refine hstops ((run_returns_iff overlapping (announcements ++ [scaleEvent] ++ [configureEvent])
      (obliges_obliging _) maps_obliging (by decide)).mpr fun k packet hsome => ?_)
    rcases Nat.lt_trichotomy k 4 with hlt | rfl | hgt
    · rw [List.getElem?_append_left hlt] at hsome
      rw [List.take_append_of_le_length hlt.le]
      exact hscaled k packet hsome
    · cases hsome
      have hlength : (announcements ++ [scaleEvent]).length = 4 := rfl
      rw [List.take_left' hlength]
      exact haccepts
    · rw [List.getElem?_eq_none hgt] at hsome
      cases hsome

end AllPackets

end WhaleLand.ActivateLinux
