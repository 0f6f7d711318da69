import WhaleLand.Dispatch
import WhaleLand.DrawText
import WhaleLand.Lib.Program
import WhaleLand.Session

/-!
# The client

`activate-linux`: it binds the globals that it needs, makes a surface, and
answers every `configure` with a buffer that shows the text. Its one task
receives packets and dispatches them, so a run is given by the packets that
come in. What the program asks of its surroundings is in its log; whether it
gets it is up to the `Environment`, which may look at the log.
-/

namespace WhaleLand.ActivateLinux

open Wlproto Dispatch
open Std (TreeMap)

/-! ## State -/

structure DisplayState where
  compositorOid : Option ObjectId := none
  layerShellOid : Option ObjectId := none
  shmOid : Option ObjectId := none
  surfaceOid : Option ObjectId := none
  layerSurfaceOid : Option ObjectId := none
  preferredScale : Int32 := 1
  preferredTransform : UInt32 := 0
  width : UInt32 := 0
  height : UInt32 := 0
deriving DecidableEq, Repr

/-- The event handlers; none of them has a state of its own. -/
inductive Handler
  | displayHandler
  | registryHandler
  | surfaceHandler
  | layerSurfaceHandler
  | sharedMemoryHandler
  | bufferHandler
deriving DecidableEq, Repr

/-- The interface whose event handler trait is implemented. -/
def Handler.interface : Handler → Interface
  | .displayHandler => wlDisplay
  | .registryHandler => wlRegistry
  | .surfaceHandler => wlSurface
  | .layerSurfaceHandler => zwlrLayerSurface
  | .sharedMemoryHandler => wlShm
  | .bufferHandler => wlBuffer

/-- What the program does outside. A mapping is written and unmapped at
once. -/
inductive Action
  | received (packet : Packet)
  | sent (packet : Packet)
  | createdMemory (fd : RawFd)
  | setLength (fd : RawFd) (length : Int)
  | written (fd : RawFd) (bytes : List UInt8)
  | closed (fd : RawFd)
deriving DecidableEq, Repr

def Action.message? : Action → Option Message
  | .received packet => some (.event packet)
  | .sent packet => some (.request packet)
  | .createdMemory _ | .setLength _ _ | .written _ _ | .closed _ => none

/-- The display state, and what the connection keeps. -/
structure Client where
  displayState : DisplayState := {}
  nextObjectId : UInt32 := 2
  queuedEventHandlerOperations : TreeMap ObjectId (EventHandlerOperation Handler) := ∅
  objectIdToEventHandler : TreeMap ObjectId Handler := ∅
  log : List Action := []

namespace Client

/-- The messages that have gone over the connection. -/
def conversation (c : Client) : List Message := c.log.filterMap Action.message?

def logging (c : Client) (log : List Action) : Client := { c with log }

def acting (c : Client) (action : Action) : Client := c.logging (c.log ++ [action])

def showing (c : Client) (f : DisplayState → DisplayState) : Client :=
  { c with displayState := f c.displayState }

def counting (c : Client) (nextObjectId : UInt32) : Client := { c with nextObjectId }

def registering (c : Client) (objectId : ObjectId) (eventHandler : Handler) : Client :=
  { c with queuedEventHandlerOperations :=
      c.queuedEventHandlerOperations.insert objectId (.register eventHandler) }

/-- `update_event_handler_registrations` -/
def draining (c : Client) : Client :=
  { c with
    queuedEventHandlerOperations := ∅
    objectIdToEventHandler := updateEventHandlerRegistrations c.queuedEventHandlerOperations
      c.objectIdToEventHandler }

end Client

/-- The target and the build, the text at each scale or the message of an
`expect` in `draw_text`, and the outcomes of the calls: whether a packet goes
out, whether there is memory, whether it gets its length and whether it can be
mapped. -/
structure Environment where
  target : Target
  checked : Bool
  text : Int32 → Except String Text
  sends : List Action → Packet → Bool
  newAnonymous : List Action → Option RawFd
  setsLength : List Action → RawFd → Int → Bool
  maps : List Action → RawFd → Int → Bool

/-- Every call succeeds, except that memory without a length cannot be
mapped. -/
def Environment.obliging (text : Int32 → Except String Text) : Environment where
  target := ⟨.little, .w64⟩
  checked := true
  text
  sends _ _ := true
  newAnonymous log := some (.ofNat log.length)
  setsLength _ _ _ := true
  maps _ _ length := decide (0 < length)

/-- How the program stops. -/
inductive Stop
  | panic (p : Panic)
  | unwrapNone
  /-- An error that `dispatch` has returned, or a panic in the library. -/
  | library (e : Fault)
  /-- A call of a function that is not there, which does not compile. -/
  | doesNotCompile
deriving DecidableEq, Repr

abbrev ClientM := EStateM Stop Client

/-! ## The connection -/

def act (action : Action) : ClientM Unit := modify (·.acting action)

def panics {α : Type} (p : Panic) : ClientM α := throw (.panic p)

/-- A computation that may panic. -/
def computed {α : Type} : Except Panic α → ClientM α
  | .ok a => pure a
  | .error p => panics p

/-- `Option::unwrap` -/
def unwrap {α : Type} : Option α → ClientM α
  | some a => pure a
  | none => throw .unwrapNone

/-- The value of `fetch_add` at which the loop is left, and the next one. After
0 comes 1. -/
def fetchObjectId (nextObjectId : UInt32) : ObjectId × UInt32 :=
  match ObjectId.new nextObjectId with
  | some oid => (oid, nextObjectId + 1)
  | none => (.display, 2)

def getAndIncrementNextObjectId : ClientM ObjectId := do
  let c ← get
  let (oid, nextObjectId) := fetchObjectId c.nextObjectId
  modify (·.counting nextObjectId)
  return oid

def registerHandler (objectId : ObjectId) (eventHandler : Handler) : ClientM Unit :=
  modify (·.registering objectId eventHandler)

/-- The `send_*` function of an interface's request proxy. -/
def proxyFunc (interface : Interface) (name : String) : Option ProxyFunc :=
  interface.requestProxy.bind fun proxy =>
    proxy.proxyFuncs.find? (·.reqName == "send_" ++ name)

/-- `proxy.send_R(args).await.expect(msg)`, with a proxy of this interface for
this object. -/
def send (env : Environment) (interface : Interface) (name : String) (objectId : ObjectId)
    (args : List Value) (msg : String) : ClientM Unit := do
  match proxyFunc interface name with
  | none => throw .doesNotCompile
  | some proxyFunc =>
    match proxyFunc.run env.target objectId true args with
    | .error (.error _) => panics (.expect msg)
    | .error .panic => throw (.library .panic)
    | .ok packet =>
      let c ← get
      if packet.Sendable ∧ env.sends c.log packet then
        act (.sent packet)
      else
        panics (.expect msg)

/-! ## `handle_configure` -/

section Configure

/-- `u32::try_from(preferred_scale.abs()).unwrap()` -/
def preferredScaleU32 (checked : Bool) (preferredScale : Int32) : Except Panic UInt32 := do
  let abs ← i32Op checked preferredScale.toInt.natAbs
  unwrapConverted (u32TryFrom abs.toInt)

/-- The next number is larger, or it is 0. -/
theorem u32Op_succ {checked : Bool} {n next : UInt32}
    (h : u32Op checked (n.toNat + 1) = .ok next) : next.toNat = n.toNat + 1 ∨ next = 0 := by
  have hn := n.toNat_lt
  have hop := u32Op_natCast checked (n.toNat + 1)
  rw [Int.natCast_succ, h] at hop
  split at hop
  · cases hop
    rcases Nat.lt_or_ge (n.toNat + 1) 4294967296 with hlt | hge
    · exact .inl (UInt32.toNat_ofNat_of_lt' hlt)
    · have hwrap : n.toNat + 1 = 4294967296 := by omega
      rw [hwrap]
      exact .inr rfl
  · cases hop

/-- One of the loops that make a length divisible by the scale. -/
def grow (checked : Bool) (scale n : UInt32) : Except Panic UInt32 :=
  if scale = 0 then
    .error .remainderByZero
  else if n % scale = 0 then
    .ok n
  else
    match _h : u32Op checked (n.toNat + 1) with
    | .ok next => grow checked scale next
    | .error p => .error p
termination_by if n = 0 then 0 else 4294967296 - n.toNat
decreasing_by
  have hn := n.toNat_lt
  have hne : n ≠ 0 := by
    rintro rfl
    simp_all
  rw [if_neg hne]
  rcases u32Op_succ _h with hnext | rfl
  · split <;> omega
  · rw [if_pos rfl]
    omega

def bottomMargin : Int32 := 100

def rightMargin : Int32 := 150

/-- `zwlr_layer_surface_v1_v5_anchor_u32` -/
def anchorBottom : UInt32 := 2

def anchorRight : UInt32 := 8

/-- `zwlr_layer_shell_v1_v5_layer_u32::OVERLAY` -/
def layerOverlay : UInt32 := 3

/-- `wl_shm_v2_format_u32::ARGB8888` -/
def formatArgb8888 : UInt32 := 0

variable (env : Environment)

/-- `new_anonymous`, `set_length`. -/
def newSharedMemory (length : Int32) : ClientM RawFd := do
  match env.newAnonymous (← get).log with
  | none => panics (.expect "failed to create shared memory segment")
  | some fd =>
    act (.createdMemory fd)
    if env.setsLength (← get).log fd length.toInt then
      act (.setLength fd length.toInt)
      return fd
    else
      panics (.expect "failed to set shared memory length")

/-- `map_read_write(..)`, with the image written into the mapping. -/
def writeSharedMemory (fd : RawFd) (bytes : List UInt8) : ClientM Unit := do
  if env.maps (← get).log fd bytes.length then
    act (.written fd bytes)
  else
    panics (.expect "failed to map shared memory")

namespace LayerSurfaceHandler

/-- The scale, the text with its size made divisible by it, and the bytes. -/
def scaledText (preferredScale : Int32) : Except Panic (UInt32 × Image × List UInt8) := do
  let text ← (env.text preferredScale).mapError .expect
  let textImage ← drawText env.checked text
  let preferredScaleU32 ← preferredScaleU32 env.checked preferredScale
  let width ← grow env.checked preferredScaleU32 textImage.width
  let height ← grow env.checked preferredScaleU32 textImage.height
  let textImage : Image := { textImage with width, height }
  let textImageArgb ← textImage.toWhiteArgbLe env.checked
  return (preferredScaleU32, textImage, textImageArgb)

/-- The size, the anchor and the margin of the surface. -/
def placeSurface (layerSurface : ObjectId) (textImage : Image) (preferredScaleU32 : UInt32) :
    ClientM Unit := do
  send env zwlrLayerSurface "set_size" layerSurface
    [.uint (textImage.width / preferredScaleU32), .uint (textImage.height / preferredScaleU32)]
    "failed to set surface size"
  send env zwlrLayerSurface "set_anchor" layerSurface [.uint (anchorBottom ||| anchorRight)]
    "failed to reanchor surface"
  send env zwlrLayerSurface "set_margin" layerSurface
    [.int 0, .int rightMargin, .int bottomMargin, .int 0] "failed to set surface margin"

/-- A buffer with the image, in shared memory of its own. -/
def createBuffer (shmOid : Option ObjectId) (textImage : Image) (textImageArgb : List UInt8) :
    ClientM (RawFd × ObjectId) := do
  let sharedMemoryLength ← computed (unwrapConverted (i32TryFrom textImageArgb.length))
  let sharedMemory ← newSharedMemory env sharedMemoryLength
  let shm ← unwrap shmOid
  let shmPoolId ← getAndIncrementNextObjectId
  send env wlShm "create_pool" shm
    [.newId ⟨shmPoolId⟩, .fd sharedMemory, .int sharedMemoryLength]
    "failed to create shared memory pool"
  let bufferOid ← getAndIncrementNextObjectId
  registerHandler bufferOid .bufferHandler
  let bufferWidth ← computed (unwrapConverted (i32TryFrom textImage.width.toNat))
  let bufferHeight ← computed (unwrapConverted (i32TryFrom textImage.height.toNat))
  let stride ← computed (i32Op env.checked (bufferWidth.toInt * 4))
  send env wlShmPool "create_buffer" shmPoolId
    [.newId ⟨bufferOid⟩, .int 0, .int bufferWidth, .int bufferHeight, .int stride,
      .uint formatArgb8888]
    "failed to create shared memory buffer"
  writeSharedMemory env sharedMemory textImageArgb
  return (sharedMemory, bufferOid)

/-- The buffer is shown on the surface. -/
def showBuffer (surfaceOid : Option ObjectId) (bufferOid emptyRegionOid : ObjectId)
    (preferredScale : Int32) : ClientM Unit := do
  let surface ← unwrap surfaceOid
  send env wlSurface "attach" surface [.object (some bufferOid), .int 0, .int 0]
    "failed to attach buffer to surface"
  send env wlSurface "set_buffer_scale" surface [.int preferredScale]
    "failed to set buffer scaling"
  send env wlSurface "set_input_region" surface [.object (some emptyRegionOid)]
    "failed to set input region"
  send env wlSurface "commit" surface [] "failed to commit buffer"

/-- `handle_configure`, in four parts. -/
def handleConfigure (serial width height : UInt32) : ClientM Unit := do
  modify (·.showing ({ · with width, height }))
  let state := (← get).displayState
  let layerSurface ← unwrap state.layerSurfaceOid
  send env zwlrLayerSurface "ack_configure" layerSurface [.uint serial]
    "failed to send configuration acknowledgement"
  let (preferredScaleU32, textImage, textImageArgb) ← computed (scaledText env state.preferredScale)
  placeSurface env layerSurface textImage preferredScaleU32
  -- an empty region tells the compositor that the surface is not interactive
  let compositor ← unwrap state.compositorOid
  let emptyRegionOid ← getAndIncrementNextObjectId
  send env wlCompositor "create_region" compositor [.newId ⟨emptyRegionOid⟩]
    "failed to create region"
  let (sharedMemory, bufferOid) ← createBuffer env state.shmOid textImage textImageArgb
  showBuffer env state.surfaceOid bufferOid emptyRegionOid state.preferredScale
  act (.closed sharedMemory)

end LayerSurfaceHandler

end Configure

/-! ## The other handlers -/

section Handlers

variable (env : Environment)

def RegistryHandler.surfaceCreationRigmarole : ClientM Unit := do
  let state := (← get).displayState
  match state.compositorOid, state.layerShellOid, state.shmOid with
  | some compositorOid, some layerShellOid, some _ =>
    let surfaceOid ← getAndIncrementNextObjectId
    modify (·.showing ({ · with surfaceOid := some surfaceOid }))
    send env wlCompositor "create_surface" compositorOid [.newId ⟨surfaceOid⟩]
      "failed to create surface"
    let layerSurfaceOid ← getAndIncrementNextObjectId
    modify (·.showing ({ · with layerSurfaceOid := some layerSurfaceOid }))
    send env zwlrLayerShell "get_layer_surface" layerShellOid
      [.newId ⟨layerSurfaceOid⟩, .object (some surfaceOid), .object none, .uint layerOverlay,
        .string "activation"]
      "failed to promote surface to layer surface"
    registerHandler surfaceOid .surfaceHandler
    registerHandler layerSurfaceOid .layerSurfaceHandler
    send env wlSurface "commit" surfaceOid [] "failed to initially commit surface"
  | _, _, _ => return

def RegistryHandler.handleGlobal (packet : Packet) (name : UInt32) (interface : String)
    (version : UInt32) : ClientM Unit := do
  if interface = "wl_compositor" then
    let compositorOid ← getAndIncrementNextObjectId
    send env wlRegistry "bind" packet.objectId
      [.uint name, .newObject ⟨compositorOid, interface, version⟩] "failed to bind to compositor"
    modify (·.showing ({ · with compositorOid := some compositorOid }))
    surfaceCreationRigmarole env
  else if interface = "zwlr_layer_shell_v1" then
    let layerShellOid ← getAndIncrementNextObjectId
    send env wlRegistry "bind" packet.objectId
      [.uint name, .newObject ⟨layerShellOid, interface, version⟩] "failed to bind to layer shell"
    modify (·.showing ({ · with layerShellOid := some layerShellOid }))
    surfaceCreationRigmarole env
  else if interface = "wl_shm" then
    let shmOid ← getAndIncrementNextObjectId
    registerHandler shmOid .sharedMemoryHandler
    send env wlRegistry "bind" packet.objectId
      [.uint name, .newObject ⟨shmOid, interface, version⟩]
      "failed to bind to shared memory provider"
    modify (·.showing ({ · with shmOid := some shmOid }))
    surfaceCreationRigmarole env

/-- The methods of the event handlers. Those that are not here, and
`unknown_event`, do nothing but write to the program's own log. -/
def Handler.call (eventHandler : Handler) : HandlerCall → ClientM Unit
  | .handle method packet args =>
    match eventHandler, method, args.map Prod.snd with
    | .registryHandler, "handle_global", [.uint name, .string interface, .uint version] =>
      RegistryHandler.handleGlobal env packet name interface version
    | .surfaceHandler, "handle_preferred_buffer_scale", [.int factor] =>
      modify (·.showing ({ · with preferredScale := factor }))
    | .surfaceHandler, "handle_preferred_buffer_transform", [.uint transform] =>
      modify (·.showing ({ · with preferredTransform := transform }))
    | .layerSurfaceHandler, "handle_configure", [.uint serial, .uint width, .uint height] =>
      LayerSurfaceHandler.handleConfigure env serial width height
    | _, _, _ => return
  | .unknownEvent _ => return

/-- `handle_event`, as each of the handlers implements it. -/
def Handler.handleEvent (eventHandler : Handler) (packet : Packet) : ClientM Unit := do
  match eventHandler.interface.eventHandler with
  | none => throw .doesNotCompile
  | some eventHandlerTrait =>
    let (calls, result) := eventHandlerTrait.handleEvent env.target packet
    calls.forM (eventHandler.call env)
    match result with
    | .ok () => return
    | .error e => throw (.library e)

/-- `dispatch(packet).await.expect("failed to dispatch Wayland packet")` -/
def dispatch (packet : Packet) : ClientM Unit := do
  modify Client.draining
  match (← get).objectIdToEventHandler[packet.objectId]? with
  | some eventHandler => eventHandler.handleEvent env packet
  | none => throw (.library (.error (.noEventHandler packet.objectId)))

/-- `run` up to its loop. -/
def start : ClientM Unit := do
  registerHandler .display .displayHandler
  let registryOid ← getAndIncrementNextObjectId
  registerHandler registryOid .registryHandler
  send env wlDisplay "get_registry" .display [.newId ⟨registryOid⟩]
    "failed to send request for registry"

/-- A turn of the loop. -/
def receive (packet : Packet) : ClientM Unit := do
  act (.received packet)
  dispatch env packet

/-- `run`, until the packets come to an end. -/
def run (packets : List Packet) : ClientM Unit := do
  start env
  packets.forM (receive env)

end Handlers

end WhaleLand.ActivateLinux
