import WhaleLand.MessageAgreement

/-!
# The interfaces that the client uses

The generated modules `protocol::wayland` and
`protocol::wlr_layer_shell_unstable_v1`, as the interfaces that they were
generated from: the messages in the order of their opcodes, with the types of
their arguments. The generated code knows of the interface of an argument only
whether there is one; which one it is follows from the protocols.
-/

namespace WhaleLand

open Wlproto

def wlDisplay : Interface where
  name := "wl_display"
  version := 1
  requests := [
    ⟨"sync", [⟨"callback", .newId, some "wl_callback"⟩]⟩,
    ⟨"get_registry", [⟨"registry", .newId, some "wl_registry"⟩]⟩]
  events := [
    ⟨"error", [⟨"object_id", .objectId, none⟩, ⟨"code", .uint, none⟩,
      ⟨"message", .string, none⟩]⟩,
    ⟨"delete_id", [⟨"id", .uint, none⟩]⟩]

def wlRegistry : Interface where
  name := "wl_registry"
  version := 1
  requests := [⟨"bind", [⟨"name", .uint, none⟩, ⟨"id", .newId, none⟩]⟩]
  events := [
    ⟨"global", [⟨"name", .uint, none⟩, ⟨"interface", .string, none⟩, ⟨"version", .uint, none⟩]⟩,
    ⟨"global_remove", [⟨"name", .uint, none⟩]⟩]

def wlCompositor : Interface where
  name := "wl_compositor"
  version := 7
  requests := [
    ⟨"create_surface", [⟨"id", .newId, some "wl_surface"⟩]⟩,
    ⟨"create_region", [⟨"id", .newId, some "wl_region"⟩]⟩,
    ⟨"release", []⟩]
  events := []

def wlShmPool : Interface where
  name := "wl_shm_pool"
  version := 2
  requests := [
    ⟨"create_buffer", [⟨"id", .newId, some "wl_buffer"⟩, ⟨"offset", .int, none⟩,
      ⟨"width", .int, none⟩, ⟨"height", .int, none⟩, ⟨"stride", .int, none⟩,
      ⟨"format", .uint, none⟩]⟩,
    ⟨"destroy", []⟩,
    ⟨"resize", [⟨"size", .int, none⟩]⟩]
  events := []

def wlShm : Interface where
  name := "wl_shm"
  version := 2
  requests := [
    ⟨"create_pool", [⟨"id", .newId, some "wl_shm_pool"⟩, ⟨"fd", .fileDescriptor, none⟩,
      ⟨"size", .int, none⟩]⟩,
    ⟨"release", []⟩]
  events := [⟨"format", [⟨"format", .uint, none⟩]⟩]

def wlBuffer : Interface where
  name := "wl_buffer"
  version := 1
  requests := [⟨"destroy", []⟩]
  events := [⟨"release", []⟩]

def wlSurface : Interface where
  name := "wl_surface"
  version := 7
  requests := [
    ⟨"destroy", []⟩,
    ⟨"attach", [⟨"buffer", .objectId, some "wl_buffer"⟩, ⟨"x", .int, none⟩, ⟨"y", .int, none⟩]⟩,
    ⟨"damage", [⟨"x", .int, none⟩, ⟨"y", .int, none⟩, ⟨"width", .int, none⟩,
      ⟨"height", .int, none⟩]⟩,
    ⟨"frame", [⟨"callback", .newId, some "wl_callback"⟩]⟩,
    ⟨"set_opaque_region", [⟨"region", .objectId, some "wl_region"⟩]⟩,
    ⟨"set_input_region", [⟨"region", .objectId, some "wl_region"⟩]⟩,
    ⟨"commit", []⟩,
    ⟨"set_buffer_transform", [⟨"transform", .int, none⟩]⟩,
    ⟨"set_buffer_scale", [⟨"scale", .int, none⟩]⟩,
    ⟨"damage_buffer", [⟨"x", .int, none⟩, ⟨"y", .int, none⟩, ⟨"width", .int, none⟩,
      ⟨"height", .int, none⟩]⟩,
    ⟨"offset", [⟨"x", .int, none⟩, ⟨"y", .int, none⟩]⟩,
    ⟨"get_release", [⟨"callback", .newId, some "wl_callback"⟩]⟩]
  events := [
    ⟨"enter", [⟨"output", .objectId, some "wl_output"⟩]⟩,
    ⟨"leave", [⟨"output", .objectId, some "wl_output"⟩]⟩,
    ⟨"preferred_buffer_scale", [⟨"factor", .int, none⟩]⟩,
    ⟨"preferred_buffer_transform", [⟨"transform", .uint, none⟩]⟩]

def zwlrLayerShell : Interface where
  name := "zwlr_layer_shell_v1"
  version := 5
  requests := [
    ⟨"get_layer_surface", [⟨"id", .newId, some "zwlr_layer_surface_v1"⟩,
      ⟨"surface", .objectId, some "wl_surface"⟩, ⟨"output", .objectId, some "wl_output"⟩,
      ⟨"layer", .uint, none⟩, ⟨"namespace", .string, none⟩]⟩,
    ⟨"destroy", []⟩]
  events := []

def zwlrLayerSurface : Interface where
  name := "zwlr_layer_surface_v1"
  version := 5
  requests := [
    ⟨"set_size", [⟨"width", .uint, none⟩, ⟨"height", .uint, none⟩]⟩,
    ⟨"set_anchor", [⟨"anchor", .uint, none⟩]⟩,
    ⟨"set_exclusive_zone", [⟨"zone", .int, none⟩]⟩,
    ⟨"set_margin", [⟨"top", .int, none⟩, ⟨"right", .int, none⟩, ⟨"bottom", .int, none⟩,
      ⟨"left", .int, none⟩]⟩,
    ⟨"set_keyboard_interactivity", [⟨"keyboard_interactivity", .uint, none⟩]⟩,
    ⟨"get_popup", [⟨"popup", .objectId, some "xdg_popup"⟩]⟩,
    ⟨"ack_configure", [⟨"serial", .uint, none⟩]⟩,
    ⟨"destroy", []⟩,
    ⟨"set_layer", [⟨"layer", .uint, none⟩]⟩,
    ⟨"set_exclusive_edge", [⟨"edge", .uint, none⟩]⟩]
  events := [
    ⟨"configure", [⟨"serial", .uint, none⟩, ⟨"width", .uint, none⟩, ⟨"height", .uint, none⟩]⟩,
    ⟨"closed", []⟩]

/-- The interfaces whose objects the client sends requests to. -/
def clientInterfaces : List Interface :=
  [wlDisplay, wlRegistry, wlCompositor, wlShm, wlShmPool, wlSurface, zwlrLayerShell,
    zwlrLayerSurface, wlBuffer]

/-- None of their names clash. -/
theorem distinctNames_of_mem {interface : Interface} (h : interface ∈ clientInterfaces) :
    interface.DistinctNames := by
  have hall : ∀ interface ∈ clientInterfaces,
      (interface.requests.map Procedure.name).Nodup ∧ (interface.events.map Procedure.name).Nodup ∧
      (∀ procedure ∈ interface.requests ++ interface.events,
        (procedure.args.map Arg.name).Nodup) ∧
      ∀ procedure ∈ interface.requests ++ interface.events,
        ∀ name ∈ introducedNames, name ∉ procedure.args.map Arg.name := by
    decide +kernel
  obtain ⟨hrequests, hevents, hargs, hintroduced⟩ := hall interface h
  exact ⟨hrequests, hevents, hargs, hintroduced⟩

end WhaleLand
