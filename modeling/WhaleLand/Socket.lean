import WhaleLand.Packet

/-!
# The stream socket

What the library relies on about the connected Unix socket. A stream is a row
of bytes, each with the descriptors that are attached to it (`Cell`); a
receive takes some of the next bytes together with their descriptors, a send
appends some of its bytes with its descriptors on the first.

A receive into an empty buffer takes no byte. Whether it takes the descriptors
of the next byte all the same is up to the kernel (`Kernel`); Linux hands them
over.
-/

namespace WhaleLand

/-! ## Streams -/

/-- A byte on the stream and the descriptors attached to it. -/
structure Cell where
  byte : UInt8
  fds : List RawFd
deriving DecidableEq, Repr

def bytesOf (cells : List Cell) : List UInt8 := cells.map Cell.byte

def fdsOf (cells : List Cell) : List RawFd := cells.flatMap Cell.fds

/-- Bytes with descriptors on the first of them. -/
def attach (fds : List RawFd) : List UInt8 → List Cell
  | [] => []
  | b :: bytes => ⟨b, fds⟩ :: bytes.map (⟨·, []⟩)

/-- What is still to be received: the bytes to come, and whether the peer
closes the stream after them or stalls. -/
structure Incoming where
  cells : List Cell
  closed : Bool
deriving DecidableEq, Repr

/-! ## Kernels -/

/-- The descriptors of the next byte. -/
def nextFds : List Cell → List RawFd
  | [] => []
  | c :: _ => c.fds

/-- The descriptors of the next byte have been taken off it. -/
def withoutNextFds : List Cell → List Cell
  | [] => []
  | c :: cells => ⟨c.byte, []⟩ :: cells

/-- A kernel, as far as receives into an empty buffer depend on it: whether
they hand over the descriptors of the next byte. -/
structure Kernel where
  handsOverEarly : Bool
deriving DecidableEq, Repr

namespace Kernel

/-- Linux takes the descriptors off the part of the stream that it looks at,
however little of it fits into the buffer. -/
def linux : Kernel := ⟨true⟩

/-- The descriptors that a receive into an empty buffer hands over. -/
def earlyFds (kernel : Kernel) (cells : List Cell) : List RawFd :=
  if kernel.handsOverEarly then nextFds cells else []

/-- The stream after a receive into an empty buffer. -/
def afterEarly (kernel : Kernel) (cells : List Cell) : List Cell :=
  if kernel.handsOverEarly then withoutNextFds cells else cells

end Kernel

/-! ## Receiving -/

/-- What a receive hands over: the bytes put into the buffer, and the
descriptors appended to the caller's list. -/
structure Received where
  bytes : List UInt8
  fds : List RawFd
deriving DecidableEq, Repr

/-- The successful outcomes of `recv_with_fds` with a buffer of `len` bytes.
It waits until the stream is readable whatever the buffer's length, so there
is none on a stalled stream. -/
inductive Receive (kernel : Kernel) (len : Nat) : Incoming → Received → Incoming → Prop
  | data {got rest : List Cell} {closed : Bool} :
      got ≠ [] → got.length ≤ len →
      Receive kernel len ⟨got ++ rest, closed⟩ ⟨bytesOf got, fdsOf got⟩ ⟨rest, closed⟩
  | emptyBuffer {cells : List Cell} {closed : Bool} :
      len = 0 → cells ≠ [] →
      Receive kernel len ⟨cells, closed⟩ ⟨[], kernel.earlyFds cells⟩
        ⟨kernel.afterEarly cells, closed⟩
  | endOfStream : Receive kernel len ⟨[], true⟩ ⟨[], []⟩ ⟨[], true⟩

/-! ## Sending -/

/-- The successful outcomes of `send` and `send_with_fds`: the first `n` bytes
of the data are on the wire, the descriptors with the first of them. -/
inductive Send (data : List UInt8) (fds : List RawFd) (wire : List Cell) :
    Nat → List Cell → Prop
  | sent {n : Nat} : 1 ≤ n → n ≤ data.length →
      Send data fds wire n (wire ++ attach fds (data.take n))

/-- A packet on the stream: its serialization with its descriptors on the first
byte. A packet that cannot be serialized leaves nothing. -/
def sentCells (t : Target) (p : Packet) : List Cell :=
  match p.serialize t with
  | .ok bytes => attach p.fds bytes
  | .error _ => []

/-! ## Lemmas -/

@[simp] theorem bytesOf_append (a b : List Cell) : bytesOf (a ++ b) = bytesOf a ++ bytesOf b :=
  List.map_append

@[simp] theorem fdsOf_append (a b : List Cell) : fdsOf (a ++ b) = fdsOf a ++ fdsOf b :=
  List.flatMap_append

@[simp] theorem length_bytesOf (cells : List Cell) : (bytesOf cells).length = cells.length :=
  List.length_map _

@[simp] theorem bytesOf_attach (fds : List RawFd) (bytes : List UInt8) :
    bytesOf (attach fds bytes) = bytes := by
  cases bytes with
  | nil => rfl
  | cons b bytes => simp [attach, bytesOf, Function.comp_def]

@[simp] theorem length_attach (fds : List RawFd) (bytes : List UInt8) :
    (attach fds bytes).length = bytes.length := by
  rw [← length_bytesOf, bytesOf_attach]

theorem fdsOf_attach (fds : List RawFd) {bytes : List UInt8} (h : bytes ≠ []) :
    fdsOf (attach fds bytes) = fds := by
  cases bytes with
  | nil => exact absurd rfl h
  | cons b bytes => simp [attach, fdsOf]

theorem nextFds_attach (fds : List RawFd) {bytes : List UInt8} (h : bytes ≠ [])
    (more : List Cell) : nextFds (attach fds bytes ++ more) = fds := by
  cases bytes with
  | nil => exact absurd rfl h
  | cons b bytes => rfl

theorem withoutNextFds_attach (fds : List RawFd) {bytes : List UInt8} (h : bytes ≠ [])
    (more : List Cell) : withoutNextFds (attach fds bytes ++ more) = attach [] bytes ++ more := by
  cases bytes with
  | nil => exact absurd rfl h
  | cons b bytes => rfl

/-- Everything that is left arrives at once. -/
theorem Receive.all {kernel : Kernel} {len : Nat} {cells : List Cell} {closed : Bool}
    (hne : cells ≠ []) (hle : cells.length ≤ len) :
    Receive kernel len ⟨cells, closed⟩ ⟨bytesOf cells, fdsOf cells⟩ ⟨[], closed⟩ := by
  have hdata : Receive kernel len ⟨cells ++ [], closed⟩ ⟨bytesOf cells, fdsOf cells⟩ ⟨[], closed⟩ :=
    .data hne hle
  rwa [List.append_nil] at hdata

/-- Receiving does not close a stream. -/
theorem Receive.closed_eq {kernel : Kernel} {len : Nat} {net net' : Incoming} {got : Received}
    (h : Receive kernel len net got net') : net'.closed = net.closed := by
  cases h <;> rfl

namespace Kernel

variable (kernel : Kernel)

@[simp] theorem earlyFds_nil : kernel.earlyFds [] = [] := by
  simp [earlyFds, nextFds]

@[simp] theorem afterEarly_nil : kernel.afterEarly [] = [] := by
  simp [afterEarly, withoutNextFds]

/-- No byte is taken. -/
@[simp] theorem bytesOf_afterEarly (cells : List Cell) :
    bytesOf (kernel.afterEarly cells) = bytesOf cells := by
  rw [afterEarly]
  split
  · cases cells <;> rfl
  · rfl

/-- What comes later is not looked at. -/
theorem earlyFds_append {cells : List Cell} (h : cells ≠ []) (more : List Cell) :
    kernel.earlyFds (cells ++ more) = kernel.earlyFds cells := by
  cases cells with
  | nil => exact absurd rfl h
  | cons c cells => rfl

theorem afterEarly_append {cells : List Cell} (h : cells ≠ []) (more : List Cell) :
    kernel.afterEarly (cells ++ more) = kernel.afterEarly cells ++ more := by
  cases cells with
  | nil => exact absurd rfl h
  | cons c cells =>
    simp only [afterEarly, withoutNextFds, List.cons_append]
    split <;> rfl

end Kernel

/-- The descriptors stay on the first byte when the rest is cut off. -/
theorem attach_append (fds : List RawFd) {a : List UInt8} (h : a ≠ []) (b : List UInt8) :
    attach fds (a ++ b) = attach fds a ++ attach [] b := by
  cases a with
  | nil => exact absurd rfl h
  | cons x a =>
    cases b with
    | nil => simp [attach]
    | cons y b => simp [attach]

theorem attach_nil_flatMap {α : Type} (l : List α) (f : α → List UInt8) :
    attach [] (l.flatMap f) = l.flatMap fun a => attach [] (f a) := by
  have hmap : ∀ bytes, attach [] bytes = bytes.map (⟨·, []⟩) := by
    intro bytes
    cases bytes <;> rfl
  simp only [hmap, List.map_flatMap]

theorem sentCells_of_sendable {t : Target} {p : Packet} (h : p.Sendable) :
    sentCells t p = attach p.fds (p.frame t) := by
  rw [sentCells, Packet.serialize_of_sendable h]

end WhaleLand
