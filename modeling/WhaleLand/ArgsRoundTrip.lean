import WhaleLand.Codec
import WhaleLand.Lib.Scope

/-!
# Round trips of argument lists and structs

The conversions of an emitted `*_args` struct are the decoding and encoding of
its argument list, with the values put into the struct's fields and taken from
them (`tryFromPacket_eq`, `tryIntoPacket_eq`). The two round trips:

* decoding what was encoded gives the values back (`decode_undoes_encode`);
* encoding what was decoded gives the packet back, with its padding zeroed
  (`encode_undoes_decode`).
-/

namespace WhaleLand

open Wlproto PacketReader

/-! ## The conversions of an argument struct -/

section Structs

variable {t : Target} {p : Packet}

/-- A value of an emitted struct: its fields in order, each with a value of the
field's type. -/
def Wlproto.ArgsStruct.HasFields (struct : ArgsStruct) (a : Env) : Prop :=
  a.map (fun field => (field.1, field.2.type)) = struct.fields

/-- The struct is built from the variables of its own fields. -/
theorem construct_reverse {a : Env} (hnodup : (a.map Prod.fst).Nodup) :
    construct (a.map Prod.fst) a.reverse = a := by
  have hrev : (a.reverse.map Prod.fst).Nodup := by
    rw [List.map_reverse]
    exact List.nodup_reverse.mpr hnodup
  rw [construct, List.filterMap_map]
  have hfield : ∀ field ∈ a, ((fun name => (a.reverse.lookup name).map (name, ·)) ∘ Prod.fst) field
      = some field := by
    rintro ⟨name, v⟩ hmem
    simp [Scope.lookup_of_mem hrev (List.mem_reverse.mpr hmem)]
  rw [List.filterMap_congr hfield, List.filterMap_some]

theorem runReads_eq (args : List Arg) (env : Env) :
    runReads t p (args.map fun arg => ⟨arg.name, arg.readFunc⟩) env = (do
      let vs ← readArgs t p args
      return ((args.map Arg.name).zip vs).reverse ++ env) := by
  induction args generalizing env with
  | nil => rfl
  | cons arg args ih => simp [runReads, readArgs, ih]

/-- Reading an argument list and finishing, with something made of the values,
is decoding it. The values made use of are as many as the arguments. -/
theorem runReader_readArgs {α : Type} {args : List Arg} {f : List Value → ReadM α}
    {g : List Value → α}
    (hf : ∀ vs : List Value, args.length = vs.length → f vs = do finish p; return g vs) :
    runReader (do let vs ← readArgs t p args; f vs) = (decodeArgs t args p).map g := by
  unfold decodeArgs runReader
  cases hread : (readArgs t p args).run Packet.read with
  | error e s => rw [run_bind_of_error hread, run_bind_of_error hread]; rfl
  | ok vs s =>
    rw [run_bind_of_ok hread, run_bind_of_ok hread, hf vs (readArgs_ok hread).1.length_eq]
    cases hfin : (finish p).run s with
    | error e s => rw [run_bind_of_error hfin, run_bind_of_error hfin]; rfl
    | ok _ s => rw [run_bind_of_ok hfin, run_bind_of_ok hfin]; rfl

/-- `try_from_packet` is the decoding of the argument list, with the values put
into the fields. -/
theorem tryFromPacket_eq {nameVer kind : String} {i : Nat} {procedure : Procedure}
    (hnodup : (procedure.args.map Arg.name).Nodup) :
    (tokenizeArgsStruct nameVer kind i procedure).tryFromPacket t p =
      (decodeArgs t procedure.args p).map ((procedure.args.map Arg.name).zip ·) := by
  simp only [ArgsStruct.tryFromPacket, tokenizeArgsStruct, runReads_eq, bind_assoc, pure_bind,
    List.append_nil]
  refine runReader_readArgs fun vs hlen => ?_
  have hnames : ((procedure.args.map Arg.name).zip vs).map Prod.fst =
      procedure.args.map Arg.name := by
    rw [List.map_fst_zip]
    simp [hlen]
  have hfields := construct_reverse (hnames.symm ▸ hnodup)
  rw [hnames] at hfields
  rw [hfields]

theorem runWrites_eq {self : Env} (hnodup : (self.map Prod.fst).Nodup) {args : List Arg}
    {a : Env} (hnames : a.map Prod.fst = args.map Arg.name) (ha : ∀ field ∈ a, field ∈ self) :
    runWrites t self (args.map fun arg => ⟨arg.writeFunc, arg.writeReference, arg.name⟩) p =
      pushArgs t p args (a.map Prod.snd) := by
  induction args generalizing a p with
  | nil => simp [List.map_eq_nil_iff.mp hnames, runWrites, pushArgs]
  | cons arg args ih =>
    cases a with
    | nil => cases hnames
    | cons field a =>
      obtain ⟨name, v⟩ := field
      obtain ⟨rfl, htail⟩ := List.cons.inj hnames
      obtain ⟨hv, ha⟩ := List.forall_mem_cons.mp ha
      simp only [List.map_cons, runWrites, pushArgs]
      rw [Scope.lookup_of_mem hnodup hv]
      exact bind_congr fun q => ih htail ha

/-- `try_into_packet` is the encoding of the fields' values. -/
theorem tryIntoPacket_eq {nameVer kind : String} {i : Nat} {procedure : Procedure} {a : Env}
    (hnodup : (procedure.args.map Arg.name).Nodup)
    (hnames : a.map Prod.fst = procedure.args.map Arg.name) (objectId : ObjectId) :
    (tokenizeArgsStruct nameVer kind i procedure).tryIntoPacket t a objectId =
      pushArgs t (Packet.new objectId (UInt16.ofNat i)) procedure.args (a.map Prod.snd) :=
  runWrites_eq (hnames.symm ▸ hnodup) hnames fun _ h => h

theorem wellTyped_iff {args : List Arg} {vs : List Value} :
    WellTyped args vs ↔ vs.map Value.type = args.map Arg.incomingType := by
  induction args generalizing vs with
  | nil => simp [WellTyped]
  | cons arg args ih =>
    cases vs with
    | nil => simp [WellTyped]
    | cons v vs => simpa [WellTyped] using fun _ => ih

/-- The values of a struct fit the arguments that it was made from. -/
theorem wellTyped_of_hasFields {nameVer kind : String} {i : Nat} {procedure : Procedure}
    {a : Env} (h : (tokenizeArgsStruct nameVer kind i procedure).HasFields a) :
    a.map Prod.fst = procedure.args.map Arg.name ∧
      WellTyped procedure.args (a.map Prod.snd) := by
  have hnames := congrArg (List.map Prod.fst) h
  have htypes := congrArg (List.map Prod.snd) h
  simp only [tokenizeArgsStruct, List.map_map] at hnames htypes
  exact ⟨hnames, wellTyped_iff.mpr (by rwa [List.map_map])⟩

theorem hasFields_zip {nameVer kind : String} {i : Nat} {procedure : Procedure}
    {vs : List Value} (hty : WellTyped procedure.args vs) :
    (tokenizeArgsStruct nameVer kind i procedure).HasFields
      ((procedure.args.map Arg.name).zip vs) := by
  show List.map _ _ = procedure.args.map fun arg => (arg.name, arg.incomingType)
  generalize procedure.args = args at hty
  induction hty with
  | nil => rfl
  | cons hv _ ih =>
    simp only [List.map_cons, List.zip_cons_cons, ih, hv]

end Structs

/-! ## Decoding undoes encoding -/

section RoundTrips

variable {t : Target} {args : List Arg} {vs : List Value}

theorem decodeArgs_pushArgs (hty : WellTyped args vs) (h : ∀ v ∈ vs, v.Pushable)
    (objectId : ObjectId) (opcode : UInt16) :
    ∃ p, pushArgs t (Packet.new objectId opcode) args vs = .ok p ∧ 4 ∣ p.payload.length ∧
      (p.Allocated t → decodeArgs t args p = .ok vs) := by
  have hc : EncodesAll t vs (encodeAll t vs) := encodesAll_encodeAll h
  refine ⟨_, pushArgs_ok hty h, ?_, fun hp => ?_⟩
  · simpa [Packet.new] using four_dvd_of_encodesAll hc
  · exact decodeArgs_of_encodes hp hty (by simpa [Packet.new] using hc) (by simp [Packet.new])

/-- Reading an argument list gives back the values that were written into a
fresh packet, and nothing is left over; an emitted struct that is turned into
a packet comes back from it. A packet here is one that fits in memory. -/
theorem decode_undoes_encode (t : Target) :
    (∀ (args : List Arg) (vs : List Value) (objectId : ObjectId) (opcode : UInt16),
      WellTyped args vs → (∀ v ∈ vs, v.Pushable) →
      ∃ p, pushArgs t (Packet.new objectId opcode) args vs = .ok p ∧ 4 ∣ p.payload.length ∧
        (p.Allocated t → decodeArgs t args p = .ok vs)) ∧
    (∀ (interface : Interface) (struct : ArgsStruct) (a : Env) (objectId : ObjectId),
      struct ∈ interface.argsStructs → struct.fieldNames.Nodup → struct.HasFields a →
      (∀ field ∈ a, field.2.Pushable) →
      ∃ p, struct.tryIntoPacket t a objectId = .ok p ∧
        (p.Allocated t → struct.tryFromPacket t p = .ok a)) := by
  refine ⟨fun args vs objectId opcode hty h => decodeArgs_pushArgs hty h objectId opcode, ?_⟩
  intro interface struct a objectId hmem hnodup hfields h
  obtain ⟨kind, i, procedure, _, rfl⟩ := mem_argsStructs hmem
  obtain ⟨hnames, hty⟩ := wellTyped_of_hasFields hfields
  have hpush : ∀ v ∈ a.map Prod.snd, v.Pushable := by
    simpa only [List.forall_mem_map] using h
  obtain ⟨p, hp, _, hdecode⟩ := decodeArgs_pushArgs hty hpush objectId (UInt16.ofNat i)
  refine ⟨p, (tryIntoPacket_eq hnodup hnames objectId).trans hp, fun halloc => ?_⟩
  rw [tryFromPacket_eq hnodup, hdecode halloc]
  exact congrArg Except.ok (List.zip_of_prod hnames rfl).symm

end RoundTrips

/-- The arguments of a bind request: a number and a new object of any
interface. -/
def bindArgs : List Arg := [⟨"name", .uint, none⟩, ⟨"id", .newId, none⟩]

def bindValues : List Value := [.uint 1, .newObject ⟨.ofNat 3, "wl_shm", 1⟩]

theorem wellTyped_bindValues : WellTyped bindArgs bindValues :=
  .cons rfl (.cons rfl .nil)

theorem decode_undoes_encode_bind :
    ∃ p, pushArgs ⟨.little, .w64⟩ (Packet.new (.ofNat 2) 0) bindArgs bindValues = .ok p ∧
      decodeArgs ⟨.little, .w64⟩ bindArgs p = .ok bindValues := by
  have hpush : ∀ v ∈ bindValues, v.Pushable := by decide +kernel
  obtain ⟨p, hp, _, hdecode⟩ := (decode_undoes_encode ⟨.little, .w64⟩).1 bindArgs bindValues
    (.ofNat 2) 0 wellTyped_bindValues hpush
  refine ⟨p, hp, hdecode ?_⟩
  cases hp.symm.trans (pushArgs_ok wellTyped_bindValues hpush)
  exact ⟨by decide +kernel, by decide +kernel⟩

/-! ## Encoding undoes decoding -/

/-- The bytes of a length-prefixed slice of `len` bytes that are padding. -/
def slicePadding (len : Nat) : List Bool :=
  List.replicate (4 + len) false ++ List.replicate (Packet.realignCount len) true

/-- The bytes of a value's chunk that are padding: those after the contents of
strings and arrays. -/
def paddingMask : Value → List Bool
  | .string s => slicePadding ((strBytes s).length + 1)
  | .newObject n => slicePadding ((strBytes n.interface).length + 1) ++ List.replicate 8 false
  | .array bytes => slicePadding bytes.length
  | .fd _ => []
  | .uint _ | .int _ | .fixed _ | .object _ | .newId _ => List.replicate 4 false

/-- Two byte strings of the mask's length agree outside the mask, and the
second is zero on it. -/
inductive SameUpToPadding : List Bool → List UInt8 → List UInt8 → Prop
  | nil : SameUpToPadding [] [] []
  | byte {mask : List Bool} {a b : List UInt8} (x : UInt8) :
      SameUpToPadding mask a b → SameUpToPadding (false :: mask) (x :: a) (x :: b)
  | padding {mask : List Bool} {a b : List UInt8} (x : UInt8) :
      SameUpToPadding mask a b → SameUpToPadding (true :: mask) (x :: a) (0 :: b)

namespace SameUpToPadding

theorem append {mask mask' : List Bool} {a b a' b' : List UInt8} (h : SameUpToPadding mask a b)
    (h' : SameUpToPadding mask' a' b') :
    SameUpToPadding (mask ++ mask') (a ++ a') (b ++ b') := by
  induction h with
  | nil => exact h'
  | byte x _ ih => exact .byte x ih
  | padding x _ ih => exact .padding x ih

theorem length_eq {mask : List Bool} {a b : List UInt8} (h : SameUpToPadding mask a b) :
    a.length = mask.length ∧ b.length = mask.length := by
  induction h with
  | nil => exact ⟨rfl, rfl⟩
  | byte _ _ ih | padding _ _ ih => simpa using ih

theorem bytes {a : List UInt8} {n : Nat} (h : a.length = n) :
    SameUpToPadding (List.replicate n false) a a := by
  subst h
  induction a with
  | nil => exact .nil
  | cons x a ih => exact .byte x ih

theorem zeroed {a : List UInt8} {n : Nat} (h : a.length = n) :
    SameUpToPadding (List.replicate n true) a (List.replicate n 0) := by
  subst h
  induction a with
  | nil => exact .nil
  | cons x a ih => exact .padding x ih

end SameUpToPadding

section Padding

variable {t : Target}

theorem sameUpToPadding_slice {bytes chunk : List UInt8} (h : EncodesSlice t bytes chunk) :
    SameUpToPadding (slicePadding bytes.length) chunk (encodeSlice t bytes) := by
  obtain ⟨_, padding, hpad, rfl⟩ := h
  exact .append (.bytes (by simp)) (.zeroed hpad)

theorem sameUpToPadding_str {s : String} {chunk : List UInt8} (h : EncodesStr t s chunk) :
    SameUpToPadding (slicePadding ((strBytes s).length + 1)) chunk (encodeStr t s) := by
  have hslice := sameUpToPadding_slice h.2
  rwa [List.length_append] at hslice

/-- The chunks of a value differ in their padding only. -/
theorem sameUpToPadding_of_encodes {v : Value} {chunk : List UInt8} (h : Encodes t v chunk) :
    SameUpToPadding (paddingMask v) chunk (encode t v) := by
  cases v with
  | string s => exact sameUpToPadding_str h
  | newObject n =>
    obtain ⟨str, hstr, rfl⟩ := h
    exact .append (sameUpToPadding_str hstr) (.bytes (by simp))
  | array bytes => exact sameUpToPadding_slice h
  | fd v => exact h ▸ .nil
  | uint _ | int _ | fixed _ | object _ | newId _ => exact h ▸ .bytes (length_u32ToNeBytes t _)

theorem sameUpToPadding_of_encodesAll {vs : List Value} {chunk : List UInt8}
    (h : EncodesAll t vs chunk) :
    SameUpToPadding (vs.flatMap paddingMask) chunk (encodeAll t vs) := by
  induction vs generalizing chunk with
  | nil => exact h ▸ .nil
  | cons v vs ih =>
    obtain ⟨first, others, hv, hvs, rfl⟩ := h
    exact .append (sameUpToPadding_of_encodes hv) (ih hvs)

theorem pushArgs_decodeArgs {args : List Arg} {p : Packet} {vs : List Value}
    (h : decodeArgs t args p = .ok vs) (objectId : ObjectId) (opcode : UInt16) :
    ∃ q, pushArgs t (Packet.new objectId opcode) args vs = .ok q ∧ q.fds = p.fds ∧
      q.payload.length = p.payload.length ∧
      SameUpToPadding (vs.flatMap paddingMask) p.payload q.payload := by
  obtain ⟨hty, hc, hfds⟩ := decodeArgs_ok h
  have hpad := sameUpToPadding_of_encodesAll hc
  refine ⟨_, pushArgs_ok hty (pushable_of_encodesAll hc), ?_, ?_, ?_⟩
  · simpa [Packet.new] using hfds
  · simpa [Packet.new] using hpad.length_eq.2.trans hpad.length_eq.1.symm
  · simpa [Packet.new] using hpad

/-- Whatever packet decodes, writing its values into a fresh packet gives the
same descriptors and the same payload with its padding zeroed; likewise for
the emitted structs. The payload is the chunks of the values and nothing else,
so no byte is skipped or read twice, and so are the descriptors. -/
theorem encode_undoes_decode (t : Target) (p : Packet) :
    (∀ (args : List Arg) (vs : List Value), decodeArgs t args p = .ok vs →
      EncodesAll t vs p.payload ∧ fdsOfValues vs = p.fds ∧
      ∃ q, pushArgs t (Packet.new p.objectId p.opcode) args vs = .ok q ∧ q.fds = p.fds ∧
        q.payload.length = p.payload.length ∧
        SameUpToPadding (vs.flatMap paddingMask) p.payload q.payload) ∧
    (∀ (interface : Interface) (struct : ArgsStruct) (a : Env),
      struct ∈ interface.argsStructs → struct.fieldNames.Nodup →
      struct.tryFromPacket t p = .ok a →
      struct.HasFields a ∧ EncodesAll t (a.map Prod.snd) p.payload ∧
      ∃ q, struct.tryIntoPacket t a p.objectId = .ok q ∧ q.fds = p.fds ∧
        q.payload.length = p.payload.length ∧
        SameUpToPadding ((a.map Prod.snd).flatMap paddingMask) p.payload q.payload) := by
  constructor
  · intro args vs h
    obtain ⟨_, hc, hfds⟩ := decodeArgs_ok h
    exact ⟨hc, hfds, pushArgs_decodeArgs h p.objectId p.opcode⟩
  · intro interface struct a hmem hnodup h
    obtain ⟨kind, i, procedure, _, rfl⟩ := mem_argsStructs hmem
    rw [tryFromPacket_eq hnodup] at h
    cases hdecode : decodeArgs t procedure.args p with
    | error e => rw [hdecode] at h; cases h
    | ok vs =>
      rw [hdecode] at h
      cases h
      obtain ⟨hty, hc, hfds⟩ := decodeArgs_ok hdecode
      have hlen : (procedure.args.map Arg.name).length = vs.length := by
        simp [hty.length_eq]
      have hnames := List.map_fst_zip hlen.le
      have hvalues := List.map_snd_zip hlen.ge
      rw [tryIntoPacket_eq hnodup hnames, hvalues]
      exact ⟨hasFields_zip hty, hc, pushArgs_decodeArgs hdecode p.objectId _⟩

end Padding

/-- A bind request whose string is padded with a byte that is not zero. -/
def bindPacket : Packet where
  objectId := .ofNat 2
  opcode := 0
  payload := [1, 0, 0, 0, 7, 0, 0, 0, 0x77, 0x6C, 0x5F, 0x73, 0x68, 0x6D, 0, 0xFF, 1, 0, 0, 0,
    3, 0, 0, 0]
  fds := []

theorem encode_undoes_decode_bind :
    ∃ q, pushArgs ⟨.little, .w64⟩ (Packet.new (.ofNat 2) 0) bindArgs bindValues = .ok q ∧
      q.payload.length = 24 ∧
      SameUpToPadding (bindValues.flatMap paddingMask) bindPacket.payload q.payload := by
  obtain ⟨_, _, q, hq, _, hlen, hpad⟩ := (encode_undoes_decode ⟨.little, .w64⟩ bindPacket).1
    bindArgs bindValues (by decide +kernel)
  exact ⟨q, hq, hlen, hpad⟩

end WhaleLand
