import WhaleLand.ArgsRoundTrip

/-!
# Opcodes of decoded packets

The conversion of a packet into an argument struct decodes the payload and the
descriptors and does not look at the packet's opcode. So it accepts every
packet that has the wire format of the struct (`exists_tryFromPacket_iff`),
whichever message it is. It tells messages apart exactly where their wire
formats do (`accepts_own_opcode_iff`).
-/

namespace WhaleLand

open Wlproto

/-! ## Messages of an interface -/

/-- `OPCODE`. -/
def Wlproto.ArgsStruct.opcodeConst (struct : ArgsStruct) : UInt16 := UInt16.ofNat struct.opcode

/-- The payload and the descriptors are those of a value of the struct. -/
def Wlproto.ArgsStruct.HasFormat (t : Target) (struct : ArgsStruct) (payload : List UInt8)
    (fds : List RawFd) : Prop :=
  ∃ b, struct.HasFields b ∧ EncodesAll t (b.map Prod.snd) payload ∧
    fdsOfValues (b.map Prod.snd) = fds

/-- The two kinds of procedures of an interface. -/
def Wlproto.Interface.kinds (interface : Interface) : List (String × List Procedure) :=
  [("request", interface.requests), ("event", interface.events)]

/-! ## What the conversion accepts -/

section Accepts

variable {t : Target} {p : Packet}

/-- A struct is decoded from the packets of its format and from no others. -/
theorem exists_tryFromPacket_iff {nameVer kind : String} {i : Nat} {procedure : Procedure}
    (hp : p.Allocated t) (hnodup : (procedure.args.map Arg.name).Nodup) :
    (∃ b, (tokenizeArgsStruct nameVer kind i procedure).tryFromPacket t p = .ok b) ↔
      (tokenizeArgsStruct nameVer kind i procedure).HasFormat t p.payload p.fds := by
  rw [tryFromPacket_eq hnodup]
  constructor
  · rintro ⟨b, hb⟩
    cases hdecode : decodeArgs t procedure.args p with
    | error e =>
      rw [hdecode] at hb
      cases hb
    | ok vs =>
      obtain ⟨hty, hc, hfds⟩ := decodeArgs_ok hdecode
      have hlen : (procedure.args.map Arg.name).length = vs.length := by
        rw [List.length_map]
        exact hty.length_eq
      refine ⟨_, hasFields_zip hty, ?_⟩
      rw [List.map_snd_zip hlen.ge]
      exact ⟨hc, hfds⟩
  · rintro ⟨b, hb, hc, hfds⟩
    have hdecode := decodeArgs_of_encodes hp (wellTyped_of_hasFields hb).2 hc hfds
    rw [hdecode]
    exact ⟨_, rfl⟩

/-- What holds of all packets that are decoded: nothing is asked of those
without the format. -/
theorem forall_tryFromPacket_iff {nameVer kind : String} {i : Nat} {procedure : Procedure}
    (hp : p.Allocated t) (hnodup : (procedure.args.map Arg.name).Nodup) (P : Prop) :
    (∀ b, (tokenizeArgsStruct nameVer kind i procedure).tryFromPacket t p = .ok b → P) ↔
      P ∨ ¬ (tokenizeArgsStruct nameVer kind i procedure).HasFormat t p.payload p.fds := by
  rw [← exists_tryFromPacket_iff hp hnodup]
  exact exists_imp.symm.trans imp_iff_or_not

/-- A struct is turned into a packet of its own format. -/
theorem tryIntoPacket_ok {nameVer kind : String} {i : Nat} {procedure : Procedure} {a : Env}
    (hnodup : (procedure.args.map Arg.name).Nodup)
    (ha : (tokenizeArgsStruct nameVer kind i procedure).HasFields a)
    (hpush : ∀ field ∈ a, field.2.Pushable) (objectId : ObjectId) :
    (tokenizeArgsStruct nameVer kind i procedure).tryIntoPacket t a objectId =
      .ok ⟨objectId, UInt16.ofNat i, encodeAll t (a.map Prod.snd),
        fdsOfValues (a.map Prod.snd)⟩ := by
  obtain ⟨hnames, hty⟩ := wellTyped_of_hasFields ha
  have hpush : ∀ v ∈ a.map Prod.snd, v.Pushable := by
    simpa only [List.forall_mem_map] using hpush
  rw [tryIntoPacket_eq hnodup hnames, pushArgs_ok hty hpush]
  rfl

end Accepts

/-- A packet of another message of the same kind is refused exactly when its
bytes and descriptors are not also in this message's format. In general a
packet is decoded with its opcode only, exactly when it has that opcode or not
the format. -/
theorem accepts_own_opcode_iff (t : Target) (interface : Interface) :
    (∀ kind procedures, (kind, procedures) ∈ interface.kinds →
      ∀ (i j : Nat) (A B : Procedure) (a : Env) (objectId : ObjectId),
      procedures[i]? = some A → procedures[j]? = some B → i ≠ j →
      (A.args.map Arg.name).Nodup → (B.args.map Arg.name).Nodup →
      (tokenizeArgsStruct interface.nameVer kind i A).HasFields a →
      (∀ field ∈ a, field.2.Pushable) →
      ∃ q, (tokenizeArgsStruct interface.nameVer kind i A).tryIntoPacket t a objectId = .ok q ∧
        (q.Allocated t →
          ((∀ b, (tokenizeArgsStruct interface.nameVer kind j B).tryFromPacket t q ≠ .ok b) ↔
            ¬ (tokenizeArgsStruct interface.nameVer kind j B).HasFormat t
              (encodeAll t (a.map Prod.snd)) (fdsOfValues (a.map Prod.snd))))) ∧
    (∀ (struct : ArgsStruct) (p : Packet), struct ∈ interface.argsStructs →
      struct.fieldNames.Nodup → p.Allocated t →
      ((∀ b, struct.tryFromPacket t p = .ok b → p.opcode = struct.opcodeConst) ↔
        p.opcode = struct.opcodeConst ∨ ¬ struct.HasFormat t p.payload p.fds)) := by
  constructor
  · intro kind procedures _ i j A B a objectId _ _ _ hA hB ha hpush
    refine ⟨_, tryIntoPacket_ok hA ha hpush objectId, fun hq => ?_⟩
    exact (forall_tryFromPacket_iff hq hB False).trans (or_iff_right not_false)
  · intro struct p hmem hnodup hp
    obtain ⟨kind, i, procedure, _, rfl⟩ := mem_argsStructs hmem
    exact forall_tryFromPacket_iff hp hnodup _

/-! ## Two requests that look alike -/

/-- Two of the requests of a data control device take one object each. -/
def dataControlDevice : Interface where
  name := "ext_data_control_device_v1"
  version := 1
  requests := [⟨"set_selection", [⟨"source", .objectId, some "ext_data_control_source_v1"⟩]⟩,
    ⟨"destroy", []⟩,
    ⟨"set_primary_selection", [⟨"source", .objectId, some "ext_data_control_source_v1"⟩]⟩]
  events := []

def selectionFields : Env := [("source", .object (some (.ofNat 7)))]

/-- The request to set the selection is decoded as the one to set the primary
selection. -/
theorem selection_decoded_as_primary :
    ¬ ∀ (t : Target) (interface : Interface) (kind : String) (procedures : List Procedure)
      (i j : Nat) (A B : Procedure) (a : Env) (objectId : ObjectId) (q : Packet),
      (kind, procedures) ∈ interface.kinds → procedures[i]? = some A →
      procedures[j]? = some B → i ≠ j →
      (A.args.map Arg.name).Nodup → (B.args.map Arg.name).Nodup →
      (tokenizeArgsStruct interface.nameVer kind i A).HasFields a →
      (tokenizeArgsStruct interface.nameVer kind i A).tryIntoPacket t a objectId = .ok q →
      q.Allocated t →
      ∀ b, (tokenizeArgsStruct interface.nameVer kind j B).tryFromPacket t q ≠ .ok b := by
  intro h
  refine h ⟨.little, .w64⟩ dataControlDevice "request" dataControlDevice.requests 0 2 _ _
    selectionFields (.ofNat 3) ⟨.ofNat 3, 0, [7, 0, 0, 0], []⟩ (by simp [Interface.kinds]) rfl rfl
    (by decide) (by decide) (by decide) rfl rfl ⟨by decide, by decide⟩ selectionFields ?_
  rfl

/-- The request without arguments is told apart from them. -/
theorem accepts_own_opcode_iff_destroy :
    ∃ q, (tokenizeArgsStruct dataControlDevice.nameVer "request" 1
        ⟨"destroy", []⟩).tryIntoPacket ⟨.little, .w64⟩ [] (.ofNat 3) = .ok q ∧
      ∀ b, (tokenizeArgsStruct dataControlDevice.nameVer "request" 0
        ⟨"set_selection", [⟨"source", .objectId, some "ext_data_control_source_v1"⟩]⟩).tryFromPacket
          ⟨.little, .w64⟩ q ≠ .ok b := by
  obtain ⟨q, hq, hiff⟩ := (accepts_own_opcode_iff ⟨.little, .w64⟩ dataControlDevice).1 "request"
    dataControlDevice.requests (by simp [Interface.kinds]) 1 0 _ _ [] (.ofNat 3) rfl rfl
    (by decide) (by decide) (by decide) rfl (by simp)
  refine ⟨q, hq, (hiff ?_).mpr ?_⟩
  · cases hq
    exact ⟨by decide, by decide⟩
  · rintro ⟨b, hb, hc, _⟩
    -- the format of an object has four bytes
    obtain ⟨_, hty⟩ := wellTyped_of_hasFields hb
    generalize b.map Prod.snd = vs at hty hc
    cases hty with
    | @cons _ v _ vs hv _ =>
      obtain ⟨first, others, hfirst, _, hnil⟩ := hc
      have hfirst_nil := (List.append_eq_nil_iff.mp hnil.symm).1
      cases v <;> cases hv
      rw [hfirst_nil] at hfirst
      have hlen := congrArg List.length hfirst
      rw [length_u32ToNeBytes] at hlen
      cases hlen

end WhaleLand
