import WhaleLand.ControlMessages
import WhaleLand.Lib.Collect

/-!
# Descriptors there and back

The buffer that `send_with_fds` builds, as the loop of `recv_with_fds` reads
it. The buffer has the size that `CMSG_SPACE` returns, a `c_uint`. Where the
header does not fit into that any more, the descriptors do not fit into the
buffer (`control_roundTrip_iff`).
-/

namespace WhaleLand

namespace ControlMessages

open Endian (toBytes ofBytes)

/-- The loop gives back exactly the descriptors that a buffer is built for. -/
def RoundTrips (libc : Libc) (t : Target) (fds : List RawFd) : Prop :=
  ∃ m, sendControl libc t fds = .ok m ∧ Yields libc t m fds

/-- A message with so many descriptors has a size that `CMSG_SPACE` can return,
and that can be allocated. -/
def SpaceFits (t : Target) (count : Nat) : Prop :=
  t.sizeOfCmsghdr + t.cmsgAlign (count * 4) ≤ min u32Max t.isizeMax

instance (t : Target) (count : Nat) : Decidable (SpaceFits t count) :=
  inferInstanceAs (Decidable (_ ≤ _))

theorem toNat_of_le_u32Max {n : Nat} (h : n ≤ u32Max) : (UInt32.ofNat n).toNat = n :=
  UInt32.toNat_ofNat_of_lt' (h.trans_lt (by decide))

namespace SpaceFits

variable {t : Target} {count : Nat} (h : SpaceFits t count)
include h

theorem le_u32Max : t.sizeOfCmsghdr + t.cmsgAlign (count * 4) ≤ u32Max :=
  h.trans (min_le_left _ _)

theorem le_isizeMax : t.sizeOfCmsghdr + t.cmsgAlign (count * 4) ≤ t.isizeMax :=
  h.trans (min_le_right _ _)

/-- The message without its padding. -/
theorem len_le_u32Max : t.sizeOfCmsghdr + count * 4 ≤ u32Max :=
  (Nat.add_le_add_left (le_cmsgAlign t _) _).trans h.le_u32Max

theorem payload_le : count * 4 ≤ u32Max := (Nat.le_add_left _ _).trans h.len_le_u32Max

end SpaceFits

/-! ## Writing -/

section Write

variable {libc : Libc} {t : Target} {m : Msghdr} {before old after : List UInt8} {pos : Nat}

/-- A write replaces what stands at its position, and leaves the sizes alone. -/
theorem write_of_append (xs : List UInt8) (hm : m.control = before ++ (old ++ after))
    (hpos : before.length = pos) (hold : old.length = xs.length) :
    ∃ m', m.write pos xs = .ok m' ∧ m'.control = before ++ (xs ++ after) ∧
      m'.controllen = m.controllen := by
  have hle : pos + xs.length ≤ m.control.length := by
    rw [hm, ← hpos, ← hold]
    simp
  unfold Msghdr.write
  rw [dif_pos hle]
  refine ⟨_, rfl, ?_, rfl⟩
  show Buffer.overwrite m.control pos xs = _
  rw [hm, ← hpos, Buffer.overwrite_append hold]

theorem writeSliceAsBytes_of_append (fds : List RawFd)
    (hm : m.control = before ++ (old ++ after)) (hpos : before.length = pos)
    (hold : old.length = fds.length * 4) :
    ∃ m', writeSliceAsBytes t fds m pos (fds.length * 4) = .ok m' ∧
      m'.control = before ++ (bytesOfFds t fds ++ after) ∧ m'.controllen = m.controllen := by
  unfold writeSliceAsBytes
  split
  · next hnil =>
    rw [hnil] at hold
    refine ⟨m, rfl, ?_, rfl⟩
    rw [hm, List.length_eq_zero_iff.mp hold, List.length_eq_zero_iff.mp hnil]
    rfl
  · rw [if_pos rfl]
    exact write_of_append _ hm hpos (hold.trans (length_bytesOfFds t fds).symm)

/-- The header and the data are written side by side, in front of the padding. -/
theorem populate_of_append (hlibc : libc.Documented t) (fds : List RawFd) (payloadCUint : UInt32)
    {oldLen oldLevel oldType oldData : List UInt8} (hlen : oldLen.length = t.sizeOfUsize)
    (hlevel : oldLevel.length = 4) (htype : oldType.length = 4)
    (hdata : oldData.length = fds.length * 4)
    (hm : m.control = oldLen ++ (oldLevel ++ (oldType ++ (oldData ++ after)))) :
    ∃ m', populate libc t fds payloadCUint m 0 = .ok m' ∧ m'.controllen = m.controllen ∧
      m'.control = toBytes t.endian t.sizeOfUsize (libc.cmsgLen payloadCUint).toNat ++
        (u32ToNeBytes t libc.solSocket.toUInt32 ++ (u32ToNeBytes t libc.scmRights.toUInt32 ++
          (bytesOfFds t fds ++ after))) := by
  obtain ⟨m₁, hrun₁, hm₁, hlen₁⟩ : ∃ m', m.write (0 + t.sizeOfUsize) _ = .ok m' ∧ _ :=
    write_of_append (u32ToNeBytes t libc.solSocket.toUInt32) hm (by simp [hlen]) (by simp [hlevel])
  rw [← List.append_assoc] at hm₁
  obtain ⟨m₂, hrun₂, hm₂, hlen₂⟩ : ∃ m', m₁.write (0 + t.sizeOfUsize + 4) _ = .ok m' ∧ _ :=
    write_of_append (u32ToNeBytes t libc.scmRights.toUInt32) hm₁ (by simp [hlen])
      (by simp [htype])
  rw [List.append_assoc, ← List.nil_append (_ ++ _)] at hm₂
  obtain ⟨m₃, hrun₃, hm₃, hlen₃⟩ : ∃ m', m₂.write 0 _ = .ok m' ∧ _ :=
    write_of_append (toBytes t.endian t.sizeOfUsize (libc.cmsgLen payloadCUint).toNat) hm₂ rfl
      (by simp [hlen])
  rw [List.nil_append, ← List.append_assoc, ← List.append_assoc] at hm₃
  have hpos : ((toBytes t.endian t.sizeOfUsize (libc.cmsgLen payloadCUint).toNat ++
      u32ToNeBytes t libc.solSocket.toUInt32) ++
        u32ToNeBytes t libc.scmRights.toUInt32).length = libc.cmsgData 0 := by
    rw [hlibc.data]
    simp [Target.sizeOfCmsghdr]
  have hslice : m₃.bytes (libc.cmsgData 0) (fds.length * 4) = .ok oldData :=
    Msghdr.bytes_of_at ⟨_, _, hpos, hm₃⟩ hdata
  obtain ⟨m₄, hrun₄, hm₄, hlen₄⟩ := writeSliceAsBytes_of_append fds hm₃ hpos hdata
  refine ⟨m₄, ?_, by rw [hlen₄, hlen₃, hlen₂, hlen₁], ?_⟩
  · unfold populate
    rw [hrun₁]
    show (m₁.write _ _ >>= _) = _
    rw [hrun₂]
    show (m₂.write _ _ >>= _) = _
    rw [hrun₃]
    show (m₃.bytes _ _ >>= _) = _
    rw [hslice]
    exact hrun₄
  · rw [hm₄, List.append_assoc, List.append_assoc]

end Write

/-! ## The buffer that is built -/

section Build

variable {libc : Libc} {t : Target} {fds : List RawFd}

/-- The message that carries some descriptors. -/
def messageOf (libc : Libc) (t : Target) (fds : List RawFd) (h : SpaceFits t fds.length) :
    Message t where
  level := libc.solSocket
  type := libc.scmRights
  data := bytesOfFds t fds
  padding := List.replicate (t.cmsgAlign (fds.length * 4) - fds.length * 4) 0
  padded := by
    rw [length_bytesOfFds, List.length_replicate]
    exact Nat.add_sub_cancel' (le_cmsgAlign t _)
  len_le := by
    rw [length_bytesOfFds]
    exact (Nat.add_le_add_left (le_cmsgAlign t _) _).trans h.le_isizeMax

theorem messageOf_fds (h : SpaceFits t fds.length) :
    (messageOf libc t fds h).fds libc = fds :=
  (if_pos ⟨rfl, rfl⟩).trans (fdsOfBytes_bytesOfFds t fds)

/-- The space of a message, where it fits. -/
theorem cmsgSpace_of_fits (hlibc : libc.Documented t) (h : SpaceFits t fds.length) :
    (libc.cmsgSpace (UInt32.ofNat (fds.length * 4))).toNat =
      t.sizeOfCmsghdr + t.cmsgAlign (fds.length * 4) := by
  rw [hlibc.space, toNat_of_le_u32Max h.payload_le, toNat_of_le_u32Max h.le_u32Max]

/-- Into a buffer of the right size, the whole message is written. -/
theorem populate_of_fits (hlibc : libc.Documented t) (h : SpaceFits t fds.length) {m : Msghdr}
    (hm : m.control = List.replicate (t.sizeOfCmsghdr + t.cmsgAlign (fds.length * 4)) 0)
    (hlen : m.controllen = t.sizeOfCmsghdr + t.cmsgAlign (fds.length * 4)) :
    ∃ m', populate libc t fds (UInt32.ofNat (fds.length * 4)) m 0 = .ok m' ∧
      m'.Holds [messageOf libc t fds h] := by
  have hpayload := toNat_of_le_u32Max h.payload_le
  have hlenLe : t.sizeOfCmsghdr + (UInt32.ofNat (fds.length * 4)).toNat ≤ u32Max := by
    rw [hpayload]
    exact h.len_le_u32Max
  have hmsgLen : (libc.cmsgLen (UInt32.ofNat (fds.length * 4))).toNat =
      (messageOf libc t fds h).len := by
    rw [hlibc.len _ hlenLe, hpayload, ← length_bytesOfFds t fds]
    rfl
  have hsplit : m.control =
      List.replicate t.sizeOfUsize 0 ++ (List.replicate 4 0 ++ (List.replicate 4 0 ++
        (List.replicate (fds.length * 4) 0 ++ (messageOf libc t fds h).padding))) := by
    show _ = _ ++ (_ ++ (_ ++ (_ ++ List.replicate _ 0)))
    rw [hm]
    simp only [List.replicate_append_replicate, Target.sizeOfCmsghdr]
    rw [Nat.add_sub_cancel' (le_cmsgAlign t _), ← Nat.add_assoc, ← Nat.add_assoc]
  obtain ⟨m', hrun, hlen', hm'⟩ := populate_of_append hlibc fds (UInt32.ofNat (fds.length * 4))
    List.length_replicate List.length_replicate List.length_replicate List.length_replicate hsplit
  rw [hmsgLen] at hm'
  have hcontrol : m'.control =
      (messageOf libc t fds h).contents ++ (messageOf libc t fds h).padding := by
    rw [hm', Message.contents, List.append_assoc, List.append_assoc, List.append_assoc]
    rfl
  have hfull : m'.control.length ≤ m'.controllen := by
    rw [hlen', hlen, hcontrol, List.length_append, Message.length_padding, ← hmsgLen,
      hlibc.len _ hlenLe, hpayload, cmsgAlign_sizeOfCmsghdr_add]
  refine ⟨m', hrun, ?_⟩
  unfold Msghdr.Holds
  rw [List.take_of_length_le hfull, hcontrol]
  exact .last_padded _

theorem toCUint_eq_ok {n : Nat} {v : UInt32} :
    toCUint n = .ok v ↔ n ≤ u32Max ∧ v = UInt32.ofNat n := by
  unfold toCUint
  split
  · next h => simp [h, eq_comm]
  · next h => simp [h]

theorem zeroed_eq_ok {len : Nat} {m : Msghdr} : zeroed t len = .ok m ↔
    len ≤ t.isizeMax ∧ m.control = List.replicate len 0 ∧ m.controllen = len := by
  obtain ⟨control, controllen, hle⟩ := m
  unfold zeroed allocate
  split
  · next h =>
    show Except.ok _ = _ ↔ _
    simp [h, eq_comm]
  · next h =>
    show Except.error _ = _ ↔ _
    simp [h]

/-- What has to go well for a buffer to be built. -/
theorem sendControl_eq_ok {m : Msghdr} : sendControl libc t fds = .ok m ↔
    fds.length * 4 ≤ u32Max ∧
      ∃ m₀, zeroed t (libc.cmsgSpace (UInt32.ofNat (fds.length * 4))).toNat = .ok m₀ ∧
        ∃ header, libc.cmsgFirsthdr m₀ = some header ∧
          populate libc t fds (UInt32.ofNat (fds.length * 4)) m₀ header = .ok m := by
  unfold sendControl
  rw [Collect.bind_eq_ok]
  constructor
  · rintro ⟨payloadCUint, hpayload, h⟩
    obtain ⟨hle, rfl⟩ := toCUint_eq_ok.mp hpayload
    obtain ⟨m₀, hm₀, h⟩ := Collect.bind_eq_ok.mp h
    cases hfirst : libc.cmsgFirsthdr m₀ with
    | none =>
      rw [hfirst] at h
      cases h
    | some header =>
      rw [hfirst] at h
      exact ⟨hle, m₀, hm₀, header, hfirst, h⟩
  · rintro ⟨hle, m₀, hm₀, header, hfirst, h⟩
    refine ⟨_, toCUint_eq_ok.mpr ⟨hle, rfl⟩, Collect.bind_eq_ok.mpr ⟨m₀, hm₀, ?_⟩⟩
    rw [hfirst]
    exact h

theorem sendControl_of_fits (hlibc : libc.Documented t) (h : SpaceFits t fds.length) :
    ∃ m, sendControl libc t fds = .ok m ∧ m.Holds [messageOf libc t fds h] := by
  obtain ⟨m₀, hcontrol, hlen⟩ : ∃ m₀ : Msghdr,
      m₀.control = List.replicate (t.sizeOfCmsghdr + t.cmsgAlign (fds.length * 4)) 0 ∧
        m₀.controllen = t.sizeOfCmsghdr + t.cmsgAlign (fds.length * 4) :=
    ⟨⟨_, _, List.length_replicate.ge⟩, rfl, rfl⟩
  have hzeroed : zeroed t (libc.cmsgSpace (UInt32.ofNat (fds.length * 4))).toNat = .ok m₀ := by
    rw [cmsgSpace_of_fits hlibc h]
    exact zeroed_eq_ok.mpr ⟨h.le_isizeMax, hcontrol, hlen⟩
  obtain ⟨m, hpopulate, hholds⟩ := populate_of_fits hlibc h hcontrol hlen
  refine ⟨m, sendControl_eq_ok.mpr ⟨h.payload_le, m₀, hzeroed, 0, ?_, hpopulate⟩, hholds⟩
  rw [hlibc.firsthdr, hlen]
  exact if_pos (Nat.le_add_right _ _)

theorem length_of_write {m m' : Msghdr} {pos : Nat} {xs : List UInt8}
    (h : m.write pos xs = .ok m') : m'.control.length = m.control.length := by
  unfold Msghdr.write at h
  split at h
  · next hle =>
    cases h
    exact Buffer.length_overwrite hle
  · cases h

theorem le_of_bytes {m : Msghdr} {pos n : Nat} {xs : List UInt8} (h : m.bytes pos n = .ok xs) :
    pos + n ≤ m.control.length := by
  unfold Msghdr.bytes Buffer.read at h
  by_contra hlt
  rw [if_neg hlt] at h
  cases h

/-- A buffer is only built where the descriptors fit into it. -/
theorem le_of_sendControl_eq_ok {m : Msghdr} (hlibc : libc.Documented t)
    (h : sendControl libc t fds = .ok m) :
    fds.length * 4 ≤ u32Max ∧
      (libc.cmsgSpace (UInt32.ofNat (fds.length * 4))).toNat ≤ t.isizeMax ∧
      t.sizeOfCmsghdr + fds.length * 4 ≤
        (libc.cmsgSpace (UInt32.ofNat (fds.length * 4))).toNat := by
  obtain ⟨hle, m₀, hm₀, header, hfirst, hpopulate⟩ := sendControl_eq_ok.mp h
  obtain ⟨hallocated, hcontrol, -⟩ := zeroed_eq_ok.mp hm₀
  refine ⟨hle, hallocated, ?_⟩
  unfold populate at hpopulate
  obtain ⟨m₁, h₁, hpopulate⟩ := Collect.bind_eq_ok.mp hpopulate
  obtain ⟨m₂, h₂, hpopulate⟩ := Collect.bind_eq_ok.mp hpopulate
  obtain ⟨m₃, h₃, hpopulate⟩ := Collect.bind_eq_ok.mp hpopulate
  obtain ⟨slice, hslice, -⟩ := Collect.bind_eq_ok.mp hpopulate
  have hbound := le_of_bytes hslice
  rw [hlibc.data, length_of_write h₃, length_of_write h₂, length_of_write h₁, hcontrol,
    List.length_replicate] at hbound
  omega

/-- Where the space does not fit into a `c_uint`, what is left of it is less
than the header. -/
theorem fits_of_sendControl_eq_ok {m : Msghdr} (hlibc : libc.Documented t)
    (h : sendControl libc t fds = .ok m) : SpaceFits t fds.length := by
  obtain ⟨hle, hallocated, hbound⟩ := le_of_sendControl_eq_ok hlibc h
  rw [hlibc.space, toNat_of_le_u32Max hle, UInt32.toNat_ofNat'] at hallocated hbound
  have hmax : u32Max = 2 ^ 32 - 1 := rfl
  have halign := cmsgAlign_lt t (fds.length * 4)
  have hheader := sizeOfCmsghdr_le t
  unfold SpaceFits
  omega

end Build

/-! ## Round trips -/

/-- The loop gives back what any buffer of messages carries. What
`send_with_fds` builds it gives back exactly where the space that is needed is
in the range of the function that computes it. -/
theorem control_roundTrip_iff (libc : Libc) (t : Target) (hlibc : libc.Documented t) :
    (∀ (m : Msghdr) (messages : List (Message t)), m.Holds messages →
      Yields libc t m (messages.flatMap (Message.fds libc))) ∧
    ∀ fds, RoundTrips libc t fds ↔ SpaceFits t fds.length := by
  refine ⟨fun m messages h => yields_of_holds hlibc h, fun fds => ?_⟩
  constructor
  · rintro ⟨m, hsend, -⟩
    exact fits_of_sendControl_eq_ok hlibc hsend
  · intro h
    obtain ⟨m, hsend, hholds⟩ := sendControl_of_fits hlibc h
    refine ⟨m, hsend, ?_⟩
    have hyields := yields_of_holds hlibc hholds
    rwa [List.flatMap_singleton, messageOf_fds] at hyields

/-- The credentials of a process, and three descriptors in two messages. -/
def severalMessages : List (Message ⟨.little, .w64⟩) :=
  [⟨1, 2, [42, 0, 0, 0, 0, 0, 0, 0, 0, 0, 0, 0], [0, 0, 0, 0], rfl, by decide⟩,
    messageOf (.linux ⟨.little, .w64⟩) ⟨.little, .w64⟩ [3, 4] (by decide),
    messageOf (.linux ⟨.little, .w64⟩) ⟨.little, .w64⟩ [5] (by decide)]

/-- They stand in a buffer that ends without the last padding. -/
def severalControl : Msghdr where
  control := severalMessages.flatMap fun message => message.contents ++ message.padding
  controllen := 76
  controllen_le := by decide

/-- No descriptors, and an odd number of them; and a buffer that others have
put something in too. -/
theorem control_roundTrip_iff_small :
    RoundTrips (.linux ⟨.little, .w64⟩) ⟨.little, .w64⟩ [] ∧
      RoundTrips (.linux ⟨.little, .w64⟩) ⟨.little, .w64⟩ [3, 4, 5] ∧
      Yields (.linux ⟨.little, .w64⟩) ⟨.little, .w64⟩ severalControl [3, 4, 5] := by
  have hholds : severalControl.Holds severalMessages := .cons _ (.cons _ (.last _ 0))
  exact ⟨((control_roundTrip_iff _ _ (linux_documented _)).2 []).mpr (by decide),
    ((control_roundTrip_iff _ _ (linux_documented _)).2 [3, 4, 5]).mpr (by decide),
    (control_roundTrip_iff _ _ (linux_documented _)).1 severalControl severalMessages hholds⟩

/-- For these the space is 2³², which is 0 as a `c_uint`. -/
theorem huge_list_not_sent :
    ¬ RoundTrips (.linux ⟨.little, .w64⟩) ⟨.little, .w64⟩ (List.replicate (2 ^ 30 - 5) 3) := by
  rintro ⟨m, hsend, -⟩
  have hfits := fits_of_sendControl_eq_ok (linux_documented _) hsend
  rw [List.length_replicate] at hfits
  revert hfits
  decide

end ControlMessages

end WhaleLand
