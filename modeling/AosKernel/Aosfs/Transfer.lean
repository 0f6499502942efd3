import AosKernel.Aosfs.Operations

/-!
# AOSFS: transfers between a volume and its device

What the accesses of a volume do to the device, for every fault plan. `Volume.bytes` is the device
seen from the start of the volume. A transfer that succeeds has stored its bytes and a transfer
that fails has stored a prefix of them (`Volume.blkWrite_post`, `Volume.copyChunks_post`); without
faults, transfers inside the volume succeed (`Volume.blkWrite_ok`, `Volume.copyChunks_ok`,
`Volume.zeroChunks_ok`).
-/

namespace AosKernel.Aosfs

open Lib Lib.ByteStore Lib.Loop Block BlockLayer

namespace Volume

/-- The device from the start of the volume. -/
def bytes (v : Volume) : Store UInt8 := fun o =>
  (v.blk.devs v.inst.blkdevId).data (v.inst.baseOffset + o)

/-- The volumes differ at most in the numbers of driver calls made. -/
structure Same (v v' : Volume) : Prop where
  inst : v'.inst = v.inst
  mem : v'.mem = v.mem
  devs : v'.blk.devs = v.blk.devs

/-- `v'` is `v` with `data` stored at `off`. -/
structure Stored (v v' : Volume) (off : Nat) (data : List UInt8) : Prop where
  inst : v'.inst = v.inst
  mem : v'.mem = v.mem
  devs : v'.blk.devs = (v.blk.setData v.inst.blkdevId
    (patch (v.blk.devs v.inst.blkdevId).data (v.inst.baseOffset + off) data)).devs

lemma Same.refl (v : Volume) : Same v v := ⟨rfl, rfl, rfl⟩

variable {v v' : Volume}

lemma Same.stored (h : Same v v') (off : Nat) : Stored v v' off [] where
  inst := h.inst
  mem := h.mem
  devs := by simp [h.devs, setData]

variable {data : List UInt8} {off : Nat}

lemma Same.trans_stored {v'' : Volume} (h : Same v v') (h' : Stored v' v'' off data) :
    Stored v v'' off data where
  inst := h'.inst.trans h.inst
  mem := h'.mem.trans h.mem
  devs := by rw [h'.devs, h.inst, setData, setData, h.devs]

lemma Stored.data_self (h : Stored v v' off data) :
    (v'.blk.devs v.inst.blkdevId).data =
      patch (v.blk.devs v.inst.blkdevId).data (v.inst.baseOffset + off) data := by
  rw [h.devs, setData_self]

theorem Stored.bytes (h : Stored v v' off data) : v'.bytes = patch v.bytes off data := by
  unfold Volume.bytes
  rw [h.inst, h.data_self, patch_shift]

lemma Stored.sameDevices (h : Stored v v' off data) : SameDevices v.blk v'.blk := by
  intro id
  rw [h.devs]
  exact sameDevices_setData _ _ _ id

lemma Stored.append {v'' : Volume} {d e : List UInt8} (h : Stored v v' off d)
    (h' : Stored v' v'' (off + d.length) e) : Stored v v'' off (d ++ e) where
  inst := h'.inst.trans h.inst
  mem := h'.mem.trans h.mem
  devs := by
    rw [h'.devs, h.inst, setData, h.devs, setData, setData, patch_append]
    simp [Function.update_idem, add_assoc]

/-- A store changes the device of the volume inside the stored range. -/
lemma Stored.inside (h : Stored v v' off data) {id a : Nat}
    (hne : (v'.blk.devs id).data a ≠ (v.blk.devs id).data a) :
    id = v.inst.blkdevId ∧ v.inst.baseOffset + off ≤ a ∧
      a < v.inst.baseOffset + off + data.length := by
  by_cases hid : id = v.inst.blkdevId
  · subst hid
    rw [h.data_self] at hne
    have hin : ¬ (a < v.inst.baseOffset + off ∨ v.inst.baseOffset + off + data.length ≤ a) :=
      fun hout => hne (patch_outside _ hout)
    exact ⟨rfl, by omega, by omega⟩
  · rw [h.devs, setData_other _ _ hid] at hne
    exact absurd rfl hne

/-! ## Single accesses -/

/-- A range of the volume whose device addresses do not wrap. -/
def Addressable (v : Volume) (off len : Nat) : Prop := v.inst.baseOffset + off + len ≤ 2 ^ 64

variable {len : Nat}

theorem Addressable.mono {off' len' : Nat} (h : v.Addressable off len)
    (hle : off' + len' ≤ off + len) : v.Addressable off' len' := by
  unfold Addressable at h ⊢
  omega

lemma Addressable.of_inst (h : v.Addressable off len) (hi : v'.inst = v.inst) :
    v'.Addressable off len := by
  unfold Addressable at h ⊢
  rwa [hi]

variable (plan : IoPlan)

lemma blkRead_same (v : Volume) (off len : Nat) : Same v (v.blkRead plan off len).2 := by
  obtain ⟨hdevs, -⟩ := blkdevRead_post plan v.blk v.inst.blkdevId
    ((v.inst.baseOffset + off) % 2 ^ 64) len
  exact ⟨rfl, rfl, hdevs⟩

lemma blkRead_some (v : Volume) (off len : Nat) (ha : v.Addressable off len) (hlen : len ≠ 0)
    (h : (v.blkRead plan off len).1 = some data) : data = slice v.bytes off len := by
  unfold Addressable at ha
  have hdata := blkdevRead_some h
  rw [Nat.mod_eq_of_lt (by omega)] at hdata
  rw [hdata]
  exact (slice_shift _ _ _ _).symm

theorem blkWrite_post (v : Volume) (off : Nat) (ha : v.Addressable off data.length)
    (hlen : data ≠ []) :
    Post (fun v' => Stored v v' off data)
      (fun v' => ∃ m ≤ data.length, Stored v v' off (data.take m)) (v.blkWrite plan off data) := by
  unfold Addressable at ha
  have hpos := List.length_pos_of_ne_nil hlen
  have hpost := blkdevWrite_post plan v.blk v.inst.blkdevId
    ((v.inst.baseOffset + off) % 2 ^ 64) data
  rw [Nat.mod_eq_of_lt (by omega)] at hpost
  unfold blkWrite
  rw [Nat.mod_eq_of_lt (by omega)]
  refine ⟨fun hok => ⟨rfl, rfl, hpost.1 hok⟩, fun hfail => ?_⟩
  obtain ⟨m, hm, hdevs⟩ := hpost.2 hfail
  exact ⟨m, hm, ⟨rfl, rfl, hdevs⟩⟩

/-- The range lies inside the device of the volume, which accepts accesses. -/
structure Accessible (v : Volume) (off len : Nat) : Prop where
  usable : Usable v.blk v.inst.blkdevId
  range : v.inst.baseOffset + off + len ≤ (v.blk.devs v.inst.blkdevId).size

section

variable (h : v.Accessible off len)
include h

lemma Accessible.addressable : v.Addressable off len := by
  have hsize := (v.blk.devs v.inst.blkdevId).size_lt
  have hrange := h.range
  unfold Addressable
  omega

theorem Accessible.mono {off' len' : Nat} (hle : off' + len' ≤ off + len) :
    v.Accessible off' len' :=
  ⟨h.usable, by have := h.range; omega⟩

lemma Accessible.of_sameDevices
    (hi : v'.inst.blkdevId = v.inst.blkdevId ∧ v'.inst.baseOffset = v.inst.baseOffset)
    (hs : SameDevices v.blk v'.blk) : v'.Accessible off len := by
  refine ⟨?_, ?_⟩
  · rw [hi.1]
    exact h.usable.of_sameDevices hs
  · rw [hi.1, hi.2, hs.size_eq]
    exact h.range

lemma Accessible.of_stored {o : Nat} (hs : Stored v v' o data) : v'.Accessible off len :=
  h.of_sameDevices ⟨by rw [hs.inst], by rw [hs.inst]⟩ hs.sameDevices

lemma Accessible.of_same (hs : Same v v') : v'.Accessible off len :=
  h.of_stored (hs.stored 0)

end

lemma blkRead_ok (off len : Nat) (h : v.Accessible off len) (hlen : len ≠ 0) :
    (v.blkRead .faultless off len).1 = some (slice v.bytes off len) := by
  have ha := h.addressable
  have hrange := h.range
  unfold Addressable at ha
  have hread := blkdevRead_ok h.usable.id_lt h.usable.inUse (fun hops => (h.usable.driver hops).2)
    hrange
  unfold blkRead Volume.bytes
  rw [slice_shift, ← hread, Nat.mod_eq_of_lt (by omega)]

theorem blkWrite_ok (off : Nat) (h : v.Accessible off data.length) (hlen : data ≠ []) :
    ∃ w, v.blkWrite .faultless off data = (true, w) ∧ Stored v w off data := by
  have ha := h.addressable
  have hpos := List.length_pos_of_ne_nil hlen
  have hok : (v.blkWrite .faultless off data).1 = true := by
    unfold Addressable at ha
    unfold blkWrite
    rw [Nat.mod_eq_of_lt (by omega)]
    exact blkdevWrite_ok h.usable h.range
  exact ⟨_, Prod.ext hok rfl, (blkWrite_post .faultless v off ha hlen).1 hok⟩

/-! ## The copy and clear loops -/

/-- The copy loop stores the source range at the destination, or a prefix of it. -/
theorem copyChunks_post (src dst total : Nat) (hdisj : src + total ≤ dst ∨ dst + total ≤ src) :
    ∀ (fuel copied : Nat) (v : Volume), total - copied ≤ fuel → copied ≤ total →
      v.Addressable src total → v.Addressable dst total →
        Post (fun v' => Stored v v' (dst + copied) (slice v.bytes (src + copied) (total - copied)))
          (fun v' => ∃ m ≤ total - copied,
            Stored v v' (dst + copied) (slice v.bytes (src + copied) m))
          (copyChunks plan src dst total fuel copied v) := by
  intro fuel
  induction fuel with
  | zero =>
    intro copied v hfuel hle _ _
    rw [show total - copied = 0 by omega]
    exact post_true ((Same.refl v).stored _)
  | succ fuel ih =>
    intro copied v hfuel hle hsrc hdst
    unfold copyChunks
    by_cases hlt : copied < total
    swap
    · rw [if_neg hlt, show total - copied = 0 by omega]
      exact post_true ((Same.refl v).stored _)
    simp only [hlt, if_true]
    generalize hc : min (total - copied) extentCopyBuffer = chunk
    have hcpos : chunk ≠ 0 := by
      unfold extentCopyBuffer at hc
      omega
    have hsame := blkRead_same plan v (src + copied) chunk
    cases hread : v.blkRead plan (src + copied) chunk with
    | mk result v1 =>
      rw [hread] at hsame
      cases result with
      | none => exact post_false ⟨0, Nat.zero_le _, hsame.stored _⟩
      | some =>
      obtain rfl := blkRead_some plan v (src + copied) chunk
        (hsrc.mono (by omega)) hcpos (by rw [hread])
      have hne : slice v.bytes (src + copied) chunk ≠ [] :=
        List.ne_nil_of_length_pos (by simp; omega)
      have hwrite := blkWrite_post plan v1 (dst + copied)
        ((hdst.of_inst hsame.inst).mono (by simp; omega)) hne
      cases hw : v1.blkWrite plan (dst + copied) (slice v.bytes (src + copied) chunk) with
      | mk flag v2 =>
        rw [hw] at hwrite
        simp only [hw]
        cases flag with
        | false =>
          obtain ⟨m, hm, hstored⟩ := hwrite.2 rfl
          rw [slice_length] at hm
          rw [take_slice _ hm] at hstored
          exact post_false ⟨m, by omega, hsame.trans_stored hstored⟩
        | true =>
          have hstored := hsame.trans_stored (hwrite.1 rfl)
          -- the rest of the source lies outside the range just stored
          have hrest : ∀ n ≤ total - (copied + chunk), slice v2.bytes (src + (copied + chunk)) n =
              slice v.bytes (src + copied + chunk) n := by
            intro n hn
            rw [hstored.bytes, slice_patch_disjoint _ (by simp; omega), Nat.add_assoc]
          have hjoin : ∀ {v3 : Volume} {n : Nat}, n ≤ total - (copied + chunk) →
              Stored v2 v3 (dst + (copied + chunk)) (slice v2.bytes (src + (copied + chunk)) n) →
                Stored v v3 (dst + copied) (slice v.bytes (src + copied) (chunk + n)) := by
            intro v3 n hn h
            rw [hrest n hn] at h
            rw [slice_append]
            exact hstored.append (by simpa [Nat.add_assoc] using h)
          refine (ih (copied + chunk) v2 (by omega) (by omega) (hsrc.of_inst hstored.inst)
            (hdst.of_inst hstored.inst)).mono ?_ ?_
          · intro v3 h3
            have := hjoin le_rfl h3
            rwa [show chunk + (total - (copied + chunk)) = total - copied by omega] at this
          · rintro v3 ⟨m, hm, h3⟩
            exact ⟨chunk + m, by omega, hjoin hm h3⟩

theorem copyChunks_ok {src dst total : Nat} :
    ∀ (fuel copied : Nat) (v : Volume), copied ≤ total → v.Accessible src total →
      v.Accessible dst total → (copyChunks .faultless src dst total fuel copied v).1 = true := by
  intro fuel
  induction fuel with
  | zero =>
    intro copied v _ _ _
    rfl
  | succ fuel ih =>
    intro copied v hle hsrc hdst
    unfold copyChunks
    by_cases hlt : copied < total
    swap
    · rw [if_neg hlt]
    simp only [hlt, if_true]
    generalize hc : min (total - copied) extentCopyBuffer = chunk
    have hcpos : chunk ≠ 0 := by
      unfold extentCopyBuffer at hc
      omega
    have hsame := blkRead_same .faultless v (src + copied) chunk
    have hread := blkRead_ok (src + copied) chunk (hsrc.mono (by omega)) hcpos
    cases hr : v.blkRead .faultless (src + copied) chunk with
    | mk =>
      rw [hr] at hread hsame
      subst hread
      have hne : slice v.bytes (src + copied) chunk ≠ [] :=
        List.ne_nil_of_length_pos (by simp; omega)
      obtain ⟨v2, hw, hstored⟩ := blkWrite_ok (dst + copied)
        ((hdst.of_same hsame).mono (by simp; omega)) hne
      simp only [hw]
      exact ih (copied + chunk) v2 (by omega) ((hsrc.of_same hsame).of_stored hstored)
        ((hdst.of_same hsame).of_stored hstored)

lemma zeroBytes_add (a b : Nat) : zeroBytes (a + b) = zeroBytes a ++ zeroBytes b :=
  List.replicate_add a b 0

theorem zeroChunks_ok (base size : Nat) :
    ∀ (fuel position : Nat) (v : Volume), size - position ≤ fuel → position ≤ size →
      v.Accessible base size →
        ∃ w, zeroChunks .faultless base size fuel position v = (true, w) ∧
          Stored v w (base + position) (zeroBytes (size - position)) := by
  intro fuel
  induction fuel with
  | zero =>
    intro position v hfuel hle _
    rw [show size - position = 0 by omega]
    exact ⟨v, rfl, (Same.refl v).stored _⟩
  | succ fuel ih =>
    intro position v hfuel hle hacc
    unfold zeroChunks
    by_cases hlt : position < size
    swap
    · rw [if_neg hlt, show size - position = 0 by omega]
      exact ⟨v, rfl, (Same.refl v).stored _⟩
    simp only [hlt, if_true]
    generalize hc : min (size - position) 512 = chunk
    have hne : zeroBytes chunk ≠ [] := List.ne_nil_of_length_pos (by simp; omega)
    obtain ⟨v1, hw, hstored⟩ := blkWrite_ok (base + position) (hacc.mono (by simp; omega)) hne
    simp only [hw]
    obtain ⟨w, hrest, hrest'⟩ := ih (position + chunk) v1 (by omega) (by omega)
      (hacc.of_stored hstored)
    refine ⟨w, hrest, ?_⟩
    rw [show size - position = chunk + (size - (position + chunk)) by omega, zeroBytes_add]
    exact hstored.append (by simpa [add_assoc] using hrest')

end Volume

end AosKernel.Aosfs
