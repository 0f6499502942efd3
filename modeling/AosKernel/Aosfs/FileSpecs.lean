import AosKernel.Aosfs.Specs

/-!
# AOSFS: what reads, writes and size changes do to a well-formed volume

Continues the specifications of `AosKernel.Aosfs.Specs` with the operations on file data, and with
`reserve_entry_extent`, which makes room for a file and keeps its bytes.
-/

namespace AosKernel.Aosfs

open Lib Lib.ByteStore Lib.Loop Block Function

/-! ## Sizes and offsets of extents -/

lemma le_growCapacity {required : Nat} (hreq : required ≤ maxFileSize) :
    ∀ fuel capacity : Nat, capacity ≤ growCapacity required fuel capacity := by
  intro fuel
  induction fuel with
  | zero =>
    intro capacity
    exact le_rfl
  | succ fuel ih =>
    intro capacity
    unfold growCapacity
    split
    · split
      · omega
      · exact le_trans (by omega) (ih (capacity * 2))
    · exact le_rfl

lemma le_alignUpU64 (value : Nat) (h : value ≤ uint64Max) :
    value ≤ alignUpU64 value extentAlignment := by
  unfold alignUpU64
  split
  · exact h
  have hand : (value + extentAlignment - 1) &&& (extentAlignment - 1) =
      (value + extentAlignment - 1) % 4096 := Nat.and_two_pow_sub_one_eq_mod _ 12
  simp only
  rw [hand]
  unfold extentAlignment
  omega

namespace Volume

variable {env : Env} {v : Volume} {i : Nat}

/-! ## Reserving an extent -/

variable {n off size : Nat} {v' : Volume}

/-- The cells of an extent that is apart from the other extents belong to its slot. -/
lemma own_of_update {cap next : Nat}
    (hp : Packed (update (fun j => (v.inst.entries j).extent) i (some ⟨off, cap⟩)) dataOffset next)
    (hnext : next ≤ v.activeStorageSize env) {o : Nat} (h1 : off ≤ o) (h2 : o < off + cap) :
    v.Own env i o := by
  rcases hp.within (i := i) (e := ⟨off, cap⟩) (update_self ..) with h0 | ⟨hlo, hhi⟩
  · simp only at h0
    omega
  simp only at hlo hhi
  refine .inr ⟨by omega, by omega, ?_⟩
  intro j x hj hx
  exact hp.apart (Ne.symm hj) (update_self ..) (by rw [update_of_ne hj]; exact hx) o ⟨h1, h2⟩

variable {w : Volume}

lemma commit_extent (hv : v.Wf env) (hb : v.inst.blockBacked = true)
    (huse : (v.inst.entries i).inUse = true) (hkind : (v.inst.entries i).kind ≠ .directory)
    (hu : Update env v w i) (off cap : Nat) {e : Entry}
    (he : e = { v.inst.entries i with dataOffset := off, dataCapacity := cap }) (hpos : cap ≠ 0)
    (hcap : (v.inst.entries i).dataCapacity ≤ cap)
    (hp : Packed (update (fun j => (v.inst.entries j).extent) i (some ⟨off, cap⟩)) dataOffset (off +
      cap)) (hend : off + cap ≤ v.activeStorageSize env) :
    ∃ v', (w.setEntry i e).syncEntry .faultless i = (true, v') ∧
      Outcome env v (v'.setNextDataOffset (off + cap)) i e ∧
      ∀ o, dataOffset ≤ o → v'.bytes o = w.bytes o := by
  have hi := hv.lt_of_inUse huse
  have hold := hv.table.entry_ok i
  obtain ⟨v', hok, hsync⟩ := syncEntry_ok hv hi (hu.trans (.setEntry env w i e))
  have hentry : v'.inst.entries i = e := by rw [hsync.inst, setEntry_self]
  have hupd := hsync.update.trans (.setNextDataOffset env v' i (off + cap))
  refine ⟨v', hok, ⟨hv.of_update hi hupd ?_, hupd, hi, hentry⟩, hsync.bytes⟩
  have hdir : (v'.setNextDataOffset (off + cap)).inst.entries i = e := hentry
  refine ⟨?_, ?_, ?_, ?_, ?_, ?_, ?_, ?_⟩
  · rw [hdir, he]
    exact ⟨fun h => absurd huse (by simp_all), hold.path_lt, hold.mode_mask, hold.size_le,
      fun h => absurd h hkind, fun h => absurd h hpos⟩
  · intro j hj _ hju heq
    rw [hdir, he] at heq
    exact hj (hv.table.distinct j i hju huse heq)
  · intro _
    have hext : e.extent = some ⟨off, cap⟩ := by
      rw [he]
      exact if_pos ⟨huse, hkind⟩
    rw [hdir, hext]
    exact hp
  · intro _
    exact hend
  · intro _
    rw [hdir, he]
    exact le_trans ((hv.onDisk hb).size_le i) hcap
  · intro _
    rw [hdir]
    have hrec := hsync.record hb
    rw [setEntry_self] at hrec
    exact hrec
  · intro hb'
    rw [hb] at hb'
    exact absurd hb' (by simp)
  · intro hb'
    rw [hb] at hb'
    exact absurd hb' (by simp)

lemma dataStore_apply (hb : v.inst.blockBacked = true) (o : Nat) :
    v.dataStore i o = v.bytes ((v.inst.entries i).dataOffset + o) := by
  simp [dataStore, hb]

theorem copy_spec (hv : v.Wf env) (hb : v.inst.blockBacked = true) (dst cap : Nat)
    (hdst : v.inst.nextDataOffset ≤ dst) (hsize : (v.inst.entries i).size ≤ cap)
    (hend : dst + cap ≤ v.activeStorageSize env) :
    ∃ w, v.copyChunks .faultless (v.inst.entries i).dataOffset dst (v.inst.entries i).size
        (v.inst.entries i).size 0 = (true, w) ∧ Update env v w i ∧ w.inst = v.inst ∧
      ∀ o < (v.inst.entries i).size, w.bytes (dst + o) = v.dataStore i o := by
  have hd := hv.onDisk hb
  by_cases h0 : (v.inst.entries i).size = 0
  · rw [h0]
    exact ⟨v, rfl, .refl env v i, rfl, fun o ho => absurd ho (by omega)⟩
  have hcap := hd.size_le i
  obtain ⟨hlo, hhi⟩ := hv.dataOffset_le (i := i) hb (by omega)
  have hsrc := hd.accessible (v.inst.entries i).dataOffset (v.inst.entries i).size (by omega)
  have hdst' := hd.accessible dst (v.inst.entries i).size (by omega)
  have hok := copyChunks_ok (v.inst.entries i).size 0 v (Nat.zero_le _) hsrc hdst'
  have hpost := (copyChunks_post .faultless (v.inst.entries i).dataOffset dst
    (v.inst.entries i).size (by omega) (v.inst.entries i).size 0 v (by omega)
    (Nat.zero_le _) hsrc.addressable hdst'.addressable).1 hok
  simp only [Nat.add_zero, Nat.sub_zero] at hpost
  rcases hr : v.copyChunks .faultless (v.inst.entries i).dataOffset dst (v.inst.entries i).size
    (v.inst.entries i).size 0 with ⟨flag, w⟩
  rw [hr] at hok hpost
  subst hok
  refine ⟨w, rfl, .of_stored hb hpost ?_, hpost.inst, ?_⟩
  · -- the destination lies above every extent
    intro o h1 h2
    rw [slice_length] at h2
    exact own_of_update (hd.packed.place i hdst) hend h1 (by omega)
  · intro o ho
    rw [hpost.bytes, patch_inside _ (by simpa using ho), slice_getElem, dataStore_apply hb]

theorem reserveEntryExtent_spec (hv : v.Wf env) (hb : v.inst.blockBacked = true)
    (huse : (v.inst.entries i).inUse = true) (hkind : (v.inst.entries i).kind ≠ .directory)
    (required : Nat) :
    v.reserveEntryExtent .faultless env i required = (false, v) ∨
    ∃ v' off cap, v.reserveEntryExtent .faultless env i required = (true, v') ∧ required ≤ cap ∧
      Outcome env v v' i { v.inst.entries i with dataOffset := off, dataCapacity := cap } ∧
      ∀ o < (v.inst.entries i).size, v'.dataStore i o = v.dataStore i o := by
  have hd := hv.onDisk hb
  have hi := hv.lt_of_inUse huse
  have hext : (v.inst.entries i).extent =
      some ⟨(v.inst.entries i).dataOffset, (v.inst.entries i).dataCapacity⟩ :=
    if_pos ⟨huse, hkind⟩
  have hstorage : v.activeStorageSize env < 2 ^ 41 := by
    have hge := hd.storage_ge
    obtain ⟨-, -, hle⟩ := activeStorageSize_le env v (by unfold dataOffset at hge; omega)
    have := (v.blk.devs v.inst.blkdevId).size_lt
    omega
  have hnext := hd.next_le
  have hsize := hd.size_le i
  unfold reserveEntryExtent
  dsimp only
  split
  · exact .inl rfl
  next hguard =>
  simp only [not_or, not_lt, ge_iff_le, gt_iff_lt] at hguard
  split
  · next hfits =>
    exact .inr ⟨v, _, _, rfl, hfits, ⟨hv, .refl env v i, hi, rfl⟩, fun _ _ => rfl⟩
  next hshort =>
  have hgrow := le_growCapacity hguard.2.2.2 64
    (max (v.inst.entries i).dataCapacity minExtentCapacity)
  generalize growCapacity required 64 (max (v.inst.entries i).dataCapacity minExtentCapacity) =
    newCapacity at hgrow ⊢
  split
  · exact .inl rfl
  next hcap =>
  simp only [not_or, not_lt] at hcap
  have hcap_lt : newCapacity < 2 ^ 31 := by
    unfold maxFileSize at hcap
    omega
  split
  · -- the extent ends at the bump pointer
    next hlast =>
    obtain ⟨hne, -, hend⟩ := hlast
    have hlo := (hv.dataOffset_le hb hne).1
    rw [Nat.mod_eq_of_lt (a := (v.inst.entries i).dataOffset + newCapacity) (by omega)]
    split
    · exact .inl rfl
    next hspace =>
    simp only [not_or, not_lt, gt_iff_lt] at hspace
    obtain ⟨v', hsync, hout, hbytes⟩ := commit_extent (w := v) hv hb huse hkind (.refl env v i)
      (v.inst.entries i).dataOffset newCapacity
      (e := { v.inst.entries i with dataCapacity := newCapacity }) rfl (by omega) (by omega)
      (hd.packed.growLast hext hne hend (by simp only; omega)) hspace.2
    rw [hsync]
    refine .inr ⟨_, _, newCapacity, rfl, hcap.1, hout, ?_⟩
    intro o _
    rw [dataStore_apply (by rw [hout.update.blockBacked]; exact hb), hout.entry, dataStore_apply hb]
    exact hbytes _ (by simp only; omega)
  · next hmove =>
    have halign := le_alignUpU64 v.inst.nextDataOffset (by unfold uint64Max; omega)
    generalize alignUpU64 v.inst.nextDataOffset extentAlignment = newOffset at halign ⊢
    split
    · exact .inl rfl
    split
    · exact .inl rfl
    next hspace =>
    simp only [not_or, not_lt, gt_iff_lt] at hspace
    split
    · exact .inl rfl
    obtain ⟨w, hcopy, hupd, hinst, hdata⟩ := copy_spec (i := i) hv hb newOffset
      newCapacity halign (by omega) hspace.2
    rw [hcopy]
    dsimp only
    obtain ⟨v', hsync, hout, hbytes⟩ := commit_extent hv hb huse hkind hupd
      newOffset newCapacity rfl (by omega) (by omega)
      (hd.packed.place i halign) hspace.2
    rw [hsync]
    refine .inr ⟨_, newOffset, newCapacity, rfl, hcap.1, hout, ?_⟩
    intro o ho
    have hlo := hd.packed.lo_le
    rw [dataStore_apply (by rw [hout.update.blockBacked]; exact hb), hout.entry, ← hdata o ho]
    exact hbytes _ (by simp only; omega)

/-! ## Storing into a file -/

/-- A device write into the extent of slot `i` changes the data of the slot. -/
lemma stored_in_extent (hv : v.Wf env) (hb : v.inst.blockBacked = true) {data : List UInt8}
    (hne : data ≠ []) (hfits : off + data.length ≤ (v.inst.entries i).dataCapacity)
    (h : Stored v w ((v.inst.entries i).dataOffset + off) data) :
    Update env v w i ∧ w.dataStore i = patch (v.dataStore i) off data := by
  have hd := hv.onDisk hb
  have hpos := List.length_pos_of_ne_nil hne
  obtain ⟨hlo, hhi⟩ := hv.dataOffset_le (i := i) hb (by omega)
  have hnext := hd.next_le
  constructor
  · refine .of_stored hb h ?_
    intro o h1 h2
    refine .inr ⟨by omega, by omega, ?_⟩
    intro j x hj hx
    have hext := (hv.table.entry_ok i).extent_eq (.inr (by omega))
    exact hd.packed.apart (Ne.symm hj) hext hx o ⟨by simp only; omega, by simp only; omega⟩
  · funext o
    have hbw : w.inst.blockBacked = true := by rw [h.inst]; exact hb
    rw [dataStore_apply hbw, h.inst, h.bytes]
    have hshift := congrFun (patch_shift v.bytes (v.inst.entries i).dataOffset off data) o
    rw [hshift]
    simp [dataStore, hb]

lemma commit_size (hv : v.Wf env) (huse : (v.inst.entries i).inUse = true)
    (hkind : (v.inst.entries i).kind ≠ .directory) (hu : Update env v w i)
    (hinst : w.inst = v.inst) (hmax : n ≤ maxFileSize)
    (hcap : v.inst.blockBacked = true → n ≤ (v.inst.entries i).dataCapacity)
    (hinline : v.inst.blockBacked = false → n ≤ inlineCapacity) :
    ∃ v', (w.setEntry i { w.inst.entries i with size := n }).syncEntry .faultless i = (true, v') ∧
      Outcome env v v' i { v.inst.entries i with size := n } ∧
      v'.content i = slice (w.dataStore i) 0 n := by
  have hold := hv.table.entry_ok i
  rw [hinst]
  exact commit_inPlace (e := { v.inst.entries i with size := n }) hv (hv.lt_of_inUse huse) hu hinst
    ⟨fun h => absurd huse (by simp_all), hold.path_lt, hold.mode_mask, hmax,
      fun h => absurd h hkind, hold.empty⟩
    huse rfl rfl rfl rfl (fun h => h) hcap hinline

/-- What storing bytes into a file leaves: a well-formed volume `v'` with room for them, and a
volume `w` that differs from it in the stored data. -/
structure Extended (env : Env) (v v' w : Volume) (i n : Nat) : Prop where
  wf : v'.Wf env
  update : Update env v v' i
  entry : ∃ off cap, v'.inst.entries i =
    { v.inst.entries i with dataOffset := off, dataCapacity := cap }
  room : v'.inst.blockBacked = true → n ≤ (v'.inst.entries i).dataCapacity
  inline : v'.inst.blockBacked = false → n ≤ inlineCapacity
  data : ∀ o < (v.inst.entries i).size, v'.dataStore i o = v.dataStore i o
  store : Update env v' w i
  inst : w.inst = v'.inst

section Reserved

variable {v' : Volume} {n off cap : Nat} (hb : v.inst.blockBacked = true)
  (hout : Outcome env v v' i { v.inst.entries i with dataOffset := off, dataCapacity := cap })
  (hcap : n ≤ cap)

include hb hout hcap

/-- Where the data of a slot lies once an extent with room for `n` bytes is reserved. -/
theorem Outcome.place (hn : 0 < n) :
    v'.entryDataOffset i = (v'.inst.entries i).dataOffset ∧
      (v'.inst.entries i).dataOffset + n ≤ v'.activeStorageSize env := by
  have hb' := hout.update.blockBacked.trans hb
  have hfits : n ≤ (v'.inst.entries i).dataCapacity := by rw [hout.entry]; exact hcap
  obtain ⟨-, hhi⟩ := hout.wf.dataOffset_le (i := i) hb' (by omega)
  have hnext := (hout.wf.onDisk hb').next_le
  unfold entryDataOffset
  rw [if_pos ⟨by rw [hout.wf.table.version], by omega⟩]
  exact ⟨rfl, by omega⟩

lemma Outcome.extended {o : Nat} {data : List UInt8}
    (hdata : ∀ o < (v.inst.entries i).size, v'.dataStore i o = v.dataStore i o) (hne : data ≠ [])
    (hn : o + data.length = n) (h : Stored v' w ((v'.inst.entries i).dataOffset + o) data) :
    Extended env v v' w i n ∧ w.dataStore i = patch (v'.dataStore i) o data := by
  have hb' := hout.update.blockBacked.trans hb
  have hfits : n ≤ (v'.inst.entries i).dataCapacity := by rw [hout.entry]; exact hcap
  obtain ⟨hstore, hpatch⟩ := stored_in_extent hout.wf hb' hne (hn.trans_le hfits) h
  exact ⟨⟨hout.wf, hout.update, ⟨off, cap, hout.entry⟩, fun _ => hfits,
    fun hf => by simp [hb'] at hf, hdata, hstore, h.inst⟩, hpatch⟩

end Reserved

lemma Extended.inMemory (hv : v.Wf env) (hb : v.inst.blockBacked = false)
    (hn : n ≤ inlineCapacity) (o : Nat) (data : List UInt8) :
    Extended env v v (v.setMem i (patch (v.mem i) o data)) i n ∧
      (v.setMem i (patch (v.mem i) o data)).dataStore i = patch (v.dataStore i) o data :=
  ⟨⟨hv, .refl env v i, ⟨_, _, rfl⟩, fun h => by simp [hb] at h, fun _ => hn, fun _ _ => rfl,
    .setMem env v i _, rfl⟩, by simp [dataStore, setMem, hb]⟩

lemma Extended.entry_size (h : Extended env v v' w i n) :
    (v'.inst.entries i).size = (v.inst.entries i).size ∧
      (v'.inst.entries i).inUse = (v.inst.entries i).inUse ∧
      (v'.inst.entries i).kind = (v.inst.entries i).kind := by
  obtain ⟨off, cap, he⟩ := h.entry
  rw [he]
  exact ⟨rfl, rfl, rfl⟩

lemma storeBytes_spec (hv : v.Wf env) (huse : (v.inst.entries i).inUse = true)
    (hkind : (v.inst.entries i).kind ≠ .directory) (offset : Nat) {buffer : List UInt8}
    (hne : buffer ≠ []) :
    v.storeBytes .faultless env i offset buffer = (false, v) ∨
    ∃ v' w, v.storeBytes .faultless env i offset buffer = (true, w) ∧
      Extended env v v' w i (offset + buffer.length) ∧
      w.dataStore i = patch (v'.dataStore i) offset buffer := by
  have hversion := hv.table.version
  unfold storeBytes
  cases hb : v.inst.blockBacked with
  | true =>
    rw [if_pos ⟨rfl, by omega⟩]
    rcases reserveEntryExtent_spec hv hb huse hkind (offset + buffer.length) with
      hfail | ⟨v', off, cap, hres, hcap, hout, hdata⟩
    · rw [hfail]
      exact .inl rfl
    rw [hres]
    dsimp only
    obtain ⟨hplace, hhi⟩ := hout.place hb hcap
      (lt_of_lt_of_le (List.length_pos_of_ne_nil hne) (Nat.le_add_left _ _))
    have hd' := hout.wf.onDisk (hout.update.blockBacked.trans hb)
    obtain ⟨w, hw, hstored⟩ := blkWrite_ok (v'.entryDataOffset i + offset)
      (hd'.accessible _ buffer.length (by rw [hplace]; omega)) hne
    rw [hw]
    rw [hplace] at hstored
    exact .inr ⟨v', w, rfl, hout.extended hb hcap hdata hne rfl hstored⟩
  | false =>
    rw [if_neg (by simp)]
    split
    · exact .inl rfl
    next hroom =>
    rw [hv.memoryEntryData_eq hb huse hkind]
    refine .inr ⟨v, _, rfl, Extended.inMemory hv hb ?_ _ _⟩
    omega

lemma extendPath_spec (hv : v.Wf env) (huse : (v.inst.entries i).inUse = true)
    (hkind : (v.inst.entries i).kind ≠ .directory) (hgrow : (v.inst.entries i).size < size) :
    v.extendPath .faultless env i size = (false, v) ∨
    ∃ v' w, v.extendPath .faultless env i size = (true, w) ∧ Extended env v v' w i size ∧
      w.dataStore i = patch (v'.dataStore i) (v.inst.entries i).size
        (zeroBytes (size - (v.inst.entries i).size)) := by
  have hversion := hv.table.version
  have hne : zeroBytes (size - (v.inst.entries i).size) ≠ [] :=
    List.ne_nil_of_length_pos (by simp; omega)
  unfold extendPath
  cases hb : v.inst.blockBacked with
  | true =>
    rw [if_pos ⟨rfl, by omega⟩]
    rcases reserveEntryExtent_spec hv hb huse hkind size with
      hfail | ⟨v', off, cap, hres, hcap, hout, hdata⟩
    · rw [hfail]
      exact .inl rfl
    rw [hres]
    dsimp only
    obtain ⟨hplace, hhi⟩ := hout.place hb hcap (by omega)
    have hd' := hout.wf.onDisk (hout.update.blockBacked.trans hb)
    rw [hplace]
    obtain ⟨w, hw, hstored⟩ := zeroChunks_ok (v'.inst.entries i).dataOffset size
      (size - (v.inst.entries i).size) (v.inst.entries i).size v' le_rfl (by omega)
      (hd'.accessible _ _ (by omega))
    rw [hw]
    exact .inr ⟨v', w, rfl, hout.extended hb hcap hdata hne (by simp; omega) hstored⟩
  | false =>
    rw [if_neg (by simp)]
    split
    · exact .inl rfl
    next hroom =>
    rw [hv.memoryEntryData_eq hb huse hkind]
    refine .inr ⟨v, _, rfl, Extended.inMemory hv hb ?_ _ _⟩
    omega

lemma Extended.commit {m : Nat} (h : Extended env v v' w i m)
    (huse : (v.inst.entries i).inUse = true) (hkind : (v.inst.entries i).kind ≠ .directory)
    (hn : n ≤ m ∨ n ≤ (v.inst.entries i).size) (hmax : n ≤ maxFileSize) :
    ∃ v'' off cap, (w.setEntry i { w.inst.entries i with size := n }).syncEntry .faultless i =
        (true, v'') ∧
      Outcome env v v'' i
        { v.inst.entries i with size := n, dataOffset := off, dataCapacity := cap } ∧
      v''.content i = slice (w.dataStore i) 0 n := by
  obtain ⟨hsize, huse', hkind'⟩ := h.entry_size
  obtain ⟨v'', hsync, hout, hcontent⟩ := commit_size h.wf (huse'.trans huse)
    (by rw [hkind']; exact hkind) h.store h.inst hmax
    (by
      intro hb
      have h1 := h.room hb
      have h2 := (h.wf.onDisk hb).size_le i
      omega)
    (by
      intro hb
      have h1 := h.inline hb
      have h2 := (h.wf.inMemory hb).size_le i
      omega)
  obtain ⟨off, cap, hentry⟩ := h.entry
  refine ⟨v'', off, cap, hsync, ⟨hout.wf, h.update.trans hout.update, hout.slot_lt, ?_⟩, hcontent⟩
  rw [hout.entry, hentry]

/-! ## The operations -/

/-- The contents after writing `buffer` at `offset`, up to the end of `content`. -/
lemma slice_patch_splice {D D' : Store UInt8} {offset : Nat} (buffer : List UInt8)
    (hD : ∀ o < size, D' o = D o) (hoff : offset ≤ size) :
    slice (patch D' offset buffer) 0 (max size (offset + buffer.length)) =
      splice (slice D 0 size) offset buffer := by
  have hslice : ∀ n ≤ size, slice D' 0 n = slice D 0 n := by
    intro n hn
    exact slice_congr fun a _ ha => hD a (by omega)
  by_cases hin : offset + buffer.length ≤ size
  · rw [max_eq_left hin, ← hslice size le_rfl, ← slice_patch_inside D' 0 hin, zero_add]
  rw [max_eq_right (by omega), slice_append, zero_add,
    slice_patch_disjoint D' (.inl (by omega)), slice_patch_self, hslice offset hoff]
  unfold splice
  rw [take_slice D hoff, List.drop_of_length_le (by simp; omega), List.append_nil]

/-- A write fails without effect, writes nothing, or stores its bytes. -/
theorem writePath_spec (hv : v.Wf env) (path : CString) (offset : Nat) (buffer : List UInt8) :
    v.writePath .faultless env path offset buffer = (none, v) ∨
    (∃ i, v.findEntry path = some i ∧ (v.inst.entries i).kind ≠ .directory ∧ buffer = [] ∧
      v.writePath .faultless env path offset buffer = (some (0, (v.inst.entries i).size), v)) ∨
    (∃ i v' off cap, v.findEntry path = some i ∧ (v.inst.entries i).kind ≠ .directory ∧
      buffer ≠ [] ∧
      v.writePath .faultless env path offset buffer =
        (some (buffer.length, max (v.inst.entries i).size (offset + buffer.length)), v') ∧
      Outcome env v v' i { v.inst.entries i with
        size := max (v.inst.entries i).size (offset + buffer.length)
        dataOffset := off
        dataCapacity := cap } ∧
      (offset ≤ (v.inst.entries i).size → v'.content i = splice (v.content i) offset buffer)) := by
  unfold writePath
  split
  · exact .inl rfl
  next i hfind =>
  have huse := (findEntry_some hfind).2.1
  split
  · exact .inl rfl
  next hguard =>
  simp only [not_or, not_lt, gt_iff_lt] at hguard
  obtain ⟨hkind, hoff, hlen⟩ := hguard
  split
  · next hempty =>
    exact .inr (.inl ⟨i, hfind, hkind, List.length_eq_zero_iff.1 hempty, rfl⟩)
  next hne =>
  have hne' : buffer ≠ [] := fun h => hne (by rw [h]; rfl)
  rcases storeBytes_spec (i := i) hv huse hkind offset hne' with
    hfail | ⟨v', w, hstore, hext, hpatch⟩
  · rw [hfail]
    exact .inl rfl
  rw [hstore]
  dsimp only
  have hsize : (w.inst.entries i).size = (v.inst.entries i).size := by
    rw [hext.inst, hext.entry_size.1]
  have hold := (hv.table.entry_ok i).size_le
  have hnew : (if offset + buffer.length > (w.inst.entries i).size
      then (offset + buffer.length) % 2 ^ 32 else (w.inst.entries i).size) =
        max (v.inst.entries i).size (offset + buffer.length) := by
    unfold maxFileSize at hlen hoff
    split
    · omega
    · omega
  rw [hnew]
  obtain ⟨v'', off, cap, hsync, hout, hcontent⟩ := hext.commit huse hkind
    (n := max (v.inst.entries i).size (offset + buffer.length)) (by omega) (by omega)
  rw [hsync]
  refine .inr (.inr ⟨i, v'', off, cap, hfind, hkind, hne', rfl, hout, ?_⟩)
  intro hle
  rw [hcontent, hpatch]
  exact slice_patch_splice buffer hext.data hle

/-- A resize fails without effect, or cuts or zero-extends the contents. -/
theorem resizePath_spec (hv : v.Wf env) (path : CString) (size : Nat) :
    v.resizePath .faultless env path size = (false, v) ∨
    (∃ i v' off cap, v.findEntry path = some i ∧ (v.inst.entries i).kind = .regular ∧
      v.resizePath .faultless env path size = (true, v') ∧
      Outcome env v v' i { v.inst.entries i with
        size := size
        dataOffset := off
        dataCapacity := cap } ∧
      v'.content i = (v.content i).take size ++ zeroBytes (size - (v.content i).length)) := by
  unfold resizePath
  split
  · exact .inl rfl
  next hmax =>
  split
  · exact .inl rfl
  next i hfind =>
  have huse := (findEntry_some hfind).2.1
  split
  · exact .inl rfl
  next hreg =>
  simp only [ne_eq, not_not] at hreg
  have hkind : (v.inst.entries i).kind ≠ .directory := by
    rw [hreg]
    decide
  by_cases hgrow : (v.inst.entries i).size < size
  · rw [if_pos hgrow]
    rcases extendPath_spec (i := i) hv huse hkind hgrow with hfail | ⟨v', w, hstore, hext, hpatch⟩
    · rw [hfail]
      exact .inl rfl
    rw [hstore]
    dsimp only
    obtain ⟨v'', off, cap, hsync, hout, hcontent⟩ := hext.commit huse hkind (n := size)
      (.inl le_rfl) (by omega)
    rw [hsync]
    refine .inr ⟨i, v'', off, cap, hfind, hreg, rfl, hout, ?_⟩
    have hspl := slice_patch_splice (zeroBytes (size - (v.inst.entries i).size)) hext.data le_rfl
    have hmaxsize : max (v.inst.entries i).size
        ((v.inst.entries i).size + (zeroBytes (size - (v.inst.entries i).size)).length) = size := by
      simp
      omega
    rw [hmaxsize] at hspl
    have htake : (v.content i).take size = v.content i :=
      List.take_of_length_le (by rw [content_length]; omega)
    rw [hcontent, hpatch, hspl, htake, content_length]
    unfold splice
    rw [take_slice _ le_rfl, List.drop_of_length_le (by simp), List.append_nil]
    rfl
  · rw [if_neg hgrow]
    dsimp only
    obtain ⟨v', hsync, hout, hcontent⟩ := commit_size (n := size) hv huse hkind (.refl env v i) rfl
      (by omega)
      (by intro hb; have := (hv.onDisk hb).size_le i; omega)
      (by intro hb; have := (hv.inMemory hb).size_le i; omega)
    rw [hsync]
    refine .inr ⟨i, v', _, _, hfind, hreg, rfl, hout, ?_⟩
    rw [hcontent, content_length, show size - (v.inst.entries i).size = 0 by omega]
    unfold content
    rw [take_slice _ (by omega)]
    simp [zeroBytes]

def readBytes (v : Volume) (path : CString) (offset len : Nat) : Option (List UInt8) :=
  match v.findEntry path with
  | none => none
  | some i =>
      if (v.inst.entries i).kind = .directory ∨ offset > (v.inst.entries i).size ∨
          len > (v.inst.entries i).size - offset then none
      else some (((v.content i).drop offset).take len)

theorem readPath_spec (hv : v.Wf env) (path : CString) (offset len : Nat) :
    (v.readPath .faultless path offset len).1 = v.readBytes path offset len ∧
      Same v (v.readPath .faultless path offset len).2 := by
  have hversion := hv.table.version
  unfold readPath readBytes
  cases hfind : v.findEntry path with
  | none => exact ⟨rfl, Same.refl v⟩
  | some i =>
  have huse := (findEntry_some hfind).2.1
  dsimp only
  by_cases hguard : (v.inst.entries i).kind = .directory ∨ offset > (v.inst.entries i).size ∨
      len > (v.inst.entries i).size - offset
  · rw [if_pos hguard, if_pos hguard]
    exact ⟨rfl, Same.refl v⟩
  rw [if_neg hguard, if_neg hguard]
  simp only [not_or, not_lt, gt_iff_lt] at hguard
  obtain ⟨hkind, hoff, hlen⟩ := hguard
  have hpart : ((v.content i).drop offset).take len = slice (v.dataStore i) offset len := by
    have hle : offset + len ≤ (v.inst.entries i).size := by omega
    have := take_drop_slice (v.dataStore i) 0 hle
    rwa [zero_add] at this
  rw [hpart]
  split
  · next h0 =>
    subst h0
    exact ⟨rfl, Same.refl v⟩
  next h0 =>
  cases hb : v.inst.blockBacked with
  | true =>
    have hd := hv.onDisk hb
    have hsize := hd.size_le i
    obtain ⟨-, hhi⟩ := hv.dataOffset_le (i := i) hb (by omega)
    have hnext := hd.next_le
    have hplace : v.entryDataOffset i = (v.inst.entries i).dataOffset := by
      unfold entryDataOffset
      rw [if_pos ⟨by omega, by omega⟩]
    rw [if_pos ⟨rfl, by omega⟩, if_neg (by omega), hplace]
    refine ⟨?_, blkRead_same _ _ _ _⟩
    rw [blkRead_ok _ _ (hd.accessible _ _ (by omega)) h0, ← slice_shift]
    simp [dataStore, hb]
  | false =>
    have hsize := (hv.inMemory hb).size_le i
    rw [if_neg (by simp), if_neg (by omega), hv.memoryEntryData_eq hb huse hkind]
    exact ⟨by simp [dataStore, hb], Same.refl v⟩

theorem truncatePath_spec (hv : v.Wf env) (path : CString) :
    v.truncatePath .faultless path = (false, v) ∨
    (∃ i v', v.findEntry path = some i ∧ (v.inst.entries i).kind = .regular ∧
      v.truncatePath .faultless path = (true, v') ∧
      Outcome env v v' i { v.inst.entries i with size := 0 } ∧ v'.content i = []) := by
  unfold truncatePath
  split
  · exact .inl rfl
  next i hfind =>
  have huse := (findEntry_some hfind).2.1
  split
  · exact .inl rfl
  next hreg =>
  simp only [ne_eq, not_not] at hreg
  have hkind : (v.inst.entries i).kind ≠ .directory := by
    rw [hreg]
    decide
  split
  · next hmem =>
    obtain ⟨v', hsync, hout, hcontent⟩ := commit_size (n := 0)
      (w := v.setMem i (patch (v.mem i) 0 (zeroBytes inlineCapacity))) hv huse hkind
      (.setMem env v i _) rfl (Nat.zero_le _) (fun _ => Nat.zero_le _) (fun _ => Nat.zero_le _)
    exact .inr ⟨i, v', hfind, hreg, hsync, hout, hcontent⟩
  · obtain ⟨v', hsync, hout, hcontent⟩ := commit_size (n := 0) hv huse hkind (.refl env v i) rfl
      (Nat.zero_le _) (fun _ => Nat.zero_le _) (fun _ => Nat.zero_le _)
    exact .inr ⟨i, v', hfind, hreg, hsync, hout, hcontent⟩

end Volume

end AosKernel.Aosfs
