import AosKernel.Aosfs.FileSpecs

/-!
# AOSFS: mounting, formatting and the map of the files

The entry loop of a mount has loaded the slots below its counter and has moved the bump pointer
behind their extents (`Volume.Loaded`); so a mount rebuilds the table from the records
(`Volume.mountRole_spec`). A format is considered under any fault plan (`Volume.formatRole_spec`).

`Volume.file` is the abstract view of a volume: the contents of the file at a path. Each operation
replaces the value at its own path (`Volume.Outcome.file_eq`).
-/

namespace AosKernel.Aosfs

open Lib Lib.ByteStore Lib.Loop Block Function

/-! ## Records -/

lemma diskEntryOf_inRange {e : Entry} (h : e.Ok) (hend : e.dataOffset + e.dataCapacity < 2 ^ 64) :
    (diskEntryOf e).InRange where
  inUse := by
    unfold diskEntryOf
    simp only
    split <;> omega
  kind := by
    unfold diskEntryOf EntryKind.code
    cases e.kind <;> simp
  size := by
    have := h.size_le
    unfold maxFileSize at this
    unfold diskEntryOf
    simp only
    omega
  dataOffset := by
    unfold diskEntryOf
    simp only
    omega
  dataCapacity := by
    unfold diskEntryOf
    simp only
    omega
  path := by
    unfold diskEntryOf
    rw [CString.truncate_of_lt h.path_lt]
    exact h.path_lt

lemma loadedEntry_diskEntryOf {e : Entry} (h : e.Ok) (huse : e.inUse = true) :
    Volume.loadedEntry (diskEntryOf e) e.kind = { e with dataOffset := 0, dataCapacity := 0 } := by
  unfold Volume.loadedEntry
  rw [diskMode_diskEntryOf, h.mode_mask]
  simp only [diskEntryOf, CString.truncate_of_lt h.path_lt, huse]
  rfl

lemma Entry.eq_of_no_extent {e : Entry} (hoff : e.dataOffset = 0) (hcap : e.dataCapacity = 0) :
    { e with dataOffset := 0, dataCapacity := 0 } = e := by
  cases e
  simp_all

namespace Volume

variable {env : Env} {v : Volume}

lemma Wf.extent_end_lt (hv : v.Wf env) (hb : v.inst.blockBacked = true) (i : Nat) :
    (v.inst.entries i).dataOffset + (v.inst.entries i).dataCapacity ≤ v.activeStorageSize env := by
  by_cases hcap : (v.inst.entries i).dataCapacity = 0
  · have := (hv.table.entry_ok i).empty hcap
    omega
  · have := (hv.dataOffset_le hb hcap).2
    have := (hv.onDisk hb).next_le
    omega

lemma OnDisk.storage_lt (h : v.OnDisk env) : v.activeStorageSize env < 2 ^ 41 := by
  have hge := h.storage_ge
  obtain ⟨-, -, hle⟩ := activeStorageSize_le env v (by unfold dataOffset at hge; omega)
  have := (v.blk.devs v.inst.blkdevId).size_lt
  omega

/-! ## The entry loop on a well-formed volume -/

/-- The entry loop has loaded the slots below `i` of `v`. -/
structure Loaded (v : Volume) (i : Nat) (w : Volume) : Prop where
  mem : w.mem = v.mem
  devs : w.blk.devs = v.blk.devs
  inst : w.inst = { v.inst with
    nextInode := w.inst.nextInode
    nextDataOffset := w.inst.nextDataOffset
    entries := fun j => if j < i then v.inst.entries j else Entry.zero }
  lo_le : dataOffset ≤ w.inst.nextDataOffset
  next_le : w.inst.nextDataOffset ≤ v.inst.nextDataOffset
  end_le : ∀ j < i, (v.inst.entries j).dataCapacity ≠ 0 →
    (v.inst.entries j).dataOffset + (v.inst.entries j).dataCapacity ≤ w.inst.nextDataOffset

variable {i : Nat} {w : Volume}

theorem Loaded.bytes (h : Loaded v i w) : w.bytes = v.bytes := by
  unfold Volume.bytes
  rw [h.devs, h.inst]

lemma Loaded.accessible (h : Loaded v i w) {off len : Nat} (ha : v.Accessible off len) :
    w.Accessible off len := by
  refine ha.of_sameDevices ⟨by rw [h.inst], by rw [h.inst]⟩ ?_
  intro id
  exact ⟨(v.blk.devs id).data, by rw [h.devs]⟩

variable {baseOffset blkdevId n role : Nat} {w' : Volume}

lemma Loaded.of_same (h : Loaded v i w) (hs : Same w w') : Loaded v i w' where
  mem := hs.mem.trans h.mem
  devs := hs.devs.trans h.devs
  inst := by rw [hs.inst]; exact h.inst
  lo_le := by rw [hs.inst]; exact h.lo_le
  next_le := by rw [hs.inst]; exact h.next_le
  end_le := by rw [hs.inst]; exact h.end_le

theorem Loaded.step (h : Loaded v i w)
    (hw' : w' = (w.setEntry i (v.inst.entries i)).setNextDataOffset n)
    (hlo : w.inst.nextDataOffset ≤ n) (hle : n ≤ v.inst.nextDataOffset)
    (hend : (v.inst.entries i).dataCapacity ≠ 0 → (v.inst.entries i).dataOffset + (v.inst.entries
      i).dataCapacity ≤ n) : Loaded v (i + 1) w' := by
  subst hw'
  refine ⟨h.mem, h.devs, ?_, ?_, hle, ?_⟩
  · have hentries : update w.inst.entries i (v.inst.entries i) =
        fun j => if j < i + 1 then v.inst.entries j else Entry.zero := by
      funext j
      rw [h.inst]
      by_cases hj : j = i
      · subst hj
        simp
      rw [update_of_ne hj]
      simp only
      by_cases hlt : j < i
      · rw [if_pos hlt, if_pos (by omega)]
      · rw [if_neg hlt, if_neg (by omega)]
    unfold setEntry setNextDataOffset
    rw [hentries]
    rw [h.inst]
  · exact le_trans h.lo_le hlo
  · intro j hj hcap
    by_cases hji : j = i
    · subst hji
      exact hend hcap
    · exact le_trans (h.end_le j (by omega) hcap) hlo

lemma loadExtent_loaded (hv : v.Wf env) (hb : v.inst.blockBacked = true) (i : Nat) (w : Volume) :
    (w.setEntry i { v.inst.entries i with dataOffset := 0, dataCapacity := 0 }).loadExtent
      (diskEntryOf (v.inst.entries i)) i = (true, w.setEntry i (v.inst.entries i)) := by
  have hsize := (hv.onDisk hb).size_le i
  have hmax := (hv.table.entry_ok i).size_le
  unfold loadExtent
  rw [setEntry_self]
  dsimp only
  split
  · next hbad =>
    rcases hbad with h | h | h
    · exact absurd h (not_lt.2 hmax)
    · exact absurd h (not_lt.2 hsize)
    · exact absurd h.2 (not_lt.2 (hv.dataOffset_le hb h.1).1)
  · rw [setEntry_setEntry]
    rfl

lemma mountExtent_loaded (hv : v.Wf env) (hb : v.inst.blockBacked = true) (h : Loaded v i w) :
    ∃ w', (w.setEntry i { v.inst.entries i with dataOffset := 0, dataCapacity := 0 }).mountExtent
        .faultless false (v.activeStorageSize env) i (diskEntryOf (v.inst.entries i)) = (true, w') ∧
      Loaded v (i + 1) w' := by
  have hend := hv.extent_end_lt hb i
  have hstorage := (hv.onDisk hb).storage_lt
  unfold mountExtent
  rw [if_neg (by simp), loadExtent_loaded hv hb]
  unfold admitExtent
  simp only [setEntry_self]
  by_cases hcap : (v.inst.entries i).dataCapacity = 0
  · rw [if_pos hcap]
    refine ⟨_, rfl, h.step (n := w.inst.nextDataOffset) rfl le_rfl h.next_le ?_⟩
    exact fun hne => absurd hcap hne
  rw [if_neg hcap, if_neg (by unfold uint64Max; omega), if_neg (by omega)]
  split
  · next hbump =>
    refine ⟨_, rfl, h.step rfl (le_of_lt hbump.2) (hv.dataOffset_le hb hcap).2 (fun _ => le_rfl)⟩
  · next hbump =>
    simp only [true_and, not_lt, gt_iff_lt] at hbump
    exact ⟨_, rfl, h.step (n := w.inst.nextDataOffset) rfl le_rfl h.next_le (fun _ => hbump)⟩

lemma mountEntry_loaded (hv : v.Wf env) (hb : v.inst.blockBacked = true) (hi : i < maxEntries)
    {st : MountState} (h : Loaded v i st.vol) :
    (mountEntry .faultless false (v.activeStorageSize env) i st).1 = true ∧
      Loaded v (i + 1) (mountEntry .faultless false (v.activeStorageSize env) i st).2.vol := by
  have hd := hv.onDisk hb
  have hge := hd.storage_ge
  have hok := hv.table.entry_ok i
  have hread := blkRead_ok (tableOffset + i * diskEntrySize) diskEntrySize
    (h.accessible (hd.accessible _ _ (by
      unfold tableOffset diskEntrySize
      unfold dataOffset at hge
      unfold maxEntries at hi
      omega))) (by decide)
  have hsame := blkRead_same .faultless st.vol (tableOffset + i * diskEntrySize) diskEntrySize
  rw [h.bytes, hd.record i hi] at hread
  unfold mountEntry
  rcases hr : st.vol.blkRead .faultless (tableOffset + i * diskEntrySize) diskEntrySize with
    ⟨result, w⟩
  rw [hr] at hread hsame
  subst hread
  have hw := h.of_same hsame
  have hdec := decode_encode (diskEntryOf_inRange hok
    (by have := hv.extent_end_lt hb i; have := hd.storage_lt; omega))
  dsimp only
  rw [hdec]
  have hnone : w.inst.entries i = Entry.zero := by
    rw [hw.inst]
    simp
  cases huse : (v.inst.entries i).inUse with
  | false =>
    have hzero := hok.unused huse
    rw [if_pos (by simp [diskEntryOf, huse])]
    refine ⟨rfl, hw.step (n := w.inst.nextDataOffset) ?_ le_rfl hw.next_le ?_⟩
    · rw [hzero, ← hnone, setEntry_eq_self]
      rfl
    · intro hcap
      rw [hzero] at hcap
      exact absurd rfl hcap
  | true =>
    rw [if_neg (by simp [diskEntryOf, huse])]
    have hcode : EntryKind.ofCode (diskEntryOf (v.inst.entries i)).kind =
        some (v.inst.entries i).kind := EntryKind.ofCode_code _
    rw [hcode]
    dsimp only
    rw [loadedEntry_diskEntryOf hok huse]
    by_cases hkind : (v.inst.entries i).kind = .directory
    · obtain ⟨-, hoff, hcap⟩ := hok.directory hkind
      rw [if_pos hkind]
      refine ⟨rfl, hw.step (n := w.inst.nextDataOffset) ?_ le_rfl hw.next_le ?_⟩
      · rw [Entry.eq_of_no_extent hoff hcap]
        rfl
      · exact fun hne => absurd hcap hne
    · rw [if_neg hkind]
      obtain ⟨w', hext, hloaded⟩ := mountExtent_loaded hv hb hw
      rw [hext]
      exact ⟨rfl, hloaded⟩

/-! ## Mounting a well-formed volume -/

/-- `v'` is `v` with the allocation counters recomputed. -/
structure Remounted (v v' : Volume) : Prop where
  mem : v'.mem = v.mem
  devs : v'.blk.devs = v.blk.devs
  inst : v'.inst = { v.inst with
    nextInode := v'.inst.nextInode
    nextDataOffset := v'.inst.nextDataOffset }
  lo_le : dataOffset ≤ v'.inst.nextDataOffset
  next_le : v'.inst.nextDataOffset ≤ v.inst.nextDataOffset
  end_le : ∀ i, (v.inst.entries i).dataCapacity ≠ 0 →
    (v.inst.entries i).dataOffset + (v.inst.entries i).dataCapacity ≤ v'.inst.nextDataOffset

variable {v' : Volume}

section

variable (h : Remounted v v')
include h

lemma Remounted.entries : v'.inst.entries = v.inst.entries := by
  rw [h.inst]

theorem Remounted.bytes : v'.bytes = v.bytes := by
  unfold Volume.bytes
  rw [h.inst, h.devs]

theorem Remounted.content (i : Nat) : v'.content i = v.content i := by
  unfold Volume.content dataStore
  rw [h.bytes, h.mem, h.inst]

lemma Remounted.update (i : Nat) : Update env v v' i where
  header := by rw [h.inst]
  entries := fun j _ => by rw [h.entries]
  mem := fun j _ => by rw [h.mem]
  devices := fun id => ⟨(v.blk.devs id).data, by rw [h.devs]⟩
  own := by
    intro id a hne
    rw [h.devs] at hne
    exact absurd rfl hne

theorem Remounted.wf (hv : v.Wf env) : v'.Wf env := by
  refine hv.of_update (i := 0) (by decide) (h.update 0) ⟨?_, ?_, ?_, ?_, ?_, ?_, ?_, ?_⟩
  · rw [h.entries]
    exact hv.table.entry_ok 0
  · intro j hj huse hju heq
    rw [h.entries] at huse heq
    exact hj (hv.table.distinct j 0 hju huse heq)
  · intro hb
    rw [h.entries, update_eq_self]
    refine (hv.onDisk hb).packed.rebase h.lo_le ?_
    intro i x hx
    rw [Entry.extent_some hx]
    by_cases hcap : (v.inst.entries i).dataCapacity = 0
    · exact .inl hcap
    · exact .inr (h.end_le i hcap)
  · intro hb
    exact le_trans h.next_le (hv.onDisk hb).next_le
  · intro hb
    rw [h.entries]
    exact (hv.onDisk hb).size_le 0
  · intro hb
    rw [h.entries, h.bytes]
    exact (hv.onDisk hb).record 0 (by decide)
  · intro hb
    rw [h.entries]
    exact (hv.inMemory hb).slot_lt 0
  · intro hb
    rw [h.entries]
    exact (hv.inMemory hb).size_le 0

end

lemma Loaded.remounted (hv : v.Wf env) (h : Loaded v maxEntries w) (n : UInt64) :
    Remounted v (w.setNextInode n) where
  mem := h.mem
  devs := h.devs
  inst := by
    have hentries : (fun j => if j < maxEntries then v.inst.entries j else Entry.zero) =
        v.inst.entries := by
      funext j
      split
      · rfl
      · next hj => exact (hv.table.beyond j (by omega)).symm
    have hinst := h.inst
    rw [hentries] at hinst
    unfold setNextInode
    rw [hinst]
  lo_le := h.lo_le
  next_le := h.next_le
  end_le := by
    intro i hcap
    refine h.end_le i ?_ hcap
    by_contra hi
    rw [hv.table.beyond i (by omega)] at hcap
    exact hcap rfl

lemma superblock_of_format : legacySuperblockValid fillSuperblock = false ∧
    superblockValid fillSuperblock = true ∧ fillSuperblock.maxEntries = maxEntries := by
  decide

/-- A mount of the device of a well-formed volume rebuilds the volume, whatever the instance held
before. -/
theorem mountRole_spec (hv : v.Wf env) (hb : v.inst.blockBacked = true)
    (hrole : w.inst.role = v.inst.role) (hmem : w.mem = v.mem) (hdevs : w.blk.devs = v.blk.devs) :
    ∃ v', w.mountRole .faultless env v.inst.blkdevId v.inst.baseOffset = (true, v') ∧
      Remounted v v' := by
  have hd := hv.onDisk hb
  have hge := hd.storage_ge
  have hsd : SameDevices v.blk w.blk := fun id => ⟨(v.blk.devs id).data, by rw [hdevs]⟩
  have hu := hd.usable.of_sameDevices hsd
  have hget := blkdevGet_eq_some hu.id_lt hu.inUse
  generalize hw0 : w.stageMount v.inst.blkdevId v.inst.baseOffset = w0
  have hinst0 : w0.inst = { v.inst with
      nextInode := w0.inst.nextInode
      nextDataOffset := dataOffset
      entries := w0.inst.entries } := by
    rw [← hw0]
    simp [stageMount, ← hv.table.version, ← hv.table.limit, hb, hd.mounted, hrole]
  have hblk0 : w0.blk = w.blk := by rw [← hw0]; rfl
  have hmem0 : w0.mem = v.mem := by rw [← hw0]; exact hmem
  have hsd0 : SameDevices v.blk w0.blk := by rw [hblk0]; exact hsd
  have hstorage : w0.activeStorageSize env = v.activeStorageSize env :=
    activeStorageSize_congr hsd0 (by rw [hinst0]) (by rw [hinst0]) (by rw [hinst0])
  have hread := blkRead_ok (v := w0) 0 superblockSize
    ((hd.accessible 0 superblockSize
      (by unfold superblockSize; unfold dataOffset at hge; omega)).of_sameDevices
        ⟨by rw [hinst0], by rw [hinst0]⟩ hsd0) (by decide)
  have hsame := blkRead_same .faultless w0 0 superblockSize
  have hbytes : w0.bytes = v.bytes := by
    unfold Volume.bytes
    rw [hblk0, hdevs, hinst0]
  obtain ⟨hlegacy, hvalid, hmax⟩ := superblock_of_format
  unfold mountRole
  rw [if_neg (by rw [hget]; simp), hw0]
  dsimp only
  rw [hstorage, if_neg (by omega)]
  rcases hr : w0.blkRead .faultless 0 superblockSize with ⟨result, w1⟩
  rw [hr] at hread hsame
  subst hread
  dsimp only
  rw [hbytes, hd.superblock, if_neg (by simp [hvalid]), hlegacy, hmax]
  unfold loadTable
  simp only [Bool.false_eq_true, if_false]
  have hnext : w1.inst.nextDataOffset = dataOffset := by rw [hsame.inst, hinst0]
  have hinit : Loaded v 0 (w1.clearEntries.setEntryLimit maxEntries) := by
    refine ⟨hsame.mem.trans hmem0, ?_, ?_, ?_, ?_, fun j hj => absurd hj (by omega)⟩
    · exact hsame.devs.trans (by rw [hblk0, hdevs])
    · unfold clearEntries setEntryLimit
      rw [hsame.inst, hinst0, ← hv.table.limit]
      simp
    · exact hnext.ge
    · exact hnext.le.trans hd.packed.lo_le
  obtain ⟨hok, hloaded⟩ := forLoop_total
    (fun i st => mountEntry .faultless false (v.activeStorageSize env) i st) maxEntries 0
    (s := ⟨dynamicInoBase - 1, w1.clearEntries.setEntryLimit maxEntries⟩)
    (P := fun i st => Loaded v i st.vol) hinit
    (fun i st _ hi h => mountEntry_loaded hv hb (by omega) h)
  rcases hl : forLoop (fun i st => mountEntry .faultless false (v.activeStorageSize env) i st)
    maxEntries 0 ⟨dynamicInoBase - 1, w1.clearEntries.setEntryLimit maxEntries⟩ with ⟨flag, st⟩
  rw [hl] at hok hloaded
  subst hok
  exact ⟨_, rfl, hloaded.remounted hv _⟩

/-! ## Writing the whole table -/

def tableBytes (entries : Nat → Entry) : Nat → List UInt8
  | 0 => []
  | n + 1 => tableBytes entries n ++ (diskEntryOf (entries n)).encode

variable (entries : Nat → Entry)

@[simp] lemma tableBytes_length (n : Nat) :
    (tableBytes entries n).length = n * diskEntrySize := by
  induction n with
  | zero => simp [tableBytes]
  | succ n ih =>
    simp only [tableBytes, List.length_append, ih, DiskEntry.encode_length]
    ring

lemma tableBytes_prefix {m : Nat} (h : m ≤ n) :
    ∃ rest, tableBytes entries n = tableBytes entries m ++ rest := by
  induction n with
  | zero =>
    obtain rfl : m = 0 := by omega
    exact ⟨[], rfl⟩
  | succ n ih =>
    by_cases hm : m = n + 1
    · exact ⟨[], by rw [hm, List.append_nil]⟩
    · obtain ⟨rest, hrest⟩ := ih (by omega)
      exact ⟨rest ++ (diskEntryOf (entries n)).encode, by
        rw [tableBytes, hrest, List.append_assoc]⟩

lemma tableBytes_record (h : i < n) :
    ((tableBytes entries n).drop (i * diskEntrySize)).take diskEntrySize =
      (diskEntryOf (entries i)).encode := by
  obtain ⟨rest, hrest⟩ := tableBytes_prefix entries (m := i + 1) (n := n) (by omega)
  rw [hrest, tableBytes, List.append_assoc, List.drop_left' (by simp), List.take_left' (by simp)]

lemma syncAllEntries_post (plan : IoPlan) (hb : w.inst.blockBacked = true)
    (hlimit : w.inst.entryLimit = maxEntries) (ha : w.Addressable 0 dataOffset) :
    Post (fun w' => Stored w w' tableOffset (tableBytes w.inst.entries maxEntries))
      (fun w' => ∃ m ≤ maxEntries * diskEntrySize,
        Stored w w' tableOffset ((tableBytes w.inst.entries maxEntries).take m))
      (w.syncAllEntries plan) := by
  have hstep := forLoop_post (fun i v => v.syncEntry plan i)
    (P := fun i w' => Stored w w' tableOffset (tableBytes w.inst.entries i))
    (Q := fun w' => ∃ m ≤ maxEntries * diskEntrySize,
      Stored w w' tableOffset ((tableBytes w.inst.entries maxEntries).take m))
    maxEntries 0 w ((Same.refl w).stored _)
  refine hstep ?_
  intro i w' _ hi h
  have hrec : w'.syncEntry plan i = w'.blkWrite plan (tableOffset + i * diskEntrySize)
      (diskEntryOf (w.inst.entries i)).encode := by
    unfold syncEntry
    rw [if_neg (by rw [h.inst, hb, hlimit]; simp; omega), h.inst]
  rw [hrec]
  refine (blkWrite_post plan w' _ ((ha.of_inst h.inst).mono ?_) (DiskEntry.encode_ne _)).mono ?_ ?_
  · unfold tableOffset dataOffset
    unfold maxEntries at hi
    simp [diskEntrySize]
    omega
  · intro w'' hw
    exact h.append (by simpa using hw)
  · rintro w'' ⟨m, hm, hw⟩
    rw [DiskEntry.encode_length] at hm
    obtain ⟨rest, hrest⟩ := tableBytes_prefix w.inst.entries (m := i + 1) (n := maxEntries)
      (by omega)
    refine ⟨i * diskEntrySize + m, ?_, ?_⟩
    · unfold maxEntries diskEntrySize at *
      omega
    · have htake : (tableBytes w.inst.entries maxEntries).take (i * diskEntrySize + m) =
          tableBytes w.inst.entries i ++ ((diskEntryOf (w.inst.entries i)).encode).take m := by
        rw [hrest, tableBytes, List.append_assoc, List.take_append, tableBytes_length,
          List.take_of_length_le (by simp), Nat.add_sub_cancel_left, List.take_append_of_le_length]
        simpa using hm
      rw [htake]
      exact h.append (by simpa using hw)

lemma syncAllEntries_ok (hb : w.inst.blockBacked = true) (hlimit : w.inst.entryLimit = maxEntries)
    (ha : w.Accessible 0 dataOffset) : (w.syncAllEntries .faultless).1 = true := by
  refine (forLoop_total _ _ _ (P := fun _ w' => w'.inst = w.inst ∧ w'.Accessible 0 dataOffset)
    ⟨rfl, ha⟩ ?_).1
  rintro i w' _ hi ⟨hinst, hacc⟩
  have hrec : w'.syncEntry .faultless i = w'.blkWrite .faultless
      (tableOffset + i * diskEntrySize) (diskEntryOf (w'.inst.entries i)).encode := by
    unfold syncEntry
    rw [if_neg (by rw [hinst, hb, hlimit]; simp; omega)]
  have hlen : tableOffset + i * diskEntrySize + (diskEntryOf (w'.inst.entries i)).encode.length ≤
      0 + dataOffset := by
    unfold tableOffset dataOffset
    unfold maxEntries at hi
    simp [diskEntrySize]
    omega
  obtain ⟨w2, hw, hstored⟩ := blkWrite_ok _ (hacc.mono hlen) (DiskEntry.encode_ne _)
  rw [hrec, hw]
  exact ⟨rfl, hstored.inst.trans hinst, hacc.of_stored hstored⟩

/-! ## Formatting -/

structure Formatted (env : Env) (v v' : Volume) (role blkdevId baseOffset : Nat) : Prop where
  wf : v'.Wf env
  inst : v'.inst = (v.stageFormat role blkdevId baseOffset).inst
  mem : v'.mem = v.mem
  devices : SameDevices v.blk v'.blk
  inside : ∀ id a, (v'.blk.devs id).data a ≠ (v.blk.devs id).data a →
    id = blkdevId ∧ baseOffset ≤ a ∧ a < baseOffset + v'.activeStorageSize env

lemma addressable_of_storage (h : dataOffset ≤ v.activeStorageSize env) :
    v.Addressable 0 dataOffset := by
  obtain ⟨-, -, hle⟩ := activeStorageSize_le env v (by unfold dataOffset at h; omega)
  have := (v.blk.devs v.inst.blkdevId).size_lt
  unfold Addressable
  omega

lemma usable_of_blkWrite (plan : IoPlan) (v : Volume) (off : Nat) {data : List UInt8}
    (hne : data ≠ []) (h : (v.blkWrite plan off data).1 = true) : Usable v.blk v.inst.blkdevId :=
  usable_of_blkdevWrite hne h

lemma fillSuperblock_ne : fillSuperblock.encode ≠ [] :=
  List.ne_nil_of_length_pos (by simp [superblockSize])

/-- A volume with a superblock and a table of free slots stored on its device. -/
lemma wf_of_blank (env : Env) {v1 v2 : Volume} (hblank : v.inst.entries = fun _ => Entry.zero)
    (hb : v.inst.blockBacked = true) (hm : v.inst.mounted = true)
    (hversion : v.inst.formatVersion = aosfsVersion) (hlimit : v.inst.entryLimit = maxEntries)
    (hnext : v.inst.nextDataOffset = dataOffset) (hstorage : dataOffset ≤ v.activeStorageSize env)
    (hu : Usable v.blk v.inst.blkdevId) (h1 : Stored v v1 0 fillSuperblock.encode)
    (h2 : Stored v1 v2 tableOffset (tableBytes v.inst.entries maxEntries)) : v2.Wf env := by
  have hinst : v2.inst = v.inst := h2.inst.trans h1.inst
  have hdev : SameDevices v.blk v2.blk := h1.sameDevices.trans h2.sameDevices
  have hsize : v2.activeStorageSize env = v.activeStorageSize env :=
    activeStorageSize_congr hdev (by rw [hinst]) (by rw [hinst]) (by rw [hinst])
  have hzero : ∀ i, v2.inst.entries i = Entry.zero := by
    intro i
    rw [hinst, hblank]
  refine ⟨⟨?_, ?_, ?_, ?_, ?_⟩, fun _ => ⟨?_, ?_, ?_, ?_, ?_, ?_, ?_, ?_⟩, ?_⟩
  · rwa [hinst]
  · rwa [hinst]
  · intro i
    rw [hzero]
    exact Entry.Ok.zero
  · intro i _
    exact hzero i
  · intro i j hi
    rw [hzero] at hi
    exact absurd hi (by decide)
  · rwa [hinst]
  · rw [hinst]
    exact hu.of_sameDevices hdev
  · rwa [hsize]
  · have hnone : (fun i => (v2.inst.entries i).extent) = fun _ => none := by
      funext i
      rw [hzero]
      rfl
    rw [hnone, hinst, hnext]
    exact Packed.empty le_rfl
  · rwa [hinst, hnext, hsize]
  · intro i
    rw [hzero]
    exact le_rfl
  · rw [h2.bytes, slice_patch_disjoint _ (.inl (by decide)), h1.bytes]
    have hself := slice_patch_self v.bytes 0 fillSuperblock.encode
    rw [Superblock.encode_length] at hself
    rw [hself, decode_fillSuperblock]
  · intro i hi
    rw [h2.bytes, slice_patch_part _ _ (by rw [tableBytes_length]; unfold diskEntrySize; omega),
      tableBytes_record _ hi, hinst]
  · intro hb'
    rw [hinst, hb] at hb'
    exact absurd hb' (by simp)

theorem formatRole_spec {plan : IoPlan}
    (h : v.formatRole plan env role blkdevId baseOffset = (true, v')) :
    Formatted env v v' role blkdevId baseOffset := by
  unfold formatRole at h
  split at h
  · simp at h
  dsimp only at h
  split at h
  · simp at h
  next hstorage =>
  rw [not_lt] at hstorage
  generalize hv0 : v.stageFormat role blkdevId baseOffset = v0 at h hstorage
  have hinst0 : v0.inst = (v.stageFormat role blkdevId baseOffset).inst := by rw [hv0]
  have hb : v0.inst.blockBacked = true := by rw [hinst0]; rfl
  have ha := addressable_of_storage hstorage
  have hsuper : v0.syncSuperblock plan = v0.blkWrite plan 0 fillSuperblock.encode := by
    unfold syncSuperblock
    rw [if_neg (by simp [hb])]
  rw [hsuper] at h
  have hpost := blkWrite_post plan v0 0
    (ha.mono (by simp [superblockSize, dataOffset])) fillSuperblock_ne
  have husable := usable_of_blkWrite plan v0 0 fillSuperblock_ne
  rcases hr : v0.blkWrite plan 0 fillSuperblock.encode with ⟨flag, v1⟩
  rw [hr] at h hpost husable
  cases flag with
  | false => simp at h
  | true =>
  have h1 := hpost.1 rfl
  simp only at h h1
  have hpost2 := syncAllEntries_post plan (w := v1) (by rw [h1.inst]; exact hb)
    (by rw [h1.inst, hinst0]; rfl) (ha.of_inst h1.inst)
  rw [h] at hpost2
  have h2 := hpost2.1 rfl
  rw [h1.inst] at h2
  have hwf := wf_of_blank env (by rw [hinst0]; rfl) hb (by rw [hinst0]; rfl)
    (by rw [hinst0]; rfl) (by rw [hinst0]; rfl) (by rw [hinst0]; rfl) hstorage (husable rfl) h1 h2
  have hblk : v0.blk = v.blk := by rw [← hv0]; rfl
  have hsize : v'.activeStorageSize env = v0.activeStorageSize env :=
    activeStorageSize_congr (h1.sameDevices.trans h2.sameDevices) (by rw [h2.inst, h1.inst])
      (by rw [h2.inst, h1.inst]) (by rw [h2.inst, h1.inst])
  refine ⟨hwf, by rw [h2.inst, h1.inst, hinst0], ?_, ?_, ?_⟩
  · rw [h2.mem, h1.mem, ← hv0]
    rfl
  · rw [← hblk]
    exact h1.sameDevices.trans h2.sameDevices
  · intro id a hne
    rw [← hblk] at hne
    have hplace : v0.inst.blkdevId = blkdevId ∧ v0.inst.baseOffset = baseOffset := by
      rw [hinst0]
      exact ⟨rfl, rfl⟩
    unfold dataOffset at hstorage
    by_cases hfirst : (v1.blk.devs id).data a = (v0.blk.devs id).data a
    · obtain ⟨hid, hlo, hhi⟩ := h2.inside (by rw [hfirst]; exact hne)
      rw [h1.inst, hplace.1] at hid
      rw [h1.inst, hplace.2] at hlo hhi
      simp only [tableBytes_length, tableOffset, maxEntries, diskEntrySize] at hlo hhi
      exact ⟨hid, by omega, by omega⟩
    · obtain ⟨hid, hlo, hhi⟩ := h1.inside hfirst
      rw [hplace.1] at hid
      simp only [Superblock.encode_length, superblockSize] at hhi
      exact ⟨hid, by omega, by omega⟩

lemma formatRole_ok (hu : Usable v.blk blkdevId)
    (hstorage : dataOffset ≤ (v.stageFormat role blkdevId baseOffset).activeStorageSize env) :
    (v.formatRole .faultless env role blkdevId baseOffset).1 = true := by
  have hget := blkdevGet_eq_some hu.id_lt hu.inUse
  unfold formatRole
  rw [if_neg (by rw [hget]; simp)]
  rw [if_neg (by omega)]
  generalize hv0 : v.stageFormat role blkdevId baseOffset = v0 at hstorage
  have hinst : v0.inst = (v.stageFormat role blkdevId baseOffset).inst := by rw [hv0]
  have hb : v0.inst.blockBacked = true := by rw [hinst]; rfl
  have hacc : v0.Accessible 0 dataOffset := by
    obtain ⟨-, -, hle⟩ := activeStorageSize_le env v0 (by unfold dataOffset at hstorage; omega)
    refine ⟨?_, by omega⟩
    rw [hinst, ← hv0]
    exact hu
  have hsuper : v0.syncSuperblock .faultless = v0.blkWrite .faultless 0 fillSuperblock.encode := by
    unfold syncSuperblock
    rw [if_neg (by simp [hb])]
  obtain ⟨v1, hw, hstored⟩ := blkWrite_ok 0
    (hacc.mono (by simp [superblockSize, dataOffset])) fillSuperblock_ne
  rw [hsuper, hw]
  exact syncAllEntries_ok (by rw [hstored.inst]; exact hb) (by rw [hstored.inst, hinst]; rfl)
    (hacc.of_stored hstored)

end Volume

open Vfs

/-! ## A volume as a map from paths to contents -/

def resized (n : Nat) (c : List UInt8) : List UInt8 := c.take n ++ zeroBytes (n - c.length)

/-- Zero-extend to `offset` if needed, and overwrite from there. -/
def written (offset : Nat) (data c : List UInt8) : List UInt8 :=
  splice (c ++ zeroBytes (offset - c.length)) offset data

/-- A read of `len` bytes at `offset`, `none` outside the contents. -/
def readContent (c : List UInt8) (offset len : Nat) : Option (List UInt8) :=
  if offset > c.length ∨ len > c.length - offset then none else some ((c.drop offset).take len)

/-- A write that starts inside the contents or at their end needs no zeros. -/
lemma written_of_le {offset : Nat} {data c : List UInt8} (h : offset ≤ c.length) :
    written offset data c = splice c offset data := by
  unfold written
  rw [show offset - c.length = 0 by omega]
  simp [zeroBytes]

namespace Volume

def file (v : Volume) (path : CString) : Option (List UInt8) :=
  match v.findEntry path with
  | none => none
  | some i => if (v.inst.entries i).kind = .directory then none else some (v.content i)

variable {env : Env} {v v' : Volume} {i : Nat} {e : Entry}

lemma readBytes_eq (v : Volume) (path : CString) (offset len : Nat) :
    v.readBytes path offset len = (v.file path).bind fun c => readContent c offset len := by
  unfold readBytes file
  cases v.findEntry path with
  | none => rfl
  | some i =>
    by_cases hk : (v.inst.entries i).kind = .directory
    · simp [hk]
    · simp [hk, readContent]

theorem readPath_file (hv : v.Wf env) (path : CString) (offset len : Nat) :
    (v.readPath .faultless path offset len).1 =
      (v.file path).bind fun c => readContent c offset len := by
  rw [(readPath_spec hv path offset len).1, readBytes_eq]

variable {path : CString}

lemma file_of_findEntry (hfind : v.findEntry path = some i)
    (hkind : (v.inst.entries i).kind ≠ .directory) : v.file path = some (v.content i) := by
  simp [file, hfind, hkind]

lemma file_congr (hv : v.Wf env) (hv' : v'.Wf env)
    (hentry : ∀ j, ((v.inst.entries j).inUse = true ∧ (v.inst.entries j).path = path) ∨
      ((v'.inst.entries j).inUse = true ∧ (v'.inst.entries j).path = path) → v'.inst.entries j =
      v.inst.entries j ∧ v'.content j = v.content j) : v'.file path = v.file path := by
  have hfind : v'.findEntry path = v.findEntry path := by
    cases h : v.findEntry path with
    | some j =>
      have hj := hv.findEntry_iff.1 h
      rw [hv'.findEntry_iff, (hentry j (.inl hj)).1]
      exact hj
    | none =>
      rw [hv'.findEntry_none_iff]
      intro j huse hpath
      obtain ⟨heq, -⟩ := hentry j (.inr ⟨huse, hpath⟩)
      rw [heq] at huse hpath
      exact hv.findEntry_none_iff.1 h j huse hpath
  unfold file
  rw [hfind]
  cases h : v.findEntry path with
  | none => rfl
  | some j =>
    obtain ⟨heq, hc⟩ := hentry j (.inl (hv.findEntry_iff.1 h))
    simp only [heq, hc]

/-- The slot `i` holds `path`, or is free and `path` is new. -/
def SlotFor (v : Volume) (i : Nat) (path : CString) : Prop :=
  v.findEntry path = some i ∨ (v.findEntry path = none ∧ (v.inst.entries i).inUse = false)

/-- An operation on the slot of `path` changes the file map at `path` only. -/
theorem Outcome.file_eq (h : Outcome env v v' i e) (hv : v.Wf env) (hslot : v.SlotFor i path)
    (hpath : e.inUse = true → e.path = path) :
    v'.file = Function.update v.file path
      (if e.inUse = true ∧ e.kind ≠ .directory then some (v'.content i) else none) := by
  funext q
  by_cases hq : q = path
  · subst hq
    cases huse : e.inUse with
    | true =>
      have hfind : v'.findEntry q = some i :=
        h.wf.findEntry_iff.2 ⟨by rw [h.entry]; exact huse, by rw [h.entry]; exact hpath huse⟩
      unfold file
      rw [hfind]
      by_cases hk : e.kind = .directory <;> simp [h.entry, hk]
    | false =>
      have hfind : v'.findEntry q = none := by
        rw [h.wf.findEntry_none_iff]
        intro j hj hjp
        by_cases hji : j = i
        · rw [hji, h.entry, huse] at hj
          exact absurd hj (by simp)
        rw [h.update.entries j hji] at hj hjp
        rcases hslot with hs | ⟨hs, -⟩
        · exact hji (Option.some.inj ((hv.findEntry_iff.2 ⟨hj, hjp⟩).symm.trans hs))
        · exact hv.findEntry_none_iff.1 hs j hj hjp
      simp [file, hfind]
  · rw [Function.update_of_ne hq]
    refine file_congr hv h.wf ?_
    intro j hj
    have hji : j ≠ i := by
      intro hji
      subst hji
      rcases hj with ⟨huse, hp⟩ | ⟨huse, hp⟩
      · rcases hslot with hs | ⟨-, hs⟩
        · exact hq (hp.symm.trans (findEntry_some hs).2.2)
        · rw [hs] at huse
          exact absurd huse (by simp)
      · rw [h.entry] at huse hp
        exact hq (hp.symm.trans (hpath huse))
    exact ⟨h.update.entries j hji, h.update.content hv hji⟩

end Volume

end AosKernel.Aosfs
