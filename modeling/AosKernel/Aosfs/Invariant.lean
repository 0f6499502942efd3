import AosKernel.Aosfs.Transfer
import AosKernel.Lib.Extents

/-!
# AOSFS: well-formed volumes

`Volume.Wf` is the invariant of a volume: a table of well-formed entries with distinct paths, and,
for a volume on a device, extents placed by the bump pointer inside the volume and a device that
mirrors the table. `Volume.Update env v v' i` says that a step from `v` to `v'` worked for slot `i`:
the device changed only in the record of the slot and in data cells that no other file owns. It
composes, and keeps the invariant when the slot itself is in order (`Wf.of_update`).
-/

namespace AosKernel.Aosfs

open Lib Lib.ByteStore Lib.Loop Block Function

/-! ## The invariant -/

/-- The extent of an entry in use that is not a directory. -/
def Entry.extent (e : Entry) : Option Extent :=
  if e.inUse = true ∧ e.kind ≠ .directory then some ⟨e.dataOffset, e.dataCapacity⟩ else none

lemma Entry.extent_some {e : Entry} {x : Extent} (h : e.extent = some x) :
    x = ⟨e.dataOffset, e.dataCapacity⟩ := by
  unfold Entry.extent at h
  split at h
  · exact (Option.some.inj h).symm
  · simp at h

/-- An entry as the operations leave it. -/
structure Entry.Ok (e : Entry) : Prop where
  unused : e.inUse = false → e = Entry.zero
  path_lt : e.path.length < pathMax
  mode_mask : e.mode &&& modeMask = e.mode
  size_le : e.size ≤ maxFileSize
  directory : e.kind = .directory → e.size = 0 ∧ e.dataOffset = 0 ∧ e.dataCapacity = 0
  empty : e.dataCapacity = 0 → e.dataOffset = 0

lemma Entry.Ok.zero : Entry.zero.Ok where
  unused := fun _ => rfl
  path_lt := by decide
  mode_mask := by decide
  size_le := by decide
  directory := by decide
  empty := by decide

lemma Entry.Ok.extent_eq {e : Entry} (h : e.Ok) (hne : e.size ≠ 0 ∨ e.dataCapacity ≠ 0) :
    e.extent = some ⟨e.dataOffset, e.dataCapacity⟩ := by
  unfold Entry.extent
  rw [if_pos]
  constructor
  · by_contra hu
    rw [h.unused (by simpa using hu)] at hne
    exact hne.elim (fun h0 => h0 rfl) (fun h0 => h0 rfl)
  · intro hd
    obtain ⟨h1, -, h2⟩ := h.directory hd
    exact hne.elim (fun h0 => h0 h1) (fun h0 => h0 h2)

namespace Volume

/-- The table of a volume of the current format. -/
structure Table (v : Volume) : Prop where
  version : v.inst.formatVersion = aosfsVersion
  limit : v.inst.entryLimit = maxEntries
  entry_ok : ∀ i, (v.inst.entries i).Ok
  beyond : ∀ i, maxEntries ≤ i → v.inst.entries i = Entry.zero
  distinct : ∀ i j, (v.inst.entries i).inUse = true → (v.inst.entries j).inUse = true →
    (v.inst.entries i).path = (v.inst.entries j).path → i = j

/-- A volume on a device: extents inside the volume, the device mirrors the table. -/
structure OnDisk (env : Env) (v : Volume) : Prop where
  mounted : v.inst.mounted = true
  usable : Usable v.blk v.inst.blkdevId
  storage_ge : dataOffset ≤ v.activeStorageSize env
  packed : Packed (fun i => (v.inst.entries i).extent) dataOffset v.inst.nextDataOffset
  next_le : v.inst.nextDataOffset ≤ v.activeStorageSize env
  size_le : ∀ i, (v.inst.entries i).size ≤ (v.inst.entries i).dataCapacity
  superblock : Superblock.decode (slice v.bytes 0 superblockSize) = fillSuperblock
  record : ∀ i < maxEntries, slice v.bytes (tableOffset + i * diskEntrySize) diskEntrySize =
    (diskEntryOf (v.inst.entries i)).encode

/-- A volume in memory: files lie in the slots that have a data area. -/
structure InMemory (v : Volume) : Prop where
  role_le : v.inst.role ≤ roleTrash
  slot_lt : ∀ i, (v.inst.entries i).inUse = true → (v.inst.entries i).kind ≠ .directory →
    i < memoryFileLimit
  size_le : ∀ i, (v.inst.entries i).size ≤ inlineCapacity

structure Wf (env : Env) (v : Volume) : Prop where
  table : v.Table
  onDisk : v.inst.blockBacked = true → v.OnDisk env
  inMemory : v.inst.blockBacked = false → v.InMemory

def dataStore (v : Volume) (i : Nat) : Store UInt8 :=
  if v.inst.blockBacked then fun o => v.bytes ((v.inst.entries i).dataOffset + o) else v.mem i

def content (v : Volume) (i : Nat) : List UInt8 := slice (v.dataStore i) 0 (v.inst.entries i).size

@[simp] lemma content_length (v : Volume) (i : Nat) :
    (v.content i).length = (v.inst.entries i).size := by
  simp [content]

/-! ## The storage of a volume -/

lemma activeStorageSize_le (env : Env) (v : Volume) (h : 0 < v.activeStorageSize env) :
    v.inst.blkdevId < blkdevMax ∧ (v.blk.devs v.inst.blkdevId).inUse = true ∧
      v.inst.baseOffset + v.activeStorageSize env ≤ (v.blk.devs v.inst.blkdevId).size := by
  unfold activeStorageSize at h ⊢
  split at h
  · simp at h
  next dev hdev =>
  obtain ⟨hid, huse, rfl⟩ := blkdevGet_some hdev
  refine ⟨hid, huse, ?_⟩
  by_cases hbase : v.inst.baseOffset ≥ (v.blk.devs v.inst.blkdevId).size
  · simp [hbase] at h
  simp only [hbase, if_false]
  split
  · split <;> omega
  · omega

variable {env : Env} {v : Volume}

variable {i : Nat} {v' : Volume}

lemma activeStorageSize_congr (hs : SameDevices v.blk v'.blk)
    (hid : v'.inst.blkdevId = v.inst.blkdevId) (hbase : v'.inst.baseOffset = v.inst.baseOffset)
    (hrole : v'.inst.role = v.inst.role) : v'.activeStorageSize env = v.activeStorageSize env := by
  obtain ⟨data, hdata⟩ := hs v.inst.blkdevId
  unfold activeStorageSize blkdevGet
  rw [hid, hbase, hrole, hdata]
  by_cases hc : v.inst.blkdevId ≥ blkdevMax ∨ (v.blk.devs v.inst.blkdevId).inUse = false
  · simp only [hc, if_true]
  · simp only [hc, if_false]

lemma OnDisk.accessible (h : v.OnDisk env) (off len : Nat)
    (hle : off + len ≤ v.activeStorageSize env) : v.Accessible off len := by
  have hge := h.storage_ge
  obtain ⟨-, -, hsize⟩ := activeStorageSize_le env v (by unfold dataOffset at hge; omega)
  exact ⟨h.usable, by omega⟩

/-! ## Steps on one slot -/

/-- Data cells of the volume that belong to no slot but `i`, and the record of slot `i`. -/
def Own (env : Env) (v : Volume) (i o : Nat) : Prop :=
  (i < maxEntries ∧ tableOffset + i * diskEntrySize ≤ o ∧
      o < tableOffset + i * diskEntrySize + diskEntrySize) ∨
    (dataOffset ≤ o ∧ o < v.activeStorageSize env ∧
      ∀ j x, j ≠ i → (v.inst.entries j).extent = some x → ¬ x.Mem o)

/-- A step from `v` to `v'` that works for slot `i`. -/
structure Update (env : Env) (v v' : Volume) (i : Nat) : Prop where
  header : v'.inst = { v.inst with
    nextInode := v'.inst.nextInode
    nextDataOffset := v'.inst.nextDataOffset
    entries := v'.inst.entries }
  entries : ∀ j, j ≠ i → v'.inst.entries j = v.inst.entries j
  mem : ∀ j, j ≠ i → v'.mem j = v.mem j
  devices : SameDevices v.blk v'.blk
  own : ∀ id a, (v'.blk.devs id).data a ≠ (v.blk.devs id).data a →
    v.inst.blockBacked = true ∧ id = v.inst.blkdevId ∧
      ∃ o, a = v.inst.baseOffset + o ∧ v.Own env i o

namespace Update

variable {env : Env} {v v' v'' : Volume} {i : Nat}

section

variable (h : Update env v v' i)
include h

lemma blockBacked : v'.inst.blockBacked = v.inst.blockBacked := by
  rw [h.header]

lemma blkdevId : v'.inst.blkdevId = v.inst.blkdevId := by
  rw [h.header]

lemma baseOffset : v'.inst.baseOffset = v.inst.baseOffset := by
  rw [h.header]

lemma role : v'.inst.role = v.inst.role := by
  rw [h.header]

lemma storage : v'.activeStorageSize env = v.activeStorageSize env :=
  activeStorageSize_congr h.devices h.blkdevId h.baseOffset h.role

lemma own_iff (o : Nat) : v'.Own env i o ↔ v.Own env i o := by
  have hext : (∀ j x, j ≠ i → (v'.inst.entries j).extent = some x → ¬ x.Mem o) ↔
      ∀ j x, j ≠ i → (v.inst.entries j).extent = some x → ¬ x.Mem o := by
    constructor
    · intro hall j x hj hx
      exact hall j x hj (by rw [h.entries j hj]; exact hx)
    · intro hall j x hj hx
      exact hall j x hj (by rw [← h.entries j hj]; exact hx)
  unfold Own
  rw [h.storage, hext]

end

lemma refl (env : Env) (v : Volume) (i : Nat) : Update env v v i where
  header := rfl
  entries := fun _ _ => rfl
  mem := fun _ _ => rfl
  devices := SameDevices.refl _
  own := fun _ _ h => absurd rfl h

theorem trans (h : Update env v v' i) (h' : Update env v' v'' i) : Update env v v'' i where
  header := by rw [h'.header, h.header]
  entries := fun j hj => (h'.entries j hj).trans (h.entries j hj)
  mem := fun j hj => (h'.mem j hj).trans (h.mem j hj)
  devices := h.devices.trans h'.devices
  own := by
    intro id a hne
    by_cases hfirst : (v'.blk.devs id).data a = (v.blk.devs id).data a
    · obtain ⟨hb, hid, o, ho, hown⟩ := h'.own id a (by rw [hfirst]; exact hne)
      exact ⟨h.blockBacked ▸ hb, h.blkdevId ▸ hid, o, h.baseOffset ▸ ho, (h.own_iff o).1 hown⟩
    · exact h.own id a hfirst

theorem bytes (h : Update env v v' i) {o : Nat} (ho : ¬ v.Own env i o) :
    v'.bytes o = v.bytes o := by
  unfold Volume.bytes
  rw [h.blkdevId, h.baseOffset]
  by_contra hne
  obtain ⟨-, -, o', ho', hown⟩ := h.own _ _ hne
  obtain rfl : o' = o := by omega
  exact ho hown

theorem content (h : Update env v v' i) (hv : v.Wf env) {j : Nat} (hj : j ≠ i) :
    v'.content j = v.content j := by
  unfold Volume.content
  rw [h.entries j hj]
  by_cases hsize : (v.inst.entries j).size = 0
  · rw [hsize, slice_zero, slice_zero]
  have hext := (hv.table.entry_ok j).extent_eq (.inl hsize)
  cases hb : v.inst.blockBacked with
  | false =>
    unfold dataStore
    rw [h.blockBacked, hb]
    simp [h.mem j hj]
  | true =>
    have hd := hv.onDisk hb
    have hle := hd.size_le j
    unfold dataStore
    rw [h.blockBacked, hb, h.entries j hj]
    apply slice_congr
    intro a _ ha
    apply h.bytes
    -- a cell of the extent of `j` is neither in the table nor free for `i`
    rintro (hrec | ⟨_, _, hfree⟩)
    · rcases hd.packed.within hext with h0 | ⟨hlo, -⟩
      · simp only at h0
        omega
      unfold tableOffset diskEntrySize maxEntries at hrec
      unfold dataOffset at hlo
      simp only at hlo
      omega
    · exact hfree j _ hj hext ⟨by simp, by simp only; omega⟩

/-! ### Steps that are updates -/

lemma of_stored {off : Nat} {data : List UInt8} (hb : v.inst.blockBacked = true)
    (h : Stored v v' off data)
    (hown : ∀ o, off ≤ o → o < off + data.length → v.Own env i o) : Update env v v' i where
  header := by rw [h.inst]
  entries := fun j _ => by rw [h.inst]
  mem := fun j _ => by rw [h.mem]
  devices := h.sameDevices
  own := by
    intro id a hne
    obtain ⟨hid, hlo, hhi⟩ := h.inside hne
    exact ⟨hb, hid, a - v.inst.baseOffset, by omega, hown _ (by omega) (by omega)⟩

lemma setEntry (env : Env) (v : Volume) (i : Nat) (e : Entry) :
    Update env v (v.setEntry i e) i where
  header := rfl
  entries := fun _ hj => update_of_ne hj _ _
  mem := fun _ _ => rfl
  devices := SameDevices.refl _
  own := fun _ _ h => absurd rfl h

lemma setNextDataOffset (env : Env) (v : Volume) (i n : Nat) :
    Update env v (v.setNextDataOffset n) i where
  header := rfl
  entries := fun _ _ => rfl
  mem := fun _ _ => rfl
  devices := SameDevices.refl _
  own := fun _ _ h => absurd rfl h

lemma setNextInode (env : Env) (v : Volume) (i : Nat) (n : UInt64) :
    Update env v (v.setNextInode n) i where
  header := rfl
  entries := fun _ _ => rfl
  mem := fun _ _ => rfl
  devices := SameDevices.refl _
  own := fun _ _ h => absurd rfl h

lemma setMem (env : Env) (v : Volume) (i : Nat) (data : Store UInt8) :
    Update env v (v.setMem i data) i where
  header := rfl
  entries := fun _ _ => rfl
  mem := fun _ hj => update_of_ne hj _ _
  devices := SameDevices.refl _
  own := fun _ _ h => absurd rfl h

lemma accessible (h : Update env v v' i) (hd : v.OnDisk env) (off len : Nat)
    (hle : off + len ≤ v.activeStorageSize env) : v'.Accessible off len :=
  (hd.accessible off len hle).of_sameDevices ⟨h.blkdevId, h.baseOffset⟩ h.devices

end Update

/-! ## Keeping the invariant -/

/-- What slot `i` needs after an update for the volume to be well-formed. -/
structure SlotOk (env : Env) (v v' : Volume) (i : Nat) : Prop where
  entry : (v'.inst.entries i).Ok
  distinct : ∀ j, j ≠ i → (v'.inst.entries i).inUse = true → (v.inst.entries j).inUse = true →
    (v.inst.entries j).path ≠ (v'.inst.entries i).path
  packed : v.inst.blockBacked = true →
    Packed (update (fun j => (v.inst.entries j).extent) i (v'.inst.entries i).extent)
      dataOffset v'.inst.nextDataOffset
  next_le : v.inst.blockBacked = true → v'.inst.nextDataOffset ≤ v.activeStorageSize env
  size_le : v.inst.blockBacked = true → (v'.inst.entries i).size ≤ (v'.inst.entries i).dataCapacity
  record : v.inst.blockBacked = true →
    slice v'.bytes (tableOffset + i * diskEntrySize) diskEntrySize =
      (diskEntryOf (v'.inst.entries i)).encode
  slot : v.inst.blockBacked = false → (v'.inst.entries i).inUse = true →
    (v'.inst.entries i).kind ≠ .directory → i < memoryFileLimit
  inline : v.inst.blockBacked = false → (v'.inst.entries i).size ≤ inlineCapacity

/-- The record of another slot and the superblock are not cells of slot `i`. -/
lemma not_own_of_table {o : Nat} (ho : o < dataOffset)
    (hrec : o < tableOffset + i * diskEntrySize ∨ tableOffset + i * diskEntrySize + diskEntrySize ≤
      o) : ¬ v.Own env i o := by
  rintro (⟨-, h1, h2⟩ | ⟨h1, -, -⟩) <;> omega

theorem Wf.of_update (hv : v.Wf env) (hi : i < maxEntries) (hu : Update env v v' i)
    (hs : SlotOk env v v' i) : v'.Wf env where
  table := by
    refine ⟨?_, ?_, ?_, ?_, ?_⟩
    · rw [hu.header]
      exact hv.table.version
    · rw [hu.header]
      exact hv.table.limit
    · intro j
      by_cases hj : j = i
      · exact hj ▸ hs.entry
      · rw [hu.entries j hj]
        exact hv.table.entry_ok j
    · intro j hj
      rw [hu.entries j (by omega)]
      exact hv.table.beyond j hj
    · intro j k hj hk hpath
      by_cases hji : j = i
      · by_cases hki : k = i
        · rw [hji, hki]
        · subst hji
          rw [hu.entries k hki] at hk hpath
          exact absurd hpath.symm (hs.distinct k hki hj hk)
      · rw [hu.entries j hji] at hj hpath
        by_cases hki : k = i
        · subst hki
          exact absurd hpath (hs.distinct j hji hk hj)
        · rw [hu.entries k hki] at hk hpath
          exact hv.table.distinct j k hj hk hpath
  onDisk := by
    intro hb'
    have hb : v.inst.blockBacked = true := hu.blockBacked ▸ hb'
    have hd := hv.onDisk hb
    refine ⟨?_, ?_, ?_, ?_, ?_, ?_, ?_, ?_⟩
    · rw [hu.header]
      exact hd.mounted
    · rw [hu.blkdevId]
      exact hd.usable.of_sameDevices hu.devices
    · rw [hu.storage]
      exact hd.storage_ge
    · have hext : (fun j => (v'.inst.entries j).extent) =
          update (fun j => (v.inst.entries j).extent) i (v'.inst.entries i).extent := by
        funext j
        by_cases hj : j = i
        · rw [hj, update_self]
        · rw [update_of_ne hj, hu.entries j hj]
      rw [hext]
      exact hs.packed hb
    · rw [hu.storage]
      exact hs.next_le hb
    · intro j
      by_cases hj : j = i
      · exact hj ▸ hs.size_le hb
      · rw [hu.entries j hj]
        exact hd.size_le j
    · have hslice : slice v'.bytes 0 superblockSize = slice v.bytes 0 superblockSize := by
        apply slice_congr
        intro a _ ha
        unfold superblockSize at ha
        exact hu.bytes (not_own_of_table (by unfold dataOffset; omega)
          (.inl (by unfold tableOffset; omega)))
      rw [hslice]
      exact hd.superblock
    · intro j hj
      by_cases hji : j = i
      · exact hji ▸ hs.record hb
      rw [hu.entries j hji, ← hd.record j hj]
      apply slice_congr
      intro a h1 h2
      unfold tableOffset diskEntrySize at h1 h2
      unfold maxEntries at hj
      refine hu.bytes (not_own_of_table (by unfold dataOffset; omega) ?_)
      unfold tableOffset diskEntrySize
      omega
  inMemory := by
    intro hb'
    have hb : v.inst.blockBacked = false := hu.blockBacked ▸ hb'
    have hm := hv.inMemory hb
    refine ⟨?_, ?_, ?_⟩
    · rw [hu.role]
      exact hm.role_le
    · intro j
      by_cases hj : j = i
      · exact hj ▸ hs.slot hb
      · rw [hu.entries j hj]
        exact hm.slot_lt j
    · intro j
      by_cases hj : j = i
      · exact hj ▸ hs.inline hb
      · rw [hu.entries j hj]
        exact hm.size_le j

/-- What `sync_entry` leaves in a volume reached from `v` by an update of slot `i`. -/
structure Synced (env : Env) (v w v' : Volume) (i : Nat) : Prop where
  inst : v'.inst = w.inst
  mem : v'.mem = w.mem
  update : Update env v v' i
  bytes : ∀ o, dataOffset ≤ o → v'.bytes o = w.bytes o
  record : v.inst.blockBacked = true →
    slice v'.bytes (tableOffset + i * diskEntrySize) diskEntrySize =
      (diskEntryOf (w.inst.entries i)).encode

lemma syncEntry_ok {w : Volume} (hv : v.Wf env) (hi : i < maxEntries) (hu : Update env v w i) :
    ∃ w', w.syncEntry .faultless i = (true, w') ∧ Synced env v w w' i := by
  have hlimit : w.inst.entryLimit = maxEntries := by
    rw [hu.header]
    exact hv.table.limit
  unfold syncEntry
  cases hb : w.inst.blockBacked with
  | false =>
    refine ⟨w, rfl, rfl, rfl, hu, fun _ _ => rfl, ?_⟩
    rw [← hu.blockBacked, hb]
    intro h
    exact absurd h (by simp)
  | true =>
    rw [if_neg (by simp [hlimit, hi])]
    have hbv : v.inst.blockBacked = true := hu.blockBacked ▸ hb
    have hd := hv.onDisk hbv
    have hge := hd.storage_ge
    have hlen : tableOffset + i * diskEntrySize + diskEntrySize ≤ dataOffset := by
      unfold tableOffset diskEntrySize dataOffset
      unfold maxEntries at hi
      omega
    obtain ⟨w', hw, hstored⟩ := blkWrite_ok (tableOffset + i * diskEntrySize)
      (hu.accessible hd _ (diskEntryOf (w.inst.entries i)).encode.length (by simp; omega))
      (DiskEntry.encode_ne _)
    refine ⟨w', hw, hstored.inst, hstored.mem, hu.trans (.of_stored hb hstored ?_), ?_, ?_⟩
    · intro o h1 h2
      rw [DiskEntry.encode_length] at h2
      exact .inl ⟨hi, h1, h2⟩
    · intro o ho
      rw [hstored.bytes]
      exact patch_outside _ (by simp; omega)
    · intro _
      rw [hstored.bytes]
      have := slice_patch_self w.bytes (tableOffset + i * diskEntrySize)
        (diskEntryOf (w.inst.entries i)).encode
      rwa [DiskEntry.encode_length] at this

end Volume

end AosKernel.Aosfs
