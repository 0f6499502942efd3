import AosKernel.Lib.ByteStore
import AosKernel.Lib.Loop
import AosKernel.Lib.LittleEndian

/-!
# The block layer

Model of `kernel/blkdev.c`: a table of block devices, `blkdev_get`, `blkdev_read` and
`blkdev_write`. A memory device is copied directly; a device with driver operations is read and
written one sector at a time, a write being a read, an update and a write back of each sector it
touches. An `IoPlan` decides which driver calls fail, by their number. A transfer that fails may
have stored a prefix of its bytes. -/

namespace AosKernel.Block

open Lib.ByteStore Function
open Lib.Loop

def blkdevMax : Nat := 16

/-- Bytes of the sector buffer of `blkdev_read` and `blkdev_write`. -/
def sectorBufferSize : Nat := 512

/-- A registered block device. `data` is the medium: the memory behind a memory device, the sectors
behind a driver. Sizes come from `blkdev_register_memory`, whose bounds have 32 bits, and from the
ATA driver, which registers a 32-bit number of 512-byte sectors. -/
structure Blkdev where
  inUse : Bool
  readOnly : Bool
  hasOps : Bool
  hasWriteBlocks : Bool
  blockSize : Nat
  blockSize_pos : 0 < blockSize
  size : Nat
  -- the field has 64 bits; 2 ^ 32 sectors of 512 bytes are the most that is ever registered
  size_lt : size < 2 ^ 41
  data : Store UInt8

/-- Which driver calls fail: `readFails n` for the `n`-th `read_blocks` call, `writeFails n` for the
`n`-th `write_blocks` call. -/
structure IoPlan where
  readFails : Nat → Bool
  writeFails : Nat → Bool

def IoPlan.faultless : IoPlan := ⟨fun _ => false, fun _ => false⟩

/-- The device table and the numbers of driver calls made so far. -/
structure BlockLayer where
  devs : Nat → Blkdev
  reads : Nat
  writes : Nat

def blkdevGet (b : BlockLayer) (id : Nat) : Option Blkdev :=
  if id ≥ blkdevMax ∨ (b.devs id).inUse = false then none else some (b.devs id)

/-- The sector loop of `blkdev_read`, with the number of driver reads made so far. -/
def readSectors (plan : IoPlan) (dev : Blkdev) :
    Nat → Nat → Nat → Nat → Option (List UInt8) × Nat
  | 0, calls, _, _ => (some [], calls)
  | fuel + 1, calls, offset, len =>
      if len = 0 then (some [], calls)
      else
        let lba := offset / dev.blockSize
        let sectorOffset := offset % dev.blockSize
        let chunk := min (dev.blockSize - sectorOffset) len
        if dev.blockSize > sectorBufferSize then (none, calls)
        else if plan.readFails calls then (none, calls + 1)
        else
          let sector := slice dev.data (lba * dev.blockSize) dev.blockSize
          match readSectors plan dev fuel (calls + 1) (offset + chunk) (len - chunk) with
          | (some rest, calls') => (some ((sector.drop sectorOffset).take chunk ++ rest), calls')
          | (none, calls') => (none, calls')

def blkdevRead (plan : IoPlan) (b : BlockLayer) (id offset len : Nat) :
    Option (List UInt8) × BlockLayer :=
  match blkdevGet b id with
  | none => (none, b)
  | some dev =>
      if offset > dev.size ∨ len > dev.size - offset then (none, b)
      else if dev.hasOps then
        let r := readSectors plan dev len b.reads offset len
        (r.1, { b with reads := r.2 })
      else (some (slice dev.data offset len), b)

/-- The medium and the driver call counters during the sector loop of `blkdev_write`. -/
structure SectorState where
  data : Store UInt8
  reads : Nat
  writes : Nat

def writeSectors (plan : IoPlan) (blockSize : Nat) :
    Nat → SectorState → Nat → List UInt8 → Bool × SectorState
  | 0, t, _, _ => (true, t)
  | fuel + 1, t, offset, buffer =>
      if buffer.length = 0 then (true, t)
      else
        let lba := offset / blockSize
        let sectorOffset := offset % blockSize
        let chunk := min (blockSize - sectorOffset) buffer.length
        if blockSize > sectorBufferSize then (false, t)
        else if plan.readFails t.reads then (false, { t with reads := t.reads + 1 })
        else
          let sector := splice (slice t.data (lba * blockSize) blockSize) sectorOffset
            (buffer.take chunk)
          if plan.writeFails t.writes then
            (false, { t with reads := t.reads + 1, writes := t.writes + 1 })
          else
            writeSectors plan blockSize fuel
              ⟨patch t.data (lba * blockSize) sector, t.reads + 1, t.writes + 1⟩
              (offset + chunk) (buffer.drop chunk)

def BlockLayer.setData (b : BlockLayer) (id : Nat) (data : Store UInt8) : BlockLayer :=
  { b with devs := update b.devs id { b.devs id with data := data } }

def blkdevWrite (plan : IoPlan) (b : BlockLayer) (id offset : Nat) (buffer : List UInt8) :
    Bool × BlockLayer :=
  match blkdevGet b id with
  | none => (false, b)
  | some dev =>
      if dev.readOnly then (false, b)
      else if offset > dev.size ∨ buffer.length > dev.size - offset then (false, b)
      else if dev.hasOps then
        if dev.hasWriteBlocks = false then (false, b)
        else
          let r := writeSectors plan dev.blockSize buffer.length ⟨dev.data, b.reads, b.writes⟩
            offset buffer
          (r.1, { b.setData id r.2.data with reads := r.2.reads, writes := r.2.writes })
      else (true, b.setData id (patch dev.data offset buffer))

/-! ## Devices -/

/-- A device that `blkdev_read` and `blkdev_write` accept, up to the range check and driver
errors. -/
structure Usable (b : BlockLayer) (id : Nat) : Prop where
  id_lt : id < blkdevMax
  inUse : (b.devs id).inUse = true
  writable : (b.devs id).readOnly = false
  driver : (b.devs id).hasOps = true →
    (b.devs id).hasWriteBlocks = true ∧ (b.devs id).blockSize ≤ sectorBufferSize

/-- The two layers hold the same devices up to the media. -/
def SameDevices (b b' : BlockLayer) : Prop :=
  ∀ id, ∃ data, b'.devs id = { b.devs id with data := data }

lemma SameDevices.refl (b : BlockLayer) : SameDevices b b := fun id => ⟨(b.devs id).data, rfl⟩

variable {b b' : BlockLayer}

theorem SameDevices.trans {b'' : BlockLayer} (h : SameDevices b b') (h' : SameDevices b' b'') :
    SameDevices b b'' := by
  intro id
  obtain ⟨d, hd⟩ := h id
  obtain ⟨d', hd'⟩ := h' id
  exact ⟨d', by rw [hd', hd]⟩

lemma SameDevices.size_eq (h : SameDevices b b') (id : Nat) :
    (b'.devs id).size = (b.devs id).size := by
  obtain ⟨d, hd⟩ := h id
  rw [hd]

variable {id : Nat}

lemma Usable.of_sameDevices (h : Usable b id) (hs : SameDevices b b') : Usable b' id := by
  obtain ⟨d, hd⟩ := hs id
  obtain ⟨h1, h2, h3, h4⟩ := h
  refine ⟨h1, ?_, ?_, ?_⟩ <;> rw [hd] <;> assumption

lemma blkdevGet_eq_some (hid : id < blkdevMax) (hu : (b.devs id).inUse = true) :
    blkdevGet b id = some (b.devs id) := by
  unfold blkdevGet
  rw [hu]
  simp
  exact hid

lemma blkdevGet_some {dev : Blkdev} (h : blkdevGet b id = some dev) :
    id < blkdevMax ∧ dev.inUse = true ∧ dev = b.devs id := by
  unfold blkdevGet at h
  split at h
  · simp at h
  next hc =>
  simp only [not_or, Bool.not_eq_false, not_le, ge_iff_le] at hc
  cases h
  exact ⟨hc.1, hc.2, rfl⟩

lemma sameDevices_setData (b : BlockLayer) (id : Nat) (data : Store UInt8) :
    SameDevices b (b.setData id data) := by
  intro j
  by_cases h : j = id
  · subst h
    exact ⟨data, by simp [BlockLayer.setData]⟩
  · exact ⟨(b.devs j).data, by simp [BlockLayer.setData, update_of_ne h]⟩

@[simp] lemma setData_self (b : BlockLayer) (id : Nat) (data : Store UInt8) :
    ((b.setData id data).devs id).data = data := by
  simp [BlockLayer.setData]

lemma setData_other (b : BlockLayer) {j : Nat} (data : Store UInt8) (h : j ≠ id) :
    (b.setData id data).devs j = b.devs j := by
  simp [BlockLayer.setData, update_of_ne h]

/-! ## The sector loops -/

section Sectors

variable {plan : IoPlan}

lemma sector_part (data : Store UInt8) (blockSize offset : Nat) {n : Nat}
    (hn : n ≤ blockSize - offset % blockSize) (hb : 0 < blockSize) :
    ((slice data (offset / blockSize * blockSize) blockSize).drop (offset % blockSize)).take n =
      slice data offset n := by
  have hmod := Nat.mod_lt offset hb
  rw [take_drop_slice data _ (by omega), Nat.div_add_mod']

/-- Writing back a sector with `chunk` spliced in stores `chunk` at its own offset. -/
lemma sector_update (data : Store UInt8) (blockSize offset : Nat) {chunk : List UInt8}
    (hn : chunk.length ≤ blockSize - offset % blockSize) (hb : 0 < blockSize) :
    patch data (offset / blockSize * blockSize) (splice
        (slice data (offset / blockSize * blockSize) blockSize) (offset % blockSize) chunk) =
      patch data offset chunk := by
  have hmod := Nat.mod_lt offset hb
  have hdiv := Nat.div_add_mod' offset blockSize
  rw [← slice_patch_inside data _ (by omega), hdiv]
  funext a
  by_cases hin : offset / blockSize * blockSize ≤ a ∧ a < offset / blockSize * blockSize + blockSize
  · obtain ⟨i, rfl⟩ : ∃ i, a = offset / blockSize * blockSize + i :=
      ⟨a - offset / blockSize * blockSize, by omega⟩
    rw [patch_inside data (by simp; omega), slice_getElem]
  · rw [patch_outside data (by simp; omega), patch_outside data (by omega)]

variable {dev : Blkdev} {blockSize : Nat}

lemma readSectors_some :
    ∀ (fuel calls offset len : Nat) (bytes : List UInt8), len ≤ fuel →
      (readSectors plan dev fuel calls offset len).1 = some bytes →
        bytes = slice dev.data offset len := by
  intro fuel
  induction fuel with
  | zero =>
    intro calls offset len bytes hlen h
    obtain rfl : len = 0 := by omega
    simpa [readSectors] using h.symm
  | succ fuel ih =>
    intro calls offset len bytes hlen h
    unfold readSectors at h
    have hb := dev.blockSize_pos
    have hmod := Nat.mod_lt offset hb
    by_cases h0 : len = 0
    · subst h0
      simpa using h.symm
    simp only [h0, if_false] at h
    generalize hc : min (dev.blockSize - offset % dev.blockSize) len = chunk at h
    split at h
    · simp at h
    split at h
    · simp at h
    cases hrest : readSectors plan dev fuel (calls + 1) (offset + chunk) (len - chunk) with
    | mk rest calls' =>
      cases rest with
      | none => simp [hrest] at h
      | some rest =>
      have hrest' := ih (calls + 1) (offset + chunk) (len - chunk) rest (by omega) (by rw [hrest])
      simp only [hrest, Option.some.injEq] at h
      rw [← h, hrest', sector_part dev.data dev.blockSize offset (by omega) hb, ← slice_append]
      congr 1
      omega

lemma readSectors_isSome (hplan : ∀ n, plan.readFails n = false)
    (hbs : dev.blockSize ≤ sectorBufferSize) :
    ∀ fuel calls offset len : Nat, ((readSectors plan dev fuel calls offset len).1).isSome := by
  intro fuel
  induction fuel with
  | zero =>
    intro calls offset len
    rfl
  | succ fuel ih =>
    intro calls offset len
    unfold readSectors
    simp only [hplan, Bool.false_eq_true, if_false, gt_iff_lt, not_lt.2 hbs]
    split
    · rfl
    next h0 =>
    have hrest := ih (calls + 1)
      (offset + min (dev.blockSize - offset % dev.blockSize) len)
      (len - min (dev.blockSize - offset % dev.blockSize) len)
    split
    · rfl
    · next hr =>
      rw [hr] at hrest
      simp at hrest

/-- A completed sector loop has stored its buffer; a loop that fails has stored a prefix of it. -/
lemma writeSectors_post (plan : IoPlan) (hb : 0 < blockSize) :
    ∀ (fuel : Nat) (t : SectorState) (offset : Nat) (buffer : List UInt8), buffer.length ≤ fuel →
      Post (fun t' => t'.data = patch t.data offset buffer)
        (fun t' => ∃ m ≤ buffer.length, t'.data = patch t.data offset (buffer.take m))
        (writeSectors plan blockSize fuel t offset buffer) := by
  intro fuel
  induction fuel with
  | zero =>
    intro t offset buffer hlen
    obtain rfl : buffer = [] := List.length_eq_zero_iff.1 (by omega)
    exact post_true (by simp)
  | succ fuel ih =>
    intro t offset buffer hlen
    unfold writeSectors
    by_cases h0 : buffer.length = 0
    · obtain rfl : buffer = [] := List.length_eq_zero_iff.1 h0
      exact post_true (by simp)
    simp only [h0, if_false]
    have hmod := Nat.mod_lt offset hb
    generalize hc : min (blockSize - offset % blockSize) buffer.length = chunk
    have hchunk : (buffer.take chunk).length = chunk := by
      rw [List.length_take]
      omega
    split
    · exact post_false ⟨0, Nat.zero_le _, by simp⟩
    split
    · exact post_false ⟨0, Nat.zero_le _, by simp⟩
    split
    · exact post_false ⟨0, Nat.zero_le _, by simp⟩
    have hstep : ∀ rest : List UInt8,
        patch (patch t.data (offset / blockSize * blockSize)
          (splice (slice t.data (offset / blockSize * blockSize) blockSize) (offset % blockSize)
            (buffer.take chunk))) (offset + chunk) rest =
          patch t.data offset (buffer.take chunk ++ rest) := by
      intro rest
      rw [sector_update t.data blockSize offset (by omega) hb, patch_append, hchunk]
    refine (ih _ (offset + chunk) (buffer.drop chunk) (by simp; omega)).mono ?_ ?_
    · intro t' ht'
      rw [ht', hstep, List.take_append_drop]
    · rintro t' ⟨m, hm, ht'⟩
      rw [List.length_drop] at hm
      refine ⟨chunk + m, by omega, ?_⟩
      rw [ht', hstep, List.take_add]

lemma writeSectors_faultless (hr : ∀ n, plan.readFails n = false)
    (hw : ∀ n, plan.writeFails n = false) (hbs : blockSize ≤ sectorBufferSize) :
    ∀ (fuel : Nat) (t : SectorState) (offset : Nat) (buffer : List UInt8),
      (writeSectors plan blockSize fuel t offset buffer).1 = true := by
  intro fuel
  induction fuel with
  | zero =>
    intro t offset buffer
    rfl
  | succ fuel ih =>
    intro t offset buffer
    unfold writeSectors
    simp only [hr, hw, Bool.false_eq_true, if_false, gt_iff_lt, not_lt.2 hbs]
    split
    · rfl
    · exact ih _ _ _

end Sectors

/-! ## Accesses -/

lemma blkdevRead_post (plan : IoPlan) (b : BlockLayer) (id offset len : Nat) :
    (blkdevRead plan b id offset len).2.devs = b.devs ∧
      (blkdevRead plan b id offset len).2.writes = b.writes := by
  unfold blkdevRead
  split
  · exact ⟨rfl, rfl⟩
  · split
    · exact ⟨rfl, rfl⟩
    · split <;> exact ⟨rfl, rfl⟩

variable {plan : IoPlan} {offset : Nat}

variable {buffer : List UInt8} {len : Nat}

/-- A successful read returns the bytes of the medium. -/
theorem blkdevRead_some {bytes : List UInt8}
    (h : (blkdevRead plan b id offset len).1 = some bytes) :
    bytes = slice (b.devs id).data offset len := by
  unfold blkdevRead at h
  split at h
  · simp at h
  next dev hdev =>
  obtain ⟨-, -, rfl⟩ := blkdevGet_some hdev
  split at h
  · simp at h
  · split at h
    · exact readSectors_some len b.reads offset len bytes le_rfl h
    · simpa using h.symm

/-- A read inside a device with a faithful driver succeeds. -/
theorem blkdevRead_ok (hid : id < blkdevMax) (hin : (b.devs id).inUse = true)
    (hd : (b.devs id).hasOps = true → (b.devs id).blockSize ≤ sectorBufferSize)
    (hr : offset + len ≤ (b.devs id).size) :
    (blkdevRead .faultless b id offset len).1 = some (slice (b.devs id).data offset len) := by
  have hsome : ((blkdevRead .faultless b id offset len).1).isSome := by
    unfold blkdevRead
    rw [blkdevGet_eq_some hid hin]
    simp only
    rw [if_neg (by omega)]
    split
    · next hops => exact readSectors_isSome (fun _ => rfl) (hd hops) _ _ _ _
    · rfl
  obtain ⟨bytes, hbytes⟩ := Option.isSome_iff_exists.1 hsome
  rw [hbytes, blkdevRead_some hbytes]

/-- What a write leaves behind: its bytes on success, a prefix of them on failure, and nothing
outside the medium of its device. -/
theorem blkdevWrite_post (plan : IoPlan) (b : BlockLayer) (id offset : Nat) (buffer : List UInt8) :
    Post (fun b' => b'.devs = (b.setData id (patch (b.devs id).data offset buffer)).devs)
      (fun b' => ∃ m ≤ buffer.length,
        b'.devs = (b.setData id (patch (b.devs id).data offset (buffer.take m))).devs)
      (blkdevWrite plan b id offset buffer) := by
  have hnone : ∃ m ≤ buffer.length,
      b.devs = (b.setData id (patch (b.devs id).data offset (buffer.take m))).devs :=
    ⟨0, Nat.zero_le _, by simp [BlockLayer.setData]⟩
  unfold blkdevWrite
  split
  · exact post_false hnone
  next dev hdev =>
  obtain ⟨-, -, rfl⟩ := blkdevGet_some hdev
  split
  · exact post_false hnone
  split
  · exact post_false hnone
  split
  · split
    · exact post_false hnone
    have hpost := writeSectors_post plan (b.devs id).blockSize_pos buffer.length
      ⟨(b.devs id).data, b.reads, b.writes⟩ offset buffer le_rfl
    constructor
    · intro hok
      have hdata := hpost.1 hok
      simp only at hdata ⊢
      rw [hdata]
    · intro hfail
      obtain ⟨m, hm, hdata⟩ := hpost.2 hfail
      refine ⟨m, hm, ?_⟩
      simp only at hdata ⊢
      rw [hdata]
  · exact post_true rfl

/-- A write inside a usable device with a faithful driver succeeds. -/
theorem blkdevWrite_ok (hu : Usable b id) (hlen : offset + buffer.length ≤ (b.devs id).size) :
    (blkdevWrite .faultless b id offset buffer).1 = true := by
  unfold blkdevWrite
  rw [blkdevGet_eq_some hu.id_lt hu.inUse]
  simp only [hu.writable, Bool.false_eq_true, if_false]
  rw [if_neg (by omega)]
  split
  · next hops =>
    obtain ⟨hwb, hbs⟩ := hu.driver hops
    simp only [hwb, Bool.true_eq_false, if_false]
    exact writeSectors_faultless (fun _ => rfl) (fun _ => rfl) hbs _ _ _ _
  · rfl

lemma usable_of_blkdevWrite (hne : buffer ≠ [])
    (h : (blkdevWrite plan b id offset buffer).1 = true) : Usable b id := by
  have hpos := List.length_pos_of_ne_nil hne
  unfold blkdevWrite at h
  split at h
  · simp at h
  next dev hdev =>
  obtain ⟨hid, huse, rfl⟩ := blkdevGet_some hdev
  split at h
  · simp at h
  next hro =>
  split at h
  · simp at h
  refine ⟨hid, huse, by simpa using hro, fun hops => ?_⟩
  rw [if_pos hops] at h
  split at h
  · simp at h
  next hwb =>
  refine ⟨by simpa using hwb, ?_⟩
  by_contra hbig
  obtain ⟨n, hn⟩ : ∃ n, buffer.length = n + 1 := ⟨buffer.length - 1, by omega⟩
  rw [hn] at h
  unfold writeSectors at h
  rw [if_neg (by omega), if_pos (by omega)] at h
  simp at h

/-! ## Partitions

The part of `kernel/partition.c` that the file systems use. -/

open Lib

def roleUnknown : Nat := 0
def roleRoot : Nat := 1
def roleMain : Nat := 2
def roleEtc : Nat := 3
def roleCommands : Nat := 4
def roleTmp : Nat := 5
def roleSwap : Nat := 6
def roleTrash : Nat := 7

/-- A registered partition. -/
structure Partition where
  inUse : Bool
  role : Nat
  blkdevId : Nat
  offset : Nat
  size : Nat
  deriving DecidableEq, Repr

def partitionFindByRole (parts : List Partition) (role : Nat) : Option Partition :=
  parts.find? fun p => p.inUse && p.role == role

def partitionRoleName (role : Nat) : CString :=
  if role = roleRoot then CString.ascii ['r', 'o', 'o', 't']
  else if role = roleMain then CString.ascii ['m', 'a', 'i', 'n']
  else if role = roleEtc then CString.ascii ['e', 't', 'c']
  else if role = roleCommands then CString.ascii ['c', 'o', 'm', 'm', 'a', 'n', 'd', 's']
  else if role = roleTmp then CString.ascii ['t', 'm', 'p']
  else if role = roleSwap then CString.ascii ['s', 'w', 'a', 'p']
  else if role = roleTrash then CString.ascii ['t', 'r', 'a', 's', 'h']
  else CString.ascii ['u', 'n', 'k', 'n', 'o', 'w', 'n']

end AosKernel.Block
