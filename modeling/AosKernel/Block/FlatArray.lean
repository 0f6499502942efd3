import AosKernel.Block.Blkdev

/-!
# Block devices as byte arrays

`blkdev_read` and `blkdev_write` are reads and updates of a slice of one byte array. The calls by
block address, `blkdev_read_blocks` and `blkdev_write_blocks`, multiply the address in 64 bits on a
memory device and compare it with the number of blocks on a device with a driver;
`flat_arrays_iff` says when the two agree. Over runs of calls with any faults, bytes that were
written stay until they are overwritten (`written_bytes_persist`).
-/

namespace AosKernel.Block

open Lib.ByteStore

def blkdevReadBlocks (plan : IoPlan) (b : BlockLayer) (id : Nat) (lba : UInt64)
    (blockCount : UInt32) : Option (List UInt8) × BlockLayer :=
  match blkdevGet b id with
  | none => (none, b)
  | some dev =>
      let offset := lba.toNat * dev.blockSize
      let len := blockCount.toNat * dev.blockSize
      if dev.hasOps then
        if lba.toNat > dev.size / dev.blockSize ∨
            blockCount.toNat > dev.size / dev.blockSize - lba.toNat then (none, b)
        else if plan.readFails b.reads then (none, { b with reads := b.reads + 1 })
        else (some (slice dev.data offset len), { b with reads := b.reads + 1 })
      else blkdevRead plan b id (offset % 2 ^ 64) len

def blkdevWriteBlocks (plan : IoPlan) (b : BlockLayer) (id : Nat) (lba : UInt64)
    (blockCount : UInt32) (buffer : Store UInt8) : Bool × BlockLayer :=
  match blkdevGet b id with
  | none => (false, b)
  | some dev =>
      let offset := lba.toNat * dev.blockSize
      let bytes := slice buffer 0 (blockCount.toNat * dev.blockSize)
      if dev.hasOps then
        if dev.readOnly ∨ dev.hasWriteBlocks = false then (false, b)
        else if lba.toNat > dev.size / dev.blockSize ∨
            blockCount.toNat > dev.size / dev.blockSize - lba.toNat then (false, b)
        else if plan.writeFails b.writes then (false, { b with writes := b.writes + 1 })
        else (true, { b.setData id (patch dev.data offset bytes) with writes := b.writes + 1 })
      else blkdevWrite plan b id (offset % 2 ^ 64) bytes

/-! ## Slices -/

/-- A device that can be found, with blocks that fit the sector buffer if it has a driver. -/
structure Registered (b : BlockLayer) (id : Nat) : Prop where
  id_lt : id < blkdevMax
  inUse : (b.devs id).inUse = true
  driver : (b.devs id).hasOps = true → (b.devs id).blockSize ≤ sectorBufferSize

/-- Neither the device nor its driver refuses every write. -/
def Blkdev.Writable (dev : Blkdev) : Prop :=
  dev.readOnly = false ∧ (dev.hasOps = true → dev.hasWriteBlocks = true)

instance (dev : Blkdev) : Decidable dev.Writable := inferInstanceAs (Decidable (_ ∧ _))

/-- The accesses to device `id` read and update slices of one byte array. -/
def FlatArray (b : BlockLayer) (id : Nat) : Prop :=
  let dev := b.devs id
  (∀ offset len, let r := blkdevRead .faultless b id offset len
    r.1 = (if offset + len ≤ dev.size then some (slice dev.data offset len) else none) ∧
      r.2.devs = b.devs) ∧
  ∀ offset bytes, let r := blkdevWrite .faultless b id offset bytes
    if dev.Writable ∧ offset + bytes.length ≤ dev.size then
      r.1 = true ∧ r.2.devs = (b.setData id (patch dev.data offset bytes)).devs
    else r = (false, b)

variable {b : BlockLayer} {id i j : Nat}

lemma Registered.flatArray (h : Registered b id) : FlatArray b id := by
  refine ⟨fun offset len => ⟨?_, (blkdevRead_post .faultless b id offset len).1⟩, ?_⟩
  · split
    · next hr => exact blkdevRead_ok h.id_lt h.inUse h.driver hr
    next hr =>
    unfold blkdevRead
    rw [blkdevGet_eq_some h.id_lt h.inUse]
    exact congrArg Prod.fst (if_pos (by omega))
  · intro offset bytes
    split
    · next hok =>
      have hu : Usable b id := ⟨h.id_lt, h.inUse, hok.1.1, fun hops =>
        ⟨hok.1.2 hops, h.driver hops⟩⟩
      have htrue := blkdevWrite_ok hu hok.2
      exact ⟨htrue, (blkdevWrite_post .faultless b id offset bytes).1 htrue⟩
    next hno =>
    unfold blkdevWrite
    rw [blkdevGet_eq_some h.id_lt h.inUse]
    dsimp only
    repeat' split
    all_goals first
      | rfl
      | exact absurd ⟨⟨by simp_all, by simp_all⟩, by omega⟩ hno

/-! ## Block addresses -/

/-- A memory device and a device with a driver that differ in nothing else. -/
structure Twins (b : BlockLayer) (i j : Nat) : Prop where
  memory : Registered b i ∧ (b.devs i).hasOps = false
  driver : Registered b j ∧ (b.devs j).hasOps = true
  blockSize : (b.devs i).blockSize = (b.devs j).blockSize
  size : (b.devs i).size = (b.devs j).size
  writable : (b.devs i).Writable ↔ (b.devs j).Writable
  data : (b.devs i).data = (b.devs j).data

/-- The calls by block address accept the same blocks on both devices, with the same effect. -/
def SameBlocks (b : BlockLayer) (i j : Nat) (lba : UInt64) (blockCount : UInt32) : Prop :=
  (blkdevReadBlocks .faultless b i lba blockCount).1 =
      (blkdevReadBlocks .faultless b j lba blockCount).1 ∧
    ∀ buffer, let r := blkdevWriteBlocks .faultless b i lba blockCount buffer
      let r' := blkdevWriteBlocks .faultless b j lba blockCount buffer
      r.1 = r'.1 ∧ (r.2.devs i).data = (r'.2.devs j).data

lemma blocks_outside_iff (dev : Blkdev) (lba count : Nat) :
    (lba > dev.size / dev.blockSize ∨ count > dev.size / dev.blockSize - lba) ↔
      ¬ lba * dev.blockSize + count * dev.blockSize ≤ dev.size := by
  rw [← add_mul, ← Nat.le_div_iff_mul_le dev.blockSize_pos]
  omega

/-- The product of the memory path does not wrap, or its range is not in the device. -/
def Blkdev.Unwrapped (dev : Blkdev) (lba : UInt64) (blockCount : UInt32) : Prop :=
  lba.toNat * dev.blockSize < 2 ^ 64 ∨
    dev.size < lba.toNat * dev.blockSize % 2 ^ 64 + blockCount.toNat * dev.blockSize

lemma Twins.sameBlocks_iff (h : Twins b i j) (lba : UInt64) (blockCount : UInt32) :
    SameBlocks b i j lba blockCount ↔ (b.devs i).Unwrapped lba blockCount := by
  obtain ⟨⟨hi, hmem⟩, ⟨hj, hops⟩, hblock, hsize, hwritable, hdata⟩ := h
  have hlt := (b.devs i).size_lt
  unfold SameBlocks Blkdev.Unwrapped blkdevReadBlocks blkdevWriteBlocks
  rw [blkdevGet_eq_some hi.id_lt hi.inUse, blkdevGet_eq_some hj.id_lt hj.inUse]
  have hreads : ∀ n, IoPlan.faultless.readFails n = false := fun _ => rfl
  have hwrites : ∀ n, IoPlan.faultless.writeFails n = false := fun _ => rfl
  simp only [hmem, hops, if_true, Bool.false_eq_true, if_false, blocks_outside_iff, ← hblock,
    ← hsize, ← hdata, hreads, hwrites]
  generalize lba.toNat * (b.devs i).blockSize = offset
  generalize blockCount.toNat * (b.devs i).blockSize = len
  generalize hstart : offset % 2 ^ 64 = start
  have hread := (hi.flatArray.1 start len).1
  constructor
  · rintro ⟨hsame, -⟩
    by_contra hwrap
    rw [hread, if_pos (by omega), if_pos (by omega)] at hsame
    simp at hsame
  intro hunwrapped
  -- The ranges are the same, or both of them are refused.
  by_cases hin : offset + len ≤ (b.devs i).size
  · obtain rfl : start = offset := by omega
    refine ⟨by simp [hread, hin], fun buffer => ?_⟩
    have hwrite := hi.flatArray.2 start (slice buffer 0 len)
    simp only [slice_length, hin, and_true, hwritable] at hwrite
    split at hwrite
    · next hok => simp [hwrite, hin, hok.1, hok.2 hops]
    · next hno =>
      have hrefused : (b.devs j).readOnly = true ∨ (b.devs j).hasWriteBlocks = false := by
        simpa [Blkdev.Writable, hops, imp_iff_not_or] using hno
      rw [hwrite, if_pos hrefused]
      exact ⟨rfl, hdata⟩
  · have hout : ¬ start + len ≤ (b.devs i).size := by omega
    refine ⟨by simp [hread, hin, hout], fun buffer => ?_⟩
    have hwrite := hi.flatArray.2 start (slice buffer 0 len)
    rw [if_neg (by simp [hout])] at hwrite
    simp [hwrite, hin, hdata]

/-- Every device is a byte array. The calls by block address treat a memory device and a device with
a driver alike if and only if the product of the memory path does not wrap into the device. -/
theorem flat_arrays_iff (b : BlockLayer) :
    (∀ id, Registered b id → FlatArray b id) ∧
      ∀ i j, Twins b i j → ∀ lba blockCount,
        (SameBlocks b i j lba blockCount ↔ (b.devs i).Unwrapped lba blockCount) :=
  ⟨fun _ h => h.flatArray, fun _ _ h => h.sameBlocks_iff⟩

/-- Two devices of one block, the first one in memory. -/
def oneBlock : BlockLayer where
  devs i :=
    { inUse := true, readOnly := false, hasOps := i != 0, hasWriteBlocks := true, blockSize := 384
      blockSize_pos := by decide, size := 384, size_lt := by decide, data := fun _ => 0 }
  reads := 0
  writes := 0

/-- Block 2 ^ 57 of the memory device is taken for its block 0, the driver is not asked for it. -/
theorem block_address_wraps :
    Twins oneBlock 0 1 ∧ ¬ SameBlocks oneBlock 0 1 0x200000000000000 1 := by
  refine ⟨⟨⟨⟨?_, rfl, ?_⟩, rfl⟩, ⟨⟨?_, rfl, ?_⟩, rfl⟩, rfl, rfl, ?_, rfl⟩, ?_⟩
  iterate 5 decide
  rintro ⟨hread, -⟩
  have hsome := congrArg Option.isSome hread
  revert hsome
  decide

/-! ## Runs of writes -/

/-- A call of `blkdev_write`, with the faults of its transfers. -/
structure WriteCall where
  plan : IoPlan
  id : Nat
  offset : Nat
  buffer : List UInt8

/-- The block layer after the calls, whether they succeed or not. -/
def afterWrites (calls : List WriteCall) (b : BlockLayer) : BlockLayer :=
  calls.foldl (fun b c => (blkdevWrite c.plan b c.id c.offset c.buffer).2) b

def WriteCall.Apart (c : WriteCall) (id offset len : Nat) : Prop :=
  c.id = id → offset + len ≤ c.offset ∨ c.offset + c.buffer.length ≤ offset

lemma WriteCall.Apart.slice_eq {c : WriteCall} {id offset len : Nat} (h : c.Apart id offset len)
    (b : BlockLayer) : slice ((blkdevWrite c.plan b c.id c.offset c.buffer).2.devs id).data offset
      len = slice (b.devs id).data offset len := by
  -- A write that fails has stored a prefix of its bytes, which is apart as well.
  have hpatch : ∃ m ≤ c.buffer.length, (blkdevWrite c.plan b c.id c.offset c.buffer).2.devs =
      (b.setData c.id (patch (b.devs c.id).data c.offset (c.buffer.take m))).devs := by
    have hpost := blkdevWrite_post c.plan b c.id c.offset c.buffer
    cases hok : (blkdevWrite c.plan b c.id c.offset c.buffer).1 with
    | true => exact ⟨_, le_rfl, by rw [List.take_length]; exact hpost.1 hok⟩
    | false => exact hpost.2 hok
  obtain ⟨m, hm, hdevs⟩ := hpatch
  rw [hdevs]
  by_cases hid : c.id = id
  · subst hid
    have hapart := h rfl
    simp only [BlockLayer.setData, Function.update_self]
    apply slice_patch_disjoint
    rw [List.length_take]
    omega
  · simp [BlockLayer.setData, Function.update_of_ne (Ne.symm hid)]

/-- **Written bytes stay.** Bytes that a write has stored are what a read returns that succeeds
after any calls of `blkdev_write` for other ranges or devices, whichever transfers have failed. -/
theorem written_bytes_persist {plan plan' : IoPlan} {b : BlockLayer} {id offset : Nat}
    {bytes data : List UInt8} (hwrite : (blkdevWrite plan b id offset bytes).1 = true)
    {calls : List WriteCall} (hcalls : ∀ c ∈ calls, c.Apart id offset bytes.length)
    (hread : (blkdevRead plan' (afterWrites calls (blkdevWrite plan b id offset bytes).2) id offset
      bytes.length).1 = some data) : data = bytes := by
  have hrun : ∀ b', slice ((afterWrites calls b').devs id).data offset bytes.length =
      slice (b'.devs id).data offset bytes.length := by
    clear hread
    induction calls with
    | nil => exact fun _ => rfl
    | cons c calls ih =>
      intro b'
      obtain ⟨hc, hrest⟩ := List.forall_mem_cons.1 hcalls
      exact (ih hrest _).trans (hc.slice_eq b')
  rw [blkdevRead_some hread, hrun, (blkdevWrite_post plan b id offset bytes).1 hwrite]
  simp [BlockLayer.setData, slice_patch_self]

theorem oneBlock_persists :
    (blkdevRead .faultless (afterWrites [⟨.faultless, 1, 1, [6]⟩]
      (blkdevWrite .faultless oneBlock 1 0 [5]).2) 1 0 1).1 = some [5] := by
  cases hread : (blkdevRead .faultless (afterWrites [⟨.faultless, 1, 1, [6]⟩]
      (blkdevWrite .faultless oneBlock 1 0 [5]).2) 1 0 1).1 with
  | none =>
    have hsome := congrArg Option.isSome hread
    revert hsome
    decide
  | some data =>
    rw [written_bytes_persist (by decide) (by simp [WriteCall.Apart]) hread]

end AosKernel.Block
