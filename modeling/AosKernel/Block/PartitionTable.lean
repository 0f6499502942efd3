import AosKernel.Block.Blkdev

/-!
# The partition table

The planning of partitions in `kernel/partition.c`: `partition_create_planned` puts a partition
behind the last one of block device 0, `partition_delete_planned` takes the last entry away, and the
cycles change a type or a role (`planned_partitions_disjoint`). The two layouts replace the
partitions of one device (`layouts_atomic_iff`). -/

namespace AosKernel.Block

open Lib List

def partitionMax : Nat := 8

/-- What `partition.c` asks of a block device. -/
structure Disk where
  size : UInt64
  readOnly : Bool

structure Span where
  inUse : Bool
  blkdevId : UInt32
  offset : UInt64
  size : UInt64

/-- `struct partition`; `first` and `last` are its fields `start` and `end`. -/
structure PartitionEntry extends Span where
  fsType : UInt8
  role : UInt8
  index : Nat
  first : UInt32
  last : UInt32
  name : CString

/-- `g_partitions` below `g_partition_count`, and `g_next_offset`. -/
structure PartitionTable where
  parts : List PartitionEntry
  nextOffset : UInt64

namespace Span

def stop (e : Span) : Nat := e.offset.toNat + e.size.toNat

def Covers (e : Span) (a : Nat) : Prop := e.offset.toNat ≤ a ∧ a < e.stop

/-- The larger one of `next` and the end of a partition, in 64-bit sums. -/
def raise (next : UInt64) (e : Span) : UInt64 :=
  if e.offset + e.size > next then e.offset + e.size else next

def largestStop (n : Nat) (l : List Span) : Nat := (l.map stop).foldl max n

lemma le_largestStop (l : List Span) (n : Nat) :
    n ≤ largestStop n l ∧ ∀ e ∈ l, e.stop ≤ largestStop n l := by
  induction l generalizing n with
  | nil => exact ⟨le_rfl, by simp⟩
  | cons e l ih =>
    obtain ⟨hn, hl⟩ := ih (max n e.stop)
    refine ⟨(le_max_left _ _).trans hn, fun f hf => ?_⟩
    rcases mem_cons.1 hf with rfl | hf
    · exact (le_max_right _ _).trans hn
    · exact hl f hf

lemma raise_toNat (e : Span) (next : UInt64) :
    (raise next e).toNat = max next.toNat (e.stop % 2 ^ 64) := by
  have hsum : (e.offset + e.size).toNat = e.stop % 2 ^ 64 := rfl
  unfold raise
  split
  · next h =>
    rw [gt_iff_lt, UInt64.lt_iff_toNat_lt, hsum] at h
    rw [hsum, max_eq_right h.le]
  · next h =>
    rw [gt_iff_lt, UInt64.lt_iff_toNat_lt, hsum, not_lt] at h
    rw [max_eq_left h]

lemma add_le_of_le_sub {offset size total : UInt64} (hoffset : offset < total)
    (hsize : size ≤ total - offset) : offset.toNat + size.toNat ≤ total.toNat := by
  rw [UInt64.le_iff_toNat_le, UInt64.toNat_sub_of_le _ _ (UInt64.le_of_lt hoffset)] at hsize
  have := UInt64.lt_iff_toNat_lt.1 hoffset
  omega

/-- The loops over the table compute the largest of the ends, each in 64 bits. -/
lemma foldl_raise_mod (l : List Span) (next : UInt64) :
    (l.foldl raise next).toNat = (l.map fun e => e.stop % 2 ^ 64).foldl max next.toNat := by
  induction l generalizing next with
  | nil => rfl
  | cons e l ih => rw [foldl_cons, ih, raise_toNat, map_cons, foldl_cons]

lemma foldl_raise {l : List Span} (hl : ∀ e ∈ l, e.stop < 2 ^ 64) (next : UInt64) :
    (l.foldl raise next).toNat = largestStop next.toNat l := by
  rw [foldl_raise_mod, largestStop, map_congr_left fun e he => Nat.mod_eq_of_lt (hl e he)]

end Span

namespace PartitionTable

variable (t : PartitionTable) (dev : Option Disk)

def spans : List Span := t.parts.map (·.toSpan)

def onDevice (id : UInt32) : List Span :=
  t.spans.filter fun e => e.inUse && e.blkdevId == id

def recalcIndicesAndNextOffset (parts : List PartitionEntry) : PartitionTable where
  parts := parts.mapIdx fun i p => { p with index := i }
  nextOffset := (parts.map (·.toSpan)).foldl Span.raise 0

/-- `next_offset_for_blkdev`, from `AOSPT_RESERVED_BYTES` on. -/
def nextOffsetForBlkdev (id : UInt32) : UInt64 := (t.onDevice id).foldl Span.raise 512

def append (p : PartitionEntry) : PartitionTable :=
  ⟨t.parts ++ [p], Span.raise t.nextOffset p.toSpan⟩

/-- The name of a planned partition, of less than 16 characters. -/
def plannedName (role : UInt8) (index : Nat) : CString :=
  if role.toNat = roleUnknown then
    CString.ascii ['n', 'e', 'w', 'p', if index < 10 then Char.ofNat (48 + index) else '0']
  else partitionRoleName role.toNat

/-- The size that is meant: 0 stands for `PLANNED_PARTITION_SIZE`, and `PARTITION_USE_REST` for what
is left. -/
def plannedSize (rest size : UInt64) : UInt64 :=
  if size = 0 then 8 * 1024 * 1024 else if size = UInt64.ofNat (2 ^ 64 - 1) then rest else size

/-- `partition_create_planned`, with `dev` the block device 0. -/
def partitionCreatePlanned (fsType : UInt8) (size : UInt64) (role : UInt8) : Int × PartitionTable :=
  match dev with
  | none => (-1, t)
  | some d =>
      let offset := t.nextOffsetForBlkdev 0
      let size := plannedSize (d.size - offset) size
      if t.parts.length ≥ partitionMax ∨ d.readOnly ∨ offset ≥ d.size ∨ size = 0 ∨
          size > d.size - offset then (-1, t)
      else
        let index := t.parts.length
        (index, t.append ⟨⟨true, 0, offset, size⟩, fsType, role, index, 0, 0,
          plannedName role index⟩)

def partitionDeletePlanned (index : Nat) : Int × PartitionTable :=
  match t.parts[index]? with
  | none => (-1, t)
  | some p =>
      if p.inUse = false ∨ p.first ≠ 0 ∨ p.last ≠ 0 ∨ index + 1 ≠ t.parts.length then (-1, t)
      else (0, recalcIndicesAndNextOffset t.parts.dropLast)

def nextType (fsType : UInt8) : UInt8 :=
  if fsType = 0 then 2 else if fsType = 2 then 1 else if fsType = 1 then 3 else 0

def nextRole (role : UInt8) : UInt8 := if role < 7 then role + 1 else 0

/-- The cycles, for a type and a role of the entry they are for. -/
def cyclePlanned (index : Nat) (fsType role : UInt8 → UInt8) : Int × PartitionTable :=
  match t.parts[index]? with
  | none => (-1, t)
  | some p =>
      if p.inUse = false ∨ p.first ≠ 0 ∨ p.last ≠ 0 then (-1, t)
      else
        (0, { t with
          parts := t.parts.set index { p with fsType := fsType p.fsType, role := role p.role } })

def partitionCyclePlannedType (index : Nat) : Int × PartitionTable :=
  t.cyclePlanned index nextType id

def partitionCyclePlannedRole (index : Nat) : Int × PartitionTable :=
  t.cyclePlanned index id nextRole

/-- The calls that plan partitions. -/
inductive PlanCall where
  | create (fsType : UInt8) (size : UInt64) (role : UInt8)
  | delete (index : Nat)
  | cycleType (index : Nat)
  | cycleRole (index : Nat)

def plan : PlanCall → Int × PartitionTable
  | .create fsType size role => t.partitionCreatePlanned dev fsType size role
  | .delete index => t.partitionDeletePlanned index
  | .cycleType index => t.partitionCyclePlannedType index
  | .cycleRole index => t.partitionCyclePlannedRole index

def planAll (calls : List PlanCall) : PartitionTable :=
  calls.foldl (fun t c => (t.plan dev c).2) t

/-! ## What a call can do -/

/-- The table after a call. -/
inductive Planned : PartitionTable → Prop where
  | relabelled {t' : PartitionTable} (hspans : t'.spans = t.spans)
      (hindex : t'.parts.map (·.index) = t.parts.map (·.index))
      (hnext : t'.nextOffset = t.nextOffset) : Planned t'
  | deleted : Planned (recalcIndicesAndNextOffset t.parts.dropLast)
  | created {d : Disk} {p : PartitionEntry} (hdev : dev = some d)
      (hp : p.inUse = true ∧ p.blkdevId = 0 ∧ p.index = t.parts.length)
      (hoffset : p.offset = t.nextOffsetForBlkdev 0) (hstop : p.stop ≤ d.size.toNat) :
      Planned (t.append p)

lemma map_set_same {α β : Type} {f : α → β} {l : List α} {i : Nat} {a b : α} (h : l[i]? = some a)
    (hf : f b = f a) : (l.set i b).map f = l.map f := by
  obtain ⟨hlt, rfl⟩ := List.getElem?_eq_some_iff.1 h
  rw [List.map_set, hf, ← List.map_set, List.set_getElem_self]

lemma planned_cyclePlanned (index : Nat) (fsType role : UInt8 → UInt8) :
    t.Planned dev (t.cyclePlanned index fsType role).2 := by
  unfold cyclePlanned
  split
  · exact .relabelled rfl rfl rfl
  next p hp =>
  split
  · exact .relabelled rfl rfl rfl
  · refine .relabelled ?_ ?_ rfl
    · exact map_set_same hp rfl
    · exact map_set_same hp rfl

lemma planned_plan (c : PlanCall) : t.Planned dev (t.plan dev c).2 := by
  cases c with
  | create =>
    simp only [plan, partitionCreatePlanned]
    split
    · exact .relabelled rfl rfl rfl
    next d =>
    split
    · exact .relabelled rfl rfl rfl
    next h =>
    simp only [not_or, ge_iff_le, gt_iff_lt, UInt64.not_le, UInt64.not_lt] at h
    obtain ⟨-, -, hoffset, -, hsize⟩ := h
    exact .created rfl ⟨rfl, rfl, rfl⟩ rfl (Span.add_le_of_le_sub hoffset hsize)
  | delete =>
    simp only [plan, partitionDeletePlanned]
    split
    · exact .relabelled rfl rfl rfl
    · split
      · exact .relabelled rfl rfl rfl
      · exact .deleted
  | cycleType index => exact t.planned_cyclePlanned dev index nextType id
  | cycleRole index => exact t.planned_cyclePlanned dev index id nextRole

/-! ## Placement -/

/-- The partitions of a device: they share no byte, and lie inside the device and above the
table. -/
structure Placed (dev : Option Disk) (l : List Span) : Prop where
  disjoint : l.Pairwise fun e f => ∀ a, e.Covers a → ¬ f.Covers a
  above : ∀ e ∈ l, 512 ≤ e.offset.toNat
  inside : ∀ e ∈ l, ∀ d ∈ dev, e.stop ≤ d.size.toNat

/-- The indices of the entries are their positions. -/
def Indexed : Prop := t.parts.map (·.index) = List.range t.parts.length

/-- `g_next_offset` is the largest end of the entries, and 0 if there is none. -/
def NextIsLargest : Prop := t.nextOffset.toNat = Span.largestStop 0 t.spans

variable {t dev}

lemma spans_recalc (parts : List PartitionEntry) :
    (recalcIndicesAndNextOffset parts).spans = parts.map (·.toSpan) := by
  refine ext_getElem (by simp [spans, recalcIndicesAndNextOffset]) fun i _ _ => ?_
  simp [spans, recalcIndicesAndNextOffset]

lemma indexed_recalc (parts : List PartitionEntry) :
    (recalcIndicesAndNextOffset parts).Indexed := by
  refine ext_getElem (by simp [recalcIndicesAndNextOffset]) fun i _ _ => ?_
  simp [recalcIndicesAndNextOffset]

variable {d : Disk} {l : List Span} {t' : PartitionTable}

lemma Placed.sublist {l' : List Span} (h : Placed dev l) (hl : l'.Sublist l) : Placed dev l' :=
  ⟨h.disjoint.sublist hl, fun e he => h.above e (hl.subset he),
    fun e he => h.inside e (hl.subset he)⟩

/-- What starts at the next offset of a device shares no byte with what is there. -/
lemma Placed.append {e : Span} (h : Placed (some d) l)
    (hoffset : e.offset = l.foldl Span.raise 512) (hstop : e.stop ≤ d.size.toNat) :
    Placed (some d) (l ++ [e]) := by
  have hbound : ∀ f ∈ l, f.stop < 2 ^ 64 := fun f hf =>
    (h.inside f hf d rfl).trans_lt d.size.toNat_lt
  have hlargest : e.offset.toNat = Span.largestStop 512 l := by
    rw [hoffset, Span.foldl_raise hbound]
    rfl
  obtain ⟨hreserved, hl⟩ := Span.le_largestStop l 512
  refine ⟨pairwise_append.2 ⟨h.disjoint, pairwise_singleton _ _, ?_⟩, ?_, ?_⟩
  · intro f hf g hg a hfa hga
    obtain rfl := mem_singleton.1 hg
    have := hl f hf
    have := hfa.2
    have := hga.1
    omega
  · intro f hf
    rcases mem_append.1 hf with hf | hf
    · exact h.above f hf
    · rw [mem_singleton.1 hf, hlargest]
      exact hreserved
  · intro f hf d' hd
    obtain rfl := Option.mem_some_iff.1 hd
    rcases mem_append.1 hf with hf | hf
    · exact h.inside f hf d rfl
    · rw [mem_singleton.1 hf]
      exact hstop

lemma Planned.placed (h : t.Planned dev t') (hplaced : Placed dev (t.onDevice 0)) :
    Placed dev (t'.onDevice 0) := by
  cases h with
  | relabelled hspans =>
    rw [onDevice, hspans]
    exact hplaced
  | deleted =>
    rw [onDevice, spans_recalc]
    exact hplaced.sublist (((dropLast_sublist t.parts).map _).filter _)
  | @created d p hdev hp hoffset hstop =>
    subst hdev
    have hsplit : (t.append p).onDevice 0 = t.onDevice 0 ++ [p.toSpan] := by
      simp [onDevice, spans, PartitionTable.append, hp]
    rw [hsplit]
    exact hplaced.append hoffset hstop

lemma Planned.indexed (h : t.Planned dev t') (hindexed : t.Indexed) : t'.Indexed := by
  cases h with
  | relabelled _ hindex =>
    have hlength := congrArg length hindex
    simp only [length_map] at hlength
    rw [Indexed, hindex, hindexed, hlength]
  | deleted => exact indexed_recalc _
  | created _ hp =>
    simp only [Indexed, PartitionTable.append, map_append, length_append,
      length_singleton, range_succ, map_singleton]
    rw [hindexed, hp.2.2]

lemma Planned.nextIsLargest (h : t.Planned dev t') (hnext : t.NextIsLargest) :
    t'.NextIsLargest := by
  have hbound : ∀ e ∈ t.spans, e.stop < 2 ^ 64 := fun e he =>
    (((Span.le_largestStop t.spans 0).2 e he).trans_eq hnext.symm).trans_lt
      t.nextOffset.toNat_lt
  cases h with
  | relabelled hspans _ hsame => rw [NextIsLargest, hspans, hsame, hnext]
  | deleted =>
    rw [NextIsLargest, spans_recalc]
    refine Span.foldl_raise (fun e he => hbound e ?_) 0
    exact ((dropLast_sublist t.parts).map _).subset he
  | @created d p _ _ _ hstop =>
    have hp : p.stop < 2 ^ 64 := hstop.trans_lt d.size.toNat_lt
    simp only [NextIsLargest, PartitionTable.append, Span.raise_toNat, Nat.mod_eq_of_lt hp, spans,
      Span.largestStop, map_append, foldl_append]
    rw [hnext]
    rfl

/-- Planned partitions do not collide, whatever is planned, deleted and changed. -/
theorem planned_partitions_disjoint (dev : Option Disk) (calls : List PlanCall)
    (t : PartitionTable) (h : Placed dev (t.onDevice 0)) :
    Placed dev ((t.planAll dev calls).onDevice 0) ∧
      (t.Indexed → (t.planAll dev calls).Indexed) ∧
      (t.NextIsLargest → (t.planAll dev calls).NextIsLargest) := by
  induction calls generalizing t with
  | nil => exact ⟨h, id, id⟩
  | cons c calls ih =>
    have hplan := t.planned_plan dev c
    obtain ⟨hplaced, hindexed, hnext⟩ := ih (t.plan dev c).2 (hplan.placed h)
    exact ⟨hplaced, fun h => hindexed (hplan.indexed h), fun h => hnext (hplan.nextIsLargest h)⟩

/-- A partition that uses the rest of a device of 1 MiB, behind one of a sector. -/
theorem planned_partitions_disjoint_rest :
    Placed (some ⟨1048576, false⟩) ((planAll ⟨[⟨⟨true, 0, 512, 512⟩, 3, 1, 0, 0, 0, []⟩], 1024⟩
      (some ⟨1048576, false⟩) [.create 2 (UInt64.ofNat (2 ^ 64 - 1)) 0]).onDevice 0) :=
  (planned_partitions_disjoint _ _ _ ⟨pairwise_singleton _ _, by decide, by decide⟩).1

/-! ## Layouts -/

variable (t) (dev) (id : UInt32)

/-- A partition that a layout asks for. -/
structure Request where
  offset : UInt64
  size : UInt64
  fsType : UInt8
  role : UInt8
  name : CString

def Request.span (id : UInt32) (r : Request) : Span := ⟨true, id, r.offset, r.size⟩

/-- `append_blkdev_partition`, with `dev` the block device `id`; the role is not the one that
`partition_register_blkdev` infers from the name. -/
def appendBlkdevPartition (r : Request) : Option PartitionTable :=
  if dev.isNone ∨ r.size = 0 ∨ t.parts.length ≥ partitionMax then none
  else
    let stop := ((r.offset + r.size) / 512).toUInt32
    some (t.append ⟨r.span id, r.fsType, r.role, t.parts.length, (r.offset / 512).toUInt32,
      if stop > 0 then stop - 1 else stop, r.name⟩)

/-- The appends of a layout, up to the first one that fails. -/
def appendAll (t : PartitionTable) : List Request → Bool × PartitionTable
  | [] => (true, t)
  | r :: rs =>
      match t.appendBlkdevPartition dev id r with
      | none => (false, t)
      | some t => t.appendAll rs

/-- The compaction: the entries of the other devices. -/
def compacted : PartitionTable :=
  recalcIndicesAndNextOffset (t.parts.filter fun p => p.inUse && p.blkdevId != id)

/-- What the two layouts share, behind the checks of their arguments. -/
def layOut (rs : List Request) : Int × PartitionTable :=
  let t := t.compacted id
  if t.parts.length + rs.length > partitionMax then (-1, t)
  else
    match t.appendAll dev id rs with
    | (false, t) => (-1, t)
    | (true, t) => (0, recalcIndicesAndNextOffset t.parts)

def defaultRequests (d : Disk) : List Request :=
  [⟨512, if d.size ≥ 2 * 1024 * 1024 * 1024 then 1024 * 1024 * 1024 else 8 * 1024 * 1024, 3, 1,
    partitionRoleName roleRoot⟩]

def partitionCreateDefaultLayout : Int × PartitionTable :=
  match dev with
  | none => (-1, t)
  | some d =>
      if d.readOnly ∨ d.size < 512 + 8 * 1024 * 1024 then (-1, t)
      else t.layOut dev id (defaultRequests d)

variable (bootOffset bootSize rootOffset : UInt64)

def installedRequests (d : Disk) : List Request :=
  [⟨bootOffset, bootSize, 1, 0, CString.ascii ['b', 'o', 'o', 't']⟩,
    ⟨rootOffset, d.size - rootOffset, 3, 1, partitionRoleName roleRoot⟩]

def InstalledRefused (d : Disk) : Prop :=
  d.readOnly ∨ bootSize = 0 ∨ bootOffset ≥ d.size ∨ bootSize > d.size - bootOffset ∨
    rootOffset ≥ d.size

instance (d : Disk) : Decidable (InstalledRefused bootOffset bootSize rootOffset d) :=
  inferInstanceAs (Decidable (_ ∨ _))

def partitionCreateInstalledLayout : Int × PartitionTable :=
  match dev with
  | none => (-1, t)
  | some d =>
      if InstalledRefused bootOffset bootSize rootOffset d then (-1, t)
      else t.layOut dev id (installedRequests bootOffset bootSize rootOffset d)

/-- The entries of the other devices, without their positions in the table. -/
def elsewhere : List PartitionEntry :=
  (t.parts.map fun p => { p with index := 0 }).filter fun p => p.inUse && p.blkdevId != id

/-- A call that is to lay out `new` on the device: an error leaves the table as it is; a success
leaves the new partitions on the device, disjoint and inside it, and those of other devices. -/
def Atomic (new : Disk → List Span) (r : Int × PartitionTable) : Prop :=
  if r.1 < 0 then r.2 = t
  else ∃ d ∈ dev, r.2.onDevice id = new d ∧
    ((new d).Pairwise fun e f => ∀ a, e.Covers a → ¬ f.Covers a) ∧
    (∀ e ∈ new d, e.stop ≤ d.size.toNat) ∧ r.2.elsewhere id = t.elsewhere id

/-- There is nothing to compact: every entry is in use on another device, the entry at position `i`
has index `i`, and the next offset is the largest end (in 64 bits). -/
structure Packed : Prop where
  elsewhere : ∀ p ∈ t.parts, p.inUse = true ∧ p.blkdevId ≠ id
  index : t.Indexed
  next : t.nextOffset.toNat = (t.spans.map fun e => e.stop % 2 ^ 64).foldl max 0

variable {t dev id}

/-- The compaction changes every other table. -/
lemma compacted_eq_iff : t.compacted id = t ↔ t.Packed id := by
  constructor
  · intro h
    have hparts := congrArg parts h
    have hlength := congrArg length hparts
    simp only [compacted, recalcIndicesAndNextOffset, length_mapIdx] at hlength
    have hall := length_filter_eq_length_iff.1 hlength
    refine ⟨fun p hp => by simpa using hall p hp, h ▸ indexed_recalc _, ?_⟩
    rw [← h, compacted, spans_recalc]
    exact Span.foldl_raise_mod _ 0
  · rintro ⟨helse, hindex, hnext⟩
    have hall : (t.parts.filter fun p => p.inUse && p.blkdevId != id) = t.parts :=
      filter_eq_self.2 fun p hp => by simpa using helse p hp
    have hsame : (recalcIndicesAndNextOffset t.parts).parts = t.parts := by
      refine ext_getElem (by simp [recalcIndicesAndNextOffset]) fun i _ hi => ?_
      have hat := congrArg (·[i]?) hindex
      simp only [getElem?_map, getElem?_eq_getElem hi, Option.map_some, getElem?_range hi,
        Option.some.injEq] at hat
      simp only [recalcIndicesAndNextOffset, getElem_mapIdx]
      exact congrArg (fun n => { t.parts[i] with index := n }) hat.symm
    have hoffset : (recalcIndicesAndNextOffset t.parts).nextOffset = t.nextOffset :=
      UInt64.toNat_inj.1 ((Span.foldl_raise_mod _ 0).trans hnext.symm)
    rw [compacted, hall]
    exact congrArg₂ mk hsame hoffset

lemma elsewhere_recalc (parts : List PartitionEntry) :
    (recalcIndicesAndNextOffset parts).elsewhere id = elsewhere ⟨parts, 0⟩ id := by
  unfold elsewhere
  congr 1
  refine ext_getElem (by simp [recalcIndicesAndNextOffset]) fun i _ _ => ?_
  simp [recalcIndicesAndNextOffset]

lemma elsewhere_compacted : (t.compacted id).elsewhere id = t.elsewhere id := by
  unfold compacted
  rw [elsewhere_recalc]
  simp [elsewhere, filter_map, Function.comp_def]

lemma length_compacted : (t.compacted id).parts.length = (t.elsewhere id).length := by
  simp [compacted, recalcIndicesAndNextOffset, elsewhere, filter_map, Function.comp_def]

lemma onDevice_compacted : (t.compacted id).onDevice id = [] := by
  unfold onDevice compacted
  rw [spans_recalc]
  simp only [filter_eq_nil_iff, mem_map, mem_filter, Bool.and_eq_true, bne_iff_ne, beq_iff_eq]
  rintro _ ⟨p, ⟨-, -, hne⟩, rfl⟩ ⟨-, heq⟩
  exact hne heq

lemma appendAll_spec (id : UInt32) (rs : List Request) (hsize : ∀ r ∈ rs, r.size ≠ 0)
    {t : PartitionTable} (hroom : t.parts.length + rs.length ≤ partitionMax) :
    ∃ t', t.appendAll (some d) id rs = (true, t') ∧
      t'.onDevice id = t.onDevice id ++ rs.map (Request.span id) ∧
      t'.elsewhere id = t.elsewhere id := by
  induction rs generalizing t with
  | nil => exact ⟨t, rfl, by simp, rfl⟩
  | cons r rs ih =>
    simp only [length_cons] at hroom
    have hr : ¬((some d).isNone = true ∨ r.size = 0 ∨ t.parts.length ≥ partitionMax) := by
      simp [hsize]
      omega
    rw [appendAll, appendBlkdevPartition, if_neg hr]
    obtain ⟨t', hall, hdevice, helse⟩ := ih (fun r' h => hsize r' (mem_cons_of_mem _ h))
      (t := t.append ⟨r.span id, r.fsType, r.role, t.parts.length, (r.offset / 512).toUInt32,
        _, r.name⟩) (by simp [PartitionTable.append]; omega)
    refine ⟨t', hall, ?_, ?_⟩
    · rw [hdevice]
      simp [onDevice, spans, PartitionTable.append, Request.span]
    · rw [helse]
      simp [elsewhere, PartitionTable.append, Request.span]

lemma layOut_atomic_iff {rs : Disk → List Request} (hsize : ∀ r ∈ rs d, r.size ≠ 0)
    (hinside : ∀ r ∈ rs d, (r.span id).stop ≤ d.size.toNat) :
    t.Atomic (some d) id (fun d => (rs d).map (Request.span id)) (t.layOut (some d) id (rs d)) ↔
      if (t.elsewhere id).length + (rs d).length ≤ partitionMax then
        ((rs d).map (Request.span id)).Pairwise fun e f => ∀ a, e.Covers a → ¬ f.Covers a
      else t.Packed id := by
  unfold layOut
  dsimp only
  rw [length_compacted]
  by_cases hroom : (t.elsewhere id).length + (rs d).length ≤ partitionMax
  · rw [if_neg (Nat.not_lt.2 hroom), if_pos hroom]
    obtain ⟨t', hall, hdevice, helse⟩ := appendAll_spec (d := d) id (rs d) hsize
      (t := t.compacted id) (by rwa [length_compacted])
    rw [hall]
    have hnew : (recalcIndicesAndNextOffset t'.parts).onDevice id =
        (rs d).map (Request.span id) := by
      rw [onDevice, spans_recalc]
      exact hdevice.trans (by rw [onDevice_compacted, nil_append])
    have hother : (recalcIndicesAndNextOffset t'.parts).elsewhere id = t.elsewhere id :=
      (elsewhere_recalc _).trans (helse.trans elsewhere_compacted)
    simp only [Atomic, Int.lt_irrefl, if_false, Option.mem_some_iff, exists_eq_left']
    exact ⟨fun h => h.2.1, fun h => ⟨hnew, h, forall_mem_map.2 hinside, hother⟩⟩
  · rw [if_pos (Nat.lt_of_not_le hroom), if_neg hroom]
    simp [Atomic, compacted_eq_iff]

/-- Each layout is atomic if its arguments are refused, or if there is room for it and, for the
installed one, the boot partition ends in front of the root partition; without room, only if there
is nothing to compact. -/
theorem layouts_atomic_iff (t : PartitionTable) (dev : Option Disk) (id : UInt32)
    (bootOffset bootSize rootOffset : UInt64) :
    (t.Atomic dev id (fun d => (defaultRequests d).map (Request.span id))
        (t.partitionCreateDefaultLayout dev id) ↔
      ∀ d ∈ dev, (d.readOnly ∨ d.size < 512 + 8 * 1024 * 1024) ∨
        (t.elsewhere id).length + 1 ≤ partitionMax ∨ t.Packed id) ∧
    (t.Atomic dev id
        (fun d => (installedRequests bootOffset bootSize rootOffset d).map (Request.span id))
        (t.partitionCreateInstalledLayout dev id bootOffset bootSize rootOffset) ↔
      ∀ d ∈ dev, InstalledRefused bootOffset bootSize rootOffset d ∨
        if (t.elsewhere id).length + 2 ≤ partitionMax then
          bootOffset.toNat + bootSize.toNat ≤ rootOffset.toNat
        else t.Packed id) := by
  have herror : ∀ {dev new}, t.Atomic dev id new (-1, t) := by simp [Atomic]
  cases dev with
  | none => exact ⟨iff_of_true herror (by simp), iff_of_true herror (by simp)⟩
  | some d =>
  simp only [Option.mem_some_iff, forall_eq']
  constructor
  · unfold partitionCreateDefaultLayout
    dsimp only
    by_cases hrefused : d.readOnly ∨ d.size < 512 + 8 * 1024 * 1024
    · rw [if_pos hrefused]
      exact iff_of_true herror (Or.inl hrefused)
    rw [if_neg hrefused, layOut_atomic_iff]
    · simp only [hrefused, false_or, defaultRequests, length_singleton, map_singleton,
        pairwise_singleton, if_true_left]
      exact imp_iff_not_or.trans (by rw [not_not])
    · intro r hr
      obtain rfl := mem_singleton.1 hr
      split <;> decide
    · intro r hr
      obtain rfl := mem_singleton.1 hr
      simp [UInt64.lt_iff_toNat_lt] at hrefused
      simp only [Request.span, Span.stop]
      split
      · next hlarge =>
        simp [UInt64.le_iff_toNat_le] at hlarge ⊢
        omega
      · simp
        omega
  · unfold partitionCreateInstalledLayout
    dsimp only
    by_cases hrefused : InstalledRefused bootOffset bootSize rootOffset d
    · rw [if_pos hrefused]
      exact iff_of_true herror (Or.inl hrefused)
    rw [if_neg hrefused]
    simp only [hrefused, false_or]
    simp only [InstalledRefused, not_or, ge_iff_le, gt_iff_lt, UInt64.not_le,
      UInt64.not_lt] at hrefused
    obtain ⟨-, hzero, hboot, hsize, hroot⟩ := hrefused
    have hend := Span.add_le_of_le_sub hboot hsize
    have hrest := UInt64.toNat_sub_of_le _ _ (UInt64.le_of_lt hroot)
    have hlt := UInt64.lt_iff_toNat_lt.1 hroot
    have hpos : bootSize.toNat ≠ 0 := fun h => hzero (UInt64.toNat_inj.1 h)
    rw [layOut_atomic_iff]
    · -- the root partition ends with the device, so it is only its start that matters
      have hdisjoint : (((installedRequests bootOffset bootSize rootOffset d).map
          (Request.span id)).Pairwise fun e f => ∀ a, e.Covers a → ¬ f.Covers a) ↔
          bootOffset.toNat + bootSize.toNat ≤ rootOffset.toNat := by
        simp only [installedRequests, map_cons, map_nil, pairwise_pair,
          Request.span, Span.Covers, Span.stop, hrest]
        constructor
        · intro h
          have := h (max bootOffset.toNat rootOffset.toNat)
          omega
        · omega
      rw [hdisjoint]
      exact Iff.rfl
    · simp only [installedRequests, forall_mem_cons]
      exact ⟨hzero, fun h => by simp [h] at hrest; omega, by simp⟩
    · simp only [installedRequests, forall_mem_cons, Request.span, Span.stop, hrest]
      exact ⟨hend, by omega, by simp⟩

/-- Seven partitions on device 1 and one on device 0: there is no room for two new ones, and the
one on device 0 is lost with the error. -/
theorem layout_error_drops_partition :
    let t := recalcIndicesAndNextOffset ((List.range 8).map fun i =>
      ⟨⟨true, if i < 7 then 1 else 0, UInt64.ofNat (512 * (i + 1)), 512⟩, 3, 1, i,
        UInt32.ofNat (i + 1), UInt32.ofNat (i + 1), []⟩)
    let r := t.partitionCreateInstalledLayout (some ⟨1048576, false⟩) 0 512 512 1024
    r.1 = -1 ∧ (t.onDevice 0).length = 1 ∧ (r.2.onDevice 0).length = 0 ∧
      ¬t.Atomic (some ⟨1048576, false⟩) 0 (fun d =>
        (installedRequests 512 512 1024 d).map (Request.span 0)) r := by
  intro t r
  have h1 : (t.onDevice 0).length = 1 := by decide
  have h2 : (r.2.onDevice 0).length = 0 := by decide
  have hr : r.1 = -1 := by decide
  refine ⟨hr, h1, h2, fun h => ?_⟩
  rw [h, h1] at h2
  exact absurd h2 (by decide)

end PartitionTable

end AosKernel.Block
