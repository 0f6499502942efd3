import AosKernel.Fd.Transfer
import AosKernel.Tmpfs.State

/-!
# The handles of one file

`sys_flock` looks for conflicting locks, and `sys_ftruncate` for cached sizes, among the handles
with the backend and the inode of its descriptor. Each backend makes the inode of something else:
FAT32 of the first cluster, ext4 of the inode, tmpfs and every instance of AOSFS of a counter
(`Found`). So FAT32 files without a cluster are taken for one file, and so are files of two
instances of AOSFS, whose counters all start at the same number (`file_identity_iff`,
`empty_files_conflict`). -/

namespace AosKernel.Fd

open Lib Vfs Function
open Proc (einval eagain)

/-! ## Locks -/

def lockSh : UInt32 := 1
def lockEx : UInt32 := 2
def lockNb : UInt32 := 4
def lockUn : UInt32 := 8

def FileHandle.SameNode (h h' : FileHandle) : Prop :=
  h'.node.backend = h.node.backend ∧ h'.node.inode = h.node.inode
  deriving Decidable

/-- A lock of the mode is refused because of a lock of handle `other`. -/
def FileHandle.Excludes (other : FileHandle) (mode : UInt32) : Prop :=
  other.inUse = true ∧ other.flockMode ≠ 0 ∧ (mode = lockEx ∨ other.flockMode = lockEx.toNat)
  deriving Decidable

namespace IoState

variable {σ : Type}

/-- The loop of `sys_flock` for handle `i`, as whether it returns. -/
def findsConflict (handles : Nat → FileHandle) (i : Nat) (mode : UInt32) : Bool :=
  (List.range maxFileHandles).any fun j =>
    decide (j ≠ i ∧ (handles j).Excludes mode ∧ (handles i).SameNode (handles j))

def setLock (i : Nat) (mode : UInt32) (s : IoState σ) : IoState σ :=
  s.withObjects (s.objects.setHandle i { s.objects.handles i with flockMode := mode.toUInt8.toNat })

def sysFlock (fd : Nat) (operation : UInt32) (s : IoState σ) : Int × IoState σ :=
  let mode := operation &&& ~~~lockNb
  match s.getVnodeHandle fd with
  | none => (-ebadf, s)
  | some i =>
      if mode ≠ lockSh ∧ mode ≠ lockEx ∧ mode ≠ lockUn then (-einval, s)
      else if mode = lockUn then (0, s.setLock i 0)
      else if findsConflict s.objects.handles i mode then (-eagain, s)
      else (0, s.setLock i mode)

variable {s : IoState σ} {fd i : Nat}

lemma findsConflict_iff {handles : Nat → FileHandle} {mode : UInt32} :
    findsConflict handles i mode = true ↔ ∃ j < maxFileHandles, j ≠ i ∧
      (handles j).Excludes mode ∧ (handles i).SameNode (handles j) := by
  simp only [findsConflict, List.any_eq_true, List.mem_range, decide_eq_true_eq]

lemma getVnodeHandle_some (h : s.getVnodeHandle fd = some i) :
    i < maxFileHandles ∧ (s.objects.handles i).inUse = true := by
  unfold getVnodeHandle at h
  split at h
  · simp at h
  split at h
  · simp at h
  unfold FdObjects.getFileHandleByIndex FdObjects.lookup at h
  split_ifs at h with hrange huse
  obtain rfl := Option.some.inj h
  exact ⟨by omega, Bool.eq_true_of_not_eq_false huse⟩

lemma sysFlock_eagain_iff {operation : UInt32} (hi : s.getVnodeHandle fd = some i)
    (hmode : operation &&& ~~~lockNb = lockSh ∨ operation &&& ~~~lockNb = lockEx) :
    (s.sysFlock fd operation).1 = -eagain ↔
      findsConflict s.objects.handles i (operation &&& ~~~lockNb) = true := by
  have hvalid : ¬(operation &&& ~~~lockNb ≠ lockSh ∧ operation &&& ~~~lockNb ≠ lockEx ∧
      operation &&& ~~~lockNb ≠ lockUn) := fun h => hmode.elim h.1 h.2.1
  have hlocks : operation &&& ~~~lockNb ≠ lockUn := by
    rcases hmode with h | h <;> rw [h] <;> decide
  simp only [sysFlock, hi, if_neg hvalid, if_neg hlocks]
  cases findsConflict s.objects.handles i (operation &&& ~~~lockNb)
  · exact iff_of_false (show (0 : Int) ≠ -eagain by decide) Bool.false_ne_true
  · exact iff_of_true rfl rfl

/-! ## Files -/

/-- The calls take the handles `j` with `file j = file i` for the handles of the file of handle
`i`. -/
structure ActsOnFile {ω : Type} (file : Nat → ω) (s : IoState σ) : Prop where
  /-- A lock conflicts with the locks of the handles of the file. -/
  flock : ∀ fd i operation, s.getVnodeHandle fd = some i →
    operation &&& ~~~lockNb = lockSh ∨ operation &&& ~~~lockNb = lockEx →
    ((s.sysFlock fd operation).1 = -eagain ↔ ∃ j < maxFileHandles, j ≠ i ∧
      (s.objects.handles j).Excludes (operation &&& ~~~lockNb) ∧ file j = file i)
  /-- The new size is stored in the handles of the file, and the others are as before. -/
  ftruncate : ∀ (F : FileSystem σ) fd i size, s.getVnodeHandle fd = some i →
    (s.sysFtruncate F fd size).1 = 0 → ∀ j < maxFileHandles, (s.objects.handles j).inUse = true →
    (file j = file i → ((s.sysFtruncate F fd size).2.objects.handles j).node.size = size.toNat) ∧
    (file j ≠ file i → (s.sysFtruncate F fd size).2.objects.handles j = s.objects.handles j)

/-- The same open files, with any locks and cached sizes. -/
def relock (locks sizes : Nat → Nat) (s : IoState σ) : IoState σ :=
  s.withObjects { s.objects with handles := fun i =>
    let h := s.objects.handles i
    { h with flockMode := locks i, node := { h.node with size := sizes i } } }

lemma handles_sysFtruncate {F : FileSystem σ} {size : Int} (hi : s.getVnodeHandle fd = some i)
    (h : (s.sysFtruncate F fd size).1 = 0) :
    (s.sysFtruncate F fd size).2.objects.handles =
      resizeHandles (s.objects.handles i).node size.toNat s.objects.handles := by
  unfold sysFtruncate at h ⊢
  simp only [hi] at h ⊢
  have hinval : -einval ≠ 0 := by decide
  split_ifs at h ⊢
  · exact absurd h hinval
  · exact absurd h hinval
  · exact absurd h hinval
  rcases hr : F.resizeNode (s.objects.handles i).node size.toNat s.fs with ⟨_ | _, fs⟩
  · rw [hr] at h
    exact absurd h (show -eio ≠ 0 by decide)
  · rfl

lemma actsOnFile_of_sameNode_iff {ω : Type} {file : Nat → ω}
    (h : ∀ fd i j, s.getVnodeHandle fd = some i → j < maxFileHandles →
      (s.objects.handles j).inUse = true →
      ((s.objects.handles i).SameNode (s.objects.handles j) ↔ file j = file i)) :
    s.ActsOnFile file where
  flock fd i operation hi hmode := by
    rw [sysFlock_eagain_iff hi hmode, findsConflict_iff]
    refine exists_congr fun j => and_congr_right fun hj => and_congr_right fun _ => ?_
    exact and_congr_right fun hex => h fd i j hi hj hex.1
  ftruncate F fd i size hi hok j hj huse := by
    rw [handles_sysFtruncate hi hok]
    constructor
    · intro hsame
      have hnode := (h fd i j hi hj huse).2 hsame
      simp only [resizeHandles, if_pos (⟨hj, huse, hnode⟩ : _ ∧ _ ∧ _ ∧ _)]
    · intro hother
      exact if_neg fun hc => hother ((h fd i j hi hj huse).1 hc.2.2)

/-- The condition on the handles: those of the file are those with its backend and inode. -/
lemma actsOnFile_iff_sameNode {ω : Type} (file : Nat → ω) (s : IoState σ) :
    (∀ locks sizes, (s.relock locks sizes).ActsOnFile file) ↔
      ∀ fd i j, s.getVnodeHandle fd = some i → j < maxFileHandles →
        (s.objects.handles j).inUse = true →
        ((s.objects.handles i).SameNode (s.objects.handles j) ↔ file j = file i) := by
  constructor
  · intro h fd i j hi hj huse
    by_cases hji : j = i
    · subst hji
      exact iff_of_true ⟨rfl, rfl⟩ rfl
    -- With a lock of handle `j` alone, it decides about a conflict.
    have hi' : (s.relock (update (fun _ => 0) j lockEx.toNat) fun _ => 0).getVnodeHandle fd =
        some i := hi
    have hlock := (h _ _).flock fd i lockEx hi' (.inr rfl)
    rw [sysFlock_eagain_iff hi' (.inr rfl), findsConflict_iff] at hlock
    have honly : ∀ j', update (fun _ => 0) j lockEx.toNat j' ≠ 0 → j' = j := by
      intro j' hne
      by_contra hj'
      exact hne (update_of_ne hj' ..)
    have hself : update (fun _ => 0) j lockEx.toNat j ≠ 0 := by
      rw [update_self]
      decide
    constructor
    · intro hnode
      obtain ⟨j', -, -, hex, hfile⟩ := hlock.1 ⟨j, hj, hji, ⟨huse, hself, .inl rfl⟩, hnode⟩
      exact honly j' hex.2.1 ▸ hfile
    · intro hfile
      obtain ⟨j', -, -, hex, hnode⟩ := hlock.2 ⟨j, hj, hji, ⟨huse, hself, .inl rfl⟩, hfile⟩
      exact honly j' hex.2.1 ▸ hnode
  · intro h locks sizes
    exact actsOnFile_of_sameNode_iff h

end IoState

/-! ## What lookups find -/

/-- `lookup_fat32_node`, with what `fat32_lookup_path` finds: whether the file is a directory, its
first cluster and its size. -/
def lookupFat32Node (find : CString → Option (Bool × UInt32 × UInt32)) (normalized : CString) :
    Option VfsNode :=
  (find normalized).map fun (isDir, firstCluster, size) =>
    { type := if isDir then .directory else .regular
      backend := .fat32
      mode := if isDir then 0o755 else 0o644
      uid := 0
      gid := 0
      size := size.toNat
      inode := if firstCluster ≠ 0 then firstCluster.toUInt64 else 3
      path := normalized.take 255
      payload := .firstCluster firstCluster.toNat }

/-- `lookup_ext4_node`, with what `ext4_lookup_path` finds. -/
def lookupExt4Node (find : CString → Option (Bool × UInt32 × UInt32)) (normalized : CString) :
    Option VfsNode :=
  (find normalized).map fun (isDir, inode, size) =>
    { type := if isDir then .directory else .regular
      backend := .ext4
      mode := if isDir then 0o755 else 0o644
      uid := 0
      gid := 0
      size := size.toNat
      inode := inode.toUInt64
      path := normalized.take 255
      payload := .none }

/-- What a lookup finds: an entry of a FAT32 directory with the first cluster it has, an inode of
the ext4 volume, an entry of the table of tmpfs or of an AOSFS instance with the number it was
given, or an object of a fixed number, such as a device or the root of an instance. -/
inductive Found where
  | fat32 (entry : Nat) (firstCluster : UInt32)
  | ext4 (inode : UInt32)
  | tmpfs (entry : Nat) (number : UInt64)
  | aosfs (role entry : Nat) (number : UInt64)
  | fixed (backend : Backend) (object : Nat) (number : UInt64)
  deriving DecidableEq

namespace Found

def backend : Found → Backend
  | .fat32 _ _ => .fat32
  | .ext4 _ => .ext4
  | .tmpfs _ _ => .tmpfs
  | .aosfs _ _ _ => .aosfs
  | .fixed backend _ _ => backend

/-- The inode that the backend makes up. -/
def inode : Found → UInt64
  | .fat32 _ firstCluster => if firstCluster ≠ 0 then firstCluster.toUInt64 else 3
  | .ext4 inode => inode.toUInt64
  | .tmpfs _ number | .aosfs _ _ number | .fixed _ _ number => number

/-- The file. The number tells the successive entries of one slot apart. -/
def file : Found → Found
  | .fat32 entry _ => .fat32 entry 0
  | .fixed backend object _ => .fixed backend object 0
  | found => found

def Names (found : Found) (node : VfsNode) : Prop :=
  node.backend = found.backend ∧ node.inode = found.inode
  deriving Decidable

/-- The nodes that the lookups make are those of what they find. -/
theorem names_lookup :
    (∀ find path node entry, lookupFat32Node find path = some node →
      ∃ firstCluster, (fat32 entry firstCluster).Names node) ∧
    (∀ find path node, lookupExt4Node find path = some node → ∃ inode, (ext4 inode).Names node) ∧
    (∀ (s : Tmpfs.TmpfsState) i, (tmpfs i (s.entries i).inode).Names (s.fillEntryNode i)) ∧
    ∀ (v : Aosfs.Volume) role i,
      (aosfs role i (v.inst.entries i).inode).Names (v.fillDynamicNode i) := by
  refine ⟨fun find path node entry h => ?_, fun find path node h => ?_, fun _ _ => ⟨rfl, rfl⟩,
    fun _ _ _ => ⟨rfl, rfl⟩⟩
  · obtain ⟨found, -, rfl⟩ := Option.map_eq_some_iff.1 h
    exact ⟨found.2.1, rfl, rfl⟩
  · obtain ⟨found, -, rfl⟩ := Option.map_eq_some_iff.1 h
    exact ⟨found.2.1, rfl, rfl⟩

/-- The inodes tell whether the objects are one file. FAT32: one entry has one first cluster and two
entries have two, where 0 and 3 are the same. tmpfs and AOSFS: two entries, of one instance or of
two, have two numbers. -/
def NoClash : Found → Found → Prop
  | .fat32 e c, .fat32 e' c' => e = e' ↔ c = c' ∨ (c = 0 ∨ c = 3) ∧ (c' = 0 ∨ c' = 3)
  | .tmpfs e n, .tmpfs e' n' => n = n' → e = e'
  | .aosfs r e n, .aosfs r' e' n' => n = n' → r = r' ∧ e = e'
  | .fixed b o n, .fixed b' o' n' => b = b' → (n = n' ↔ o = o')
  | .fixed b _ n, x => b = x.backend → n ≠ x.inode
  | x, .fixed b _ n => b = x.backend → n ≠ x.inode
  | _, _ => True

lemma fat32_inode_eq_iff {e e' : Nat} {c c' : UInt32} :
    (fat32 e c).inode = (fat32 e' c').inode ↔
      c = c' ∨ (c = 0 ∨ c = 3) ∧ (c' = 0 ∨ c' = 3) := by
  have h3 : ∀ d : UInt32, d.toUInt64 = 3 ↔ d = 3 := fun d => UInt32.toUInt64_inj (b := 3)
  by_cases h : c = 0 <;> by_cases h' : c' = 0
  · simp [inode, h, h']
  · simp [inode, h, h', eq_comm (a := (3 : UInt64)), h3, eq_comm (a := (0 : UInt32))]
  · simp [inode, h, h', h3]
  · simp only [inode, ne_eq, h, h', not_false_eq_true, if_true, UInt32.toUInt64_inj, false_or]
    exact ⟨.inl, fun e => e.elim id fun e => e.1.trans e.2.symm⟩

theorem noClash_iff (x y : Found) :
    x.NoClash y ↔ ((x.backend = y.backend ∧ x.inode = y.inode) ↔ x.file = y.file) := by
  cases x with
  | fat32 =>
    cases y with
    | fat32 => simp [NoClash, backend, file, fat32_inode_eq_iff, iff_comm]
    | fixed => simp [NoClash, backend, file, inode, eq_comm]
    | _ => simp [NoClash, backend, file]
  | aosfs =>
    cases y with
    | aosfs =>
      simp only [NoClash, backend, inode, file, aosfs.injEq, true_and]
      tauto
    | _ => simp [NoClash, backend, inode, file, eq_comm]
  | fixed => cases y <;> simp [NoClash, backend, inode, file]
  | _ => cases y <;> simp [NoClash, backend, inode, file, eq_comm, UInt32.toUInt64_inj]

end Found

/-- Whatever is locked and whatever sizes are cached, the calls act on the handles of the file of
their descriptor, exactly if no file that is open clashes with it. -/
theorem IoState.file_identity_iff {σ : Type} (found : Nat → Found) (s : IoState σ)
    (hopen : ∀ j < maxFileHandles, (s.objects.handles j).inUse = true →
      (found j).Names (s.objects.handles j).node) :
    (∀ locks sizes, (s.relock locks sizes).ActsOnFile fun j => (found j).file) ↔
      ∀ fd i j, s.getVnodeHandle fd = some i → j < maxFileHandles →
        (s.objects.handles j).inUse = true → (found j).NoClash (found i) := by
  rw [actsOnFile_iff_sameNode]
  refine forall_congr' fun fd => forall_congr' fun i => forall_congr' fun j => ?_
  refine forall_congr' fun hi => forall_congr' fun hj => forall_congr' fun huse => ?_
  obtain ⟨hlt, huse'⟩ := getVnodeHandle_some hi
  obtain ⟨hbackend, hinode⟩ := hopen j hj huse
  obtain ⟨hbackend', hinode'⟩ := hopen i hlt huse'
  rw [Found.noClash_iff, FileHandle.SameNode, hbackend, hinode, hbackend', hinode']

/-! ## Counters -/

section Counters

variable {ε : Type} {inUse : ε → Bool} {inode : ε → UInt64} {entries : Nat → ε} {next : UInt64}

/-- The entries in use have different numbers, all below the counter. -/
structure Numbered (inUse : ε → Bool) (inode : ε → UInt64) (entries : Nat → ε) (next : UInt64) :
    Prop where
  below : ∀ i, inUse (entries i) = true → inode (entries i) < next
  distinct : ∀ i j, inUse (entries i) = true → inUse (entries j) = true →
    inode (entries i) = inode (entries j) → i = j

/-- An entry is freed or takes the next number. -/
theorem Numbered.update (h : Numbered inUse inode entries next) (i : Nat) {e : ε}
    (hnext : next < next + 1) (he : inUse e = true → inode e = next) :
    Numbered inUse inode (update entries i e) (next + 1) := by
  have hnew : ∀ j, j = i → inUse (Function.update entries i e j) = true →
      inode (Function.update entries i e j) = next := by
    rintro j rfl
    rw [update_self]
    exact he
  have hold : ∀ j, j ≠ i → Function.update entries i e j = entries j :=
    fun j hj => update_of_ne hj ..
  refine ⟨fun j hj => ?_, fun j j' hj hj' heq => ?_⟩
  · by_cases hji : j = i
    · rwa [hnew j hji hj]
    · rw [hold j hji] at hj ⊢
      exact UInt64.lt_trans (h.below j hj) hnext
  · by_cases hji : j = i <;> by_cases hji' : j' = i
    · rw [hji, hji']
    · -- The old entry would have the number of the new one.
      rw [hnew j hji hj, hold j' hji'] at heq
      rw [hold j' hji'] at hj'
      exact absurd (h.below j' hj') (heq ▸ UInt64.lt_irrefl _)
    · rw [hnew j' hji' hj', hold j hji] at heq
      rw [hold j hji] at hj
      exact absurd (h.below j hj) (heq ▸ UInt64.lt_irrefl _)
    · rw [hold j hji] at hj heq
      rw [hold j' hji'] at hj' heq
      exact h.distinct j j' hj hj' heq

end Counters

/-- The entries of tmpfs are numbered. -/
def TmpfsNumbered (s : Tmpfs.TmpfsState) : Prop :=
  Numbered Tmpfs.Entry.inUse Tmpfs.Entry.inode s.entries s.nextInode

/-- The entries of an AOSFS instance are numbered. -/
def AosfsNumbered (v : Aosfs.Volume) : Prop :=
  Numbered Aosfs.Entry.inUse Aosfs.Entry.inode v.inst.entries v.inst.nextInode

section

variable {i : Nat} {mode : UInt16} {uid gid : UInt32} {path : CString}

theorem numbered_allocateEntry {s s' : Tmpfs.TmpfsState} {type : NodeType} (h : TmpfsNumbered s)
    (hnext : s.nextInode < s.nextInode + 1)
    (hs : s.allocateEntry path type mode uid gid = some (i, s')) : TmpfsNumbered s' := by
  unfold Tmpfs.TmpfsState.allocateEntry at hs
  split at hs
  · simp at hs
  simp only [Option.some.injEq, Prod.mk.injEq] at hs
  obtain ⟨rfl, rfl⟩ := hs
  exact h.update _ hnext fun _ => rfl

theorem numbered_insertEntry {plan : Block.IoPlan} {v : Aosfs.Volume} {kind : Aosfs.EntryKind}
    (h : AosfsNumbered v) (hnext : v.inst.nextInode < v.inst.nextInode + 1) :
    AosfsNumbered (v.insertEntry plan i kind mode uid gid path).2 := by
  have hsync : ∀ w : Aosfs.Volume, (w.syncEntry plan i).2.inst = w.inst := by
    intro w
    unfold Aosfs.Volume.syncEntry
    split <;> rfl
  unfold AosfsNumbered Aosfs.Volume.insertEntry
  dsimp only
  generalize hw : Aosfs.Volume.setEntry _ i _ = w
  have hinst := hsync w
  generalize w.syncEntry plan i = r at hinst ⊢
  obtain ⟨_ | _, v'⟩ := r
  · -- The entry could not be written and is free again.
    dsimp only [Aosfs.Volume.setEntry] at hinst ⊢
    rw [hinst, ← hw]
    dsimp only [Aosfs.Volume.setEntry, Aosfs.Volume.setNextInode]
    rw [update_idem]
    exact h.update i hnext (by simp [Aosfs.Entry.zero])
  · dsimp only at hinst ⊢
    rw [hinst, ← hw]
    exact h.update i hnext fun _ => rfl

end

/-! ## Files that clash -/

namespace IoState

/-- A process opens two files and locks the first. -/
def lockedFirst (a b : VfsNode) : IoState Unit :=
  let opened := ((⟨initProcessFdTable, FdObjects.zero⟩ : FdState).installVnodeFd a 2).2
  (sysFlock 3 lockEx ⟨(opened.installVnodeFd b 2).2, ()⟩).2

lemma lockedFirst_conflicts {ω : Type} {a b : VfsNode} {file : Nat → ω}
    (hnode : a.backend = b.backend ∧ a.inode = b.inode) (hfile : file 0 ≠ file 1) :
    ¬ (lockedFirst a b).ActsOnFile file := by
  intro h
  have hconflict : findsConflict (lockedFirst a b).objects.handles 1 lockEx = true :=
    findsConflict_iff.2 ⟨0, by decide, by decide,
      ⟨rfl, show (2 : Nat) ≠ 0 by decide, .inl rfl⟩, hnode⟩
  obtain ⟨j, hj, hne, ⟨huse, -⟩, hsame⟩ := (h.flock 4 1 lockEx rfl (.inr rfl)).1
    ((sysFlock_eagain_iff rfl (.inr rfl)).2 hconflict)
  obtain rfl | rfl | hrest : j = 0 ∨ j = 1 ∨ 2 ≤ j := by omega
  · exact hfile hsame
  · exact hne rfl
  · -- The other handles are not in use.
    have hlt : j < 16 := hj
    interval_cases j <;> exact absurd huse Bool.false_ne_true

/-- A FAT32 volume whose files have the first clusters that `clusters` gives. -/
def fatNode (clusters : CString → UInt32) (path : CString) : VfsNode :=
  (lookupFat32Node (fun path => some (false, clusters path, 8)) path).getD zeroNode

/-- The node of the first file of an instance of AOSFS, without block devices. -/
def firstFile (role : Nat) : VfsNode :=
  let blk : Block.BlockLayer :=
    ⟨fun _ => ⟨false, false, false, false, 512, Nat.succ_pos 511, 0, Nat.two_pow_pos 41,
      fun _ => 0⟩, 0, 0⟩
  (((Aosfs.aosfsInit blk).volume role).insertEntry .faultless 0 .regular 0o644 0 0
    (CString.ofString "a")).2.fillDynamicNode 0

/-- The FAT32 file `a`, which starts at cluster 5, is open twice, and `b` at cluster 6 once. -/
def threeOpen : IoState Unit :=
  let node := fatNode fun path => if path = CString.ofString "a" then 5 else 6
  let s : FdState := ⟨initProcessFdTable, FdObjects.zero⟩
  let s := (s.installVnodeFd (node (CString.ofString "a")) 2).2
  let s := (s.installVnodeFd (node (CString.ofString "b")) 2).2
  ⟨(s.installVnodeFd (node (CString.ofString "a")) 2).2, ()⟩

/-- The calls act on the handles of `a`, which is locked, and of `b`. -/
theorem file_identity_iff_clusters :
    (threeOpen.relock (fun j => if j = 0 then lockEx.toNat else 0) fun _ => 8).ActsOnFile
      fun j => (if j = 1 then Found.fat32 1 6 else .fat32 0 5).file := by
  refine (file_identity_iff _ threeOpen (by decide)).2 (fun _ i j _ _ _ => ?_) _ _
  split_ifs <;> simp [Found.NoClash]

/-- Files that are open, and a lock of one that is refused because the other is locked: two FAT32
files without a cluster, and the first files of two instances of AOSFS. -/
theorem empty_files_conflict :
    let empty := lockedFirst (fatNode (fun _ => 0) (CString.ofString "a"))
      (fatNode (fun _ => 0) (CString.ofString "b"))
    let first := lockedFirst (firstFile 0) (firstFile 1)
    ((∀ j < 2, (Found.fat32 j 0).Names (empty.objects.handles j).node) ∧
      ¬ empty.ActsOnFile fun j => (Found.fat32 j 0).file) ∧
    (∀ j < 2, (Found.aosfs j 0 Aosfs.dynamicInoBase).Names (first.objects.handles j).node) ∧
      ¬ first.ActsOnFile fun j => (Found.aosfs j 0 Aosfs.dynamicInoBase).file :=
  ⟨⟨by decide, lockedFirst_conflicts ⟨rfl, rfl⟩ (by decide)⟩, by decide,
    lockedFirst_conflicts ⟨rfl, rfl⟩ (by decide)⟩

end IoState

end AosKernel.Fd
