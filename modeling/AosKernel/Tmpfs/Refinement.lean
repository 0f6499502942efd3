import AosKernel.Tmpfs.State

/-!
# tmpfs: files refine byte lists

`TmpfsState.files` is the abstract view of the table: what each normalised path names. `Specified`:
a call that fails leaves that view alone, and a call that succeeds has the effect of the same call
on byte lists, at its own path only.

`tmpfs_write_path` misses it in three ways, and in these only (`write_refines_iff`): the gap in
front of a write behind the end of the file is not cleared; the sum in the clamp wraps, so the copy
leaves the buffer; and a write at or behind the capacity succeeds without setting `*new_size`.
-/

namespace AosKernel.Tmpfs

open Lib Lib.ByteStore Vfs Function Entry List
open Aosfs (resized written readContent)

/-! ## The abstract view -/

/-- What a path names. -/
inductive Node where
  | regular (bytes : List UInt8)
  | directory
  deriving DecidableEq, Repr

abbrev Files := CString → Option Node

def Entry.node (e : Entry) : Node :=
  if e.type = .regular then .regular (slice e.data 0 e.size) else .directory

def TmpfsState.files (s : TmpfsState) : Files := fun p =>
  (s.findEntry p).map fun i => (s.entries i).node

/-- The byte-list write: a file holds at most `fileCapacity` bytes, so a write behind that stores
nothing, and any other zero-extends to its offset and overwrites from there. -/
def writtenWithin (offset : Nat) (data c : List UInt8) : List UInt8 :=
  if fileCapacity ≤ offset then c else written offset data c

/-- What a call may do to the files `m`, given its reply; `m'` are the files afterwards. -/
def Specified (m : Files) (m' : Files) : Call → Reply → Prop
  | _, .error => m' = m
  | _, .overrun => False
  | .create path _ _ _, .node _ =>
      ∃ p, normalizeTmpfsPath path pathMax = some p ∧
        (m p = none ∧ m' = update m p (some (.regular [])) ∨
          (∃ c, m p = some (.regular c)) ∧ m' = m)
  | .mkdir path _ _ _, .success =>
      ∃ p, normalizeTmpfsPath path pathMax = some p ∧ m p = none ∧ m' = update m p (some .directory)
  | .resize path size, .success =>
      ∃ p c, normalizeTmpfsPath path pathMax = some p ∧ m p = some (.regular c) ∧
        m' = update m p (some (.regular (resized size.toNat c)))
  | .truncate path, .success =>
      ∃ p c, normalizeTmpfsPath path pathMax = some p ∧ m p = some (.regular c) ∧
        m' = update m p (some (.regular []))
  | .read path offset _ len, .bytes data =>
      ∃ p c, normalizeTmpfsPath path pathMax = some p ∧ m p = some (.regular c) ∧
        readContent c offset.toNat len.toNat = some data ∧ m' = m
  | .write path offset buffer len _ wantsSize, .stored count newSize =>
      ∃ p c source, normalizeTmpfsPath path pathMax = some p ∧ m p = some (.regular c) ∧
        buffer = some source ∧
        count.toNat = min len.toNat (fileCapacity - offset.toNat) ∧
        m' = update m p
          (some (.regular (writtenWithin offset.toNat (slice source 0 count.toNat) c))) ∧
        (wantsSize = true → newSize =
          some (writtenWithin offset.toNat (slice source 0 count.toNat) c).length)
  | .unlink path, .success =>
      ∃ p c, normalizeTmpfsPath path pathMax = some p ∧ m p = some (.regular c) ∧
        m' = update m p none
  | .rmdir path, .success =>
      ∃ p, normalizeTmpfsPath path pathMax = some p ∧ m p = some .directory ∧ m' = update m p none
  | .chmod _ _, .success => m' = m
  | .chown _ _ _, .success => m' = m
  | _, _ => False

/-! ## The invariant -/

/-- The table is sound: every size is within the buffer, and no path is there twice. -/
structure TmpfsState.Sound (s : TmpfsState) : Prop where
  size_le : ∀ i, (s.entries i).size ≤ fileCapacity
  unique : ∀ i < maxEntries, ∀ j < maxEntries, (s.entries i).inUse = true →
    (s.entries j).inUse = true → (s.entries i).path = (s.entries j).path → i = j
  kind : ∀ i, (s.entries i).type = .regular ∨ (s.entries i).type = .directory

namespace TmpfsState

variable {s : TmpfsState} {i : Nat} {p : CString} {e : Entry}

lemma findEntry_some (h : s.findEntry p = some i) :
    i < maxEntries ∧ (s.entries i).inUse = true ∧ (s.entries i).path = p := by
  have hmem := mem_of_find?_eq_some h
  have hp := find?_some h
  simp only [Bool.and_eq_true, beq_iff_eq] at hp
  exact ⟨mem_range.1 hmem, hp⟩

lemma findEntry_none_iff :
    s.findEntry p = none ↔
      ∀ i < maxEntries, (s.entries i).inUse = true → (s.entries i).path ≠ p := by
  simp [findEntry, find?_eq_none]

lemma Sound.findEntry_iff (hs : s.Sound) :
    s.findEntry p = some i ↔
      i < maxEntries ∧ (s.entries i).inUse = true ∧ (s.entries i).path = p := by
  refine ⟨findEntry_some, ?_⟩
  rintro ⟨hi, huse, hpath⟩
  cases h : s.findEntry p with
  | none => exact absurd hpath (findEntry_none_iff.1 h i hi huse)
  | some j =>
    obtain ⟨hj, huse', hpath'⟩ := findEntry_some h
    rw [hs.unique j hj i hi huse' huse (hpath'.trans hpath.symm)]

lemma files_of_findEntry (h : s.findEntry p = some i) : s.files p = some (s.entries i).node := by
  simp [files, h]

lemma files_of_none (h : s.findEntry p = none) : s.files p = none := by
  simp [files, h]

lemma files_regular (hfind : s.findEntry p = some i) (htype : (s.entries i).type = .regular) :
    s.files p = some (.regular (slice (s.entries i).data 0 (s.entries i).size)) := by
  rw [files_of_findEntry hfind, node, if_pos htype]

lemma sound_init : tmpfsInit.Sound where
  size_le _ := Nat.zero_le _
  unique _ _ _ _ huse := absurd huse (by simp [tmpfsInit, zero])
  kind _ := Or.inl rfl

/-- An entry may take a slot if it is free afterwards, if it keeps the path that is there, or if its
path is new. -/
def Fits (s : TmpfsState) (i : Nat) (e : Entry) : Prop :=
  e.inUse = true → s.findEntry e.path = some i ∨ s.findEntry e.path = none

lemma Sound.setEntry (hs : s.Sound) (hsize : e.size ≤ fileCapacity)
    (hkind : e.type = .regular ∨ e.type = .directory) (hfits : s.Fits i e) :
    (s.setEntry i e).Sound := by
  -- an entry elsewhere with the path of the new one would have been found
  have hnew : ∀ j < maxEntries, j ≠ i → e.inUse = true → (s.entries j).inUse = true →
      (s.entries j).path ≠ e.path := by
    intro j hj hne huse husej hpath
    rcases hfits huse with hfind | hnone
    · have hj' := hs.findEntry_iff.2 ⟨hj, husej, hpath⟩
      exact hne (Option.some.inj (hj'.symm.trans hfind))
    · exact findEntry_none_iff.1 hnone j hj husej hpath
  refine ⟨fun j => ?_, fun j hj k hk husej husek hpath => ?_, fun j => ?_⟩
  · by_cases hji : j = i
    · rw [hji, setEntry_self]
      exact hsize
    · rw [setEntry_of_ne s e hji]
      exact hs.size_le j
  · by_cases hji : j = i <;> by_cases hki : k = i
    · rw [hji, hki]
    · rw [hji, setEntry_self] at husej hpath
      rw [setEntry_of_ne s e hki] at husek hpath
      exact absurd hpath.symm (hnew k hk hki husej husek)
    · rw [hki, setEntry_self] at husek hpath
      rw [setEntry_of_ne s e hji] at husej hpath
      exact absurd hpath (hnew j hj hji husek husej)
    · rw [setEntry_of_ne s e hji] at husej hpath
      rw [setEntry_of_ne s e hki] at husek hpath
      exact hs.unique j hj k hk husej husek hpath
  · by_cases hji : j = i
    · rw [hji, setEntry_self]
      exact hkind
    · rw [setEntry_of_ne s e hji]
      exact hs.kind j

/-- Replacing an entry changes the files at the old and at the new path of the slot only. -/
lemma files_setEntry_of_ne (hs' : (s.setEntry i e).Sound) {q : CString}
    (hold : (s.entries i).inUse = true → (s.entries i).path ≠ q)
    (hnew : e.inUse = true → e.path ≠ q) : (s.setEntry i e).files q = s.files q := by
  cases h : s.findEntry q with
  | none =>
    rw [files_of_none h]
    apply files_of_none
    rw [findEntry_none_iff]
    intro j hj husej
    by_cases hji : j = i
    · rw [hji, setEntry_self] at husej ⊢
      exact hnew husej
    · rw [setEntry_of_ne s e hji] at husej ⊢
      exact findEntry_none_iff.1 h j hj husej
  | some j =>
    obtain ⟨hj, husej, hpath⟩ := findEntry_some h
    have hji : j ≠ i := by
      rintro rfl
      exact hold husej hpath
    have hentry := setEntry_of_ne s e hji
    have hfind : (s.setEntry i e).findEntry q = some j := by
      rw [hs'.findEntry_iff, hentry]
      exact ⟨hj, husej, hpath⟩
    rw [files_of_findEntry h, files_of_findEntry hfind, hentry]

lemma files_put (hi : i < maxEntries)
    (hold : (s.entries i).inUse = true → (s.entries i).path = e.path)
    (hs' : (s.setEntry i e).Sound) (huse : e.inUse = true) :
    (s.setEntry i e).files = update s.files e.path (some e.node) := by
  funext q
  by_cases hq : q = e.path
  · rw [hq, update_self]
    have hfind' : (s.setEntry i e).findEntry e.path = some i := by
      rw [hs'.findEntry_iff, setEntry_self]
      exact ⟨hi, huse, rfl⟩
    rw [files_of_findEntry hfind', setEntry_self]
  · rw [update_of_ne hq]
    exact files_setEntry_of_ne hs' (fun h hpath => hq (hpath.symm.trans (hold h)))
      (fun _ h => hq h.symm)

lemma Sound.files_clear (hs : s.Sound) (hfind : s.findEntry p = some i)
    (hs' : (s.setEntry i zero).Sound) : (s.setEntry i zero).files = update s.files p none := by
  obtain ⟨-, -, hpath0⟩ := findEntry_some hfind
  have hfree : zero.inUse = true → ∀ q : CString, zero.path ≠ q :=
    fun h => absurd h (by simp [zero])
  funext q
  by_cases hq : q = p
  · rw [hq, update_self]
    apply files_of_none
    rw [findEntry_none_iff]
    intro j hj husej hpathj
    by_cases hji : j = i
    · rw [hji, setEntry_self] at husej
      exact hfree husej [] rfl
    · rw [setEntry_of_ne s _ hji] at husej hpathj
      have hfindj := hs.findEntry_iff.2 ⟨hj, husej, hpathj⟩
      exact hji (Option.some.inj (hfindj.symm.trans hfind))
  · rw [update_of_ne hq]
    exact files_setEntry_of_ne hs' (fun _ h => hq (h.symm.trans hpath0)) (fun h => hfree h q)

/-! ## The calls other than the write -/

variable {path : CString}

lemma length_of_normalize {n : Nat} (h : normalizeTmpfsPath path n = some p) : p.length < n := by
  unfold normalizeTmpfsPath at h
  dsimp only at h
  split at h
  · simp at h
  next hc =>
    obtain rfl := Option.some.inj h
    rw [length_take]
    omega

lemma regularEntry_some (h : s.regularEntry path = some i) :
    ∃ p, normalizeTmpfsPath path pathMax = some p ∧ s.findEntry p = some i ∧
      (s.entries i).type = .regular := by
  unfold regularEntry at h
  split at h
  · simp at h
  next p hp =>
  split at h
  · simp at h
  next j hj =>
  split at h
  next htype =>
    obtain rfl := Option.some.inj h
    exact ⟨p, hp, hj, htype⟩
  · simp at h

lemma freeSlot_some (h : s.freeSlot = some i) : i < maxEntries ∧ (s.entries i).inUse = false := by
  have hmem := mem_of_find?_eq_some h
  have hp := find?_some h
  simp only [Bool.not_eq_true'] at hp
  exact ⟨mem_range.1 hmem, hp⟩

lemma Sound.allocateEntry (hs : s.Sound) {type : NodeType} {mode : UInt16} {uid gid : UInt32}
    {s' : TmpfsState} (hp : p.length < pathMax) (hnone : s.findEntry p = none)
    (hkind : type = .regular ∨ type = .directory)
    (h : s.allocateEntry p type mode uid gid = some (i, s')) :
    s'.Sound ∧ s'.files = update s.files p
      (some (if type = .regular then .regular [] else .directory)) := by
  unfold TmpfsState.allocateEntry at h
  split at h
  · simp at h
  next j hj =>
  obtain ⟨hlt, hfree⟩ := freeSlot_some hj
  simp only [CString.truncate_of_lt hp, Option.some.injEq, Prod.mk.injEq] at h
  obtain ⟨-, rfl⟩ := h
  -- the inode counter is not part of the view
  set e : Entry := { zero with
    inUse := true
    type := type
    mode := mode &&& modeMask
    uid := uid
    gid := gid
    inode := s.nextInode
    path := p } with he
  have hs' : (s.setEntry j e).Sound := hs.setEntry (Nat.zero_le _) hkind (fun _ => .inr hnone)
  exact ⟨⟨hs'.size_le, hs'.unique, hs'.kind⟩, files_put hlt (by simp [hfree]) hs' rfl⟩

/-- What a call keeps: the table stays sound, and the reply is the specified one. -/
def Keeps (s : TmpfsState) (c : Call) : Prop :=
  (step s c).2.Sound ∧ Specified s.files (step s c).2.files c (step s c).1

theorem Sound.create (hs : s.Sound) (path : CString) (mode : UInt16) (uid gid : UInt32) :
    s.Keeps (.create path mode uid gid) := by
  unfold Keeps step tmpfsCreatePathMode
  dsimp only
  cases hp : normalizeTmpfsPath path pathMax with
  | none => exact ⟨hs, rfl⟩
  | some p =>
  dsimp only
  split
  · exact ⟨hs, rfl⟩
  cases hfind : s.findEntry p with
  | some i =>
    dsimp only
    split
    · exact ⟨hs, rfl⟩
    next htype =>
      rw [not_not] at htype
      exact ⟨hs, p, hp, Or.inr ⟨⟨_, files_regular hfind htype⟩, rfl⟩⟩
  | none =>
    cases halloc : s.allocateEntry p .regular mode uid gid with
    | none => exact ⟨hs, rfl⟩
    | some r =>
    obtain ⟨hs', hfiles⟩ :=
      hs.allocateEntry (length_of_normalize hp) hfind (Or.inl rfl) halloc
    exact ⟨hs', p, hp, Or.inl ⟨files_of_none hfind, hfiles⟩⟩

lemma Sound.mkdir (hs : s.Sound) (path : CString) (mode : UInt16) (uid gid : UInt32) :
    s.Keeps (.mkdir path mode uid gid) := by
  unfold Keeps step tmpfsMkdirPathMode
  dsimp only
  cases hp : normalizeTmpfsPath path pathMax with
  | none => exact ⟨hs, rfl⟩
  | some p =>
  dsimp only
  split
  · exact ⟨hs, rfl⟩
  next hc =>
  have hfind : s.findEntry p = none := by
    cases h : s.findEntry p with
    | none => rfl
    | some => exact absurd (Or.inr (Or.inl (by rw [h]; rfl))) hc
  cases halloc : s.allocateEntry p .directory mode uid gid with
  | none => exact ⟨hs, rfl⟩
  | some r =>
  obtain ⟨hs', hfiles⟩ :=
    hs.allocateEntry (length_of_normalize hp) hfind (Or.inr rfl) halloc
  exact ⟨hs', p, hp, files_of_none hfind, hfiles⟩

lemma Sound.keepPath (hs : s.Sound) (hfind : s.findEntry p = some i)
    (hsize : e.size ≤ fileCapacity) (huse : e.inUse = true) (hpath : e.path = p)
    (htype : e.type = (s.entries i).type) :
    (s.setEntry i e).Sound ∧ (s.setEntry i e).files = update s.files p (some e.node) := by
  have hkind : e.type = .regular ∨ e.type = .directory := by
    rw [htype]
    exact hs.kind i
  have hs' : (s.setEntry i e).Sound :=
    hs.setEntry hsize hkind (fun _ => .inl (by rw [hpath]; exact hfind))
  obtain ⟨hi, -, hold⟩ := findEntry_some hfind
  subst hpath
  exact ⟨hs', files_put hi (fun _ => hold) hs' huse⟩

lemma Sound.setData (hs : s.Sound) (hfind : s.findEntry p = some i)
    (htype : (s.entries i).type = .regular) (data : Store UInt8) {size : Nat}
    (hsize : size ≤ fileCapacity) :
    (s.setEntry i { s.entries i with data := data, size := size }).Sound ∧
      (s.setEntry i { s.entries i with data := data, size := size }).files =
        update s.files p (some (.regular (slice data 0 size))) := by
  obtain ⟨-, huse, hpath⟩ := findEntry_some hfind
  obtain ⟨hs', hfiles⟩ := hs.keepPath (e := { s.entries i with data := data, size := size })
    hfind hsize huse hpath rfl
  refine ⟨hs', hfiles.trans ?_⟩
  simp only [node, if_pos htype]

lemma slice_resized (data : Store UInt8) (old size : Nat) :
    slice (if size > old then patch data old (zeroBytes (size - old)) else data) 0 size =
      resized size (slice data 0 old) := by
  unfold resized
  rw [slice_length]
  split
  next hgt =>
    obtain ⟨k, rfl⟩ : ∃ k, size = old + k := ⟨size - old, by omega⟩
    have hk : old + k - old = k := by omega
    rw [hk, slice_append, slice_patch_disjoint data (.inl (by omega)), zero_add,
      take_of_length_le (by simp)]
    congr 1
    have hself := slice_patch_self data old (zeroBytes k)
    rwa [zeroBytes_length] at hself
  next hle =>
    have hzero : size - old = 0 := by omega
    rw [hzero, take_slice data (by omega)]
    simp [zeroBytes]

section

variable (hs : s.Sound)
include hs

lemma Sound.resizePath (path : CString) (size : UInt32) :
    (s.tmpfsResizePath path size).2.Sound ∧
      (s.tmpfsResizePath path size = (false, s) ∨
        (s.tmpfsResizePath path size).1 = true ∧ ∃ p c,
          normalizeTmpfsPath path pathMax = some p ∧ s.files p = some (.regular c) ∧
          (s.tmpfsResizePath path size).2.files =
            update s.files p (some (.regular (resized size.toNat c)))) := by
  unfold tmpfsResizePath
  split
  · exact ⟨hs, Or.inl rfl⟩
  next hcap =>
  cases hreg : s.regularEntry path with
  | none => exact ⟨hs, Or.inl rfl⟩
  | some i =>
  obtain ⟨p, hp, hfind, htype⟩ := regularEntry_some hreg
  obtain ⟨hs', hfiles⟩ := hs.setData hfind htype
    (if size.toNat > (s.entries i).size then
      patch (s.entries i).data (s.entries i).size (zeroBytes (size.toNat - (s.entries i).size))
      else (s.entries i).data) (Nat.le_of_not_lt hcap)
  rw [slice_resized] at hfiles
  exact ⟨hs', Or.inr ⟨rfl, p, _, hp, files_regular hfind htype, hfiles⟩⟩

lemma Sound.resize (path : CString) (size : UInt32) : s.Keeps (.resize path size) := by
  obtain ⟨hs', hfail | ⟨hok, hspec⟩⟩ := hs.resizePath path size
  · refine ⟨hs', ?_⟩
    simp only [step, hfail]
    exact rfl
  · refine ⟨hs', ?_⟩
    simp only [step, hok]
    exact hspec

lemma Sound.truncate (path : CString) : s.Keeps (.truncate path) := by
  obtain ⟨hs', hfail | ⟨hok, p, c, hp, hc, hfiles⟩⟩ := hs.resizePath path 0
  · refine ⟨hs', ?_⟩
    simp only [step, tmpfsTruncatePath, hfail]
    exact rfl
  refine ⟨hs', ?_⟩
  simp only [step, tmpfsTruncatePath, hok]
  refine ⟨p, c, hp, hc, hfiles.trans ?_⟩
  simp [resized, zeroBytes]

theorem Sound.read (path : CString) (offset : UInt64) (buffer : Bool) (len : UInt64) :
    s.Keeps (.read path offset buffer len) := by
  unfold Keeps step tmpfsReadPath
  refine ⟨hs, ?_⟩
  dsimp only
  split
  · exact rfl
  cases hreg : s.regularEntry path with
  | none => exact rfl
  | some =>
  obtain ⟨p, hp, hfind, htype⟩ := regularEntry_some hreg
  dsimp only
  split
  · exact rfl
  next hin =>
    refine ⟨p, _, hp, files_regular hfind htype, ?_, rfl⟩
    unfold readContent
    rw [slice_length, if_neg hin, take_drop_slice _ _ (by omega), zero_add]

lemma sound_clear (i : Nat) : (s.setEntry i zero).Sound :=
  hs.setEntry (Nat.zero_le _) (.inl rfl) (fun h => absurd h (by simp [zero]))

theorem Sound.unlink (path : CString) : s.Keeps (.unlink path) := by
  unfold Keeps step tmpfsUnlinkPath
  dsimp only
  cases hreg : s.regularEntry path with
  | none => exact ⟨hs, rfl⟩
  | some i =>
    obtain ⟨p, hp, hfind, htype⟩ := regularEntry_some hreg
    have hs' := sound_clear hs i
    exact ⟨hs', p, _, hp, files_regular hfind htype, hs.files_clear hfind hs'⟩

lemma Sound.rmdir (path : CString) : s.Keeps (.rmdir path) := by
  unfold Keeps step tmpfsRmdirPath
  dsimp only
  cases hp : normalizeTmpfsPath path pathMax with
  | none => exact ⟨hs, rfl⟩
  | some p =>
  dsimp only
  split
  · exact ⟨hs, rfl⟩
  cases hfind : s.findEntry p with
  | none => exact ⟨hs, rfl⟩
  | some i =>
  dsimp only
  split
  · exact ⟨hs, rfl⟩
  next htype =>
  split
  · exact ⟨hs, rfl⟩
  rw [not_not] at htype
  have hs' := sound_clear hs i
  refine ⟨hs', p, hp, ?_, hs.files_clear hfind hs'⟩
  rw [files_of_findEntry hfind, node, htype]
  rfl

/-- Changing the owner or the mode of an entry is not visible in the files. -/
lemma Sound.changeEntry (path : CString) {f : Entry → Entry}
    (hf : ∀ e, (f e).inUse = e.inUse ∧ (f e).type = e.type ∧ (f e).size = e.size ∧ (f e).path =
      e.path ∧ (f e).data = e.data) :
    (s.changeEntry path f).2.Sound ∧ (s.changeEntry path f).2.files = s.files := by
  unfold TmpfsState.changeEntry
  cases hp : normalizeTmpfsPath path pathMax with
  | none => exact ⟨hs, rfl⟩
  | some p =>
  dsimp only
  cases hfind : s.findEntry p with
  | none => exact ⟨hs, rfl⟩
  | some i =>
  obtain ⟨-, huse, hpath⟩ := findEntry_some hfind
  obtain ⟨fuse, ftype, fsize, fpath, fdata⟩ := hf (s.entries i)
  obtain ⟨hs', hfiles⟩ := hs.keepPath (e := f (s.entries i)) hfind
    (fsize.trans_le (hs.size_le i)) (fuse.trans huse) (fpath.trans hpath) ftype
  refine ⟨hs', hfiles.trans ?_⟩
  have hnode : (f (s.entries i)).node = (s.entries i).node := by
    simp only [node, ftype, fsize, fdata]
  rw [hnode, ← files_of_findEntry hfind, update_eq_self]

lemma Sound.chmod (path : CString) (mode : UInt16) : s.Keeps (.chmod path mode) := by
  obtain ⟨hs', hfiles⟩ := hs.changeEntry path
    (f := fun e => { e with mode := mode &&& modeMask }) (fun _ => ⟨rfl, rfl, rfl, rfl, rfl⟩)
  refine ⟨hs', ?_⟩
  simp only [step, tmpfsChmodPath]
  cases (s.changeEntry path fun e => { e with mode := mode &&& modeMask }).1 <;> exact hfiles

lemma Sound.chown (path : CString) (uid gid : UInt32) : s.Keeps (.chown path uid gid) := by
  obtain ⟨hs', hfiles⟩ := hs.changeEntry path
    (f := fun e => { e with uid := uid, gid := gid }) (fun _ => ⟨rfl, rfl, rfl, rfl, rfl⟩)
  refine ⟨hs', ?_⟩
  simp only [step, tmpfsChownPath]
  cases (s.changeEntry path fun e => { e with uid := uid, gid := gid }).1 <;> exact hfiles

end

/-! ## The write -/

/-- The bytes in front of a write are zero, or the write starts inside the file: the bytes of the
buffer between the end of the file and `offset` are zero. -/
def GapClear (e : Entry) (offset : Nat) : Prop := ∀ a, e.size ≤ a → a < offset → e.data a = 0

/-- A copy into the buffer is the byte-list write exactly if the gap in front of it is clear. -/
lemma slice_written_iff (e : Entry) (offset : Nat) (data : List UInt8) :
    slice (patch e.data offset data) 0 (max e.size (offset + data.length)) =
        written offset data (slice e.data 0 e.size) ↔ GapClear e offset := by
  by_cases hoff : offset ≤ e.size
  · have hwritten : written offset data (slice e.data 0 e.size) =
        splice (slice e.data 0 e.size) offset data :=
      AosKernel.Aosfs.written_of_le (by simpa using hoff)
    rw [hwritten, AosKernel.Aosfs.Volume.slice_patch_splice data (fun _ _ => rfl) hoff]
    exact ⟨fun _ a ha hlt => absurd hlt (by omega), fun _ => rfl⟩
  obtain ⟨k, rfl⟩ : ∃ k, offset = e.size + k := ⟨offset - e.size, by omega⟩
  have hmodel : written (e.size + k) data (slice e.data 0 e.size) =
      slice e.data 0 e.size ++ (zeroBytes k ++ data) := by
    unfold written splice
    rw [slice_length, show e.size + k - e.size = k by omega, take_of_length_le (by simp),
      drop_of_length_le (by simp), append_nil, append_assoc]
  have hbuffer : slice (patch e.data (e.size + k) data) 0 (max e.size (e.size + k + data.length)) =
      slice e.data 0 e.size ++ (slice e.data e.size k ++ data) := by
    rw [max_eq_right (by omega), slice_append, zero_add, slice_patch_self,
      slice_patch_disjoint e.data (.inl (by omega)), slice_append, zero_add,
      append_assoc]
  rw [hmodel, hbuffer, append_cancel_left_eq, append_cancel_right_eq]
  constructor
  · intro h a ha hlt
    obtain ⟨j, rfl⟩ : ∃ j, a = e.size + j := ⟨a - e.size, by omega⟩
    have hj : j < k := by omega
    have hget := congrArg (fun l => l[j]?) h
    simpa [slice, zeroBytes, hj] using hget
  · intro h
    apply ext_getElem
    · simp
    · intro j h1 h2
      simp only [slice_length] at h1
      rw [slice_getElem, h _ (by omega) (by omega)]
      simp [zeroBytes]

variable {offset len : UInt64}

lemma clampLength_of_lt (hoff : offset.toNat < fileCapacity)
    (hsum : offset.toNat + len.toNat < 2 ^ 64) :
    (clampLength offset len).toNat = min len.toNat (fileCapacity - offset.toNat) := by
  have hadd : (offset + len).toNat = offset.toNat + len.toNat := by
    rw [UInt64.toNat_add, Nat.mod_eq_of_lt hsum]
  unfold clampLength
  unfold fileCapacity at *
  split
  · have hle : offset ≤ UInt64.ofNat 4096 := by
      rw [UInt64.le_iff_toNat_le]
      simp
      omega
    rw [UInt64.toNat_sub_of_le _ _ hle]
    simp
    omega
  · omega

/-- A sum that wraps is below the offset, so the length is not clamped. -/
lemma clampLength_of_wrap (hoff : offset.toNat < fileCapacity)
    (hsum : 2 ^ 64 ≤ offset.toNat + len.toNat) : clampLength offset len = len := by
  have hlen := len.toNat_lt
  have hofflt := offset.toNat_lt
  have hadd : (offset + len).toNat = offset.toNat + len.toNat - 2 ^ 64 := by
    rw [UInt64.toNat_add, Nat.mod_eq_sub_mod hsum, Nat.mod_eq_of_lt (by omega)]
  unfold clampLength
  rw [if_neg (by rw [hadd]; omega)]

/-- When a write to the entry `e` has the effect of the byte-list write: below the capacity, the sum
of offset and length must not wrap and the gap must be clear; behind it, there must be no
`*new_size` to set. -/
def WriteMeets (e : Entry) (offset len : UInt64) (newSize : Bool) : Prop :=
  if fileCapacity ≤ offset.toNat then newSize = false
  else offset.toNat + len.toNat < 2 ^ 64 ∧ GapClear e offset.toNat

/-- What a write to a regular file does when the copy stays in the buffer. -/
lemma writePath_stored (source : Store UInt8) (newSize : Bool)
    (hreg : s.regularEntry path = some i) (hoff : offset.toNat < fileCapacity)
    (hsum : offset.toNat + len.toNat < 2 ^ 64) :
    ∃ count : UInt64, count.toNat = min len.toNat (fileCapacity - offset.toNat) ∧
      s.tmpfsWritePath path offset (some source) len true newSize =
        (.done count
          (if newSize then some (max (s.entries i).size (offset.toNat + count.toNat)) else none),
        s.setEntry i { s.entries i with
          data := patch (s.entries i).data offset.toNat (slice source 0 count.toNat)
          size := max (s.entries i).size (offset.toNat + count.toNat) }) := by
  have hcount := clampLength_of_lt hoff hsum
  have hcap : fileCapacity = 4096 := rfl
  have hin : ¬offset.toNat + (clampLength offset len).toNat > fileCapacity := by omega
  have hadd : (offset + clampLength offset len).toNat =
      offset.toNat + (clampLength offset len).toNat := by
    rw [UInt64.toNat_add, Nat.mod_eq_of_lt (by omega)]
  have hsize : (if (offset + clampLength offset len).toNat > (s.entries i).size then
      (offset + clampLength offset len).toNat % 2 ^ 32 else (s.entries i).size) =
      max (s.entries i).size (offset.toNat + (clampLength offset len).toNat) := by
    rw [hadd]
    split
    · rw [Nat.mod_eq_of_lt (by omega), max_eq_right (by omega)]
    · rw [max_eq_left (by omega)]
  refine ⟨clampLength offset len, hcount, ?_⟩
  unfold tmpfsWritePath
  simp only [Bool.true_eq_false, if_false, hreg, ge_iff_le, not_le.2 hoff, hin, hsize]

/-- The write keeps the table sound, and meets the specification exactly under `WriteMeets`. -/
theorem Sound.write (hs : s.Sound) (path : CString) (offset : UInt64)
    (buffer : Option (Store UInt8)) (len : UInt64) (written newSize : Bool) :
    ((step s (.write path offset buffer len written newSize)).2).Sound ∧
    (Specified s.files (step s (.write path offset buffer len written newSize)).2.files
        (.write path offset buffer len written newSize)
        (step s (.write path offset buffer len written newSize)).1 ↔
      ∀ i, s.regularEntry path = some i → buffer.isSome = true → written = true →
        WriteMeets (s.entries i) offset len newSize) := by
  cases buffer with
  | none =>
    refine ⟨hs, fun _ i _ h => absurd h (by simp), fun _ => ?_⟩
    exact rfl
  | some source =>
  cases written with
  | false =>
    refine ⟨hs, fun _ i _ _ h => absurd h (by simp), fun _ => ?_⟩
    exact rfl
  | true =>
  cases hreg : s.regularEntry path with
  | none =>
    have hstep : s.tmpfsWritePath path offset (some source) len true newSize = (.error, s) := by
      simp [tmpfsWritePath, hreg]
    simp only [step, hstep]
    exact ⟨hs, fun _ i h => absurd h (by simp), fun _ => rfl⟩
  | some i =>
  obtain ⟨p, hp, hfind, htype⟩ := regularEntry_some hreg
  have hfile := files_regular hfind htype
  have hcond : (∀ j, some i = some j → (some source).isSome = true → true = true →
      WriteMeets (s.entries j) offset len newSize) ↔
      WriteMeets (s.entries i) offset len newSize := by
    constructor
    · exact fun h => h i rfl rfl rfl
    · rintro h j hj - -
      rwa [← Option.some.inj hj]
  rw [hcond]
  unfold WriteMeets
  by_cases hoff : fileCapacity ≤ offset.toNat
  · -- at or behind the capacity: nothing is stored, and `*new_size` is not set
    have hstep : s.tmpfsWritePath path offset (some source) len true newSize =
        (.done 0 none, s) := by
      simp [tmpfsWritePath, hreg, hoff]
    simp only [step, hstep]
    rw [if_pos hoff]
    refine ⟨hs, ?_, ?_⟩
    · rintro ⟨q, c, src, -, -, -, -, -, hsize⟩
      cases newSize with
      | false => rfl
      | true => exact absurd (hsize rfl) (by simp)
    · intro hno
      refine ⟨p, _, source, hp, hfile, rfl, ?_, ?_, ?_⟩
      · rw [Nat.sub_eq_zero_of_le hoff, Nat.min_zero]
        rfl
      · unfold writtenWithin
        rw [if_pos hoff, ← hfile, update_eq_self]
      · intro h
        rw [hno] at h
        exact absurd h (by simp)
  rw [if_neg hoff]
  have hlt : offset.toNat < fileCapacity := Nat.lt_of_not_le hoff
  by_cases hsum : offset.toNat + len.toNat < 2 ^ 64
  · obtain ⟨count, hcount, hstep⟩ := writePath_stored source newSize hreg hlt hsum
    have hcap : max (s.entries i).size (offset.toNat + count.toNat) ≤ fileCapacity := by
      have := hs.size_le i
      omega
    obtain ⟨hs', hfiles⟩ := hs.setData hfind htype
      (patch (s.entries i).data offset.toNat (slice source 0 count.toNat)) hcap
    have hiff := slice_written_iff (s.entries i) offset.toNat (slice source 0 count.toNat)
    rw [slice_length] at hiff
    simp only [step, hstep]
    refine ⟨hs', ?_, ?_⟩
    · rintro ⟨q, c, src, hq, hc, hsrc, -, hm, -⟩
      obtain rfl := Option.some.inj (hp.symm.trans hq)
      obtain rfl := Option.some.inj hsrc
      rw [hfile] at hc
      simp only [Option.some.injEq, Node.regular.injEq] at hc
      rw [hfiles] at hm
      have hat := congrFun hm p
      rw [update_self, update_self] at hat
      simp only [Option.some.injEq, Node.regular.injEq] at hat
      rw [writtenWithin, if_neg hoff, ← hc] at hat
      exact ⟨hsum, hiff.1 hat⟩
    · rintro ⟨-, hgap⟩
      refine ⟨p, _, source, hp, hfile, rfl, hcount, ?_, ?_⟩
      · rw [hfiles, writtenWithin, if_neg hoff, hiff.2 hgap]
      · intro hwant
        rw [writtenWithin, if_neg hoff, ← hiff.2 hgap, slice_length, if_pos hwant]
  · -- the wrapped sum lets the full length through
    have hclamp := clampLength_of_wrap hlt (Nat.le_of_not_lt hsum)
    have hstep : s.tmpfsWritePath path offset (some source) len true newSize = (.overrun, s) := by
      have hcap : fileCapacity = 4096 := rfl
      have hout : offset.toNat + len.toNat > fileCapacity := by omega
      simp [tmpfsWritePath, hreg, hoff, hclamp, hout]
    simp only [step, hstep]
    exact ⟨hs, fun h => h.elim, fun h => absurd h.1 hsum⟩

end TmpfsState

/-! ## Runs -/

/-- What a call must meet in the state before it: a write to a regular file must meet
`WriteMeets`. -/
def Call.Meets (s : TmpfsState) : Call → Prop
  | .write path offset buffer len written newSize =>
      ∀ i, s.regularEntry path = some i → buffer.isSome = true → written = true →
        TmpfsState.WriteMeets (s.entries i) offset len newSize
  | _ => True

open TmpfsState in
/-- One call keeps the table sound, and has the specified effect exactly if it meets its
condition. -/
theorem step_spec {s : TmpfsState} (hs : s.Sound) (c : Call) :
    (step s c).2.Sound ∧ (Specified s.files (step s c).2.files c (step s c).1 ↔ c.Meets s) := by
  have hall : ∀ {c : Call}, s.Keeps c → c.Meets s → (step s c).2.Sound ∧
      (Specified s.files (step s c).2.files c (step s c).1 ↔ c.Meets s) :=
    fun hkeeps hmeets => ⟨hkeeps.1, fun _ => hmeets, fun _ => hkeeps.2⟩
  cases c with
  | create path mode uid gid => exact hall (hs.create path mode uid gid) trivial
  | mkdir path mode uid gid => exact hall (hs.mkdir path mode uid gid) trivial
  | resize path size => exact hall (hs.resize path size) trivial
  | truncate path => exact hall (hs.truncate path) trivial
  | read path offset buffer len => exact hall (hs.read path offset buffer len) trivial
  | write path offset buffer len written newSize =>
    exact hs.write path offset buffer len written newSize
  | unlink path => exact hall (hs.unlink path) trivial
  | rmdir path => exact hall (hs.rmdir path) trivial
  | chmod path mode => exact hall (hs.chmod path mode) trivial
  | chown path uid gid => exact hall (hs.chown path uid gid) trivial

lemma sound_runFrom :
    ∀ (calls : List Call) {s s' : TmpfsState}, s.Sound → runFrom s calls = some s' → s'.Sound := by
  intro calls
  induction calls with
  | nil =>
    intro s s' hs hrun
    obtain rfl := Option.some.inj hrun
    exact hs
  | cons c calls ih =>
    intro s s' hs hrun
    unfold runFrom at hrun
    split at hrun
    · simp at hrun
    · exact ih (step_spec hs c).1 hrun

/-- After any sequence of calls, the next call has exactly the effect of the byte-list model, leaves
every other file alone and stays inside the buffer of its file if and only if it meets its
condition; only writes have one. -/
theorem write_refines_iff {calls : List Call} {s : TmpfsState} (h : runCalls calls = some s)
    (c : Call) : Specified s.files (step s c).2.files c (step s c).1 ↔ c.Meets s :=
  (step_spec (sound_runFrom calls TmpfsState.sound_init h) c).2

def demoPath : CString := CString.ascii ['t', 'm', 'p', '/', 'a']

/-- Write one byte to `tmp/a` at `offset`, asking for `*new_size`. -/
def demoWrite (offset : UInt64) (byte : UInt8) : Call :=
  .write demoPath offset (some fun _ => byte) 1 true true

/-- A write behind the end of a file of one byte is specified: the two bytes of the gap are
clear. -/
theorem write_refines_over_gap : ∃ s, runCalls [.create demoPath 0o600 0 0, demoWrite 0 97] =
    some s ∧ s.files demoPath = some (.regular [97]) ∧
    Specified s.files (step s (demoWrite 3 98)).2.files (demoWrite 3 98)
      (step s (demoWrite 3 98)).1 := by
  have hrun : (runCalls [.create demoPath 0o600 0 0, demoWrite 0 97]).map (fun s =>
      (s.files demoPath, s.regularEntry demoPath, (s.entries 0).size,
        (s.entries 0).data 1, (s.entries 0).data 2)) =
      some (some (.regular [97]), some 0, 1, 0, 0) := by
    decide +kernel
  obtain ⟨s, hs, hvalues⟩ := Option.map_eq_some_iff.1 hrun
  simp only [Prod.mk.injEq] at hvalues
  obtain ⟨hfile, hentry, hsize, h1, h2⟩ := hvalues
  refine ⟨s, hs, hfile, (write_refines_iff hs _).2 fun i hi _ _ => ?_⟩
  obtain rfl := Option.some.inj (hentry.symm.trans hi)
  refine ⟨by decide, fun a ha hlt => ?_⟩
  rw [hsize] at ha
  have hlt : a < 3 := hlt
  obtain rfl | rfl : a = 1 ∨ a = 2 := by omega
  · exact h1
  · exact h2

/-- One byte `a` is written and the file truncated. A write of `b` at offset 1 then brings the `a`
back, where the byte-list model has a zero. -/
theorem stale_bytes_after_truncate :
    ∃ s, runCalls [.create demoPath 0o600 0 0, demoWrite 0 97, .truncate demoPath] = some s ∧
      s.files demoPath = some (.regular []) ∧
      (step s (demoWrite 1 98)).1 = .stored 1 (some 2) ∧
      (step s (demoWrite 1 98)).2.files demoPath = some (.regular [97, 98]) ∧
      ¬Specified s.files (step s (demoWrite 1 98)).2.files (demoWrite 1 98)
        (step s (demoWrite 1 98)).1 := by
  have hrun : (runCalls [.create demoPath 0o600 0 0, demoWrite 0 97, .truncate demoPath]).map
      (fun s => (s.files demoPath, (step s (demoWrite 1 98)).1,
        (step s (demoWrite 1 98)).2.files demoPath)) =
      some (some (.regular []), .stored 1 (some 2), some (.regular [97, 98])) := by
    decide +kernel
  obtain ⟨s, hs, hvalues⟩ := Option.map_eq_some_iff.1 hrun
  simp only [Prod.mk.injEq] at hvalues
  obtain ⟨hempty, hreply, hafter⟩ := hvalues
  refine ⟨s, hs, hempty, hreply, hafter, ?_⟩
  rw [hreply]
  rintro ⟨p, c, source, hp, hc, hsource, -, hfiles, -⟩
  have hnorm : normalizeTmpfsPath demoPath pathMax = some demoPath := by decide +kernel
  obtain rfl := Option.some.inj (hnorm.symm.trans hp)
  obtain rfl := Option.some.inj hsource
  rw [hempty] at hc
  simp only [Option.some.injEq, Node.regular.injEq] at hc
  rw [hfiles, update_self, ← hc] at hafter
  revert hafter
  decide

end AosKernel.Tmpfs
