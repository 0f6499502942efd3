import AosKernel.Aosfs.Invariant

/-!
# AOSFS: what the operations do to a well-formed volume

One specification per operation, for a plan without faults: an operation either fails and leaves the
volume as it was, or it yields a well-formed volume that differs from the old one in one slot
(`Volume.Outcome`), and the specification gives the entry and the contents of that slot.
-/

namespace AosKernel.Aosfs

open Lib Lib.ByteStore Lib.Loop Block Vfs Function Entry

namespace Volume

/-! ## Table lookups -/

variable {v : Volume}

variable {path : CString} {i : Nat}

lemma findEntry_some (h : v.findEntry path = some i) :
    i < v.inst.entryLimit ∧ (v.inst.entries i).inUse = true ∧ (v.inst.entries i).path = path := by
  have hmem := List.mem_of_find?_eq_some h
  have hp := List.find?_some h
  simp only [Bool.and_eq_true, beq_iff_eq] at hp
  exact ⟨List.mem_range.1 hmem, hp.1, hp.2⟩

lemma findEntry_none (h : v.findEntry path = none) (hi : i < v.inst.entryLimit)
    (hu : (v.inst.entries i).inUse = true) : (v.inst.entries i).path ≠ path := by
  have hp := List.find?_eq_none.1 h i (List.mem_range.2 hi)
  simpa [hu] using hp

lemma freeSlot_some {limit : Nat} (h : v.freeSlot limit = some i) :
    i < limit ∧ (v.inst.entries i).inUse = false := by
  have hmem := List.mem_of_find?_eq_some h
  have hp := List.find?_some h
  exact ⟨List.mem_range.1 hmem, by simpa using hp⟩

section Lookups

variable {env : Env} {v : Volume} (hv : v.Wf env)

include hv

variable {i : Nat}

lemma Wf.lt_of_inUse (h : (v.inst.entries i).inUse = true) : i < maxEntries := by
  by_contra hge
  rw [hv.table.beyond i (by omega)] at h
  exact absurd h (by decide)

variable {path : CString}

/-- In a well-formed volume the lookup finds exactly the entry with the path. -/
lemma Wf.findEntry_iff :
    v.findEntry path = some i ↔
      (v.inst.entries i).inUse = true ∧ (v.inst.entries i).path = path := by
  constructor
  · intro h
    exact (findEntry_some h).2
  · rintro ⟨hu, hp⟩
    have hi := hv.lt_of_inUse hu
    cases hf : v.findEntry path with
    | none =>
      exact absurd hp (findEntry_none hf (by rw [hv.table.limit]; exact hi) hu)
    | some j =>
      obtain ⟨-, huj, hpj⟩ := findEntry_some hf
      rw [hv.table.distinct j i huj hu (hpj.trans hp.symm)]

lemma Wf.findEntry_none_iff :
    v.findEntry path = none ↔
      ∀ i, (v.inst.entries i).inUse = true → (v.inst.entries i).path ≠ path := by
  constructor
  · intro h i hu
    exact findEntry_none h (by rw [hv.table.limit]; exact hv.lt_of_inUse hu) hu
  · intro h
    cases hf : v.findEntry path with
    | none => rfl
    | some j =>
      obtain ⟨-, hu, hp⟩ := findEntry_some hf
      exact absurd hp (h j hu)

lemma Wf.lt_of_findEntry (h : v.findEntry path = some i) : i < maxEntries :=
  hv.lt_of_inUse (findEntry_some h).2.1

lemma Wf.memoryEntryData_eq (hb : v.inst.blockBacked = false)
    (hu : (v.inst.entries i).inUse = true) (hk : (v.inst.entries i).kind ≠ .directory) :
    v.memoryEntryData i = some (v.mem i) := by
  have hm := hv.inMemory hb
  have hrole := hm.role_le
  have hslot := hm.slot_lt i hu hk
  unfold memoryEntryData
  rw [if_neg (by omega)]

end Lookups

/-! ## Committing an entry -/

/-- `v'` is a well-formed volume that differs from `v` in slot `i`, where it has the entry `e`. -/
structure Outcome (env : Env) (v v' : Volume) (i : Nat) (e : Entry) : Prop where
  wf : v'.Wf env
  update : Update env v v' i
  slot_lt : i < maxEntries
  entry : v'.inst.entries i = e

section Commit

variable {env : Env} {v w : Volume} {i : Nat} {e : Entry}

/-- Set the entry of slot `i` and write it back, after device and memory writes for the slot. -/
lemma commit (hv : v.Wf env) (hi : i < maxEntries) (hu : Update env v w i) (hok : e.Ok)
    (hdistinct : ∀ j, j ≠ i → e.inUse = true → (v.inst.entries j).inUse = true → (v.inst.entries
      j).path ≠ e.path)
    (hpacked : v.inst.blockBacked = true → Packed (update (fun j => (v.inst.entries j).extent) i
      e.extent) dataOffset w.inst.nextDataOffset)
    (hnext : v.inst.blockBacked = true → w.inst.nextDataOffset ≤ v.activeStorageSize env)
    (hsize : v.inst.blockBacked = true → e.size ≤ e.dataCapacity)
    (hslot : v.inst.blockBacked = false → e.inUse = true → e.kind ≠ .directory → i <
      memoryFileLimit) (hinline : v.inst.blockBacked = false → e.size ≤ inlineCapacity) :
    ∃ v', (w.setEntry i e).syncEntry .faultless i = (true, v') ∧ Outcome env v v' i e ∧
      Synced env v (w.setEntry i e) v' i := by
  obtain ⟨v', hok', hsync⟩ := syncEntry_ok hv hi (hu.trans (.setEntry env w i e))
  have he : v'.inst.entries i = e := by
    rw [hsync.inst, setEntry_self]
  have hn : v'.inst.nextDataOffset = w.inst.nextDataOffset := by
    rw [hsync.inst]
    rfl
  refine ⟨v', hok', ⟨hv.of_update hi hsync.update ?_, hsync.update, hi, he⟩, hsync⟩
  refine ⟨?_, ?_, ?_, ?_, ?_, ?_, ?_, ?_⟩
  · rwa [he]
  · rwa [he]
  · rwa [he, hn]
  · rwa [hn]
  · rwa [he]
  · rw [he]
    intro hb
    rw [hsync.record hb, setEntry_self]
  · rwa [he]
  · rwa [he]

/-- The contents of slot `i` after a commit that keeps the place of the data. -/
theorem Synced.content {v' : Volume} (h : Synced env v (w.setEntry i e) v' i)
    (hoff : v.inst.blockBacked = true → e.size ≠ 0 → dataOffset ≤ e.dataOffset)
    (hsame : e.dataOffset = (w.inst.entries i).dataOffset) :
    v'.content i = slice (w.dataStore i) 0 e.size := by
  have hentry : v'.inst.entries i = e := by rw [h.inst, setEntry_self]
  have hbw : w.inst.blockBacked = v'.inst.blockBacked := by
    rw [h.inst]
    rfl
  unfold Volume.content
  rw [hentry]
  by_cases hsize : e.size = 0
  · rw [hsize, slice_zero, slice_zero]
  apply slice_congr
  intro o _ _
  unfold Volume.dataStore
  rw [hbw]
  cases hcase : v'.inst.blockBacked with
  | false =>
    rw [h.mem]
    rfl
  | true =>
    simp only [if_true]
    have hge := hoff (h.update.blockBacked ▸ hcase) hsize
    rw [hentry, ← hsame, h.bytes _ (by omega)]
    rfl

lemma Wf.dataOffset_le (hv : v.Wf env) (hb : v.inst.blockBacked = true)
    (hcap : (v.inst.entries i).dataCapacity ≠ 0) : dataOffset ≤ (v.inst.entries i).dataOffset ∧
      (v.inst.entries i).dataOffset + (v.inst.entries i).dataCapacity ≤ v.inst.nextDataOffset := by
  have hext := (hv.table.entry_ok i).extent_eq (.inr hcap)
  rcases (hv.onDisk hb).packed.within hext with h0 | h1
  · exact absurd h0 hcap
  · exact h1

lemma commit_inPlace (hv : v.Wf env) (hi : i < maxEntries) (hu : Update env v w i)
    (hinst : w.inst = v.inst) (hok : e.Ok) (huse : (v.inst.entries i).inUse = true)
    (hpath : e.path = (v.inst.entries i).path) (hext : e.extent = (v.inst.entries i).extent)
    (hoff : e.dataOffset = (v.inst.entries i).dataOffset)
    (hcap : e.dataCapacity = (v.inst.entries i).dataCapacity)
    (hkind : e.kind ≠ .directory → (v.inst.entries i).kind ≠ .directory)
    (hsize : v.inst.blockBacked = true → e.size ≤ e.dataCapacity)
    (hinline : v.inst.blockBacked = false → e.size ≤ inlineCapacity) :
    ∃ v', (w.setEntry i e).syncEntry .faultless i = (true, v') ∧ Outcome env v v' i e ∧
      v'.content i = slice (w.dataStore i) 0 e.size := by
  obtain ⟨v', hcommit, hout, hsync⟩ := commit (e := e) hv hi hu hok
    (by
      intro j hj _ hju heq
      exact hj (hv.table.distinct j i hju huse (heq.trans hpath)))
    (by
      intro hb
      rw [hext, hinst, update_eq_self]
      exact (hv.onDisk hb).packed)
    (by
      intro hb
      rw [hinst]
      exact (hv.onDisk hb).next_le)
    hsize
    (fun hb _ hk => (hv.inMemory hb).slot_lt i huse (hkind hk))
    hinline
  refine ⟨v', hcommit, hout, hsync.content ?_ (by rw [hinst, hoff])⟩
  intro hb hne
  rw [hoff]
  exact (hv.dataOffset_le hb (by have := hsize hb; omega)).1

lemma commit_fresh (hv : v.Wf env) (hi : i < maxEntries) (n : UInt64) (hok : e.Ok)
    (hnew : ∀ j, (v.inst.entries j).inUse = true → (v.inst.entries j).path ≠ e.path)
    (hzero : e.size = 0 ∧ e.dataOffset = 0 ∧ e.dataCapacity = 0)
    (hslot : v.inst.blockBacked = false → e.kind ≠ .directory → i < memoryFileLimit) :
    ∃ v', ((v.setNextInode n).setEntry i e).syncEntry .faultless i = (true, v') ∧
      Outcome env v v' i e := by
  obtain ⟨v', hcommit, hout, -⟩ := commit (w := v.setNextInode n) (e := e) hv hi
    (.setNextInode env v i n) hok
    (fun j _ _ hju => hnew j hju)
    (by
      intro hb
      have hp := (hv.onDisk hb).packed
      unfold extent
      split
      · rw [hzero.2.1, hzero.2.2]
        exact hp.placeEmpty i 0
      · exact hp.release i)
    (fun hb => (hv.onDisk hb).next_le)
    (fun _ => by omega)
    (fun hb _ hk => hslot hb hk)
    (fun _ => by omega)
  exact ⟨v', hcommit, hout⟩

lemma commit_clear (hv : v.Wf env) (hi : i < maxEntries) :
    ∃ v', (v.setEntry i zero).syncEntry .faultless i = (true, v') ∧
      Outcome env v v' i zero := by
  obtain ⟨v', hcommit, hout, -⟩ := commit (e := zero) hv hi (.refl env v i) Entry.Ok.zero
    (fun j _ h => absurd h (by decide))
    (fun hb => (hv.onDisk hb).packed.release i)
    (fun hb => (hv.onDisk hb).next_le)
    (fun _ => le_rfl)
    (fun _ h => absurd h (by decide))
    (fun _ => by decide)
  exact ⟨v', hcommit, hout⟩

end Commit

/-! ## Entries -/

section Entries

variable {env : Env} {v : Volume}

variable {path : CString} {e : Entry} {i : Nat}

lemma fresh_ok {kind : EntryKind} {mode : UInt16} {uid gid : UInt32} {inode : UInt64}
    (hpath : path.length < pathMax) :
    (fresh kind mode uid gid inode path).Ok where
  unused := by intro h; simp [fresh] at h
  path_lt := by
    unfold fresh
    rwa [CString.truncate_of_lt hpath]
  mode_mask := by
    unfold fresh
    rw [UInt16.and_assoc, UInt16.and_self]
  size_le := by simp [fresh, zero]
  directory := fun _ => ⟨rfl, rfl, rfl⟩
  empty := fun _ => rfl

lemma insertEntry_spec (hv : v.Wf env) (hi : i < maxEntries) (kind : EntryKind) (mode : UInt16)
    (uid gid : UInt32) (hpath : path.length < pathMax) (hnew : v.findEntry path = none)
    (hslot : v.inst.blockBacked = false → kind ≠ .directory → i < memoryFileLimit) :
    ∃ v', v.insertEntry .faultless i kind mode uid gid path = (true, v') ∧
      Outcome env v v' i (fresh kind mode uid gid v.inst.nextInode path) := by
  obtain ⟨v', hcommit, hout⟩ := commit_fresh hv hi (v.inst.nextInode + 1)
    (e := fresh kind mode uid gid v.inst.nextInode path) (fresh_ok hpath)
    (by
      intro j hj
      simp only [fresh]
      rw [CString.truncate_of_lt hpath]
      exact hv.findEntry_none_iff.1 hnew j hj)
    ⟨rfl, rfl, rfl⟩ hslot
  refine ⟨v', ?_, hout⟩
  unfold insertEntry
  simp only [hcommit]

/-- A create fails without effect, finds an existing file, or makes an empty file. -/
lemma createPathMode_spec (hv : v.Wf env) (path : CString) (mode : UInt16) (uid gid : UInt32) :
    ((v.createPathMode .faultless env path mode uid gid).1 = none ∧
      (v.createPathMode .faultless env path mode uid gid).2 = v) ∨
    (∃ i, v.findEntry path = some i ∧ (v.inst.entries i).kind ≠ .directory ∧
      v.createPathMode .faultless env path mode uid gid = (some (v.fillDynamicNode i), v)) ∨
    (∃ i v', v.findEntry path = none ∧ (v.inst.entries i).inUse = false ∧
      path.length < pathMax ∧
      v.createPathMode .faultless env path mode uid gid = (some (v'.fillDynamicNode i), v') ∧
      Outcome env v v' i (fresh .regular mode uid gid v.inst.nextInode path)) := by
  unfold createPathMode
  split
  · exact .inl ⟨rfl, rfl⟩
  next hpath =>
  split
  · exact .inl ⟨rfl, rfl⟩
  split
  · exact .inl ⟨rfl, rfl⟩
  split
  · exact .inl ⟨rfl, rfl⟩
  next parent hparent =>
  split
  · exact .inl ⟨rfl, rfl⟩
  split
  · next i hfind =>
    split
    · exact .inl ⟨rfl, rfl⟩
    · next hkind => exact .inr (.inl ⟨i, hfind, hkind, rfl⟩)
  next hfind =>
  split
  · exact .inl ⟨rfl, rfl⟩
  next i hslot =>
  simp only [not_or, not_le, ge_iff_le] at hpath
  obtain ⟨hi, hfree⟩ := freeSlot_some hslot
  have hlimit := hv.table.limit
  obtain ⟨v', hins, hout⟩ := insertEntry_spec hv (i := i)
    (by rw [hlimit] at hi; unfold maxEntries memoryFileLimit at *; split at hi <;> omega)
    .regular mode uid gid hpath.2 hfind
    (by intro hb _; simpa [hb] using hi)
  rw [hins]
  exact .inr (.inr ⟨i, v', hfind, hfree, hpath.2, rfl, hout⟩)

lemma mkdirPathMode_spec (hv : v.Wf env) (path : CString) (mode : UInt16) (uid gid : UInt32) :
    v.mkdirPathMode .faultless path mode uid gid = (false, v) ∨
    (∃ i v', v.findEntry path = none ∧ (v.inst.entries i).inUse = false ∧
      path.length < pathMax ∧
      v.mkdirPathMode .faultless path mode uid gid = (true, v') ∧
      Outcome env v v' i (fresh .directory mode uid gid v.inst.nextInode path)) := by
  unfold mkdirPathMode
  split
  · exact .inl rfl
  next hpath =>
  split
  · exact .inl rfl
  next hfind =>
  split
  · exact .inl rfl
  split
  · exact .inl rfl
  next parent hparent =>
  split
  · exact .inl rfl
  split
  · exact .inl rfl
  next i hslot =>
  simp only [not_or, not_le, ge_iff_le] at hpath
  have hnone : v.findEntry path = none := by
    simp only [not_or, Option.not_isSome_iff_eq_none] at hfind
    exact hfind.1
  obtain ⟨hi, hfree⟩ := freeSlot_some hslot
  rw [hv.table.limit] at hi
  obtain ⟨v', hins, hout⟩ := insertEntry_spec hv hi .directory mode uid gid hpath.2 hnone
    (fun _ h => absurd rfl h)
  rw [hins]
  exact .inr ⟨i, v', hnone, hfree, hpath.2, rfl, hout⟩

/-- The attributes of an entry that `chmod`, `chown` and the symlink step change. -/
structure Entry.SameData (e e' : Entry) : Prop where
  inUse : e'.inUse = e.inUse
  size : e'.size = e.size
  dataOffset : e'.dataOffset = e.dataOffset
  dataCapacity : e'.dataCapacity = e.dataCapacity
  path : e'.path = e.path
  kind : e'.kind = .directory ↔ e.kind = .directory
  mode : e.mode &&& modeMask = e.mode → e'.mode &&& modeMask = e'.mode

lemma commit_attributes (hv : v.Wf env) (huse : (v.inst.entries i).inUse = true)
    (h : Entry.SameData (v.inst.entries i) e) :
    ∃ v', (v.setEntry i e).syncEntry .faultless i = (true, v') ∧ Outcome env v v' i e ∧
      v'.content i = v.content i := by
  have hold := hv.table.entry_ok i
  have hok : e.Ok := by
    refine ⟨?_, ?_, h.mode hold.mode_mask, ?_, ?_, ?_⟩
    · intro hu
      rw [h.inUse, huse] at hu
      exact absurd hu (by simp)
    · rw [h.path]
      exact hold.path_lt
    · rw [h.size]
      exact hold.size_le
    · intro hk
      rw [h.size, h.dataOffset, h.dataCapacity]
      exact hold.directory (h.kind.1 hk)
    · intro hc
      rw [h.dataOffset]
      exact hold.empty (h.dataCapacity ▸ hc)
  have hext : e.extent = (v.inst.entries i).extent := by
    unfold extent
    rw [h.inUse, h.dataOffset, h.dataCapacity]
    simp only [ne_eq, h.kind]
  obtain ⟨v', hcommit, hout, hcontent⟩ := commit_inPlace (e := e) hv (hv.lt_of_inUse huse)
    (.refl env v i) rfl hok huse h.path hext h.dataOffset h.dataCapacity
    (fun hk hd => hk (h.kind.2 hd))
    (by
      intro hb
      rw [h.size, h.dataCapacity]
      exact (hv.onDisk hb).size_le i)
    (by
      intro hb
      rw [h.size]
      exact (hv.inMemory hb).size_le i)
  refine ⟨v', hcommit, hout, ?_⟩
  rw [hcontent, h.size]
  rfl

lemma updateEntry_spec (hv : v.Wf env) (path : CString) {f : Entry → Entry}
    (hf : ∀ e, Entry.SameData e (f e)) :
    v.updateEntry .faultless path f = (false, v) ∨
    (∃ i v', v.findEntry path = some i ∧ v.updateEntry .faultless path f = (true, v') ∧
      Outcome env v v' i (f (v.inst.entries i)) ∧ v'.content i = v.content i) := by
  unfold updateEntry
  split
  · exact .inl rfl
  next i hfind =>
  obtain ⟨v', hcommit⟩ := commit_attributes hv (findEntry_some hfind).2.1 (hf (v.inst.entries i))
  exact .inr ⟨i, v', hfind, hcommit⟩

lemma sameData_chmod (mode : UInt16) (e : Entry) :
    Entry.SameData e { e with mode := mode &&& modeMask } :=
  ⟨rfl, rfl, rfl, rfl, rfl, Iff.rfl, fun _ => by simp only; rw [UInt16.and_assoc, UInt16.and_self]⟩

lemma sameData_chown (uid gid : UInt32) (e : Entry) :
    Entry.SameData e { e with uid := uid, gid := gid } :=
  ⟨rfl, rfl, rfl, rfl, rfl, Iff.rfl, fun h => h⟩

lemma sameData_symlink (h : e.kind ≠ .directory) :
    Entry.SameData e { e with kind := .symlink, mode := defaultSymlinkMode } :=
  ⟨rfl, rfl, rfl, rfl, rfl, by simp [h], fun _ => (by decide :
    defaultSymlinkMode &&& modeMask = defaultSymlinkMode)⟩

lemma unlinkPath_spec (hv : v.Wf env) (path : CString) :
    v.unlinkPath .faultless path = (false, v) ∨
    (∃ i v', v.findEntry path = some i ∧ (v.inst.entries i).kind ≠ .directory ∧
      v.unlinkPath .faultless path = (true, v') ∧ Outcome env v v' i zero) := by
  unfold unlinkPath
  split
  · exact .inl rfl
  split
  · exact .inl rfl
  next i hfind =>
  split
  · exact .inl rfl
  next hkind =>
  obtain ⟨v', hsync, hout⟩ := commit_clear hv (hv.lt_of_findEntry hfind)
  exact .inr ⟨i, v', hfind, hkind, hsync, hout⟩

lemma rmdirPath_spec (hv : v.Wf env) (path : CString) :
    v.rmdirPath .faultless path = (false, v) ∨
    (∃ i v', v.findEntry path = some i ∧ (v.inst.entries i).kind = .directory ∧
      v.rmdirPath .faultless path = (true, v') ∧ Outcome env v v' i zero) := by
  unfold rmdirPath
  split
  · exact .inl rfl
  split
  · exact .inl rfl
  next i hfind =>
  split
  · exact .inl rfl
  next hkind =>
  split
  · exact .inl rfl
  obtain ⟨v', hsync, hout⟩ := commit_clear hv (hv.lt_of_findEntry hfind)
  exact .inr ⟨i, v', hfind, by simpa using hkind, hsync, hout⟩

end Entries

end Volume

end AosKernel.Aosfs
