import AosKernel.Aosfs.MountSpecs

/-!
# AOSFS: the instances together

The invariant of all instances, `AosfsState.Wf`: every volume is well-formed, and volumes on one
device occupy separate ranges of it. An operation on one volume keeps the invariant and the files
of the other volumes (`AosfsState.onVolume_effect`).
-/

namespace AosKernel.Aosfs

open Lib Lib.ByteStore Block Vfs Function AosfsState

namespace Volume

variable {env : Env} {v v' v'' : Volume}

/-! ## Steps of one volume -/

/-- `v'` is a later state of the volume `v`. -/
structure Evolves (env : Env) (v v' : Volume) : Prop where
  wf : v'.Wf env
  header : v'.inst = { v.inst with
    nextInode := v'.inst.nextInode
    nextDataOffset := v'.inst.nextDataOffset
    entries := v'.inst.entries }
  devices : SameDevices v.blk v'.blk
  inside : ∀ id a, (v'.blk.devs id).data a ≠ (v.blk.devs id).data a →
    v.inst.blockBacked = true ∧ id = v.inst.blkdevId ∧ v.inst.baseOffset ≤ a ∧
      a < v.inst.baseOffset + v.activeStorageSize env

lemma Evolves.refl (hv : v.Wf env) : Evolves env v v :=
  ⟨hv, rfl, SameDevices.refl _, fun _ _ h => absurd rfl h⟩

lemma Update.evolves {i : Nat} (h : Update env v v' i) (hv : v.Wf env) (hv' : v'.Wf env) :
    Evolves env v v' where
  wf := hv'
  header := h.header
  devices := h.devices
  inside := by
    intro id a hne
    obtain ⟨hb, hid, o, rfl, hown⟩ := h.own id a hne
    refine ⟨hb, hid, by omega, ?_⟩
    have hge := (hv.onDisk hb).storage_ge
    rcases hown with ⟨hi, -, ho⟩ | ⟨-, ho, -⟩
    · unfold tableOffset diskEntrySize maxEntries at *
      unfold dataOffset at hge
      omega
    · omega

lemma Remounted.evolves (h : Remounted v v') (hv : v.Wf env) : Evolves env v v' :=
  (h.update 0).evolves hv (h.wf hv)

/-- A step that sets the value of the file map at `path`. -/
structure Effect (env : Env) (v v' : Volume) (path : CString) (value : Option (List UInt8)) :
    Prop where
  evolves : Evolves env v v'
  file : v'.file = update v.file path value

lemma Effect.refl (hv : v.Wf env) (path : CString) : Effect env v v path (v.file path) :=
  ⟨Evolves.refl hv, by rw [update_eq_self]⟩

lemma Outcome.effect {i : Nat} {e : Entry} (h : Outcome env v v' i e) (hv : v.Wf env)
    {path : CString} (hslot : v.SlotFor i path) (hpath : e.inUse = true → e.path = path) :
    Effect env v v' path
      (if e.inUse = true ∧ e.kind ≠ .directory then some (v'.content i) else none) :=
  ⟨h.update.evolves hv h.wf, h.file_eq hv hslot hpath⟩

/-! ## A volume under changes of the block layer -/

def withBlk (v : Volume) (blk : BlockLayer) : Volume := { v with blk := blk }

lemma Wf.withBlk (hv : v.Wf env) {blk : BlockLayer} (hdev : SameDevices v.blk blk)
    (hdata : v.inst.blockBacked = true → ∀ o < v.activeStorageSize env,
      (blk.devs v.inst.blkdevId).data (v.inst.baseOffset + o) = v.bytes o) :
    (v.withBlk blk).Wf env ∧ ∀ i, (v.withBlk blk).content i = v.content i := by
  have hsize : (v.withBlk blk).activeStorageSize env = v.activeStorageSize env :=
    activeStorageSize_congr hdev rfl rfl rfl
  have hbytes : v.inst.blockBacked = true → ∀ o < v.activeStorageSize env,
      (v.withBlk blk).bytes o = v.bytes o := hdata
  refine ⟨⟨⟨hv.table.version, hv.table.limit, hv.table.entry_ok, hv.table.beyond,
    hv.table.distinct⟩, ?_, ?_⟩, ?_⟩
  · intro hb
    have hd := hv.onDisk hb
    have hge := hd.storage_ge
    refine ⟨hd.mounted, hd.usable.of_sameDevices hdev, hsize ▸ hge, hd.packed,
      hsize ▸ hd.next_le, hd.size_le, ?_, ?_⟩
    · have hslice : slice (v.withBlk blk).bytes 0 superblockSize =
          slice v.bytes 0 superblockSize := by
        apply slice_congr
        intro a _ ha
        unfold superblockSize at ha
        unfold dataOffset at hge
        exact hbytes hb a (by omega)
      rw [hslice]
      exact hd.superblock
    · intro i hi
      rw [show (v.withBlk blk).inst = v.inst from rfl, ← hd.record i hi]
      apply slice_congr
      intro a _ ha
      unfold tableOffset diskEntrySize at ha
      unfold dataOffset at hge
      unfold maxEntries at hi
      exact hbytes hb a (by omega)
  · intro hb
    have hm := hv.inMemory hb
    exact ⟨hm.role_le, hm.slot_lt, hm.size_le⟩
  · intro i
    apply slice_congr
    intro o _ ho
    have hinst : (v.withBlk blk).inst = v.inst := rfl
    unfold dataStore
    rw [hinst] at ho ⊢
    cases hb : v.inst.blockBacked with
    | false => rfl
    | true =>
      have hend := hv.extent_end_lt hb i
      have hsz := (hv.onDisk hb).size_le i
      exact hbytes hb _ (by omega)

end Volume

/-! ## The state of all instances -/

/-- The volumes are not on a device together, or they occupy separate ranges of it. -/
def Separate (env : Env) (v w : Volume) : Prop :=
  v.inst.blockBacked = true → w.inst.blockBacked = true →
    v.inst.blkdevId ≠ w.inst.blkdevId ∨
      v.inst.baseOffset + v.activeStorageSize env ≤ w.inst.baseOffset ∨
      w.inst.baseOffset + w.activeStorageSize env ≤ v.inst.baseOffset

/-- The invariant of the AOSFS instances. -/
structure AosfsState.Wf (env : Env) (s : AosfsState) : Prop where
  volume : ∀ a ≤ roleTrash, (s.volume a).Wf env
  separate : ∀ a ≤ roleTrash, ∀ b ≤ roleTrash, a ≠ b → Separate env (s.volume a) (s.volume b)

variable (s : AosfsState)

@[simp] lemma AosfsState.setVolume_self (a : Nat) (v : Volume) :
    (s.setVolume a v).volume a = v := by
  simp [volume, setVolume]

lemma AosfsState.setVolume_other {a b : Nat} (v : Volume) (h : b ≠ a) :
    (s.setVolume a v).volume b = (s.volume b).withBlk v.blk := by
  simp [volume, setVolume, Volume.withBlk, update_of_ne h]

/-- The instances keep everything but their tables and allocation counters. -/
def SameHeaders (s s' : AosfsState) : Prop :=
  ∀ a, s'.instances a = { s.instances a with
    nextInode := (s'.instances a).nextInode
    nextDataOffset := (s'.instances a).nextDataOffset
    entries := (s'.instances a).entries }

structure AosfsState.Effect (env : Env) (s s' : AosfsState) (a : Nat) (path : CString)
    (value : Option (List UInt8)) : Prop where
  wf : s'.Wf env
  headers : SameHeaders s s'
  self : (s'.volume a).file = update (s.volume a).file path value
  other : ∀ b ≤ roleTrash, b ≠ a → (s'.volume b).file = (s.volume b).file

section Steps

variable {env : Env} {s : AosfsState} {a : Nat}

variable {path : CString} {value : Option (List UInt8)} {v' : Volume}

/-- The block layer after a step on volume `a` keeps the range of every other volume. -/
lemma AosfsState.Wf.other_bytes (hs : s.Wf env) (ha : a ≤ roleTrash)
    (h : Volume.Evolves env (s.volume a) v') {b : Nat} (hb : b ≤ roleTrash) (hne : b ≠ a)
    (hblock : (s.volume b).inst.blockBacked = true) {o : Nat}
    (ho : o < (s.volume b).activeStorageSize env) :
    (v'.blk.devs (s.volume b).inst.blkdevId).data ((s.volume b).inst.baseOffset + o) =
      (s.volume b).bytes o := by
  by_contra hdiff
  obtain ⟨hba, hid, hlo, hhi⟩ := h.inside _ _ hdiff
  rcases hs.separate a ha b hb (Ne.symm hne) hba hblock with h1 | h1 | h1
  · exact h1 hid.symm
  · omega
  · omega

lemma AosfsState.setVolume_effect (hs : s.Wf env) (ha : a ≤ roleTrash)
    (h : Volume.Effect env (s.volume a) v' path value) :
    AosfsState.Effect env s (s.setVolume a v') a path value := by
  have hother : ∀ b ≤ roleTrash, b ≠ a → ((s.setVolume a v').volume b).Wf env ∧
      ∀ i, ((s.setVolume a v').volume b).content i = (s.volume b).content i := by
    intro b hb hne
    rw [setVolume_other s v' hne]
    exact (hs.volume b hb).withBlk h.evolves.devices
      (fun hblock o ho => hs.other_bytes ha h.evolves hb hne hblock ho)
  have hwf : ∀ b ≤ roleTrash, ((s.setVolume a v').volume b).Wf env := by
    intro b hb
    by_cases hne : b = a
    · subst hne
      rw [setVolume_self]
      exact h.evolves.wf
    · exact (hother b hb hne).1
  have hheaders : SameHeaders s (s.setVolume a v') := by
    intro b
    by_cases hne : b = a
    · subst hne
      have := h.evolves.header
      simpa [setVolume, volume] using this
    · simp [setVolume, update_of_ne hne]
  have hsize : ∀ b, ((s.setVolume a v').volume b).activeStorageSize env =
      (s.volume b).activeStorageSize env := by
    intro b
    have hb := hheaders b
    refine Volume.activeStorageSize_congr h.evolves.devices ?_ ?_ ?_ <;>
      · simp only [volume]
        rw [hb]
  refine ⟨⟨hwf, ?_⟩, hheaders, ?_, ?_⟩
  · intro b hb c hc hbc h1 h2
    have hsep := hs.separate b hb c hc hbc
    rw [hsize, hsize]
    simp only [volume] at h1 h2 hsep ⊢
    rw [hheaders] at h1 ⊢
    rw [hheaders c] at h2 ⊢
    exact hsep h1 h2
  · rw [setVolume_self]
    exact h.file
  · intro b hb hne
    funext q
    refine Volume.file_congr (hs.volume b hb) (hwf b hb) ?_
    intro j _
    refine ⟨?_, (hother b hb hne).2 j⟩
    rw [setVolume_other s v' hne]
    rfl

theorem AosfsState.onVolume_effect {β : Type} (hs : s.Wf env) (ha : a ≤ roleTrash)
    {f : Volume → β × Volume} (h : Volume.Effect env (s.volume a) (f (s.volume a)).2 path value) :
    AosfsState.Effect env s (s.onVolume a f).2 a path value :=
  setVolume_effect hs ha h

end Steps

/-! ## Path selection -/

lemma instanceForRole_le (role : Nat) : instanceForRole role ≤ roleTrash := by
  unfold instanceForRole
  split
  · decide
  · omega

lemma selectInstanceForPath_le (path : CString) :
    (selectInstanceForPath s path).1 ≤ roleTrash := by
  unfold selectInstanceForPath
  dsimp only
  split
  · exact instanceForRole_le roleRoot
  · exact instanceForRole_le (selectRole s path).1

lemma selectInstanceForPath_root {path : CString} (hat : (skipSlashes path).head? ≠ some at_)
    (hrole : roleFromSelector (firstComponent (skipSlashes path)) = roleUnknown) :
    selectInstanceForPath s path = (roleRoot, skipSlashes path) := by
  have hsel : selectRole s path = (roleRoot, skipSlashes path) := by
    unfold selectRole
    rw [if_neg hat, if_neg (by simp [hrole])]
  unfold selectInstanceForPath
  rw [hsel]
  simp [instanceForRole, roleRoot, roleTrash]

lemma selectInstanceForPath_congr {s s' : AosfsState} (h : SameHeaders s s') (path : CString) :
    selectInstanceForPath s' path = selectInstanceForPath s path := by
  have hm : ∀ a, (s'.instances a).mounted = (s.instances a).mounted := by
    intro a
    rw [h]
  unfold selectInstanceForPath selectRole
  simp only [hm]

lemma SameHeaders.refl : SameHeaders s s := fun _ => rfl

theorem SameHeaders.trans {s s' s'' : AosfsState} (h : SameHeaders s s')
    (h' : SameHeaders s' s'') : SameHeaders s s'' := by
  intro a
  rw [h', h]

/-! ## The effect of each operation on the file map -/

namespace Volume

variable {env : Env} {v v' : Volume} {i : Nat} {path : CString}

lemma fresh_path {kind : EntryKind} {mode : UInt16} {uid gid : UInt32} {inode : UInt64}
    (h : path.length < pathMax) :
    (Entry.fresh kind mode uid gid inode path).path = path := CString.truncate_of_lt h

lemma file_none_of_findEntry (h : v.findEntry path = none) : v.file path = none := by
  simp [file, h]

lemma Outcome.effect_keep {e : Entry} (h : Outcome env v v' i e) (hv : v.Wf env)
    (hfind : v.findEntry path = some i) (hkeep : Entry.SameData (v.inst.entries i) e)
    (hcontent : v'.content i = v.content i) : Effect env v v' path (v.file path) := by
  obtain ⟨-, huse, hpath⟩ := findEntry_some hfind
  have heffect := h.effect hv (.inl hfind) (fun _ => hkeep.path.trans hpath)
  rw [hkeep.inUse, huse, hcontent] at heffect
  have hvalue : (if True ∧ e.kind ≠ .directory then some (v.content i) else none) =
      v.file path := by
    unfold file
    rw [hfind]
    by_cases hk : (v.inst.entries i).kind = .directory
    · simp [hk, hkeep.kind.2]
    · have hk' : e.kind ≠ .directory := fun hd => hk (hkeep.kind.1 hd)
      simp [hk, hk']
  simp only [true_and] at hvalue heffect
  rwa [hvalue] at heffect

lemma Outcome.effect_content {e : Entry} (h : Outcome env v v' i e) (hv : v.Wf env)
    (hslot : v.SlotFor i path) (huse : e.inUse = true) (hpath : e.path = path)
    (hkind : e.kind ≠ .directory) : Effect env v v' path (some (v'.content i)) := by
  have heffect := h.effect hv hslot (fun _ => hpath)
  rwa [if_pos ⟨huse, hkind⟩] at heffect

lemma Outcome.effect_none {e : Entry} (h : Outcome env v v' i e) (hv : v.Wf env)
    (hslot : v.SlotFor i path) (hpath : e.inUse = true → e.path = path)
    (hno : e.inUse = false ∨ e.kind = .directory) : Effect env v v' path none := by
  have heffect := h.effect hv hslot hpath
  rwa [if_neg (by rcases hno with h0 | h0 <;> simp [h0])] at heffect

section

variable (hv : v.Wf env)
include hv

lemma createPathMode_effect (path : CString) (mode : UInt16) (uid gid : UInt32) :
    Effect env v (v.createPathMode .faultless env path mode uid gid).2 path
      (if (v.createPathMode .faultless env path mode uid gid).1.isSome
        then some ((v.file path).getD []) else v.file path) := by
  rcases createPathMode_spec hv path mode uid gid with
    ⟨h1, h2⟩ | ⟨i, hfind, hkind, h⟩ | ⟨i, v', hfind, hfree, hlen, h, hout⟩
  · rw [h1, h2]
    exact Effect.refl hv path
  · rw [h]
    have hfile := file_of_findEntry hfind hkind
    have := Effect.refl hv path
    rw [hfile] at this ⊢
    exact this
  rw [h]
  have heffect := hout.effect_content hv (.inr ⟨hfind, hfree⟩) rfl (fresh_path hlen)
    (by simp [Entry.fresh])
  have hempty : v'.content i = [] := by
    unfold content
    rw [hout.entry]
    rfl
  rw [hempty] at heffect
  rw [file_none_of_findEntry hfind]
  exact heffect

lemma mkdirPathMode_effect (path : CString) (mode : UInt16) (uid gid : UInt32) :
    Effect env v (v.mkdirPathMode .faultless path mode uid gid).2 path (v.file path) := by
  rcases mkdirPathMode_spec hv path mode uid gid with h | ⟨i, v', hfind, hfree, hlen, h, hout⟩
  · rw [h]
    exact Effect.refl hv path
  · rw [h, file_none_of_findEntry hfind]
    exact hout.effect_none hv (.inr ⟨hfind, hfree⟩) (fun _ => fresh_path hlen) (.inr rfl)

lemma updateEntry_effect (path : CString) {f : Entry → Entry} (hf : ∀ e, Entry.SameData e (f e)) :
    Effect env v (v.updateEntry .faultless path f).2 path (v.file path) := by
  rcases updateEntry_spec hv path hf with h | ⟨i, v', hfind, h, hout, hcontent⟩
  · rw [h]
    exact Effect.refl hv path
  · rw [h]
    exact hout.effect_keep hv hfind (hf _) hcontent

lemma makeSymlink_effect (hfind : v.findEntry path = some i)
    (hkind : (v.inst.entries i).kind ≠ .directory) :
    (v.makeSymlink .faultless i).1 = true ∧
      Effect env v (v.makeSymlink .faultless i).2 path (v.file path) := by
  obtain ⟨v', hok, hout, hcontent⟩ := commit_attributes hv (findEntry_some hfind).2.1
    (sameData_symlink hkind)
  rw [show v.makeSymlink .faultless i = (true, v') from hok]
  exact ⟨rfl, hout.effect_keep hv hfind (sameData_symlink hkind) hcontent⟩

lemma unlinkPath_effect (path : CString) :
    Effect env v (v.unlinkPath .faultless path).2 path
      (if (v.unlinkPath .faultless path).1 then none else v.file path) := by
  rcases unlinkPath_spec hv path with h | ⟨i, v', hfind, hkind, h, hout⟩
  · rw [h]
    exact Effect.refl hv path
  · rw [h]
    exact hout.effect_none hv (.inl hfind) (fun h => absurd h (by decide)) (.inl rfl)

lemma rmdirPath_effect (path : CString) :
    Effect env v (v.rmdirPath .faultless path).2 path (v.file path) := by
  rcases rmdirPath_spec hv path with h | ⟨i, v', hfind, hkind, h, hout⟩
  · rw [h]
    exact Effect.refl hv path
  · rw [h, show v.file path = none by simp [file, hfind, hkind]]
    exact hout.effect_none hv (.inl hfind) (fun h => absurd h (by decide)) (.inl rfl)

lemma truncatePath_effect (path : CString) :
    Effect env v (v.truncatePath .faultless path).2 path
      (if (v.truncatePath .faultless path).1 then some [] else v.file path) := by
  rcases truncatePath_spec hv path with h | ⟨i, v', hfind, hkind, h, hout, hcontent⟩
  · rw [h]
    exact Effect.refl hv path
  obtain ⟨-, huse, hpath⟩ := findEntry_some hfind
  have heffect := hout.effect_content hv (.inl hfind) huse hpath
    (by change (v.inst.entries i).kind ≠ _; rw [hkind]; decide)
  rw [hcontent] at heffect
  rw [h]
  exact heffect

lemma resizePath_effect (path : CString) (size : Nat) :
    Effect env v (v.resizePath .faultless env path size).2 path
      (if (v.resizePath .faultless env path size).1 then (v.file path).map (resized size)
        else v.file path) := by
  rcases resizePath_spec hv path size with h | ⟨i, v', off, cap, hfind, hkind, h, hout, hcontent⟩
  · rw [h]
    exact Effect.refl hv path
  obtain ⟨-, huse, hpath⟩ := findEntry_some hfind
  have hkind' : (v.inst.entries i).kind ≠ .directory := by rw [hkind]; decide
  have heffect := hout.effect_content hv (.inl hfind) huse hpath hkind'
  rw [hcontent] at heffect
  rw [h, file_of_findEntry hfind hkind']
  exact heffect

/-- A write that succeeds leaves some contents, and those of the model unless it starts behind the
end of the file. -/
lemma writePath_effect (path : CString) (offset : Nat) (buffer : List UInt8) :
    ∃ value, Effect env v (v.writePath .faultless env path offset buffer).2 path value ∧
      ((v.writePath .faultless env path offset buffer).1 = none → value = v.file path) ∧
      ((v.writePath .faultless env path offset buffer).1.isSome →
        (∀ c, v.file path = some c → offset ≤ c.length) →
          value = (v.file path).map (written offset buffer)) := by
  rcases writePath_spec hv path offset buffer with
    h | ⟨i, hfind, hkind, hempty, h⟩ | ⟨i, v', off, cap, hfind, hkind, hne, h, hout, hcontent⟩
  · rw [h]
    exact ⟨_, Effect.refl hv path, fun _ => rfl, fun h => by simp at h⟩
  · rw [h, hempty]
    refine ⟨_, Effect.refl hv path, fun h => by simp at h, fun _ hgap => ?_⟩
    have hfile := file_of_findEntry hfind hkind
    have hle := hgap _ hfile
    rw [hfile, Option.map_some, written_of_le hle]
    simp [splice]
  · obtain ⟨-, huse, hpath⟩ := findEntry_some hfind
    have heffect := hout.effect_content hv (.inl hfind) huse hpath hkind
    rw [h]
    refine ⟨_, heffect, fun h => by simp at h, fun _ hgap => ?_⟩
    have hfile := file_of_findEntry hfind hkind
    have hle := hgap _ hfile
    rw [hfile, Option.map_some, written_of_le hle, hcontent (by simpa using hle)]

end

end Volume

end AosKernel.Aosfs
