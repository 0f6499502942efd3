import AosKernel.Aosfs.System

/-!
# AOSFS: calls and reachable states

`Op` is a call of the AOSFS interface and `step` performs it with all block I/O succeeding. Every
call keeps the invariant and sets the file map at its own path (`step_effect`). `Reachable` are the
states that formats, calls and re-mounts lead to; they are well-formed (`Reachable.wf`).
-/

namespace AosKernel.Aosfs

open Lib Lib.ByteStore Block Vfs Function AosfsState Volume AosfsState.Effect

/-! ## Calls -/

/-- A call that may change the file system. -/
inductive Op where
  | create (path : CString) (mode : UInt16) (uid gid : UInt32)
  | mkdir (path : CString) (mode : UInt16) (uid gid : UInt32)
  | symlink (target path : CString) (uid gid : UInt32)
  | write (path : CString) (offset : Nat) (buffer : List UInt8)
  | resize (path : CString) (size : Nat)
  | truncate (path : CString)
  | unlink (path : CString)
  | rmdir (path : CString)
  | chmod (path : CString) (mode : UInt16)
  | chown (path : CString) (uid gid : UInt32)

def Op.path : Op → CString
  | .create path _ _ _ | .mkdir path _ _ _ | .symlink _ path _ _ | .write path _ _
  | .resize path _ | .truncate path | .unlink path | .rmdir path | .chmod path _
  | .chown path _ _ => path

/-- Whether a call succeeds, and the state it leaves. -/
def step (env : Env) (op : Op) (s : AosfsState) : Bool × AosfsState :=
  match op with
  | .create path mode uid gid =>
      let r := aosfsCreatePathMode .faultless env s path mode uid gid
      (r.1.isSome, r.2)
  | .mkdir path mode uid gid => aosfsMkdirPathMode .faultless s path mode uid gid
  | .symlink target path uid gid => aosfsSymlinkPath .faultless env s target path uid gid
  | .write path offset buffer =>
      let r := aosfsWritePath .faultless env s path offset buffer
      (r.1.isSome, r.2)
  | .resize path size => aosfsResizePath .faultless env s path size
  | .truncate path => aosfsTruncatePath .faultless s path
  | .unlink path => aosfsUnlinkPath .faultless s path
  | .rmdir path => aosfsRmdirPath .faultless s path
  | .chmod path mode => aosfsChmodPath .faultless s path mode
  | .chown path uid gid => aosfsChownPath .faultless s path uid gid

/-- What a successful call does to the contents at its path, `none` for no file. -/
def Op.effect : Op → Option (List UInt8) → Option (List UInt8)
  | .create _ _ _ _, c => some (c.getD [])
  | .symlink target _ _ _, c => some (written 0 (CString.bytes target) (c.getD []))
  | .write _ offset buffer, c => c.map (written offset buffer)
  | .resize _ size, c => c.map (resized size)
  | .truncate _, _ => some []
  | .unlink _, _ => none
  | .mkdir _ _ _ _, c | .rmdir _, c | .chmod _ _, c | .chown _ _ _, c => c

def AosfsState.fileAt (s : AosfsState) (path : CString) : Option (List UInt8) :=
  (s.volume (selectInstanceForPath s path).1).file (selectInstanceForPath s path).2

/-- A write starts inside its file or at its end. -/
def Op.GapFree (s : AosfsState) : Op → Prop
  | .write path offset _ => ∀ c, s.fileAt path = some c → offset ≤ c.length
  | _ => True

/-! ## Calls keep the invariant -/

section Calls

variable {env : Env} {s s' s'' : AosfsState} {a : Nat} {path : CString} {x y : Option (List UInt8)}

lemma AosfsState.Effect.refl (hs : s.Wf env) (a : Nat) (path : CString) :
    AosfsState.Effect env s s a path ((s.volume a).file path) :=
  ⟨hs, SameHeaders.refl s, by rw [update_eq_self], fun _ _ _ => rfl⟩

section

variable (h : AosfsState.Effect env s s' a path x)
include h

theorem AosfsState.Effect.trans (h' : AosfsState.Effect env s' s'' a path y) :
    AosfsState.Effect env s s'' a path y :=
  ⟨h'.wf, h.headers.trans h'.headers, by rw [h'.self, h.self, update_idem],
    fun b hb hne => (h'.other b hb hne).trans (h.other b hb hne)⟩

theorem AosfsState.Effect.value : (s'.volume a).file path = x := by
  rw [h.self, update_self]

lemma AosfsState.Effect.select (q : CString) :
    selectInstanceForPath s' q = selectInstanceForPath s q :=
  selectInstanceForPath_congr h.headers q

end

lemma selected_effect {β : Type} (hs : s.Wf env) (path : CString) {f : Volume → β × Volume}
    (h : Volume.Effect env (s.volume (selectInstanceForPath s path).1)
      (f (s.volume (selectInstanceForPath s path).1)).2 (selectInstanceForPath s path).2 x) :
    AosfsState.Effect env s (s.onVolume (selectInstanceForPath s path).1 f).2
      (selectInstanceForPath s path).1 (selectInstanceForPath s path).2 x :=
  onVolume_effect hs (selectInstanceForPath_le s path) h

lemma aosfsCreatePathMode_effect (hs : s.Wf env) (path : CString) (mode : UInt16)
    (uid gid : UInt32) :
    AosfsState.Effect env s (aosfsCreatePathMode .faultless env s path mode uid gid).2
      (selectInstanceForPath s path).1 (selectInstanceForPath s path).2
      (if (aosfsCreatePathMode .faultless env s path mode uid gid).1.isSome
        then some ((s.fileAt path).getD []) else s.fileAt path) := by
  unfold aosfsCreatePathMode
  split
  · exact refl hs _ _
  · exact selected_effect hs path (createPathMode_effect
      (hs.volume _ (selectInstanceForPath_le s path)) _ mode uid gid)

lemma aosfsUnlinkPath_effect (hs : s.Wf env) (path : CString) :
    AosfsState.Effect env s (aosfsUnlinkPath .faultless s path).2
      (selectInstanceForPath s path).1 (selectInstanceForPath s path).2
      (if (aosfsUnlinkPath .faultless s path).1 then none else s.fileAt path) := by
  unfold aosfsUnlinkPath
  split
  · exact refl hs _ _
  · exact selected_effect hs path (unlinkPath_effect
      (hs.volume _ (selectInstanceForPath_le s path)) _)

lemma aosfsWritePath_effect (hs : s.Wf env) (path : CString) (offset : Nat)
    (buffer : List UInt8) :
    ∃ value, AosfsState.Effect env s (aosfsWritePath .faultless env s path offset buffer).2
        (selectInstanceForPath s path).1 (selectInstanceForPath s path).2 value ∧
      ((aosfsWritePath .faultless env s path offset buffer).1.isSome →
        (∀ c, s.fileAt path = some c → offset ≤ c.length) →
          value = (s.fileAt path).map (written offset buffer)) := by
  obtain ⟨value, heffect, -, hvalue⟩ := writePath_effect
    (hs.volume _ (selectInstanceForPath_le s path)) (selectInstanceForPath s path).2 offset buffer
  exact ⟨value, selected_effect hs path heffect, hvalue⟩

lemma symlink_undo (h : AosfsState.Effect env s s' (selectInstanceForPath s path).1
      (selectInstanceForPath s path).2 x) :
    ∃ value, AosfsState.Effect env s (aosfsUnlinkPath .faultless s' path).2
      (selectInstanceForPath s path).1 (selectInstanceForPath s path).2 value := by
  have hunlink := aosfsUnlinkPath_effect h.wf path
  rw [h.select] at hunlink
  exact ⟨_, h.trans hunlink⟩

lemma aosfsSymlinkPath_effect (hs : s.Wf env) (target path : CString) (uid gid : UInt32) :
    ∃ value, AosfsState.Effect env s (aosfsSymlinkPath .faultless env s target path uid gid).2
        (selectInstanceForPath s path).1 (selectInstanceForPath s path).2 value ∧
      ((aosfsSymlinkPath .faultless env s target path uid gid).1 = true →
        value = some (written 0 (CString.bytes target) ((s.fileAt path).getD []))) := by
  unfold aosfsSymlinkPath
  split
  · exact ⟨_, refl hs _ _, fun h => by simp at h⟩
  have hcreate := aosfsCreatePathMode_effect hs path defaultSymlinkMode uid gid
  rcases hc : aosfsCreatePathMode .faultless env s path defaultSymlinkMode uid gid with ⟨node, s1⟩
  rw [hc] at hcreate
  cases node with
  | none => exact ⟨_, hcreate, fun h => by simp at h⟩
  | some =>
  have hundo : ∀ {s2 : AosfsState} {y : Option (List UInt8)},
      AosfsState.Effect env s s2 (selectInstanceForPath s path).1
        (selectInstanceForPath s path).2 y →
      ∃ value, AosfsState.Effect env s (aosfsUnlinkPath .faultless s2 path).2
          (selectInstanceForPath s path).1 (selectInstanceForPath s path).2 value ∧
        (false = true → value = some (written 0 (CString.bytes target)
          ((s.fileAt path).getD []))) := by
    intro s2 y h2
    obtain ⟨value, hvalue⟩ := symlink_undo h2
    exact ⟨value, hvalue, fun h => by simp at h⟩
  dsimp only
  split
  · exact hundo hcreate
  next i hfind =>
  split
  · exact hundo hcreate
  next hreg =>
  have hkind : ((s1.volume (selectInstanceForPath s1 path).1).inst.entries i).kind ≠
      .directory := by
    simp only [ne_eq, not_not] at hreg
    rw [hreg]
    decide
  obtain ⟨hok, hlink⟩ := makeSymlink_effect
    (hcreate.wf.volume _ (selectInstanceForPath_le s1 path)) hfind hkind
  have hlink' := selected_effect (f := fun v => v.makeSymlink .faultless i) hcreate.wf path hlink
  rcases hm : s1.onVolume (selectInstanceForPath s1 path).1 (fun v => v.makeSymlink .faultless i)
    with ⟨flag, s2⟩
  rw [hm, hcreate.select, hcreate.value] at hlink'
  have hflag : flag = true := by
    rw [← hok]
    exact (congrArg Prod.fst hm).symm
  subst hflag
  have h2 := hcreate.trans hlink'
  obtain ⟨value, hwrite, hvalue⟩ := aosfsWritePath_effect h2.wf path 0 (CString.bytes target)
  have hfile : s2.fileAt path = some ((s.fileAt path).getD []) := by
    unfold fileAt
    rw [h2.select]
    exact h2.value
  rw [h2.select] at hwrite
  have h3 := h2.trans hwrite
  dsimp only
  rcases hw : aosfsWritePath .faultless env s2 path 0 (CString.bytes target) with ⟨result, s3⟩
  rw [hw] at h3 hvalue
  cases result with
  | none => exact hundo h3
  | some =>
  dsimp only
  split
  · exact hundo h3
  · refine ⟨value, h3, fun _ => ?_⟩
    rw [hvalue rfl (fun _ _ => Nat.zero_le _), hfile]
    rfl

/-- A call sets the file map at its own path, to the value of `Op.effect` when it succeeds. -/
theorem step_effect (hs : s.Wf env) (op : Op) :
    ∃ value, AosfsState.Effect env s (step env op s).2 (selectInstanceForPath s op.path).1
        (selectInstanceForPath s op.path).2 value ∧
      ((step env op s).1 = true → op.GapFree s → value = op.effect (s.fileAt op.path)) := by
  have hvol := fun path => hs.volume _ (selectInstanceForPath_le s path)
  cases op with
  | create path mode uid gid =>
    refine ⟨_, aosfsCreatePathMode_effect hs path mode uid gid, fun hok _ => ?_⟩
    exact if_pos hok
  | mkdir path mode uid gid =>
    refine ⟨s.fileAt path, ?_, fun _ _ => rfl⟩
    simp only [step, aosfsMkdirPathMode]
    split
    · exact refl hs _ _
    · exact selected_effect hs path (mkdirPathMode_effect (hvol path) _ mode uid gid)
  | symlink target path uid gid =>
    obtain ⟨value, heffect, hvalue⟩ := aosfsSymlinkPath_effect hs target path uid gid
    exact ⟨value, heffect, fun hok _ => hvalue hok⟩
  | write path offset buffer => exact aosfsWritePath_effect hs path offset buffer
  | resize path size =>
    exact ⟨_, selected_effect hs path (resizePath_effect (hvol path) _ size),
      fun hok _ => if_pos hok⟩
  | truncate path =>
    exact ⟨_, selected_effect hs path (truncatePath_effect (hvol path) _),
      fun hok _ => if_pos hok⟩
  | unlink path =>
    refine ⟨_, aosfsUnlinkPath_effect hs path, fun hok _ => ?_⟩
    exact if_pos hok
  | rmdir path =>
    refine ⟨s.fileAt path, ?_, fun _ _ => rfl⟩
    simp only [step, aosfsRmdirPath]
    split
    · exact refl hs _ _
    · exact selected_effect hs path (rmdirPath_effect (hvol path) _)
  | chmod path mode =>
    exact ⟨_, selected_effect hs path (updateEntry_effect (hvol path) _
      (sameData_chmod mode)), fun _ _ => rfl⟩
  | chown path uid gid =>
    exact ⟨_, selected_effect hs path (updateEntry_effect (hvol path) _
      (sameData_chown uid gid)), fun _ _ => rfl⟩

lemma step_other (hs : s.Wf env) (op : Op) {q : CString}
    (hq : selectInstanceForPath s q ≠ selectInstanceForPath s op.path) :
    (step env op s).2.fileAt q = s.fileAt q := by
  obtain ⟨value, heffect, -⟩ := step_effect hs op
  unfold fileAt
  rw [heffect.select]
  by_cases hinst : (selectInstanceForPath s q).1 = (selectInstanceForPath s op.path).1
  · rw [hinst, heffect.self, update_of_ne]
    exact fun hpath => hq (Prod.ext hinst hpath)
  · rw [heffect.other _ (selectInstanceForPath_le s q) hinst]

lemma step_blockBacked (hs : s.Wf env) (op : Op) (a : Nat) :
    ((step env op s).2.instances a).blockBacked = (s.instances a).blockBacked := by
  obtain ⟨value, heffect, -⟩ := step_effect hs op
  rw [heffect.headers]

lemma aosfsReadPath_eq (hs : s.Wf env) (path : CString) (offset len : Nat) :
    (aosfsReadPath .faultless s path offset len).1 =
      (s.fileAt path).bind fun c => readContent c offset len :=
  readPath_file (hs.volume _ (selectInstanceForPath_le s path)) _ offset len

end Calls

/-! ## Reachable states -/

/-- The states that the AOSFS interface reaches with all block I/O succeeding. A format gives an
instance a volume separate from those of the other instances; a re-mount repeats the mount of an
instance on its own device and offset. -/
inductive Reachable (env : Env) : AosfsState → Prop where
  | init (blk : BlockLayer) : Reachable env (aosfsInit blk)
  | format {s s' : AosfsState} (role blkdevId baseOffset : Nat) : Reachable env s →
      aosfsFormatRole .faultless env s role blkdevId baseOffset = (true, s') →
      (∀ b ≤ roleTrash, b ≠ instanceForRole role →
        Separate env (s'.volume (instanceForRole role)) (s'.volume b)) →
      Reachable env s'
  | call {s : AosfsState} (op : Op) : Reachable env s → Reachable env (step env op s).2
  | remount {s : AosfsState} (role : Nat) : Reachable env s →
      (s.instances (instanceForRole role)).blockBacked = true →
      Reachable env (aosfsMountRole .faultless env s role
        (s.instances (instanceForRole role)).blkdevId
        (s.instances (instanceForRole role)).baseOffset).2

section Reachable

variable {env : Env} {s s' : AosfsState}

lemma aosfsInit_wf (blk : BlockLayer) : (aosfsInit blk).Wf env where
  volume := by
    intro a ha
    refine ⟨⟨rfl, rfl, fun _ => Entry.Ok.zero, fun _ _ => rfl, fun i j hi => ?_⟩, ?_, ?_⟩
    · exact absurd hi (by simp [volume, aosfsInit, Entry.zero])
    · intro hb
      exact absurd hb (by simp [volume, aosfsInit])
    · intro _
      refine ⟨ha, fun i hi => ?_, fun _ => Nat.zero_le _⟩
      exact absurd hi (by simp [volume, aosfsInit, Entry.zero])
  separate := by
    intro a _ b _ _ hb
    exact absurd hb (by simp [volume, aosfsInit])

variable {baseOffset blkdevId role : Nat} {v w : Volume}

lemma Separate.symm (h : Separate env v w) : Separate env w v := by
  intro hw hv
  rcases h hv hw with h1 | h1 | h1
  · exact .inl (Ne.symm h1)
  · exact .inr (.inr h1)
  · exact .inr (.inl h1)

lemma Separate.withBlk (h : Separate env v w) {blk : BlockLayer} (hv : SameDevices v.blk blk)
    (hw : SameDevices w.blk blk) : Separate env (v.withBlk blk) (w.withBlk blk) := by
  intro h1 h2
  have hsv : (v.withBlk blk).activeStorageSize env = v.activeStorageSize env :=
    activeStorageSize_congr hv rfl rfl rfl
  have hsw : (w.withBlk blk).activeStorageSize env = w.activeStorageSize env :=
    activeStorageSize_congr hw rfl rfl rfl
  rw [hsv, hsw]
  exact h h1 h2

lemma format_wf (hs : s.Wf env)
    (h : aosfsFormatRole .faultless env s role blkdevId baseOffset = (true, s'))
    (hsep : ∀ b ≤ roleTrash, b ≠ instanceForRole role →
      Separate env (s'.volume (instanceForRole role)) (s'.volume b)) : s'.Wf env := by
  unfold aosfsFormatRole onVolume at h
  rcases hr : (s.volume (instanceForRole role)).formatRole .faultless env role blkdevId baseOffset
    with ⟨flag, v'⟩
  simp only [hr, Prod.mk.injEq] at h
  obtain ⟨rfl, rfl⟩ := h
  have hf := formatRole_spec hr
  have hdev : ∀ b, SameDevices (s.volume b).blk v'.blk := fun _ => hf.devices
  have hplace : v'.inst.blkdevId = blkdevId ∧ v'.inst.baseOffset = baseOffset ∧
      v'.inst.blockBacked = true := by
    rw [hf.inst]
    exact ⟨rfl, rfl, rfl⟩
  have hother : ∀ b ≤ roleTrash, b ≠ instanceForRole role →
      ((s.volume b).withBlk v'.blk).Wf env := by
    intro b hb hne
    refine ((hs.volume b hb).withBlk (hdev b) ?_).1
    intro hblock o ho
    by_contra hdiff
    obtain ⟨hid, hlo, hhi⟩ := hf.inside _ _ hdiff
    have hs2 := hsep b hb hne
    rw [setVolume_self, setVolume_other s v' hne] at hs2
    have hsize : ((s.volume b).withBlk v'.blk).activeStorageSize env =
        (s.volume b).activeStorageSize env :=
      activeStorageSize_congr (hdev b) rfl rfl rfl
    have hcases := hs2 hplace.2.2 hblock
    rw [hsize, hplace.1, hplace.2.1] at hcases
    have hb1 : ((s.volume b).withBlk v'.blk).inst = (s.volume b).inst := rfl
    rw [hb1] at hcases
    rcases hcases with h1 | h1 | h1
    · exact h1 hid.symm
    · omega
    · omega
  constructor
  · intro b hb
    by_cases hne : b = instanceForRole role
    · rw [hne, setVolume_self]
      exact hf.wf
    · rw [setVolume_other s v' hne]
      exact hother b hb hne
  · intro b hb c hc hbc
    by_cases hbe : b = instanceForRole role
    · rw [hbe]
      exact hsep c hc (by rw [← hbe]; exact Ne.symm hbc)
    by_cases hce : c = instanceForRole role
    · rw [hce]
      exact (hsep b hb hbe).symm
    · rw [setVolume_other s v' hbe, setVolume_other s v' hce]
      exact (hs.separate b hb c hc hbc).withBlk (hdev b) (hdev c)

lemma remount_spec (hs : s.Wf env)
    (hb : (s.instances (instanceForRole role)).blockBacked = true) :
    ∃ v', aosfsMountRole .faultless env s role (s.instances (instanceForRole role)).blkdevId
        (s.instances (instanceForRole role)).baseOffset =
          (true, s.setVolume (instanceForRole role) v') ∧
      Volume.Remounted (s.volume (instanceForRole role)) v' ∧
      ∀ path, AosfsState.Effect env s (s.setVolume (instanceForRole role) v')
        (instanceForRole role) path ((s.volume (instanceForRole role)).file path) := by
  have hwf := hs.volume _ (instanceForRole_le role)
  obtain ⟨v', hmount, hre⟩ := mountRole_spec hwf hb rfl rfl rfl
  refine ⟨v', ?_, hre, fun path => ?_⟩
  · unfold aosfsMountRole onVolume
    dsimp only
    rw [show (s.instances (instanceForRole role)) = (s.volume (instanceForRole role)).inst from rfl,
      hmount]
  · refine setVolume_effect hs (instanceForRole_le role) ⟨hre.evolves hwf, ?_⟩
    rw [update_eq_self]
    funext q
    refine file_congr hwf (hre.wf hwf) ?_
    intro j _
    exact ⟨by rw [hre.entries], hre.content j⟩

theorem Reachable.wf (h : Reachable env s) : s.Wf env := by
  induction h with
  | init blk => exact aosfsInit_wf blk
  | format role blkdevId baseOffset _ hformat hsep ih => exact format_wf ih hformat hsep
  | call op _ ih =>
    obtain ⟨value, heffect, -⟩ := step_effect ih op
    exact heffect.wf
  | remount role _ hb ih =>
    obtain ⟨v', hmount, -, heffect⟩ := remount_spec ih hb
    rw [hmount]
    exact (heffect []).wf

lemma format_init (blk : BlockLayer) (role : Nat) (hu : Usable blk blkdevId)
    (hstorage : dataOffset ≤ (((aosfsInit blk).volume (instanceForRole role)).stageFormat role
      blkdevId baseOffset).activeStorageSize env) :
    Reachable env (aosfsFormatRole .faultless env (aosfsInit blk) role blkdevId baseOffset).2 ∧
      ((aosfsFormatRole .faultless env (aosfsInit blk) role blkdevId baseOffset).2.instances
        (instanceForRole role)).blockBacked = true := by
  have hok := formatRole_ok (v := (aosfsInit blk).volume (instanceForRole role)) hu hstorage
  rcases hr : ((aosfsInit blk).volume (instanceForRole role)).formatRole .faultless env role
    blkdevId baseOffset with ⟨flag, v'⟩
  rw [hr] at hok
  subst hok
  have hformat : aosfsFormatRole .faultless env (aosfsInit blk) role blkdevId baseOffset =
      (true, (aosfsInit blk).setVolume (instanceForRole role) v') := by
    simp only [aosfsFormatRole, onVolume, hr]
  rw [hformat]
  constructor
  · refine .format role blkdevId baseOffset (.init blk) hformat ?_
    intro b _ hne _ hb
    rw [setVolume_other _ _ hne] at hb
    exact absurd hb (by simp [withBlk, volume, aosfsInit])
  · have hinst := (formatRole_spec hr).inst
    simp [setVolume, hinst, stageFormat]

end Reachable

end AosKernel.Aosfs
