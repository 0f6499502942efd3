import AosKernel.Aosfs.Runs

/-!
# AOSFS: what holds in every reachable state

The files of a volume lie in disjoint extents and survive a re-mount
(`Reachable.extents_disjoint_and_isolated`, `Reachable.remount_restores`). A sequence of successful
calls acts on the files as `modelRun` acts on a map from files to byte lists, as long as every write
starts inside its file or at its end (`run_refines_model`): a write behind the end does not clear
the gap (`write_behind_end_exposes_old_bytes`). -/

namespace AosKernel.Aosfs

open Lib Lib.ByteStore Block Vfs

def Entry.cells (e : Entry) : Set Nat := Set.Ico e.dataOffset (e.dataOffset + e.dataCapacity)

namespace Volume

variable {env : Env} {v : Volume}

lemma Wf.cells_disjoint (hv : v.Wf env) (hb : v.inst.blockBacked = true) {i j : Nat}
    (hij : i ≠ j) (hi : (v.inst.entries i).inUse = true)
    (hki : (v.inst.entries i).kind ≠ .directory) (hj : (v.inst.entries j).inUse = true)
    (hkj : (v.inst.entries j).kind ≠ .directory) :
    Disjoint (v.inst.entries i).cells (v.inst.entries j).cells :=
  (Extent.apart_iff_disjoint _ _).1 ((hv.onDisk hb).packed.apart hij (if_pos ⟨hi, hki⟩)
    (if_pos ⟨hj, hkj⟩))

/-- An extent lies in the data area, below the bump pointer and the end of the volume. -/
lemma Wf.cells_subset (hv : v.Wf env) (hb : v.inst.blockBacked = true) (i : Nat) :
    (v.inst.entries i).cells ⊆
      Set.Ico dataOffset (min v.inst.nextDataOffset (v.activeStorageSize env)) := by
  intro o ho
  obtain ⟨h1, h2⟩ := ho
  obtain ⟨hlo, hhi⟩ := hv.dataOffset_le (i := i) hb (by omega)
  have hnext := (hv.onDisk hb).next_le
  exact ⟨by omega, lt_min (by omega) (by omega)⟩

end Volume

/-! ## A formatted volume -/

/-- Block devices of 1 MiB of cleared memory. -/
def sampleBlk : BlockLayer where
  devs := fun _ =>
    { inUse := true
      readOnly := false
      hasOps := false
      hasWriteBlocks := false
      blockSize := 512
      blockSize_pos := by decide
      size := 1048576
      size_lt := by decide
      data := fun _ => 0 }
  reads := 0
  writes := 0

def sampleEnv : Env := ⟨[], fun _ => none⟩

def sampleFormatted : AosfsState :=
  (aosfsFormatRole .faultless sampleEnv (aosfsInit sampleBlk) roleRoot 0 0).2

lemma sampleFormatted_reachable : Reachable sampleEnv sampleFormatted ∧
    (sampleFormatted.instances roleRoot).blockBacked = true :=
  format_init sampleBlk roleRoot ⟨by decide, rfl, rfl, fun h => absurd h (by decide)⟩ (by decide)

def sampleName (c : Char) : CString := CString.ascii [c]

/-- The formatted volume with two files of one byte. -/
def sampleFiles : AosfsState :=
  (step sampleEnv (.write (sampleName 'b') 0 [2])
    (step sampleEnv (.create (sampleName 'b') 0o644 0 0)
      (step sampleEnv (.write (sampleName 'a') 0 [1])
        (step sampleEnv (.create (sampleName 'a') 0o644 0 0) sampleFormatted).2).2).2).2

lemma sampleFiles_reachable : Reachable sampleEnv sampleFiles :=
  .call _ (.call _ (.call _ (.call _ sampleFormatted_reachable.1)))

lemma sampleFiles_blockBacked : (sampleFiles.instances roleRoot).blockBacked = true := by
  unfold sampleFiles
  have h0 := sampleFormatted_reachable.1
  have h1 := Reachable.call (.create (sampleName 'a') 0o644 0 0) h0
  have h2 := Reachable.call (.write (sampleName 'a') 0 [1]) h1
  have h3 := Reachable.call (.create (sampleName 'b') 0o644 0 0) h2
  rw [step_blockBacked h3.wf, step_blockBacked h2.wf, step_blockBacked h1.wf,
    step_blockBacked h0.wf]
  exact sampleFormatted_reachable.2

/-! ## Extents -/

/-- Extents of a reachable volume on a device are disjoint, in range and large enough, and no call
changes the bytes of another file. -/
theorem Reachable.extents_disjoint_and_isolated {env : Env} {s : AosfsState} (h : Reachable env s)
    {a : Nat} (ha : a ≤ roleTrash) (hb : (s.instances a).blockBacked = true) :
    (∀ i j, i ≠ j →
      ((s.instances a).entries i).inUse = true → ((s.instances a).entries i).kind ≠ .directory →
      ((s.instances a).entries j).inUse = true → ((s.instances a).entries j).kind ≠ .directory →
        Disjoint ((s.instances a).entries i).cells ((s.instances a).entries j).cells) ∧
    (∀ i, ((s.instances a).entries i).inUse = true →
      ((s.instances a).entries i).kind ≠ .directory →
        ((s.instances a).entries i).cells ⊆ Set.Ico dataOffset
          (min (s.instances a).nextDataOffset ((s.volume a).activeStorageSize env)) ∧
        ((s.instances a).entries i).size ≤ ((s.instances a).entries i).dataCapacity) ∧
    (∀ (op : Op) (q : CString),
      selectInstanceForPath s q ≠ selectInstanceForPath s op.path → ∀ offset len,
        (aosfsReadPath .faultless (step env op s).2 q offset len).1 =
          (aosfsReadPath .faultless s q offset len).1) := by
  have hs := h.wf
  have hv := hs.volume a ha
  refine ⟨fun i j hij hi hki hj hkj => hv.cells_disjoint hb hij hi hki hj hkj,
    fun i _ _ => ⟨hv.cells_subset hb i, (hv.onDisk hb).size_le i⟩, fun op q hq offset len => ?_⟩
  obtain ⟨value, heffect, -⟩ := step_effect hs op
  rw [aosfsReadPath_eq heffect.wf, aosfsReadPath_eq hs, step_other hs op hq]

/-- Truncating one of the two files keeps the other. -/
theorem sampleFiles_isolated :
    (aosfsReadPath .faultless (step sampleEnv (.truncate (sampleName 'a')) sampleFiles).2
        (sampleName 'b') 0 1).1 =
      (aosfsReadPath .faultless sampleFiles (sampleName 'b') 0 1).1 := by
  refine (Reachable.extents_disjoint_and_isolated sampleFiles_reachable (a := roleRoot) (by decide)
    sampleFiles_blockBacked).2.2 (.truncate (sampleName 'a')) (sampleName 'b') ?_ 0 1
  rw [selectInstanceForPath_root _ (by decide) (by decide), Op.path,
    selectInstanceForPath_root _ (by decide) (by decide)]
  decide

/-! ## A re-mount restores the volume -/

/-- A re-mount of a reachable volume succeeds and restores all entries and all contents, with the
bump pointer behind every extent. -/
theorem Reachable.remount_restores {env : Env} {s : AosfsState} (h : Reachable env s) (role : Nat)
    (hb : (s.instances (instanceForRole role)).blockBacked = true) :
    ∃ s', aosfsMountRole .faultless env s role (s.instances (instanceForRole role)).blkdevId
        (s.instances (instanceForRole role)).baseOffset = (true, s') ∧
      (s'.instances (instanceForRole role)).entries = (s.instances (instanceForRole role)).entries ∧
      (∀ path offset len, (aosfsReadPath .faultless s' path offset len).1 =
        (aosfsReadPath .faultless s path offset len).1) ∧
      ∀ i, ((s'.instances (instanceForRole role)).entries i).dataOffset +
        ((s'.instances (instanceForRole role)).entries i).dataCapacity ≤
          (s'.instances (instanceForRole role)).nextDataOffset := by
  have hs := h.wf
  obtain ⟨v', hmount, hre, heffect⟩ := remount_spec hs hb
  have hinst : (s.setVolume (instanceForRole role) v').instances (instanceForRole role) =
      v'.inst := by
    simp [AosfsState.setVolume]
  refine ⟨_, hmount, ?_, ?_, ?_⟩
  · rw [hinst]
    exact hre.entries
  · intro path offset len
    rw [aosfsReadPath_eq (heffect []).wf, aosfsReadPath_eq hs]
    congr 1
    unfold AosfsState.fileAt
    rw [(heffect []).select path]
    by_cases ha : (selectInstanceForPath s path).1 = instanceForRole role
    · rw [ha]
      exact (heffect _).value
    · rw [(heffect []).other _ (selectInstanceForPath_le s path) ha]
  · intro i
    rw [hinst, hre.entries]
    by_cases hcap : ((s.volume (instanceForRole role)).inst.entries i).dataCapacity = 0
    · have hzero := ((hs.volume _ (instanceForRole_le role)).table.entry_ok i).empty hcap
      rw [hcap, hzero]
      exact Nat.zero_le _
    · exact hre.end_le i hcap

/-- The volume with two files survives a re-mount. -/
theorem sampleFiles_restored :
    ∃ s', aosfsMountRole .faultless sampleEnv sampleFiles roleRoot
        (sampleFiles.instances roleRoot).blkdevId (sampleFiles.instances roleRoot).baseOffset =
          (true, s') ∧
      (s'.instances roleRoot).entries = (sampleFiles.instances roleRoot).entries := by
  obtain ⟨s', hmount, hentries, -⟩ := Reachable.remount_restores
    sampleFiles_reachable roleRoot sampleFiles_blockBacked
  exact ⟨s', hmount, hentries⟩

/-! ## Contents refine a map from paths to byte lists -/

open Function

/-- The files of all instances, by instance and path. -/
abbrev FileMap := Nat × CString → Option (List UInt8)

def AosfsState.files (s : AosfsState) : FileMap := fun k => (s.volume k.1).file k.2

/-- A sequence of calls that all succeed. -/
def runOk (env : Env) : AosfsState → List Op → Option AosfsState
  | s, [] => some s
  | s, op :: ops => if (step env op s).1 then runOk env (step env op s).2 ops else none

/-- The calls on the map of files; `s` says which file a path leads to. -/
def modelRun (s : AosfsState) (ops : List Op) (m : FileMap) : FileMap :=
  ops.foldl (fun m op => update m (selectInstanceForPath s op.path)
    (op.effect (m (selectInstanceForPath s op.path)))) m

/-- Every write of the run starts inside its file or at its end. -/
def GapFreeRun (env : Env) : AosfsState → List Op → Prop
  | _, [] => True
  | s, op :: ops => op.GapFree s ∧ GapFreeRun env (step env op s).2 ops

def FileMap.Agree (m m' : FileMap) : Prop := ∀ k : Nat × CString, k.1 ≤ roleTrash → m k = m' k

section Model

variable {env : Env} {s s' : AosfsState}

lemma step_files (hs : s.Wf env) {op : Op} (hok : (step env op s).1 = true)
    (hgap : op.GapFree s) :
    FileMap.Agree (step env op s).2.files (update s.files
      (selectInstanceForPath s op.path)
        (op.effect (s.files (selectInstanceForPath s op.path)))) := by
  obtain ⟨value, heffect, hvalue⟩ := step_effect hs op
  obtain rfl := hvalue hok hgap
  rintro ⟨b, q⟩ hb
  unfold AosfsState.files
  by_cases hba : b = (selectInstanceForPath s op.path).1
  · subst hba
    rw [heffect.self]
    by_cases hq : q = (selectInstanceForPath s op.path).2
    · subst hq
      rw [update_self, update_self]
      rfl
    · rw [update_of_ne hq, update_of_ne (fun h => hq (congrArg Prod.snd h))]
  · rw [heffect.other b hb hba, update_of_ne (fun h => hba (congrArg Prod.fst h))]

lemma modelRun_agree (s : AosfsState) :
    ∀ (ops : List Op) {m m' : FileMap}, FileMap.Agree m m' →
      FileMap.Agree (modelRun s ops m) (modelRun s ops m') := by
  intro ops
  induction ops with
  | nil => exact fun h => h
  | cons op ops ih =>
    intro m m' h
    refine ih ?_
    intro k hk
    dsimp only
    rw [h _ (selectInstanceForPath_le s op.path)]
    by_cases hkey : k = selectInstanceForPath s op.path
    · rw [hkey, update_self, update_self]
    · rw [update_of_ne hkey, update_of_ne hkey, h k hk]

lemma modelRun_congr (h : SameHeaders s s') (ops : List Op) (m : FileMap) :
    modelRun s' ops m = modelRun s ops m := by
  unfold modelRun
  simp only [selectInstanceForPath_congr h]

lemma run_files :
    ∀ (ops : List Op) {s s' : AosfsState}, s.Wf env → runOk env s ops = some s' →
      GapFreeRun env s ops → s'.Wf env ∧ SameHeaders s s' ∧
        FileMap.Agree s'.files (modelRun s ops s.files) := by
  intro ops
  induction ops with
  | nil =>
    intro s s' hs hrun _
    obtain rfl := Option.some.inj hrun
    exact ⟨hs, SameHeaders.refl s, fun _ _ => rfl⟩
  | cons op ops ih =>
    intro s s' hs hrun hgap
    unfold runOk at hrun
    split at hrun
    swap
    · simp at hrun
    next hok =>
    obtain ⟨value, heffect, -⟩ := step_effect hs op
    obtain ⟨hwf, hheaders, hfiles⟩ := ih heffect.wf hrun hgap.2
    refine ⟨hwf, heffect.headers.trans hheaders, ?_⟩
    intro k hk
    rw [hfiles k hk, modelRun_congr heffect.headers]
    exact modelRun_agree s ops (step_files hs hok hgap.1) k hk

end Model

/-- After any run of successful calls whose writes leave no gap, every read returns what the map of
byte lists holds. -/
theorem run_refines_model {env : Env} {s s' : AosfsState} (h : Reachable env s) {ops : List Op}
    (hrun : runOk env s ops = some s') (hgap : GapFreeRun env s ops) (path : CString)
    (offset len : Nat) :
    (aosfsReadPath .faultless s' path offset len).1 =
      (modelRun s ops s.files (selectInstanceForPath s path)).bind
        fun c => readContent c offset len := by
  obtain ⟨hwf, hheaders, hfiles⟩ := run_files ops h.wf hrun hgap
  rw [aosfsReadPath_eq hwf, ← hfiles _ (selectInstanceForPath_le s path),
    ← selectInstanceForPath_congr hheaders]
  rfl

/-! ## Runs in memory -/

/-- A run that creates a file, writes it, shrinks it and appends to it. -/
def appendRun : List Op :=
  [.create (sampleName 'a') 0o644 0 0, .write (sampleName 'a') 0 [1, 1, 1, 1],
    .resize (sampleName 'a') 1, .write (sampleName 'a') 1 [2]]

/-- The same run with the last write two bytes behind the end. -/
def gapRun : List Op :=
  [.create (sampleName 'a') 0o644 0 0, .write (sampleName 'a') 0 [1, 1, 1, 1],
    .resize (sampleName 'a') 1, .write (sampleName 'a') 3 [2]]

lemma appendRun_gapFree : GapFreeRun sampleEnv (aosfsInit sampleBlk) appendRun := by
  refine ⟨trivial, fun _ _ => Nat.zero_le _, trivial, fun c hc => ?_, trivial⟩
  have hfile : (step sampleEnv (.resize (sampleName 'a') 1)
      (step sampleEnv (.write (sampleName 'a') 0 [1, 1, 1, 1])
        (step sampleEnv (.create (sampleName 'a') 0o644 0 0) (aosfsInit sampleBlk)).2).2).2.fileAt
          (sampleName 'a') = some [1] := by
    decide +kernel
  obtain rfl := Option.some.inj (hfile.symm.trans hc)
  decide

theorem appendRun_reads :
    ∃ s', runOk sampleEnv (aosfsInit sampleBlk) appendRun = some s' ∧
      (aosfsReadPath .faultless s' (sampleName 'a') 0 2).1 = some [1, 2] := by
  have hsome : (runOk sampleEnv (aosfsInit sampleBlk) appendRun).isSome = true := by
    decide +kernel
  obtain ⟨s', hrun⟩ := Option.isSome_iff_exists.1 hsome
  refine ⟨s', hrun, ?_⟩
  rw [run_refines_model (.init sampleBlk) hrun appendRun_gapFree]
  decide +kernel

/-- The shrunk bytes of the file reappear between its end and the write behind it. -/
theorem write_behind_end_exposes_old_bytes :
    ∃ s', Reachable sampleEnv (aosfsInit sampleBlk) ∧
      runOk sampleEnv (aosfsInit sampleBlk) gapRun = some s' ∧
      (aosfsReadPath .faultless s' (sampleName 'a') 0 4).1 = some [1, 1, 1, 2] ∧
      (modelRun (aosfsInit sampleBlk) gapRun (aosfsInit sampleBlk).files
        (selectInstanceForPath (aosfsInit sampleBlk) (sampleName 'a'))).bind
          (fun c => readContent c 0 4) = some [1, 0, 0, 2] := by
  have hread : ((runOk sampleEnv (aosfsInit sampleBlk) gapRun).bind fun s =>
      (aosfsReadPath .faultless s (sampleName 'a') 0 4).1) = some [1, 1, 1, 2] := by
    decide +kernel
  obtain ⟨s', hrun, hs'⟩ := Option.bind_eq_some_iff.1 hread
  exact ⟨s', .init sampleBlk, hrun, hs', by decide +kernel⟩

end AosKernel.Aosfs
