import AosKernel.Uni.Extraction

/-!
# Extractions stay in their directory

Whatever is in a package file, an extraction works on safe paths (`extraction_confined`). The
identifier of a package always comes out of `id_from_text`; the directories above the one of the
package are there when its extraction begins, so that the extraction cannot make them.
-/

namespace AosKernel.Uni

open Lib Lib.Paths Lib.Fallible

/-! ## The packages that are extracted -/

/-- A package of a kind whose identifier is a component. -/
structure Named (k : PackageKind) (info : PackageInfo) : Prop where
  kind : info.kind = k
  system : info.systemInstall = decide (k = .deb)
  component : Component info.id.val

lemma named_packageDefaults (host : Host) (kind : PackageKind) (sourcePath : CString) :
    Named kind (packageDefaults host kind sourcePath) :=
  ⟨rfl, rfl, component_idFromText _⟩

variable {info info' : PackageInfo} {kind : PackageKind}

lemma named_readDebControl {control : List UInt8} (h : Named kind info)
    (hread : readDebControl control info = some info') : Named kind info' := by
  have hcontrol : ∀ data, readControl data info = some info' → Named kind info' := by
    intro data hdata
    unfold readControl at hdata
    split at hdata
    · exact absurd hdata (by simp)
    · obtain ⟨package, -, hinfo⟩ := Option.bind_eq_some_iff.1 hdata
      cases hinfo
      exact ⟨h.kind, h.system, component_idFromText _⟩
  have hloop : ∀ fuel tar, controlTarLoop fuel tar info = some info' → Named kind info' := by
    intro fuel
    induction fuel with
    | zero => exact fun tar hnone => absurd hnone (by simp [controlTarLoop])
    | succ fuel ih =>
      intro tar hrun
      unfold controlTarLoop at hrun
      split at hrun
      · split at hrun
        · exact hcontrol _ hrun
        · exact ih _ hrun
      · exact absurd hrun (by simp)
  exact hloop _ _ hread

lemma named_ainstallHeader {file : List UInt8} {member : ArMember} (h : Named kind info)
    (hread : ainstallHeader file info = some (info', member)) : Named kind info' := by
  unfold ainstallHeader at hread
  dsimp only at hread
  split at hread
  · exact absurd hread (by simp)
  obtain ⟨offset, -, hread⟩ := Option.bind_eq_some_iff.1 hread
  -- The identifier is the one of the field, or the one that was there before.
  split at hread
  · split at hread
    · exact absurd hread (by simp)
    · obtain ⟨member', -, hinfo⟩ := Option.bind_eq_some_iff.1 hread
      cases hinfo
      exact ⟨h.kind, h.system, component_idFromText _⟩
  · split at hread
    · exact absurd hread (by simp)
    · obtain ⟨member', -, hinfo⟩ := Option.bind_eq_some_iff.1 hread
      cases hinfo
      exact ⟨h.kind, h.system, h.component⟩

section Packages

variable {host : Host} {sourcePath : CString} {w : World}

lemma asks_openForReading (path : CString) : Asks (openForReading host path) :=
  asks_ask host _ _ _

theorem Asks.ends_bind {α β : Type} {x : Command α} (h : Asks x) {y : α → Command β}
    {Q : β → World → Prop} (hy : ∀ a t, Ends (y a) t Q fun _ => True) :
    Ends (x >>= y) w Q fun _ => True := by
  rw [Fallible.ends_bind]
  exact (h w).mono (fun a t _ => hy a t) fun _ _ => trivial

lemma ends_inspectAinstall (loadPayload : Bool) :
    Ends (inspectAinstall host sourcePath loadPayload) w (fun r _ => Named .ainstall r.1)
      fun _ => True := by
  unfold inspectAinstall
  dsimp only
  refine (asks_openForReading _).ends_bind fun file t => ?_
  refine (asks_ofOption _).ends_bind fun file t => ?_
  refine (asks_readExact _).ends_bind fun _ t => ?_
  rw [ends_bind, ends_ofOption]
  refine ⟨?_, fun _ => trivial⟩
  rintro ⟨info, member⟩ hheader
  have hnamed := named_ainstallHeader (named_packageDefaults host .ainstall sourcePath) hheader
  dsimp only
  split
  · refine (asks_loadArchiveMember _ _ _).ends_bind fun r t => ?_
    exact ⟨hnamed.kind, hnamed.system, hnamed.component⟩
  · exact ⟨hnamed.kind, hnamed.system, hnamed.component⟩

lemma ends_openDebArchive :
    Ends (openDebArchive host sourcePath) w (fun r _ => Named .deb r.2.1) fun _ => True := by
  unfold openDebArchive
  refine (asks_openForReading _).ends_bind fun file t => ?_
  refine (asks_ofOption _).ends_bind fun file t => ?_
  refine (asks_readExact _).ends_bind fun _ t => ?_
  refine (asks_ofOption _).ends_bind fun archive t => ?_
  refine (asks_loadArchiveMember _ _ _).ends_bind fun control t => ?_
  rw [ends_bind, ends_ofOption]
  refine ⟨fun info hcontrol => ?_, fun _ => trivial⟩
  have hnamed := named_readDebControl (named_packageDefaults host .deb sourcePath) hcontrol
  split
  · trivial
  · exact ⟨hnamed.kind, hnamed.system, hnamed.component⟩

end Packages

/-! ## Confinement -/

def callsDuring {α : Type} (x : Command α) (w : World) : List Call :=
  (x.exec w).2.calls.take ((x.exec w).2.calls.length - w.calls.length)

/-- Calls that make a directory or open a file for writing. -/
def Call.Creates (c : Call) : Prop :=
  (c.request = .mkdir ∧ c.done = true) ∨ c.request = .create ∨ c.request = .truncate

instance (c : Call) : Decidable c.Creates := by unfold Call.Creates; infer_instance

section Confinement

variable {host : Host} {w t : World}

lemma Change.callsDuring {α : Type} {x : Command α} {D F : CString → Prop}
    (h : Ends x w (fun _ t => Change host D F True w t) fun t => Change host D F False w t) :
    ∀ c ∈ callsDuring x w, Permitted D F w.files c := by
  have hcalls : ∃ new, (x.exec w).2.calls = new ++ w.calls ∧
      ∀ c ∈ new, Permitted D F w.files c := by
    rcases hx : x.exec w with ⟨_ | a, t⟩
    · exact (h.of_exec_none hx).calls
    · exact (h.of_exec_some hx).calls
  obtain ⟨new, hnew, hpermitted⟩ := hcalls
  have hsame : Uni.callsDuring x w = new := by
    unfold Uni.callsDuring
    rw [hnew, List.length_append, Nat.add_sub_cancel, List.take_left']
    rfl
  rwa [hsame]

/-- Of the directories that are looked at, only those at or below the one of the package are made
when the ones above it are there. -/
lemma Permitted.below {base : List CString} {files : Files} {c : Call}
    (habove : ∀ path, Above base path → files path = some .directory)
    (h : Permitted (OnTheWay base) (Below base) files c) (hc : c.Creates) : Below base c.path := by
  unfold Permitted at h
  rcases hc with ⟨hmkdir, hdone⟩ | hcreate | htruncate
  · rw [hmkdir] at h
    rcases h.1 with hbelow | hup
    · exact hbelow
    · exact absurd (habove _ hup) (h.2 hdone)
  · rw [hcreate] at h
    exact h
  · rw [htruncate] at h
    exact h.elim

lemma mem_cuts_of_above {base : List CString} (hbase : Separated slash base) {path : CString}
    (h : Above base path) : path ∈ cuts slash (render slash base) := by
  obtain ⟨comps, hne, hpre, hproper, rfl⟩ := h
  refine (mem_cuts_render_iff hbase _).2 ⟨comps.length, List.length_pos_iff.2 hne, ?_, ?_⟩
  · rcases lt_or_ge comps.length base.length with hlt | hge
    · exact hlt
    · exact absurd (hpre.eq_of_length_le hge) hproper
  · rw [← List.prefix_iff_eq_take.1 hpre]

/-- For every package file, the paths at which an extraction makes a directory or opens a file for
writing are safe: those of an `.ainstall` payload are at or below the directory of the package,
whose name is one safe component, and those of a `.deb` are absolute. -/
theorem extraction_confined (host : Host) (sourcePath : CString) :
    (∀ w w₁ info payload,
      (inspectAinstall host sourcePath true).exec w = (some (info, payload), w₁) →
      Component info.id.val ∧
      ∀ base, joinInstallPath info.id.val [] = some base →
      ∀ w₂ w₃, (ensureDirectoryTree host base.val true).exec w₂ = (some (), w₃) →
      ∀ c ∈ callsDuring (extractDataTar host payload info) w₃, c.Creates →
        Below (rootComps ++ [info.id.val]) c.path) ∧
    ∀ w w₁ file info archive,
      (openDebArchive host sourcePath).exec w = (some (file, info, archive), w₁) →
      ∀ w₂, ∀ c ∈
        callsDuring (extractArchiveMemberStream host sourcePath file archive.data info) w₂,
        c.Creates → Below [] c.path := by
  constructor
  · intro w w₁ info payload hinspect
    have hnamed : Named .ainstall info := (ends_inspectAinstall true).of_exec_some hinspect
    have hbase : info.base = rootComps ++ [info.id.val] := by
      rw [PackageInfo.base, hnamed.system]
      rfl
    refine ⟨hnamed.component, fun base hjoin w₂ w₃ htree c hc hcreates => ?_⟩
    rw [← hbase]
    have hval : base.val = render slash info.base := by
      rw [joinInstallPath_eq_some.1 hjoin, if_pos rfl, List.append_nil, hbase]
    -- The directories above the one of the package are there after `ensure_directory_tree`.
    have htreeEnds : Ends (ensureDirectoryTree host base.val true) w₂
        (fun _ t => Change host (fun _ => True) (fun _ => True) True w₂ t ∧
          (∀ dir ∈ cuts slash base.val, t.files dir = some .directory) ∧
          (true = true → t.files base.val = some .directory))
        fun t => Change host (fun _ => True) (fun _ => True) False w₂ t :=
      ends_ensureDirectoryTree (fun _ _ => trivial) fun _ => trivial
    have hdirs := htreeEnds.of_exec_some htree
    have hsep : Separated slash info.base := (safe_baseComps hnamed.component _).separated
    refine (Change.callsDuring ((ends_extractDataTar hnamed.component payload).mono
      (fun _ _ h => h.1) fun _ h => h) c hc).below ?_ hcreates
    intro path habove
    exact hdirs.2.1 path (hval ▸ mem_cuts_of_above hsep habove)
  · intro w w₁ file info archive hopen w₂ c hc hcreates
    have hnamed : Named .deb info := ends_openDebArchive.of_exec_some hopen
    have hbase : info.base = [] := by
      rw [PackageInfo.base, hnamed.system]
      rfl
    rw [← hbase]
    refine (Change.callsDuring ((ends_extractArchiveMemberStream hnamed.component sourcePath file
      archive.data).mono (fun _ _ h => h.1) fun _ h => h) c hc).below ?_ hcreates
    rintro path ⟨comps, hne, hpre, -, -⟩
    rw [hbase] at hpre
    exact absurd (List.prefix_nil.1 hpre) hne

end Confinement

/-! The two kinds of packages with one file, and their extractions. -/

def demoPayload : List UInt8 := makeEntry "bin/a" 0x30 [1] ++ endOfArchive

def demoPackage : List UInt8 :=
  (CString.ofString "AINSTALL1\nPackage: demo\n\n").bytes ++ demoPayload

def demoSource : CString := CString.ofString "/demo"

def worldWith (package : List UInt8) : World where
  files := Function.update (fun _ => none) demoSource (some (.regular package))
  created := []
  time := 0
  calls := []

def demoInspected : Option (PackageInfo × List UInt8) × World :=
  (inspectAinstall Host.obliging demoSource true).exec (worldWith demoPackage)

def demoInfo : PackageInfo × List UInt8 := demoInspected.1.get (by decide +kernel)

def demoBase : Text pathCap := (joinInstallPath demoInfo.1.id.val []).get (by decide +kernel)

def demoPrepared : Option Unit × World :=
  (ensureDirectoryTree Host.obliging demoBase.val true).exec demoInspected.2

def demoOpened : Option (List UInt8 × PackageInfo × DebArchive) × World :=
  (openDebArchive Host.obliging demoSource).exec (worldWith (makeDeb "Package: demo\n" demoPayload))

def demoArchive : List UInt8 × PackageInfo × DebArchive := demoOpened.1.get (by decide +kernel)

lemma eq_some_get {α β : Type} (r : Option α × β) (h : r.1.isSome = true) :
    r = (some (r.1.get h), r.2) := by
  rcases r with ⟨_ | a, b⟩
  · exact absurd h (by simp)
  · rfl

theorem extraction_confined_demo :
    (∃ c ∈ callsDuring (extractDataTar Host.obliging demoInfo.2 demoInfo.1) demoPrepared.2,
      c.Creates ∧ Below (rootComps ++ [demoInfo.1.id.val]) c.path) ∧
    ∃ c ∈ callsDuring (extractArchiveMemberStream Host.obliging demoSource demoArchive.1
      demoArchive.2.2.data demoArchive.2.1) demoOpened.2, c.Creates ∧ Below [] c.path := by
  have hinspect : (inspectAinstall Host.obliging demoSource true).exec (worldWith demoPackage) =
      (some (demoInfo.1, demoInfo.2), demoInspected.2) := by
    rw [Prod.mk.eta]
    exact eq_some_get demoInspected _
  have hjoin : joinInstallPath demoInfo.1.id.val [] = some demoBase := (Option.some_get _).symm
  have hunit : ∀ r : Option Unit × World, r.1.isSome = true → r = (some (), r.2) := eq_some_get
  have hprepared : (ensureDirectoryTree Host.obliging demoBase.val true).exec demoInspected.2 =
      (some (), demoPrepared.2) := hunit demoPrepared (by decide +kernel)
  have hopen : (openDebArchive Host.obliging demoSource).exec
        (worldWith (makeDeb "Package: demo\n" demoPayload)) =
      (some (demoArchive.1, demoArchive.2.1, demoArchive.2.2), demoOpened.2) := by
    rw [Prod.mk.eta]
    exact eq_some_get demoOpened _
  obtain ⟨hainstall, hdeb⟩ := extraction_confined Host.obliging demoSource
  constructor
  · have hmade : ∃ c ∈ callsDuring (extractDataTar Host.obliging demoInfo.2 demoInfo.1)
        demoPrepared.2, c.Creates := by decide +kernel
    obtain ⟨c, hc, hcreates⟩ := hmade
    exact ⟨c, hc, hcreates,
      (hainstall _ _ _ _ hinspect).2 demoBase hjoin _ _ hprepared c hc hcreates⟩
  · have hmade : ∃ c ∈ callsDuring (extractArchiveMemberStream Host.obliging demoSource
        demoArchive.1 demoArchive.2.2.data demoArchive.2.1) demoOpened.2, c.Creates := by
      decide +kernel
    obtain ⟨c, hc, hcreates⟩ := hmade
    exact ⟨c, hc, hcreates, hdeb _ _ _ _ _ hopen _ c hc hcreates⟩

end AosKernel.Uni
