import AosKernel.Uni.Confinement

/-!
# Removals stay in the directory of the package

Whatever is stored as the manifest of a package that is not a system package, the paths that
`remove_package` removes are the manifest itself and paths at or below the directory of the package.
But a manifest of `UNI_MANIFEST_CAP` bytes or more is not loaded, and its package is then removed as
a tree, whatever its path lines are (`removal_confined_iff`). -/

namespace AosKernel.Uni

open Lib Lib.Paths Lib.Fallible CString Host List

/-! ## Private paths -/

/-- A component of a path that stands for itself. -/
structure Plain (c : CString) : Prop where
  nonempty : c ≠ []
  not_dot : c ≠ [dot]
  not_dotdot : c ≠ [dot, dot]
  no_slash : slash ∉ c

/-- A path at or below the directory of a package, and not in the state of the package manager. -/
def Private (id path : CString) : Prop :=
  ∃ comps, (∀ c ∈ comps, Plain c) ∧ rootComps ++ [id] <+: comps ∧ ¬ stateComps <+: comps ∧
    path = render slash comps

lemma Component.plain {c : CString} (h : Component c) : Plain c :=
  ⟨h.nonempty, h.not_dot, h.not_dotdot, h.no_slash⟩

variable {id : CString}

lemma not_stateComps_of_rootComps {comps : List CString} (h : rootComps ++ [id] <+: comps) :
    ¬ stateComps <+: comps := by
  obtain ⟨more, rfl⟩ := h
  rintro ⟨rest, hrest⟩
  simp only [stateComps, rootComps, cons_append, cons.injEq] at hrest
  exact absurd hrest.1 (by decide)

variable {path : CString}

lemma private_concat {name : CString} (h : Private id path) (hname : Plain name) :
    Private id (path ++ [slash] ++ name) := by
  obtain ⟨comps, hplain, hpre, -, rfl⟩ := h
  have hpre' : rootComps ++ [id] <+: comps ++ [name] :=
    hpre.trans (prefix_append _ _)
  refine ⟨comps ++ [name], ?_, hpre', not_stateComps_of_rootComps hpre', by simp⟩
  intro c hc
  rcases mem_append.1 hc with hc | hc
  · exact hplain c hc
  · rwa [mem_singleton.1 hc]

lemma validPackageId_component (h : validPackageId id = true) : Component id := by
  simp only [validPackageId, Bool.and_eq_true, bne_iff_ne, ne_eq, decide_eq_true_eq,
    all_eq_true, Bool.not_eq_true'] at h
  obtain ⟨⟨⟨⟨⟨hne, -⟩, hhead⟩, -⟩, hall⟩, -⟩ := h
  refine ⟨hne, ?_, ?_, fun hmem => (isValidIdChar_safe (hall _ hmem)).1 rfl,
    fun c hc => (isValidIdChar_safe (hall c hc)).2⟩
  · rintro rfl
    exact hhead rfl
  · rintro rfl
    exact hhead rfl

lemma private_base (h : validPackageId id = true) :
    Private id (render slash (rootComps ++ [id])) := by
  refine ⟨_, ?_, prefix_rfl, not_stateComps_of_rootComps prefix_rfl, rfl⟩
  have hsafe := safe_baseComps (validPackageId_component h) false
  exact fun c hc => (hsafe c hc).plain

lemma private_of_validate (hid : validPackageId id = true)
    (h : validateManifestPayloadPath path id false = true) : Private id path := by
  unfold validateManifestPayloadPath at h
  cases path with
  | nil => exact absurd h (by simp)
  | cons c rest =>
  dsimp only at h
  split at h
  · exact absurd h (by simp)
  next hslash =>
  have hslash : c = slash := not_not.1 hslash
  subst hslash
  split at h
  · exact absurd h (by simp)
  next normalized hnormalized =>
  obtain ⟨-, hall, hne, hval⟩ := normalizeArchivePath_eq_some.1 hnormalized
  have hsafe : Safe (kept (pieces rest)) := safe_kept (pieces_separated rest) hall
  split at h
  · exact absurd h (by simp)
  next expected hexpected =>
  have hexpected : expected.val = slash :: normalized.val := appendText_eq_some_iff.1 hexpected
  split at h
  · exact absurd h (by simp)
  next hcheck =>
  rw [not_or, not_not] at hcheck
  have hpath : slash :: rest = render slash (kept (pieces rest)) := by
    rw [← hcheck.1, hexpected, hval, cons_relative hne]
  rw [if_neg (by simp)] at h
  split at h
  · exact absurd h (by simp)
  next root hroot =>
  rw [joinInstallPath_eq_some, if_pos rfl, append_nil] at hroot
  have hbase : Safe (rootComps ++ [id]) := safe_baseComps (validPackageId_component hid) false
  rw [hpath, hroot, pathHasPrefixComponent_render hsafe.separated hbase.separated] at h
  exact ⟨_, fun c hc => (hsafe c hc).plain, h, not_stateComps_of_rootComps h, hpath⟩

/-! ## Calls of a removal -/

/-- Every call between two states has a property, and at most `n` paths have been remembered. -/
structure Makes (P : Call → Prop) (n : Nat) (w t : World) : Prop where
  calls : ∃ new, t.calls = new ++ w.calls ∧ ∀ c ∈ new, P c
  created : t.created.length ≤ w.created.length + n

/-- A command that makes only calls with a property. -/
abbrev OnlyMakes {α : Type} (P : Call → Prop) (n : Nat) (x : Command α) (w : World) : Prop :=
  Ends x w (fun _ t => Makes P n w t) (Makes P n w)

section Calls

variable {host : Host} {P : Call → Prop} {m n : Nat} {w t u : World} {path : CString} {α β : Type}

lemma Makes.of_eq (h : t.calls = w.calls) (hcreated : t.created = w.created) : Makes P n w t :=
  ⟨⟨[], h, by simp⟩, hcreated ▸ Nat.le_add_right _ _⟩

theorem Makes.trans (h : Makes P m w t) (h' : Makes P n t u) : Makes P (m + n) w u := by
  obtain ⟨⟨new, hnew, hP⟩, hm⟩ := h
  obtain ⟨⟨new', hnew', hP'⟩, hn⟩ := h'
  refine ⟨⟨new' ++ new, by rw [hnew', hnew, append_assoc], fun c hc => ?_⟩, by omega⟩
  rcases mem_append.1 hc with hc | hc
  · exact hP' c hc
  · exact hP c hc

theorem Makes.mono (h : Makes P m w t) (hmn : m ≤ n) : Makes P n w t :=
  ⟨h.calls, h.created.trans (by omega)⟩

theorem Makes.after (h : Makes P 0 w t) (h' : Makes P n t u) : Makes P n w u :=
  zero_add n ▸ h.trans h'

variable {x : Command α}

lemma OnlyMakes.callsDuring (h : OnlyMakes P n x w) : ∀ c ∈ callsDuring x w, P c := by
  have hmakes : Makes P n w (x.exec w).2 := by
    rcases hx : x.exec w with ⟨_ | a, t⟩
    · exact h.of_exec_none hx
    · exact h.of_exec_some hx
  obtain ⟨new, hnew, hP⟩ := hmakes.calls
  rwa [Uni.callsDuring, hnew, length_append, Nat.add_sub_cancel, take_left]

lemma OnlyMakes.bind {f : α → Command β} (hx : OnlyMakes P 0 x w)
    (hf : ∀ a t, t.created.length ≤ w.created.length → OnlyMakes P n (f a) t) :
    OnlyMakes P n (x >>= f) w := by
  rw [OnlyMakes, ends_bind]
  refine hx.mono ?_ fun _ h => h.mono (Nat.zero_le _)
  intro a t ht
  exact (hf a t ht.created).mono (fun _ u hu => ht.after hu) fun u hu => ht.after hu

lemma onlyMakes_pure (a : α) : OnlyMakes P n (pure a) w := .of_eq rfl rfl

lemma onlyMakes_failure : OnlyMakes P n (failure : Command α) w := .of_eq rfl rfl

lemma Asks.onlyMakes (h : Asks x) : OnlyMakes P n x w := by
  refine (h w).mono ?_ ?_
  · rintro _ _ ⟨n, rfl⟩
    exact .of_eq rfl rfl
  · rintro _ ⟨n, rfl⟩
    exact .of_eq rfl rfl

lemma onlyMakes_call {request : Request} {can : Option FileNode → Bool} {node : Option FileNode}
    (h : ∀ done, P ⟨request, path, done⟩) : OnlyMakes P n (host.call request path can node) w :=
  ends_call (fun _ => ⟨⟨[_], rfl, by simpa using h true⟩, Nat.le_add_right _ _⟩)
    fun _ => ⟨⟨[_], rfl, by simpa using h false⟩, Nat.le_add_right _ _⟩

lemma OnlyMakes.demand {x : Command Bool} (h : OnlyMakes P 0 x w) :
    OnlyMakes P n (do let done ← x; if done then pure () else failure) w := by
  refine h.bind fun done t _ => ?_
  split
  · exact onlyMakes_pure ()
  · exact onlyMakes_failure

lemma onlyMakes_forM {f : β → Command Unit} {l : List β}
    (h : ∀ b ∈ l, ∀ t, OnlyMakes P 0 (f b) t) : OnlyMakes P 0 (l.forM f) w :=
  Ends.forM (fun b hb t ht => (h b hb t).mono (fun _ _ hu => ht.after hu) fun _ hu => ht.after hu)
    (.of_eq rfl rfl)

lemma onlyMakes_writeLoop (limit fuel : Nat) (data : List UInt8) :
    OnlyMakes P 0 (writeLoop host path limit fuel data) w := by
  induction fuel generalizing data w with
  | zero => cases data <;> exact .of_eq rfl rfl
  | succ fuel ih =>
    cases data with
    | nil => exact .of_eq rfl rfl
    | cons =>
    refine OnlyMakes.bind (ends_writeOnce fun n _ => .of_eq rfl rfl) fun n t _ => ?_
    split
    · exact .of_eq rfl rfl
    · exact ih _

/-- With room in the journal, `ensure_directory` makes directories only. -/
lemma onlyMakes_ensureDirectory (hP : ∀ done, P ⟨.mkdir, path, done⟩)
    (hfits : path.length < pathCap) (hroom : w.created.length < maxCreatedPaths) :
    OnlyMakes P 1 (ensureDirectory host path) w := by
  unfold ensureDirectory
  rw [OnlyMakes, ends_bind, ends_directoryExists, ends_ite]
  split
  · exact .of_eq rfl rfl
  rw [ends_bind]
  have hmkdir : ∀ done, ∃ new, (⟨.mkdir, path, done⟩ : Call) :: w.calls = new ++ w.calls ∧
      ∀ c ∈ new, P c := fun done => ⟨[_], rfl, by simpa using hP done⟩
  refine ends_call (fun _ => ?_) fun _ => ⟨hmkdir false, Nat.le_add_right _ _⟩
  rw [if_neg (by simp), ends_bind, ends_directoryExists, ends_ite]
  split
  · exact ⟨hmkdir true, Nat.le_add_right _ _⟩
  rw [ends_bind]
  refine ends_rememberCreated (fun text _ => ?_) fun hfull => ?_
  · exact ⟨hmkdir true, le_rfl⟩
  · rcases hfull with hlong | hfull
    · exact absurd hfits (not_lt.2 hlong)
    · exact absurd hroom (not_lt.2 hfull)

lemma onlyMakes_ensureDirectories {dirs : List CString}
    (hP : ∀ dir ∈ dirs, ∀ done, P ⟨.mkdir, dir, done⟩) (hfits : ∀ dir ∈ dirs, dir.length < pathCap)
    (hroom : w.created.length + dirs.length ≤ maxCreatedPaths) :
    OnlyMakes P dirs.length (dirs.forM (ensureDirectory host)) w := by
  induction dirs generalizing w with
  | nil => exact .of_eq rfl rfl
  | cons dir dirs ih =>
    show Ends (ensureDirectory host dir >>= fun _ => dirs.forM (ensureDirectory host)) w _ _
    rw [length_cons] at hroom ⊢
    rw [forall_mem_cons] at hP hfits
    rw [ends_bind, add_comm]
    refine (onlyMakes_ensureDirectory hP.1 hfits.1 (by omega)).mono ?_
      fun _ h => h.mono (Nat.le_add_right _ _)
    intro _ t ht
    have hcreated := ht.created
    exact (ih hP.2 hfits.2 (by omega)).mono (fun _ u hu => ht.trans hu) fun u hu => ht.trans hu

lemma onlyMakes_writeDatabase (hroom : w.created.length + 3 ≤ maxCreatedPaths) (data : CString)
    (hP : ∀ c : Call, c.request = .mkdir ∨ c.request = .truncate → P c) :
    OnlyMakes P 3 (writeDatabase host data) w := by
  have hcuts : (cuts slash uniStateRoot).length = 2 ∧
      ∀ dir ∈ cuts slash uniStateRoot, dir.length < pathCap := by decide
  unfold writeDatabase ensureDirectoryTree
  rw [OnlyMakes, ends_bind, ends_bind, ends_ofOption]
  refine ⟨fun work hwork => ?_, fun _ => .of_eq rfl rfl⟩
  rw [copyText_eq_some_iff] at hwork
  rw [hwork, ends_bind]
  refine (onlyMakes_ensureDirectories (fun _ _ _ => hP _ (.inl rfl)) hcuts.2
    (by omega)).mono ?_ fun _ h => h.mono (by omega)
  intro _ t ht
  have hcreated := ht.created
  refine (onlyMakes_ensureDirectory (fun _ => hP _ (.inl rfl)) (by decide)
    (by omega)).mono ?_ fun _ h => ht.trans h
  intro _ u hu
  have hrest : OnlyMakes P 0 (do
      let opened ← openTruncated host uniDb
      if opened = false then failure
      else
        let written ← writeAll host uniDb data.bytes
        if written then pure () else failure) u := by
    refine (onlyMakes_call fun _ => hP _ (.inr rfl)).bind fun opened v _ => ?_
    split
    · exact .of_eq rfl rfl
    · exact OnlyMakes.demand (onlyMakes_writeLoop _ _ _)
  exact hrest.mono (fun _ v hv => (ht.trans hu).trans hv) fun v hv => (ht.trans hu).trans hv

lemma onlyMakes_removeTree {id : CString} (hP : ∀ c : Call, Private id c.path → P c)
    (levels : Nat) (hpath : Private id path) : OnlyMakes P 0 (removeTree host levels path) w := by
  induction levels generalizing path w with
  | zero => exact onlyMakes_failure
  | succ levels ih =>
    refine (asks_ask host _ _ _).onlyMakes.bind fun opened t _ => ?_
    split
    · exact OnlyMakes.demand (onlyMakes_call fun _ => hP _ hpath)
    refine OnlyMakes.bind (x := Fallible.step _) (.of_eq rfl rfl) fun batches t _ => ?_
    refine OnlyMakes.bind (onlyMakes_forM fun batch _ t => ?_) fun _ t _ =>
      OnlyMakes.demand (onlyMakes_call fun _ => hP _ hpath)
    refine (asks_ofOption batch).onlyMakes.bind fun names t _ =>
      onlyMakes_forM fun name _ t => ?_
    rw [OnlyMakes, ends_ite]
    split
    · exact onlyMakes_pure ()
    next hname =>
    -- The child is the path with one more component.
    rw [ends_bind, ends_ofOption]
    refine ⟨fun child₁ h₁ => ?_, fun _ => .of_eq rfl rfl⟩
    rw [ends_bind, ends_ofOption]
    refine ⟨fun child₂ h₂ => ?_, fun _ => .of_eq rfl rfl⟩
    rw [ends_bind, ends_ofOption]
    refine ⟨fun child₃ h₃ => ?_, fun _ => .of_eq rfl rfl⟩
    rw [copyText_eq_some_iff] at h₁
    rw [appendChar_eq_some_iff] at h₂
    rw [appendText_eq_some_iff] at h₃
    have hchild : child₃.val = path ++ [slash] ++ name.val := by rw [h₃, h₂, h₁]
    simp only [isSelfOrParent, Bool.or_eq_true, beq_iff_eq, not_or] at hname
    rw [hchild]
    exact ih (private_concat hpath ⟨name.property.1, hname.1, hname.2, name.property.2⟩)

end Calls

/-! ## Manifests -/

/-- The path of a path line, whether or not it fits a buffer. -/
def pathOfLine (line : List UInt8) : CString := CString.ofBytes (line.drop 7)

def pathLines (manifest : List UInt8) : List (List UInt8) :=
  (lines isLineEndByte manifest).filter isPathLine

lemma linePath_eq_some {line : List UInt8} (h : linePath line = some path) :
    path = pathOfLine line := by
  unfold linePath copyBytes at h
  split at h
  · exact absurd h (by simp)
  · exact (Option.some.inj h).symm

lemma private_of_validateManifestPaths {manifest : List UInt8} (hid : validPackageId id = true)
    (h : validateManifestPaths manifest id false = true) :
    ∀ line ∈ pathLines manifest, ∃ path, linePath line = some path ∧ Private id path := by
  intro line hline
  obtain ⟨hmem, hpath⟩ := mem_filter.1 hline
  simp only [validateManifestPaths, Bool.and_eq_true, all_eq_true, Bool.or_eq_true,
    Bool.not_eq_true'] at h
  have hvalid : validPathLine id false line = true := by
    rcases h.2 line hmem with hnot | hvalid
    · exact absurd (hnot.symm.trans hpath) (by decide)
    · exact hvalid
  unfold validPathLine at hvalid
  rw [Bool.and_eq_true] at hvalid
  have hcheck := hvalid.2
  split at hcheck
  · exact absurd hcheck (by simp)
  next path hsome => exact ⟨path, hsome, private_of_validate hid hcheck⟩

lemma onlyMakes_removeManifestPaths {host : Host} {manifest : List UInt8} {P : Call → Prop}
    {w : World} (hP : ∀ c : Call, Private id c.path → P c)
    (h : ∀ line ∈ pathLines manifest, ∃ path, linePath line = some path ∧ Private id path) :
    OnlyMakes P 0 (removeManifestPaths host manifest) w := by
  refine onlyMakes_forM fun line hline t => ?_
  unfold removeLine
  rw [OnlyMakes, ends_ite]
  split
  · exact onlyMakes_pure ()
  next hpath =>
  obtain ⟨path, hsome, hprivate⟩ :=
    h line (mem_filter.2 ⟨hline, Bool.not_eq_false _ ▸ hpath⟩)
  rw [hsome, ends_bind, ends_ofOption]
  refine ⟨?_, fun hnone => absurd hnone (by simp)⟩
  rintro _ ⟨⟩
  split
  · exact (onlyMakes_call fun _ => hP _ hprivate).bind fun _ t _ => onlyMakes_pure ()
  refine (asks_ask host _ _ _).onlyMakes.bind fun there t _ => ?_
  split
  · exact onlyMakes_pure ()
  · exact OnlyMakes.demand (onlyMakes_call fun _ => hP _ hprivate)

/-! ## Removals -/

def manifestPath (id : CString) : CString :=
  uniManifestRoot ++ [slash] ++ id ++ CString.ofString ".manifest"

/-- A package that is recorded in the database with another kind than `deb`. -/
def RecordedPrivate (files : Files) (id : CString) : Prop :=
  ∃ bytes record, files uniDb = some (.regular bytes) ∧
    findRecord id (CString.ofBytes (bytes.take (dbCap - 1))) = some record ∧
    record.kind.val ≠ CString.ofString "deb"

def Call.Removes (c : Call) : Prop := c.request = .unlink ∨ c.request = .rmdir

instance (c : Call) : Decidable c.Removes := by unfold Call.Removes; infer_instance

/-- A call that removes nothing but the manifest and private paths. -/
def Call.Stays (id : CString) (c : Call) : Prop :=
  c.Removes → c.path = manifestPath id ∨ Private id c.path

section Removals

variable {host : Host} {id : CString} {w : World}

lemma manifestPathFor_eq_some {path : Text pathCap} :
    manifestPathFor id = some path ↔ path.val = manifestPath id := by
  have hfits : path.val.length < 128 := path.property
  unfold manifestPathFor manifestPath
  simp only [Option.bind_eq_bind, Option.bind_eq_some_iff, appendText_eq_some_iff, emptyText,
    nil_append]
  constructor
  · rintro ⟨root, hroot, dir, hdir, hpath⟩
    rw [hpath, hdir, hroot]
  · intro hpath
    rw [hpath] at hfits
    simp only [length_append] at hfits
    have hroot : (uniManifestRoot ++ [slash]).length < 128 := by
      rw [length_append]
      omega
    have hdir : (uniManifestRoot ++ [slash] ++ id).length < 128 := by
      simp only [length_append]
      omega
    exact ⟨⟨_, hroot⟩, rfl, ⟨_, hdir⟩, rfl, hpath⟩

lemma openForReading_exec (host : Host) (w : World) (path : CString) : ∃ file,
    (openForReading host path).exec w = (some file, { w with time := w.time + 1 }) ∧
      ∀ bytes, file = some bytes ↔
        host.allows .read path w.time = true ∧ w.files path = some (.regular bytes) := by
  refine ⟨_, rfl, fun bytes => ?_⟩
  dsimp only
  split
  · next h hnode => simp [h, hnode]
  · next hother =>
    refine ⟨fun h => absurd h (by simp), fun h => absurd h.2 (hother _ h.1)⟩

/-- A host that opens, maps and reads what there is. -/
def Host.Reads (host : Host) : Prop :=
  ∀ path n, host.allows .read path n = true ∧ host.allows .map path n = true

lemma ends_mapMemory {size : Nat} :
    Ends (mapMemory host size) w (fun _ t => OnlyTime w t)
      fun t => OnlyTime w t ∧ (host.Reads → size = 0 ∨ size > maxExtractedSize) := by
  unfold mapMemory
  rw [ends_bind]
  show Ends _ { w with time := w.time + 1 } _ _
  split
  · next h => exact ⟨⟨_, rfl⟩, fun hreads => h.resolve_left (by simp [(hreads [] w.time).2])⟩
  · exact ⟨_, rfl⟩

lemma ends_readExact {path : CString} :
    Ends (readExact host path) w (fun _ t => OnlyTime w t)
      fun t => OnlyTime w t ∧ ¬ host.Reads := by
  unfold readExact
  rw [ends_bind]
  show Ends _ { w with time := w.time + 1 } _ _
  split
  · exact ⟨_, rfl⟩
  · next h => exact ⟨⟨_, rfl⟩, fun hreads => h (hreads path w.time).1⟩

/-- `load_manifest` gives the manifest that is there, unless it is empty or too large or the host
refuses to give it. -/
lemma ends_loadManifest :
    Ends (loadManifest host id) w (fun r t => OnlyTime w t ∧ r.1.val = manifestPath id ∧
        w.files (manifestPath id) = some (.regular r.2) ∧ r.2.length < manifestCap)
      fun t => OnlyTime w t ∧ (host.Reads → (manifestPath id).length < pathCap →
        ∀ manifest, w.files (manifestPath id) = some (.regular manifest) →
          manifest.length = 0 ∨ manifestCap ≤ manifest.length) := by
  have htime : ∀ n, OnlyTime w { w with time := n } := fun n => ⟨n, rfl⟩
  unfold loadManifest
  rw [ends_bind, ends_ofOption]
  refine ⟨fun path hpath => ?_, fun hnone => ⟨⟨_, rfl⟩, fun _ hfits => ?_⟩⟩
  · rw [manifestPathFor_eq_some] at hpath
    obtain ⟨file, hexec, hfile⟩ := openForReading_exec host w path.val
    rw [hpath] at hfile
    rw [ends_bind, Ends, hexec]
    dsimp only
    rw [ends_bind, ends_ofOption]
    refine ⟨fun bytes hbytes => ?_, fun hnone => ⟨⟨_, rfl⟩, fun hreads _ manifest hmanifest => ?_⟩⟩
    · have hthere := ((hfile bytes).1 hbytes).2
      split
      · next hsize =>
        refine ⟨⟨_, rfl⟩, fun _ _ manifest hmanifest => ?_⟩
        rw [hthere] at hmanifest
        cases hmanifest
        exact hsize
      next hsize =>
      rw [not_or, not_le] at hsize
      rw [ends_bind]
      refine ends_mapMemory.mono ?_ ?_
      · rintro _ _ ⟨n, rfl⟩
        rw [ends_bind]
        refine ends_readExact.mono ?_ ?_
        · rintro _ _ ⟨m, rfl⟩
          exact ⟨htime m, hpath, hthere, hsize.2⟩
        · rintro _ ⟨⟨m, rfl⟩, hnot⟩
          exact ⟨htime m, fun hreads => absurd hreads hnot⟩
      · rintro _ ⟨⟨n, rfl⟩, hmap⟩
        refine ⟨htime n, fun hreads => ?_⟩
        have hlarge : maxExtractedSize > manifestCap := by decide
        rcases hmap hreads with hzero | hlong
        · omega
        · omega
    · exact absurd (hnone.symm.trans ((hfile manifest).2 ⟨(hreads _ _).1, hmanifest⟩)) (by simp)
  · have hsome := manifestPathFor_eq_some.2
      (show (⟨manifestPath id, hfits⟩ : Text pathCap).val = manifestPath id from rfl)
    exact absurd (hnone.symm.trans hsome) (by simp)

/-- `find_installed_record` finds the first record in the database, or could not read it. -/
lemma ends_findInstalledRecord {Q : Option InstalledRecord → World → Prop} {E : World → Prop}
    (hnone : ∀ t, OnlyTime w t → (host.Reads → ∀ bytes, w.files uniDb = some (.regular bytes) →
      findRecord id (ofBytes (bytes.take (dbCap - 1))) = none) → Q none t)
    (hsome : ∀ bytes record t, OnlyTime w t → w.files uniDb = some (.regular bytes) →
      findRecord id (ofBytes (bytes.take (dbCap - 1))) = some record → Q (some record) t) :
    Ends (findInstalledRecord host id) w Q E := by
  unfold findInstalledRecord loadDatabase
  obtain ⟨file, hexec, hfile⟩ := openForReading_exec host w uniDb
  rw [ends_bind, ends_bind, Ends, hexec]
  dsimp only
  split
  · refine hnone _ ⟨_, rfl⟩ fun hreads bytes hbytes => ?_
    exact absurd ((hfile bytes).2 ⟨(hreads _ _).1, hbytes⟩) (by simp)
  next bytes =>
  have hfile : w.files uniDb = some (.regular bytes) := ((hfile bytes).1 rfl).2
  show Ends (pure _) { w with time := w.time + 2 } _ E
  split
  · rw [Option.bind_some]
    cases hrecord : findRecord id (ofBytes (bytes.take (dbCap - 1))) with
    | none =>
      refine hnone _ ⟨_, rfl⟩ fun _ bytes' hbytes' => ?_
      rw [hfile] at hbytes'
      cases hbytes'
      exact hrecord
    | some record => exact hsome bytes record _ ⟨_, rfl⟩ hfile hrecord
  · next hrefused => exact hnone _ ⟨_, rfl⟩ fun hreads => absurd (hreads _ _).1 hrefused

lemma onlyMakes_forgetRecord {P : Call → Prop} (hroom : w.created.length + 3 ≤ maxCreatedPaths)
    (hP : ∀ c : Call, c.request = .mkdir ∨ c.request = .truncate → P c) :
    OnlyMakes P 3 (do let db ← databaseWithout host id; writeDatabase host db) w := by
  have hasks : Asks (databaseWithout host id) := by
    refine Asks.bind ?_ fun _ => (asks_ofOption _).bind fun _ => asks_ofOption _
    refine (asks_openForReading _).bind fun file => ?_
    cases file with
    | none => exact asks_pure _
    | some => exact (asks_ask host _ _ _).bind fun _ => asks_pure _
  exact hasks.onlyMakes.bind fun db t ht => onlyMakes_writeDatabase (by omega) db hP

/-- The removal of a recorded package, up to the choice between its manifest and its tree. -/
lemma ends_removePackage {Q : Unit → World → Prop} {E : World → Prop}
    (hid : validPackageId id = true) (hrecord : RecordedPrivate w.files id)
    (hunread : ∀ n, ¬ host.Reads → E { w with time := n })
    (hmanifest : ∀ path manifest n, path = manifestPath id →
      w.files (manifestPath id) = some (.regular manifest) → manifest.length < manifestCap →
      Ends (do
        removeWithManifest host id false path manifest
        let db ← databaseWithout host id
        writeDatabase host db) { w with time := n } Q E)
    (htree : ∀ n, (host.Reads → (manifestPath id).length < pathCap →
        ∀ manifest, w.files (manifestPath id) = some (.regular manifest) →
          manifest.length = 0 ∨ manifestCap ≤ manifest.length) →
      Ends (do
        removeWithoutManifest host id false
        let db ← databaseWithout host id
        writeDatabase host db) { w with time := n } Q E) : Ends (removePackage host id) w Q E := by
  unfold removePackage
  rw [ends_ite, if_neg (by simp [hid]), ends_bind]
  refine ends_findInstalledRecord ?_ ?_
  · rintro _ ⟨n, rfl⟩ hnone
    obtain ⟨bytes, record, hfile, hfound, -⟩ := hrecord
    exact hunread n fun hreads =>
      absurd ((hnone hreads bytes hfile).symm.trans hfound) (by simp)
  rintro bytes record _ ⟨n, rfl⟩ hfile hfound
  -- It is the record that is there.
  have hkind : (record.kind.val == ofString "deb") = false := by
    obtain ⟨bytes', record', hfile', hfound', hkind⟩ := hrecord
    rw [hfile] at hfile'
    cases hfile'
    rw [hfound] at hfound'
    cases hfound'
    simpa using hkind
  rw [ends_bind, ends_ofOption]
  refine ⟨?_, fun hnone => absurd hnone (by simp)⟩
  rintro _ ⟨⟩
  rw [hkind, ends_ite, if_neg (by simp), ends_bind, ends_attempt]
  refine ends_loadManifest.mono ?_ ?_
  · rintro ⟨path, manifest⟩ _ ⟨⟨m, rfl⟩, hpath, hthere, hsize⟩
    exact hmanifest path.val manifest m hpath hthere hsize
  · rintro _ ⟨⟨m, rfl⟩, hnot⟩
    exact htree m hnot

/-- Whatever the manifest is, a removal removes only the manifest and private paths. -/
lemma onlyMakes_removePackage (hroom : w.created.length + 3 ≤ maxCreatedPaths)
    (hrecord : RecordedPrivate w.files id) :
    OnlyMakes (Call.Stays id) 3 (removePackage host id) w := by
  have hprivate : ∀ c : Call, Private id c.path → c.Stays id := fun _ h _ => .inr h
  have hother : ∀ c : Call, c.request = .mkdir ∨ c.request = .truncate → c.Stays id := by
    rintro c (h | h) (h' | h') <;> rw [h] at h' <;> exact absurd h' (by decide)
  cases hid : validPackageId id with
  | false =>
    unfold removePackage
    rw [OnlyMakes, ends_ite, if_pos hid]
    exact onlyMakes_failure
  | true =>
    -- The record is forgotten after the files have been removed, with or without a manifest.
    have hlast : ∀ {x : Command Unit} {n : Nat},
        OnlyMakes (Call.Stays id) 0 x { w with time := n } →
        Ends (x >>= fun _ => do let db ← databaseWithout host id; writeDatabase host db)
          { w with time := n } (fun _ t => Makes (Call.Stays id) 3 w t)
          (Makes (Call.Stays id) 3 w) := by
      intro x n hx
      have hboth : OnlyMakes (Call.Stays id) 3
          (x >>= fun _ => do let db ← databaseWithout host id; writeDatabase host db)
          { w with time := n } :=
        hx.bind fun _ u hu => onlyMakes_forgetRecord (by dsimp only at hu; omega) hother
      have htime : Makes (Call.Stays id) 0 w { w with time := n } := .of_eq rfl rfl
      exact hboth.mono (fun _ t ht => htime.after ht) fun t ht => htime.after ht
    refine ends_removePackage hid hrecord (fun _ _ => .of_eq rfl rfl) ?_ ?_
    · intro path manifest n hpath _ _
      refine hlast ?_
      unfold removeWithManifest
      rw [OnlyMakes, ends_ite]
      split
      · exact onlyMakes_failure
      next hvalid =>
      refine OnlyMakes.bind (onlyMakes_removeManifestPaths hprivate
        (private_of_validateManifestPaths hid (Bool.not_eq_false _ ▸ hvalid))) fun _ t _ => ?_
      exact OnlyMakes.demand (onlyMakes_call fun _ _ => .inl hpath)
    · intro n _
      refine hlast ?_
      unfold removeWithoutManifest
      rw [OnlyMakes, ends_ite, if_neg (by simp), ends_bind, ends_ofOption]
      refine ⟨fun base hbase => ?_, fun _ => .of_eq rfl rfl⟩
      rw [joinInstallPath_eq_some, if_pos rfl, append_nil] at hbase
      refine (asks_ask host _ _ _).onlyMakes.bind fun there t _ => ?_
      split
      · exact onlyMakes_removeTree hprivate 16 (hbase ▸ private_base hid)
      · exact onlyMakes_pure ()

lemma validPackageId_length (hid : validPackageId id = true) : id.length < idCap := by
  simp only [validPackageId, Bool.and_eq_true, decide_eq_true_eq] at hid
  exact hid.1.1.1.1.2

lemma manifestPath_fits (hid : validPackageId id = true) :
    (manifestPath id).length < pathCap := by
  have hlength := validPackageId_length hid
  have hroot : (uniManifestRoot ++ [slash]).length = 22 ∧
      (ofString ".manifest").length = 9 ∧ idCap = 48 ∧ pathCap = 128 := by decide
  unfold manifestPath
  rw [length_append, length_append]
  omega

/-- A manifest that is loaded and has a path that is not private stops the removal. -/
lemma onlyMakes_refused {manifest : List UInt8} (hreads : host.Reads)
    (hid : validPackageId id = true) (hrecord : RecordedPrivate w.files id)
    (hmanifest : w.files (manifestPath id) = some (.regular manifest))
    (hsize : manifest.length < manifestCap)
    (hline : ∃ line ∈ pathLines manifest, ¬ Private id (pathOfLine line)) :
    OnlyMakes (fun _ => False) 0 (removePackage host id) w := by
  obtain ⟨line, hline, hnot⟩ := hline
  refine ends_removePackage hid hrecord (fun _ _ => .of_eq rfl rfl) ?_ ?_
  · intro path manifest' n _ hthere _
    rw [hmanifest] at hthere
    cases hthere
    have hinvalid : validateManifestPaths manifest id false = false := by
      rw [← Bool.not_eq_true]
      intro hvalid
      obtain ⟨path, hpath, hprivate⟩ := private_of_validateManifestPaths hid hvalid line hline
      exact hnot (linePath_eq_some hpath ▸ hprivate)
    unfold removeWithManifest
    rw [if_pos hinvalid]
    exact .of_eq rfl rfl
  · intro n hload
    rcases hload hreads (manifestPath_fits hid) manifest hmanifest with hempty | hlarge
    · rw [length_eq_zero_iff] at hempty
      subst hempty
      exact absurd hline (by simp [pathLines, lines])
    · exact absurd hsize (not_lt.2 hlarge)

end Removals

/-! ## Manifests that are too large -/

def recordText (id : CString) : CString := id ++ CString.ofString "|demo|1|ainstall|data|||||"

/-- A file system with a package, its record and its manifest. -/
def recordedFiles (id : CString) (manifest : List UInt8) : Files := fun path =>
  if path = uniDb then some (.regular (recordText id).bytes)
  else if path = manifestPath id then some (.regular manifest)
  else if path = render slash (rootComps ++ [id]) then some .directory
  else none

def recordedWorld (id : CString) (manifest : List UInt8) : World where
  files := recordedFiles id manifest
  created := []
  time := 0
  calls := []

section Oversized

variable {id : CString} {manifest : List UInt8}

lemma findRecord_recordText (hid : validPackageId id = true) :
    ∃ record, findRecord id (recordText id) = some record ∧
      record.kind.val = ofString "ainstall" := by
  have hlength := validPackageId_length hid
  have hcomponent := validPackageId_component hid
  have hchars : ∀ c ∈ id, isValidIdChar c = true := by
    simp only [validPackageId, Bool.and_eq_true, all_eq_true] at hid
    exact hid.1.2
  have hbar : ∀ c ∈ id, (c != bar) = true := by
    intro c hc
    rw [bne_iff_ne]
    rintro rfl
    exact absurd (hchars _ hc) (by decide)
  have hrest : ∀ c ∈ ofString "|demo|1|ainstall|data|||||", isLineEnd c = false := by
    decide +kernel
  have hend : ∀ c ∈ recordText id, isLineEnd c = false := by
    intro c hc
    rcases mem_append.1 hc with hc | hc
    · by_contra hline
      simp only [isLineEnd, Bool.not_eq_false, Bool.or_eq_true, beq_iff_eq] at hline
      rcases hline with rfl | rfl <;> exact absurd (hchars _ hc) (by decide)
    · exact hrest c hc
  have hfirst : fieldCopy idCap (recordText id) =
      some (⟨id, hlength⟩, ofString "demo|1|ainstall|data|||||") := by
    unfold fieldCopy recordText
    rw [takeWhile_append_of_pos hbar, dropWhile_append_of_pos hbar]
    have hcopy : copyText idCap (id ++ (ofString "|demo|1|ainstall|data|||||").takeWhile
        (· != bar)) = some ⟨id, hlength⟩ := by
      rw [copyText_eq_some_iff]
      exact (append_nil id).symm
    rw [hcopy]
    rfl
  have hparse : ∃ record, parseInstalledLine (recordText id) = some record ∧
      record.id.val = id ∧ record.kind.val = ofString "ainstall" := by
    unfold parseInstalledLine
    rw [hfirst]
    exact ⟨_, if_neg hcomponent.nonempty, rfl, rfl⟩
  obtain ⟨record, hrecord, hsame, hkind⟩ := hparse
  refine ⟨record, ?_, hkind⟩
  have hlines : lines isLineEnd (recordText id) = [recordText id] := by
    unfold lines
    rw [splitBy_of_not_sep hend]
    simp [recordText, hcomponent.nonempty]
  simp [findRecord, hlines, recordFor, hrecord, hsame]

lemma recordedPrivate_recordedWorld (hid : validPackageId id = true) :
    RecordedPrivate (recordedWorld id manifest).files id := by
  obtain ⟨record, hrecord, hkind⟩ := findRecord_recordText hid
  have hdb : (recordedWorld id manifest).files uniDb = some (.regular (recordText id).bytes) := by
    simp [recordedWorld, recordedFiles]
  refine ⟨(recordText id).bytes, record, hdb, ?_, by rw [hkind]; decide⟩
  have hfits : (recordText id).bytes.length ≤ dbCap - 1 := by
    have hlength := validPackageId_length hid
    have hcaps : (ofString "|demo|1|ainstall|data|||||").length = 26 ∧ idCap = 48 ∧
        48 + 26 ≤ dbCap - 1 := by decide
    rw [bytes_length, recordText, length_append]
    omega
  rw [take_of_length_le hfits]
  have hbytes := ofBytes_bytes_append (recordText id) []
  rw [append_nil] at hbytes
  rw [hbytes, ofBytes, append_nil]
  exact hrecord

/-- The database, the manifest and the directory of a package are different files. -/
lemma recorded_ne (id : CString) : manifestPath id ≠ uniDb ∧
    render slash (rootComps ++ [id]) ≠ uniDb ∧
    render slash (rootComps ++ [id]) ≠ manifestPath id := by
  -- They differ in the character with the number 13 or with the number 1.
  have hat : ∀ n c d, c ≠ d → ∀ p q : CString, (p.drop n).head? = some c →
      (q.drop n).head? = some d → p ≠ q := by
    rintro n c d hne p _ hp hq rfl
    exact hne (Option.some.inj (hp.symm.trans hq))
  exact ⟨hat 13 ⟨0x70, by decide⟩ ⟨0x69, by decide⟩ (by decide) _ _ rfl rfl,
    hat 1 ⟨0x6d, by decide⟩ ⟨0x76, by decide⟩ (by decide) _ _ rfl rfl,
    hat 1 ⟨0x6d, by decide⟩ ⟨0x76, by decide⟩ (by decide) _ _ rfl rfl⟩

lemma recordedWorld_manifest : (recordedWorld id manifest).files (manifestPath id) =
    some (.regular manifest) := by
  unfold recordedWorld recordedFiles
  dsimp only
  rw [if_neg (recorded_ne id).1, if_pos rfl]

lemma recordedWorld_base :
    (recordedWorld id manifest).files (render slash (rootComps ++ [id])) = some .directory := by
  unfold recordedWorld recordedFiles
  dsimp only
  rw [if_neg (recorded_ne id).2.1, if_neg (recorded_ne id).2.2, if_pos rfl]

lemma ends_removeTree_empty {levels : Nat} {path : CString} {w : World}
    {Q : Unit → World → Prop} {E : World → Prop} (h : w.files path = some .directory)
    (hQ : ∀ t, t.created = w.created → t.calls = ⟨.rmdir, path, true⟩ :: w.calls → Q () t) :
    Ends (removeTree obliging (levels + 1) path) w Q E := by
  unfold removeTree
  rw [ends_bind, ends_directoryExists, h, if_neg (by simp [obliging, isDirectory]), ends_bind,
    ends_step_some, ends_bind]
  show Ends (do let done ← rmdir obliging path; if done then pure () else failure)
    { w with time := w.time + 1 } Q E
  rw [ends_bind]
  refine ends_call (fun _ => ?_) fun hfailed => ?_
  · rw [if_pos rfl]
    exact hQ _ rfl rfl
  · simp [h, obliging, isDirectory] at hfailed

/-- A package with a manifest that is too large is removed as a tree. -/
lemma oversized_removes (hid : validPackageId id = true) (hsize : manifestCap ≤ manifest.length) :
    (⟨.rmdir, render slash (rootComps ++ [id]), true⟩ : Call) ∈
      callsDuring (removePackage obliging id) (recordedWorld id manifest) := by
  have hfits : (render slash (rootComps ++ [id])).length < pathCap := by
    have hlength := validPackageId_length hid
    have hcaps : (render slash rootComps).length = 18 ∧ idCap = 48 ∧ pathCap = 128 := by decide
    rw [render_append, length_append, render_cons, render_nil, append_nil,
      length_cons]
    omega
  have hjoin : joinInstallPath id [] = some ⟨_, hfits⟩ := by
    rw [joinInstallPath_eq_some, if_pos rfl, append_nil]
  have hends : Ends (removePackage obliging id) (recordedWorld id manifest)
      (fun _ t => (⟨.rmdir, render slash (rootComps ++ [id]), true⟩ : Call) ∈ t.calls)
      fun t => (⟨.rmdir, render slash (rootComps ++ [id]), true⟩ : Call) ∈ t.calls := by
    refine ends_removePackage hid (recordedPrivate_recordedWorld hid) ?_ ?_ ?_
    · exact fun _ hnot => absurd (fun _ _ => ⟨rfl, rfl⟩) hnot
    · intro path manifest' n _ hthere hsmall
      rw [recordedWorld_manifest] at hthere
      cases hthere
      exact absurd hsmall (not_lt.2 hsize)
    · intro n _
      unfold removeWithoutManifest
      rw [if_neg (by simp), hjoin, ends_bind, ends_bind, ends_ofOption]
      refine ⟨?_, fun hnone => absurd hnone (by simp)⟩
      rintro _ ⟨⟩
      rw [ends_bind, ends_directoryExists]
      simp only [recordedWorld_base]
      rw [if_pos (by simp [obliging, isDirectory])]
      have hbase : (recordedWorld id manifest).files (render slash (rootComps ++ [id])) =
        some .directory := recordedWorld_base
      refine ends_removeTree_empty hbase fun t hcreated hcalls => ?_
      have hrest : OnlyMakes (fun _ => True) 3
          (do let db ← databaseWithout obliging id; writeDatabase obliging db) t :=
        onlyMakes_forgetRecord (by simp [hcreated, recordedWorld, maxCreatedPaths])
          fun _ _ => trivial
      have hstill : ∀ u, Makes (fun _ => True) 3 t u →
          (⟨.rmdir, render slash (rootComps ++ [id]), true⟩ : Call) ∈ u.calls := by
        intro u hu
        obtain ⟨new, hnew, -⟩ := hu.calls
        rw [hnew, hcalls]
        simp
      exact hrest.mono (fun _ u hu => hstill u hu) hstill
  have hcalls : (⟨.rmdir, render slash (rootComps ++ [id]), true⟩ : Call) ∈
      ((removePackage obliging id).exec (recordedWorld id manifest)).2.calls := by
    rcases hx : (removePackage obliging id).exec (recordedWorld id manifest) with ⟨_ | _, t⟩
    · exact hends.of_exec_none hx
    · exact hends.of_exec_some hx
  simpa [callsDuring, recordedWorld] using hcalls

end Oversized

/-! ## The condition -/

/-- For a manifest, the removals of a package that is not a system package stay private and do
nothing if a path line is not private, in every file system with that manifest, exactly if it is
small enough to be loaded, or there is nothing to refuse, or the identifier is refused anyway. -/
theorem removal_confined_iff (id : CString) (manifest : List UInt8) :
    (∀ (host : Host) (w : World), RecordedPrivate w.files id →
      w.files (manifestPath id) = some (.regular manifest) →
      w.created.length + 3 ≤ maxCreatedPaths →
      (∀ c ∈ callsDuring (removePackage host id) w, c.Removes →
        c.path = manifestPath id ∨ Private id c.path) ∧
      (host.Reads → (∃ line ∈ pathLines manifest, ¬ Private id (pathOfLine line)) →
        ∀ c ∈ callsDuring (removePackage host id) w, c.Removes → c.done = false)) ↔
    manifest.length < manifestCap ∨ validPackageId id = false ∨
      ∀ line ∈ pathLines manifest, Private id (pathOfLine line) := by
  constructor
  · intro h
    by_contra hnot
    simp only [not_or, not_lt, Bool.not_eq_false, not_forall, exists_prop] at hnot
    obtain ⟨hsize, hid, hline⟩ := hnot
    have hrefused := (h obliging (recordedWorld id manifest)
      (recordedPrivate_recordedWorld hid) recordedWorld_manifest
      (by simp [recordedWorld, maxCreatedPaths])).2 (fun _ _ => ⟨rfl, rfl⟩) hline
    exact absurd (hrefused _ (oversized_removes hid hsize) (.inr rfl)) (by simp)
  · intro h host w hrecord hmanifest hroom
    refine ⟨(onlyMakes_removePackage hroom hrecord).callsDuring, fun hreads hline => ?_⟩
    cases hid : validPackageId id with
    | false =>
      have hfails : OnlyMakes (fun _ => False) 0 (removePackage host id) w := by
        unfold removePackage
        rw [OnlyMakes, ends_ite, if_pos hid]
        exact onlyMakes_failure
      exact fun c hc => (hfails.callsDuring c hc).elim
    | true =>
      rcases h with hsize | hinvalid | hall
      · exact fun c hc =>
          ((onlyMakes_refused hreads hid hrecord hmanifest hsize hline).callsDuring c hc).elim
      · exact absurd (hid.symm.trans hinvalid) (by decide)
      · obtain ⟨line, hmem, hnot⟩ := hline
        exact absurd (hall line hmem) hnot

/-- An identifier and a manifest of `UNI_MANIFEST_CAP` bytes and more, with a path outside of the
directory of the package. -/
def hostileId : CString := CString.ofString "demo"

def hostileLine : List UInt8 := (CString.ofString "path=f|/etc/passwd").bytes

def hostileManifest : List UInt8 := hostileLine ++ 0x0a :: List.replicate manifestCap 0x0a

/-- The manifest has a path that is not private, and the directory of the package is removed. -/
theorem oversized_manifest_ignored :
    ∃ (host : Host) (w : World), RecordedPrivate w.files hostileId ∧
      w.files (manifestPath hostileId) = some (.regular hostileManifest) ∧ host.Reads ∧
      (∃ line ∈ pathLines hostileManifest, ¬ Private hostileId (pathOfLine line)) ∧
      ∃ c ∈ callsDuring (removePackage host hostileId) w, c.Removes ∧ c.done = true := by
  have hid : validPackageId hostileId = true := by decide +kernel
  have hline : hostileLine ∈ pathLines hostileManifest :=
    mem_filter.2 ⟨mem_lines_append (by decide +kernel) (by decide) _, by decide +kernel⟩
  have hnot : ¬ Private hostileId (pathOfLine hostileLine) := by
    rintro ⟨comps, -, ⟨more, rfl⟩, -, hpath⟩
    have hsecond := congrArg (fun path => (path.drop 1).head?) hpath
    have hleft : ((pathOfLine hostileLine).drop 1).head? = some ⟨0x65, by decide⟩ := by
      decide +kernel
    have hright : ((render slash (rootComps ++ [hostileId] ++ more)).drop 1).head? =
        some ⟨0x6d, by decide⟩ := rfl
    exact absurd (hleft.symm.trans (hsecond.trans hright)) (by decide)
  have hsize : manifestCap ≤ hostileManifest.length := by
    rw [hostileManifest, length_append, length_cons, length_replicate]
    exact (Nat.le_succ _).trans (Nat.le_add_left _ _)
  exact ⟨obliging, recordedWorld hostileId hostileManifest, recordedPrivate_recordedWorld hid,
    recordedWorld_manifest, fun _ _ => ⟨rfl, rfl⟩, ⟨_, hline, hnot⟩,
    ⟨_, oversized_removes hid hsize, .inr rfl, rfl⟩⟩

end AosKernel.Uni
