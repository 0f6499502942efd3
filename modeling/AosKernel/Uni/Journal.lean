import AosKernel.Uni.Database

/-!
# What an extraction changes

`Change` says once what the steps of an extraction may do to the world: which calls they make, that
they leave directories in place, that they only add to the journal of created paths, and that the
journal stays enough to take everything back. The last part needs a host whose existence tests are
truthful when a step fails. The results about confinement and removal are derived from it.
-/

namespace AosKernel.Uni

open Lib Lib.Paths Lib.Fallible Function List

/-! ## Changes -/

/-- A host that answers existence tests truthfully and removes what there is. -/
structure Host.Truthful (host : Host) : Prop where
  probe : ∀ path n, host.allows .probe path n = true
  unlink : ∀ path n, host.allows .unlink path n = true
  rmdir : ∀ path n, host.allows .rmdir path n = true

/-- The journal is exactly what has been created since the files were `before`. -/
structure Journal (before : Files) (w : World) : Prop where
  absent : ∀ e ∈ w.created, before e.1.val = none
  node : ∀ e ∈ w.created,
    if e.2 then isDirectory (w.files e.1.val) = true else isRegular (w.files e.1.val) = true
  nodup : (w.created.map Prod.fst).Nodup
  same : ∀ path, (∀ e ∈ w.created, e.1.val ≠ path) → w.files path = before path

/-- The calls of an extraction, for the paths `D` of directories and `F` of files; a directory is
only made where there was none. -/
def Permitted (D F : CString → Prop) (files : Files) (c : Call) : Prop :=
  match c.request with
  | .mkdir => D c.path ∧ (c.done = true → files c.path ≠ some .directory)
  | .rmdir => D c.path
  | .create | .unlink => F c.path
  | _ => False

/-- What the steps of an extraction do, successful ones (`ok`) and others. -/
structure Change (host : Host) (D F : CString → Prop) (ok : Prop) (w w' : World) : Prop where
  calls : ∃ new, w'.calls = new ++ w.calls ∧ ∀ c ∈ new, Permitted D F w.files c
  stays : ∀ path, w.files path = some .directory → w'.files path = some .directory
  grows : ∃ new, w'.created = new ++ w.created ∧ ∀ e ∈ new, if e.2 then D e.1.val else F e.1.val
  journal : ok ∨ host.Truthful → ∀ before, Journal before w → Journal before w'

section Change

variable {host : Host} {D F : CString → Prop} {ok : Prop} {w w' : World} {path : CString}

lemma Change.refl (w : World) : Change host D F ok w w :=
  ⟨⟨[], rfl, by simp⟩, fun _ h => h, ⟨[], rfl, by simp⟩, fun _ _ h => h⟩

theorem Permitted.mono {files files' : Files} {c : Call}
    (h : ∀ path, files path = some .directory → files' path = some .directory)
    (hc : Permitted D F files' c) : Permitted D F files c := by
  unfold Permitted at hc ⊢
  split
  · next heq =>
    rw [heq] at hc
    exact ⟨hc.1, fun hdone hdir => hc.2 hdone (h _ hdir)⟩
  · next heq => rwa [heq] at hc
  · next heq => rwa [heq] at hc
  · next heq => rwa [heq] at hc
  next h1 h2 h3 h4 =>
  split at hc
  · exact absurd ‹_› h1
  · exact absurd ‹_› h2
  · exact absurd ‹_› h3
  · exact absurd ‹_› h4
  · exact hc

theorem Change.trans {w'' : World} (h : Change host D F True w w')
    (h' : Change host D F ok w' w'') : Change host D F ok w w'' := by
  obtain ⟨new, hcalls, hnew⟩ := h.calls
  obtain ⟨new', hcalls', hnew'⟩ := h'.calls
  obtain ⟨made, hmade, hmadeOk⟩ := h.grows
  obtain ⟨made', hmade', hmadeOk'⟩ := h'.grows
  refine ⟨⟨new' ++ new, by rw [hcalls', hcalls, append_assoc], fun c hc => ?_⟩,
    fun path hdir => h'.stays path (h.stays path hdir),
    ⟨made' ++ made, by rw [hmade', hmade, append_assoc], fun e he => ?_⟩,
    fun hok before hj => h'.journal hok before (h.journal (.inl trivial) before hj)⟩
  · rcases mem_append.1 hc with hc | hc
    · exact (hnew' c hc).mono h.stays
    · exact hnew c hc
  · rcases mem_append.1 he with he | he
    · exact hmadeOk' e he
    · exact hmadeOk e he

lemma Change.weaken (h : Change host D F True w w') : Change host D F ok w w' :=
  ⟨h.calls, h.stays, h.grows, fun _ => h.journal (.inl trivial)⟩

lemma Change.created_subset (h : Change host D F ok w w') : w.created ⊆ w'.created := by
  obtain ⟨new, hnew, -⟩ := h.grows
  rw [hnew]
  exact subset_append_right _ _

lemma Change.tick (n : Nat) : Change host D F ok w { w with time := n } :=
  ⟨⟨[], rfl, by simp⟩, fun _ h => h, ⟨[], rfl, by simp⟩,
    fun _ _ h => ⟨h.absent, h.node, h.nodup, h.same⟩⟩

lemma Change.failed {c : Call} (hc : Permitted D F w.files c) (n : Nat) :
    Change host D F ok w { w with time := n, calls := c :: w.calls } :=
  ⟨⟨[c], rfl, by simpa using hc⟩, fun _ h => h, ⟨[], rfl, by simp⟩,
    fun _ _ h => ⟨h.absent, h.node, h.nodup, h.same⟩⟩

/-- A created path that is remembered stays enough to take it back. -/
lemma Journal.add {before : Files} (h : Journal before w) {text : Text pathCap} {isDir : Bool}
    {node : FileNode} (hnone : w.files text.val = none)
    (hnode : if isDir then isDirectory (some node) = true else isRegular (some node) = true)
    {w' : World} (hfiles : w'.files = update w.files text.val (some node))
    (hcreated : w'.created = (text, isDir) :: w.created) : Journal before w' := by
  -- What is in the journal is there, so the path is a new one.
  have hne : ∀ e ∈ w.created, e.1.val ≠ text.val := by
    intro e he heq
    have hthere := h.node e he
    rw [heq, hnone] at hthere
    split at hthere <;> exact absurd hthere (by decide)
  refine ⟨?_, ?_, ?_, ?_⟩
  · rw [hcreated, forall_mem_cons]
    exact ⟨(h.same _ hne).symm.trans hnone, h.absent⟩
  · rw [hcreated, forall_mem_cons, hfiles]
    refine ⟨by simpa using hnode, fun e he => ?_⟩
    rw [update_of_ne (hne e he)]
    exact h.node e he
  · rw [hcreated, map_cons, nodup_cons]
    refine ⟨fun hmem => ?_, h.nodup⟩
    obtain ⟨e, he, heq⟩ := mem_map.1 hmem
    exact hne e he (congrArg Subtype.val heq)
  · intro path hpath
    rw [hcreated, forall_mem_cons] at hpath
    rw [hfiles, update_of_ne (Ne.symm hpath.1)]
    exact h.same path hpath.2

end Change

/-! ## Single calls -/

section Calls

variable {host : Host} {w : World} {path : CString} {Q : Bool → World → Prop} {E : World → Prop}

lemma ends_directoryExists :
    Ends (pathExists host path true) w Q E ↔
      Q (host.allows .probe path w.time && isDirectory (w.files path))
        { w with time := w.time + 1 } := Iff.rfl

lemma ends_fileExists :
    Ends (pathExists host path false) w Q E ↔
      Q (host.allows .probe path w.time && isRegular (w.files path))
        { w with time := w.time + 1 } := Iff.rfl

lemma ends_call {request : Request} {can : Option FileNode → Bool} {node : Option FileNode}
    (hdone : can (w.files path) = true → Q true { w with
      files := update w.files path node
      time := w.time + 1
      calls := ⟨request, path, true⟩ :: w.calls })
    (hfailed : (host.allows request path w.time && can (w.files path)) = false → Q false { w with
      time := w.time + 1
      calls := ⟨request, path, false⟩ :: w.calls }) :
    Ends (host.call request path can node) w Q E := by
  show Q _ _
  rcases h : (host.allows request path w.time && can (w.files path)) with _ | _
  · simpa using hfailed h
  · simp only [Bool.and_eq_true] at h
    simpa using hdone h.2

lemma ends_rememberCreated {isDir : Bool} (hyes : ∀ text : Text pathCap, text.val = path →
      Q true { w with created := (text, isDir) :: w.created })
    (hno : pathCap ≤ path.length ∨ maxCreatedPaths ≤ w.created.length → Q false w) :
    Ends (rememberCreated path isDir) w Q E := by
  have hrun : (rememberCreated path isDir).exec w =
      (copyText pathCap path).elim (some false, w) fun text =>
        if w.created.length ≥ maxCreatedPaths then (some false, w)
        else (some true, { w with created := (text, isDir) :: w.created }) := by
    unfold rememberCreated
    cases copyText pathCap path <;> rfl
  rw [Ends, hrun]
  cases hcopy : copyText pathCap path with
  | none =>
    refine hno (.inl (Nat.le_of_not_lt fun hfits => ?_))
    have hsome := copyText_eq_some_iff.2 (show (⟨path, hfits⟩ : Text pathCap).val = path from rfl)
    exact absurd (hcopy.symm.trans hsome) (by simp)
  | some text =>
    by_cases hfull : w.created.length ≥ maxCreatedPaths
    · simpa only [Option.elim, hfull, if_true] using hno (.inr hfull)
    · simpa only [Option.elim, hfull, if_false] using hyes text (copyText_eq_some_iff.1 hcopy)

def OnlyTime (w t : World) : Prop := ∃ n, t = { w with time := n }

/-- A command that asks the host and changes nothing. -/
def Asks {α : Type} (x : Command α) : Prop := ∀ w, Ends x w (fun _ t => OnlyTime w t) (OnlyTime w)

variable {α : Type}

lemma asks_pure (a : α) : Asks (pure a) := fun w => ⟨w.time, rfl⟩

lemma asks_failure : Asks (failure : Command α) := fun w => ⟨w.time, rfl⟩

lemma asks_ask (host : Host) (request : Request) (path : CString)
    (answer : Bool → Option FileNode → α) : Asks (host.ask request path answer) :=
  fun w => ⟨w.time + 1, rfl⟩

lemma asks_ofOption (o : Option α) : Asks (ofOption o) :=
  fun w => ends_ofOption.2 ⟨fun _ _ => ⟨w.time, rfl⟩, fun _ => ⟨w.time, rfl⟩⟩

variable {x : Command α} {files : Files} {bytes data : List UInt8}

lemma Asks.bind {β : Type} {f : α → Command β} (hx : Asks x) (hf : ∀ a, Asks (f a)) :
    Asks (x >>= f) := by
  intro w
  rw [ends_bind]
  refine (hx w).mono ?_ fun _ h => h
  rintro a _ ⟨n, rfl⟩
  refine (hf a _).mono ?_ ?_
  · rintro _ _ ⟨m, rfl⟩
    exact ⟨m, rfl⟩
  · rintro _ ⟨m, rfl⟩
    exact ⟨m, rfl⟩

lemma Asks.ite {y : Command α} {c : Prop} [Decidable c] (hx : Asks x) (hy : Asks y) :
    Asks (if c then x else y) := by
  split
  · exact hx
  · exact hy

lemma appendTo_of_regular (h : files path = some (.regular bytes)) (data : List UInt8) :
    appendTo files path data = update files path (some (.regular (bytes ++ data))) := by
  rw [appendTo, h]

lemma appendTo_of_not_regular (h : isRegular (files path) = false) (data : List UInt8) :
    appendTo files path data = files := by
  unfold appendTo
  split
  · next bytes hbytes =>
    rw [hbytes] at h
    exact absurd h (by simp [isRegular])
  · rfl

lemma ends_writeOnce {Q : Nat → World → Prop} (hQ : ∀ n ≤ data.length, Q n { w with
      files := appendTo w.files path (data.take n)
      time := w.time + 1 }) : Ends (writeOnce host path data) w Q E := by
  refine hQ _ ?_
  split
  · exact min_le_right _ _
  · exact Nat.zero_le _

/-- Writing appends a part of the data to the file, all of it if the writes succeed. -/
lemma ends_writeLoop {limit fuel : Nat} (h : w.files path = some (.regular bytes)) :
    Ends (writeLoop host path limit fuel data) w (fun done t => ∃ taken,
      (done = true → taken = data) ∧
      t.files = update w.files path (some (.regular (bytes ++ taken))) ∧
      t.created = w.created ∧ t.calls = w.calls) E := by
  have hstay : ∀ {w : World} {bytes : List UInt8}, w.files path = some (.regular bytes) →
      w.files = update w.files path (some (.regular (bytes ++ []))) := by
    intro w bytes h
    rw [append_nil, ← h, update_eq_self]
  induction fuel generalizing data w bytes with
  | zero =>
    cases data with
    | nil => exact ⟨[], fun _ => rfl, hstay h, rfl, rfl⟩
    | cons b data =>
      exact ⟨[], fun hfalse => absurd hfalse Bool.false_ne_true, hstay h, rfl, rfl⟩
  | succ fuel ih =>
    cases data with
    | nil => exact ⟨[], fun _ => rfl, hstay h, rfl, rfl⟩
    | cons b data =>
    rw [writeLoop, ends_bind]
    refine ends_writeOnce fun n hn => ?_
    rw [appendTo_of_regular h]
    have htake : ((b :: data).take limit).take n = (b :: data).take n := by
      rw [take_take, min_eq_left (hn.trans (length_take_le _ _))]
    split
    · next hzero =>
      refine ⟨[], fun hfalse => absurd hfalse Bool.false_ne_true, ?_, rfl, rfl⟩
      simp [hzero]
    refine (ih (update_self _ _ _)).mono ?_ fun _ ht => ht
    rintro done t ⟨taken, htaken, hfiles, hcreated, hcalls⟩
    refine ⟨(b :: data).take n ++ taken, fun hdone => ?_, ?_, hcreated, hcalls⟩
    · rw [htaken hdone, take_append_drop]
    · rw [hfiles, htake, update_idem, append_assoc]

end Calls

/-! ## Directories and files -/

section Steps

variable {host : Host} {D F : CString → Prop} {w : World} {path : CString}

variable {node : Option FileNode}

lemma eq_directory (h : isDirectory node = true) : node = some .directory := by
  match node, h with
  | some .directory, _ => rfl

lemma eq_regular (h : isRegular node = true) : ∃ bytes, node = some (.regular bytes) := by
  match node, h with
  | some (.regular bytes), _ => exact ⟨bytes, rfl⟩

/-- Making a directory where there was none keeps the other directories. -/
lemma stays_update {files : Files} (hnone : files path = none) (node : Option FileNode) :
    ∀ other, files other = some .directory → update files path node other = some .directory := by
  intro other hdir
  rw [update_of_ne]
  · exact hdir
  · rintro rfl
    rw [hnone] at hdir
    simp at hdir

/-- `ensure_directory`: a new directory is in the journal, unless a step fails. -/
lemma ends_ensureDirectory (hD : D path) :
    Ends (ensureDirectory host path) w
      (fun _ t => Change host D F True w t ∧ t.files path = some .directory)
      (Change host D F False w) := by
  unfold ensureDirectory
  rw [ends_bind, ends_directoryExists, ends_ite]
  split
  · next hthere =>
    rw [Bool.and_eq_true] at hthere
    exact ⟨Change.tick _, eq_directory hthere.2⟩
  rw [ends_bind]
  refine ends_call (fun hnone => ?_) fun _ => ?_
  · have hnone : w.files path = none := Option.isNone_iff_eq_none.1 hnone
    have hpermitted : Permitted D F w.files ⟨.mkdir, path, true⟩ :=
      ⟨hD, fun _ hdir => by rw [hnone] at hdir; simp at hdir⟩
    have hstays := stays_update hnone (some .directory)
    rw [if_neg (by simp), ends_bind, ends_directoryExists, ends_ite]
    split
    · next hfound =>
      -- The directory is there, but the open that looks for it fails.
      refine ⟨⟨[_], rfl, by simpa using hpermitted⟩, hstays, ⟨[], rfl, by simp⟩, fun h => ?_⟩
      rcases h with h | h
      · exact h.elim
      · simp [h.probe, isDirectory] at hfound
    · rw [ends_bind]
      refine ends_rememberCreated (fun text htext => ?_) fun _ => ?_
      · subst htext
        refine ⟨⟨⟨[_], rfl, by simpa using hpermitted⟩, hstays,
          ⟨[(text, true)], rfl, by simpa using hD⟩,
          fun _ before hj => hj.add hnone (by simp [isDirectory]) rfl rfl⟩, update_self _ _ _⟩
      · rw [if_neg (by simp), ends_bind]
        have hrmdir : ∀ done, Permitted D F w.files ⟨.rmdir, path, done⟩ := fun _ => hD
        refine ends_call (fun _ => ?_) fun hfailed => ?_
        · have hback : update (update w.files path (some .directory)) path none =
              w.files := by
            rw [update_idem, ← hnone, update_eq_self]
          refine ⟨⟨[_, _], rfl, by simpa using ⟨hrmdir _, hpermitted⟩⟩, ?_, ⟨[], rfl, by simp⟩,
            fun _ before hj => ?_⟩
          · simp only [hback]
            exact fun _ h => h
          · exact ⟨hj.absent, by simpa only [hback] using hj.node, hj.nodup,
              by simpa only [hback] using hj.same⟩
        · refine ⟨⟨[_, _], rfl, by simpa using ⟨hrmdir _, hpermitted⟩⟩, hstays,
            ⟨[], rfl, by simp⟩, fun h => ?_⟩
          rcases h with h | h
          · exact h.elim
          · simp [h.rmdir, isDirectory] at hfailed
  · exact Change.failed (show Permitted D F w.files ⟨.mkdir, path, false⟩ from
      ⟨hD, fun h => absurd h Bool.false_ne_true⟩) _

lemma ends_ensureDirectories {dirs : List CString} (hD : ∀ dir ∈ dirs, D dir) :
    Ends (dirs.forM (ensureDirectory host)) w
      (fun _ t => Change host D F True w t ∧ ∀ dir ∈ dirs, t.files dir = some .directory)
      (Change host D F False w) := by
  induction dirs generalizing w with
  | nil => exact ⟨Change.refl w, by simp⟩
  | cons dir dirs ih =>
    show Ends (ensureDirectory host dir >>= fun _ => dirs.forM (ensureDirectory host)) w _ _
    rw [forall_mem_cons] at hD
    rw [ends_bind]
    refine (ends_ensureDirectory hD.1).mono ?_ fun _ h => h
    rintro _ t ⟨hchange, hdir⟩
    refine (ih hD.2).mono ?_ fun _ h => hchange.trans h
    rintro _ u ⟨hrest, hdirs⟩
    exact ⟨hchange.trans hrest, forall_mem_cons.2 ⟨hrest.stays dir hdir, hdirs⟩⟩

lemma ends_ensureDirectoryTree {includeLeaf : Bool} (hD : ∀ dir ∈ cuts slash path, D dir)
    (hleaf : includeLeaf = true → D path) :
    Ends (ensureDirectoryTree host path includeLeaf) w
      (fun _ t => Change host D F True w t ∧
        (∀ dir ∈ cuts slash path, t.files dir = some .directory) ∧
        (includeLeaf = true → t.files path = some .directory))
      (Change host D F False w) := by
  unfold ensureDirectoryTree
  rw [ends_bind, ends_ofOption]
  refine ⟨fun work hwork => ?_, fun _ => Change.refl _⟩
  rw [copyText_eq_some_iff] at hwork
  rw [hwork, ends_bind]
  refine (ends_ensureDirectories hD).mono ?_ fun _ h => h
  rintro _ t ⟨hchange, hdirs⟩
  split
  · next hinclude =>
    refine (ends_ensureDirectory (hleaf hinclude)).mono ?_ fun _ h => hchange.trans h
    rintro _ u ⟨hrest, hdir⟩
    exact ⟨hchange.trans hrest, fun dir h => hrest.stays dir (hdirs dir h), fun _ => hdir⟩
  · next hinclude => exact ⟨hchange, hdirs, fun h => absurd h hinclude⟩

lemma change_unlink {α : Type} (host : Host) {w' : World} {node : FileNode} (hF : F path)
    (hnone : w.files path = none) (hnode : isRegular (some node) = true)
    (hfiles : w'.files = update w.files path (some node)) (hcreated : w'.created = w.created)
    (hcalls : w'.calls = ⟨.create, path, true⟩ :: w.calls) :
    Ends (do let _ ← unlink host path; (failure : Command α)) w' (fun _ _ => False)
      (Change host D F False w) := by
  have hpermitted : ∀ done, Permitted D F w.files ⟨.create, path, done⟩ := fun _ => hF
  have hunlink : ∀ done, Permitted D F w.files ⟨.unlink, path, done⟩ := fun _ => hF
  rw [ends_bind]
  refine ends_call (fun _ => ?_) fun hfailed => ?_
  · have hback : update w'.files path none = w.files := by
      rw [hfiles, update_idem, ← hnone, update_eq_self]
    refine ⟨⟨[_, _], by rw [hcalls]; rfl, by simpa using ⟨hunlink _, hpermitted _⟩⟩, ?_,
      ⟨[], hcreated, by simp⟩, fun _ before hj => ?_⟩
    · simp only [hback]
      exact fun _ h => h
    · exact ⟨by simpa only [hcreated] using hj.absent,
        by simpa only [hback, hcreated] using hj.node, by simpa only [hcreated] using hj.nodup,
        by simpa only [hback, hcreated] using hj.same⟩
  · refine ⟨⟨[_, _], by rw [hcalls]; rfl, by simpa using ⟨hunlink _, hpermitted _⟩⟩, ?_,
      ⟨[], hcreated, by simp⟩, fun h => ?_⟩
    · simp only [hfiles]
      exact stays_update hnone _
    · rcases h with h | h
      · exact h.elim
      · rw [h.unlink, Bool.true_and, hfiles, update_self, hnode] at hfailed
        exact absurd hfailed (by decide)

lemma ends_writePackageFile {data : List UInt8} (hD : ∀ dir ∈ cuts slash path, D dir)
    (hF : F path) :
    Ends (writePackageFile host path data) w
      (fun _ t => Change host D F True w t ∧ t.files path = some (.regular data))
      (Change host D F False w) := by
  unfold writePackageFile
  rw [ends_bind, ends_fileExists, ends_ite]
  split
  · exact Change.tick _
  rw [ends_bind, ends_directoryExists, ends_ite]
  split
  · exact Change.tick _
  rw [ends_bind]
  refine (ends_ensureDirectoryTree hD (by simp)).mono ?_ fun _ h => (Change.tick _).trans h
  rintro _ t ⟨htree, -, -⟩
  have htree : Change host D F True w t := (Change.tick _).trans htree
  rw [ends_bind]
  refine ends_call (fun hnone => ?_) fun _ => ?_
  · have hnone : t.files path = none := Option.isNone_iff_eq_none.1 hnone
    rw [if_neg (by simp), ends_bind]
    refine (ends_writeLoop (update_self _ _ _)).mono ?_ fun _ h => h
    rintro done u ⟨taken, hall, hfiles, hcreated, hcalls⟩
    have hfiles : u.files = update t.files path (some (.regular taken)) := by
      rw [hfiles, update_idem, nil_append]
    have hback : Ends (do let _ ← unlink host path; (failure : Command Unit)) u
        (fun _ _ => False) fun t' => Change host D F False t t' :=
      change_unlink host hF hnone rfl hfiles hcreated hcalls
    split
    · exact hback.mono (fun _ _ h => h.elim) fun _ h => htree.trans h
    next hdone =>
    have hall : taken = data := hall (Bool.not_eq_false _ ▸ hdone)
    subst hall
    rw [ends_bind]
    refine ends_rememberCreated (fun text htext => ?_) fun _ => ?_
    · subst htext
      have hpermitted : Permitted D F t.files ⟨.create, text.val, true⟩ := hF
      refine ⟨htree.trans ⟨⟨[_], hcalls, by simpa using hpermitted⟩, ?_,
        ⟨[(text, false)], by rw [hcreated]; rfl, by simpa using hF⟩,
        fun _ before hj => ?_⟩, ?_⟩
      · simp only [hfiles]
        exact stays_update hnone _
      · have hnew : (text, false) :: u.created = (text, false) :: t.created := by rw [hcreated]
        exact hj.add hnone (by simp [isRegular]) hfiles hnew
      · simp only [hfiles, update_self]
    · exact hback.mono (fun _ _ h => h.elim) fun _ h => htree.trans h
  · exact htree.trans (Change.failed (show Permitted D F t.files ⟨.create, path, false⟩ from hF) _)

end Steps

end AosKernel.Uni
