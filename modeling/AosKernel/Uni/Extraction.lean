import AosKernel.Uni.Journal

/-!
# The extractions

Both tar readers make only changes below the directory of the package, or find the directories above
it (`ends_extractDataTar`, `ends_feedLoop`). The streaming reader writes to a file that it has
already remembered; `Stream.Open` is the invariant that says so between two pieces of the stream. -/

namespace AosKernel.Uni

open Lib Lib.Paths Lib.Fallible Function Change List

/-! ## Destinations -/

/-- A path with safe components that is a directory or lies below it, and that fits a buffer. -/
def Below (base : List CString) (path : CString) : Prop :=
  ∃ comps, Safe comps ∧ comps ≠ [] ∧ base <+: comps ∧ path = render slash comps ∧
    path.length < pathCap

def Above (base : List CString) (path : CString) : Prop :=
  ∃ comps, comps ≠ [] ∧ comps <+: base ∧ comps ≠ base ∧ path = render slash comps

/-- The directories an extraction looks at. -/
def OnTheWay (base : List CString) (path : CString) : Prop := Below base path ∨ Above base path

def PackageInfo.base (info : PackageInfo) : List CString :=
  baseComps info.systemInstall info.id.val

lemma safe_rootComps : Safe rootComps := by
  intro c hc
  simp only [rootComps, mem_cons, not_mem_nil, or_false] at hc
  rcases hc with rfl | rfl <;>
    exact ⟨by decide, by decide, by decide, by decide +kernel, by decide +kernel⟩

lemma safe_baseComps {id : CString} (h : Component id) (systemInstall : Bool) :
    Safe (baseComps systemInstall id) := by
  unfold baseComps
  split
  · simp [Safe]
  · exact safe_rootComps.append (by simpa [Safe] using h)

variable {name : CString} {a b info : PackageInfo} {fullPath normalized : Text pathCap}

/-- What `entryDestination` gives: the components of the name below the directory of the package. -/
lemma entryDestination_eq_some :
    entryDestination info name = some (normalized, fullPath) ↔
      normalizeArchivePath 127 name = some normalized ∧
        fullPath.val = render slash (info.base ++ kept (pieces name)) := by
  unfold entryDestination
  simp only [Option.bind_eq_bind, Option.bind_eq_some_iff, Option.some.injEq, Prod.mk.injEq]
  have hdestination : ∀ {n f : Text pathCap}, normalizeArchivePath 127 name = some n →
      (packageDestinationPath info.systemInstall info.id.val n.val = some f ↔
        f.val = render slash (info.base ++ kept (pieces name))) := by
    intro n f hn
    obtain ⟨-, hall, hne, hval⟩ := normalizeArchivePath_eq_some.1 hn
    rw [hval, packageDestinationPath_eq_some (safe_kept (pieces_separated name) hall) hne]
    rfl
  constructor
  · rintro ⟨n, hn, f, hf, rfl, rfl⟩
    exact ⟨hn, (hdestination hn).1 hf⟩
  · rintro ⟨hn, hf⟩
    exact ⟨normalized, hn, fullPath, (hdestination hn).2 hf, rfl, rfl⟩

/-- The destination of an entry lies below the directory of the package, and the directories on the
way to it are on the way to that directory. -/
lemma destination_below (hid : Component info.id.val)
    (h : entryDestination info name = some (normalized, fullPath)) :
    Below info.base fullPath.val ∧ ∀ dir ∈ cuts slash fullPath.val, OnTheWay info.base dir := by
  obtain ⟨hnormalized, hfull⟩ := entryDestination_eq_some.1 h
  obtain ⟨-, hall, hne, -⟩ := normalizeArchivePath_eq_some.1 hnormalized
  have hsafe : Safe (info.base ++ kept (pieces name)) :=
    (safe_baseComps hid _).append (safe_kept (pieces_separated name) hall)
  refine ⟨⟨_, hsafe, by simp [hne], prefix_append _ _, hfull, fullPath.property⟩,
    fun dir hdir => ?_⟩
  have hfits := fullPath.property
  rw [hfull] at hdir hfits
  obtain ⟨k, hpos, hk, rfl⟩ := (mem_cuts_render_iff hsafe.separated dir).1 hdir
  have htake : (info.base ++ kept (pieces name)).take k ≠ [] := by
    intro hnil
    have := congrArg length hnil
    rw [length_take, length_nil] at this
    omega
  have hpre : (info.base ++ kept (pieces name)).take k <+: info.base ++ kept (pieces name) :=
    take_prefix _ _
  have hlength : ((info.base ++ kept (pieces name)).take k).length = k := by
    rw [length_take]
    exact min_eq_left hk.le
  by_cases hbase : info.base.length ≤ k
  · -- The cut is below the directory of the package.
    refine .inl ⟨_, hsafe.of_subset (take_subset _ _), htake,
      prefix_of_prefix_length_le (prefix_append _ _) hpre (by omega), rfl, ?_⟩
    obtain ⟨more, hmore⟩ := hpre
    rw [← hmore, render_append, length_append] at hfits
    omega
  · refine .inr ⟨_, htake,
      prefix_of_prefix_length_le hpre (prefix_append _ _) (by omega), ?_, rfl⟩
    intro heq
    rw [heq] at hlength
    omega

/-! ## Entries -/

/-- What the readers leave as it is. -/
def SamePackage (a b : PackageInfo) : Prop :=
  b.id = a.id ∧ b.kind = a.kind ∧ b.systemInstall = a.systemInstall

lemma SamePackage.refl (a : PackageInfo) : SamePackage a a := ⟨rfl, rfl, rfl⟩

theorem SamePackage.trans {c : PackageInfo} (h : SamePackage a b) (h' : SamePackage b c) :
    SamePackage a c :=
  ⟨h'.1.trans h.1, h'.2.1.trans h.2.1, h'.2.2.trans h.2.2⟩

lemma SamePackage.base (h : SamePackage a b) : b.base = a.base := by
  unfold PackageInfo.base
  rw [h.1, h.2.2]

lemma samePackage_chooseEntry (info : PackageInfo) (normalized fullPath : Text pathCap)
    (data : List UInt8) : SamePackage info (chooseEntry info normalized fullPath data) := by
  unfold chooseEntry
  split
  · exact .refl _
  · split
    · exact ⟨rfl, rfl, rfl⟩
    · exact .refl _

lemma samePackage_countFile (info : PackageInfo) (normalized fullPath : Text pathCap) (mode : Nat)
    (data : List UInt8) : SamePackage info (countFile info normalized fullPath mode data) := by
  unfold countFile
  dsimp only
  split
  · exact SamePackage.trans ⟨rfl, rfl, rfl⟩ (samePackage_chooseEntry _ _ _ _)
  · exact ⟨rfl, rfl, rfl⟩

section Entries

variable {host : Host} {w : World} {info : PackageInfo}

/-- The changes that an extraction of a package may make. -/
abbrev Extracts (host : Host) (info : PackageInfo) (ok : Prop) (w w' : World) : Prop :=
  Change host (OnTheWay info.base) (Below info.base) ok w w'

lemma ends_extractEntry (hid : Component info.id.val) (header data : List UInt8) (name : CString) :
    Ends (extractEntry host header data name info) w
      (fun info' t => Extracts host info True w t ∧ SamePackage info info')
      (Extracts host info False w) := by
  unfold extractEntry
  split
  · exact ⟨refl w, .refl _⟩
  rw [ends_bind, ends_ofOption]
  refine ⟨?_, fun _ => refl w⟩
  rintro ⟨normalized, fullPath⟩ hdestination
  obtain ⟨hbelow, hcuts⟩ := destination_below hid hdestination
  dsimp only
  split
  · rw [ends_bind]
    refine (ends_ensureDirectoryTree hcuts fun _ => .inl hbelow).mono ?_ fun _ h => h
    exact fun _ t h => ⟨h.1, .refl _⟩
  rw [ends_ite]
  split
  · exact ⟨refl w, ⟨rfl, rfl, rfl⟩⟩
  rw [ends_ite]
  split
  · exact refl w
  rw [ends_bind, ends_ofOption]
  refine ⟨fun mode _ => ?_, fun _ => refl w⟩
  rw [ends_bind]
  refine (ends_writePackageFile hcuts hbelow).mono ?_ fun _ h => h
  exact fun _ t h => ⟨h.1, samePackage_countFile _ _ _ _ _⟩

lemma ends_extractLoop (hid : Component info.id.val) (fuel : Nat) (tar : List UInt8)
    (pending : Text pathCap) :
    Ends (extractLoop host fuel tar pending info) w
      (fun info' t => Extracts host info True w t ∧ SamePackage info info')
      (Extracts host info False w) := by
  induction fuel generalizing tar pending info w with
  | zero => exact refl w
  | succ fuel ih =>
    unfold extractLoop
    split
    · exact ⟨refl w, .refl _⟩
    · exact refl w
    next header data name rest _ =>
    split
    · exact ih hid rest _
    split
    · rw [ends_bind, ends_ofOption]
      exact ⟨fun pending _ => ih hid rest pending, fun _ => refl w⟩
    rw [ends_bind]
    refine (ends_extractEntry hid header data _).mono ?_ fun _ h => h
    rintro info' t ⟨hchange, hsame⟩
    -- The rest is extracted for the same package.
    have hrest : Ends (extractLoop host fuel rest emptyText info') t
        (fun info'' u => Extracts host info' True t u ∧ SamePackage info' info'')
        fun u => Extracts host info' False t u := ih (by rw [hsame.1]; exact hid) rest emptyText
    unfold Extracts at hrest
    rw [hsame.base] at hrest
    exact hrest.mono (fun info'' u h => ⟨hchange.trans h.1, hsame.trans h.2⟩)
      fun u h => hchange.trans h

theorem ends_extractDataTar (hid : Component info.id.val) (payload : List UInt8) :
    Ends (extractDataTar host payload info) w
      (fun info' t => Extracts host info True w t ∧ SamePackage info info')
      fun t => Extracts host info False w t :=
  ends_extractLoop hid _ _ _

end Entries

/-! ## Streams -/

section Streams

variable {host : Host} {D F : CString → Prop} {ok : Prop} {w t : World} {info info' : PackageInfo}
  {s : Stream}

variable {text : Text pathCap} {E : World → Prop}

/-- Writing to a remembered file changes nothing that the journal does not know. -/
lemma Change.append (h : (text, false) ∈ w.created) (data : List UInt8) (n : Nat) :
    Change host D F ok w { w with files := appendTo w.files text.val data, time := n } := by
  have hother : ∀ path, path ≠ text.val → appendTo w.files text.val data path = w.files path := by
    intro path hne
    unfold appendTo
    cases w.files text.val with
    | none => rfl
    | some node =>
      cases node with
      | directory => rfl
      | regular => exact update_of_ne hne _ _
  -- Neither a directory nor a regular file becomes something else.
  have hkind : ∀ path,
      isDirectory (appendTo w.files text.val data path) = isDirectory (w.files path) ∧
      isRegular (appendTo w.files text.val data path) = isRegular (w.files path) := by
    intro path
    by_cases hpath : path = text.val
    · subst hpath
      cases hregular : isRegular (w.files text.val) with
      | false =>
        rw [appendTo_of_not_regular hregular, hregular]
        exact ⟨rfl, rfl⟩
      | true =>
        obtain ⟨bytes, hbytes⟩ := eq_regular hregular
        rw [appendTo_of_regular hbytes, update_self, hbytes]
        exact ⟨rfl, rfl⟩
    · rw [hother path hpath]
      exact ⟨rfl, rfl⟩
  refine ⟨⟨[], rfl, by simp⟩, fun path hdir => ?_, ⟨[], rfl, by simp⟩, fun _ before hj => ?_⟩
  · exact eq_directory ((hkind path).1.trans (by rw [hdir]; rfl))
  · refine ⟨hj.absent, fun e he => ?_, hj.nodup, fun path hpath => ?_⟩
    · have hnode := hj.node e he
      split
      · next hdir =>
        rw [if_pos hdir] at hnode
        exact (hkind _).1.trans hnode
      · next hdir =>
        rw [if_neg hdir] at hnode
        exact (hkind _).2.trans hnode
    · exact (hother path (hpath _ h).symm).trans (hj.same path hpath)

lemma ends_writeRemembered (h : (text, false) ∈ w.created) (limit fuel : Nat)
    (data : List UInt8) :
    Ends (writeLoop host text.val limit fuel data) w (fun _ t => Change host D F True w t) E := by
  induction fuel generalizing data w with
  | zero => cases data <;> exact refl w
  | succ fuel ih =>
    cases data with
    | nil => exact refl w
    | cons b data =>
    rw [writeLoop, ends_bind]
    refine ends_writeOnce fun n _ => ?_
    have honce : Change host D F True w _ :=
      append h (((b :: data).take limit).take n) (w.time + 1)
    split
    · exact honce
    exact Ends.mono (ih (w := { w with
        files := appendTo w.files text.val (((b :: data).take limit).take n)
        time := w.time + 1 }) h _)
      (fun _ t ht => honce.trans ht) fun _ ht => ht

/-- The file that is being written has been remembered. -/
def Stream.Open (w : World) (s : Stream) : Prop :=
  s.regularFile = true → (s.fullPath, false) ∈ w.created

/-- What the streaming reader keeps from one world to a later one. -/
structure Streams (host : Host) (info : PackageInfo) (w : World) (s : Stream) (t : World) :
    Prop where
  change : Extracts host info True w t
  same : SamePackage info s.info
  opened : s.Open t

theorem Streams.trans {s' : Stream} {u : World} (h : Extracts host info True w t)
    (h' : Streams host info t s' u) : Streams host info w s' u :=
  ⟨h.trans h'.change, h'.same, h'.opened⟩

lemma samePackage_finishFile (s : Stream) : SamePackage s.info (finishFile s) := by
  unfold finishFile
  split
  · exact SamePackage.trans ⟨rfl, rfl, rfl⟩ (samePackage_chooseEntry _ _ _ _)
  · exact ⟨rfl, rfl, rfl⟩

/-- The stream after an entry, with the name for the next one. -/
def Stream.finished (s : Stream) (pendingName : Text pathCap) : Stream :=
  { s with
    info := if s.captureMetadata = false ∧ s.regularFile then finishFile s else s.info
    pendingName := pendingName
    output := false
    captureMetadata := false
    regularFile := false
    executable := false
    metadata := []
    elfProbe := []
    phase := if s.paddingRemaining ≠ 0 then .padding else .header
    header := if s.paddingRemaining ≠ 0 then s.header else [] }

lemma tarExtractFinishEntry_eq (s : Stream) : tarExtractFinishEntry s =
    (if s.captureMetadata then finishMetadata s else some s.pendingName).map s.finished := by
  unfold tarExtractFinishEntry
  dsimp only
  split
  · cases finishMetadata s <;> rfl
  · rfl

lemma ends_finishEntry (h : Streams host info w s t) (hE : E t) :
    Ends (ofOption (tarExtractFinishEntry s)) t (Streams host info w) E := by
  rw [ends_ofOption]
  refine ⟨fun s' hs' => ?_, fun _ => hE⟩
  rw [tarExtractFinishEntry_eq] at hs'
  obtain ⟨pendingName, -, rfl⟩ := Option.map_eq_some_iff.1 hs'
  refine ⟨h.change, ?_, fun hregular => absurd hregular (by simp [Stream.finished])⟩
  unfold Stream.finished
  split
  · exact h.same.trans (samePackage_finishFile s)
  · exact h.same

lemma ends_beginFile (hbelow : Below info.base s.fullPath.val)
    (hcuts : ∀ dir ∈ cuts slash s.fullPath.val, OnTheWay info.base dir)
    (hsame : SamePackage info s.info) (size mode : Nat) :
    Ends (beginFile host size mode s) w (Streams host info w)
      (Extracts host info False w) := by
  unfold beginFile
  split
  · exact refl w
  rw [ends_bind, ends_step_some, ends_ite]
  split
  · exact refl w
  rw [ends_bind, ends_fileExists, ends_ite]
  split
  · exact tick _
  rw [ends_bind, ends_directoryExists, ends_ite]
  split
  · exact tick _
  rw [ends_bind]
  refine (ends_ensureDirectoryTree hcuts (by simp)).mono ?_ fun _ h => (tick _).trans h
  rintro _ t ⟨htree, -, -⟩
  have htree : Extracts host info True w t := (tick _).trans htree
  rw [ends_bind]
  refine ends_call (fun hnone => ?_) fun _ => ?_
  · have hnone : t.files s.fullPath.val = none := Option.isNone_iff_eq_none.1 hnone
    have hback : Ends (do let _ ← unlink host s.fullPath.val; (failure : Command Stream)) { t with
          files := update t.files s.fullPath.val (some (.regular []))
          time := t.time + 1
          calls := ⟨.create, s.fullPath.val, true⟩ :: t.calls }
        (fun _ _ => False) fun t' => Extracts host info False t t' :=
      change_unlink host hbelow hnone rfl rfl rfl rfl
    rw [if_neg (by simp), ends_bind]
    refine ends_rememberCreated (fun text htext => ?_) fun _ => ?_
    · have htext : text = s.fullPath := Subtype.ext htext
      subst htext
      have hpermitted : Permitted (OnTheWay info.base) (Below info.base) t.files
        ⟨.create, s.fullPath.val, true⟩ := hbelow
      refine ⟨htree.trans ⟨⟨[_], rfl, by simpa using hpermitted⟩, stays_update hnone _,
        ⟨[(s.fullPath, false)], rfl, by simpa using hbelow⟩, fun _ before hj => ?_⟩, hsame,
        fun _ => mem_cons_self⟩
      exact hj.add hnone (by simp [isRegular]) rfl rfl
    · exact hback.mono (fun _ _ h => h.elim) fun _ h => htree.trans h
  · exact htree.trans (failed
      (show Permitted (OnTheWay info.base) (Below info.base) t.files
        ⟨.create, s.fullPath.val, false⟩ from hbelow) _)

section

variable (hid : Component info.id.val)
include hid

lemma ends_beginContent (hsame : SamePackage info s.info) (hclosed : s.regularFile = false)
    (headerName : Text pathCap) (size mode : Nat) :
    Ends (beginContent host headerName size mode s) w (Streams host info w)
      (Extracts host info False w) := by
  have hstill : ∀ {s' : Stream} {t : World}, Extracts host info True w t →
      SamePackage info s'.info → s'.regularFile = false → Streams host info w s' t :=
    fun hchange hsame' hclosed' =>
      ⟨hchange, hsame', fun hregular => absurd (hclosed'.symm.trans hregular) (by decide)⟩
  unfold beginContent
  generalize (if s.pendingName.val = [] then headerName else s.pendingName) = name
  dsimp only
  split
  · exact hstill (refl w) hsame hclosed
  rw [ends_bind, ends_ofOption]
  refine ⟨?_, fun _ => refl w⟩
  rintro ⟨normalized, fullPath⟩ hdestination
  obtain ⟨hbelow, hcuts⟩ := destination_below (by rw [hsame.1]; exact hid) hdestination
  rw [hsame.base] at hbelow hcuts
  dsimp only
  split
  · rw [ends_bind]
    refine (ends_ensureDirectoryTree hcuts fun _ => .inl hbelow).mono ?_ fun _ h => h
    exact fun _ t h => hstill h.1 hsame hclosed
  rw [ends_ite]
  split
  · exact ends_beginFile (s := { s with
      pendingName := emptyText, normalized := normalized, fullPath := fullPath })
      hbelow hcuts hsame size mode
  · exact hstill (refl w) hsame hclosed

lemma ends_tarExtractBeginEntry (hs : Streams host info w s w) :
    Ends (tarExtractBeginEntry host s) w (Streams host info w)
      (Extracts host info False w) := by
  have hrefl : Extracts host info False w w := refl w
  unfold tarExtractBeginEntry
  split
  · exact ⟨hs.change, hs.same, hs.opened⟩
  rw [ends_ite]
  split
  · exact hrefl
  rw [ends_bind, ends_ofOption]
  refine ⟨fun headerName _ => ?_, fun _ => hrefl⟩
  rw [ends_bind, ends_ofOption]
  refine ⟨fun mode _ => ?_, fun _ => hrefl⟩
  rw [ends_bind, ends_ofOption]
  refine ⟨fun size _ => ?_, fun _ => hrefl⟩
  -- Both kinds of entries end with the same step.
  have hlast : ∀ s' t, Streams host info w s' t →
      Ends (if s'.dataRemaining = 0 then ofOption (tarExtractFinishEntry { s' with phase := .data })
        else pure { s' with phase := .data }) t (Streams host info w)
        (Extracts host info False w) := by
    intro s' t h
    have h' : Streams host info w { s' with phase := .data } t := ⟨h.change, h.same, h.opened⟩
    split
    · exact ends_finishEntry h' h.change.weaken
    · exact h'
  dsimp only
  rw [ends_ite]
  split
  · split
    · exact hrefl
    · exact hlast _ w ⟨refl w, hs.same, fun h => absurd h (by simp)⟩
  · rw [ends_bind]
    exact Ends.mono (ends_beginContent hid (by exact hs.same) rfl headerName size mode) hlast
      fun _ h => h

theorem ends_feedLoop (fuel : Nat) (input : List UInt8) (hs : Streams host info w s w) :
    Ends (feedLoop host fuel input s) w (Streams host info w)
      (Extracts host info False w) := by
  induction fuel generalizing input s w with
  | zero =>
    cases input with
    | nil => exact hs
    | cons => exact refl w
  | succ fuel ih =>
    cases input with
    | nil => exact hs
    | cons b data =>
    -- Whatever a round has done, the rest of the input follows it.
    have hnext : ∀ rest s' t, Streams host info w s' t →
        Ends (feedLoop host fuel rest s') t (Streams host info w)
          (Extracts host info False w) := by
      intro rest s' t h
      exact (ih rest ⟨refl t, h.same, h.opened⟩).mono
        (fun _ _ h' => Streams.trans h.change h') fun _ h' => h.change.trans h'
    unfold feedLoop
    dsimp only
    split
    · split
      · exact hs
      · exact refl w
    · split
      · rw [ends_bind]
        exact Ends.mono (ends_tarExtractBeginEntry hid ⟨hs.change, hs.same, hs.opened⟩)
          (fun s' t h => hnext _ s' t h) fun _ h => h
      · exact hnext _ _ w ⟨hs.change, hs.same, hs.opened⟩
    · -- The round ends with the step that may finish the entry.
      have hlast : ∀ n s' t, Streams host info w s' t →
          Ends (do
            let s'' ← if s'.dataRemaining - n = 0 then
                ofOption (tarExtractFinishEntry { s' with dataRemaining := s'.dataRemaining - n })
              else pure { s' with dataRemaining := s'.dataRemaining - n }
            feedLoop host fuel ((b :: data).drop n) s'') t
            (Streams host info w) (Extracts host info False w) := by
        intro n s' t h
        have h' : Streams host info w { s' with dataRemaining := s'.dataRemaining - n } t :=
          ⟨h.change, h.same, h.opened⟩
        dsimp only
        split
        · rw [ends_bind]
          exact Ends.mono (ends_finishEntry h' h.change.weaken) (fun s'' u hu => hnext _ s'' u hu)
            fun _ hu => hu
        · exact hnext _ _ t h'
      rw [ends_ite]
      split
      · exact hlast _ _ w ⟨hs.change, hs.same, hs.opened⟩
      rw [ends_ite]
      split
      · next hregular =>
        rw [ends_bind]
        unfold tarExtractWriteFile
        rw [ends_bind]
        have hwrite : ∀ bytes, Ends (writeAll host s.fullPath.val bytes) w
            (fun _ t => Extracts host info True w t) fun t => Extracts host info False w t :=
          fun bytes => ends_writeRemembered (hs.opened hregular) _ _ bytes
        refine Ends.mono (hwrite _) ?_ fun _ h => h
        intro written t ht
        rw [ends_pure]
        dsimp only
        split
        · exact hlast _ _ t ⟨ht, hs.same, fun h => ht.created_subset (hs.opened h)⟩
        · exact ht.weaken
      · exact hlast _ _ w ⟨hs.change, hs.same, hs.opened⟩
    · refine hnext _ _ _ ⟨hs.change, ?_, ?_⟩
      · split <;> exact hs.same
      · split <;> exact hs.opened

lemma ends_feedAll (pieces : List (List UInt8)) (hs : Streams host info w s w) :
    Ends (feedAll host pieces s) w (Streams host info w) (Extracts host info False w) := by
  induction pieces generalizing s w with
  | nil => exact hs
  | cons piece pieces ih =>
    rw [feedAll, ends_bind]
    refine Ends.mono (ends_feedLoop hid _ piece hs) ?_ fun _ h => h
    intro s' t h
    exact (ih ⟨refl t, h.same, h.opened⟩).mono (fun _ _ h' => Streams.trans h.change h')
      fun _ h' => h.change.trans h'

end

lemma OnlyTime.change (h : OnlyTime w t) : Change host D F ok w t := by
  obtain ⟨n, rfl⟩ := h
  exact tick n

lemma Asks.extracts {α β : Type} {x : Command α} (h : Asks x) {y : α → Command β}
    {Q : β → World → Prop}
    (hy : ∀ a t, Extracts host info True w t → Ends (y a) t Q (Extracts host info False w)) :
    Ends (x >>= y) w Q (Extracts host info False w) := by
  rw [ends_bind]
  exact (h w).mono (fun a t ht => hy a t ht.change) fun _ ht => ht.change

lemma asks_readExact (path : CString) : Asks (readExact host path) :=
  (asks_ask host _ _ _).bind fun _ => (asks_pure _).ite asks_failure

lemma asks_mapMemory (size : Nat) : Asks (mapMemory host size) :=
  (asks_ask host _ _ _).bind fun _ => asks_failure.ite (asks_pure _)

lemma asks_loadArchiveMember (sourcePath : CString) (file : List UInt8) (member : ArMember) :
    Asks (loadArchiveMember host sourcePath file member) := by
  refine asks_failure.ite ((asks_mapMemory _).bind fun _ => (asks_readExact _).bind fun _ =>
    (asks_pure _).ite (Asks.ite ?_ (Asks.ite ?_ asks_failure)))
  · exact (asks_ofOption _).bind fun _ => (asks_mapMemory _).bind fun _ =>
      (asks_ofOption _).bind fun _ => asks_pure _
  · exact (asks_ofOption _).bind fun _ => (asks_mapMemory _).bind fun _ =>
      (asks_ofOption _).bind fun _ => asks_pure _

lemma streams_init (hsame : SamePackage info' info) (h : Extracts host info' True w t) :
    Streams host info' w (tarExtractInit info) t :=
  ⟨h, hsame, fun hregular => absurd hregular (by simp [tarExtractInit])⟩

lemma ends_plainLoop (hid : Component info.id.val) (sourcePath : CString)
    (pieces : List (List UInt8)) (hs : Streams host info w s w) :
    Ends (plainLoop host sourcePath pieces s) w (Streams host info w)
      (Extracts host info False w) := by
  induction pieces generalizing s w with
  | nil => exact hs
  | cons piece pieces ih =>
    rw [plainLoop]
    refine (asks_readExact sourcePath).extracts fun _ t hread => ?_
    rw [ends_bind]
    refine Ends.mono (ends_feedLoop hid _ piece (s := s) (w := t) ?_) ?_ fun _ h => hread.trans h
    · exact ⟨refl t, hs.same, fun h => hread.created_subset (hs.opened h)⟩
    · intro s' u h
      exact (ih ⟨refl u, h.same, h.opened⟩).mono
        (fun _ _ h' => Streams.trans (hread.trans h.change) h')
        fun _ h' => hread.trans (h.change.trans h')

lemma ends_extractArchiveMemberStream (hid : Component info.id.val) (sourcePath : CString)
    (file : List UInt8) (member : ArMember) :
    Ends (extractArchiveMemberStream host sourcePath file member info) w
      (fun info' t => Extracts host info True w t ∧ SamePackage info info')
      (Extracts host info False w) := by
  have hsame : ∀ compression, SamePackage info { info with compression := compression } :=
    fun _ => ⟨rfl, rfl, rfl⟩
  unfold extractArchiveMemberStream
  split
  · unfold extractPlainMemberStream
    refine (asks_readExact sourcePath).extracts fun _ t hread => ?_
    rw [ends_bind]
    refine Ends.mono (ends_plainLoop hid sourcePath _ (streams_init (hsame _) (refl t)))
      ?_ fun _ h => hread.trans h
    intro s' u h
    split
    · exact ⟨hread.trans h.change, h.same⟩
    · exact hread.trans h.change.weaken
  split
  · unfold extractXzMemberStream
    refine (asks_readExact sourcePath).extracts fun _ t hread => ?_
    rw [ends_bind]
    refine Ends.mono (ends_feedAll hid _ (streams_init (hsame _) (refl t)))
      ?_ fun _ h => hread.trans h
    intro s' u h
    split
    · exact ⟨hread.trans h.change, h.same⟩
    · exact hread.trans h.change.weaken
  split
  · refine (asks_loadArchiveMember sourcePath file member).extracts fun r t hread => ?_
    obtain ⟨payload, compression⟩ := r
    have hid' : Component { info with compression := compression }.id.val := hid
    refine Ends.mono (ends_extractDataTar hid' payload) ?_ fun _ h => hread.trans h
    exact fun info' u h => ⟨hread.trans h.1, (hsame compression).trans h.2⟩
  · exact refl w

end Streams

end AosKernel.Uni
