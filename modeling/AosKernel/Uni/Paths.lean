import AosKernel.Uni.Text

/-!
# Paths of packages

The path functions of `uni.c` and what they let through: an archive path that
`normalize_archive_path` accepts is the text of a non-empty list of safe components
(`normalizeArchivePath_eq_some`).
-/

namespace AosKernel.Uni

open Lib Lib.Paths CString Option

abbrev pathCap : Nat := 128

def uniRoot : CString := ofString "/main/Applications"

def uniStateRoot : CString := ofString "/var/lib/uni"

def uniManifestRoot : CString := ofString "/var/lib/uni/packages"

def uniDb : CString := ofString "/var/lib/uni/installed.db"

/-! ## Normalisation -/

/-- The first loop of `normalize_archive_path`. -/
def skipDots : CString → CString
  | c :: d :: rest => if c = dot ∧ d = slash then skipDots rest else c :: d :: rest
  | text => text

/-- The characters that no component may have. -/
def isUnsafe (c : CChar) : Bool :=
  c == backslash || c == newline || c == carriageReturn || c == tab

/-- A separator, if there is text before it and room for it, and a component. -/
def appendPiece {n : Nat} (out : Text n) (piece : CString) : Option (Text n) :=
  let sep : Text n := if h : out.val ≠ [] ∧ out.val.length + 1 < n then
      ⟨out.val ++ [slash], by simpa using h.2⟩ else out
  if h : piece.length ≥ n - sep.val.length then none
  else some ⟨sep.val ++ piece, by have := sep.property; rw [List.length_append]; omega⟩

/-- The second loop of `normalize_archive_path`, over the pieces between the slashes. -/
def normalizeLoop {n : Nat} : List CString → Text n → Option (Text n)
  | [], out => if out.val = [] then none else some out
  | piece :: pieces, out =>
      if piece.any isUnsafe then none
      else if piece = [] ∨ piece = [dot] then normalizeLoop pieces out
      else if piece = [dot, dot] then none
      else match appendPiece out piece with
        | none => none
        | some out => normalizeLoop pieces out

def pieces (input : CString) : List CString := splitBy (· == slash) input

def normalizeArchivePath (n : Nat) (input : CString) : Option (Text (n + 1)) :=
  match skipDots input with
  | [] => none
  | c :: rest =>
      if c = slash ∨ c = backslash then none
      else normalizeLoop (pieces (c :: rest)) emptyText

/-- `join_install_path`; an empty archive path stands for no archive path. -/
def joinInstallPath (packageId archivePath : CString) : Option (Text pathCap) := do
  let out ← appendText emptyText (uniRoot ++ [slash])
  let out ← appendText out packageId
  if archivePath = [] then some out
  else
    let out ← appendChar out slash
    appendText out archivePath

def packageDestinationPath (systemInstall : Bool) (packageId archivePath : CString) :
    Option (Text pathCap) := do
  if systemInstall then
    let out ← appendChar emptyText slash
    appendText out archivePath
  else joinInstallPath packageId archivePath

def pathHasPrefixComponent (path prefixPath : CString) : Bool :=
  startsWith path prefixPath &&
    ((path.drop prefixPath.length).head? == none ||
      (path.drop prefixPath.length).head? == some slash)

/-! ## Components -/

/-- A component of a safe path. -/
structure Component (c : CString) : Prop where
  nonempty : c ≠ []
  not_dot : c ≠ [dot]
  not_dotdot : c ≠ [dot, dot]
  no_slash : slash ∉ c
  safe : ∀ x ∈ c, isUnsafe x = false

def Safe (comps : List CString) : Prop := ∀ c ∈ comps, Component c

variable {comps : List CString}

lemma Safe.separated (h : Safe comps) : Separated slash comps :=
  fun c hc => (h c hc).no_slash

lemma Safe.append {a b : List CString} (ha : Safe a) (hb : Safe b) : Safe (a ++ b) := by
  intro c hc
  rcases List.mem_append.1 hc with hc | hc
  · exact ha c hc
  · exact hb c hc

lemma Safe.of_subset {a b : List CString} (hb : Safe b) (h : a ⊆ b) : Safe a :=
  fun c hc => hb c (h hc)

/-- The pieces of an archive path that become components. -/
def kept (pieces : List CString) : List CString :=
  pieces.filter fun c => !(c == [] || c == [dot])

/-- The pieces that do not make an archive path unsafe. -/
def Allowed (piece : CString) : Prop := piece.any isUnsafe = false ∧ piece ≠ [dot, dot]

variable {piece : CString}

lemma kept_cons_of_skipped (h : piece = [] ∨ piece = [dot]) (pieces : List CString) :
    kept (piece :: pieces) = kept pieces := by
  rcases h with rfl | rfl <;> rfl

lemma kept_cons (h : ¬ (piece = [] ∨ piece = [dot])) (pieces : List CString) :
    kept (piece :: pieces) = piece :: kept pieces := by
  unfold kept
  rw [List.filter_cons_of_pos]
  simpa [not_or] using h

lemma safe_kept {pieces : List CString} (hsep : Separated slash pieces)
    (h : ∀ piece ∈ pieces, Allowed piece) : Safe (kept pieces) := by
  intro c hc
  obtain ⟨hmem, hkept⟩ := List.mem_filter.1 hc
  simp only [Bool.not_eq_true', Bool.or_eq_false_iff, beq_eq_false_iff_ne] at hkept
  have hunsafe := List.any_eq_false.1 (h c hmem).1
  exact ⟨hkept.1, hkept.2, (h c hmem).2, hsep c hmem, fun x hx => by simpa using hunsafe x hx⟩

lemma relative_ne_nil (h : Safe comps) (hne : comps ≠ []) : relative slash comps ≠ [] := by
  cases comps with
  | nil => exact absurd rfl hne
  | cons c => simp [relative, (h c (by simp)).nonempty]

lemma appendPiece_eq_some {n : Nat} {done : List CString} {out t : Text n}
    (hout : out.val = relative slash done) (hdone : Safe done) (hne : piece ≠ []) :
    appendPiece out piece = some t ↔ t.val = relative slash (done ++ [piece]) := by
  have hpos : 0 < piece.length := List.length_pos_iff.2 hne
  have ht := t.property
  unfold appendPiece
  rw [relative_concat]
  by_cases hnil : done = []
  · have hempty : out.val = [] := by rw [hout, hnil]; rfl
    simp only [hempty, ne_eq, not_true_eq_false, false_and, dite_false]
    split
    · next h =>
      refine ⟨fun h' => by simp at h', fun h' => ?_⟩
      rw [h'] at ht
      simp at h
      omega
    · rw [some.injEq]
      exact ⟨fun heq => by rw [← heq]; rfl, fun heq => Subtype.ext (by rw [heq]; rfl)⟩
  · have hnonempty : out.val ≠ [] := by rw [hout]; exact relative_ne_nil hdone hnil
    rw [if_neg hnil, ← hout]
    by_cases hroom : out.val.length + 1 < n
    · simp only [hnonempty, hroom, ne_eq, not_false_eq_true, true_and, dite_true]
      split
      · next h =>
        refine ⟨fun h' => by simp at h', fun h' => ?_⟩
        rw [h'] at ht
        simp only [List.length_append, List.length_cons, List.length_nil, ge_iff_le] at h ht
        omega
      · rw [some.injEq]
        exact ⟨fun heq => by rw [← heq]; simp, fun heq => Subtype.ext (by rw [heq]; simp)⟩
    · -- Without room for the separator there is none for the component either.
      simp only [hroom, and_false, dite_false]
      rw [dif_pos (by omega)]
      refine ⟨fun h' => by simp at h', fun h' => ?_⟩
      rw [h'] at ht
      simp only [List.length_append, List.length_cons] at ht
      omega

/-- What the second loop gives, when `out` holds the components `done`: all the pieces must be
allowed, and the text of all the components must fit. -/
lemma normalizeLoop_eq_some {n : Nat} {pieces done : List CString} {out result : Text n}
    (hout : out.val = relative slash done) (hdone : Safe done) (hsep : Separated slash pieces) :
    normalizeLoop pieces out = some result ↔
      (∀ piece ∈ pieces, Allowed piece) ∧ done ++ kept pieces ≠ [] ∧
        result.val = relative slash (done ++ kept pieces) := by
  induction pieces generalizing done out with
  | nil =>
    have hnil : out.val = [] ↔ done = [] := by
      rw [hout]
      exact ⟨fun h => by_contra fun hne => relative_ne_nil hdone hne h, fun h => by rw [h]; rfl⟩
    simp only [normalizeLoop, hnil, kept, List.filter_nil, List.append_nil, List.not_mem_nil,
      false_imp_iff, implies_true, true_and]
    split
    · next h => simp [h]
    · next h =>
      rw [some.injEq, ← hout]
      exact ⟨fun heq => ⟨h, by rw [heq]⟩, fun ⟨_, heq⟩ => Subtype.ext heq.symm⟩
  | cons piece pieces ih =>
    rw [List.forall_mem_cons]
    unfold normalizeLoop
    split
    · next hunsafe => simp [Allowed, hunsafe]
    next hsafe =>
    have hsafe : piece.any isUnsafe = false := by simpa using hsafe
    split
    · next hskip =>
      have hallowed : Allowed piece := ⟨hsafe, by rcases hskip with rfl | rfl <;> decide⟩
      rw [ih hout hdone hsep.tail, kept_cons_of_skipped hskip]
      simp [hallowed]
    next hkeep =>
    split
    · next hdots => simp [Allowed, hdots]
    next hdots =>
    rw [not_or] at hkeep
    have hallowed : Allowed piece := ⟨hsafe, hdots⟩
    have hpiece : Component piece := ⟨hkeep.1, hkeep.2, hdots, hsep piece (by simp),
      fun x hx => by simpa using List.any_eq_false.1 hsafe x hx⟩
    have hdone' : Safe (done ++ [piece]) := hdone.append (by simpa [Safe] using hpiece)
    rw [kept_cons (not_or.2 hkeep), List.append_cons]
    split
    · next hnone =>
      -- A text that is too long with this component is too long with all of them.
      refine ⟨fun h => by simp at h, fun ⟨_, _, hresult⟩ => ?_⟩
      have hlength : (relative slash (done ++ [piece])).length ≤ result.val.length := by
        rw [hresult]
        exact relative_length_le _ _
      have hfits : appendPiece out piece = some ⟨relative slash (done ++ [piece]),
          hlength.trans_lt result.property⟩ :=
        (appendPiece_eq_some hout hdone hkeep.1).2 rfl
      rw [hnone] at hfits
      simp at hfits
    · next t ht =>
      rw [ih ((appendPiece_eq_some hout hdone hkeep.1).1 ht) hdone' hsep.tail]
      simp [hallowed]

lemma pieces_separated (input : CString) : Separated slash (pieces input) := by
  intro piece hpiece hmem
  have hnot := not_sep_of_mem_splitBy hpiece slash hmem
  simp at hnot

/-- Skipping `./` takes away pieces that the second loop would skip. -/
lemma pieces_skipDots (input : CString) :
    kept (pieces (skipDots input)) = kept (pieces input) ∧
      ((∀ piece ∈ pieces (skipDots input), Allowed piece) ↔
        ∀ piece ∈ pieces input, Allowed piece) := by
  induction input using List.twoStepInduction with
  | nil | singleton => exact ⟨rfl, Iff.rfl⟩
  | cons_cons c d rest ih =>
    by_cases h : c = dot ∧ d = slash
    · obtain ⟨rfl, rfl⟩ := h
      have hsplit : pieces (dot :: slash :: rest) = [dot] :: pieces rest :=
        splitBy_append (by decide +kernel : ∀ x ∈ [dot], (x == slash) = false)
          (by decide +kernel) rest
      have hdot : Allowed [dot] := ⟨by decide +kernel, by decide +kernel⟩
      rw [hsplit, kept_cons_of_skipped (.inr rfl), List.forall_mem_cons]
      exact ⟨ih.1, ih.2.trans ⟨fun h => ⟨hdot, h⟩, fun h => h.2⟩⟩
    · rw [skipDots, if_neg h]
      exact ⟨rfl, Iff.rfl⟩

/-- **Normalisation.** An archive path is accepted exactly if it is not absolute, has no unsafe
piece, leaves at least one component and fits; the result is the text of the components. -/
theorem normalizeArchivePath_eq_some {n : Nat} {input : CString} {result : Text (n + 1)} :
    normalizeArchivePath n input = some result ↔
      (skipDots input).head? ≠ some slash ∧ (∀ piece ∈ pieces input, Allowed piece) ∧
        kept (pieces input) ≠ [] ∧ result.val = relative slash (kept (pieces input)) := by
  obtain ⟨hkept, hallowed⟩ := pieces_skipDots input
  rw [← hkept, ← hallowed]
  unfold normalizeArchivePath
  generalize skipDots input = rest
  cases rest with
  | nil => simp [pieces, splitBy, kept]
  | cons c rest =>
  simp only [List.head?_cons, ne_eq, some.injEq]
  split
  · next h =>
    refine ⟨fun h' => by simp at h', ?_⟩
    rintro ⟨hslash, hall, -⟩
    -- A backslash in front is a character of the first piece.
    obtain rfl := h.resolve_left hslash
    obtain ⟨first, others, hsplit⟩ := List.exists_cons_of_ne_nil
      (splitBy_ne_nil (p := (· == slash)) (backslash :: rest))
    have hfirst : first.head? = some backslash := by
      rw [splitBy, if_neg (by decide)] at hsplit
      split at hsplit
      all_goals
        simp only [List.cons.injEq] at hsplit
        rw [← hsplit.1]
        rfl
    have hunsafe := (hall first (by rw [pieces, hsplit]; simp)).1
    cases first with
    | nil => simp at hfirst
    | cons x first =>
      simp only [List.head?_cons, some.injEq] at hfirst
      rw [hfirst, List.any_cons] at hunsafe
      exact absurd hunsafe (by simp [isUnsafe])
  · next h =>
    have hempty : (emptyText : Text (n + 1)).val = relative slash [] := rfl
    rw [normalizeLoop_eq_some hempty (by simp [Safe]) (pieces_separated _), List.nil_append]
    exact ⟨fun h' => ⟨fun hc => h (Or.inl hc), h'⟩, fun h' => h'.2⟩

/-! ## Places in the file system -/

def rootComps : List CString := [ofString "main", ofString "Applications"]

def stateComps : List CString :=
  [ofString "var", ofString "lib", ofString "uni"]

lemma uniRoot_eq : uniRoot = render slash rootComps := by decide

/-- The directory below which the files of a package go. -/
def baseComps (systemInstall : Bool) (packageId : CString) : List CString :=
  if systemInstall then [] else rootComps ++ [packageId]

lemma joinInstallPath_eq_some {packageId archivePath : CString} {t : Text pathCap} :
    joinInstallPath packageId archivePath = some t ↔
      t.val = render slash (rootComps ++ [packageId]) ++
        (if archivePath = [] then [] else slash :: archivePath) := by
  have hfits : t.val.length < 128 := t.property
  have hbase : render slash (rootComps ++ [packageId]) = uniRoot ++ [slash] ++ packageId := by
    rw [uniRoot_eq]
    simp
  unfold joinInstallPath
  simp only [bind_eq_bind, bind_eq_some_iff, appendText_eq_some_iff]
  rw [hbase]
  constructor
  · rintro ⟨a, ha, b, hb, h⟩
    rw [ha] at hb
    split at h
    · next hnil =>
      rw [some.injEq] at h
      rw [← h, hb, if_pos hnil]
      simp [emptyText]
    · next hnil =>
      simp only [bind_eq_some_iff, appendChar_eq_some_iff, appendText_eq_some_iff] at h
      obtain ⟨c, hc, h⟩ := h
      rw [h, hc, hb, if_neg hnil]
      simp [emptyText]
  · intro h
    have hlength := congrArg List.length h
    simp only [List.length_append, List.length_cons, List.length_nil] at hlength
    refine ⟨⟨uniRoot ++ [slash], by decide⟩, rfl,
      ⟨uniRoot ++ [slash] ++ packageId, by simp; omega⟩, rfl, ?_⟩
    split
    · next hnil =>
      rw [if_pos hnil, List.append_nil] at h
      exact congrArg some (Subtype.ext h.symm)
    next hnil =>
    rw [if_neg hnil] at h hlength
    simp only [List.length_cons] at hlength
    refine bind_eq_some_iff.2 ⟨⟨uniRoot ++ [slash] ++ packageId ++ [slash], by
      simp; omega⟩, appendChar_eq_some_iff.2 rfl, appendText_eq_some_iff.2 ?_⟩
    rw [h]
    simp

/-- `package_destination_path` puts a normalised archive path below the directory of the package. -/
theorem packageDestinationPath_eq_some {systemInstall : Bool} {packageId : CString}
    (hsafe : Safe comps) (hne : comps ≠ []) {t : Text pathCap} :
    packageDestinationPath systemInstall packageId (relative slash comps) = some t ↔
      t.val = render slash (baseComps systemInstall packageId ++ comps) := by
  have hrelative := relative_ne_nil hsafe hne
  unfold packageDestinationPath baseComps
  cases systemInstall with
  | false =>
    simp only [Bool.false_eq_true, if_false]
    rw [joinInstallPath_eq_some, if_neg hrelative, cons_relative hne, ← render_append]
  | true =>
  simp only [if_true, List.nil_append, bind_eq_bind, bind_eq_some_iff,
    appendChar_eq_some_iff, appendText_eq_some_iff]
  rw [← cons_relative hne]
  constructor
  · rintro ⟨a, ha, h⟩
    rw [h, ha]
    rfl
  · intro h
    exact ⟨⟨[slash], by decide⟩, rfl, h⟩

/-- The component-wise prefix test, on paths with safe components. -/
lemma pathHasPrefixComponent_render {p q : List CString} (hp : Separated slash p)
    (hq : Separated slash q) :
    pathHasPrefixComponent (render slash p) (render slash q) = true ↔ q <+: p := by
  rw [← render_below_iff hp hq]
  unfold pathHasPrefixComponent startsWith
  simp only [Bool.and_eq_true, List.isPrefixOf_iff_prefix, Bool.or_eq_true, beq_iff_eq]
  constructor
  · rintro ⟨⟨rest, hrest⟩, hnext⟩
    rw [← hrest, List.drop_left] at hnext
    refine ⟨rest, hrest.symm, ?_⟩
    rcases hnext with hnext | hnext
    · exact .inl (List.head?_eq_none_iff.1 hnext)
    · exact .inr hnext
  · rintro ⟨rest, hrest, hnext⟩
    rw [hrest, List.drop_left]
    refine ⟨List.prefix_append _ _, ?_⟩
    rcases hnext with rfl | hnext
    · exact .inl rfl
    · exact .inr hnext

lemma isValidIdChar_safe {c : CChar} (h : isValidIdChar c = true) :
    c ≠ slash ∧ isUnsafe c = false := by
  constructor
  · rintro rfl
    exact absurd h (by decide)
  · by_contra hunsafe
    simp only [isUnsafe, Bool.not_eq_false, Bool.or_eq_true, beq_iff_eq] at hunsafe
    rcases hunsafe with ((rfl | rfl) | rfl) | rfl <;> exact absurd h (by decide)

lemma component_idFromText (text : CString) : Component (idFromText text).val := by
  have hchars := isValidIdChar_of_mem_idFromText text
  have hlast := idFromText_getLast text
  exact ⟨idFromText_ne_nil text, fun h => hlast (by rw [h]; rfl), fun h => hlast (by rw [h]; rfl),
    fun h => (isValidIdChar_safe (hchars slash h)).1 rfl,
    fun x hx => (isValidIdChar_safe (hchars x hx)).2⟩

end AosKernel.Uni
