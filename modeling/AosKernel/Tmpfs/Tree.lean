import AosKernel.Tmpfs.Refinement

/-!
# tmpfs: the entries form a tree

The table holds whole paths, so the tree is only in how they extend each other. `Rooted` says that
there is one: every path is a name in the root or in a directory that is there. `names_form_tree`
is about every run of the calls that create and remove names. It asks nothing of their paths: one
with an empty component is refused, since no entry has a path that ends in a slash.
-/

namespace AosKernel.Tmpfs

open Lib Vfs Function List

/-! ## Directories by index -/

def directChildName (directory path : CString) : Option CString :=
  match List.isPrefixOf? directory path with
  | some (c :: child) =>
      if c ≠ slash ∨ child = [] ∨ containsSlash child then none else some child
  | _ => none

/-- What `tmpfs_dirent_at_index` reports: the name, `*size` and `*d_type`. -/
structure Dirent where
  name : CString
  size : Nat
  dType : UInt8

namespace TmpfsState

def isDirectory (s : TmpfsState) (path : CString) : Bool :=
  if path = tmp then true
  else
    match s.findEntry path with
    | some i => (s.entries i).type == .directory
    | none => false

def childAt (s : TmpfsState) (directory : CString) (i : Nat) : Option CString :=
  if (s.entries i).inUse then directChildName directory (s.entries i).path else none

/-- The loop of `tmpfs_dirent_at_index` over the slots that are left. -/
def direntFrom (s : TmpfsState) (directory : CString) (index nameBufSize : Nat) :
    List Nat → Nat → Option Dirent
  | [], _ => none
  | i :: slots, current =>
      match s.childAt directory i with
      | none => s.direntFrom directory index nameBufSize slots current
      | some name =>
          if current ≠ index then s.direntFrom directory index nameBufSize slots (current + 1)
          else if name.length ≥ nameBufSize then none
          else some ⟨name, (s.entries i).size, if (s.entries i).type = .directory then 4 else 8⟩

/-- `tmpfs_dirent_at_index` with a buffer of `nameBufSize` bytes. -/
def tmpfsDirentAtIndex (s : TmpfsState) (path : CString) (index : UInt64) (nameBufSize : Nat) :
    Option Dirent :=
  match normalizeTmpfsPath path pathMax with
  | none => none
  | some normalized =>
      if nameBufSize = 0 ∨ s.isDirectory normalized = false then none
      else if index = 0 then some ⟨CString.truncate nameBufSize (.ascii ['.']), 0, 4⟩
      else if index = 1 then some ⟨CString.truncate nameBufSize (.ascii ['.', '.']), 0, 4⟩
      else s.direntFrom normalized (index.toNat - 2) nameBufSize (List.range maxEntries) 0

end TmpfsState

/-! ## Names in directories -/

def Names (directory name p : CString) : Prop :=
  p = directory ++ slash :: name ∧ name ≠ [] ∧ slash ∉ name

/-- `p` is a name in the root or in a directory that is there. -/
def Placed (m : Files) (p : CString) : Prop :=
  ∃ directory name, Names directory name p ∧ (directory = tmp ∨ m directory = some .directory)

def Rooted (m : Files) : Prop := ∀ p, m p ≠ none → Placed m p

variable {m : Files} {p : CString}

lemma Rooted.add (h : Rooted m) (hnone : m p = none) (hp : Placed m p) (node : Node) :
    Rooted (update m p (some node)) := by
  -- the directories that are there stay
  have hmono : ∀ q, Placed m q → Placed (update m p (some node)) q := by
    rintro q ⟨directory, name, hname, hd⟩
    refine ⟨directory, name, hname, hd.imp_right fun hd => ?_⟩
    rw [update_of_ne]
    · exact hd
    · rintro rfl
      simp [hnone] at hd
  intro q hq
  by_cases hqp : q = p
  · rw [hqp]
    exact hmono p hp
  · rw [update_of_ne hqp] at hq
    exact hmono q (h q hq)

lemma Rooted.remove (h : Rooted m)
    (hleaf : m p = some .directory → ∀ rest, m (p ++ slash :: rest) = none) :
    Rooted (update m p none) := by
  intro q hq
  have hqp : q ≠ p := by
    rintro rfl
    simp at hq
  rw [update_of_ne hqp] at hq
  obtain ⟨directory, name, hname, hd⟩ := h q hq
  refine ⟨directory, name, hname, hd.imp_right fun hd => ?_⟩
  rw [update_of_ne]
  · exact hd
  · rintro rfl
    exact hq (hname.1 ▸ hleaf hd name)

/-! ## Paths -/

lemma isDescendant_append (d rest : CString) : isDescendant d (d ++ slash :: rest) = true := by
  simp [isDescendant, isPrefixOf?_eq_some_iff_append_eq.2 rfl]

lemma directChildName_eq_some {d q name : CString} :
    directChildName d q = some name ↔ Names d name q := by
  unfold directChildName Names
  constructor
  · intro h
    split at h
    · next c child hrest =>
      split at h
      · simp at h
      next hc =>
      obtain rfl := Option.some.inj h
      simp only [containsSlash, any_eq_true, beq_iff_eq, exists_eq_right, not_or, not_not] at hc
      exact ⟨hc.1 ▸ (isPrefixOf?_eq_some_iff_append_eq.1 hrest).symm, hc.2⟩
    · simp at h
  · rintro ⟨rfl, hname⟩
    simp only [isPrefixOf?_eq_some_iff_append_eq.2 rfl, containsSlash, any_eq_true, beq_iff_eq,
      exists_eq_right]
    simpa using hname

lemma slashScan_spec (q : CString) :
    ∀ n, slashScan q n ≠ 0 →
      ∃ name, slash ∉ name ∧ q.take n = q.take (slashScan q n - 1) ++ slash :: name := by
  intro n
  induction n with
  | zero => exact fun h => absurd rfl h
  | succ n ih =>
    intro h
    rw [take_add_one]
    unfold slashScan at h ⊢
    split at h
    · next hslash =>
      rw [if_pos hslash, hslash]
      exact ⟨[], by simp, rfl⟩
    next hslash =>
    rw [if_neg hslash]
    obtain ⟨name, hname, htake⟩ := ih h
    refine ⟨name ++ q[n]?.toList, ?_, by rw [htake]; simp⟩
    simpa [hname, eq_comm] using hslash

lemma trimSlashes_spec (q : CString) :
    ∀ n, trimSlashes q n ≤ n ∧ (3 < trimSlashes q n → q[trimSlashes q n - 1]? ≠ some slash) := by
  intro n
  induction n with
  | zero => exact ⟨le_rfl, fun h => absurd h (by simp [trimSlashes])⟩
  | succ n ih =>
    unfold trimSlashes
    split
    · exact ⟨ih.1.trans n.le_succ, ih.2⟩
    · next hc => exact ⟨le_rfl, fun h hslash => hc ⟨h, hslash⟩⟩

lemma normalize_last {path : CString} {n : Nat} (h : normalizeTmpfsPath path n = some p)
    (hlen : 3 < p.length) : p.getLast? ≠ some slash := by
  unfold normalizeTmpfsPath at h
  dsimp only at h
  split at h
  · simp at h
  obtain rfl := Option.some.inj h
  obtain ⟨hle, hlast⟩ := trimSlashes_spec (skipSlashes path) (skipSlashes path).length
  rw [length_take, min_eq_left hle] at hlen
  rw [getLast?_eq_getElem?, length_take, min_eq_left hle, getElem?_take_of_lt (by omega)]
  exact hlast hlen

namespace TmpfsState

variable {s : TmpfsState} {path : CString}

lemma files_ne_none_iff :
    s.files p ≠ none ↔ ∃ i < maxEntries, (s.entries i).inUse = true ∧ (s.entries i).path = p := by
  simp [files, findEntry_none_iff]

lemma Sound.isDirectory_iff (hs : s.Sound) :
    s.isDirectory p = true ↔ p = tmp ∨ s.files p = some .directory := by
  unfold isDirectory
  by_cases htmp : p = tmp
  · simp [htmp]
  cases hfind : s.findEntry p with
  | none => simp [htmp, files_of_none hfind]
  | some i =>
    rw [files_of_findEntry hfind]
    rcases hs.kind i with hk | hk <;> simp [htmp, Entry.node, hk]

lemma Sound.placed (hs : s.Sound) (hp : normalizeTmpfsPath path pathMax = some p)
    (h : s.parentDirectoryExists p = true) : Placed s.files p := by
  unfold parentDirectoryExists at h
  split at h
  · simp at h
  next parent hparent =>
  have hdirectory := hs.isDirectory_iff.1 h
  unfold parentPathOf at hparent
  dsimp only at hparent
  split at hparent
  · simp at hparent
  split at hparent
  · simp at hparent
  obtain ⟨name, hname, htake⟩ := slashScan_spec p p.length (by omega)
  rw [take_length, Option.some.inj hparent] at htake
  refine ⟨parent, name, ⟨htake, ?_, hname⟩, hdirectory⟩
  rintro rfl
  refine normalize_last hp (by omega) ?_
  rw [htake]
  simp

lemma rmdir_leaf (hp : normalizeTmpfsPath path pathMax = some p)
    (h : (s.tmpfsRmdirPath path).1 = true) (rest : CString) :
    s.files (p ++ slash :: rest) = none := by
  by_contra hne
  obtain ⟨i, hi, huse, hpath⟩ := files_ne_none_iff.1 hne
  have hany : ((range maxEntries).any fun j =>
      (s.entries j).inUse && isDescendant p (s.entries j).path) = true :=
    any_eq_true.2 ⟨i, mem_range.2 hi, by
      rw [huse, hpath, isDescendant_append]
      rfl⟩
  simp only [tmpfsRmdirPath, hp, hany, if_true] at h
  split at h
  · simp at h
  · split at h <;> simp at h

end TmpfsState

/-! ## Runs -/

/-- The calls that create and remove names. -/
def Call.OnNames : Call → Prop
  | .create .. | .mkdir .. | .unlink _ | .rmdir _ => True
  | _ => False

open TmpfsState

lemma rooted_step {s : TmpfsState} (hs : s.Sound) (h : Rooted s.files) {c : Call}
    (hc : c.OnNames) : Rooted (step s c).2.files ∧ (step s c).1 ≠ .overrun := by
  have hmeets : c.Meets s := by
    cases c <;> first | exact hc.elim | trivial
  have hspec := (step_spec hs c).2.2 hmeets
  by_cases hover : (step s c).1 = .overrun
  · rw [hover] at hspec
    exact absurd hspec (by cases c <;> exact id)
  refine ⟨?_, hover⟩
  by_cases herror : (step s c).1 = .error
  · rw [herror] at hspec
    have hsame : (step s c).2.files = s.files := by
      cases c <;> exact hspec
    rwa [hsame]
  cases c with
  | create path mode uid gid =>
    dsimp only [step] at hspec herror ⊢
    cases hr : (s.tmpfsCreatePathMode path mode uid gid).1 with
    | none => exact absurd (by rw [hr]; rfl) herror
    | some =>
    rw [hr] at hspec
    obtain ⟨p, hp, ⟨hnone, hfiles⟩ | ⟨-, hfiles⟩⟩ := hspec
    · rw [hfiles]
      refine h.add hnone (hs.placed hp ?_) _
      by_contra hno
      simp [tmpfsCreatePathMode, hp, Bool.eq_false_of_not_eq_true hno] at hr
    · rwa [hfiles]
  | mkdir path mode uid gid =>
    dsimp only [step] at hspec herror ⊢
    cases hr : (s.tmpfsMkdirPathMode path mode uid gid).1 with
    | false => exact absurd (by rw [hr]; rfl) herror
    | true =>
    rw [hr] at hspec
    obtain ⟨p, hp, hnone, hfiles⟩ := hspec
    rw [hfiles]
    refine h.add hnone (hs.placed hp ?_) _
    by_contra hno
    simp [tmpfsMkdirPathMode, hp, Bool.eq_false_of_not_eq_true hno] at hr
  | unlink path =>
    dsimp only [step] at hspec herror ⊢
    cases hr : (s.tmpfsUnlinkPath path).1 with
    | false => exact absurd (by rw [hr]; rfl) herror
    | true =>
    rw [hr] at hspec
    obtain ⟨p, content, -, hfile, hfiles⟩ := hspec
    rw [hfiles]
    exact h.remove fun hdirectory => by simp [hfile] at hdirectory
  | rmdir path =>
    dsimp only [step] at hspec herror ⊢
    cases hr : (s.tmpfsRmdirPath path).1 with
    | false => exact absurd (by rw [hr]; rfl) herror
    | true =>
    rw [hr] at hspec
    obtain ⟨p, hp, -, hfiles⟩ := hspec
    rw [hfiles]
    exact h.remove fun _ => rmdir_leaf hp hr
  | _ => exact hc.elim

lemma rooted_runFrom :
    ∀ (calls : List Call) {s : TmpfsState}, s.Sound → Rooted s.files →
      (∀ c ∈ calls, c.OnNames) →
      ∃ s', runFrom s calls = some s' ∧ s'.Sound ∧ Rooted s'.files := by
  intro calls
  induction calls with
  | nil => exact fun hs h _ => ⟨_, rfl, hs, h⟩
  | cons c calls ih =>
    intro s hs h hnames
    obtain ⟨hrooted, hover⟩ := rooted_step hs h (hnames c mem_cons_self)
    rw [runFrom, if_neg hover]
    exact ih (step_spec hs c).1 hrooted fun c' hc' => hnames c' (mem_cons_of_mem _ hc')

/-! ## The names in a directory -/

namespace TmpfsState

variable {s : TmpfsState}

/-- The children of a directory, in the order of their slots. -/
def children (s : TmpfsState) (directory : CString) : List CString :=
  (List.range maxEntries).filterMap (s.childAt directory)

lemma childAt_eq_some {d name : CString} {i : Nat} :
    s.childAt d i = some name ↔ (s.entries i).inUse = true ∧ Names d name (s.entries i).path := by
  unfold childAt
  split <;> simp_all [directChildName_eq_some]

lemma mem_children_iff {d name : CString} :
    name ∈ s.children d ↔ s.files (d ++ slash :: name) ≠ none ∧ name ≠ [] ∧ slash ∉ name := by
  simp only [children, mem_filterMap, mem_range, childAt_eq_some, files_ne_none_iff, Names]
  constructor
  · rintro ⟨i, hi, huse, hpath, hname⟩
    exact ⟨⟨i, hi, huse, hpath⟩, hname⟩
  · rintro ⟨⟨i, hi, huse, hpath⟩, hname⟩
    exact ⟨i, hi, huse, hpath, hname⟩

lemma Sound.nodup_children (hs : s.Sound) (d : CString) : (s.children d).Nodup := by
  refine pairwise_filterMap.2 (List.Pairwise.imp_of_mem ?_ nodup_range)
  rintro i j hi hj hne name hname _ hname' rfl
  rw [childAt_eq_some] at hname hname'
  exact hne (hs.unique i (mem_range.1 hi) j (mem_range.1 hj) hname.1 hname'.1
    (hname.2.1.trans hname'.2.1.symm))

lemma direntFrom_name (d : CString) (index size : Nat) :
    ∀ (slots : List Nat) (current : Nat), current ≤ index →
      (s.direntFrom d index size slots current).map Dirent.name =
        (slots.filterMap (s.childAt d))[index - current]?.filter
          fun name => name.length < size := by
  intro slots
  induction slots with
  | nil => simp [direntFrom]
  | cons i slots ih =>
    intro current hle
    unfold direntFrom
    cases hchild : s.childAt d i with
    | none => simpa [hchild] using ih current hle
    | some name =>
    rw [filterMap_cons_some hchild]
    dsimp only
    by_cases hindex : current = index
    · subst hindex
      by_cases hsize : name.length < size
      · simp [hsize, Nat.not_le.2 hsize, Option.filter]
      · simp [hsize, Nat.le_of_not_lt hsize, Option.filter]
    · obtain ⟨k, rfl⟩ : ∃ k, index = current + 1 + k := ⟨index - current - 1, by omega⟩
      rw [if_pos hindex, ih _ (by omega)]
      simp [show current + 1 + k - current = k + 1 by omega]

end TmpfsState

/-- After every run of calls that create and remove names: no path is there twice; every path is a
name in the root or in a directory that is there; `rmdir` only removes directories with nothing
below them, and `unlink` no directory; and the indices from 2 on list each direct child of a
directory once, as far as its name fits the buffer. -/
theorem names_form_tree (calls : List Call) (hnames : ∀ c ∈ calls, c.OnNames) :
    ∃ s, runCalls calls = some s ∧
      (∀ i < maxEntries, ∀ j < maxEntries, (s.entries i).inUse = true →
        (s.entries j).inUse = true → (s.entries i).path = (s.entries j).path → i = j) ∧
      (∀ i < maxEntries, (s.entries i).inUse = true → Placed s.files (s.entries i).path) ∧
      (∀ path, (s.tmpfsRmdirPath path).1 = true →
        ∃ p, normalizeTmpfsPath path pathMax = some p ∧ s.files p = some .directory ∧
          ∀ rest, s.files (p ++ slash :: rest) = none) ∧
      (∀ path p, s.files p = some .directory →
        (s.tmpfsUnlinkPath path).2.files p = some .directory) ∧
      ∀ path p, normalizeTmpfsPath path pathMax = some p →
        (p = tmp ∨ s.files p = some .directory) →
        ∃ names : List CString, names.Nodup ∧
          (∀ name, name ∈ names ↔ s.files (p ++ slash :: name) ≠ none ∧ name ≠ [] ∧ slash ∉ name) ∧
          ∀ (index : UInt64) (size : Nat), 2 ≤ index →
            (s.tmpfsDirentAtIndex path index size).map Dirent.name =
              names[index.toNat - 2]?.filter fun name => name.length < size := by
  have hinit : Rooted tmpfsInit.files := by
    intro p hp
    obtain ⟨i, -, huse, -⟩ := files_ne_none_iff.1 hp
    simp [tmpfsInit, Entry.zero] at huse
  obtain ⟨s, hrun, hs, hrooted⟩ := rooted_runFrom calls sound_init hinit hnames
  refine ⟨s, hrun, hs.unique, ?_, ?_, ?_, ?_⟩
  · exact fun i hi huse => hrooted _ (files_ne_none_iff.2 ⟨i, hi, huse, rfl⟩)
  · intro path hok
    have hspec := (hs.rmdir path).2
    dsimp only [step] at hspec
    rw [hok] at hspec
    obtain ⟨p, hp, hdirectory, -⟩ := hspec
    exact ⟨p, hp, hdirectory, rmdir_leaf hp hok⟩
  · intro path p hdirectory
    have hspec := (hs.unlink path).2
    dsimp only [step] at hspec
    cases hr : (s.tmpfsUnlinkPath path).1 with
    | false =>
      rw [hr] at hspec
      rwa [show _ = s.files from hspec]
    | true =>
    rw [hr] at hspec
    obtain ⟨q, content, -, hfile, hfiles⟩ := hspec
    rw [hfiles, update_of_ne]
    · exact hdirectory
    · rintro rfl
      simp [hfile] at hdirectory
  · intro path p hp hdirectory
    refine ⟨s.children p, hs.nodup_children p, fun name => mem_children_iff, ?_⟩
    intro index size hindex
    have h2 : 2 ≤ index.toNat := UInt64.le_iff_toNat_le.1 hindex
    have h0 : index ≠ 0 := by
      rintro rfl
      simp at h2
    have h1 : index ≠ 1 := by
      rintro rfl
      simp at h2
    simp only [tmpfsDirentAtIndex, hp, hs.isDirectory_iff.2 hdirectory, if_neg h0, if_neg h1]
    by_cases hsize : size = 0
    · simp [hsize]
    · simpa [hsize, children] using direntFrom_name p _ size _ 0 (Nat.zero_le _)

/-- Make a directory with a directory and a file in it, remove both and make a file under the name
of the first. -/
def nestedRun : List Call :=
  let inner (c : Char) := demoPath ++ CString.ascii ['/', c]
  [.mkdir demoPath 0o700 0 0, .mkdir (inner 'b') 0o700 0 0, .create (inner 'c') 0o600 0 0,
    .rmdir (inner 'b'), .unlink (inner 'c'), .create (inner 'b') 0o600 0 0]

theorem names_form_tree_nested :
    (∀ c ∈ nestedRun, c.OnNames) ∧ ∃ s, runCalls nestedRun = some s ∧
      s.files (demoPath ++ CString.ascii ['/', 'b']) = some (.regular []) ∧
      s.files (demoPath ++ CString.ascii ['/', 'c']) = none ∧
      ∀ i < maxEntries, (s.entries i).inUse = true → Placed s.files (s.entries i).path := by
  have hnames : ∀ c ∈ nestedRun, c.OnNames := by simp [nestedRun, Call.OnNames]
  have hfiles : (runCalls nestedRun).map (fun s =>
      (s.files (demoPath ++ CString.ascii ['/', 'b']),
        s.files (demoPath ++ CString.ascii ['/', 'c']))) = some (some (.regular []), none) := by
    decide +kernel
  obtain ⟨s, hrun, -, hplaced, -⟩ := names_form_tree _ hnames
  rw [hrun, Option.map_some, Option.some.injEq, Prod.mk.injEq] at hfiles
  exact ⟨hnames, s, hrun, hfiles.1, hfiles.2, hplaced⟩

end AosKernel.Tmpfs
