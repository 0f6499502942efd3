import AosKernel.Uni.Confinement

/-!
# Names of extracted files

`tarEntries` lists the entries of a tar archive up to its end or the first header that is damaged,
and `itemsOf` gives every entry that is not a record its effective name: the path that the record
immediately before it gives, however long it is, and the prefix and name of its header otherwise. A
record from which the readers take the name that it gives is `Readable`.

`Goes base w before after t` says that between two worlds exactly the items in front of `after` have
been extracted. `ends_extractLoop_names` shows it for the reader of payloads in memory, for every
archive whose records are readable.
-/

namespace AosKernel.Uni

open Lib Lib.Paths Lib.Fallible CString

/-! ## Entries -/

/-- An entry: its header and the data that belongs to it. -/
structure TarEntry where
  header : List UInt8
  data : List UInt8

def TarEntry.type (e : TarEntry) : UInt8 := headerType e.header

/-- The types of the entries that are records for the next one. -/
def isRecordType (type : UInt8) : Bool := type == paxType || type == longNameType

def paddedSize (size : Nat) : Nat := (size + 511) / 512 * 512

/-- The first entry of an archive and what is behind it, unless the archive ends there or the header
is damaged. -/
def nextEntry (tar : List UInt8) : Option (TarEntry × List UInt8) :=
  if tar.length < 512 ∨ tarHeaderIsZero (tar.take 512) ∨
      tarChecksumValid (tar.take 512) = false then
    none
  else (headerSize (tar.take 512)).map fun size =>
    (⟨tar.take 512, (tar.drop 512).take size⟩, tar.drop (512 + paddedSize size))

/-- The entries of an archive; each of them takes at least one byte. -/
def entriesLoop : Nat → List UInt8 → List TarEntry
  | 0, _ => []
  | fuel + 1, tar =>
      match nextEntry tar with
      | none => []
      | some (e, rest) => e :: entriesLoop fuel rest

def tarEntries (tar : List UInt8) : List TarEntry := entriesLoop tar.length tar

variable {tar rest : List UInt8} {e : TarEntry}

lemma nextEntry_eq_some :
    nextEntry tar = some (e, rest) ↔
      512 ≤ tar.length ∧ tarHeaderIsZero (tar.take 512) = false ∧
        tarChecksumValid (tar.take 512) = true ∧
        ∃ size, headerSize (tar.take 512) = some size ∧
          e = ⟨tar.take 512, (tar.drop 512).take size⟩ ∧
          rest = tar.drop (512 + paddedSize size) := by
  unfold nextEntry
  split
  · next h =>
    refine ⟨fun h' => absurd h' (by simp), fun ⟨hlen, hzero, hsum, _⟩ => ?_⟩
    rcases h with h | h | h
    · omega
    · rw [hzero] at h
      exact absurd h (by simp)
    · rw [hsum] at h
      exact absurd h (by simp)
  · next h =>
    simp only [not_or, not_lt, Bool.not_eq_true, Bool.not_eq_false] at h
    simp only [Option.map_eq_some_iff, Prod.mk.injEq, h.1, h.2.1, h.2.2, true_and]
    constructor
    · rintro ⟨size, hsize, rfl, rfl⟩
      exact ⟨size, hsize, rfl, rfl⟩
    · rintro ⟨size, hsize, rfl, rfl⟩
      exact ⟨size, hsize, rfl, rfl⟩

lemma nextEntry_length (h : nextEntry tar = some (e, rest)) : rest.length < tar.length := by
  obtain ⟨hlen, -, -, size, -, -, rfl⟩ := nextEntry_eq_some.1 h
  rw [List.length_drop]
  omega

lemma entriesLoop_eq_tarEntries {fuel : Nat} (h : tar.length ≤ fuel) :
    entriesLoop fuel tar = tarEntries tar := by
  unfold tarEntries
  induction fuel using Nat.strong_induction_on generalizing tar with
  | _ fuel ih =>
    cases fuel with
    | zero => rw [Nat.le_zero.1 h]
    | succ fuel =>
    cases hlen : tar.length with
    | zero =>
      have hnone : nextEntry tar = none := by
        rw [nextEntry, if_pos (Or.inl (by omega))]
      rw [entriesLoop, entriesLoop, hnone]
    | succ n =>
      rw [entriesLoop, entriesLoop]
      cases hnext : nextEntry tar with
      | none => rfl
      | some next =>
      have hrest := nextEntry_length hnext
      dsimp only
      rw [ih fuel (by omega) (by omega), ih n (by omega) (by omega)]

lemma tarEntries_of_none (h : nextEntry tar = none) : tarEntries tar = [] := by
  unfold tarEntries
  cases tar.length with
  | zero => rfl
  | succ => rw [entriesLoop, h]

lemma tarEntries_of_some (h : nextEntry tar = some (e, rest)) :
    tarEntries tar = e :: tarEntries rest := by
  have hrest := nextEntry_length h
  unfold tarEntries
  obtain ⟨n, hn⟩ : ∃ n, tar.length = n + 1 := ⟨tar.length - 1, by omega⟩
  rw [hn, entriesLoop, h]
  dsimp only
  rw [entriesLoop_eq_tarEntries (by omega)]
  rfl

/-! ## Names -/

/-- The prefix and the name of a header, however long they are together. -/
def fullHeaderName (header : List UInt8) : CString :=
  let name := ofBytes (header.take 100)
  let dir := ofBytes ((header.drop 345).take 155)
  if dir = [] then name else dir ++ slash :: name

variable {name : Text pathCap}

lemma tarHeaderName_val {header : List UInt8} (h : tarHeaderName header = some name) :
    name.val = fullHeaderName header := by
  unfold tarHeaderName at h
  unfold fullHeaderName
  -- In both cases the name goes behind what is in the buffer.
  have hlast : ∀ out : Text pathCap, (if ofBytes (header.take 100) = [] then none
      else appendText out (ofBytes (header.take 100))) = some name →
      name.val = out.val ++ ofBytes (header.take 100) := by
    intro out hout
    split at hout
    · exact absurd hout (by simp)
    · exact appendText_eq_some_iff.1 hout
  dsimp only at h ⊢
  split at h
  · next hdir =>
    rw [if_pos hdir]
    exact hlast emptyText h
  next hdir =>
  obtain ⟨out, hout, h⟩ := Option.bind_eq_some_iff.1 h
  obtain ⟨dir, hcopy, hout⟩ := Option.bind_eq_some_iff.1 hout
  rw [if_neg hdir, hlast out h, appendChar_eq_some_iff.1 hout, copyText_eq_some_iff.1 hcopy,
    List.append_assoc]
  rfl

/-- The value of the first path in a pax record, without its trailing zeros and line ends. -/
def paxValueLoop : Nat → List UInt8 → Option (List UInt8)
  | 0, _ => none
  | _ + 1, [] => none
  | fuel + 1, b :: data =>
      let record := b :: data
      let digits := record.takeWhile isDigitByte
      let length := digits.foldl (fun n d => (n * 10 + (d.toNat - 0x30)) % 2 ^ 64) 0
      if digits = [] ∨ (record.drop digits.length).head? ≠ some 0x20 ∨ length = 0 ∨
          length > record.length then none
      else if length ≥ digits.length + 6 ∧
          pathKey.isPrefixOf (record.drop (digits.length + 1)) then
        some (((record.take length).drop (digits.length + 6)).rdropWhile isNameEnd)
      else paxValueLoop fuel (record.drop length)

def paxValue (data : List UInt8) : Option (List UInt8) := paxValueLoop data.length data

lemma paxPath_eq (data : List UInt8) : paxPath data = (paxValue data).bind (copyBytes pathCap) := by
  unfold paxPath paxValue
  generalize data.length = fuel
  induction fuel generalizing data with
  | zero => rfl
  | succ fuel ih =>
    cases data with
    | nil => rfl
    | cons =>
    rw [paxLoop, paxValueLoop]
    split
    · rfl
    · split
      · rfl
      · exact ih _

def TarEntry.isRecord (e : TarEntry) : Bool := isRecordType e.type

def TarEntry.gives (e : TarEntry) : Option CString :=
  if e.type = longNameType then some (ofBytes (e.data.rdropWhile isNameEnd))
  else (paxValue e.data).map ofBytes

/-- The name that both readers take from a record; empty for no name. -/
def TarEntry.taken (e : TarEntry) : Option (Text pathCap) :=
  if e.type = longNameType then longName e.data else some ((paxPath e.data).getD emptyText)

/-- The path of the record is not empty, and the path of a pax record fits its buffer. -/
def TarEntry.Readable (e : TarEntry) : Prop :=
  if e.type = longNameType then ofBytes (e.data.rdropWhile isNameEnd) ≠ []
  else ∀ value, paxValue e.data = some value → ofBytes value ≠ [] ∧ value.length < pathCap

def givenOf (pending : Text pathCap) : Option CString :=
  if pending.val = [] then none else some pending.val

lemma copyBytes_val {n : Nat} {bytes : List UInt8} {text : Text n}
    (h : copyBytes n bytes = some text) : text.val = ofBytes bytes := by
  unfold copyBytes at h
  split at h
  · exact absurd h (by simp)
  · cases h
    rfl

lemma givenOf_taken (hreadable : e.Readable) (h : e.taken = some name) :
    givenOf name = e.gives := by
  unfold TarEntry.taken at h
  unfold TarEntry.Readable at hreadable
  unfold TarEntry.gives givenOf
  split at h
  · next hlong =>
    rw [if_pos hlong] at hreadable ⊢
    rw [copyBytes_val h, if_neg hreadable]
  next hlong =>
  rw [if_neg hlong] at hreadable ⊢
  cases h
  rw [paxPath_eq]
  cases hvalue : paxValue e.data with
  | none => rfl
  | some value =>
  obtain ⟨hne, hfits⟩ := hreadable value hvalue
  have hcopy : copyBytes pathCap value = some ⟨ofBytes value, by
      have := ofBytes_length_le value
      omega⟩ := by
    rw [copyBytes, dif_neg (by omega)]
  simp [hcopy, hne]

/-- An entry that is not a record, with its effective name. -/
structure Item where
  name : CString
  type : UInt8
  deriving DecidableEq

/-- The entries that are not records, each with its effective name; `given` is what the record
immediately before the first of them gives. -/
def itemsOf : List TarEntry → Option CString → List Item
  | [], _ => []
  | e :: rest, given =>
      if e.isRecord then itemsOf rest e.gives
      else ⟨given.getD (fullHeaderName e.header), e.type⟩ :: itemsOf rest none

/-- Every record immediately before an entry that is not a record is readable. -/
def NamesReadable (entries : List TarEntry) : Prop :=
  entries.IsChain fun record e => record.isRecord = true → e.isRecord = false → record.Readable

/-- What follows a record has the names that it has after the name taken from the record. -/
lemma itemsOf_record {rest : List TarEntry} (hrecord : e.isRecord = true)
    (hreadable : NamesReadable (e :: rest)) (h : e.taken = some name) (given : Option CString) :
    itemsOf (e :: rest) given = itemsOf rest (givenOf name) := by
  rw [itemsOf, if_pos hrecord]
  cases rest with
  | nil => rfl
  | cons next rest =>
  cases hnext : next.isRecord with
  | true => rw [itemsOf, itemsOf, if_pos hnext, if_pos hnext]
  | false =>
    have hfirst := (List.isChain_cons_cons.1 hreadable).1 hrecord hnext
    rw [givenOf_taken hfirst h]

lemma itemsOf_content (h : e.isRecord = false) (rest : List TarEntry) (given : Option CString) :
    itemsOf (e :: rest) given =
      ⟨given.getD (fullHeaderName e.header), e.type⟩ :: itemsOf rest none := by
  rw [itemsOf, if_neg (by simp [h])]

lemma NamesReadable.tail {rest : List TarEntry} (h : NamesReadable (e :: rest)) :
    NamesReadable rest := List.IsChain.tail h

/-! ## Both readers look at the same entries -/

lemma tarNext_finished (h : tarNext tar = .finished) : nextEntry tar = none := by
  unfold tarNext at h
  unfold nextEntry
  split at h
  · next hlen => rw [if_pos (.inl hlen)]
  dsimp only at h
  split at h
  · next hzero => rw [if_pos (.inr (.inl hzero))]
  split at h
  · cases h
  · split at h
    · split at h <;> cases h
    · cases h

lemma tarNext_entry {header data : List UInt8} (h : tarNext tar = .entry header data name rest) :
    nextEntry tar = some (⟨header, data⟩, rest) ∧ tarHeaderName header = some name := by
  unfold tarNext at h
  rw [nextEntry_eq_some]
  split at h
  · cases h
  next hlen =>
  dsimp only at h
  split at h
  · cases h
  next hzero =>
  split at h
  · cases h
  next hsum =>
  split at h
  · next name' size hname hsize =>
    split at h
    · cases h
    · cases h
      exact ⟨⟨by omega, by simpa using hzero, by simpa using hsum, size, hsize, rfl, rfl⟩, hname⟩
  · cases h

/-! ## What is created -/

/-- The paths of the files that some calls have created, the oldest first; the calls are in the
order of the world, the newest first. -/
def createdPaths (calls : List Call) : List CString :=
  ((calls.filter fun c => c.request == .create && c.done).map Call.path).reverse

lemma createdPaths_append (a b : List Call) :
    createdPaths (a ++ b) = createdPaths b ++ createdPaths a := by
  simp [createdPaths]

/-- The calls between two worlds create some files and make directories only where `D` says so. -/
def Logged (D : CString → Prop) (w t : World) (paths : List CString) : Prop :=
  ∃ new, t.calls = new ++ w.calls ∧ createdPaths new = paths ∧
    ∀ c ∈ new, c.request = .mkdir → c.done = true → D c.path

section Logged

variable {host : Host} {D : CString → Prop} {w t u : World} {paths paths' : List CString}
  {ok : Prop}

lemma Logged.same (h : t.calls = w.calls) : Logged D w t [] :=
  ⟨[], h, rfl, by simp⟩

theorem Logged.trans (h : Logged D w t paths) (h' : Logged D t u paths') :
    Logged D w u (paths ++ paths') := by
  obtain ⟨new, hcalls, rfl, hD⟩ := h
  obtain ⟨new', hcalls', rfl, hD'⟩ := h'
  refine ⟨new' ++ new, by rw [hcalls', hcalls, List.append_assoc], createdPaths_append _ _, ?_⟩
  intro c hc
  rcases List.mem_append.1 hc with hc | hc
  · exact hD' c hc
  · exact hD c hc

theorem Logged.mono {D' : CString → Prop} (h : Logged D w t paths) (hD : ∀ path, D path → D' path) :
    Logged D' w t paths := by
  obtain ⟨new, hcalls, hpaths, hnew⟩ := h
  exact ⟨new, hcalls, hpaths, fun c hc hmkdir hdone => hD _ (hnew c hc hmkdir hdone)⟩

lemma Logged.call {c : Call} (h : t.calls = c :: w.calls) (hc : c.request ≠ .mkdir) :
    Logged D w t (createdPaths [c]) := by
  refine ⟨[c], h, rfl, fun c' hc' hmkdir => ?_⟩
  rw [List.mem_singleton.1 hc'] at hmkdir
  exact absurd hmkdir hc

lemma Logged.of_change (h : Change host D (fun _ => False) ok w t) : Logged D w t [] := by
  obtain ⟨new, hcalls, hnew⟩ := h.calls
  refine ⟨new, hcalls, ?_, fun c hc hmkdir _ => ?_⟩
  · have hnone : (new.filter fun c => c.request == .create && c.done) = [] := by
      rw [List.filter_eq_nil_iff]
      intro c hc hcreate
      have hpermitted := hnew c hc
      rw [Bool.and_eq_true, beq_iff_eq] at hcreate
      rw [Permitted, hcreate.1] at hpermitted
      exact hpermitted
    rw [createdPaths, hnone]
    rfl
  · have hpermitted := hnew c hc
    rw [Permitted, hmkdir] at hpermitted
    exact hpermitted.1

variable {path : CString}

lemma ends_writeLoop_calls {limit fuel : Nat} {data : List UInt8} {E : World → Prop} :
    Ends (writeLoop host path limit fuel data) w (fun _ t => t.calls = w.calls) E := by
  induction fuel generalizing data w with
  | zero => cases data <;> exact rfl
  | succ fuel ih =>
    cases data with
    | nil => exact rfl
    | cons =>
    rw [writeLoop, ends_bind]
    refine ends_writeOnce fun n _ => ?_
    split
    · exact rfl
    · exact ih

def Toward (path dir : CString) : Prop := dir = path ∨ dir ∈ cuts slash path

lemma ends_ensureDirectoryTree_logged {includeLeaf : Bool} :
    Ends (ensureDirectoryTree host path includeLeaf) w (fun _ t => Logged (Toward path) w t [])
      fun t => Logged (Toward path) w t [] := by
  have htree : Ends (ensureDirectoryTree host path includeLeaf) w
      (fun _ t => Change host (Toward path) (fun _ => False) True w t ∧ _)
      fun t => Change host (Toward path) (fun _ => False) False w t :=
    ends_ensureDirectoryTree (fun _ h => .inr h) fun _ => .inl rfl
  exact htree.mono (fun _ _ h => .of_change h.1) fun _ h => .of_change h

lemma ends_unlink_logged {α : Type} {Q : α → World → Prop} :
    Ends (do let _ ← unlink host path; (failure : Command α)) w Q fun t => Logged D w t [] := by
  rw [ends_bind]
  refine ends_call (fun _ => ?_) fun _ => ?_
  · exact Logged.call (c := ⟨.unlink, path, true⟩) rfl (by simp)
  · exact Logged.call (c := ⟨.unlink, path, false⟩) rfl (by simp)

/-- Whether a file was created or not, only it was. -/
def MayLog (D : CString → Prop) (w t : World) (path : CString) : Prop :=
  Logged D w t [] ∨ Logged D w t [path]

lemma ends_writePackageFile_logged {data : List UInt8} :
    Ends (writePackageFile host path data) w (fun _ t => Logged (Toward path) w t [path])
      fun t => MayLog (Toward path) w t path := by
  unfold writePackageFile
  rw [ends_bind, ends_fileExists, ends_ite]
  split
  · exact .inl (Logged.same rfl)
  rw [ends_bind, ends_directoryExists, ends_ite]
  split
  · exact .inl (Logged.same rfl)
  rw [ends_bind]
  refine ends_ensureDirectoryTree_logged.mono ?_ fun _ h => .inl h
  intro _ t htree
  rw [ends_bind]
  refine ends_call (fun _ => ?_) fun _ => ?_
  · -- From here on the file is there; whatever follows does not create another one.
    have hmade : ∀ u : World, u.calls = ⟨.create, path, true⟩ :: t.calls →
        Logged (Toward path) w u [path] :=
      fun u hu => htree.trans (Logged.call hu (by simp))
    rw [if_neg (by simp), ends_bind]
    refine ends_writeLoop_calls.mono ?_ fun _ (h : False) => h.elim
    intro written u hu
    have hback : Ends (do let _ ← unlink host path; (failure : Command Unit)) u
        (fun _ t => Logged (Toward path) w t [path]) fun t => MayLog (Toward path) w t path :=
      ends_unlink_logged.mono (fun _ _ h => h) fun v hv => .inr ((hmade u hu).trans hv)
    split
    · exact hback
    rw [ends_bind]
    refine ends_rememberCreated (fun text _ => ?_) fun _ => ?_
    · exact hmade _ hu
    · exact hback
  · exact .inl (htree.trans (Logged.call (c := ⟨.create, path, false⟩) rfl (by simp)))

end Logged

/-! ## Items -/

/-- Where an archive name goes below the directory of the package. -/
def destination (base : List CString) (name : CString) : CString :=
  render slash (base ++ kept (pieces name))

/-- A name that is neither absolute nor has a parent component, and that fits its buffer. -/
def Acceptable (name : CString) : Prop :=
  name.head? ≠ some slash ∧ [dot, dot] ∉ pieces name ∧ name.length < pathCap

/-- Items that are written: regular files, if they are not the root of the archive. -/
def Item.isWritten (i : Item) : Bool := isFileType i.type && !isArchiveRoot i.name

def fileDestinations (base : List CString) (items : List Item) : List CString :=
  (items.filter Item.isWritten).map fun i => destination base i.name

def TowardAny (base : List CString) (items : List Item) (dir : CString) : Prop :=
  ∃ i ∈ items, Toward (destination base i.name) dir

/-- The items before `after` have been extracted between two worlds, and nothing else. -/
def Goes (base : List CString) (w : World) (before after : List Item) (t : World) : Prop :=
  ∃ used, before = used ++ after ∧ (∀ i ∈ used, Acceptable i.name) ∧
    Logged (TowardAny base before) w t (fileDestinations base used)

/-- An extraction that fails has extracted some of the items. -/
def Stops (base : List CString) (w : World) (before : List Item) (t : World) : Prop :=
  ∃ after, Goes base w before after t

section Goes

variable {host : Host} {base : List CString} {w t u : World} {a b c : List Item} {i : Item}

lemma Goes.same (h : t.calls = w.calls) : Goes base w a a t :=
  ⟨[], rfl, by simp, Logged.same h⟩

theorem Goes.trans (h : Goes base w a b t) (h' : Goes base t b c u) : Goes base w a c u := by
  obtain ⟨used, rfl, hused, hlog⟩ := h
  obtain ⟨used', rfl, hused', hlog'⟩ := h'
  refine ⟨used ++ used', by simp, ?_, ?_⟩
  · intro i hi
    rcases List.mem_append.1 hi with hi | hi
    · exact hused i hi
    · exact hused' i hi
  · have hlog'' := hlog.trans (hlog'.mono fun dir ⟨i, hi, hdir⟩ =>
      show TowardAny base (used ++ (used' ++ c)) dir from ⟨i, List.mem_append_right _ hi, hdir⟩)
    simpa [fileDestinations] using hlog''

lemma Stops.of_goes (h : Goes base w a b t) (h' : Stops base t b u) : Stops base w a u := by
  obtain ⟨after, hafter⟩ := h'
  exact ⟨after, h.trans hafter⟩

lemma Stops.same (h : t.calls = w.calls) : Stops base w a t := ⟨a, Goes.same h⟩

/-- What an item does: nothing but to make directories on its way and to write it. -/
lemma Goes.item (hname : Acceptable i.name) (h : Logged (Toward (destination base i.name)) w t
      (if i.isWritten then [destination base i.name] else [])) : Goes base w (i :: a) a t := by
  refine ⟨[i], rfl, by simpa using hname, ?_⟩
  have hpaths : fileDestinations base [i] =
      if i.isWritten then [destination base i.name] else [] := by
    unfold fileDestinations
    cases hi : i.isWritten <;> simp [hi]
  rw [hpaths]
  exact h.mono fun dir hdir => ⟨i, by simp, hdir⟩

/-- An item that fails may have made directories on its way, and may have been created. -/
lemma Stops.item (hname : Acceptable i.name) (hwritten : i.isWritten = true)
    (h : MayLog (Toward (destination base i.name)) w t (destination base i.name)) :
    Stops base w (i :: a) t := by
  rcases h with h | h
  · exact ⟨i :: a, [], rfl, by simp, h.mono fun dir hdir => ⟨i, by simp, hdir⟩⟩
  · exact ⟨a, Goes.item hname (by rwa [if_pos hwritten])⟩

lemma Stops.item_directory (h : Logged (Toward (destination base i.name)) w t []) :
    Stops base w (i :: a) t :=
  ⟨i :: a, [], rfl, by simp, h.mono fun dir hdir => ⟨i, by simp, hdir⟩⟩

lemma acceptable_of_destination {info : PackageInfo} {name : Text pathCap}
    {normalized fullPath : Text pathCap}
    (h : entryDestination info name.val = some (normalized, fullPath)) : Acceptable name.val := by
  obtain ⟨hnormalized, -⟩ := entryDestination_eq_some.1 h
  obtain ⟨hslash, hall, -, -⟩ := normalizeArchivePath_eq_some.1 hnormalized
  refine ⟨fun habsolute => hslash ?_, fun hdots => (hall _ hdots).2 rfl, name.property⟩
  -- Nothing is skipped in front of a separator.
  cases hval : name.val with
  | nil =>
    rw [hval] at habsolute
    exact absurd habsolute (by simp)
  | cons first rest =>
  rw [hval] at habsolute
  obtain rfl : first = slash := by simpa using habsolute
  cases rest with
  | nil => rfl
  | cons second rest =>
    rfl

lemma acceptable_of_root {name : CString} (h : isArchiveRoot name = true) : Acceptable name := by
  unfold isArchiveRoot at h
  rw [Bool.or_eq_true, beq_iff_eq, beq_iff_eq] at h
  unfold Acceptable
  rcases h with rfl | rfl <;> decide

end Goes

/-! ## Payloads in memory -/

section Memory

variable {host : Host} {w : World} {info : PackageInfo}

lemma ends_extractEntry_names {header data : List UInt8} {name : Text pathCap} {a : List Item} :
    Ends (extractEntry host header data name.val info) w
      (fun info' t => Goes info.base w (⟨name.val, headerType header⟩ :: a) a t ∧
        SamePackage info info')
      fun t => Stops info.base w (⟨name.val, headerType header⟩ :: a) t := by
  unfold extractEntry
  split
  · next hroot =>
    refine ⟨Goes.item (acceptable_of_root hroot) ?_, .refl _⟩
    rw [if_neg (by simp [Item.isWritten, hroot])]
    exact Logged.same rfl
  next hroot =>
  rw [ends_bind, ends_ofOption]
  refine ⟨?_, fun _ => Stops.same rfl⟩
  rintro ⟨normalized, fullPath⟩ hdestination
  have hname := acceptable_of_destination hdestination
  have hpath : fullPath.val = destination info.base name.val :=
    (entryDestination_eq_some.1 hdestination).2
  dsimp only
  rw [hpath, ends_ite]
  split
  · next hdirectory =>
    rw [ends_bind]
    refine ends_ensureDirectoryTree_logged.mono ?_ fun _ h => Stops.item_directory h
    refine fun _ t h => ⟨Goes.item hname ?_, .refl _⟩
    rw [if_neg (by
      simp [Item.isWritten, hdirectory, show isFileType directoryType = false by decide])]
    exact h
  split
  · next hother =>
    refine ⟨Goes.item hname ?_, ⟨rfl, rfl, rfl⟩⟩
    rw [if_neg (by simp [Item.isWritten, hother])]
    exact Logged.same rfl
  next hfile =>
  have hwritten : Item.isWritten ⟨name.val, headerType header⟩ = true := by
    simp [Item.isWritten, hfile, hroot]
  split
  · exact Stops.same rfl
  rw [ends_bind, ends_ofOption]
  refine ⟨fun mode _ => ?_, fun _ => Stops.same rfl⟩
  rw [ends_bind]
  refine ends_writePackageFile_logged.mono ?_ fun _ h => Stops.item hname hwritten h
  refine fun _ t h => ⟨Goes.item hname ?_, samePackage_countFile _ _ _ _ _⟩
  rwa [if_pos hwritten]

lemma chosenName {pending headerName : Text pathCap} {header : List UInt8}
    (h : tarHeaderName header = some headerName) :
    (if pending.val = [] then headerName else pending).val =
      (givenOf pending).getD (fullHeaderName header) := by
  unfold givenOf
  split
  · exact tarHeaderName_val h
  · rfl

lemma TarEntry.isRecord_eq {e : TarEntry} :
    e.isRecord = true ↔ e.type = paxType ∨ e.type = longNameType := by
  unfold TarEntry.isRecord isRecordType
  rw [Bool.or_eq_true, beq_iff_eq, beq_iff_eq]

theorem ends_extractLoop_names (fuel : Nat) {tar : List UInt8} (pending : Text pathCap)
    (hreadable : NamesReadable (tarEntries tar)) :
    Ends (extractLoop host fuel tar pending info) w
      (fun _ t => Goes info.base w (itemsOf (tarEntries tar) (givenOf pending)) [] t)
      fun t => Stops info.base w (itemsOf (tarEntries tar) (givenOf pending)) t := by
  induction fuel generalizing tar pending info w with
  | zero => exact Stops.same rfl
  | succ fuel ih =>
    unfold extractLoop
    split
    · next hfinished =>
      rw [tarEntries_of_none (tarNext_finished hfinished)]
      exact Goes.same rfl
    · exact Stops.same rfl
    next header data name rest hentry =>
    obtain ⟨hnext, hname⟩ := tarNext_entry hentry
    rw [tarEntries_of_some hnext] at hreadable ⊢
    -- A record of either kind leaves the name that is taken from it.
    have hrecord : ∀ taken, TarEntry.isRecord ⟨header, data⟩ = true →
        TarEntry.taken ⟨header, data⟩ = some taken →
        Ends (extractLoop host fuel rest taken info) w
          (fun _ t => Goes info.base w
            (itemsOf (⟨header, data⟩ :: tarEntries rest) (givenOf pending)) [] t)
          fun t => Stops info.base w
            (itemsOf (⟨header, data⟩ :: tarEntries rest) (givenOf pending)) t := by
      intro taken hrecord htaken
      rw [itemsOf_record hrecord hreadable htaken]
      exact ih taken hreadable.tail
    split
    · next hpax =>
      refine hrecord _ (TarEntry.isRecord_eq.2 (.inl hpax)) ?_
      have hshort : ¬ TarEntry.type ⟨header, data⟩ = longNameType := by
        rw [TarEntry.type, hpax]
        decide
      rw [TarEntry.taken, if_neg hshort]
    next hpax =>
    split
    · next hlong =>
      rw [ends_bind, ends_ofOption]
      refine ⟨fun taken htaken => ?_, fun _ => Stops.same rfl⟩
      refine hrecord taken (TarEntry.isRecord_eq.2 (.inr hlong)) ?_
      have hlong' : TarEntry.type ⟨header, data⟩ = longNameType := hlong
      rw [TarEntry.taken, if_pos hlong', htaken]
    next hlong =>
    have hcontent : TarEntry.isRecord ⟨header, data⟩ = false := by
      rw [← Bool.not_eq_true, TarEntry.isRecord_eq]
      exact not_or.2 ⟨hpax, hlong⟩
    rw [itemsOf_content hcontent, ← chosenName hname, ends_bind, ← apply_ite]
    refine ends_extractEntry_names.mono ?_ fun _ h => h
    rintro info' t ⟨hgoes, hsame⟩
    have hrest : Ends (extractLoop host fuel rest emptyText info') t
        (fun _ u => Goes info'.base t (itemsOf (tarEntries rest) none) [] u)
        fun u => Stops info'.base t (itemsOf (tarEntries rest) none) u :=
      ih emptyText hreadable.tail
    rw [hsame.base] at hrest
    exact hrest.mono (fun _ _ h => hgoes.trans h) fun _ h => Stops.of_goes hgoes h

end Memory

end AosKernel.Uni
