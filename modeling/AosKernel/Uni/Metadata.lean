import AosKernel.Uni.Confinement

/-!
# The metadata of an `.ainstall` package

`inspect_ainstall` looks for its fields in a buffer that also has the beginning of the payload. A
header decides a field if it has a line for it, if the text ends inside the header, or if there is
no room left in the buffer for such a line. The metadata are the same for all payloads exactly if
the header decides all the ten fields and is long enough, or is refused whatever follows it
(`metadata_from_header_iff`). -/

namespace AosKernel.Uni

open Lib Lib.Paths Lib.Fallible Function CString Option

/-! ## Lookups -/

def givesField (field line : CString) : Bool :=
  field.length + 1 < line.length && startsWith line field &&
    (line.drop field.length).head? == some colon

def lineValue (field line : CString) : CString :=
  ((line.drop (field.length + 1)).dropWhile isBlank).rdropWhile isBlank

lemma controlLoop_eq_find (field : CString) (n : Nat) (ls : List CString) :
    controlLoop field n ls =
      (ls.find? (givesField field)).bind fun line => copyText n (lineValue field line) := by
  induction ls with
  | nil => rfl
  | cons line rest ih =>
    have hiff : givesField field line = true ↔ ¬ line.length ≤ field.length + 1 ∧
        ¬ (startsWith line field = false ∨ (line.drop field.length).head? ≠ some colon) := by
      simp [givesField, and_assoc]
    unfold controlLoop
    by_cases hgives : givesField field line = true
    · obtain ⟨hlong, hstart⟩ := hiff.1 hgives
      rw [if_neg hlong, if_neg hstart, List.find?_cons_of_pos hgives]
      rfl
    rw [List.find?_cons_of_neg hgives, ← ih]
    split
    · rfl
    · split
      · rfl
      · next hlong hstart => exact absurd (hiff.2 ⟨hlong, hstart⟩) hgives

def fieldLine (text field : CString) : Option CString :=
  (lines isLineEnd text).find? (givesField field)

lemma controlField_eq (text field : CString) (n : Nat) :
    controlField text field n =
      (fieldLine text field).bind fun line => copyText n (lineValue field line) :=
  controlLoop_eq_find field n _

def headerFields : List String :=
  ["Package", "Name", "Version", "Architecture", "Description", "Depends", "Pre-Depends",
    "Provides", "Entry", "Payload"]

/-! ## Headers -/

/-- A header that ends with its first blank line. -/
def IsHeader (header : List UInt8) : Prop := findAinstallHeaderEnd header = some header.length

/-- The bytes of a package that the buffer holds. -/
def bufferText (file : List UInt8) : CString := ofBytes (file.take (controlCap - 1))

section Headers

variable {header : List UInt8}

lemma headerEndLoop_append {i : Nat} (h : headerEndLoop header i = some (i + header.length))
    (rest : List UInt8) : headerEndLoop (header ++ rest) i = some (i + header.length) := by
  induction header generalizing i with
  | nil => exact absurd h (by simp [headerEndLoop])
  | cons b tail ih =>
    rw [List.length_cons] at h ⊢
    rw [List.cons_append]
    unfold headerEndLoop at h ⊢
    have htail : tail ≠ [] := by
      rintro rfl
      simp [headerEndLoop] at h
    have hhead : (tail ++ rest).head? = tail.head? := List.head?_append_of_ne_nil tail htail
    rw [hhead]
    split at h
    · next hblank => rw [if_pos hblank, h]
    next hblank =>
    rw [if_neg hblank]
    split at h
    · next hcrlf =>
      have hfour : tail.length = 3 := by
        have := some.inj h
        omega
      rw [if_pos ⟨hcrlf.1, by rw [List.take_append_of_le_length (by omega)]; exact hcrlf.2⟩, h]
    next hcrlf =>
    -- A blank line across the end of the header would leave none at its end.
    rw [if_neg]
    · rw [ih (by rw [h]; congr 1; omega)]
      congr 1
      omega
    · rintro ⟨hb, htake⟩
      match tail, h, htake with
      | [], h, _ => simp [headerEndLoop] at h
      | [x], h, _ => simp [headerEndLoop] at h
      | [x, y], h, htake =>
        simp only [List.cons_append, List.nil_append, List.take_succ_cons, List.cons.injEq] at htake
        obtain ⟨rfl, rfl, -⟩ := htake
        simp [headerEndLoop] at h
      | x :: y :: z :: tail', _, htake =>
        exact hcrlf ⟨hb, by simpa using htake⟩

lemma IsHeader.append (h : IsHeader header) (rest : List UInt8) :
    findAinstallHeaderEnd (header ++ rest) = some header.length := by
  have := headerEndLoop_append (i := 0) (by rw [zero_add]; exact h) rest
  rwa [zero_add] at this

lemma IsHeader.getLast (h : IsHeader header) : ∃ front, header = front ++ [0x0a] := by
  have hloop : ∀ (text : List UInt8) i, headerEndLoop text i = some (i + text.length) →
      ∃ front, text = front ++ [0x0a] := by
    intro text
    induction text with
    | nil => exact fun i hnone => absurd hnone (by simp [headerEndLoop])
    | cons b tail ih =>
      intro i hrun
      rw [List.length_cons] at hrun
      unfold headerEndLoop at hrun
      split at hrun
      · next hblank =>
        match tail, hblank, hrun with
        | [], hblank, _ => exact absurd hblank.2 (by simp)
        | [x], hblank, _ =>
          obtain ⟨rfl, hx⟩ := hblank
          cases some.inj hx
          exact ⟨[0x0a], rfl⟩
        | _ :: _ :: tail', _, hrun =>
          have := some.inj hrun
          simp only [List.length_cons] at this
          omega
      next hblank =>
      split at hrun
      · next hcrlf =>
        have hlength : tail.length = 3 := by
          have := some.inj hrun
          omega
        have htail : tail = [0x0a, 0x0d, 0x0a] := by
          rw [← hcrlf.2, List.take_of_length_le hlength.le]
        exact ⟨[b, 0x0a, 0x0d], by rw [htail]; rfl⟩
      · obtain ⟨front, rfl⟩ := ih (i + 1) (by rw [hrun]; congr 1; omega)
        exact ⟨b :: front, rfl⟩
  exact hloop header 0 (by rw [zero_add]; exact h)

end Headers

/-! ## Texts -/

section Texts

lemma ofBytes_append_of_zero {a : List UInt8} (h : 0 ∈ a) (b : List UInt8) :
    ofBytes (a ++ b) = ofBytes a := by
  induction a with
  | nil => exact absurd h (by simp)
  | cons c a ih =>
    rw [List.cons_append, ofBytes, ofBytes]
    split
    · next hc => rw [ih ((List.mem_cons.1 h).resolve_left (Ne.symm hc))]
    · rfl

lemma ofBytes_append {a : List UInt8} (h : 0 ∉ a) (b : List UInt8) :
    ofBytes (a ++ b) = ofBytes a ++ ofBytes b := by
  induction a with
  | nil => rfl
  | cons c a ih =>
    rw [List.mem_cons, not_or] at h
    rw [List.cons_append, ofBytes, ofBytes, dif_pos, dif_pos (Ne.symm h.1), ih h.2]
    rfl

variable {header : List UInt8}

/-- The part of the payload that the buffer holds. -/
def visible (header payload : List UInt8) : CString :=
  if 0 ∈ header then [] else ofBytes (payload.take (controlCap - 1 - header.length))

lemma bufferText_append (hfits : header.length ≤ controlCap - 1) (payload : List UInt8) :
    bufferText (header ++ payload) = ofBytes header ++ visible header payload := by
  unfold bufferText visible
  rw [List.take_append, List.take_of_length_le hfits]
  split
  · next hzero => rw [ofBytes_append_of_zero hzero, List.append_nil]
  · next hzero => rw [ofBytes_append hzero]

/-- The lines of the buffer are those of the header, and then those of the payload. -/
lemma fieldLine_append (h : IsHeader header) (hfits : header.length ≤ controlCap - 1)
    (payload : List UInt8) (field : CString) :
    fieldLine (bufferText (header ++ payload)) field =
      (fieldLine (ofBytes header) field).or
        ((splitBy isLineEnd (visible header payload)).find? (givesField field)) := by
  have hshort : ∀ line : CString, line = [] → givesField field line = false := by
    rintro _ rfl
    simp [givesField]
  rw [bufferText_append hfits]
  by_cases hzero : 0 ∈ header
  · have hnone : visible header payload = [] := if_pos hzero
    rw [hnone, List.append_nil]
    simp [splitBy, hshort]
  obtain ⟨front, hfront⟩ := h.getLast
  have hlast : ofBytes header = ofBytes front ++ [newline] := by
    rw [hfront, ofBytes_append (fun hmem => hzero (by rw [hfront]; simp [hmem]))]
    rfl
  unfold fieldLine
  rw [hlast, List.append_assoc, List.singleton_append, lines_append_sep _ (by decide),
    List.find?_append]
  congr 1
  rw [List.find?_filter]
  refine congrArg (fun p => List.find? p _) (funext fun line => ?_)
  cases line with
  | nil => simp [hshort]
  | cons => simp

end Texts

/-! ## Decided fields -/

/-- The header decides what is found for a field. -/
def Decides (header : List UInt8) (field : CString) : Prop :=
  0 ∈ header ∨ (fieldLine (ofBytes header) field).isSome = true ∨
    controlCap - 1 < header.length + field.length + 2

section Decided

variable {header : List UInt8} {field : CString}

lemma Decides.fieldLine_eq (h : IsHeader header) (hfits : header.length ≤ controlCap - 1)
    (hdecides : Decides header field) (payload : List UInt8) :
    fieldLine (bufferText (header ++ payload)) field = fieldLine (ofBytes header) field := by
  rw [fieldLine_append h hfits]
  rcases hdecides with hzero | hsome | hroom
  · rw [visible, if_pos hzero]
    simp [splitBy, givesField]
  · obtain ⟨line, hline⟩ := isSome_iff_exists.1 hsome
    rw [hline]
    rfl
  -- Every line of the payload is too short.
  have hnone : (splitBy isLineEnd (visible header payload)).find? (givesField field) = none := by
    rw [List.find?_eq_none]
    intro line hline
    have hlength := length_le_of_mem_splitBy hline
    have hvisible : (visible header payload).length ≤ controlCap - 1 - header.length := by
      unfold visible
      split
      · exact Nat.zero_le _
      · refine (ofBytes_length_le _).trans ?_
        rw [List.length_take]
        exact min_le_left _ _
    simp only [givesField, Bool.and_eq_true, decide_eq_true_eq, not_and]
    omega
  rw [hnone, or_none]

/-- The line that gives a field a value of one character. -/
def shortLine (field : CString) (c : CChar) : CString := field ++ [colon, c]

/-- A field that the header does not decide can be given by the payload, and then nothing else
is. -/
lemma fieldLine_of_not_decides (h : IsHeader header) (hfits : header.length ≤ controlCap - 1)
    (hnot : ¬ Decides header field) {c : CChar}
    (hline : ∀ x ∈ shortLine field c, isLineEnd x = false) (other : CString) :
    fieldLine (bufferText (header ++ (shortLine field c).bytes)) other =
      (fieldLine (ofBytes header) other).or
        ([shortLine field c].find? (givesField other)) := by
  simp only [Decides, not_or, not_lt] at hnot
  obtain ⟨hzero, -, hroom⟩ := hnot
  have hvisible : visible header (shortLine field c).bytes = shortLine field c := by
    rw [visible, if_neg hzero, List.take_of_length_le]
    · have hbytes := ofBytes_bytes_append (shortLine field c) []
      rwa [List.append_nil, ofBytes, List.append_nil] at hbytes
    · rw [bytes_length, shortLine, List.length_append, List.length_cons,
        List.length_singleton]
      omega
  rw [fieldLine_append h hfits, hvisible, splitBy_of_not_sep hline]

end Decided

/-! ## Metadata -/

def headerInfo (text : CString) (info : PackageInfo) : PackageInfo :=
  let info := match controlField text (ofString "Package") idCap with
    | some package => { info with id := idFromText package.val }
    | none => info
  let info := commonFields text info
  { info with
    version := fieldOr text "Version" info.version
    architecture := fieldOr text "Architecture" info.architecture
    entryHint := fieldOr text "Entry" info.entryHint }

lemma tar_length_lt : (ofString "tar").length < 24 := by decide

def headerFormat (text : CString) : Text 24 :=
  fieldOr text "Payload" ⟨ofString "tar", tar_length_lt⟩

/-- The name of the compression of a payload that is not loaded. -/
def compressionName (member : ArMember) : Text 16 :=
  if endsWith member.name.val (ofString ".gz") then gzipText
  else if endsWith member.name.val (ofString ".xz") then xzText else noneText

/-- What `inspect_ainstall` finds in a file that it can read. -/
def metadata (file : List UInt8) (info : PackageInfo) : Option PackageInfo :=
  (ainstallHeader file info).map fun r => { r.1 with compression := compressionName r.2 }

lemma metadata_eq (file : List UInt8) (info : PackageInfo) : metadata file info =
    if file.length < 16 ∨ startsWith (bufferText file) (ofString "AINSTALL1\n") = false then
      none
    else (findAinstallHeaderEnd (file.take (controlCap - 1))).bind fun offset =>
      if architectureSupported (headerInfo (bufferText file) info).architecture.val = false ∨
          offset ≥ file.length then none
      else (payloadMember (headerFormat (bufferText file)).val offset (file.length - offset)).map
        fun member => { headerInfo (bufferText file) info with
          compression := compressionName member } := by
  have hheader : ainstallHeader file info =
      if file.length < 16 ∨ startsWith (bufferText file) (ofString "AINSTALL1\n") = false then
        none
      else (findAinstallHeaderEnd (file.take (controlCap - 1))).bind fun offset =>
        if architectureSupported (headerInfo (bufferText file) info).architecture.val = false ∨
            offset ≥ file.length then none
        else (payloadMember (headerFormat (bufferText file)).val offset (file.length - offset)).bind
          fun member => some (headerInfo (bufferText file) info, member) := rfl
  rw [metadata, hheader]
  split
  · rfl
  cases findAinstallHeaderEnd (file.take (controlCap - 1)) with
  | none => rfl
  | some offset =>
  simp only [bind_some]
  split
  · rfl
  · cases payloadMember (headerFormat (bufferText file)).val offset (file.length - offset) <;> rfl

def World.put (w : World) (path : CString) (file : List UInt8) : World :=
  { w with files := update w.files path (some (.regular file)) }

lemma inspectAinstall_exec (host : Host) (sourcePath : CString) (w : World) (file : List UInt8) :
    ((inspectAinstall host sourcePath false).exec (w.put sourcePath file)).1 =
      if host.allows .read sourcePath w.time = true ∧
          host.allows .read sourcePath (w.time + 1) = true then
        (metadata file (packageDefaults host .ainstall sourcePath)).map fun info => (info, [])
      else none := by
  have hopen : (openForReading host sourcePath).exec (w.put sourcePath file) =
      (some (if host.allows .read sourcePath w.time then some file else none),
        { w.put sourcePath file with time := w.time + 1 }) := by
    have hfile : (w.put sourcePath file).files sourcePath = some (.regular file) :=
      update_self ..
    have htime : (w.put sourcePath file).time = w.time := rfl
    simp only [openForReading, Host.ask, Fallible.step, Fallible.exec, hfile, htime]
    cases host.allows .read sourcePath w.time <;> rfl
  unfold inspectAinstall
  rw [exec_bind, hopen]
  dsimp only
  cases hfirst : host.allows .read sourcePath w.time with
  | false => rfl
  | true =>
  have hread : (readExact host sourcePath).exec { w.put sourcePath file with time := w.time + 1 } =
      (if host.allows .read sourcePath (w.time + 1) then some () else none,
        { w.put sourcePath file with time := w.time + 2 }) := by
    unfold readExact
    show (if host.allows .read sourcePath (w.time + 1) then _ else _ : Command Unit).exec _ = _
    cases host.allows .read sourcePath (w.time + 1) <;> rfl
  show ((readExact host sourcePath >>= _).exec _).1 = _
  rw [exec_bind, hread]
  cases hsecond : host.allows .read sourcePath (w.time + 1) with
  | false => rfl
  | true =>
  simp only [if_true, and_self]
  rw [exec_bind, metadata]
  cases hheader : ainstallHeader file (packageDefaults host .ainstall sourcePath) with
  | none => rfl
  | some => rfl

/-! ## The condition -/

/-- A header that is refused whatever follows it. -/
def Refuses (header : List UInt8) : Prop :=
  (∃ value : Text 24, controlField (ofBytes header) (ofString "Architecture") 24 =
    some value ∧ architectureSupported value.val = false) ∨
  ∃ value : Text 24, controlField (ofBytes header) (ofString "Payload") 24 =
    some value ∧ payloadMember value.val 0 0 = none

/-- A header that settles the metadata of its packages. -/
def Settles (header : List UInt8) : Prop :=
  controlCap - 1 < header.length ∨
    startsWith (ofBytes header) (ofString "AINSTALL1\n") = false ∨
    Refuses header ∨
    (15 ≤ header.length ∧ ∀ field ∈ headerFields, Decides header (ofString field))

section Condition

variable {header : List UInt8}

lemma payloadMember_congr (format : CString) (offset size offset' size' : Nat) :
    (payloadMember format offset size).map compressionName =
      (payloadMember format offset' size').map compressionName := by
  unfold payloadMember
  split
  · rfl
  · split
    · rfl
    · split <;> rfl

lemma headerEndLoop_le {text : List UInt8} {i offset : Nat}
    (h : headerEndLoop text i = some offset) : offset ≤ i + text.length := by
  induction text generalizing i with
  | nil => exact absurd h (by simp [headerEndLoop])
  | cons b tail ih =>
    rw [List.length_cons]
    unfold headerEndLoop at h
    split at h
    · next hblank =>
      have hpos : 0 < tail.length := List.length_pos_iff.2 fun hnil => by simp [hnil] at hblank
      have := some.inj h
      omega
    split at h
    · next hcrlf =>
      have hlength := congrArg List.length hcrlf.2
      rw [List.length_take] at hlength
      have := some.inj h
      simp only [List.length_cons, List.length_nil] at hlength
      omega
    · have := ih h
      omega

lemma metadata_of_long (hlong : controlCap - 1 < header.length) (payload other : List UInt8)
    (info : PackageInfo) : metadata (header ++ payload) info = metadata (header ++ other) info := by
  have hbuffer : ∀ rest : List UInt8, (header ++ rest).take (controlCap - 1) =
      header.take (controlCap - 1) := fun rest => List.take_append_of_le_length hlong.le
  have hcap : 16 ≤ controlCap - 1 := by decide
  have hsize : ∀ rest : List UInt8, ¬ (header ++ rest).length < 16 := by
    intro rest
    rw [List.length_append]
    omega
  rw [metadata_eq, metadata_eq]
  simp only [bufferText, hbuffer, hsize, false_or]
  split
  · rfl
  cases hend : findAinstallHeaderEnd (header.take (controlCap - 1)) with
  | none => rfl
  | some offset =>
  have hoffset : ∀ rest : List UInt8, ¬ offset ≥ (header ++ rest).length := by
    intro rest
    have hle := headerEndLoop_le hend
    rw [List.length_take] at hle
    rw [List.length_append]
    omega
  simp only [Option.bind_some, hoffset, or_false]
  split
  · rfl
  have hcongr := congrArg (Option.map fun compression =>
    { headerInfo (ofBytes (header.take (controlCap - 1))) info with
      compression := compression }) (payloadMember_congr
        (headerFormat (ofBytes (header.take (controlCap - 1)))).val offset
        ((header ++ payload).length - offset) offset ((header ++ other).length - offset))
  rw [Option.map_map, Option.map_map] at hcongr
  exact hcongr

/-- A text with one separator, at its end, is found before the text goes on. -/
lemma prefix_append_iff {α : Type} {front text more : List α} {s : α} (hs : s ∉ front) :
    front ++ [s] <+: text ++ [s] ++ more ↔ front ++ [s] <+: text ++ [s] := by
  refine ⟨fun h => ?_, fun h => h.trans (List.prefix_append _ _)⟩
  rcases lt_or_ge (text ++ [s]).length (front ++ [s]).length with hlt | hle
  · -- The text would be a part of `front` then.
    have hpre : text ++ [s] <+: front ++ [s] :=
      List.prefix_of_prefix_length_le (List.prefix_append _ _) h hlt.le
    have hfront : text ++ [s] <+: front := by
      refine List.prefix_of_prefix_length_le hpre (List.prefix_append _ _) ?_
      simp only [List.length_append, List.length_singleton] at hlt ⊢
      omega
    exact absurd (hfront.subset (by simp)) hs
  · exact List.prefix_of_prefix_length_le h (List.prefix_append _ _) hle

lemma startsWith_bufferText (h : IsHeader header) (hfits : header.length ≤ controlCap - 1)
    (payload : List UInt8) :
    startsWith (bufferText (header ++ payload)) (ofString "AINSTALL1\n") =
      startsWith (ofBytes header) (ofString "AINSTALL1\n") := by
  have hmagic : ofString "AINSTALL1\n" = ofString "AINSTALL1" ++ [newline] := by
    decide
  rw [bufferText_append hfits]
  by_cases hzero : 0 ∈ header
  · rw [visible, if_pos hzero, List.append_nil]
  obtain ⟨front, hfront⟩ := h.getLast
  have hlast : ofBytes header = ofBytes front ++ [newline] := by
    rw [hfront, ofBytes_append (fun hmem => hzero (by rw [hfront]; simp [hmem]))]
    rfl
  rw [hlast, hmagic, Bool.eq_iff_iff, startsWith, startsWith, List.isPrefixOf_iff_prefix,
    List.isPrefixOf_iff_prefix]
  exact prefix_append_iff (by decide)

variable {payload : List UInt8}

/-- The metadata of a header that fits the buffer, by its lookups. -/
lemma metadata_of_header (h : IsHeader header) (hfits : header.length ≤ controlCap - 1)
    (hne : payload ≠ []) (info : PackageInfo) :
    metadata (header ++ payload) info =
      if header.length + payload.length < 16 ∨
          startsWith (ofBytes header) (ofString "AINSTALL1\n") = false ∨
          architectureSupported
            (headerInfo (bufferText (header ++ payload)) info).architecture.val = false then none
      else ((payloadMember (headerFormat (bufferText (header ++ payload))).val 0 0).map
        compressionName).map fun compression =>
          { headerInfo (bufferText (header ++ payload)) info with compression := compression } := by
  have hend : findAinstallHeaderEnd ((header ++ payload).take (controlCap - 1)) =
      some header.length := by
    rw [List.take_append, List.take_of_length_le hfits]
    exact h.append _
  have hpos : 0 < payload.length := List.length_pos_iff.2 hne
  have hoffset : ¬ header.length ≥ header.length + payload.length := by omega
  rw [metadata_eq, hend, startsWith_bufferText h hfits, List.length_append]
  simp only [bind_some, hoffset, or_false]
  rw [payloadMember_congr, map_map]
  split
  · next hbad => rw [if_pos (hbad.imp id .inl)]
  next hgood =>
  rw [not_or] at hgood
  split
  · next harch => rw [if_pos (.inr (.inr harch))]
  · next harch =>
    rw [if_neg (by simp only [not_or]; exact ⟨hgood.1, hgood.2, harch⟩)]
    rfl

lemma headerInfo_congr {text text' : CString} (info : PackageInfo) (h : ∀ field ∈ headerFields,
      fieldLine text (ofString field) = fieldLine text' (ofString field)) :
    headerInfo text info = headerInfo text' info ∧ headerFormat text = headerFormat text' := by
  have hfield : ∀ field ∈ headerFields, ∀ n, controlField text (ofString field) n =
      controlField text' (ofString field) n := by
    intro field hmem n
    rw [controlField_eq, controlField_eq, h field hmem]
  simp only [headerFields, List.forall_mem_cons, List.not_mem_nil, false_implies,
    implies_true, and_true] at hfield
  obtain ⟨h1, h2, h3, h4, h5, h6, h7, h8, h9, h10⟩ := hfield
  constructor
  · simp only [headerInfo, commonFields, fieldOr, h1, h2, h3, h4, h5, h6, h7, h8, h9]
  · simp only [headerFormat, fieldOr, h10]

lemma headerInfo_architecture (text : CString) (info : PackageInfo) :
    (headerInfo text info).architecture = fieldOr text "Architecture" info.architecture := by
  unfold headerInfo
  split <;> rfl

/-- A line of the header is found before the lines of the payload. -/
lemma controlField_of_header (h : IsHeader header) (hfits : header.length ≤ controlCap - 1)
    {field : CString} {n : Nat} {value : Text n}
    (hvalue : controlField (ofBytes header) field n = some value) (payload : List UInt8) :
    controlField (bufferText (header ++ payload)) field n = some value := by
  rw [controlField_eq] at hvalue ⊢
  obtain ⟨line, hline, hcopy⟩ := bind_eq_some_iff.1 hvalue
  rw [fieldLine_append h hfits, hline, some_or, bind_some, hcopy]

/-- A header that settles the metadata gives the same ones with every payload. -/
lemma Settles.metadata_eq (h : IsHeader header) (hsettles : Settles header) {other : List UInt8}
    (hpayload : payload ≠ []) (hother : other ≠ []) (info : PackageInfo) :
    metadata (header ++ payload) info = metadata (header ++ other) info := by
  rcases lt_or_ge (controlCap - 1) header.length with hlong | hfits
  · exact metadata_of_long hlong payload other info
  rw [metadata_of_header h hfits hpayload, metadata_of_header h hfits hother]
  rcases hsettles with hlong | hmagic | hrefuses | ⟨hlength, hdecides⟩
  · omega
  · rw [if_pos (.inr (.inl hmagic)), if_pos (.inr (.inl hmagic))]
  · rcases hrefuses with ⟨value, hvalue, hunsupported⟩ | ⟨value, hvalue, hnone⟩
    · have harch : ∀ rest, architectureSupported
          (headerInfo (bufferText (header ++ rest)) info).architecture.val = false := by
        intro rest
        rw [headerInfo_architecture, fieldOr, controlField_of_header h hfits hvalue]
        exact hunsupported
      rw [if_pos (.inr (.inr (harch _))), if_pos (.inr (.inr (harch _)))]
    · have hformat : ∀ rest, payloadMember
          (headerFormat (bufferText (header ++ rest))).val 0 0 = none := by
        intro rest
        rw [headerFormat, fieldOr, controlField_of_header h hfits hvalue]
        exact hnone
      simp only [hformat, map_none, ite_self]
  · have hlookups : ∀ field ∈ headerFields,
        fieldLine (bufferText (header ++ payload)) (ofString field) =
          fieldLine (bufferText (header ++ other)) (ofString field) := by
      intro field hfield
      rw [(hdecides field hfield).fieldLine_eq h hfits,
        (hdecides field hfield).fieldLine_eq h hfits]
    have hsame := headerInfo_congr info hlookups
    have hsize : ∀ rest : List UInt8, rest ≠ [] → ¬ header.length + rest.length < 16 := by
      intro rest hne
      have := List.length_pos_iff.2 hne
      omega
    simp only [hsame.1, hsame.2, hsize payload hpayload, hsize other hother]

/-- A header that is not refused and a payload that adds neither an architecture nor a format. -/
lemma metadata_of_accepted (h : IsHeader header) (hfits : header.length ≤ controlCap - 1)
    (hmagic : startsWith (ofBytes header) (ofString "AINSTALL1\n") = true)
    (hrefuses : ¬ Refuses header) (hne : payload ≠ []) (hsize : 16 ≤ header.length + payload.length)
    {info : PackageInfo} (hdefault : architectureSupported info.architecture.val = true)
    (harch : fieldLine (bufferText (header ++ payload)) (ofString "Architecture") =
      fieldLine (ofBytes header) (ofString "Architecture"))
    (hformat : fieldLine (bufferText (header ++ payload)) (ofString "Payload") = fieldLine
      (ofBytes header) (ofString "Payload")) :
    ∃ compression, metadata (header ++ payload) info =
      some { headerInfo (bufferText (header ++ payload)) info with
        compression := compression } := by
  simp only [Refuses, not_or, not_exists, not_and, Bool.not_eq_false] at hrefuses
  have hsupported : ¬ architectureSupported
      (headerInfo (bufferText (header ++ payload)) info).architecture.val = false := by
    rw [headerInfo_architecture, fieldOr, controlField_eq, harch, ← controlField_eq]
    cases hvalue : controlField (ofBytes header) (ofString "Architecture") 24 with
    | none => simpa using hdefault
    | some value => simpa using hrefuses.1 value hvalue
  have hmember : ∃ member, payloadMember
      (headerFormat (bufferText (header ++ payload))).val 0 0 = some member := by
    rw [headerFormat, fieldOr, controlField_eq, hformat, ← controlField_eq]
    cases hvalue : controlField (ofBytes header) (ofString "Payload") 24 with
    | none => exact ⟨_, rfl⟩
    | some value => exact ne_none_iff_exists'.1 (hrefuses.2 value hvalue)
  obtain ⟨member, hmember⟩ := hmember
  refine ⟨compressionName member, ?_⟩
  rw [metadata_of_header h hfits hne, if_neg (by simp [hmagic, hsupported]; omega), hmember]
  rfl

/-- The character of the values that distinguish two packages. -/
def letterX : CChar := ⟨0x78, by decide⟩
def letterY : CChar := ⟨0x79, by decide⟩

section Differences

variable (h : IsHeader header) (hfits : header.length ≤ controlCap - 1)
include h hfits

/-- The value that the payload gives to a field that the header does not decide. -/
lemma controlField_of_not_decides {field : CString} (hnot : ¬ Decides header field) {c : CChar}
    (hline : ∀ x ∈ shortLine field c, isLineEnd x = false) (hc : isBlank c = false) {n : Nat}
    (hn : 1 < n) :
    controlField (bufferText (header ++ (shortLine field c).bytes)) field n = some ⟨[c], hn⟩ := by
  have hgives : givesField field (shortLine field c) = true := by
    simp [givesField, startsWith, shortLine]
  have hdrop : (shortLine field c).drop (field.length + 1) = [c] := by
    rw [shortLine, List.drop_append, List.drop_of_length_le (Nat.le_succ _)]
    simp
  have hvalue : lineValue field (shortLine field c) = [c] := by
    rw [lineValue, hdrop]
    simp [List.rdropWhile, hc]
  have hnone : fieldLine (ofBytes header) field = none := by
    simp only [Decides, not_or, Bool.not_eq_true, isSome_eq_false_iff, isNone_iff_eq_none] at hnot
    exact hnot.2.1
  rw [controlField_eq, fieldLine_of_not_decides h hfits hnot hline, hnone, none_or,
    List.find?_cons_of_pos hgives, bind_some, hvalue, copyText_eq_some_iff]

variable (hmagic : startsWith (ofBytes header) (ofString "AINSTALL1\n") = true)
  (hrefuses : ¬ Refuses header) (hlength : 15 ≤ header.length) {info : PackageInfo}
  (hdefault : architectureSupported info.architecture.val = true)
include hmagic hrefuses hlength hdefault

/-- The payload makes a difference for the metadata. -/
def Differs (header : List UInt8) (info : PackageInfo) : Prop :=
  ∃ payload other : List UInt8, payload ≠ [] ∧ other ≠ [] ∧
    metadata (header ++ payload) info ≠ metadata (header ++ other) info

omit h hfits hmagic hrefuses hlength hdefault in
lemma shortLine_bytes_ne_nil (field : CString) (c : CChar) : (shortLine field c).bytes ≠ [] := by
  rw [← List.length_pos_iff, bytes_length, shortLine]
  simp

lemma metadata_differs_of_shown {field : CString} (hnot : ¬ Decides header field)
    (hline : ∀ c ∈ [letterX, letterY], (∀ x ∈ shortLine field c, isLineEnd x = false) ∧
      givesField (ofString "Architecture") (shortLine field c) = false ∧
      givesField (ofString "Payload") (shortLine field c) = false)
    {n : Nat} (hn : 1 < n) (shown : PackageInfo → CString) (view : CString → CString)
    (hview : view [letterX] ≠ view [letterY])
    (hshown : ∀ text value compression, controlField text field n = some value →
      shown { headerInfo text info with compression := compression } = view value.val) :
    Differs header info := by
  have hone : ∀ c ∈ [letterX, letterY], isBlank c = false →
      (metadata (header ++ (shortLine field c).bytes) info).map shown = some (view [c]) := by
    intro c hc hblank
    obtain ⟨hsep, harch, hpayload⟩ := hline c hc
    have hsame : ∀ other, givesField other (shortLine field c) = false →
        fieldLine (bufferText (header ++ (shortLine field c).bytes)) other =
          fieldLine (ofBytes header) other := by
      intro other hother
      rw [fieldLine_of_not_decides h hfits hnot hsep, List.find?_cons_of_neg (by simp [hother]),
        List.find?_nil, or_none]
    have hbytes := shortLine_bytes_ne_nil field c
    have hpos := List.length_pos_iff.2 hbytes
    obtain ⟨compression, hmetadata⟩ := metadata_of_accepted h hfits hmagic hrefuses hbytes
      (by omega) hdefault (hsame _ harch) (hsame _ hpayload)
    rw [hmetadata, map_some, hshown _ _ _
      (controlField_of_not_decides h hfits hnot hsep hblank hn)]
  refine ⟨_, _, shortLine_bytes_ne_nil field letterX, shortLine_bytes_ne_nil field letterY,
    fun heq => ?_⟩
  have hx := hone letterX (by simp) (by decide)
  rw [heq, hone letterY (by simp) (by decide)] at hx
  exact hview (some.inj hx).symm

omit hlength in
lemma metadata_isSome {n : Nat} (hn : 16 ≤ header.length + (n + 1)) :
    (metadata (header ++ List.replicate (n + 1) 0) info).isSome = true := by
  have hsame : ∀ field, fieldLine (bufferText (header ++ List.replicate (n + 1) 0)) field =
      fieldLine (ofBytes header) field := by
    intro field
    have hvisible : visible header (List.replicate (n + 1) 0) = [] := by
      unfold visible
      split
      · rfl
      · cases controlCap - 1 - header.length <;> simp [List.replicate_succ, ofBytes]
    rw [fieldLine_append h hfits, hvisible]
    simp [splitBy, givesField]
  obtain ⟨compression, hmetadata⟩ := metadata_of_accepted h hfits hmagic hrefuses
    (by simp) (by simpa using hn) hdefault (hsame _) (hsame _)
  rw [hmetadata]
  rfl

/-- A field that makes the package unacceptable makes a difference. -/
lemma metadata_differs_of_none {payload : List UInt8} (hne : payload ≠ [])
    (hnone : metadata (header ++ payload) info = none) : Differs header info := by
  refine ⟨payload, List.replicate 1 0, hne, by simp, fun heq => ?_⟩
  have hzeros := metadata_isSome h hfits hmagic hrefuses hdefault (n := 0) (by omega)
  rw [← heq, hnone] at hzeros
  exact absurd hzeros (by simp)

lemma metadata_differs_of_not_decides {field : String} (hfield : field ∈ headerFields)
    (hnot : ¬ Decides header (ofString field)) : Differs header info := by
  have hbytes := shortLine_bytes_ne_nil (ofString field) letterX
  have hshow := @metadata_differs_of_shown _ h hfits hmagic hrefuses hlength _ hdefault _ hnot
  simp only [headerFields, List.mem_cons, List.not_mem_nil, or_false] at hfield
  rcases hfield with rfl | rfl | rfl | rfl | rfl | rfl | rfl | rfl | rfl | rfl
  · refine hshow (by decide +kernel) (n := idCap) (by decide) (fun i => i.id.val)
      (fun s => (idFromText s).val) (by decide +kernel) fun _ _ _ hvalue => ?_
    simp [headerInfo, commonFields, hvalue]
  · refine hshow (by decide +kernel) (n := 64) (by decide) (fun i => i.name.val) id (by decide)
      fun _ _ _ hvalue => ?_
    simp [headerInfo, commonFields, fieldOr, hvalue]
  · refine hshow (by decide +kernel) (n := 32) (by decide) (fun i => i.version.val) id (by decide)
      fun _ _ _ hvalue => ?_
    simp [headerInfo, commonFields, fieldOr, hvalue]
  · -- No architecture has the name `x`.
    refine metadata_differs_of_none h hfits hmagic hrefuses hlength hdefault hbytes ?_
    have hunsupported : architectureSupported [letterX] = false := by decide +kernel
    rw [metadata_of_header h hfits hbytes, headerInfo_architecture, fieldOr,
      controlField_of_not_decides h hfits hnot (by decide +kernel) (by decide) (by decide)]
    exact if_pos (.inr (.inr hunsupported))
  · refine hshow (by decide +kernel) (n := 160) (by decide) (fun i => i.description.val) id
      (by decide) fun _ _ _ hvalue => ?_
    simp [headerInfo, commonFields, fieldOr, hvalue]
  · refine hshow (by decide +kernel) (n := 1024) (by decide) (fun i => i.depends.val) id (by decide)
      fun _ _ _ hvalue => ?_
    simp [headerInfo, commonFields, fieldOr, hvalue]
  · refine hshow (by decide +kernel) (n := 1024) (by decide) (fun i => i.preDepends.val) id
      (by decide) fun _ _ _ hvalue => ?_
    simp [headerInfo, commonFields, fieldOr, hvalue]
  · refine hshow (by decide +kernel) (n := 256) (by decide) (fun i => i.provides.val) id (by decide)
      fun _ _ _ hvalue => ?_
    simp [headerInfo, commonFields, fieldOr, hvalue]
  · refine hshow (by decide +kernel) (n := pathCap) (by decide) (fun i => i.entryHint.val) id
      (by decide) fun _ _ _ hvalue => ?_
    simp [headerInfo, commonFields, fieldOr, hvalue]
  · -- No payload has the format `x`.
    refine metadata_differs_of_none h hfits hmagic hrefuses hlength hdefault hbytes ?_
    have hformat : (headerFormat (bufferText (header ++
        (shortLine (ofString "Payload") letterX).bytes))).val = [letterX] := by
      rw [headerFormat, fieldOr,
        controlField_of_not_decides h hfits hnot (by decide +kernel) (by decide) (by decide)]
      rfl
    have hnone : payloadMember [letterX] 0 0 = none := by decide +kernel
    rw [metadata_of_header h hfits hbytes, hformat, hnone]
    simp

end Differences

/-- `inspect_ainstall` gives the same for two packages with a header, whatever their payloads are,
exactly if the header settles the metadata. -/
theorem metadata_from_header_iff (header : List UInt8) (h : IsHeader header) :
    (∀ (host : Host) (sourcePath : CString) (w : World) (payload other : List UInt8),
      payload ≠ [] → other ≠ [] →
      ((inspectAinstall host sourcePath false).exec (w.put sourcePath (header ++ payload))).1 =
        ((inspectAinstall host sourcePath false).exec (w.put sourcePath (header ++ other))).1) ↔
    Settles header := by
  constructor
  · intro hsame
    by_contra hnot
    -- The packages are read by a host that grants every call.
    have hequal : ∀ payload other : List UInt8, payload ≠ [] → other ≠ [] →
        metadata (header ++ payload) (packageDefaults Host.obliging .ainstall demoSource) =
          metadata (header ++ other) (packageDefaults Host.obliging .ainstall demoSource) := by
      intro payload other hpayload hother
      have hboth := hsame Host.obliging demoSource (worldWith []) payload other hpayload hother
      rw [inspectAinstall_exec, inspectAinstall_exec, if_pos ⟨rfl, rfl⟩, if_pos ⟨rfl, rfl⟩] at hboth
      exact map_injective (fun a b hab => congrArg Prod.fst hab) hboth
    simp only [Settles, not_or, not_lt, Bool.not_eq_false] at hnot
    obtain ⟨hfits, hmagic, hrefuses, hrest⟩ := hnot
    have hdefault : architectureSupported
        (packageDefaults Host.obliging .ainstall demoSource).architecture.val = true := by
      decide +kernel
    rcases lt_or_ge header.length 15 with hshort | hlength
    · -- One byte is too few for a package, and sixteen are enough.
      have hzeros := metadata_isSome h hfits hmagic hrefuses hdefault (n := 15) (by omega)
      rw [hequal _ [0] (by simp) (by simp), metadata_of_header h hfits (by simp),
        if_pos (.inl (by rw [List.length_singleton]; omega))] at hzeros
      exact absurd hzeros (by simp)
    have hundecided : ∃ field ∈ headerFields, ¬ Decides header (ofString field) := by
      by_contra hall
      simp only [not_exists, not_and, not_not] at hall
      exact hrest ⟨hlength, hall⟩
    obtain ⟨field, hfield, hundecided⟩ := hundecided
    obtain ⟨payload, other, hpayload, hother, hne⟩ :=
      metadata_differs_of_not_decides h hfits hmagic hrefuses hlength hdefault hfield hundecided
    exact hne (hequal payload other hpayload hother)
  · intro hsettles host sourcePath w payload other hpayload hother
    rw [inspectAinstall_exec, inspectAinstall_exec, hsettles.metadata_eq h hpayload hother]

end Condition

def fullHeader : List UInt8 :=
  (ofString ("AINSTALL1\nPackage: a\nName: a\nVersion: 1\nArchitecture: all\n" ++
    "Description: a\nDepends: b\nPre-Depends: b\nProvides: c\nEntry: a\nPayload: tar\n\n")).bytes

theorem metadata_from_header_full :
    ((inspectAinstall Host.obliging demoSource false).exec
        ((worldWith []).put demoSource (fullHeader ++ [1]))).1 =
      ((inspectAinstall Host.obliging demoSource false).exec
        ((worldWith []).put demoSource (fullHeader ++ (ofString "Depends: evil").bytes))).1 := by
  have hheader : IsHeader fullHeader := by
    unfold IsHeader
    decide +kernel
  have hdecides : ∀ field ∈ headerFields,
      (fieldLine (ofBytes fullHeader) (ofString field)).isSome = true := by
    decide +kernel
  exact (metadata_from_header_iff fullHeader hheader).2
    (.inr (.inr (.inr ⟨by decide +kernel, fun field hfield =>
      .inr (.inl (hdecides field hfield))⟩)))
    Host.obliging demoSource (worldWith []) _ _ (by simp) (by decide +kernel)

def shortHeader : List UInt8 := (ofString "AINSTALL1\nPackage: demo\n\n").bytes

/-- Two packages with the same header, and different dependencies. -/
theorem depends_from_payload : IsHeader shortHeader ∧
    (((inspectAinstall Host.obliging demoSource false).exec
        ((worldWith []).put demoSource (shortHeader ++ [0x78]))).1.map fun r => r.1.depends.val) =
      some [] ∧
    (((inspectAinstall Host.obliging demoSource false).exec
        ((worldWith []).put demoSource (shortHeader ++
          (ofString "Depends: evil").bytes))).1.map fun r => r.1.depends.val) =
      some (ofString "evil") := by
  refine ⟨?_, ?_, ?_⟩
  · unfold IsHeader
    decide +kernel
  · decide +kernel
  · decide +kernel

end AosKernel.Uni
