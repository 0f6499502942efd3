import AosKernel.Uni.Names

/-!
# Archive names are honoured

The streaming reader is compared with the entries of the whole archive: `Stream.upcoming` gives the
entries that are still to be read from a state of the reader and the bytes that follow, and a round
of the reader either leaves them as they are or extracts the first of them (`ends_feedLoop_names`).
With the result for payloads in memory this gives `names_honoured`. A record that is not readable is
dropped without an error (`overlong_path_dropped`).
-/

namespace AosKernel.Uni

open Lib Lib.Paths Lib.Fallible Uni.Stream TarEntry Logged List

/-! ## Streams -/

/-- The entries that are still to be read, in full or in part, from the bytes that follow. -/
def Stream.upcoming (s : Stream) (rest : List UInt8) : List TarEntry :=
  match s.phase with
  | .header => if s.zeroBlocks = 0 then tarEntries (s.header ++ rest) else []
  | .data =>
      let after := tarEntries (rest.drop (s.dataRemaining + s.paddingRemaining))
      if s.captureMetadata then ⟨s.header, s.metadata ++ rest.take s.dataRemaining⟩ :: after
      else after
  | .padding => tarEntries (rest.drop s.paddingRemaining)
  | .done => []

/-- The items that are still to be extracted; a file whose data is being read has been created. -/
def Stream.items (s : Stream) (rest : List UInt8) : List Item :=
  itemsOf (s.upcoming rest) (givenOf s.pendingName)

/-- What holds between two rounds of the reader. -/
structure Stream.Reading (s : Stream) : Prop where
  fresh : s.phase = .data ∨ s.phase = .padding → s.zeroBlocks = 0
  type : s.phase = .data → s.entryType = headerType s.header
  record : s.phase = .data → s.captureMetadata = isRecordType s.entryType
  short : s.phase = .header → s.header.length < 512

/-- The reader has come from some items to the ones that are left, with a readable rest. -/
structure Comes (base : List CString) (rest : List UInt8) (w : World) (before : List Item)
    (s : Stream) (t : World) : Prop where
  goes : Goes base w before (s.items rest) t
  reading : s.Reading
  readable : NamesReadable (s.upcoming rest)
  base : s.info.base = base

section Streams

variable {host : Host} {base : List CString} {w t u : World} {before : List Item} {s s' : Stream}
  {rest : List UInt8}

lemma Comes.stops (h : Comes base rest w before s t) : Stops base w before t := ⟨_, h.goes⟩

/-- A step of the reader without a recorded call that leaves the same entries. -/
theorem Comes.step {rest' : List UInt8} (h : Comes base rest w before s t)
    (hup : s'.upcoming rest' = s.upcoming rest) (hpending : s'.pendingName = s.pendingName)
    (hreading : s'.Reading) (hbase : s'.info.base = s.info.base) (hcalls : u.calls = t.calls) :
    Comes base rest' w before s' u := by
  have hitems : s'.items rest' = s.items rest := by
    rw [items, hup, hpending, items]
  refine ⟨?_, hreading, by rw [hup]; exact h.readable, hbase.trans h.base⟩
  rw [hitems]
  exact h.goes.trans (Goes.same hcalls)

/-! ### The end of an entry -/

lemma upcoming_finished (hzero : s.zeroBlocks = 0) (pending : Text pathCap) :
    (s.finished pending).upcoming rest = tarEntries (rest.drop s.paddingRemaining) := by
  unfold upcoming finished
  by_cases hpadding : s.paddingRemaining = 0
  · simp [hpadding, hzero]
  · simp [hpadding]

lemma reading_finished (hzero : s.zeroBlocks = 0) (pending : Text pathCap) :
    (s.finished pending).Reading := by
  have hphase : (s.finished pending).phase ≠ .data := by
    unfold finished
    dsimp only
    split <;> simp
  refine ⟨fun _ => hzero, fun h => absurd h hphase, fun h => absurd h hphase, fun h => ?_⟩
  unfold finished at h ⊢
  dsimp only at h ⊢
  split at h
  · cases h
  · next hpadding =>
    rw [if_neg hpadding]
    simp

lemma base_finished (pending : Text pathCap) : (s.finished pending).info.base = s.info.base := by
  unfold finished
  split
  · exact (samePackage_finishFile s).base
  · rfl

lemma ends_finishEntry_names (h : Comes base rest w before s t) (hphase : s.phase = .data)
    (hdata : s.dataRemaining = 0) :
    Ends (ofOption (tarExtractFinishEntry s)) t (Comes base rest w before)
      (Stops base w before) := by
  rw [ends_ofOption]
  refine ⟨fun s' hs' => ?_, fun _ => h.stops⟩
  rw [tarExtractFinishEntry_eq] at hs'
  obtain ⟨pending, hpending, rfl⟩ := Option.map_eq_some_iff.1 hs'
  have hzero := h.reading.fresh (.inl hphase)
  have hupcoming : s.upcoming rest = if s.captureMetadata then
      ⟨s.header, s.metadata⟩ :: tarEntries (rest.drop s.paddingRemaining)
      else tarEntries (rest.drop s.paddingRemaining) := by
    unfold upcoming
    rw [hphase]
    simp [hdata]
  have hreadable := h.readable
  rw [hupcoming] at hreadable
  have hitems : (s.finished pending).items rest = s.items rest := by
    unfold items
    rw [upcoming_finished hzero, hupcoming]
    split at hpending
    · next hcapture =>
      rw [if_pos hcapture] at hreadable ⊢
      have htype : type ⟨s.header, s.metadata⟩ = s.entryType := (h.reading.type hphase).symm
      have hrecord : isRecord ⟨s.header, s.metadata⟩ = true := by
        rw [isRecord, htype, ← h.reading.record hphase, hcapture]
      have htaken : taken ⟨s.header, s.metadata⟩ = some pending := by
        rw [taken, htype]
        exact hpending
      exact (itemsOf_record hrecord hreadable htaken _).symm
    · next hcapture =>
      rw [if_neg hcapture]
      cases hpending
      rfl
  refine ⟨hitems ▸ h.goes, reading_finished hzero _, ?_, (base_finished _).trans h.base⟩
  rw [upcoming_finished hzero]
  split at hreadable
  · exact hreadable.tail
  · exact hreadable

/-! ### The start of an entry -/

lemma ends_beginFile_logged (size mode : Nat) :
    Ends (beginFile host size mode s) w
      (fun s' t => Logged (Toward s.fullPath.val) w t [s.fullPath.val] ∧ s' = { s with
        output := true
        regularFile := true
        executable := isExecutableMode mode ||
          archivePathMatchesHint s.normalized.val s.info.entryHint.val })
      fun t => MayLog (Toward s.fullPath.val) w t s.fullPath.val := by
  unfold beginFile
  split
  · exact .inl (same rfl)
  rw [ends_bind, ends_step_some, ends_ite]
  split
  · exact .inl (same rfl)
  rw [ends_bind, ends_fileExists, ends_ite]
  split
  · exact .inl (same rfl)
  rw [ends_bind, ends_directoryExists, ends_ite]
  split
  · exact .inl (same rfl)
  rw [ends_bind]
  refine ends_ensureDirectoryTree_logged.mono ?_ fun _ h => .inl h
  intro _ t htree
  rw [ends_bind]
  refine ends_call (fun _ => ?_) fun _ => ?_
  · have hmade : ∀ u : World, u.calls = ⟨.create, s.fullPath.val, true⟩ :: t.calls →
        Logged (Toward s.fullPath.val) w u [s.fullPath.val] :=
      fun u hu => htree.trans (call hu (by simp))
    rw [if_neg (by simp), ends_bind]
    refine ends_rememberCreated (fun text _ => ?_) fun _ => ?_
    · exact ⟨hmade _ rfl, rfl⟩
    · refine (ends_unlink_logged (D := Toward s.fullPath.val) (Q := fun _ _ => False)).mono
        (fun _ _ h => h.elim) fun v hv => ?_
      exact .inr ((hmade _ rfl).trans hv)
  · exact .inl (htree.trans (call (c := ⟨.create, s.fullPath.val, false⟩) rfl (by simp)))

/-- What the start of an entry with content leaves as it is. -/
structure Began (s s' : Stream) : Prop where
  header : s'.header = s.header
  dataRemaining : s'.dataRemaining = s.dataRemaining
  paddingRemaining : s'.paddingRemaining = s.paddingRemaining
  entryType : s'.entryType = s.entryType
  captureMetadata : s'.captureMetadata = s.captureMetadata
  zeroBlocks : s'.zeroBlocks = s.zeroBlocks
  pendingName : s'.pendingName = emptyText
  base : s'.info.base = s.info.base

lemma ends_beginContent_names (headerName : Text pathCap) (size mode : Nat) {a : List Item}
    {name : CString}
    (hname : (if s.pendingName.val = [] then headerName else s.pendingName).val = name) :
    Ends (beginContent host headerName size mode s) w
      (fun s' t => Goes s.info.base w (⟨name, s.entryType⟩ :: a) a t ∧ Began s s')
      fun t => Stops s.info.base w (⟨name, s.entryType⟩ :: a) t := by
  subst hname
  unfold beginContent
  generalize (if s.pendingName.val = [] then headerName else s.pendingName) = name
  dsimp only
  split
  · next hroot =>
    refine ⟨Goes.item (acceptable_of_root hroot) ?_, ⟨rfl, rfl, rfl, rfl, rfl, rfl, rfl, rfl⟩⟩
    rw [if_neg (by simp [Item.isWritten, hroot])]
    exact same rfl
  next hroot =>
  rw [ends_bind, ends_ofOption]
  refine ⟨?_, fun _ => Stops.same rfl⟩
  rintro ⟨normalized, fullPath⟩ hdestination
  have hname := acceptable_of_destination hdestination
  have hpath : fullPath.val = destination s.info.base name.val :=
    (entryDestination_eq_some.1 hdestination).2
  dsimp only
  rw [ends_ite]
  split
  · next hdirectory =>
    rw [ends_bind, hpath]
    refine ends_ensureDirectoryTree_logged.mono ?_ fun _ h => Stops.item_directory h
    refine fun _ t h => ⟨Goes.item hname ?_, ⟨rfl, rfl, rfl, rfl, rfl, rfl, rfl, rfl⟩⟩
    rw [if_neg (by
      simp [Item.isWritten, hdirectory, show isFileType directoryType = false by decide])]
    exact h
  rw [ends_ite]
  split
  · next hfile =>
    have hwritten : Item.isWritten ⟨name.val, s.entryType⟩ = true := by
      simp [Item.isWritten, hfile, hroot]
    have hbegin : Ends (beginFile host size mode { s with
        pendingName := emptyText, normalized := normalized, fullPath := fullPath }) w _ _ :=
      ends_beginFile_logged size mode
    rw [hpath] at hbegin
    refine hbegin.mono ?_ fun _ h => Stops.item hname hwritten h
    rintro s' t ⟨hlog, rfl⟩
    exact ⟨Goes.item hname (by rwa [if_pos hwritten]), ⟨rfl, rfl, rfl, rfl, rfl, rfl, rfl, rfl⟩⟩
  · next hother =>
    refine ⟨Goes.item hname ?_, ⟨rfl, rfl, rfl, rfl, rfl, rfl, rfl, rfl⟩⟩
    rw [if_neg (by simp [Item.isWritten, hother])]
    exact same rfl

lemma nextEntry_header {header : List UInt8} {size : Nat} (hlen : header.length = 512)
    (hzero : tarHeaderIsZero header = false) (hsum : tarChecksumValid header = true)
    (hsize : headerSize header = some size) (rest : List UInt8) :
    nextEntry (header ++ rest) = some (⟨header, rest.take size⟩, rest.drop (paddedSize size)) := by
  have htake : (header ++ rest).take 512 = header := by
    rw [← hlen, take_left]
  have hdrop : ∀ n, (header ++ rest).drop (512 + n) = rest.drop n := by
    intro n
    rw [← hlen, ← drop_drop, drop_left]
  rw [nextEntry_eq_some, htake]
  refine ⟨by rw [length_append]; omega, hzero, hsum, size, hsize, ?_, (hdrop _).symm⟩
  rw [show (header ++ rest).drop 512 = rest from hdrop 0]

lemma size_add_padding (size : Nat) : size + (512 - size % 512) % 512 = paddedSize size := by
  unfold paddedSize
  omega

lemma ends_tarExtractBeginEntry_names (hphase : s.phase = .header) (hlen : s.header.length = 512)
    (hgoes : Goes base w before (s.items rest) t) (hreadable : NamesReadable (s.upcoming rest))
    (hbase : s.info.base = base) :
    Ends (tarExtractBeginEntry host s) t (Comes base rest w before)
      (Stops base w before) := by
  have hstops : Stops base w before t := ⟨_, hgoes⟩
  unfold tarExtractBeginEntry
  split
  · next hzero =>
    -- Nothing comes after a block of zeros, and nothing was expected here.
    have hnone : s.upcoming rest = [] := by
      unfold upcoming
      rw [hphase]
      dsimp only
      split
      · refine tarEntries_of_none ?_
        rw [nextEntry, ← hlen, take_left, if_pos (.inr (.inl hzero))]
      · rfl
    have hnone' : upcoming { s with
        zeroBlocks := s.zeroBlocks + 1
        header := []
        phase := if s.zeroBlocks + 1 ≥ 2 then .done else s.phase } rest = [] := by
      unfold upcoming
      rw [hphase]
      by_cases htwo : s.zeroBlocks + 1 ≥ 2
      · simp [htwo]
      · simp [htwo]
    refine ⟨?_, ⟨?_, ?_, ?_, fun _ => by simp⟩, hnone' ▸ List.IsChain.nil, hbase⟩
    · rw [items, hnone', ← hnone]
      unfold items at hgoes
      exact hgoes
    all_goals
      rw [hphase]
      split <;> simp
  split
  · exact hstops
  next hzero hvalid =>
  rw [not_or, not_not, Bool.not_eq_false] at hvalid
  obtain ⟨hblocks, hsum⟩ := hvalid
  rw [ends_bind, ends_ofOption]
  refine ⟨fun headerName hheaderName => ?_, fun _ => hstops⟩
  rw [ends_bind, ends_ofOption]
  refine ⟨fun mode _ => ?_, fun _ => hstops⟩
  rw [ends_bind, ends_ofOption]
  refine ⟨fun size hsize => ?_, fun _ => hstops⟩
  have hnext := nextEntry_header hlen (by simpa using hzero) hsum hsize rest
  have hupcoming : s.upcoming rest =
      ⟨s.header, rest.take size⟩ :: tarEntries (rest.drop (paddedSize size)) := by
    unfold upcoming
    rw [hphase]
    rw [if_pos hblocks, tarEntries_of_some hnext]
  rw [hupcoming] at hreadable
  unfold items at hgoes
  rw [hupcoming] at hgoes
  -- Both kinds of entries end with the same step.
  have hlast : ∀ (s' : Stream) u, Comes base rest w before { s' with phase := .data } u →
      Ends (if s'.dataRemaining = 0 then ofOption (tarExtractFinishEntry { s' with phase := .data })
        else pure { s' with phase := .data }) u (Comes base rest w before)
        (Stops base w before) := by
    intro s' u h
    split
    · next hdata => exact ends_finishEntry_names h rfl hdata
    · exact h
  dsimp only
  split
  · next hcapture =>
    split
    · exact hstops
    refine hlast _ t ⟨?_, ⟨fun _ => hblocks, fun _ => rfl, fun _ => rfl, fun h => by cases h⟩, ?_,
      hbase⟩
    · simpa [items, upcoming, hcapture, size_add_padding] using hgoes
    · simpa [upcoming, hcapture, size_add_padding] using hreadable
  · next hcapture =>
    have hcontent : isRecord ⟨s.header, rest.take size⟩ = false := by
      simpa [isRecord, type, isRecordType] using hcapture
    rw [itemsOf_content hcontent, ← chosenName hheaderName] at hgoes
    rw [ends_bind]
    refine Ends.mono (ends_beginContent_names headerName size mode rfl) ?_
      fun u h => Stops.of_goes hgoes (hbase ▸ h)
    rintro s' u ⟨hitem, hbegan⟩
    have hup : upcoming { s' with phase := .data } rest =
        tarEntries (rest.drop (paddedSize size)) := by
      have hcapture' : s'.captureMetadata = false :=
        hbegan.captureMetadata.trans (by simpa using hcapture)
      unfold upcoming
      simp only [hcapture', hbegan.dataRemaining, hbegan.paddingRemaining, size_add_padding]
      simp
    refine hlast s' u ⟨?_, ⟨fun _ => hbegan.zeroBlocks.trans hblocks, fun _ => ?_, fun _ => ?_,
      fun h => by cases h⟩, ?_, hbegan.base.trans hbase⟩
    · rw [items, hup, show givenOf s'.pendingName = none by rw [hbegan.pendingName]; rfl]
      exact hgoes.trans (hbase ▸ hitem)
    · exact hbegan.entryType.trans (congrArg headerType hbegan.header.symm)
    · exact hbegan.captureMetadata.trans (by rw [hbegan.entryType]; rfl)
    · rw [hup]
      exact hreadable.tail

/-! ### Pieces -/

lemma upcoming_header (hphase : s.phase = .header) (front : List UInt8) :
    upcoming { s with header := s.header ++ front } rest = s.upcoming (front ++ rest) := by
  unfold upcoming
  simp only [hphase, append_assoc]

lemma upcoming_data (hphase : s.phase = .data) {front : List UInt8}
    (hfront : front.length ≤ s.dataRemaining) :
    upcoming { s with
      metadata := if s.captureMetadata then s.metadata ++ front else s.metadata
      dataRemaining := s.dataRemaining - front.length } rest = s.upcoming (front ++ rest) := by
  unfold upcoming
  have htake : (front ++ rest).take s.dataRemaining =
      front ++ rest.take (s.dataRemaining - front.length) := by
    rw [take_append, take_of_length_le hfront]
  have hdrop : (front ++ rest).drop (s.dataRemaining + s.paddingRemaining) =
      rest.drop (s.dataRemaining - front.length + s.paddingRemaining) := by
    rw [drop_append, drop_of_length_le (by omega), nil_append, Nat.sub_add_comm hfront]
  split <;> simp_all

lemma upcoming_padding (hphase : s.phase = .padding) {front : List UInt8}
    (hfront : front.length ≤ s.paddingRemaining) :
    upcoming { s with paddingRemaining := s.paddingRemaining - front.length } rest =
      s.upcoming (front ++ rest) := by
  unfold upcoming
  have hdrop : (front ++ rest).drop s.paddingRemaining =
      rest.drop (s.paddingRemaining - front.length) := by
    rw [drop_append, drop_of_length_le (by omega), nil_append]
  simp only [hphase, hdrop]

/-- The loop of `tar_extract_feed`, with the bytes `later` that other pieces bring. -/
theorem ends_feedLoop_names (fuel : Nat) (input : List UInt8) {later : List UInt8}
    (h : Comes base (input ++ later) w before s t) :
    Ends (feedLoop host fuel input s) t (Comes base later w before)
      (Stops base w before) := by
  induction fuel generalizing input s t with
  | zero =>
    cases input with
    | nil => exact h
    | cons b data => exact h.stops
  | succ fuel ih =>
    cases input with
    | nil => exact h
    | cons b data =>
    unfold feedLoop
    dsimp only
    generalize b :: data = input at h ⊢
    -- What a round takes is in front of what is left.
    have hsplit : ∀ n, input ++ later = input.take n ++ (input.drop n ++ later) := by
      intro n
      rw [← append_assoc, take_append_drop]
    split
    · next hphase =>
      rw [ends_ite]
      split
      · refine h.step ?_ rfl h.reading rfl rfl
        unfold upcoming
        simp only [hphase]
      · exact h.stops
    · next hphase =>
      have hshort := h.reading.short hphase
      have hle : min (512 - s.header.length) input.length ≤ 512 - s.header.length := min_le_left _ _
      have hlength := length_take_le (min (512 - s.header.length) input.length) input
      generalize min (512 - s.header.length) input.length = n at hle hlength ⊢
      have hup : upcoming { s with header := s.header ++ input.take n }
          (input.drop n ++ later) = s.upcoming (input ++ later) := by
        rw [upcoming_header hphase, ← hsplit]
      rw [ends_ite]
      split
      · next hfull =>
        rw [ends_bind]
        refine Ends.mono (ends_tarExtractBeginEntry_names hphase hfull ?_ ?_ h.base)
          (fun s' u hu => ih _ hu) fun _ hu => hu
        · rw [items, hup]
          exact h.goes
        · rw [hup]
          exact h.readable
      · next hfull =>
        refine ih _ (h.step hup rfl ⟨h.reading.fresh, ?_, ?_, fun _ => ?_⟩ rfl rfl)
        · exact fun hdata => absurd (hphase.symm.trans hdata) (by simp)
        · exact fun hdata => absurd (hphase.symm.trans hdata) (by simp)
        · simp only [length_append] at hfull ⊢
          omega
    · next hphase =>
      have hle : (input.take (min s.dataRemaining input.length)).length ≤ s.dataRemaining := by
        rw [length_take]
        omega
      have hlength : (input.take (min s.dataRemaining input.length)).length =
          min s.dataRemaining input.length := by
        rw [length_take]
        omega
      generalize min s.dataRemaining input.length = n at hle hlength ⊢
      have hup : _ = s.upcoming (_ ++ (input.drop n ++ later)) := upcoming_data hphase hle
      rw [← hsplit, hlength] at hup
      -- The round ends with the step that may finish the entry.
      have hlast : ∀ (s' : Stream) (u : World), s'.phase = .data →
          Comes base (input.drop n ++ later) w before
            { s' with dataRemaining := s'.dataRemaining - n } u →
          Ends (do
            let s'' ← if s'.dataRemaining - n = 0 then
                ofOption (tarExtractFinishEntry { s' with dataRemaining := s'.dataRemaining - n })
              else pure { s' with dataRemaining := s'.dataRemaining - n }
            feedLoop host fuel (input.drop n) s'') u
            (Comes base later w before) (Stops base w before) := by
        intro s' u hphase' hu
        dsimp only
        rw [ends_ite]
        split
        · next hzero =>
          rw [ends_bind]
          exact Ends.mono (ends_finishEntry_names hu hphase' hzero) (fun s'' v hv => ih _ hv)
            fun _ hv => hv
        · exact ih _ hu
      have hreading : ∀ metadata elfProbe, Stream.Reading { s with
          metadata := metadata, elfProbe := elfProbe, dataRemaining := s.dataRemaining - n } :=
        fun _ _ => ⟨h.reading.fresh, h.reading.type, h.reading.record, h.reading.short⟩
      rw [ends_ite]
      split
      · next hcapture =>
        rw [if_pos hcapture] at hup
        exact hlast _ t hphase (h.step hup rfl (hreading _ _) rfl rfl)
      next hcapture =>
      rw [if_neg hcapture] at hup
      rw [ends_ite]
      split
      · rw [ends_bind]
        unfold tarExtractWriteFile
        rw [ends_bind]
        refine Ends.mono (ends_writeLoop_calls (E := fun _ => False)) ?_ fun _ hu => hu.elim
        intro written u hcalls
        rw [ends_pure]
        dsimp only
        rw [ends_ite]
        split
        · exact hlast _ u hphase (h.step hup rfl (hreading _ _) rfl hcalls)
        · exact ⟨_, h.goes.trans (Goes.same hcalls)⟩
      · exact hlast _ t hphase (h.step hup rfl (hreading _ _) rfl rfl)
    · next hphase =>
      have hle : (input.take (min s.paddingRemaining input.length)).length ≤
          s.paddingRemaining := by
        rw [length_take]
        omega
      have hlength : (input.take (min s.paddingRemaining input.length)).length =
          min s.paddingRemaining input.length := by
        rw [length_take]
        omega
      generalize min s.paddingRemaining input.length = n at hle hlength ⊢
      have hup : _ = s.upcoming (_ ++ (input.drop n ++ later)) := upcoming_padding hphase hle
      rw [← hsplit, hlength] at hup
      have hzero := h.reading.fresh (Or.inr hphase)
      refine ih _ (h.step ?_ ?_ ?_ ?_ rfl)
      · rw [← hup]
        split
        · next hdone =>
          unfold upcoming
          simp [hphase, hdone, hzero]
        · rfl
      · split <;> rfl
      · split
        · refine ⟨fun _ => hzero, fun hdata => ?_, fun hdata => ?_, fun _ => by simp⟩
          · cases hdata
          · cases hdata
        · exact ⟨h.reading.fresh, h.reading.type, h.reading.record, h.reading.short⟩
      · split <;> rfl

lemma ends_feedAll_names (pieces : List (List UInt8))
    (h : Comes base pieces.flatten w before s t) :
    Ends (feedAll host pieces s) t (Comes base [] w before) (Stops base w before) := by
  induction pieces generalizing s t with
  | nil => exact h
  | cons piece pieces ih =>
    rw [feedAll, ends_bind]
    exact Ends.mono (ends_feedLoop_names _ piece h) (fun s' u hu => ih hu) fun _ hu => hu

lemma ends_plainLoop_names (sourcePath : CString) (pieces : List (List UInt8))
    (h : Comes base pieces.flatten w before s t) :
    Ends (plainLoop host sourcePath pieces s) t (Comes base [] w before)
      (Stops base w before) := by
  induction pieces generalizing s t with
  | nil => exact h
  | cons piece pieces ih =>
    rw [plainLoop, ends_bind]
    refine (asks_readExact sourcePath t).mono ?_ ?_
    · rintro _ _ ⟨n, rfl⟩
      rw [ends_bind]
      have hread : Comes base (piece ++ pieces.flatten) w before s { t with time := n } :=
        h.step rfl rfl h.reading rfl rfl
      exact Ends.mono (ends_feedLoop_names _ piece hread) (fun s' u hu => ih hu) fun _ hu => hu
    · rintro _ ⟨n, rfl⟩
      exact ⟨_, h.goes.trans (Goes.same rfl)⟩

lemma comes_init {info : PackageInfo} {tar : List UInt8}
    (hreadable : NamesReadable (tarEntries tar)) :
    Comes info.base tar w (itemsOf (tarEntries tar) none) (tarExtractInit info) w := by
  have hphase : (tarExtractInit info).phase ≠ .data := by simp [tarExtractInit]
  refine ⟨Goes.same rfl, ⟨fun _ => rfl, fun h => absurd h hphase, fun h => absurd h hphase,
    fun _ => ?_⟩, hreadable, rfl⟩
  simp [tarExtractInit]

lemma items_of_complete (h : tarExtractComplete s = true) : s.items [] = [] := by
  unfold tarExtractComplete at h
  simp only [Bool.not_eq_true', Bool.or_eq_false_iff, bne_eq_false_iff_eq, beq_eq_false_iff_ne] at h
  obtain ⟨⟨⟨⟨-, hdata⟩, hpadding⟩, -⟩, hblocks⟩ := h
  unfold items upcoming
  cases hphase : s.phase with
  | header =>
    dsimp only
    rw [if_neg hblocks]
    rfl
  | data => exact absurd hphase hdata
  | padding => exact absurd hphase hpadding
  | done => rfl

lemma readPieces_flatten {fuel : Nat} {data : List UInt8} (h : data.length ≤ fuel) :
    (readPieces fuel data).flatten = data := by
  induction fuel generalizing data with
  | zero => rw [length_eq_zero_iff.1 (Nat.le_zero.1 h), readPieces, flatten_nil]
  | succ fuel ih =>
    cases data with
    | nil => rfl
    | cons =>
      rw [readPieces, flatten_cons, ih, take_append_drop]
      rw [length_drop, streamBufferSize]
      omega

end Streams

/-! ## The result -/

/-- Names are honoured or rejected: the files that a command creates are, in order, the files of the
archive under their effective names, up to some entry and with a success up to the end; their names
are acceptable; and directories are only made on the way to entries of the archive. -/
def HonoursNames {α : Type} (x : Command α) (w : World) (base : List CString)
    (tar : List UInt8) : Prop :=
  (∃ used more, itemsOf (tarEntries tar) none = used ++ more ∧
    ((x.exec w).1.isSome = true → more = []) ∧ (∀ i ∈ used, Acceptable i.name) ∧
    createdPaths (callsDuring x w) = fileDestinations base used) ∧
  ∀ c ∈ callsDuring x w, c.request = .mkdir → c.done = true →
    TowardAny base (itemsOf (tarEntries tar) none) c.path

lemma honoursNames_of_ends {α : Type} {x : Command α} {w : World} {base : List CString}
    {tar : List UInt8} (h : Ends x w (fun _ t => Goes base w (itemsOf (tarEntries tar) none) [] t)
      fun t => Stops base w (itemsOf (tarEntries tar) none) t) : HonoursNames x w base tar := by
  have hcalls : ∀ {t new}, (x.exec w).2 = t → t.calls = new ++ w.calls → callsDuring x w = new := by
    intro t new ht hnew
    rw [callsDuring, ht, hnew, length_append, Nat.add_sub_cancel, take_left]
  unfold HonoursNames
  rcases hx : x.exec w with ⟨_ | a, t⟩
  · obtain ⟨after, used, hitems, hused, new, hnew, hpaths, hdirs⟩ := h.of_exec_none hx
    rw [hcalls (congrArg Prod.snd hx) hnew]
    exact ⟨⟨used, after, hitems, fun h => absurd h (by simp), hused, hpaths⟩, hdirs⟩
  · obtain ⟨used, hitems, hused, new, hnew, hpaths, hdirs⟩ := h.of_exec_some hx
    rw [hcalls (congrArg Prod.snd hx) hnew]
    exact ⟨⟨used, [], hitems, fun _ => rfl, hused, hpaths⟩, hdirs⟩

/-- Archive names are honoured or rejected by both readers, whatever the host answers and however
the archive is cut into pieces, if the records of the archive are readable. -/
theorem names_honoured (host : Host) (info : PackageInfo) (tar : List UInt8)
    (hreadable : NamesReadable (tarEntries tar)) (w : World) :
    HonoursNames (extractDataTar host tar info) w info.base tar ∧
    (∀ sourcePath file member, memberBytes file member = tar →
      HonoursNames (extractPlainMemberStream host sourcePath file member info) w info.base tar) ∧
    ∀ sourcePath file member, (host.xzStream (memberBytes file member)).1.flatten = tar →
      HonoursNames (extractXzMemberStream host sourcePath file member info) w info.base tar := by
  refine ⟨honoursNames_of_ends (ends_extractLoop_names _ emptyText hreadable),
    fun sourcePath file member htar => honoursNames_of_ends ?_,
    fun sourcePath file member htar => honoursNames_of_ends ?_⟩
  · unfold extractPlainMemberStream
    rw [ends_bind]
    refine (asks_readExact sourcePath w).mono ?_ ?_
    · rintro _ _ ⟨n, rfl⟩
      have hstart : Comes info.base (readPieces tar.length tar).flatten w
          (itemsOf (tarEntries tar) none) (tarExtractInit info) { w with time := n } := by
        rw [readPieces_flatten le_rfl]
        exact (comes_init hreadable).step rfl rfl (comes_init (w := w) hreadable).reading rfl rfl
      rw [htar, ends_bind]
      refine Ends.mono (ends_plainLoop_names sourcePath _ hstart) ?_ fun _ h => h
      intro s t h
      rw [ends_ite]
      split
      · next hcomplete => exact items_of_complete hcomplete ▸ h.goes
      · exact h.stops
    · rintro _ ⟨n, rfl⟩
      exact Stops.same rfl
  · unfold extractXzMemberStream
    rw [ends_bind]
    refine (asks_readExact sourcePath w).mono ?_ ?_
    · rintro _ _ ⟨n, rfl⟩
      dsimp only
      have hstart : Comes info.base (host.xzStream (memberBytes file member)).1.flatten w
          (itemsOf (tarEntries tar) none) (tarExtractInit info) { w with time := n } := by
        rw [htar]
        exact (comes_init hreadable).step rfl rfl (comes_init (w := w) hreadable).reading rfl rfl
      rw [ends_bind]
      refine Ends.mono (ends_feedAll_names _ hstart) ?_ fun _ h => h
      intro s t h
      rw [ends_ite]
      split
      · next hcomplete => exact items_of_complete hcomplete.2 ▸ h.goes
      · exact h.stops
    · rintro _ ⟨n, rfl⟩
      exact Stops.same rfl

/-! An archive with a pax record for a path that fits, and one with a path that does not. -/

/-- A pax record with a path of some length, for lengths with three digits in their record. -/
def paxRecord (length : Nat) : List UInt8 :=
  digitBytes 10 3 (length + 10) ++ [0x20] ++ pathKey ++ List.replicate length 0x61 ++ [0x0a]

def paxName (length : Nat) : CString := CString.ofBytes (List.replicate length 0x61)

/-- A file under a path of some length, with `x` as the name in its header. -/
def paxArchive (length : Nat) : List UInt8 :=
  makeEntry "pax" paxType (paxRecord length) ++ makeEntry "x" 0x30 [1] ++ endOfArchive

def wholeMember (file : List UInt8) : ArMember where
  offset := 0
  size := file.length
  name := emptyText

/-- A package as it is before its control file has been read. -/
def debInfo : PackageInfo := packageDefaults Host.obliging .deb demoSource

def emptyWorld : World where
  files := fun _ => none
  created := []
  time := 0
  calls := []

lemma memberBytes_wholeMember (file : List UInt8) : memberBytes file (wholeMember file) = file := by
  simp [memberBytes, wholeMember]

lemma namesReadable_paxArchive : NamesReadable (tarEntries (paxArchive 100)) := by
  have hshape : (tarEntries (paxArchive 100)).map (fun e => (e.isRecord, e.type, paxValue e.data)) =
      [(true, paxType, some (replicate 100 0x61)), (false, 0x30, none)] := by
    decide +kernel
  generalize tarEntries (paxArchive 100) = entries at hshape
  obtain ⟨record, rest, rfl, hrecord, hrest⟩ := map_eq_cons_iff.1 hshape
  obtain ⟨file, rest, rfl, -, hnil⟩ := map_eq_cons_iff.1 hrest
  obtain rfl := map_eq_nil_iff.1 hnil
  simp only [Prod.mk.injEq] at hrecord
  obtain ⟨-, htype, hvalue⟩ := hrecord
  refine isChain_cons_cons.2 ⟨fun _ _ => ?_, isChain_singleton _⟩
  rw [TarEntry.Readable, htype, if_neg (by decide), hvalue]
  intro value hsome
  cases hsome
  decide

theorem names_honoured_pax :
    itemsOf (tarEntries (paxArchive 100)) none = [⟨paxName 100, 0x30⟩] ∧
    HonoursNames (extractDataTar Host.obliging (paxArchive 100) debInfo) emptyWorld
      debInfo.base (paxArchive 100) ∧
    HonoursNames (extractPlainMemberStream Host.obliging demoSource (paxArchive 100)
      (wholeMember (paxArchive 100)) debInfo) emptyWorld debInfo.base
      (paxArchive 100) := by
  obtain ⟨hmemory, hplain, -⟩ := names_honoured Host.obliging debInfo (paxArchive 100)
    namesReadable_paxArchive emptyWorld
  exact ⟨by decide +kernel, hmemory, hplain _ _ _ (memberBytes_wholeMember _)⟩

/-- A path of 200 characters does not fit: both readers drop it, and the file is written as `x`. -/
theorem overlong_path_dropped :
    itemsOf (tarEntries (paxArchive 200)) none = [⟨paxName 200, 0x30⟩] ∧
    createdPaths (callsDuring (extractDataTar Host.obliging (paxArchive 200) debInfo)
      emptyWorld) = [CString.ofString "/x"] ∧
    createdPaths (callsDuring (extractPlainMemberStream Host.obliging demoSource (paxArchive 200)
      (wholeMember (paxArchive 200)) debInfo) emptyWorld) = [CString.ofString "/x"] ∧
    ¬ HonoursNames (extractDataTar Host.obliging (paxArchive 200) debInfo) emptyWorld
      debInfo.base (paxArchive 200) ∧
    ¬ HonoursNames (extractPlainMemberStream Host.obliging demoSource (paxArchive 200)
      (wholeMember (paxArchive 200)) debInfo) emptyWorld debInfo.base
      (paxArchive 200) := by
  have hitems : itemsOf (tarEntries (paxArchive 200)) none = [⟨paxName 200, 0x30⟩] := by
    decide +kernel
  -- A success would need every name to be acceptable, but the name does not fit.
  have hnot : ∀ {x : Command PackageInfo}, (x.exec emptyWorld).1.isSome = true →
      ¬ HonoursNames x emptyWorld debInfo.base (paxArchive 200) := by
    rintro x hsome ⟨⟨used, more, hsplit, hmore, hused, -⟩, -⟩
    rw [hmore hsome, append_nil, hitems] at hsplit
    have hname := hused ⟨paxName 200, 0x30⟩ (by rw [← hsplit]; exact mem_cons_self)
    exact absurd hname.2.2 (by decide +kernel)
  have hmemory : ((extractDataTar Host.obliging (paxArchive 200) debInfo).exec
        emptyWorld).1.isSome = true ∧
      createdPaths (callsDuring (extractDataTar Host.obliging (paxArchive 200) debInfo)
        emptyWorld) = [CString.ofString "/x"] := by
    decide +kernel
  have hplain : ((extractPlainMemberStream Host.obliging demoSource (paxArchive 200)
        (wholeMember (paxArchive 200)) debInfo).exec emptyWorld).1.isSome = true ∧
      createdPaths (callsDuring (extractPlainMemberStream Host.obliging demoSource (paxArchive 200)
        (wholeMember (paxArchive 200)) debInfo) emptyWorld) = [CString.ofString "/x"] := by
    decide +kernel
  exact ⟨hitems, hmemory.2, hplain.2, hnot hmemory.1, hnot hplain.1⟩

end AosKernel.Uni
