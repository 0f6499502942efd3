import AosKernel.Lib.ByteStore
import Mathlib.Data.List.DropRight

/-!
# The page map of the ELF loader

`find_page`, `record_page`, `translate_va`, `read_va` and `write_u64_va` of `kernel/elf64_loader.c`.
The loader keeps the pages it has mapped in an array sorted by address. `Recorded.page_map` says
that the array stands for the map of the recorded pages, and that accesses go through that map.
-/

namespace AosKernel.Loader

open Function Lib.ByteStore List

/-- `struct mapped_page`; `phys` points to a frame, so it is not `NULL`. -/
structure MappedPage where
  va : UInt64
  phys : Nat
  flags : UInt64
  phys_ne : phys ≠ 0

/-- The entries of `pages` below `page_count`. -/
abbrev Pages := List MappedPage

abbrev PageMap := UInt64 → Option MappedPage

def maxLoaderPages : Nat := 131072

def alignDown4k (value : UInt64) : UInt64 := value &&& ~~~0xFFF

/-- The loop of `find_page`, which makes the range smaller in each round. -/
def findLoop (pages : Pages) (va : UInt64) : (rounds low high : Nat) → Option MappedPage
  | 0, _, _ => none
  | rounds + 1, low, high =>
      if low < high then
        let middle := low + (high - low) / 2
        pages[middle]?.bind fun page =>
          if page.va = va then some page
          else if page.va < va then findLoop pages va rounds (middle + 1) high
          else findLoop pages va rounds low middle
      else none

variable (pages : Pages)

def findPage (va : UInt64) : Option MappedPage :=
  findLoop pages va pages.length 0 pages.length

/-- The loop of `record_page`: the entries behind the address are moved up, from the last one on.
The result is the free slot. -/
def shiftLoop (va : UInt64) : (insertAt : Nat) → Pages → Nat × Pages
  | 0, pages => (0, pages)
  | i + 1, pages =>
      match pages[i]? with
      | some p => if va < p.va then shiftLoop va i (pages.set (i + 1) p) else (i + 1, pages)
      | none => (i + 1, pages)

def recordPage (page : MappedPage) : Option Pages :=
  if pages.length ≥ maxLoaderPages then none
  else
    -- what the slot at `page_count` holds before does not matter
    let (insertAt, shifted) := shiftLoop page.va pages.length (pages ++ [page])
    some (shifted.set insertAt page)

def translateVa (va : UInt64) : Option Nat :=
  let pageVa := alignDown4k va
  (findPage pages pageVa).map fun page => page.phys + (va - pageVa).toNat

/-- The loops of `read_va` and `write_u64_va`: `f` is done with the memory address of each byte.
They stop at the first byte without a page, and what was done before stays. -/
def accessLoop {σ : Type} (pages : Pages) (va : UInt64) (f : σ → Nat → Nat → σ) :
    List Nat → σ → Bool × σ
  | [], s => (true, s)
  | i :: rest, s =>
      match translateVa pages (va + UInt64.ofNat i) with
      | none => (false, s)
      | some a => accessLoop pages va f rest (f s i a)

def readVa (memory : Store UInt8) (va : UInt64) (n : Nat) : Bool × List UInt8 :=
  accessLoop pages va (fun out _ a => out ++ [memory a]) (range n) []

/-- Byte `i` of `raw` in `write_u64_va`. -/
def rawByte (value : UInt64) (i : Nat) : UInt8 := (value >>> UInt64.ofNat (i * 8)).toUInt8

def writeU64Va (memory : Store UInt8) (va value : UInt64) : Bool × Store UInt8 :=
  accessLoop pages va (fun memory i a => update memory a (rawByte value i)) (range 8) memory

/-! ## The recorded pages -/

/-- The pages are in the order of their addresses, and no address stands there twice. -/
def Sorted : Prop := pages.Pairwise (·.va < ·.va)

/-- The array after successful calls of `record_page`, each for an address that `find_page` did not
find, and the map of the pages they recorded. -/
inductive Recorded : Pages → PageMap → Prop
  | start : Recorded [] fun _ => none
  | record {pages pages' : Pages} {m : PageMap} {page : MappedPage} (h : Recorded pages m)
      (hnew : findPage pages page.va = none) (hcall : recordPage pages page = some pages') :
      Recorded pages' (update m page.va (some page))

structure Holds (pages : Pages) (m : PageMap) : Prop where
  sorted : Sorted pages
  mem : ∀ va page, m va = some page ↔ page.va = va ∧ page ∈ pages

/-- The byte of a recorded frame that an address stands for. -/
def frameByte (m : PageMap) (va : UInt64) : Option Nat :=
  (m (alignDown4k va)).map fun page => page.phys + (va - alignDown4k va).toNat

variable {pages : Pages} {m : PageMap} {va : UInt64} {page : MappedPage}

lemma findLoop_some {rounds low high : Nat}
    (h : findLoop pages va rounds low high = some page) : page.va = va ∧ page ∈ pages := by
  induction rounds generalizing low high with
  | zero => cases h
  | succ rounds ih =>
    rw [findLoop] at h
    split at h
    · obtain ⟨p, hp, h⟩ := Option.bind_eq_some_iff.1 h
      split at h
      · next heq =>
        cases h
        exact ⟨heq, mem_of_getElem? hp⟩
      · split at h <;> exact ih h
    · cases h

/-- In a sorted array the search keeps the half with the page it looks for. -/
lemma Sorted.findLoop_eq (hs : Sorted pages) {i rounds low high : Nat} (hi : i < pages.length)
    (hrounds : high - low ≤ rounds) (hhigh : high ≤ pages.length) (hlow : low ≤ i)
    (hlt : i < high) : findLoop pages pages[i].va rounds low high = some pages[i] := by
  induction rounds generalizing low high with
  | zero => omega
  | succ rounds ih =>
    have hmiddle : low + (high - low) / 2 < pages.length := by omega
    rw [findLoop, if_pos (by omega)]
    dsimp only
    rw [getElem?_eq_getElem hmiddle, Option.bind_some]
    have horder := pairwise_iff_getElem.1 hs
    rcases lt_trichotomy i (low + (high - low) / 2) with hless | heq | hgt
    · have h := horder i _ hi hmiddle hless
      rw [if_neg (UInt64.ne_of_lt h).symm, if_neg (UInt64.lt_asymm h)]
      exact ih (by omega) (by omega) hlow hless
    · simp [← heq]
    · have h := horder _ i hmiddle hi hgt
      rw [if_neg (UInt64.ne_of_lt h), if_pos h]
      exact ih (by omega) hhigh hgt hlt

lemma Holds.findPage_eq (h : Holds pages m) (va : UInt64) : findPage pages va = m va := by
  cases hfind : findPage pages va with
  | some page => exact ((h.mem va page).2 (findLoop_some hfind)).symm
  | none =>
    refine (Option.eq_none_iff_forall_ne_some.2 fun page hpage => ?_).symm
    obtain ⟨rfl, hmem⟩ := (h.mem va page).1 hpage
    obtain ⟨i, hi, rfl⟩ := getElem_of_mem hmem
    have hsome : findPage pages _ = some _ :=
      h.sorted.findLoop_eq hi (by omega) le_rfl i.zero_le hi
    exact absurd (hfind.symm.trans hsome) (by simp)

/-- The loop cuts the array at the last page that is not behind the address. -/
lemma shiftLoop_spec (page hole : MappedPage) (rest : Pages) :
    let r := shiftLoop page.va pages.length (pages ++ hole :: rest)
    r.2.set r.1 page = pages.rdropWhile (page.va < ·.va) ++
      page :: (pages.rtakeWhile (page.va < ·.va) ++ rest) := by
  -- from the end of the array, as the loop goes
  induction pages using reverseRecOn generalizing hole rest with
  | nil => simp [shiftLoop]
  | append_singleton pages z ih =>
    have hlast : (pages ++ [z] ++ hole :: rest)[pages.length]? = some z := by simp
    rw [length_append, length_singleton, shiftLoop, hlast]
    dsimp only
    by_cases hz : page.va < z.va
    · have hmoved : (pages ++ [z] ++ hole :: rest).set (pages.length + 1) z =
          pages ++ z :: z :: rest := by simp
      rw [if_pos hz, hmoved, ih z (z :: rest), rdropWhile_concat_pos _ _ _ (by simpa using hz),
        rtakeWhile_concat_pos _ _ _ (by simpa using hz), append_assoc,
        singleton_append]
    · rw [if_neg hz, rdropWhile_concat_neg _ _ _ (by simpa using hz),
        rtakeWhile_concat_neg _ _ _ (by simpa using hz)]
      simp

lemma recordPage_eq (hroom : pages.length < maxLoaderPages) (page : MappedPage) :
    recordPage pages page =
      some (pages.rdropWhile (page.va < ·.va) ++ page :: pages.rtakeWhile (page.va < ·.va)) := by
  rw [recordPage, if_neg (not_le.2 hroom), ← append_nil (rtakeWhile _ _)]
  exact congrArg some (shiftLoop_spec page page [])

/-- The pages that stay are below a new address: the last of them is, and they are sorted. -/
lemma Sorted.lt_of_mem_rdropWhile (hs : Sorted pages) (hnew : ∀ p ∈ pages, p.va ≠ va) :
    ∀ p ∈ pages.rdropWhile (va < ·.va), p.va < va := by
  induction pages using reverseRecOn with
  | nil => simp
  | append_singleton pages z ih =>
    obtain ⟨hinit, -, hlast⟩ := pairwise_append.1 hs
    by_cases hz : va < z.va
    · rw [rdropWhile_concat, if_pos (by simpa using hz)]
      exact ih hinit fun p hp => hnew p (mem_append_left _ hp)
    · rw [rdropWhile_concat, if_neg (by simpa using hz)]
      have hzva := UInt64.lt_of_le_of_ne (UInt64.not_lt.1 hz) (hnew z (by simp))
      intro p hp
      rcases mem_append.1 hp with hp | hp
      · exact UInt64.lt_trans (hlast p hp z (by simp)) hzva
      · rwa [mem_singleton.1 hp]

lemma Holds.recordPage (h : Holds pages m) {pages' : Pages} (hnew : findPage pages page.va = none)
    (hcall : recordPage pages page = some pages') :
    Holds pages' (update m page.va (some page)) := by
  rw [h.findPage_eq] at hnew
  have hne : ∀ p ∈ pages, p.va ≠ page.va := fun p hp heq => by
    rw [(h.mem page.va p).2 ⟨heq, hp⟩] at hnew
    cases hnew
  have hcut : pages.rdropWhile (page.va < ·.va) ++ pages.rtakeWhile (page.va < ·.va) = pages :=
    rdropWhile_append_rtakeWhile
  have hroom : pages.length < maxLoaderPages := by
    by_contra hfull
    simp [Loader.recordPage, not_lt.1 hfull] at hcall
  obtain rfl := Option.some.inj ((recordPage_eq hroom page).symm.trans hcall)
  constructor
  · have hs := h.sorted
    rw [Sorted, ← hcut, pairwise_append] at hs
    refine pairwise_append.2 ⟨hs.1, .cons (fun p hp => ?_) hs.2.1, fun p hp => ?_⟩
    · simpa using mem_rtakeWhile_imp hp
    · exact forall_mem_cons.2 ⟨h.sorted.lt_of_mem_rdropWhile hne p hp, hs.2.2 p hp⟩
  · intro va p
    rw [mem_append, mem_cons, or_left_comm, ← mem_append, hcut]
    by_cases hva : va = page.va
    · subst hva
      rw [update_self, Option.some.injEq]
      refine ⟨fun heq => ⟨by rw [heq], .inl heq.symm⟩, ?_⟩
      rintro ⟨heq, rfl | hp⟩
      · rfl
      · exact absurd heq (hne p hp)
    · rw [update_of_ne hva, h.mem]
      refine and_congr_right fun heq => (or_iff_right ?_).symm
      rintro rfl
      exact hva heq.symm

lemma Recorded.holds (h : Recorded pages m) : Holds pages m := by
  induction h with
  | start => exact ⟨.nil, by simp⟩
  | record _ hnew hcall ih => exact ih.recordPage hnew hcall

/-! ## Accesses -/

section Loops

variable (h : Holds pages m) {σ : Type} {f : σ → Nat → Nat → σ}
include h

lemma Holds.translateVa_eq (va : UInt64) : translateVa pages va = frameByte m va := by
  rw [translateVa, frameByte, ← h.findPage_eq]

lemma Holds.accessLoop_fails (l : List Nat) (s : σ) : (accessLoop pages va f l s).1 = false ↔
      ∃ i ∈ l, m (alignDown4k (va + UInt64.ofNat i)) = none := by
  induction l generalizing s with
  | nil => simp [accessLoop]
  | cons i l ih =>
    rw [accessLoop, h.translateVa_eq, frameByte]
    cases hpage : m (alignDown4k (va + UInt64.ofNat i)) with
    | none => simp [hpage]
    | some page => simp [hpage, ih]

lemma Holds.accessLoop_eq {a : Nat → Nat} {l : List Nat}
    (ha : ∀ i ∈ l, frameByte m (va + UInt64.ofNat i) = some (a i)) (s : σ) :
    accessLoop pages va f l s = (true, l.foldl (fun s i => f s i (a i)) s) := by
  induction l generalizing s with
  | nil => rfl
  | cons i l ih =>
    rw [accessLoop, h.translateVa_eq, ha i (by simp)]
    exact ih (fun j hj => ha j (by simp [hj])) _

end Loops

/-- The array is sorted without duplicates, `find_page` returns the recorded page, and `read_va` and
`write_u64_va` go byte by byte to the recorded frames; they fail exactly when the page of a byte is
not recorded. -/
theorem Recorded.page_map (h : Recorded pages m) :
    Sorted pages ∧ (∀ va, findPage pages va = m va) ∧
    ∀ (memory : Store UInt8) (va : UInt64) (a : Nat → Nat),
      (∀ n, (∀ i < n, frameByte m (va + UInt64.ofNat i) = some (a i)) →
        readVa pages memory va n = (true, (range n).map fun i => memory (a i))) ∧
      (∀ n, (readVa pages memory va n).1 = false ↔
        ∃ i < n, m (alignDown4k (va + UInt64.ofNat i)) = none) ∧
      (∀ value, (∀ i < 8, frameByte m (va + UInt64.ofNat i) = some (a i)) →
        writeU64Va pages memory va value = (true,
          (range 8).foldl (fun memory i => update memory (a i) (rawByte value i)) memory)) ∧
      ∀ value, (writeU64Va pages memory va value).1 = false ↔
        ∃ i < 8, m (alignDown4k (va + UInt64.ofNat i)) = none := by
  have hh := h.holds
  refine ⟨hh.sorted, hh.findPage_eq, fun memory va a => ⟨fun n ha => ?_, fun n => ?_,
    fun value ha => ?_, fun value => ?_⟩⟩
  · rw [readVa, hh.accessLoop_eq fun i hi => ha i (mem_range.1 hi),
      foldl_append_eq_append, nil_append, ← flatMap_def, ← map_eq_flatMap]
  · simpa [readVa] using hh.accessLoop_fails (range n) []
  · exact hh.accessLoop_eq (fun i hi => ha i (mem_range.1 hi)) memory
  · simpa [writeU64Va] using hh.accessLoop_fails (range 8) memory

/-- Two pages whose frames are in the other order. -/
def lowPage : MappedPage := ⟨0x1000, 0x8000, 7, by decide⟩
def highPage : MappedPage := ⟨0x2000, 0x5000, 7, by decide⟩

theorem page_map_straddles : readVa [lowPage, highPage] (fun a => UInt8.ofNat a) 0x1FFE 4 =
    (true, [0xFE, 0xFF, 0x00, 0x01]) := by
  have hhigh : recordPage [] highPage = some [highPage] := rfl
  have hlow : recordPage [highPage] lowPage = some [lowPage, highPage] := rfl
  exact (((Recorded.start.record rfl hhigh).record rfl hlow).page_map.2.2 _ 0x1FFE
    fun i => if i < 2 then 0x8FFE + i else 0x4FFE + i).1 4 (by decide)

end AosKernel.Loader
