import AosKernel.Ext4.Volume

/-!
# ext4: block allocation

`alloc_block` takes index `i` of group `g` for block `g * blocks_per_group + i`, while the bit it
tests and sets stands for block `first_data_block + g * blocks_per_group + i`. On an image with 2 or
4 KiB blocks the two are the same; on one with 1 KiB blocks they differ by one, and the allocation
is wrong whenever it succeeds (`allocBlock_sound_iff`). -/

namespace AosKernel.Ext4

open Lib Lib.ByteStore Nat

namespace Volume

variable {v v' : Volume}

/-- The numbers that `ext4_init` accepts. -/
lemma mounted_spec (h : ext4Init v.image v.imageSize = some v) :
    v.ready = true ∧ 0 < v.blocksPerGroup ∧
      (v.blockSize = 1024 ∨ v.blockSize = 2048 ∨ v.blockSize = 4096) ∧
      v.groupDescTableBlock = (if v.blockSize = 1024 then 2 else 1) ∧
      groupDescSize ≤ v.descSize ∧ superOffset + superSize ≤ v.imageSize := by
  unfold ext4Init at h
  split at h
  · simp at h
  next hsize =>
  dsimp only at h
  split at h
  · simp at h
  next hlog =>
  split at h
  · simp at h
  next hzero =>
  have hv := Option.some.inj h
  have hbs := congrArg Volume.blockSize hv
  have hbpg := congrArg Volume.blocksPerGroup hv
  have hgdt := congrArg Volume.groupDescTableBlock hv
  have hdesc := congrArg Volume.descSize hv
  have hready := congrArg Volume.ready hv
  dsimp only at hbs hbpg hgdt hdesc hready
  have hk : field v.image (superOffset + 24) 4 = 0 ∨ field v.image (superOffset + 24) 4 = 1 ∨
      field v.image (superOffset + 24) 4 = 2 := by omega
  refine ⟨hready.symm, ?_, ?_, ?_, ?_, by omega⟩
  · omega
  · rw [← hbs]
    rcases hk with hk | hk | hk <;> simp [hk]
  · rw [← hgdt, hbs]
  · rw [← hdesc]
    split <;> omega

/-! ## Ranges -/

variable {b k last off size y : Nat}

lemma rangeOk_iff {offset : Nat} :
    v.rangeOk offset size = true ↔ offset + size ≤ v.imageSize := by
  simp only [rangeOk, Bool.and_eq_true, decide_eq_true_eq]
  omega

lemma blockPtr_eq_some {block data : Nat} :
    v.blockPtr block = some data ↔
      block * v.blockSize + v.blockSize ≤ v.imageSize ∧ data = block * v.blockSize := by
  unfold blockPtr
  split
  next h =>
    rw [rangeOk_iff] at h
    simp [h, eq_comm]
  next h =>
    rw [rangeOk_iff] at h
    simp [h]

lemma block_eq_of_byte {c x : Nat} (hb : b * size ≤ x ∧ x < b * size + size)
    (hc : c * size ≤ x ∧ x < c * size + size) : b = c := by
  have hdiv : ∀ d, d * size ≤ x ∧ x < d * size + size → x / size = d := fun d hd =>
    Nat.div_eq_of_lt_le hd.1 (by rw [Nat.succ_mul]; exact hd.2)
  rw [← hdiv b hb, hdiv c hc]

/-! ## What one store changes -/

variable {a : Nat}

lemma store_image_of_outside {bytes : List UInt8} (h : a < off ∨ off + bytes.length ≤ a) :
    (v.store off bytes).image a = v.image a :=
  patch_outside v.image h

lemma bitmapSet_image_self (v : Volume) (bitmap i : Nat) :
    (v.bitmapSet bitmap i).image (bitmap + i / 8) =
      UInt8.ofNat ((v.image (bitmap + i / 8)).toNat ||| 1 <<< (i % 8)) := by
  have hsingle : ∀ b : UInt8, patch v.image (bitmap + i / 8) [b] (bitmap + i / 8 + 0) = b :=
    fun b => patch_inside v.image (by simp)
  exact hsingle _

variable {i : Nat}

lemma bitmapSet_image_of_ne {bitmap : Nat} (h : a ≠ bitmap + i / 8) :
    (v.bitmapSet bitmap i).image a = v.image a := by
  apply store_image_of_outside
  simp only [List.length_singleton]
  omega

lemma toNat_setBit (x : UInt8) {k : Nat} (hk : k < 8) :
    (UInt8.ofNat (x.toNat ||| 1 <<< k)).toNat = x.toNat ||| 2 ^ k := by
  have hpow : 2 ^ k < 2 ^ 8 := Nat.pow_lt_pow_right (by decide) hk
  rw [one_shiftLeft, UInt8.toNat_ofNat', mod_eq_of_lt (Nat.or_lt_two_pow x.toNat_lt hpow)]

lemma decrementField_false (v : Volume) (off w : Nat) : v.decrementField false off w = v := by
  simp [decrementField]

lemma decrementField_image_of_outside {flag : Bool} {w : Nat} (h : a < off ∨ off + w ≤ a) :
    (v.decrementField flag off w).image a = v.image a := by
  unfold decrementField
  split
  · apply store_image_of_outside
    simpa using h
  · rfl

/-- Everything but the image stays as it is. -/
def SameHeader (v v' : Volume) : Prop := ∃ image, v' = { v with image := image }

lemma SameHeader.refl (v : Volume) : SameHeader v v := ⟨v.image, rfl⟩

theorem SameHeader.trans {v'' : Volume} (h : SameHeader v v') (h' : SameHeader v' v'') :
    SameHeader v v'' := by
  obtain ⟨m, rfl⟩ := h
  obtain ⟨m', rfl⟩ := h'
  exact ⟨m', rfl⟩

lemma sameHeader_store (v : Volume) (off : Nat) (bytes : List UInt8) :
    SameHeader v (v.store off bytes) := ⟨_, rfl⟩

lemma sameHeader_decrementField (v : Volume) (flag : Bool) (off w : Nat) :
    SameHeader v (v.decrementField flag off w) := by
  unfold decrementField
  split
  · exact sameHeader_store v off _
  · exact SameHeader.refl v

lemma SameHeader.imageSize (h : SameHeader v v') : v'.imageSize = v.imageSize := by
  obtain ⟨m, rfl⟩ := h
  rfl

lemma SameHeader.blockSize (h : SameHeader v v') : v'.blockSize = v.blockSize := by
  obtain ⟨m, rfl⟩ := h
  rfl

lemma SameHeader.groupDescOffset (h : SameHeader v v') (g : Nat) :
    v'.groupDescOffset g = v.groupDescOffset g := by
  obtain ⟨m, rfl⟩ := h
  rfl

/-- The counters after taking a block: where they are, and that nothing else changes. -/
lemma decrementFreeCounts_spec (v : Volume) {group : Nat}
    (hsuper : superOffset + superSize ≤ v.imageSize)
    (hgd : v.groupDescOffset group + groupDescSize ≤ v.imageSize) :
    v.decrementFreeCounts group false true =
      (v.decrementField true (superOffset + 12) 4).decrementField true
        (v.groupDescOffset group + 12) 2 := by
  have hsb : v.superBlockMut = some superOffset := by
    unfold superBlockMut
    rw [if_pos (rangeOk_iff.2 hsuper)]
  have hheader := sameHeader_decrementField v true (superOffset + 12) 4
  have hmut : (v.decrementField true (superOffset + 12) 4).groupDescMut group =
      some (v.groupDescOffset group) := by
    unfold groupDescMut
    rw [hheader.groupDescOffset, if_pos]
    rw [rangeOk_iff, hheader.imageSize]
    exact hgd
  unfold decrementFreeCounts
  simp only [hsb, decrementField_false, hmut]

/-! ## Well-formed images -/

/-- The bit of a block: the byte that holds it. -/
def bitAddress (v : Volume) (block : Nat) : Nat :=
  v.bitmapOffset (v.groupOf block) + v.indexOf block / 8

namespace WellFormed

variable {used : Nat → Prop}

section

variable (hv : v.WellFormed used)
include hv

lemma blockSize_ge : 1024 ≤ v.blockSize := by
  rcases (mounted_spec hv.mounted).2.2.1 with h | h | h <;> omega

lemma blockSize_le : v.blockSize ≤ 4096 := by
  rcases (mounted_spec hv.mounted).2.2.1 with h | h | h <;> omega

lemma group_pos : 0 < v.blocksPerGroup := (mounted_spec hv.mounted).2.1

lemma first_le : v.firstDataBlock ≤ 1 := by
  rw [hv.first]
  split <;> omega

/-- No `uint32_t` of the allocator wraps. -/
lemma blocks_lt : v.blocksCount < 2 ^ 22 := by
  have hin := hv.blocks_in
  have hsize := hv.size_lt
  have hbs := hv.blockSize_ge
  have hmul : v.blocksCount * 1024 ≤ v.blocksCount * v.blockSize := mul_le_mul_left _ hbs
  omega

lemma group_le_pow : v.blocksPerGroup ≤ 2 ^ 15 := by
  have h1 := hv.group_le
  have h2 := hv.blockSize_le
  omega

lemma table_eq : v.groupDescTableBlock = v.firstDataBlock + 1 := by
  rw [(mounted_spec hv.mounted).2.2.2.1, hv.first]
  split <;> rfl

lemma groupsFor_eq :
    groupsFor v.blocksCount v.blocksPerGroup =
      (v.blocksCount + v.blocksPerGroup - 1) / v.blocksPerGroup := by
  have h1 := hv.blocks_lt
  have h2 := hv.group_le_pow
  unfold groupsFor
  rw [mod_eq_of_lt (by omega)]

end

variable {g : Nat}

section

variable (hv : v.WellFormed used)
include hv

/-- The groups that `alloc_block` visits start below the number of blocks. -/
lemma group_start_lt (hg : g < groupsFor v.blocksCount v.blocksPerGroup) :
    g * v.blocksPerGroup < v.blocksCount := by
  rw [hv.groupsFor_eq, lt_div_iff_mul_lt hv.group_pos] at hg
  omega

lemma maxInGroup_le (hg : g < groupsFor v.blocksCount v.blocksPerGroup) :
    maxInGroup v.blocksCount v.blocksPerGroup g ≤ v.blocksPerGroup := by
  have hstart := hv.group_start_lt hg
  have hlt := hv.blocks_lt
  unfold maxInGroup
  split
  next h =>
    have hlast : g + 1 = groupsFor v.blocksCount v.blocksPerGroup := by omega
    have hceil : v.blocksCount ≤ (g + 1) * v.blocksPerGroup := by
      rw [hlast, hv.groupsFor_eq]
      have hdiv := div_add_mod (v.blocksCount + v.blocksPerGroup - 1) v.blocksPerGroup
      have hmod := mod_lt (v.blocksCount + v.blocksPerGroup - 1) hv.group_pos
      rw [mul_comm]
      omega
    rw [add_mul, one_mul] at hceil
    omega
  · exact le_rfl

lemma blockAt_eq {i : Nat} (hg : g < groupsFor v.blocksCount v.blocksPerGroup)
    (hi : i ≤ v.blocksPerGroup) : v.blockAt g i = g * v.blocksPerGroup + i := by
  have h1 := hv.group_start_lt hg
  have h2 := hv.blocks_lt
  have h3 := hv.group_le_pow
  unfold blockAt
  rw [mod_eq_of_lt (by omega)]

lemma groupOf_lt {b : Nat} (hb : v.firstDataBlock ≤ b) (hlt : b < v.blocksCount) :
    v.groupOf b < v.groupCount := by
  have hpos := hv.group_pos
  unfold groupOf groupCount
  rw [lt_div_iff_mul_lt hpos]
  have hmul := div_mul_le_self (b - v.firstDataBlock) v.blocksPerGroup
  omega

/-- The descriptors of the groups lie in the blocks of the descriptor table. -/
lemma groupDesc_in (hg : g < v.groupCount) :
    (v.firstDataBlock + 1) * v.blockSize ≤ v.groupDescOffset g ∧
      v.groupDescOffset g + groupDescSize ≤
        (v.firstDataBlock + 1 + v.descBlocks) * v.blockSize := by
  have hdesc := (mounted_spec hv.mounted).2.2.2.2.1
  have hbs := hv.blockSize_ge
  have hceil : v.groupCount * v.descSize ≤ v.descBlocks * v.blockSize := by
    unfold descBlocks
    have hdiv := div_add_mod (v.groupCount * v.descSize + v.blockSize - 1) v.blockSize
    have hmod := mod_lt (v.groupCount * v.descSize + v.blockSize - 1)
      (show 0 < v.blockSize by omega)
    rw [mul_comm (_ / _)]
    omega
  have hnext : (g + 1) * v.descSize ≤ v.groupCount * v.descSize := mul_le_mul_right _ hg
  unfold groupDescOffset
  rw [hv.table_eq, add_mul (v.firstDataBlock + 1)]
  rw [add_mul, one_mul] at hnext
  omega

lemma bitmap_in (hg : g < v.groupCount) : v.bitmapOffset g + v.blockSize ≤ v.imageSize := by
  have h1 := (hv.used_in _ (hv.bitmap_used g hg).1).2
  have h2 : (v.blockBitmapLo (v.groupDescOffset g) + 1) * v.blockSize ≤
      v.blocksCount * v.blockSize := mul_le_mul_right _ h1
  have h3 := hv.blocks_in
  unfold bitmapOffset
  rw [add_mul, one_mul] at h2
  omega

/-- The byte that holds a bit of a group lies in the bitmap of the group. -/
lemma bitByte_in {i : Nat} (hi : i < v.blocksPerGroup) : i / 8 < v.blockSize := by
  have h := hv.group_le
  omega

/-- A byte of a bitmap is not a byte of the superblock or of a descriptor. -/
lemma bitmap_apart {k : Nat} (hg : g < v.groupCount) (hk : k < v.blockSize) :
    ¬(superOffset ≤ v.bitmapOffset g + k ∧ v.bitmapOffset g + k < superOffset + superSize) ∧
      ∀ h < v.groupCount, ¬(v.groupDescOffset h ≤ v.bitmapOffset g + k ∧
        v.bitmapOffset g + k < v.groupDescOffset h + groupDescSize) := by
  have hapart := hv.bitmaps_apart g hg
  -- a byte of the blocks from `first_data_block` to the end of the table is in one of them
  have hblock : ∀ j ≤ v.descBlocks, ¬((v.firstDataBlock + j) * v.blockSize ≤ v.bitmapOffset g + k ∧
      v.bitmapOffset g + k < (v.firstDataBlock + j) * v.blockSize + v.blockSize) := by
    intro j hj hbyte
    exact hapart j hj (block_eq_of_byte ⟨Nat.le_add_right _ _, Nat.add_lt_add_left hk _⟩ hbyte)
  have hsizes := (mounted_spec hv.mounted).2.2.1
  constructor
  · -- the superblock is in block `first_data_block`
    rintro ⟨h1, h2⟩
    refine hblock 0 (Nat.zero_le _) ⟨?_, ?_⟩
    all_goals
      rw [Nat.add_zero, hv.first]
      unfold superOffset superSize at *
      split <;> omega
  · rintro h hh ⟨h1, h2⟩
    obtain ⟨hlo, hhi⟩ := hv.groupDesc_in hh
    -- the block that the byte is in
    have hj : (v.bitmapOffset g + k) / v.blockSize < v.firstDataBlock + 1 + v.descBlocks := by
      rw [Nat.div_lt_iff_lt_mul (by omega)]
      omega
    have hj' : v.firstDataBlock + 1 ≤ (v.bitmapOffset g + k) / v.blockSize := by
      rw [Nat.le_div_iff_mul_le (by omega)]
      omega
    have hdiv := Nat.div_add_mod (v.bitmapOffset g + k) v.blockSize
    have hmod := Nat.mod_lt (v.bitmapOffset g + k) (show 0 < v.blockSize by omega)
    refine hblock ((v.bitmapOffset g + k) / v.blockSize - v.firstDataBlock) (by omega) ?_
    rw [Nat.add_sub_cancel' (by omega), Nat.mul_comm]
    omega

end

end WellFormed

/-! ## What `alloc_block` finds -/

/-- Index `i` of group `g` stands for a block in range, and its bit is clear. -/
def FreeAt (v : Volume) (g bitmap i : Nat) : Prop :=
  v.firstDataBlock ≤ v.blockAt g i ∧ v.blockAt g i < v.blocksCount ∧ v.bitmapTest bitmap i = false

/-- Index `i` of group `g` is one that `alloc_block` would take: the group counts free blocks, the
block it takes the index for is in range, and the bit is clear. -/
structure Offers (v : Volume) (g i : Nat) : Prop where
  group : g < groupsFor v.blocksCount v.blocksPerGroup
  desc : v.groupDescOffset g + groupDescSize ≤ v.imageSize
  counted : v.gdFreeBlocks (v.groupDescOffset g) ≠ 0
  bitmap : v.bitmapOffset g + v.blockSize ≤ v.imageSize
  index : i < maxInGroup v.blocksCount v.blocksPerGroup g
  free : v.FreeAt g (v.bitmapOffset g) i

/-- There is nothing for `alloc_block` to take. -/
def Full (v : Volume) : Prop := ∀ g i, ¬v.Offers g i

/-- Index `i` of group `g` is on offer, and none before it is. -/
structure First (v : Volume) (g i : Nat) : Prop where
  offers : v.Offers g i
  least : ∀ h j, v.Offers h j → g < h ∨ g = h ∧ i ≤ j

lemma First.unique {g i h j : Nat} (hg : v.First g i) (hh : v.First h j) : g = h ∧ i = j := by
  have h1 := hg.least h j hh.offers
  have h2 := hh.least g i hg.offers
  omega

variable {g : Nat} {used : Nat → Prop}

/-- The inner loop returns the first free index, or there is none. -/
lemma scanBlocks_spec (hv : v.WellFormed used) (hg : g < groupsFor v.blocksCount v.blocksPerGroup)
    (bitmap : Nat) : ∀ n i, i + n ≤ v.blocksPerGroup →
      (∃ j, v.scanBlocks g bitmap n i = some j ∧ j < i + n ∧ v.FreeAt g bitmap j ∧
        ∀ k, i ≤ k → k < j → ¬v.FreeAt g bitmap k) ∨
      v.scanBlocks g bitmap n i = none ∧ ∀ k, i ≤ k → k < i + n → ¬v.FreeAt g bitmap k := by
  intro n
  induction n with
  | zero => exact fun i _ => .inr ⟨rfl, fun k h1 h2 => by omega⟩
  | succ n ih =>
    intro i hin
    -- an index that is not free is passed over
    have hskip : ¬v.FreeAt g bitmap i →
        (∃ j, v.scanBlocks g bitmap n (i + 1) = some j ∧ j < i + (n + 1) ∧ v.FreeAt g bitmap j ∧
          ∀ k, i ≤ k → k < j → ¬v.FreeAt g bitmap k) ∨
        v.scanBlocks g bitmap n (i + 1) = none ∧
          ∀ k, i ≤ k → k < i + (n + 1) → ¬v.FreeAt g bitmap k := by
      intro hi
      have hcons : ∀ k, i ≤ k → (i + 1 ≤ k → ¬v.FreeAt g bitmap k) → ¬v.FreeAt g bitmap k := by
        intro k hk hrest
        rcases eq_or_lt_of_le hk with rfl | hlt
        · exact hi
        · exact hrest hlt
      rcases ih (i + 1) (by omega) with ⟨j, hj, hlt, hfree, hleast⟩ | ⟨hnone, hrest⟩
      · exact .inl ⟨j, hj, by omega, hfree, fun k hk hkj => hcons k hk fun hk' => hleast k hk' hkj⟩
      · exact .inr ⟨hnone, fun k hk hkn => hcons k hk fun hk' => hrest k hk' (by omega)⟩
    rw [scanBlocks]
    by_cases hlow : v.blockAt g i < v.firstDataBlock
    · rw [if_pos hlow]
      exact hskip fun h => absurd hlow (not_lt.2 h.1)
    rw [if_neg hlow]
    by_cases hhigh : v.blockAt g i ≥ v.blocksCount
    · -- the blocks behind this one are out of range as well
      rw [if_pos hhigh]
      refine .inr ⟨rfl, fun k h1 h2 hfree => ?_⟩
      have hlt := hfree.2.1
      rw [hv.blockAt_eq hg (by omega)] at hhigh hlt
      omega
    rw [if_neg hhigh]
    by_cases hset : v.bitmapTest bitmap i = true
    · rw [if_pos hset]
      exact hskip fun h => by simp [h.2.2] at hset
    · rw [if_neg hset]
      exact .inl ⟨i, rfl, by omega, ⟨not_lt.1 hlow, not_le.1 hhigh, by simpa using hset⟩,
        fun k h1 h2 => by omega⟩

/-- Only the last of the visited groups can be one the image does not have. -/
lemma last_of_ge (hv : v.WellFormed used) (hge : v.groupCount ≤ g) :
    groupsFor v.blocksCount v.blocksPerGroup ≤ g + 1 := by
  have hpos := hv.group_pos
  have hfirst := hv.first_le
  rw [hv.groupsFor_eq]
  unfold groupCount at hge
  rw [div_le_iff_le_mul_add_pred hpos] at hge ⊢
  rw [mul_add, mul_one]
  omega

/-- The outer loop takes the first index that is on offer, if there is none in the groups before. -/
lemma allocBlockFrom_cases (hv : v.WellFormed used) :
    ∀ n g, g + n = groupsFor v.blocksCount v.blocksPerGroup → (∀ h < g, ∀ i, ¬v.Offers h i) →
      (v.allocBlockFrom n g = (none, v) ∧ v.Full) ∨
        ∃ h i, v.First h i ∧ v.allocBlockFrom n g = v.takeBlock h (v.bitmapOffset h) i := by
  intro n
  induction n with
  | zero =>
    intro g hgroups hprev
    refine .inl ⟨rfl, fun h i hoffer => hprev h ?_ i hoffer⟩
    have := hoffer.group
    omega
  | succ n ih =>
    intro g hgroups hprev
    have hg : g < groupsFor v.blocksCount v.blocksPerGroup := by omega
    -- a group with nothing on offer is passed over
    have hskip : (∀ i, ¬v.Offers g i) →
        (v.allocBlockFrom n (g + 1) = (none, v) ∧ v.Full) ∨
          ∃ h i, v.First h i ∧
            v.allocBlockFrom n (g + 1) = v.takeBlock h (v.bitmapOffset h) i := by
      intro hnone
      refine ih (g + 1) (by omega) fun h hh => ?_
      rcases Nat.lt_succ_iff_lt_or_eq.1 hh with hlt | rfl
      · exact hprev h hlt
      · exact hnone
    unfold allocBlockFrom groupDescMut
    split
    next hdesc =>
      apply hskip
      intro i hoffer
      have hrange := rangeOk_iff.2 hoffer.desc
      simp [hrange] at hdesc
    next gd hgd =>
    split at hgd
    swap
    · simp at hgd
    next hrange =>
    obtain rfl := Option.some.inj hgd
    split
    next hcount =>
      apply hskip
      exact fun i hoffer => hoffer.counted hcount
    next hcount =>
    cases hptr : v.blockPtr (v.blockBitmapLo (v.groupDescOffset g)) with
    | none =>
      -- the early return: only a group that is not there has no bitmap, and it is the last one
      have hout : ¬v.bitmapOffset g + v.blockSize ≤ v.imageSize := by
        intro hin
        rw [blockPtr_eq_some.2 ⟨hin, rfl⟩] at hptr
        simp at hptr
      have hge : v.groupCount ≤ g := by
        by_contra hlt
        exact hout (hv.bitmap_in (by omega))
      have hlast := last_of_ge hv hge
      refine .inl ⟨rfl, fun h i hoffer => ?_⟩
      have hgroup := hoffer.group
      rcases lt_or_ge h g with hlt | hle
      · exact hprev h hlt i hoffer
      · obtain rfl : h = g := by omega
        exact hout hoffer.bitmap
    | some =>
      obtain ⟨hbitmap, rfl⟩ := blockPtr_eq_some.1 hptr
      dsimp only
      rcases scanBlocks_spec hv hg (v.blockBitmapLo (v.groupDescOffset g) * v.blockSize)
        (maxInGroup v.blocksCount v.blocksPerGroup g) 0
        (by rw [zero_add]; exact hv.maxInGroup_le hg) with ⟨i, hi, hlt, hfree, hleast⟩ | ⟨hi, hnone⟩
      · rw [zero_add] at hlt
        rw [hi]
        refine .inr ⟨g, i, ⟨⟨hg, rangeOk_iff.1 hrange, hcount, hbitmap, hlt, hfree⟩,
          fun h j hoffer => ?_⟩, rfl⟩
        rcases lt_trichotomy g h with hgh | rfl | hhg
        · exact .inl hgh
        · exact .inr ⟨rfl, not_lt.1 fun hji => hleast j (zero_le _) hji hoffer.free⟩
        · exact absurd hoffer (hprev h hhg j)
      · rw [hi]
        exact hskip fun i hoffer =>
          hnone i (zero_le _) (by rw [zero_add]; exact hoffer.index) hoffer.free

/-- `alloc_block` takes the first index that is on offer, or there is none. -/
lemma allocBlock_cases (hv : v.WellFormed used) :
    (v.allocBlock = (none, v) ∧ v.Full) ∨
      ∃ g i, v.First g i ∧ v.allocBlock = v.takeBlock g (v.bitmapOffset g) i := by
  obtain ⟨hready, hpos, -, -, -, hsuper⟩ := mounted_spec hv.mounted
  have hsb : v.superBlockMut ≠ none := by
    unfold superBlockMut
    rw [if_pos (rangeOk_iff.2 hsuper)]
    simp
  have heq : v.allocBlock =
      v.allocBlockFrom (groupsFor v.blocksCount v.blocksPerGroup) 0 := by
    unfold allocBlock
    rw [if_neg]
    rintro (h | h | h)
    · rw [hready] at h
      simp at h
    · omega
    · exact hsb h
  rw [heq]
  exact allocBlockFrom_cases hv _ 0 (zero_add _) fun h hh => absurd hh (Nat.not_lt_zero h)

/-! ## What `alloc_block` changes -/

/-- The image after the bit is set and the two counters are decremented. -/
def counted (v : Volume) (g i : Nat) : Volume :=
  ((v.bitmapSet (v.bitmapOffset g) i).decrementField true (superOffset + 12) 4).decrementField true
    (v.groupDescOffset g + 12) 2

lemma counted_image_of_ne (hbit : a ≠ v.bitmapOffset g + i / 8)
    (hsuper : ¬(superOffset + 12 ≤ a ∧ a < superOffset + 16))
    (hdesc : ¬(v.groupDescOffset g + 12 ≤ a ∧ a < v.groupDescOffset g + 14)) :
    (v.counted g i).image a = v.image a := by
  unfold counted
  rw [decrementField_image_of_outside (by omega), decrementField_image_of_outside (by omega),
    bitmapSet_image_of_ne hbit]

lemma takeBlock_eq (hv : v.WellFormed used) (hoffer : v.Offers g i) :
    v.takeBlock g (v.bitmapOffset g) i =
      (some (v.blockAt g i),
        (v.counted g i).store (v.blockAt g i * v.blockSize) (zeroBytes v.blockSize)) := by
  have hcount : (v.bitmapSet (v.bitmapOffset g) i).decrementFreeCounts g false true =
      v.counted g i :=
    decrementFreeCounts_spec _ (mounted_spec hv.mounted).2.2.2.2.2 hoffer.desc
  have hheader : SameHeader v (v.counted g i) :=
    ((sameHeader_store v _ _).trans (sameHeader_decrementField _ _ _ _)).trans
      (sameHeader_decrementField _ _ _ _)
  have hptr : (v.counted g i).blockPtr (v.blockAt g i) = some (v.blockAt g i * v.blockSize) := by
    rw [blockPtr_eq_some, hheader.blockSize, hheader.imageSize]
    have hle : (v.blockAt g i + 1) * v.blockSize ≤ v.blocksCount * v.blockSize :=
      mul_le_mul_right _ hoffer.free.2.1
    rw [add_mul, one_mul] at hle
    exact ⟨hle.trans hv.blocks_in, rfl⟩
  unfold takeBlock
  simp only [hcount, hptr, hheader.blockSize]

/-- `v'` is `v` with the block `b` taken: `b` was free by its bit and by its use, its bit is set,
it is filled with zeros, and nothing else changes but the free counts of the superblock and of the
group of `b`. -/
structure Takes (v : Volume) (used : Nat → Prop) (b : Nat) (v' : Volume) : Prop where
  range : v.firstDataBlock ≤ b ∧ b < v.blocksCount
  clear : ¬v.Marked b
  unused : ¬used b
  zeroed : ∀ k < v.blockSize, v'.image (b * v.blockSize + k) = 0
  bit : v'.image (v.bitAddress b) =
    UInt8.ofNat ((v.image (v.bitAddress b)).toNat ||| 1 <<< (v.indexOf b % 8))
  frame : ∀ a, ¬(b * v.blockSize ≤ a ∧ a < b * v.blockSize + v.blockSize) →
    a ≠ v.bitAddress b → ¬(superOffset + 12 ≤ a ∧ a < superOffset + 16) →
    ¬(v.groupDescOffset (v.groupOf b) + 12 ≤ a ∧ a < v.groupDescOffset (v.groupOf b) + 14) →
    v'.image a = v.image a

/-- Allocation is sound on an image: a failed call changes nothing, and a call that returns a block
takes exactly this block. -/
def AllocSound (v : Volume) (used : Nat → Prop) : Prop :=
  match v.allocBlock with
  | (none, v') => v' = v
  | (some b, v') => v.Takes used b v'

lemma bitmapByte_not_in_block (hv : v.WellFormed used) (hg : g < v.groupCount)
    (hk : k < v.blockSize) (hb : ¬used b) :
    ¬(b * v.blockSize ≤ v.bitmapOffset g + k ∧
      v.bitmapOffset g + k < b * v.blockSize + v.blockSize) := by
  intro hbyte
  apply hb
  rw [← block_eq_of_byte ⟨Nat.le_add_right _ _, Nat.add_lt_add_left hk _⟩ hbyte]
  exact (hv.bitmap_used g hg).1

/-- With `first_data_block = 0` the index that is taken is the one of the block's own bit. -/
lemma own_bit_of_first_zero (hv : v.WellFormed used) (hfirst : v.firstDataBlock = 0)
    (hoffer : v.Offers g i) :
    v.groupOf (v.blockAt g i) = g ∧ v.indexOf (v.blockAt g i) = i ∧ ¬v.Marked (v.blockAt g i) := by
  have hi : i < v.blocksPerGroup := hoffer.index.trans_le (hv.maxInGroup_le hoffer.group)
  have hb : v.blockAt g i = g * v.blocksPerGroup + i := hv.blockAt_eq hoffer.group hi.le
  have hgroup : v.groupOf (v.blockAt g i) = g := by
    unfold groupOf
    rw [hfirst, hb, Nat.sub_zero, mul_comm, Nat.mul_add_div hv.group_pos,
      Nat.div_eq_of_lt hi, add_zero]
  have hindex : v.indexOf (v.blockAt g i) = i := by
    unfold indexOf
    rw [hfirst, hb, Nat.sub_zero, mul_comm, Nat.mul_add_mod, Nat.mod_eq_of_lt hi]
  refine ⟨hgroup, hindex, ?_⟩
  unfold Marked
  rw [hgroup, hindex, hoffer.free.2.2]
  simp

lemma takes_of_first_zero (hv : v.WellFormed used) (hfirst : v.firstDataBlock = 0)
    (hoffer : v.Offers g i) (hunused : ¬used (v.blockAt g i)) :
    v.Takes used (v.blockAt g i)
      ((v.counted g i).store (v.blockAt g i * v.blockSize) (zeroBytes v.blockSize)) := by
  have hi : i < v.blocksPerGroup := hoffer.index.trans_le (hv.maxInGroup_le hoffer.group)
  obtain ⟨hgroup, hindex, hclear⟩ := own_bit_of_first_zero hv hfirst hoffer
  have hg : g < v.groupCount := by
    rw [← hgroup]
    exact hv.groupOf_lt hoffer.free.1 hoffer.free.2.1
  have haddr : v.bitAddress (v.blockAt g i) = v.bitmapOffset g + i / 8 := by
    unfold bitAddress
    rw [hgroup, hindex]
  have hbyte := hv.bitByte_in hi
  obtain ⟨hsuper, hdesc⟩ := hv.bitmap_apart hg hbyte
  refine ⟨⟨hoffer.free.1, hoffer.free.2.1⟩, hclear, hunused, ?_, ?_, ?_⟩
  · intro k hk
    have hlength : k < (zeroBytes v.blockSize).length := by simpa using hk
    have hin : patch (v.counted g i).image (v.blockAt g i * v.blockSize) (zeroBytes v.blockSize)
        (v.blockAt g i * v.blockSize + k) = (zeroBytes v.blockSize)[k] := patch_inside _ hlength
    refine hin.trans ?_
    simp [zeroBytes]
  · rw [haddr, hindex, store_image_of_outside]
    · unfold counted
      have hdescg := hdesc g hg
      unfold superOffset superSize groupDescSize at *
      rw [decrementField_image_of_outside (by omega), decrementField_image_of_outside (by omega),
        bitmapSet_image_self]
    · have hout := bitmapByte_not_in_block hv hg hbyte hunused
      rw [zeroBytes_length]
      omega
  · intro a hblock haddr' hsuper' hdesc'
    rw [haddr] at haddr'
    rw [hgroup] at hdesc'
    rw [store_image_of_outside (by rw [zeroBytes_length]; omega)]
    exact counted_image_of_ne haddr' hsuper' hdesc'

/-! ## 1 KiB blocks -/

lemma bitmapSet_byte (v : Volume) (bitmap i a : Nat) :
    ((v.bitmapSet bitmap i).image a).toNat = (v.image a).toNat ∨
      ((v.bitmapSet bitmap i).image a).toNat = (v.image a).toNat ||| 2 ^ (i % 8) := by
  by_cases haddr : a = bitmap + i / 8
  · right
    rw [haddr, bitmapSet_image_self, toNat_setBit _ (mod_lt _ (by decide))]
  · left
    rw [bitmapSet_image_of_ne haddr]

/-- Each byte of a counter of two bytes stays as it is or is decremented. -/
lemma decrementField_byte (v : Volume) (off a : Nat) :
    ((v.decrementField true off 2).image a).toNat = (v.image a).toNat ∨
      ((v.decrementField true off 2).image a).toNat = ((v.image a).toNat + 255) % 256 := by
  by_cases hin : off ≤ a ∧ a < off + 2
  swap
  · rw [decrementField_image_of_outside (by omega)]
    exact .inl rfl
  unfold decrementField
  split
  swap
  · exact .inl rfl
  next hpos =>
  have hfield : field v.image off 2 = (v.image off).toNat + 256 * (v.image (off + 1)).toNat := by
    simp [field, slice, List.range_succ, leNat]
  obtain ⟨k, rfl⟩ := Nat.exists_eq_add_of_le hin.1
  have hk : k < (leBytes 2 (field v.image off 2 - 1)).length := by
    rw [leBytes_length]
    omega
  have hbyte : (v.store off (leBytes 2 (field v.image off 2 - 1))).image (off + k) =
      (leBytes 2 (field v.image off 2 - 1))[k] := patch_inside _ hk
  have hlow := (v.image off).toNat_lt
  have hhigh := (v.image (off + 1)).toNat_lt
  rw [hbyte]
  obtain rfl | rfl : k = 0 ∨ k = 1 := by omega
  · simp only [leBytes, hfield, List.getElem_cons_zero, UInt8.toNat_ofNat', Nat.add_zero]
    omega
  · simp only [leBytes, hfield, List.getElem_cons_succ, List.getElem_cons_zero, UInt8.toNat_ofNat']
    omega

/-- Neither setting bit 0 of a byte nor decrementing it sets bit 7 alone. -/
lemma ne_setBit_seven : ∀ y < 256, testBit y 7 = false → ∀ x ∈ [y, y ||| 2 ^ 0],
    x ≠ y ||| 2 ^ 7 ∧ (x + 255) % 256 ≠ y ||| 2 ^ 7 := by
  decide +kernel

/-- With `first_data_block = 1` the bit that is set is not the bit of the block that is taken. -/
lemma index_of_first_one (hv : v.WellFormed used) (hfirst : v.firstDataBlock = 1)
    (hoffer : v.Offers g i) :
    v.indexOf (v.blockAt g i) % 8 ≠ i % 8 ∧
      (v.groupCount ≤ g → i = 0 ∧ v.indexOf (v.blockAt g i) % 8 = 7) := by
  have hi : i < v.blocksPerGroup := hoffer.index.trans_le (hv.maxInGroup_le hoffer.group)
  have hb : v.blockAt g i = g * v.blocksPerGroup + i := hv.blockAt_eq hoffer.group hi.le
  have hge := hoffer.free.1
  have hlt := hoffer.free.2.1
  have hown : v.indexOf (v.blockAt g i) % 8 = (v.blockAt g i - 1) % 8 := by
    unfold indexOf
    rw [hfirst, Nat.mod_mod_of_dvd _ hv.group_dvd]
  have hmod : v.blockAt g i % 8 = i % 8 := by
    obtain ⟨m, hm⟩ := hv.group_dvd
    rw [hb, hm, Nat.mul_left_comm, Nat.mul_add_mod]
  refine ⟨by omega, fun hphantom => ?_⟩
  -- the group that is not there starts at the last block
  have hstart : v.blocksCount - 1 ≤ g * v.blocksPerGroup := by
    unfold groupCount at hphantom
    rw [hfirst, Nat.div_le_iff_le_mul_add_pred hv.group_pos, Nat.mul_comm] at hphantom
    omega
  omega

/-- With `first_data_block = 1` no block is taken properly. -/
lemma not_takes_of_first_one (hv : v.WellFormed used) (hfirst : v.firstDataBlock = 1)
    (hoffer : v.Offers g i) :
    ¬v.Takes used (v.blockAt g i)
      ((v.counted g i).store (v.blockAt g i * v.blockSize) (zeroBytes v.blockSize)) := by
  intro htakes
  obtain ⟨hne, hphantom⟩ := index_of_first_one hv hfirst hoffer
  have hgroup := hv.groupOf_lt hoffer.free.1 hoffer.free.2.1
  have hbyte := hv.bitByte_in (i := v.indexOf (v.blockAt g i)) (mod_lt _ hv.group_pos)
  -- the byte of the block's own bit is in a bitmap, so it is in none of the other places
  obtain ⟨hsuper, hdesc⟩ := hv.bitmap_apart hgroup hbyte
  have hblock := bitmapByte_not_in_block hv hgroup hbyte htakes.unused
  have hclear : (v.image (v.bitAddress (v.blockAt g i))).toNat.testBit
      (v.indexOf (v.blockAt g i) % 8) = false := by
    simpa [Marked, bitmapTest, bitAddress] using htakes.clear
  have hval := congrArg UInt8.toNat htakes.bit
  rw [toNat_setBit _ (mod_lt _ (by decide)), store_image_of_outside (by
    rw [zeroBytes_length]
    unfold bitAddress
    omega)] at hval
  unfold counted at hval
  have hset := bitmapSet_byte v (v.bitmapOffset g) i (v.bitAddress (v.blockAt g i))
  have hfree : ((v.bitmapSet (v.bitmapOffset g) i).decrementField true (superOffset + 12) 4).image
      (v.bitAddress (v.blockAt g i)) = _ := decrementField_image_of_outside (by
    unfold bitAddress superOffset
    unfold superOffset superSize at hsuper
    omega)
  rw [← hfree] at hset
  generalize (v.bitmapSet _ _).decrementField true _ 4 = w at hval hset
  by_cases hge : v.groupCount ≤ g
  · -- the counter of a group that is not there may lie in a bitmap
    obtain ⟨rfl, hseven⟩ := hphantom hge
    rw [hseven] at hval hclear
    have hneq := ne_setBit_seven _ (UInt8.toNat_lt _) hclear _ (by simpa using hset)
    rcases decrementField_byte w _ _ with h | h
    · exact hneq.1 (h.symm.trans hval)
    · exact hneq.2 (h.symm.trans hval)
  · have hout := hdesc g (by omega)
    rw [decrementField_image_of_outside (by
      unfold bitAddress
      unfold groupDescSize at hout
      omega)] at hval
    have hbit := congrArg (fun n => testBit n (v.indexOf (v.blockAt g i) % 8)) hval
    rcases hset with h | h
    · simp [h, hclear] at hbit
    · simp [h, hclear, testBit_two_pow_of_ne hne.symm] at hbit

/-- Allocation is sound on a well-formed image if there is nothing to allocate, or if its first data
block is block 0, as it is with 2 and 4 KiB blocks, and the first index on offer is not that of a
block in use in a group whose bitmap has never been written; on no other. -/
theorem allocBlock_sound_iff (hv : v.WellFormed used) :
    v.AllocSound used ↔ v.Full ∨ v.firstDataBlock = 0 ∧
      ∀ g i, v.First g i → v.BlockUninit g → ¬used (g * v.blocksPerGroup + i) := by
  unfold AllocSound
  rcases allocBlock_cases hv with ⟨heq, hfull⟩ | ⟨g, i, hfirst, heq⟩
  · rw [heq]
    exact ⟨fun _ => .inl hfull, fun _ => rfl⟩
  have hoffer := hfirst.offers
  rw [heq, takeBlock_eq hv hoffer]
  have hle := hv.first_le
  have hblock : v.blockAt g i = g * v.blocksPerGroup + i :=
    hv.blockAt_eq hoffer.group (hoffer.index.le.trans (hv.maxInGroup_le hoffer.group))
  constructor
  · intro htakes
    have hzero : v.firstDataBlock = 0 := by
      by_contra hne
      exact not_takes_of_first_one hv (by omega) hoffer htakes
    refine .inr ⟨hzero, fun g' i' hfirst' _ => ?_⟩
    obtain ⟨rfl, rfl⟩ := hfirst'.unique hfirst
    rw [← hblock]
    exact htakes.unused
  · rintro (hfull | ⟨hzero, huninit⟩)
    · exact absurd hoffer (hfull g i)
    refine takes_of_first_zero hv hzero hoffer fun hused => ?_
    obtain ⟨hgroup, -, hclear⟩ := own_bit_of_first_zero hv hzero hoffer
    by_cases hflag : v.BlockUninit g
    · exact huninit g i hfirst hflag (hblock ▸ hused)
    · exact hclear (hv.used_marked _ hused (by rwa [hgroup]))

/-! ## Two small images -/

/-- What is to be checked of an image with one group whose blocks in use are those up to `last`. -/
structure OneGroup (v : Volume) (last : Nat) : Prop where
  groups : v.groupCount = 1
  desc : v.firstDataBlock + v.descBlocks ≤ last
  bitmap : v.firstDataBlock + v.descBlocks < v.blockBitmapLo (v.groupDescOffset 0) ∧
    v.blockBitmapLo (v.groupDescOffset 0) ≤ last
  inodeBitmap : v.firstDataBlock ≤ v.inodeBitmapLo (v.groupDescOffset 0) ∧
    v.inodeBitmapLo (v.groupDescOffset 0) ≤ last
  table : v.firstDataBlock ≤ v.inodeTableLo (v.groupDescOffset 0) ∧
    v.inodeTableLo (v.groupDescOffset 0) + v.tableBlocks ≤ last
  last_lt : last < v.blocksCount
  marked : ∀ b < last + 1, v.firstDataBlock ≤ b → v.Marked b

def UpTo (v : Volume) (last b : Nat) : Prop := v.firstDataBlock ≤ b ∧ b ≤ last

lemma OneGroup.wellFormed (h : v.OneGroup last)
    (hmounted : ext4Init v.image v.imageSize = some v) (hsize : v.imageSize < 2 ^ 32)
    (hfirst : v.firstDataBlock = if v.blockSize = 1024 then 1 else 0)
    (hin : v.blocksCount * v.blockSize ≤ v.imageSize)
    (hgroup : v.blocksPerGroup ≤ 8 * v.blockSize) (hdvd : 8 ∣ v.blocksPerGroup) :
    v.WellFormed (v.UpTo last) := by
  obtain ⟨hgroups, hdesc, hbitmap, hib, htable, hlast, hmarked⟩ := h
  have hzero : ∀ g < v.groupCount, g = 0 := by omega
  refine ⟨hmounted, hsize, hfirst, by omega, hin, hgroup, hdvd,
    fun b hb => ⟨hb.1, hb.2.trans_lt hlast⟩,
    fun b hb _ => hmarked b (Nat.lt_succ_of_le hb.2) hb.1, fun k hk => ⟨by omega, by omega⟩,
    fun g hg => ?_, fun g hg k hk => ?_, by omega, fun g hg k hk => ?_⟩
  · obtain rfl := hzero g hg
    exact ⟨⟨by omega, hbitmap.2⟩, hib⟩
  · obtain rfl := hzero g hg
    exact ⟨by omega, by omega⟩
  · obtain rfl := hzero g hg
    omega

lemma mounted_of_init {image : Store UInt8} {n : Nat} (h : ext4Init image n = some v) :
    ext4Init v.image v.imageSize = some v := by
  have hv : v.image = image ∧ v.imageSize = n := by
    unfold ext4Init at h
    dsimp only at h
    split_ifs at h <;> cases h <;> exact ⟨rfl, rfl⟩
  rw [hv.1, hv.2, h]

/-- An image given by its bytes that are not zero and the padding of the block bitmap, whose bits
are set behind the last block. -/
def sparseImage (bytes : List (Nat × UInt8)) (padLo padHi : Nat) : Store UInt8 := fun a =>
  if padLo ≤ a ∧ a < padHi then 0xFF
  else
    match bytes.find? fun p => p.1 == a with
    | some p => p.2
    | none => 0

/-- 16 blocks of 1 KiB: superblock, descriptors, block bitmap, inode bitmap, two blocks of inodes
and the root directory in blocks 1 to 7. -/
def smallBytes : List (Nat × UInt8) :=
  [ -- superblock: 16 inodes, 16 blocks, 8 free ones, 6 free inodes, first data block 1
    (1024, 16), (1028, 16), (1036, 8), (1040, 6), (1044, 1),
    -- 8192 blocks and 16 inodes per group, magic, first inode 11, inodes of 128 bytes
    (1057, 32), (1064, 16), (1080, 0x53), (1081, 0xEF), (1108, 11), (1112, 128),
    -- descriptor of group 0: block bitmap 3, inode bitmap 4, inodes from 5 on, free counts
    (2048, 3), (2052, 4), (2056, 5), (2060, 8), (2062, 6),
    -- blocks 1 to 7 in use, inodes 1 to 10 in use
    (3072, 0x7F), (3073, 0x80), (4096, 0xFF), (4097, 0x03),
    -- inode 2, the root directory: one block, block 7
    (5248, 0xED), (5249, 0x41), (5253, 4), (5274, 2), (5276, 2), (5288, 7)]

lemma small_mounts : (ext4Init (sparseImage smallBytes 3074 4096) 16384).isSome = true := by
  decide +kernel

/-- The image with 1 KiB blocks after `ext4_init`. -/
def smallVolume : Volume := (ext4Init (sparseImage smallBytes 3074 4096) 16384).get small_mounts

/-- The first block of the root directory, inode 2, by its first pointer. -/
def rootBlock (v : Volume) : Nat :=
  field v.image (v.inodeTableLo (v.groupDescOffset 0) * v.blockSize + v.inodeSize + 40) 4

lemma small_facts : smallVolume.WellFormed (smallVolume.UpTo 7) ∧ smallVolume.Marked 7 ∧
    smallVolume.allocBlock.1 = some 7 ∧ smallVolume.rootBlock = 7 := by
  have hgroup : smallVolume.OneGroup 7 := ⟨by decide +kernel, by decide +kernel, by decide +kernel,
    by decide +kernel, by decide +kernel, by decide +kernel, by decide +kernel⟩
  exact ⟨hgroup.wellFormed (mounted_of_init (Option.some_get _).symm) (by decide +kernel)
    (by decide +kernel) (by decide +kernel) (by decide +kernel) (by decide +kernel),
    by decide +kernel⟩

/-- On a well-formed image with 1 KiB blocks, of which blocks 1 to 7 are in use, `alloc_block`
returns block 7, the data block of the root directory. -/
theorem root_directory_handed_out :
    smallVolume.WellFormed (smallVolume.UpTo 7) ∧ smallVolume.rootBlock = 7 ∧
      smallVolume.Marked 7 ∧ smallVolume.allocBlock.1 = some 7 ∧
      ¬smallVolume.AllocSound (smallVolume.UpTo 7) := by
  obtain ⟨hwf, hmarked, halloc, hroot⟩ := small_facts
  refine ⟨hwf, hroot, hmarked, halloc, ?_⟩
  unfold AllocSound
  cases h : smallVolume.allocBlock with
  | mk r =>
    rw [h] at halloc
    obtain rfl : r = some 7 := halloc
    intro htakes
    exact htakes.clear hmarked

/-- 16 blocks of 4 KiB with the same contents, in blocks 0 to 5. -/
def largeBytes : List (Nat × UInt8) :=
  [ -- superblock: 16 inodes, 16 blocks, 10 free ones, 6 free inodes, block size 1024 << 2
    (1024, 16), (1028, 16), (1036, 10), (1040, 6), (1048, 2),
    -- 32768 blocks and 16 inodes per group, magic, first inode 11, inodes of 128 bytes
    (1057, 128), (1064, 16), (1080, 0x53), (1081, 0xEF), (1108, 11), (1112, 128),
    -- descriptor of group 0: block bitmap 2, inode bitmap 3, inodes in block 4, free counts
    (4096, 2), (4100, 3), (4104, 4), (4108, 10), (4110, 6),
    -- blocks 0 to 5 in use, inodes 1 to 10 in use
    (8192, 0x3F), (12288, 0xFF), (12289, 0x03),
    -- inode 2, the root directory: one block, block 5
    (16512, 0xED), (16513, 0x41), (16517, 16), (16538, 2), (16540, 8), (16552, 5)]

lemma large_mounts : (ext4Init (sparseImage largeBytes 8194 12288) 65536).isSome = true := by
  decide +kernel

/-- The image with 4 KiB blocks after `ext4_init`. -/
def largeVolume : Volume := (ext4Init (sparseImage largeBytes 8194 12288) 65536).get large_mounts

lemma large_facts : largeVolume.WellFormed (largeVolume.UpTo 5) ∧ largeVolume.firstDataBlock = 0 ∧
    ¬largeVolume.BlockUninit 0 ∧ groupsFor largeVolume.blocksCount largeVolume.blocksPerGroup = 1 ∧
    largeVolume.allocBlock.1 = some 6 := by
  have hgroup : largeVolume.OneGroup 5 := ⟨by decide +kernel, by decide +kernel, by decide +kernel,
    by decide +kernel, by decide +kernel, by decide +kernel, by decide +kernel⟩
  exact ⟨hgroup.wellFormed (mounted_of_init (Option.some_get _).symm) (by decide +kernel)
    (by decide +kernel) (by decide +kernel) (by decide +kernel) (by decide +kernel),
    by decide +kernel⟩

/-- On the image with 4 KiB blocks `alloc_block` returns block 6, the first free one. -/
theorem allocBlock_sound_large :
    largeVolume.WellFormed (largeVolume.UpTo 5) ∧ largeVolume.AllocSound (largeVolume.UpTo 5) ∧
      largeVolume.allocBlock.1 = some 6 := by
  obtain ⟨hwf, hzero, hflag, hgroups, halloc⟩ := large_facts
  refine ⟨hwf, (allocBlock_sound_iff hwf).2 (.inr ⟨hzero, fun g i hfirst huninit => ?_⟩), halloc⟩
  have hg := hfirst.offers.group
  obtain rfl : g = 0 := by omega
  exact absurd huninit hflag

end Volume

end AosKernel.Ext4
