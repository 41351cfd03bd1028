import OffRow.Proofs.GrowthLimits
import Mathlib.Order.Interval.Finset.Nat

namespace OffRow

namespace Pool

variable {p : Pool} {c : SizeClass} {first i j k n : Nat}

def slotStart (c : SizeClass) (j : Nat) : Nat := Word.wrapMul j (stride c)

def slotBytes (c : SizeClass) (j : Nat) : Finset Nat :=
  Finset.Ico (slotStart c j) (slotStart c j + (headerSize + c.blockSize))

theorem stride_isLeast (c : SizeClass) : IsLeast {n | 8 ∣ n ∧ headerSize + c.blockSize ≤ n} (stride c) := by
  refine ⟨⟨Nat.dvd_of_mod_eq_zero (stride_mod c), le_stride c⟩, ?_⟩
  rintro n ⟨hdvd, hle⟩
  unfold stride
  omega

theorem placeOf_lt_iff (hf : 0 < first) :
    i < j ↔ (placeOf first i).chunk < (placeOf first j).chunk ∨
      (placeOf first i).chunk = (placeOf first j).chunk ∧
        (placeOf first i).offset < (placeOf first j).offset := by
  have hi := total_add_offset first i
  have hj := total_add_offset first j
  have hilt := lt_total_placeOf hf i
  have hjlt := lt_total_placeOf hf j
  -- A chunk ends where the next one starts, so the earlier of two chunks has the smaller numbers.
  rcases lt_trichotomy (placeOf first i).chunk (placeOf first j).chunk with h | h | h
  · have hnext : total first ((placeOf first i).chunk + 1) ≤ _ := total_mono first h
    exact iff_of_true (by omega) (.inl h)
  · rw [h] at hi ⊢
    omega
  · have hnext : total first ((placeOf first j).chunk + 1) ≤ _ := total_mono first h
    omega

theorem slotStart_eq (h : stride c * (j + 1) ≤ Word.largest) : slotStart c j = j * stride c := by
  refine Word.wrapMul_of_le _ _ (Nat.le_trans ?_ h)
  rw [Nat.mul_comm]
  exact Nat.mul_le_mul_left _ (Nat.le_succ j)

/-- How `n` slots lie in the allocation of their chunk. -/
structure Laid (c : SizeClass) (n : Nat) (layout : Layout) : Prop where
  size : layout.size = n * stride c
  align : layout.align = 8
  start : ∀ j < n, slotStart c j = j * stride c
  aligned : ∀ j < n, ∀ base, layout.align ∣ base → 8 ∣ base + slotStart c j
  within : ∀ j < n, slotBytes c j ⊆ Finset.range layout.size
  apart : ∀ i < n, ∀ j < n, i ≠ j → Disjoint (slotBytes c i) (slotBytes c j)

theorem laid {layout : Layout} (h : Layout.words? (stride c * n) = some layout) : Laid c n layout := by
  obtain ⟨hsize, halign⟩ := Layout.of_words? h
  have hfits := (Layout.words?_isSome (stride c * n)).mp (h ▸ rfl)
  have hblock := le_stride c
  have hmul : ∀ j < n, stride c * (j + 1) ≤ stride c * n := fun j hj => Nat.mul_le_mul_left _ hj
  have hstart : ∀ j < n, slotStart c j = j * stride c := by
    intro j hj
    have hle := hmul j hj
    exact slotStart_eq (by unfold Word.largest; omega)
  have hend : ∀ i j, i < j → i * stride c + (headerSize + c.blockSize) ≤ j * stride c := by
    intro i j hij
    calc i * stride c + (headerSize + c.blockSize)
        ≤ i * stride c + stride c := Nat.add_le_add_left hblock _
      _ = (i + 1) * stride c := (Nat.succ_mul i _).symm
      _ ≤ j * stride c := Nat.mul_le_mul_right _ hij
  have hapart : ∀ i < n, ∀ j < n, i < j → Disjoint (slotBytes c i) (slotBytes c j) := by
    intro i hi j hj hij
    rw [slotBytes, slotBytes, hstart i hi, hstart j hj]
    exact Finset.Ico_disjoint_Ico_consecutive _ _ _ |>.mono_right
      (Finset.Ico_subset_Ico_left (hend i j hij))
  refine ⟨by rw [hsize, Nat.mul_comm], halign, hstart, fun j hj base hbase => ?_, fun j hj => ?_,
    fun i hi j hj hij => ?_⟩
  · rw [halign] at hbase
    rw [hstart j hj]
    exact Nat.dvd_add hbase (Nat.dvd_mul_left_of_dvd (Nat.dvd_of_mod_eq_zero (stride_mod c)) j)
  · rw [slotBytes, hstart j hj, hsize, Nat.mul_comm (stride c), Finset.range_eq_Ico]
    exact Finset.Ico_subset_Ico (Nat.zero_le _) (hend j n hj)
  · rcases Nat.lt_or_gt_of_ne hij with hij | hij
    · exact hapart i hi j hj hij
    · exact (hapart j hj i hi hij).symm

theorem Shaped.exists_laid (h : p.Shaped) {chunk : Array Slot} (hk : p.chunks[k]? = some chunk) :
    ∃ layout, Layout.words? (stride p.sizeClass * chunk.size) = some layout ∧
      Laid p.sizeClass chunk.size layout := by
  have hlt : k < p.chunks.size := (Array.getElem?_eq_some_iff.mp hk).1
  have hfits := h.fits k hlt
  rw [chunkBytes, ← h.chunk_size k chunk hk] at hfits
  obtain ⟨layout, hl⟩ := Option.isSome_iff_exists.mp ((Layout.words?_isSome _).mpr hfits)
  exact ⟨layout, hl, laid hl⟩

theorem Locates.unwrapped {w : Place} (h : p.Locates i w) (hi : i ≤ Word.largest) :
    Word.wrapSub (2 ^ w.chunk) 1 = 2 ^ w.chunk - 1 ∧
      Word.wrapSub i (p.firstSlots * (2 ^ w.chunk - 1)) = i - p.firstSlots * (2 ^ w.chunk - 1) := by
  have hlog : 2 ^ w.chunk ≤ i / p.firstSlots + 1 := h.chunk.1 ▸ Nat.log2_self_le (Nat.succ_ne_zero _)
  have hscaled := ((Word.add?_eq_some _ _ _).mp h.scaled).1
  refine ⟨Word.wrapSub_of_le _ _ (Nat.two_pow_pos _) (by omega), Word.wrapSub_of_le _ _ ?_ hi⟩
  have hsum := h.offset.1
  omega

end Pool

/-- Each slot number below the capacity of a pool is found at one place in its chunks, in the order of
the places, and each place of each chunk has a number. No word wraps on the way, and none of the checks
on the place fails. Header and payload of the slots of a chunk take bytes of their own within the
allocation of the chunk, each from a multiple of eight. -/
theorem slot_addressing (ts : List (Turn Command)) (p : PoolId) (cell : SharedPool)
    (hp : (Engine.start.after Command.run ts).store.pools.get? p = some cell) :
    let c := cell.pool.sizeClass
    let f := cell.pool.firstSlots
    let m := cell.pool.chunks.size
    1 ≤ f ∧ cell.pool.capacity = f * (2 ^ m - 1) ∧
      (∀ i < cell.pool.capacity, ∃ w, Pool.locate? f i = some w ∧ cell.pool.place i = .ok w ∧
        w.chunk < m ∧ w.offset < f * 2 ^ w.chunk ∧ f * (2 ^ w.chunk - 1) + w.offset = i ∧
        cell.pool.Locates i w ∧ Word.wrapSub (2 ^ w.chunk) 1 = 2 ^ w.chunk - 1 ∧
        Word.wrapSub i (f * (2 ^ w.chunk - 1)) = i - f * (2 ^ w.chunk - 1)) ∧
      (∀ i < cell.pool.capacity, ∀ j < cell.pool.capacity, ∀ v w, Pool.locate? f i = some v →
        Pool.locate? f j = some w →
        (v = w ↔ i = j) ∧ (i < j ↔ v.chunk < w.chunk ∨ v.chunk = w.chunk ∧ v.offset < w.offset)) ∧
      (∀ k < m, ∀ j < f * 2 ^ k, ∃ i < cell.pool.capacity, Pool.locate? f i = some ⟨k, j⟩) ∧
      IsLeast {n | 8 ∣ n ∧ 16 + c.blockSize ≤ n} (Pool.stride c) ∧
      ∀ k < m, ∃ chunk layout, cell.pool.chunks[k]? = some chunk ∧ chunk.size = f * 2 ^ k ∧
        Layout.words? (Pool.stride c * chunk.size) = some layout ∧ Pool.Laid c chunk.size layout := by
  intro c f m
  have hw : cell.pool.WellFormed := Engine.wellFormed_after ts p cell hp
  have hf : 0 < f := cell.pool.firstSlots_pos
  have hcap := hw.capacity_lt
  have hword : ∀ {i}, i < cell.pool.capacity → i < Word.largest :=
    fun hi => Nat.lt_trans hi (Nat.lt_trans hcap (by decide))
  have hloc : ∀ {i}, i < cell.pool.capacity → Pool.locate? f i = some (Pool.placeOf f i) :=
    fun hi => Pool.locate?_eq (hword hi)
  refine ⟨hf, hw.capacity_eq, fun i hi => ?_, fun i hi j hj v w hv hw => ?_, fun k hk j hj => ?_,
    Pool.stride_isLeast c, fun k hk => ?_⟩
  · have hlocates := hw.locates hi
    exact ⟨_, hloc hi, hw.place_eq hi, hlocates.chunk.2, hlocates.offset.2, hlocates.offset.1, hlocates,
      hlocates.unwrapped (Nat.le_of_lt (hword hi))⟩
  · obtain rfl := Option.some.inj ((hloc hi).symm.trans hv)
    obtain rfl := Option.some.inj ((hloc hj).symm.trans hw)
    exact ⟨Pool.placeOf_inj, Pool.placeOf_lt_iff hf⟩
  · have hplace := Pool.placeOf_total_add hf hj
    have hi : Pool.total f k + j < cell.pool.capacity := by
      rw [hw.capacity_eq, ← Pool.placeOf_chunk_lt hf, hplace]
      exact hk
    exact ⟨_, hi, hplace ▸ hloc hi⟩
  · have hchunk := Array.getElem?_eq_getElem hk
    obtain ⟨layout, hl, hlaid⟩ := hw.exists_laid hchunk
    exact ⟨_, layout, hchunk, hw.chunk_size k _ hchunk, hl, hlaid⟩

def twoChunks : List (Turn Command) :=
  [⟨.ask (.openPool ⟨8, by decide⟩ 432 .mayDropItems), 0, some⟩, ⟨.openOwner 8, 0, some⟩,
    ⟨.openOwner 8, 0, some⟩, ⟨.openOwner 8, 0, some⟩, ⟨.openOwner 8, 0, some⟩,
    ⟨.allocateBlock ⟨0⟩ ⟨0⟩, 0, some⟩, ⟨.allocateBlock ⟨0⟩ ⟨1⟩, 0, some⟩,
    ⟨.allocateBlock ⟨0⟩ ⟨2⟩, 0, some⟩, ⟨.allocateBlock ⟨0⟩ ⟨3⟩, 0, some⟩]

theorem slot_addressing_three :
    ∃ cell : SharedPool, (Engine.start.after Command.run twoChunks).store.pools.get? ⟨0⟩ = some cell ∧
      cell.pool.firstSlots = 3 ∧ cell.pool.capacity = 9 ∧
      (∃ w, Pool.locate? 3 3 = some w ∧ cell.pool.place 3 = .ok w) ∧
      ∃ i < 9, Pool.locate? 3 i = some ⟨1, 5⟩ := by
  have hsome : ((Engine.start.after Command.run twoChunks).store.pools.get? ⟨0⟩).map
      (fun c => (c.pool.firstSlots, c.pool.chunks.size)) = some (3, 2) := by decide +kernel
  obtain ⟨cell, hp, hsizes⟩ := Option.map_eq_some_iff.mp hsome
  obtain ⟨hf, hm⟩ := Prod.mk.inj hsizes
  obtain ⟨-, hcap, hplaces, -, honto, -⟩ := slot_addressing twoChunks ⟨0⟩ cell hp
  rw [hf, hm] at hcap
  rw [hcap] at hplaces honto
  obtain ⟨w, hloc, hplace, -⟩ := hplaces 3 (by decide)
  rw [hf] at hloc honto
  refine ⟨cell, hp, hf, hcap, ⟨w, hloc, hplace⟩, ?_⟩
  exact honto 1 (by omega) 5 (by decide)

end OffRow
