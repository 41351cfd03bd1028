import OffRow.Proofs.Fills
import OffRow.Proofs.PoolMemory

namespace OffRow

namespace Pool

variable {p : Pool} {i k : Nat}

theorem Shaped.chunks_lt (h : p.Shaped) : p.chunks.size < 60 := by
  cases hm : p.chunks.size with
  | zero => decide
  | succ m =>
    have hfits := h.fits m (by omega)
    have hstride := le_stride_mul p.sizeClass (p.firstSlots * 2 ^ m)
    have hfirst : 2 ^ m ≤ p.firstSlots * 2 ^ m := Nat.le_mul_of_pos_left _ p.firstSlots_pos
    have hpow : 2 ^ m < 2 ^ 59 := by
      unfold chunkBytes at hfits
      omega
    have hm59 : m < 59 := (Nat.pow_lt_pow_iff_right (by decide)).mp hpow
    omega

theorem Shaped.nextSlots_le (h : p.Shaped) (hf : p.firstSlots ≤ Word.largest) :
    p.firstSlots * 2 ^ p.chunks.size ≤ Word.largest := by
  cases hm : p.chunks.size with
  | zero => simpa using hf
  -- The chunk before it is a layout, and the next one has twice as many slots.
  | succ m =>
    have hfits := h.fits m (by omega)
    have hstride := le_stride_mul p.sizeClass (p.firstSlots * 2 ^ m)
    have hnext : p.firstSlots * 2 ^ (m + 1) = 2 * (p.firstSlots * 2 ^ m) := by
      rw [Nat.pow_succ]
      ring
    rw [hnext]
    unfold chunkBytes at hfits
    unfold Word.largest
    omega

theorem Shaped.capacity_add_le (h : p.Shaped) (hb : p.chunkBytes p.chunks.size ≤ 2 ^ 63 - 8) :
    p.capacity + p.firstSlots * 2 ^ p.chunks.size ≤ Word.largest := by
  have hcap := h.capacity_lt
  have hstride := le_stride_mul p.sizeClass (p.firstSlots * 2 ^ p.chunks.size)
  unfold chunkBytes at hb
  unfold Word.largest
  omega

/-- The words that lead to slot `i`: none of the steps leaves the range of a word, and the offset in
bytes ends within the chunk. -/
structure Locates (p : Pool) (i : Nat) (w : Place) : Prop where
  scaled : Word.add? (i / p.firstSlots) 1 = some (i / p.firstSlots + 1)
  chunk : w.chunk = (i / p.firstSlots + 1).log2 ∧ w.chunk < p.chunks.size
  power : Word.shl? 1 w.chunk = some (2 ^ w.chunk)
  start : Word.wrapMul p.firstSlots (Word.wrapSub (2 ^ w.chunk) 1) = p.firstSlots * (2 ^ w.chunk - 1)
  offset : p.firstSlots * (2 ^ w.chunk - 1) + w.offset = i ∧ w.offset < p.firstSlots * 2 ^ w.chunk
  bytes : stride p.sizeClass * (w.offset + 1) + 8 ≤ 2 ^ 63

theorem Shaped.locates (h : p.Shaped) (hi : i < p.capacity) : p.Locates i (placeOf p.firstSlots i) := by
  have hcap := h.capacity_lt
  have hdiv : i / p.firstSlots ≤ i := Nat.div_le_self _ _
  have hchunk : (placeOf p.firstSlots i).chunk < p.chunks.size :=
    (placeOf_chunk_lt p.firstSlots_pos).mpr (h.capacity_eq ▸ hi)
  have hchunks := h.chunks_lt
  have hstart := total_placeOf_le p.firstSlots i
  have hoffset := offset_lt p.firstSlots_pos i
  have hpow : 1 ≤ 2 ^ (placeOf p.firstSlots i).chunk := Nat.two_pow_pos _
  have hlargest : 2 ^ (placeOf p.firstSlots i).chunk ≤ Word.largest := by
    have hlt : 2 ^ (placeOf p.firstSlots i).chunk < 2 ^ 60 :=
      Nat.pow_lt_pow_right (by decide) (by omega)
    unfold Word.largest
    omega
  refine ⟨?_, ⟨rfl, hchunk⟩, ?_, ?_, ⟨total_add_offset p.firstSlots i, hoffset⟩, ?_⟩
  · refine (Word.add?_eq_some _ _ _).mpr ⟨?_, rfl⟩
    unfold Word.largest
    omega
  · rw [Word.shl?_one _ (by omega), Nat.one_shiftLeft]
  · rw [Word.wrapSub_of_le _ _ hpow hlargest]
    refine Word.wrapMul_of_le _ _ ?_
    unfold total at hstart
    unfold Word.largest
    omega
  · have hfits := h.fits _ hchunk
    have hmul : stride p.sizeClass * ((placeOf p.firstSlots i).offset + 1) ≤
        p.chunkBytes (placeOf p.firstSlots i).chunk := Nat.mul_le_mul_left _ hoffset
    omega

theorem satMul_len (h : p.WellFormed) : Word.satMul p.len 4 = 4 * p.len := by
  have hcap := h.capacity_lt
  have hlen := h.len_le
  unfold Word.satMul Word.largest
  omega

theorem not_canAllocate (h : p.WellFormed) (grants : Nat → Bool) :
    ¬p.CanAllocate grants ↔ p.len = p.capacity ∧
      (2 ^ 63 - 8 < p.chunkBytes p.chunks.size ∨ grants (p.chunkBytes p.chunks.size) = false) := by
  have hlen := h.len_le
  unfold CanAllocate CanGrow
  rw [not_or, not_and_or, Bool.not_eq_true]
  constructor
  · rintro ⟨hfull, hbytes | hrefused⟩
    · exact ⟨by omega, .inl (by omega)⟩
    · exact ⟨by omega, .inr hrefused⟩
  · rintro ⟨hfull, hbytes | hrefused⟩
    · exact ⟨by omega, .inl (by omega)⟩
    · exact ⟨by omega, .inr hrefused⟩

end Pool

namespace Store

variable {s : Store} {p : PoolId} {cell : SharedPool}

theorem allocateBlock_limits (hp : s.pools.get? p = some cell) (hw : cell.pool.WellFormed)
    (ht : s.thread = cell.pool.ownerThread) (owner : HandleId) :
    let n := cell.pool.chunkBytes cell.pool.chunks.size
    let o := (allocateBlock p owner).run s
    ((∃ failure, o.result = .error failure) ↔
        cell.pool.len = cell.pool.capacity ∧ (2 ^ 63 - 8 < n ∨ s.allocator n = none)) ∧
      (∀ failure, o.result = .error failure →
        failure = .error (.outOfMemory (min n Word.largest)) ∧ o.state = s ∧ o.events = []) ∧
      (cell.pool.len < cell.pool.capacity → ∃ w, o.result = .ok w) := by
  intro n
  have hnot := Pool.not_canAllocate hw s.grants
  have hgrants : s.grants n = false ↔ s.allocator n = none := by simp [grants]
  have hrun := allocateBlock_run hp hw owner
  rw [if_neg (not_not.mpr ht)] at hrun
  simp only [hrun]
  by_cases hg : cell.pool.CanAllocate s.grants
  · rw [show (fun bytes => (s.allocator bytes).isSome) = s.grants from rfl, if_pos hg]
    refine ⟨iff_of_false nofun fun hfull => ?_, nofun, fun _ => ⟨_, rfl⟩⟩
    rw [← hgrants] at hfull
    exact hnot.mpr hfull hg
  · rw [show (fun bytes => (s.allocator bytes).isSome) = s.grants from rfl, if_neg hg]
    have hfull := hnot.mp hg
    refine ⟨iff_of_true ⟨_, rfl⟩ ⟨hfull.1, hfull.2.imp_right hgrants.mp⟩, fun failure hf => ?_, fun hlt => ?_⟩
    · cases hf
      exact ⟨rfl, rfl, rfl⟩
    · exact absurd hfull.1 (Nat.ne_of_lt hlt)

end Store

/-- A block is refused, on the thread of its pool, if no slot is vacant and the next chunk is too large
for a layout or not granted. The error tells the size of that chunk and leaves everything as it was. No
number overflows on the way to a chunk or to a slot, and nothing that is done to the pools fails for a
defect of a pool. -/
theorem growth_limits (ts : List (Turn Command))
    (hwords : ∀ t ∈ ts, ∀ bytes, t.action.firstBytes? = some bytes → bytes ≤ Word.largest) (p : PoolId)
    (cell : SharedPool) (hp : (Engine.start.after Command.run ts).store.pools.get? p = some cell) :
    let e := Engine.start.after Command.run ts
    let f := cell.pool.firstSlots
    let k := cell.pool.chunks.size
    let n := Pool.stride cell.pool.sizeClass * (f * 2 ^ k)
    (∀ answers owner,
      let s : Store := { e.store with thread := cell.pool.ownerThread, allocator := answers }
      let o := (Store.allocateBlock p owner).run s
      ((∃ failure, o.result = .error failure) ↔
          cell.pool.len = cell.pool.capacity ∧ (2 ^ 63 - 8 < n ∨ answers n = none)) ∧
        (∀ failure, o.result = .error failure →
          failure = .error (.outOfMemory (min n (2 ^ 64 - 1))) ∧ o.state = s ∧ o.events = []) ∧
        (cell.pool.len < cell.pool.capacity → ∃ w, o.result = .ok w)) ∧
      Word.shl? 1 k = some (2 ^ k) ∧ cell.pool.nextSlots? = some (f * 2 ^ k) ∧
      (n ≤ 2 ^ 63 - 8 →
        Word.add? cell.pool.capacity (f * 2 ^ k) = some (cell.pool.capacity + f * 2 ^ k)) ∧
      Word.satMul cell.pool.len 4 = 4 * cell.pool.len ∧
      (∀ i < cell.pool.capacity, ∃ w, Pool.locate? f i = some w ∧ cell.pool.place i = .ok w ∧
        cell.pool.Locates i w) ∧
      ∀ t failure, (e.turn Command.run t).result = .error failure → failure.Outward := by
  intro e f k n
  have hw : cell.pool.WellFormed := Engine.wellFormed_after ts p cell hp
  have hfirst : f ≤ Word.largest := (Engine.words_after hwords Engine.start_words).pools hp
  have hchunks := hw.chunks_lt
  have hcap := hw.capacity_lt
  refine ⟨fun answers owner => ?_, ?_, ?_, fun hn => ?_, Pool.satMul_len hw, fun i hi => ?_, ?_⟩
  · exact Store.allocateBlock_limits
      (s := { e.store with thread := cell.pool.ownerThread, allocator := answers }) hp hw rfl owner
  · rw [Word.shl?_one _ (Nat.lt_trans hchunks (by decide)), Nat.one_shiftLeft]
  · rw [Pool.nextSlots?_eq, if_pos (hw.nextSlots_le hfirst)]
  · exact (Word.add?_eq_some _ _ _).mpr ⟨hw.capacity_add_le hn, rfl⟩
  · have hi' : i < Word.largest := Nat.lt_trans hi (Nat.lt_trans hcap (by decide))
    exact ⟨_, Pool.locate?_eq hi', hw.place_eq hi, hw.locates hi⟩
  · exact fun t failure hf => Engine.outward_after ts t hf

def freshPool : List (Turn Command) := [⟨.ask (.openPool ⟨4, by decide⟩ 96 .mayDropItems), 0, some⟩]

theorem growth_limits_refused :
    let s : Store := { (Engine.start.after Command.run freshPool).store with
      thread := 0
      allocator := fun _ => none }
    let o := (Store.allocateBlock ⟨0⟩ ⟨0⟩).run s
    o.result = .error (.error (.outOfMemory 96)) ∧ o.state = s := by
  have hwords : ∀ t ∈ freshPool, ∀ bytes, t.action.firstBytes? = some bytes → bytes ≤ Word.largest := by
    intro t ht bytes hb
    obtain rfl := List.mem_singleton.mp ht
    cases hb
    decide
  obtain ⟨hfails, herror, -⟩ := (growth_limits freshPool hwords ⟨0⟩
    ⟨.new ⟨4, by decide⟩ 96 .mayDropItems 0, 1, 0⟩ rfl).1 (fun _ => none) ⟨0⟩
  obtain ⟨failure, hf⟩ := hfails.mpr ⟨rfl, .inr rfl⟩
  obtain ⟨rfl, hstate, -⟩ := herror failure hf
  exact ⟨hf, hstate⟩

end OffRow
