import OffRow.Pool.Capacity
import OffRow.Proofs.Outcomes
import OffRow.Proofs.Pool.Invariant

namespace OffRow.Pool

def extended (p : Pool) : Pool :=
  { p with
    chunks := p.chunks.push (Array.replicate (p.firstSlots * 2 ^ p.chunks.size) .vacant)
    capacity := total p.firstSlots (p.chunks.size + 1) }

def keep (p : Pool) (k : Nat) : Pool :=
  { p with chunks := p.chunks.extract 0 k, capacity := total p.firstSlots k }

def CanGrow (p : Pool) (grants : Nat → Bool) : Prop :=
  p.chunkBytes p.chunks.size + 8 ≤ 2 ^ 63 ∧ grants (p.chunkBytes p.chunks.size)

instance (p : Pool) (grants : Nat → Bool) : Decidable (p.CanGrow grants) :=
  inferInstanceAs (Decidable (_ ∧ _))

def settle (idle : Nat → Bool) : Nat → Nat
  | 0 => 0
  | k + 1 => if idle (k + 1) then settle idle k else k + 1

def releaseEvents (p : Pool) (idle : Nat → Bool) : Nat → List Event
  | 0 => []
  | k + 1 =>
    if idle (k + 1) then
      .chunkReleased p.blockSize (p.firstSlots * 2 ^ k) (total p.firstSlots k) ::
        releaseEvents p idle k
    else []

def isSpare (p : Pool) (k : Nat) : Bool := 0 < k && p.len ≤ total p.firstSlots (k - 1)

def isSparse (p : Pool) (k : Nat) : Bool := 1 < k && 4 * p.len < total p.firstSlots k

variable {p : Pool} {i k : Nat}

theorem settle_le (idle : Nat → Bool) (k : Nat) : settle idle k ≤ k := by
  induction k with
  | zero => exact Nat.le_refl 0
  | succ k ih =>
    unfold settle
    split
    · exact Nat.le_succ_of_le ih
    · exact Nat.le_refl _

theorem keep_chunks_size (hk : k ≤ p.chunks.size) : (p.keep k).chunks.size = k := by
  simp [keep, hk]

theorem chunk_of_keep {l : Nat} {chunk : Array Slot} (h : (p.keep k).chunks[l]? = some chunk) :
    l < k ∧ p.chunks[l]? = some chunk := by
  simp only [keep, Array.getElem?_extract, Nat.sub_zero, Nat.zero_add] at h
  split at h
  · next hl => exact ⟨by omega, h⟩
  · cases h

theorem chunk_keep_of_lt {l : Nat} (hl : l < k) : (p.keep k).chunks[l]? = p.chunks[l]? := by
  simp only [keep, Array.getElem?_extract, Nat.sub_zero, Nat.zero_add]
  split
  · rfl
  · exact (Array.getElem?_eq_none (by omega)).symm

theorem Shaped.keep (h : p.Shaped) (hk : k ≤ p.chunks.size) : (p.keep k).Shaped where
  chunk_size l chunk hl := h.chunk_size l chunk (chunk_of_keep hl).2
  capacity_eq := by rw [keep_chunks_size hk]; rfl
  fits l hl := by
    rw [keep_chunks_size hk] at hl
    exact h.fits l (by omega)

theorem Shaped.keep_size (h : p.Shaped) : p.keep p.chunks.size = p := by
  obtain ⟨c, first, hf, chunks, capacity, len, owner, policy⟩ := p
  have hc := h.capacity_eq
  simp only at hc
  simp [Pool.keep, hc]

theorem get?_keep (hi : i < total p.firstSlots k) : (p.keep k).get? i = p.get? i := by
  have hc := (placeOf_chunk_lt p.firstSlots_pos).mpr hi
  have hf : (p.keep k).firstSlots = p.firstSlots := rfl
  rw [get?, get?, slot?, slot?, hf, chunk_keep_of_lt hc]

theorem WellFormed.keep (h : p.WellFormed) (hk : k ≤ p.chunks.size)
    (hl : p.len ≤ total p.firstSlots k) : (p.keep k).WellFormed where
  toShaped := h.toShaped.keep hk
  len_le := hl
  live i hi := by
    rw [get?_keep (Nat.lt_of_lt_of_le hi hl)]
    exact h.live i hi
  vacant i hi hc := by
    rw [get?_keep hc]
    have hm := total_mono p.firstSlots hk
    rw [← h.capacity_eq] at hm
    exact h.vacant i hi (Nat.lt_of_lt_of_le hc hm)

theorem extended_capacity (h : p.Shaped) :
    p.extended.capacity = p.capacity + p.firstSlots * 2 ^ p.chunks.size := by
  rw [h.capacity_eq, ← total_succ]
  rfl

theorem Shaped.extended (h : p.Shaped) (hf : p.chunkBytes p.chunks.size + 8 ≤ 2 ^ 63) :
    p.extended.Shaped where
  chunk_size k chunk hk := by
    simp only [Pool.extended, Array.getElem?_push] at hk
    split at hk
    · next he =>
      subst he
      simp only [Option.some.injEq] at hk
      simp [← hk, Pool.extended]
    · exact h.chunk_size k chunk hk
  capacity_eq := by simp [Pool.extended]
  fits k hk := by
    simp only [Pool.extended, Array.size_push] at hk
    rcases Nat.lt_succ_iff_lt_or_eq.mp hk with hk | rfl
    · exact h.fits k hk
    · exact hf

theorem get?_extended_of_lt (h : p.Shaped) (hi : i < p.capacity) : p.extended.get? i = p.get? i := by
  rw [h.capacity_eq] at hi
  have hc := (placeOf_chunk_lt p.firstSlots_pos).mpr hi
  simp [get?, slot?, extended, Array.getElem?_push, Nat.ne_of_lt hc]

theorem get?_extended_of_ge (h : p.Shaped) (hl : p.capacity ≤ i) (hi : i < p.extended.capacity) :
    p.extended.get? i = some .vacant := by
  rw [h.capacity_eq] at hl
  have hc : (placeOf p.firstSlots i).chunk = p.chunks.size := by
    have hlt := (placeOf_chunk_lt p.firstSlots_pos).mpr hi
    have hge : ¬(placeOf p.firstSlots i).chunk < p.chunks.size := by
      rw [placeOf_chunk_lt p.firstSlots_pos]
      omega
    omega
  have ho := offset_lt p.firstSlots_pos i
  rw [hc] at ho
  simp [get?, slot?, extended, hc, ho]

theorem WellFormed.extended (h : p.WellFormed) (hf : p.chunkBytes p.chunks.size + 8 ≤ 2 ^ 63) :
    p.extended.WellFormed where
  toShaped := h.toShaped.extended hf
  len_le := by
    rw [extended_capacity h.toShaped]
    exact Nat.le_add_right_of_le h.len_le
  live i hi := by
    rw [get?_extended_of_lt h.toShaped (Nat.lt_of_lt_of_le hi h.len_le)]
    exact h.live i hi
  vacant i hi hc := by
    by_cases hl : i < p.capacity
    · rw [get?_extended_of_lt h.toShaped hl]
      exact h.vacant i hi hl
    · exact ⟨.empty, get?_extended_of_ge h.toShaped (Nat.le_of_not_lt hl) hc⟩

theorem nextSlots?_eq (p : Pool) :
    p.nextSlots? =
      if p.firstSlots * 2 ^ p.chunks.size ≤ Word.largest
        then some (p.firstSlots * 2 ^ p.chunks.size) else none := by
  by_cases hm : p.chunks.size < 64
  · rw [nextSlots?, Word.shl?_one _ hm, Option.bind_some, Word.mul?, Nat.one_shiftLeft]
  · have hp : 2 ^ 64 ≤ 2 ^ p.chunks.size := Nat.pow_le_pow_right (by decide) (by omega)
    have hf : 2 ^ p.chunks.size ≤ p.firstSlots * 2 ^ p.chunks.size :=
      Nat.le_mul_of_pos_left _ p.firstSlots_pos
    rw [nextSlots?, Word.shl?, if_neg hm, Option.bind_none, if_neg (by unfold Word.largest; omega)]

theorem granted_eq (grants : Nat → Bool) (stride slots : Nat) :
    granted grants stride slots =
      (decide (stride * slots + 8 ≤ 2 ^ 63) && grants (stride * slots)) := by
  unfold granted
  by_cases hm : stride * slots ≤ Word.largest
  · have hw : (Layout.words? (stride * slots)).isSome = decide (stride * slots + 8 ≤ 2 ^ 63) := by
      rw [Bool.eq_iff_iff, Layout.words?_isSome, decide_eq_true_iff]
      norm_num
    simp only [(Word.mul?_eq_some _ _ _).mpr ⟨hm, rfl⟩, hw]
  · have hn : ¬stride * slots + 8 ≤ 2 ^ 63 := by
      unfold Word.largest at hm
      omega
    simp only [Word.mul?, if_neg hm, hn, decide_false, Bool.false_and]

theorem granted_iff (grants : Nat → Bool) :
    granted grants (stride p.sizeClass) (p.firstSlots * 2 ^ p.chunks.size) = true ↔
      p.CanGrow grants := by
  rw [granted_eq, Bool.and_eq_true, decide_eq_true_iff]
  rfl

theorem grow_run (h : p.Shaped) (grants : Nat → Bool) :
    (grow grants).run p =
      if p.CanGrow grants then
        ⟨.ok (), p.extended,
          [.chunkReserved p.blockSize p.chunks.size (p.firstSlots * 2 ^ p.chunks.size)
            p.extended.capacity]⟩
      else
        ⟨.error (.error (.outOfMemory (min (p.chunkBytes p.chunks.size) Word.largest))), p, []⟩ := by
  have hs := le_stride_mul p.sizeClass (p.firstSlots * 2 ^ p.chunks.size)
  have hc := h.capacity_lt
  simp only [grow, Op.run_get_bind, nextSlots?_eq]
  by_cases hn : p.firstSlots * 2 ^ p.chunks.size ≤ Word.largest
  · simp only [if_pos hn]
    by_cases hg : p.CanGrow grants
    · have hadd : Word.add? p.capacity (p.firstSlots * 2 ^ p.chunks.size) =
          some p.extended.capacity := by
        rw [extended_capacity h, Word.add?_eq_some]
        have hb := hg.1
        unfold chunkBytes at hb
        unfold Word.largest
        exact ⟨by omega, rfl⟩
      rw [if_pos hg, if_pos ((granted_iff grants).mpr hg)]
      simp only [Op.run_modify_bind, hadd, Op.run_expect_some_bind, Op.run_emit]
      rfl
    · rw [if_neg hg, if_neg (mt (granted_iff grants).mp hg)]
      rfl
  · have hg : ¬p.CanGrow grants := by
      intro hg
      have hb := hg.1
      unfold chunkBytes at hb
      unfold Word.largest at hn
      omega
    have hm : min (p.chunkBytes p.chunks.size) Word.largest = Word.largest := by
      unfold chunkBytes
      omega
    rw [if_neg hn, if_neg hg, hm]
    rfl

theorem back?_keep (h : p.Shaped) (hk : k + 1 ≤ p.chunks.size) :
    ∃ chunk, (p.keep (k + 1)).chunks.back? = some chunk ∧ chunk.size = p.firstSlots * 2 ^ k := by
  have hs : p.chunks[k]? = some p.chunks[k] := Array.getElem?_eq_getElem hk
  refine ⟨p.chunks[k], ?_, h.chunk_size k _ hs⟩
  rw [Array.back?, keep_chunks_size hk, Nat.add_sub_cancel, chunk_keep_of_lt (Nat.lt_succ_self k), hs]

theorem capacity_sub_back (p : Pool) (k : Nat) :
    Word.sub? (p.keep (k + 1)).capacity (p.firstSlots * 2 ^ k) = some (total p.firstSlots k) := by
  have ht : (p.keep (k + 1)).capacity = total p.firstSlots k + p.firstSlots * 2 ^ k :=
    total_succ p.firstSlots k
  exact (Word.sub?_eq_some _ _ _).mpr (by omega)

theorem releaseLast_run (h : p.Shaped) (hk : k + 1 ≤ p.chunks.size)
    (hl : p.len ≤ total p.firstSlots k) :
    releaseLast.run (p.keep (k + 1)) =
      ⟨.ok (), p.keep k,
        [.chunkReleased p.blockSize (p.firstSlots * 2 ^ k) (total p.firstSlots k)]⟩ := by
  obtain ⟨chunk, hb, hs⟩ := back?_keep h hk
  have hpop : (p.chunks.extract 0 (k + 1)).pop = p.chunks.extract 0 k := by
    rw [← Array.extract_eq_pop rfl, Array.extract_extract]
    simp [hk]
  have he : (p.keep (k + 1)).len ≤ total p.firstSlots k := hl
  simp only [releaseLast, Op.run_get_bind, hb, Op.run_expect_some_bind, Op.run_modify_bind, hs,
    capacity_sub_back, Op.run_ensure_bind_pos _ he, Op.run_emit]
  simp only [keep, hpop]
  rfl

structure Releases (p : Pool) (test : Op Pool Bool) (idle : Nat → Bool) : Prop where
  run_eq : ∀ k ≤ p.chunks.size, test.run (p.keep k) = ⟨.ok (idle k), p.keep k, []⟩
  fits : ∀ k, idle (k + 1) = true → p.len ≤ total p.firstSlots k

theorem releaseWhile_run (h : p.Shaped) {test : Op Pool Bool} {idle : Nat → Bool}
    (ht : Releases p test idle) (hk : k ≤ p.chunks.size) :
    (releaseWhile test k).run (p.keep k) =
      ⟨.ok (), p.keep (settle idle k), releaseEvents p idle k⟩ := by
  induction k with
  | zero => rfl
  | succ k ih =>
    have hr := ht.run_eq (k + 1) hk
    unfold releaseWhile settle releaseEvents
    rw [Op.run_bind_silent hr]
    by_cases hi : idle (k + 1) = true
    · simp only [hi, ↓reduceIte]
      rw [Op.run_bind_ok (releaseLast_run h hk (ht.fits k hi)), ih (Nat.le_of_succ_le hk)]
      rfl
    · simp only [hi, Bool.false_eq_true, ↓reduceIte]
      rfl

theorem releases_spare (h : p.Shaped) : Releases p spare p.isSpare where
  run_eq k hk := by
    cases k with
    | zero => simp [spare, keep, isSpare]
    | succ k =>
      obtain ⟨chunk, hb, hs⟩ := back?_keep h hk
      simp only [spare, Op.run_get_bind, hb, hs, capacity_sub_back, Op.run_expect_some_bind]
      simp only [isSpare, Nat.add_sub_cancel, Nat.zero_lt_succ, decide_true, Bool.true_and]
      rfl
  fits k hi := by
    simp only [isSpare, Bool.and_eq_true, decide_eq_true_iff] at hi
    exact hi.2

theorem releases_sparse (h : p.Shaped) (hl : p.len ≤ p.capacity) : Releases p sparse p.isSparse where
  run_eq k hk := by
    have hc := h.capacity_lt
    have hm : Word.satMul p.len 4 = 4 * p.len := by
      unfold Word.satMul Word.largest
      omega
    have hs : (p.keep k).len = p.len := rfl
    simp only [sparse, Op.run_get_bind, keep_chunks_size hk, hs, hm]
    rfl
  fits k hi := by
    simp only [isSparse, Bool.and_eq_true, decide_eq_true_iff] at hi
    have ht := total_succ p.firstSlots k
    have he := total_eq_sum p.firstSlots k
    have hp : p.firstSlots ≤ total p.firstSlots k := by
      have := total_mono p.firstSlots (show 1 ≤ k by omega)
      simpa [total] using this
    omega

def fitted (p : Pool) : Pool := p.keep (settle p.isSpare p.chunks.size)

def thinned (p : Pool) : Pool := p.keep (settle p.isSparse p.chunks.size)

theorem shrinkToFit_run (h : p.Shaped) :
    shrinkToFit.run p = ⟨.ok (), p.fitted, releaseEvents p p.isSpare p.chunks.size⟩ := by
  have hr := releaseWhile_run h (releases_spare h) (Nat.le_refl _)
  rw [h.keep_size] at hr
  exact hr

theorem shrinkIfSparse_run (h : p.Shaped) (hl : p.len ≤ p.capacity) :
    shrinkIfSparse.run p = ⟨.ok (), p.thinned, releaseEvents p p.isSparse p.chunks.size⟩ := by
  have hr := releaseWhile_run h (releases_sparse h hl) (Nat.le_refl _)
  rw [h.keep_size] at hr
  exact hr

theorem len_le_settle {test : Op Pool Bool} {idle : Nat → Bool} (ht : Releases p test idle)
    (hl : p.len ≤ total p.firstSlots k) : p.len ≤ total p.firstSlots (settle idle k) := by
  induction k with
  | zero => exact hl
  | succ k ih =>
    unfold settle
    split
    · next hi => exact ih (ht.fits k hi)
    · exact hl

theorem get?_fitted (h : p.WellFormed) (hi : i < p.len) : p.fitted.get? i = p.get? i :=
  get?_keep (Nat.lt_of_lt_of_le hi
    (len_le_settle (releases_spare h.toShaped) (h.capacity_eq ▸ h.len_le)))

theorem get?_thinned (h : p.WellFormed) (hi : i < p.len) : p.thinned.get? i = p.get? i :=
  get?_keep (Nat.lt_of_lt_of_le hi
    (len_le_settle (releases_sparse h.toShaped h.len_le) (h.capacity_eq ▸ h.len_le)))

theorem WellFormed.fitted (h : p.WellFormed) : p.fitted.WellFormed :=
  h.keep (settle_le _ _) (len_le_settle (releases_spare h.toShaped) (h.capacity_eq ▸ h.len_le))

theorem WellFormed.thinned (h : p.WellFormed) : p.thinned.WellFormed :=
  h.keep (settle_le _ _)
    (len_le_settle (releases_sparse h.toShaped h.len_le) (h.capacity_eq ▸ h.len_le))

end OffRow.Pool
