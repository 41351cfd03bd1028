import OffRow.Proofs.Pool.Compaction
import OffRow.Proofs.Store.Checking
import Mathlib.Order.Bounds.Defs
/-!
How much memory a pool keeps. With more than one chunk it has at most four slots to a live block; that
is no single test of the code, but each change keeps it.
-/

namespace OffRow.Pool

def Thrifty (p : Pool) : Prop := p.chunks.size ≤ 1 ∨ p.capacity ≤ 4 * p.len

variable {p : Pool} {i k m : Nat} {owner : HandleId} {grants : Nat → Bool} {idle : Nat → Bool}

theorem new_thrifty (c : SizeClass) (firstBytes : Nat) (policy : DropPolicy) (thread : ThreadId) :
    (new c firstBytes policy thread).Thrifty := .inl (Nat.zero_le 1)

theorem Shaped.firstSlots_le (h : p.Shaped) (hm : 1 ≤ p.chunks.size) : p.firstSlots ≤ p.capacity := by
  have ht := total_mono p.firstSlots hm
  rw [← h.capacity_eq, total_succ, total_zero] at ht
  omega

theorem Thrifty.capacity_le (h : p.Thrifty) (hs : p.Shaped) :
    p.capacity ≤ max p.firstSlots (4 * p.len) := by
  rcases h with hm | hc
  · have ht := total_mono p.firstSlots hm
    rw [← hs.capacity_eq, total_succ, total_zero] at ht
    omega
  · omega

theorem chunks_size_roomy : p.roomy.chunks.size = p.chunks.size + if p.len = p.capacity then 1 else 0 := by
  unfold roomy
  split
  · simp [extended]
  · rfl

theorem chunks_size_pushed :
    (p.roomy.pushed owner).chunks.size = p.chunks.size + if p.len = p.capacity then 1 else 0 := by
  rw [← chunks_size_roomy]
  exact setAt_chunks_size

theorem Thrifty.pushed (h : p.Thrifty) (hs : p.Shaped) : (p.roomy.pushed owner).Thrifty := by
  have hsize : (p.roomy.pushed owner).chunks.size = _ := chunks_size_pushed
  have hlen : (p.roomy.pushed owner).len = p.len + 1 := congrArg (· + 1) roomy_len
  have hcap : (p.roomy.pushed owner).capacity = p.roomy.capacity := rfl
  unfold Thrifty
  rw [hsize, hlen, hcap, roomy]
  by_cases hfull : p.len = p.capacity
  -- The pool is full, and the new chunk has as many slots as all the others and one first chunk more.
  · rw [if_pos hfull, if_pos hfull, extended_capacity hs]
    by_cases hm : 1 ≤ p.chunks.size
    · have hf := hs.firstSlots_le hm
      have hc := total_eq_sum p.firstSlots p.chunks.size
      rw [← hs.capacity_eq] at hc
      right
      omega
    · left
      omega
  · rw [if_neg hfull, if_neg hfull]
    unfold Thrifty at h
    omega

theorem Thrifty.keep (h : p.Thrifty) (hs : p.Shaped) (hk : k ≤ p.chunks.size) : (p.keep k).Thrifty := by
  have hle := total_mono p.firstSlots hk
  rw [← hs.capacity_eq] at hle
  unfold Thrifty at h ⊢
  rw [keep_chunks_size hk]
  change k ≤ 1 ∨ total p.firstSlots k ≤ 4 * p.len
  omega

theorem Thrifty.fitted (h : p.Thrifty) (hs : p.Shaped) : p.fitted.Thrifty := h.keep hs (settle_le _ _)

theorem not_idle_settle (hk : settle idle k ≠ 0) : idle (settle idle k) = false := by
  induction k with
  | zero => exact absurd rfl hk
  | succ k ih =>
    unfold settle at hk ⊢
    split at hk
    · next hi =>
      rw [if_pos hi]
      exact ih hk
    · next hi =>
      rw [if_neg hi]
      exact Bool.eq_false_iff.mpr hi

theorem settle_eq_self (hi : idle k = false) : settle idle k = k := by
  cases k with
  | zero => rfl
  | succ k =>
    unfold settle
    rw [if_neg (Bool.eq_false_iff.mp hi)]

theorem thinned_thrifty (p : Pool) : p.thinned.Thrifty := by
  have hsize : p.thinned.chunks.size = settle p.isSparse p.chunks.size :=
    keep_chunks_size (settle_le _ _)
  by_cases hz : settle p.isSparse p.chunks.size = 0
  · left
    rw [hsize, hz]
    exact Nat.zero_le 1
  -- Where the loop ends, the pool is no longer sparse.
  · have hidle := not_idle_settle hz
    simp only [isSparse, Bool.and_eq_false_iff, decide_eq_false_iff_not, Nat.not_lt] at hidle
    unfold Thrifty
    rw [hsize]
    exact hidle

theorem pos_chunks_size (h : p.WellFormed) (hl : 0 < p.len) : 1 ≤ p.chunks.size := by
  by_contra hm
  have hz : p.chunks.size = 0 := by omega
  have hc := h.capacity_eq
  rw [hz, total_zero] at hc
  have hle := h.len_le
  omega

def compacted (p : Pool) (i : Nat) : Pool :=
  (if i = p.len - 1 then p else p.copied (p.len - 1) i).vacated (p.len - 1)

theorem chunks_size_compacted : (p.compacted i).chunks.size = p.chunks.size := by
  unfold compacted
  split
  · exact setAt_chunks_size
  · exact setAt_chunks_size.trans setAt_chunks_size

theorem firstSlots_compacted : (p.compacted i).firstSlots = p.firstSlots := by
  unfold compacted
  split <;> rfl

theorem freed_thrifty : (p.freed i).Thrifty := thinned_thrifty (p.compacted i)

theorem not_isSparse_compacted (h : p.WellFormed) (ht : p.Thrifty) (hm : p.chunks.size = m + 1) :
    (p.compacted i).isSparse m = false := by
  have hlen : (p.compacted i).len = p.len - 1 := rfl
  rw [isSparse, hlen, firstSlots_compacted, Bool.and_eq_false_iff, decide_eq_false_iff_not,
    decide_eq_false_iff_not, Nat.not_lt, Nat.not_lt]
  by_cases hm1 : m ≤ 1
  · exact .inl hm1
  -- Of three chunks or more the last one has at least four slots, so one block less is not enough.
  · right
    have hf := p.firstSlots_pos
    have hp : 2 ^ 2 ≤ 2 ^ m := Nat.pow_le_pow_right (by decide) (by omega)
    have hlast : 1 * 2 ^ 2 ≤ p.firstSlots * 2 ^ m := Nat.mul_le_mul hf hp
    have hcap := h.capacity_eq
    rw [hm, total_succ] at hcap
    rcases ht with ht | ht
    · omega
    · omega

theorem chunks_size_freed (h : p.WellFormed) (ht : p.Thrifty) (hl : 0 < p.len) :
    1 ≤ (p.freed i).chunks.size ∧ (p.freed i).chunks.size ≤ p.chunks.size ∧
      p.chunks.size ≤ (p.freed i).chunks.size + 1 := by
  have hsize : (p.freed i).chunks.size =
      settle (p.compacted i).isSparse (p.compacted i).chunks.size := keep_chunks_size (settle_le _ _)
  rw [chunks_size_compacted] at hsize
  have hpos := pos_chunks_size h hl
  obtain ⟨m, hm⟩ : ∃ m, p.chunks.size = m + 1 := ⟨p.chunks.size - 1, by omega⟩
  have hnot := not_isSparse_compacted (i := i) h ht hm
  rw [hsize, hm, settle]
  split
  · next hi =>
    rw [settle_eq_self hnot]
    simp only [isSparse, Bool.and_eq_true, decide_eq_true_iff] at hi
    omega
  · omega

theorem sum_take_chunkSizes (h : p.Shaped) (hk : k ≤ p.chunks.size) :
    (p.chunkSizes.take k).sum = total p.firstSlots k := by
  have hsum := (h.keep hk).sum_chunkSizes
  have he : (p.keep k).chunkSizes = p.chunkSizes.take k := by
    simp [chunkSizes, Pool.keep]
  rw [← he]
  exact hsum

theorem chunkSizes_fitted : p.fitted.chunkSizes = p.chunkSizes.take p.fitted.chunks.size := by
  have hle := settle_le p.isSpare p.chunks.size
  rw [show p.fitted.chunks.size = _ from keep_chunks_size hle]
  simp [chunkSizes, Pool.fitted, Pool.keep]

theorem fitted_least (h : p.WellFormed) :
    IsLeast {k | p.len ≤ (p.chunkSizes.take k).sum} p.fitted.chunks.size := by
  have hle := settle_le p.isSpare p.chunks.size
  have hsize : p.fitted.chunks.size = settle p.isSpare p.chunks.size := keep_chunks_size hle
  have hlen : p.len ≤ total p.firstSlots (settle p.isSpare p.chunks.size) :=
    len_le_settle (releases_spare h.toShaped) (h.capacity_eq ▸ h.len_le)
  rw [hsize]
  constructor
  · change p.len ≤ _
    rw [sum_take_chunkSizes h.toShaped hle]
    exact hlen
  · intro k hk
    by_contra hlt
    have hk' : k < settle p.isSpare p.chunks.size := Nat.lt_of_not_le hlt
    have hidle : p.isSpare (settle p.isSpare p.chunks.size) = false := not_idle_settle (by omega)
    simp only [isSpare, Bool.and_eq_false_iff, decide_eq_false_iff_not] at hidle
    change p.len ≤ _ at hk
    rw [sum_take_chunkSizes h.toShaped (by omega)] at hk
    have hmono := total_mono p.firstSlots (Nat.le_sub_one_of_lt hk')
    omega

end OffRow.Pool
