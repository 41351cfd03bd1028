import Mathlib.Algebra.Order.Ring.Nat
import Mathlib.Order.Compare
import Mathlib.Order.Monotone.Basic
import OffRow.SizeClass

namespace OffRow.SizeClass

variable {size : Nat} {c : SizeClass}

def rung (i : Nat) : Nat := (if i % 2 = 0 then 8 else 12) <<< (i / 2)

theorem blockSize_eq (c : SizeClass) : c.blockSize = rung c.index := rfl

theorem ofIndex?_index (c : SizeClass) : ofIndex? c.index = some c := dif_pos c.index_lt

theorem rung_even (j : Nat) : rung (2 * j) = 8 * 2 ^ j := by
  have hj : 2 * j / 2 = j := by omega
  rw [rung, if_pos (by omega), hj, Nat.shiftLeft_eq]

theorem rung_odd (j : Nat) : rung (2 * j + 1) = 12 * 2 ^ j := by
  have hj : (2 * j + 1) / 2 = j := by omega
  rw [rung, if_neg (by omega), hj, Nat.shiftLeft_eq]

theorem rung_last : rung 34 = largestBlock := by decide

theorem rung_succ (i : Nat) : rung i < rung (i + 1) ∧ 2 * rung (i + 1) ≤ 3 * rung i := by
  obtain ⟨j, rfl | rfl⟩ : ∃ j, i = 2 * j ∨ i = 2 * j + 1 := ⟨i / 2, by omega⟩
  · have hj := Nat.two_pow_pos j
    rw [rung_even, rung_odd]
    omega
  · have hj := Nat.two_pow_pos j
    have hnext : rung (2 * j + 1 + 1) = 8 * 2 ^ (j + 1) := rung_even (j + 1)
    rw [hnext, rung_odd, Nat.pow_succ]
    omega

theorem rung_strictMono : StrictMono rung := strictMono_nat_of_lt_succ fun i => (rung_succ i).1

theorem lt_ceilLog (h : 8 < size) : ∃ k, ceilLog size = k + 4 ∧ 2 ^ (k + 3) < size := by
  have hlog : 3 ≤ (size - 1).log2 := (Nat.le_log2 (by omega)).mpr (by omega)
  have hlow : 2 ^ (size - 1).log2 ≤ size - 1 := Nat.log2_self_le (by omega)
  refine ⟨(size - 1).log2 - 3, ?_, ?_⟩
  · rw [ceilLog, if_neg (by omega)]
    omega
  · rw [Nat.sub_add_cancel hlog]
    omega

theorem ladderIndex_bounds (h : 8 < size) :
    ∃ i, ladderIndex size = i + 1 ∧ rung i < size ∧ size ≤ rung (i + 1) := by
  obtain ⟨k, hk, hlow⟩ := lt_ceilLog h
  have hhigh : size ≤ 2 ^ (k + 4) := by
    rw [← Nat.one_shiftLeft, ← hk]
    exact le_shiftLeft_ceilLog size
  have hmid : 3 <<< (k + 4 - 2) = 12 * 2 ^ k := by
    rw [show k + 4 - 2 = k + 2 by omega, Nat.shiftLeft_eq, Nat.pow_add]
    omega
  have hindex : ladderIndex size = if size ≤ 12 * 2 ^ k then 2 * k + 1 else 2 * k + 1 + 1 := by
    simp only [ladderIndex, hk, hmid]
    split <;> omega
  rw [Nat.pow_add] at hlow hhigh
  by_cases hs : size ≤ 12 * 2 ^ k
  · refine ⟨2 * k, by rw [hindex, if_pos hs], ?_, ?_⟩
    · rw [rung_even]
      omega
    · rwa [rung_odd]
  · have hnext : rung (2 * k + 1 + 1) = 8 * 2 ^ (k + 1) := rung_even (k + 1)
    refine ⟨2 * k + 1, by rw [hindex, if_neg hs], ?_, ?_⟩
    · rw [rung_odd]
      omega
    · rw [hnext, Nat.pow_succ]
      omega

theorem exists_forSize : (∃ c, forSize size = .ok c) ↔ 1 ≤ size ∧ size ≤ largestBlock := by
  unfold forSize
  by_cases h : 1 ≤ size ∧ size ≤ largestBlock
  · rw [dif_pos h]
    split <;> simp [h]
  · rw [dif_neg h]
    simp [h]

theorem forSize_bounds (h : forSize size = .ok c) :
    size ≤ rung c.index ∧ (c.index = 0 ∨ rung (c.index - 1) < size) := by
  have hv := exists_forSize.mp ⟨c, h⟩
  rw [forSize, dif_pos hv] at h
  by_cases hs : size ≤ smallestBlock
  · rw [if_pos hs] at h
    cases h
    exact ⟨hs, .inl rfl⟩
  · rw [if_neg hs] at h
    cases h
    obtain ⟨i, hi, hlow, hhigh⟩ := ladderIndex_bounds (Nat.lt_of_not_le hs)
    simp only [hi, Nat.add_sub_cancel]
    exact ⟨hhigh, .inr hlow⟩

theorem fits_iff (h : forSize size = .ok c) (i : Nat) : size ≤ rung i ↔ c.index ≤ i := by
  obtain ⟨hhigh, hlow⟩ := forSize_bounds h
  constructor
  · intro hi
    by_contra hlt
    have hprev : rung i ≤ rung (c.index - 1) := rung_strictMono.monotone (by omega)
    omega
  · exact fun hi => hhigh.trans (rung_strictMono.monotone hi)

theorem forSize_mono {a b : Nat} {c d : SizeClass} (hab : a ≤ b) (hc : forSize a = .ok c)
    (hd : forSize b = .ok d) : c.index ≤ d.index :=
  (fits_iff hc d.index).mp (hab.trans (forSize_bounds hd).1)

theorem forSize_blockSize (c : SizeClass) : forSize c.blockSize = .ok c := by
  have hlow : rung 0 ≤ rung c.index := rung_strictMono.monotone (Nat.zero_le _)
  have hhigh : rung c.index ≤ rung 34 :=
    rung_strictMono.monotone (Nat.le_of_lt_succ c.index_lt)
  have hvalid : 1 ≤ c.blockSize ∧ c.blockSize ≤ largestBlock := by
    rw [blockSize_eq, ← rung_last]
    exact ⟨Nat.le_trans (by decide) hlow, hhigh⟩
  obtain ⟨d, hd⟩ := exists_forSize.mpr hvalid
  have hle : d.index ≤ c.index := (fits_iff hd c.index).mp le_rfl
  have hge : c.index ≤ d.index := rung_strictMono.le_iff_le.mp (forSize_bounds hd).1
  have hdc : d = c := by
    cases c
    cases d
    simp only [SizeClass.mk.injEq]
    exact Nat.le_antisymm hle hge
  rw [hd, hdc]

theorem blockSize_inj {c d : SizeClass} : c.blockSize = d.blockSize ↔ c = d := by
  constructor
  · intro h
    have hc := forSize_blockSize c
    rw [h, forSize_blockSize d, Except.ok.injEq] at hc
    exact hc.symm
  · rintro rfl
    rfl

theorem slack_lt (h : forSize size = .ok c) (hs : 8 < size) : 2 * c.blockSize < 3 * size := by
  rw [blockSize_eq]
  rcases Nat.eq_zero_or_pos c.index with hi | hi
  · have hbottom : rung 0 = 8 := by decide
    rw [hi, hbottom]
    omega
  · have hlow : rung (c.index - 1) < size := (forSize_bounds h).2.resolve_left hi.ne'
    have hstep := (rung_succ (c.index - 1)).2
    rw [Nat.sub_add_cancel hi] at hstep
    omega

theorem compare_blockSize (c d : SizeClass) : compare c d = compare c.blockSize d.blockSize := by
  have hcmp : cmp (rung c.index) (rung d.index) = cmp c.index d.index :=
    rung_strictMono.cmp_map_eq c.index d.index
  rw [cmp_eq_compare, cmp_eq_compare] at hcmp
  exact hcmp.symm

/-- There is a class for every size from 1 to the largest block and for no other. It is the least
class whose block holds the size, and above 8 bytes less than a third of the block is slack. Classes
are ordered as their blocks are, a larger size has no smaller class, and every class is that of its own
block size. -/
theorem size_ladder :
    (∀ size, (∃ c, forSize size = .ok c) ↔ 1 ≤ size ∧ size ≤ largestBlock) ∧
      (∀ size c, forSize size = .ok c →
        c.index < count ∧ ofIndex? c.index = some c ∧ size ≤ c.blockSize ∧
          (c.index = 0 ∨ ∃ d, ofIndex? (c.index - 1) = some d ∧ d.blockSize < size) ∧
          (∀ d : SizeClass, size ≤ d.blockSize ↔ c.index ≤ d.index) ∧
          (smallestBlock < size → 2 * c.blockSize < 3 * size)) ∧
      (∀ c d : SizeClass, (c.index < d.index ↔ c.blockSize < d.blockSize) ∧
        compare c d = compare c.blockSize d.blockSize) ∧
      (∀ a b c d, a ≤ b → forSize a = .ok c → forSize b = .ok d → compare c d ≠ .gt) ∧
      ∀ c : SizeClass, forSize c.blockSize = .ok c := by
  refine ⟨fun _ => exists_forSize, fun size c h => ?_, fun c d => ?_, fun a b c d hab hc hd => ?_,
    forSize_blockSize⟩
  · obtain ⟨hhigh, hlow⟩ := forSize_bounds h
    refine ⟨c.index_lt, ofIndex?_index c, hhigh, ?_, fun d => fits_iff h d.index, slack_lt h⟩
    refine hlow.imp_right fun hprev => ?_
    have hi : c.index - 1 < 35 := (Nat.sub_le _ _).trans_lt c.index_lt
    exact ⟨⟨c.index - 1, hi⟩, dif_pos hi, hprev⟩
  · exact ⟨rung_strictMono.lt_iff_lt.symm, compare_blockSize c d⟩
  · have hle : (compare c d).isLE := Nat.isLE_compare.mpr (forSize_mono hab hc hd)
    exact Ordering.isLE_iff_ne_gt.mp hle

theorem size_ladder_midway :
    forSize 70000 = .ok ⟨27, by decide⟩ ∧ ofIndex? 27 = some ⟨27, by decide⟩ ∧
      (∃ d, ofIndex? 26 = some d ∧ d.blockSize < 70000) ∧
      2 * (⟨27, by decide⟩ : SizeClass).blockSize < 210000 := by
  have hclass : forSize 70000 = .ok ⟨27, by decide⟩ := by decide
  obtain ⟨-, hleast, -⟩ := size_ladder
  obtain ⟨-, hindex, -, hbelow, -, hslack⟩ := hleast 70000 _ hclass
  exact ⟨hclass, hindex, hbelow.resolve_left (by decide), hslack (by decide)⟩

end OffRow.SizeClass
