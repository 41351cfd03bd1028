import OffRow.Pool.Basic
import Mathlib.Tactic.Ring

namespace OffRow.Pool

def total (first k : Nat) : Nat := first * (2 ^ k - 1)

def placeOf (first index : Nat) : Place :=
  ⟨(index / first + 1).log2, index - total first (index / first + 1).log2⟩

variable {first index i j k m : Nat}

@[simp] theorem total_zero (first : Nat) : total first 0 = 0 := by simp [total]

theorem total_succ (first k : Nat) : total first (k + 1) = total first k + first * 2 ^ k := by
  have hp : 0 < 2 ^ k := Nat.two_pow_pos k
  have he : 2 ^ (k + 1) - 1 = 2 ^ k - 1 + 2 ^ k := by omega
  rw [total, total, he, Nat.mul_add]

theorem total_eq_sum (first k : Nat) : total first k + first = first * 2 ^ k := by
  have hp : 0 < 2 ^ k := Nat.two_pow_pos k
  have he : 2 ^ k = 2 ^ k - 1 + 1 := by omega
  rw [total, he, Nat.add_sub_cancel, Nat.mul_add, Nat.mul_one]

theorem total_mono (first : Nat) (h : k ≤ m) : total first k ≤ total first m :=
  Nat.mul_le_mul_left first (Nat.sub_le_sub_right (Nat.pow_le_pow_right (by decide) h) 1)

theorem total_placeOf_le (first index : Nat) :
    total first (placeOf first index).chunk ≤ index := by
  have hl : 2 ^ (index / first + 1).log2 ≤ index / first + 1 := Nat.log2_self_le (Nat.succ_ne_zero _)
  calc first * (2 ^ (index / first + 1).log2 - 1)
      ≤ first * (index / first) := Nat.mul_le_mul_left first (Nat.sub_le_of_le_add hl)
    _ ≤ index := Nat.mul_div_le index first

theorem lt_total_placeOf (hf : 0 < first) (index : Nat) :
    index < total first ((placeOf first index).chunk + 1) := by
  have hl : index / first + 1 < 2 ^ ((index / first + 1).log2 + 1) := Nat.lt_log2_self
  have hd : index / first < 2 ^ ((index / first + 1).log2 + 1) - 1 := by omega
  rw [Nat.div_lt_iff_lt_mul hf, Nat.mul_comm] at hd
  exact hd

theorem total_add_offset (first index : Nat) :
    total first (placeOf first index).chunk + (placeOf first index).offset = index :=
  Nat.add_sub_cancel' (total_placeOf_le first index)

theorem offset_lt (hf : 0 < first) (index : Nat) :
    (placeOf first index).offset < first * 2 ^ (placeOf first index).chunk := by
  have hs := total_add_offset first index
  have hl := lt_total_placeOf hf index
  rw [total_succ] at hl
  omega

theorem placeOf_total_add (hf : 0 < first) (h : j < first * 2 ^ k) :
    placeOf first (total first k + j) = ⟨k, j⟩ := by
  have hp : 0 < 2 ^ k := Nat.two_pow_pos k
  have hd : (total first k + j) / first = 2 ^ k - 1 + j / first := by
    rw [total, Nat.add_comm, Nat.add_mul_div_left _ _ hf, Nat.add_comm]
  have hj : j / first < 2 ^ k := by
    rw [Nat.div_lt_iff_lt_mul hf, Nat.mul_comm]
    exact h
  have hl : ((total first k + j) / first + 1).log2 = k := by
    rw [hd]
    generalize j / first = q at hj
    rw [Nat.log2_eq_iff (by omega), Nat.pow_succ]
    omega
  simp only [placeOf, hl, Nat.add_sub_cancel_left]

@[simp] theorem placeOf_zero (first : Nat) : placeOf first 0 = ⟨0, 0⟩ := by
  simp [placeOf, Nat.log2_def]

theorem placeOf_inj : placeOf first i = placeOf first j ↔ i = j := by
  constructor
  · intro h
    have hi := total_add_offset first i
    rw [h, total_add_offset first j] at hi
    exact hi.symm
  · exact fun h => h ▸ rfl

theorem placeOf_chunk_lt (hf : 0 < first) : (placeOf first index).chunk < m ↔ index < total first m := by
  constructor
  · exact fun h => Nat.lt_of_lt_of_le (lt_total_placeOf hf index) (total_mono first h)
  · intro h
    by_contra hm
    have := total_mono first (Nat.le_of_not_lt hm)
    have := total_placeOf_le first index
    omega

theorem locate?_eq (h : index < Word.largest) :
    locate? first index = some (placeOf first index) := by
  have hd : index / first ≤ index := Nat.div_le_self index first
  have hadd : Word.add? (index / first) 1 = some (index / first + 1) :=
    (Word.add?_eq_some _ _ _).mpr ⟨by omega, rfl⟩
  have hl : 2 ^ (index / first + 1).log2 ≤ index / first + 1 := Nat.log2_self_le (Nat.succ_ne_zero _)
  have hp : 1 ≤ 2 ^ (index / first + 1).log2 := Nat.two_pow_pos _
  have ht : first * (2 ^ (index / first + 1).log2 - 1) ≤ index := total_placeOf_le first index
  have hs := Word.wrapSub_of_le _ _ hp (by omega)
  have hm := Word.wrapMul_of_le _ _ (Nat.le_trans ht (Nat.le_of_lt h))
  have ho := Word.wrapSub_of_le _ _ ht (Nat.le_of_lt h)
  simp only [locate?, hadd, Option.map_some, Nat.one_shiftLeft, hs, hm, ho]
  rfl

end OffRow.Pool
