namespace OffRow

structure Layout where
  size : Nat
  align : Nat
  align_eq : 1 <<< align.log2 = align
  size_add_align : size + align ≤ 0x8000000000000000
  deriving DecidableEq

namespace Layout

def largest : Nat := 0x7fffffffffffffff

def of? (size align : Nat) : Option Layout :=
  if h : 1 <<< align.log2 = align ∧ size + align ≤ 0x8000000000000000 then
    some ⟨size, align, h.1, h.2⟩
  else none

def wordAlign : Nat := 8

def words? (size : Nat) : Option Layout := of? size wordAlign

def padding (address align : Nat) : Nat := (align - address % align) % align

theorem align_pos (l : Layout) : 0 < l.align := by
  rw [← l.align_eq, Nat.one_shiftLeft]
  exact Nat.two_pow_pos _

theorem of?_isSome (size align : Nat) :
    (of? size align).isSome ↔ 1 <<< align.log2 = align ∧ size + align ≤ 0x8000000000000000 := by
  unfold of?
  split
  · next h => exact iff_of_true rfl h
  · next h => exact iff_of_false Bool.false_ne_true h

theorem words?_isSome (size : Nat) : (words? size).isSome ↔ size + 8 ≤ 0x8000000000000000 := by
  rw [words?, of?_isSome]
  exact and_iff_right (by decide)

theorem of_words? {size : Nat} {l : Layout} (h : words? size = some l) :
    l.size = size ∧ l.align = wordAlign := by
  rw [words?, of?] at h
  split at h
  · cases h
    exact ⟨rfl, rfl⟩
  · cases h

theorem padding_lt (address : Nat) {align : Nat} (h : 0 < align) : padding address align < align :=
  Nat.mod_lt _ h

theorem padding_aligned (address : Nat) {align : Nat} (h : 0 < align) :
    (address + padding address align) % align = 0 := by
  have hr : address % align < align := Nat.mod_lt _ h
  unfold padding
  rw [Nat.add_mod_mod, ← Nat.mod_add_mod, Nat.add_sub_cancel' (Nat.le_of_lt hr), Nat.mod_self]

end Layout

end OffRow
