import OffRow.Failure
/-!
The ladder of block sizes: the powers of two from 8 bytes to a mebibyte, and between each two of
them the midpoint. A string is stored in a block of the least class that holds it.
-/

namespace OffRow

structure SizeClass where
  index : Nat
  index_lt : index < 35
  deriving DecidableEq

namespace SizeClass

def count : Nat := 35

def smallestBlock : Nat := 8

def largestBlock : Nat := 1 <<< 20

def ofIndex? (index : Nat) : Option SizeClass :=
  if h : index < 35 then some ⟨index, h⟩ else none

def blockSize (c : SizeClass) : Nat :=
  (if c.index % 2 = 0 then 8 else 12) <<< (c.index / 2)

def ceilLog (size : Nat) : Nat := if size ≤ 1 then 0 else (size - 1).log2 + 1

/-- The position on the ladder for a size above 8: that of the next power of two, or of the
midpoint below it. -/
def ladderIndex (size : Nat) : Nat :=
  let k := ceilLog size
  if size ≤ 3 <<< (k - 2) then (k - 3) * 2 - 1 else (k - 3) * 2

theorem ceilLog_le {size k : Nat} (h : size ≤ 1 <<< k) : ceilLog size ≤ k := by
  rw [Nat.one_shiftLeft] at h
  unfold ceilLog
  split
  · omega
  · have hl : (size - 1).log2 < k := (Nat.log2_lt (by omega)).mpr (by omega)
    omega

theorem le_shiftLeft_ceilLog (size : Nat) : size ≤ 1 <<< ceilLog size := by
  rw [Nat.one_shiftLeft, ceilLog]
  split
  · omega
  · have := Nat.lt_log2_self (n := size - 1)
    omega

theorem ladderIndex_lt {size : Nat} (h : size ≤ largestBlock) : ladderIndex size < 35 := by
  have hk : ceilLog size ≤ 20 := ceilLog_le h
  unfold ladderIndex
  simp only
  split <;> omega

def forSize (size : Nat) : Except Error SizeClass :=
  if h : 1 ≤ size ∧ size ≤ largestBlock then
    if size ≤ smallestBlock then .ok ⟨0, by decide⟩
    else .ok ⟨ladderIndex size, ladderIndex_lt h.2⟩
  else .error (.invalidSize size largestBlock)

instance : Ord SizeClass := ⟨fun c d => compare c.index d.index⟩

def larger (c d : SizeClass) : SizeClass := if c.index < d.index then d else c

def compareSizes (a b : Nat) : Except Error (Ordering × SizeClass) := do
  let c ← forSize a
  let d ← forSize b
  return (compare c d, c.larger d)

def describe (c : SizeClass) : String := s!"SizeClass \x7b index: {c.index} \x7d"

def changes (step stop : Nat) : Nat → Nat → Option (Option SizeClass) →
    Array (Nat × Option SizeClass) → Array (Nat × Option SizeClass)
  | 0, _, _, found => found
  | n + 1, size, last, found =>
    let class? := (forSize size).toOption
    let found := if last = some class? then found else found.push (size, class?)
    match Word.add? size step with
    | some next => if next ≤ stop then changes step stop n next (some class?) found else found
    | none => found

def scan (start stop step : Nat) : Array (Nat × Option SizeClass) :=
  if step = 0 ∨ stop < start then #[]
  else changes step stop ((stop - start) / step + 1) start none #[]

end SizeClass

end OffRow
