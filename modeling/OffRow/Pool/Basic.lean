import OffRow.SizeClass
import OffRow.Handle
import OffRow.Bytes
/-!
A pool of blocks of one size class. The live blocks are the slots below `len`. Slots come in
chunks, each twice as large as the one before it, so a pool grows without moving any slot.
-/

namespace OffRow

inductive DropPolicy where
  | mayDropItems
  | mustNotDropItems
  deriving DecidableEq, Repr

structure Header where
  owner : Option HandleId
  index : Nat
  deriving DecidableEq, Repr

def Header.vacant : Header := ⟨none, Word.largest⟩

structure Slot where
  header : Header
  payload : ByteArray

def Slot.vacant : Slot := ⟨.vacant, .empty⟩

structure Pool where
  sizeClass : SizeClass
  firstSlots : Nat
  firstSlots_pos : 0 < firstSlots
  chunks : Array (Array Slot)
  capacity : Nat
  len : Nat
  ownerThread : ThreadId
  policy : DropPolicy

namespace Pool

def headerSize : Nat := 16

def stride (c : SizeClass) : Nat := (headerSize + c.blockSize + 7) / 8 * 8

def new (c : SizeClass) (firstBytes : Nat) (policy : DropPolicy) (thread : ThreadId) : Pool where
  sizeClass := c
  firstSlots := max 1 (firstBytes / stride c)
  firstSlots_pos := by omega
  chunks := #[]
  capacity := 0
  len := 0
  ownerThread := thread
  policy := policy

def blockSize (p : Pool) : Nat := p.sizeClass.blockSize

def chunkSizes (p : Pool) : List Nat := p.chunks.toList.map Array.size

/-- Chunk `k` starts at slot `first * (2 ^ k - 1)`, so the chunk of a slot is a logarithm. -/
def locate? (first index : Nat) : Option Place :=
  (Word.add? (index / first) 1).map fun scaled =>
    let start := Word.wrapMul first (Word.wrapSub (1 <<< scaled.log2) 1)
    ⟨scaled.log2, Word.wrapSub index start⟩

def place (p : Pool) (index : Nat) : Except Fault Place :=
  if index < p.capacity then
    match locate? p.firstSlots index with
    | none => .error .indexOverflow
    | some w =>
      match p.chunks[w.chunk]? with
      | none => .error .chunkMissing
      | some chunk => if w.offset < chunk.size then .ok w else .error .slotOutsideChunk
  else .error (.slotOutOfBounds index p.capacity p.blockSize)

def slot? (p : Pool) (w : Place) : Option Slot := p.chunks[w.chunk]?.bind (·[w.offset]?)

def setSlot (p : Pool) (w : Place) (s : Slot) : Pool :=
  { p with chunks := p.chunks.modify w.chunk (·.setIfInBounds w.offset s) }

def slotAt (p : Pool) (index : Nat) : Except Fault (Place × Slot) :=
  match p.place index with
  | .error e => .error e
  | .ok w =>
    match p.slot? w with
    | none => .error .slotOutsideChunk
    | some s => .ok (w, s)

theorem le_stride (c : SizeClass) : headerSize + c.blockSize ≤ stride c := by
  unfold stride
  omega

theorem stride_mod (c : SizeClass) : stride c % 8 = 0 := Nat.mul_mod_left _ 8

variable (p : Pool) (w v : Place) (s : Slot)

theorem slot?_setSlot :
    (p.setSlot w s).slot? v = if w = v then (p.slot? v).map fun _ => s else p.slot? v := by
  obtain ⟨k, i⟩ := w
  obtain ⟨l, j⟩ := v
  simp only [slot?, setSlot, Array.getElem?_modify, Place.mk.injEq]
  by_cases hk : k = l
  · subst hk
    cases p.chunks[k]? with
    | none => simp
    | some chunk =>
      by_cases hi : i = j
      · subst hi
        by_cases hs : i < chunk.size <;> simp [hs]
      · simp [hi]
  · simp [hk]

theorem size_setSlot (k : Nat) :
    ((p.setSlot w s).chunks[k]?).map Array.size = (p.chunks[k]?).map Array.size := by
  simp only [setSlot, Array.getElem?_modify]
  split <;> cases p.chunks[k]? <;> simp

end Pool

end OffRow
