import OffRow.Pool.Basic
import OffRow.Layout
import OffRow.Op

namespace OffRow.Pool

def nextSlots? (p : Pool) : Option Nat :=
  (Word.shl? 1 p.chunks.size).bind (Word.mul? p.firstSlots)

def granted (grants : Nat → Bool) (stride slots : Nat) : Bool :=
  match Word.mul? stride slots with
  | none => false
  | some bytes => (Layout.words? bytes).isSome && grants bytes

def grow (grants : Nat → Bool) : Op Pool Unit := do
  let p ← Op.get
  match p.nextSlots? with
  | none => Op.error (.outOfMemory Word.largest)
  | some slots =>
    let stride := stride p.sizeClass
    if granted grants stride slots then
      Op.modify fun p => { p with chunks := p.chunks.push (Array.replicate slots .vacant) }
      let capacity ← Op.expect (Word.add? p.capacity slots) .capacityOverflow
      Op.modify fun p => { p with capacity }
      Op.emit (.chunkReserved p.blockSize p.chunks.size slots capacity)
    else Op.error (.outOfMemory (Word.satMul stride slots))

def releaseLast : Op Pool Unit := do
  let p ← Op.get
  let chunk ← Op.expect p.chunks.back? .nothingToRelease
  Op.modify fun p => { p with chunks := p.chunks.pop }
  let capacity ← Op.expect (Word.sub? p.capacity chunk.size) .capacityUnderflow
  Op.modify fun p => { p with capacity }
  Op.ensure (p.len ≤ capacity) .liveChunkReleased
  Op.emit (.chunkReleased p.blockSize chunk.size capacity)

def releaseWhile (idle : Op Pool Bool) : Nat → Op Pool Unit
  | 0 => pure ()
  | n + 1 => do
    if ← idle then
      releaseLast
      releaseWhile idle n

def spare : Op Pool Bool := do
  let p ← Op.get
  match p.chunks.back? with
  | none => pure false
  | some chunk =>
    let remaining ← Op.expect (Word.sub? p.capacity chunk.size) .capacityUnderflow
    pure (p.len ≤ remaining)

def sparse : Op Pool Bool := do
  let p ← Op.get
  pure (1 < p.chunks.size && Word.satMul p.len 4 < p.capacity)

def shrinkToFit : Op Pool Unit := do
  let p ← Op.get
  releaseWhile spare p.chunks.size

def shrinkIfSparse : Op Pool Unit := do
  let p ← Op.get
  releaseWhile sparse p.chunks.size

end OffRow.Pool
