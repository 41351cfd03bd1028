import OffRow.Pool.Capacity

namespace OffRow.Pool

def checkThread (caller : ThreadId) : Op Pool Unit := do
  let p ← Op.get
  Op.ensure (caller = p.ownerThread) (.wrongThread p.blockSize)

def makeRoom (grants : Nat → Bool) : Op Pool Unit := do
  let p ← Op.get
  if p.len = p.capacity then grow grants

def append (owner : HandleId) : Op Pool Place := do
  let p ← Op.get
  let w ← Op.ofFault (p.place p.len)
  Op.modify (·.setSlot w ⟨⟨some owner, p.len⟩, Bytes.zeros p.blockSize⟩)
  let len ← Op.expect (Word.add? p.len 1) .lenOverflow
  Op.modify fun p => { p with len }
  Op.emit (.blockAllocated p.blockSize p.len)
  pure w

def allocate (grants : Nat → Bool) (caller : ThreadId) (owner : HandleId) : Op Pool Place := do
  checkThread caller
  makeRoom grants
  append owner

def copyBlock (source target : Nat) : Op Pool (HandleId × Place) := do
  let p ← Op.get
  let (_, moved) ← Op.ofFault (p.slotAt source)
  let owner ← Op.expect moved.header.owner .ownerMissing
  let w ← Op.ofFault (p.place target)
  Op.modify (·.setSlot w ⟨⟨some owner, target⟩, moved.payload⟩)
  pure (owner, w)

def vacate (last : Nat) : Op Pool Unit := do
  let p ← Op.get
  let (w, tail) ← Op.ofFault (p.slotAt last)
  Op.modify (·.setSlot w { tail with header := .vacant })
  Op.modify fun p => { p with len := last }
  shrinkIfSparse

end OffRow.Pool
