import OffRow.Store.Blocks

namespace OffRow.Store

def checkUnused (p : PoolId) : Op Store Unit := do
  Op.ensure ((← shared p).readers = 0) .poolInUse

/-- Creates a string of `size` zeros in a pool. The handle comes first and holds the pool; an
error takes it back, a fault does not. -/
def createIn (p : PoolId) (size : Nat) : Op Store HandleId := do
  acquire p
  let h ← addHandle (.pooled p size)
  checkUnused p
  Op.ensure (size ≤ (← shared p).pool.blockSize) .sizeExceedsBlock
  let w ← Op.recover (allocateBlock p h) fun
    | .error e => do
      eraseHandle h
      release false p
      Op.error e
    | .fault e => Op.fault e
  updateLocation h (.block p w)
  modifyHandle h fun handle => { handle with owned := true }
  pure h

def intoRaw (h : HandleId) : Op Store Unit := do
  let _ ← handle h
  modifyHandle h fun handle => { handle with owned := false }

def fromRaw (h : HandleId) : Op Store Unit := do
  Op.ensure ((← handle h).temporary = false) .temporaryReclaimed
  modifyHandle h fun handle => { handle with owned := true }

/-- Destroys a string and its handle. A handle whose block cannot be freed stays, without an
owner. -/
def destroy (h : HandleId) : Op Store Unit := do
  let handle ← handle h
  modifyHandle h fun handle => { handle with owned := false }
  let p ← Op.expect handle.pool .poolless
  checkUnused p
  freeBlock p handle.location h
  eraseHandle h
  release false p

def beginAccess (h : HandleId) : Op Store Unit := do
  match (← handle h).pool with
  | none => pure ()
  | some p => modifyPool p fun cell => { cell with readers := cell.readers + 1 }

def endAccess (h : HandleId) : Op Store Unit := do
  match (← handle h).pool with
  | none => pure ()
  | some p => modifyPool p fun cell => { cell with readers := cell.readers - 1 }

def bytes? (s : Store) (h : Handle) : Option ByteArray :=
  match h.location with
  | .nowhere => none
  | .block p w =>
    ((s.pools.get? p).bind (·.pool.slot? w)).map fun slot => slot.payload.extract 0 h.size
  | .scratch a w => (s.arenas.get? a).map fun arena => arena.load w h.size

def bytes (h : HandleId) : Op Store ByteArray := do
  let handle ← handle h
  Op.expect ((← Op.get).bytes? handle) .dangling

def read {α : Type} (h : HandleId) (body : ByteArray → Op Store α) : Op Store α := do
  beginAccess h
  Op.andFinally (do body (← bytes h)) (endAccess h)

def overwrite (h : HandleId) (start : Nat) (data : ByteArray) : Op Store Unit := do
  let handle ← handle h
  let start := min start handle.size
  let data := data.extract 0 (handle.size - start)
  match handle.location with
  | .nowhere => Op.fault .dangling
  | .block p w => onPool p do
    let slot ← Op.expect ((← Op.get).slot? w) .dangling
    Op.modify (·.setSlot w { slot with payload := Bytes.patch slot.payload start data })
  | .scratch a w => onArena a do
    Op.modify (·.store ⟨w.chunk, w.offset + start⟩ data)

def write {α : Type} (h : HandleId) (start : Nat) (data : ByteArray) (body : Op Store α) :
    Op Store α := do
  beginAccess h
  Op.andFinally (do overwrite h start data; body) (endAccess h)

end OffRow.Store
