import OffRow.Store.Sharing

namespace OffRow.Store

def updateLocation (h : HandleId) (location : Address) : Op Store Unit := do
  let handle ← handle h
  Op.ensure (handle.temporary = false) .temporaryRelocated
  modifyHandle h fun handle => { handle with location }

def allocateBlock (p : PoolId) (owner : HandleId) : Op Store Place := do
  let s ← Op.get
  onPool p (Pool.allocate (fun bytes => (s.allocator bytes).isSome) s.thread owner)

def relocate (p : PoolId) (source target : Nat) : Op Store Unit := do
  let (owner, w) ← onPool p (Pool.copyBlock source target)
  updateLocation owner (.block p w)
  let cell ← shared p
  Op.emit (.blockRelocated cell.pool.blockSize source target)

def headerAt (s : Store) : Address → Header
  | .block p w =>
    match (s.pools.get? p).bind (·.pool.slot? w) with
    | some slot => slot.header
    | none => .vacant
  | _ => .vacant

def isLive (p : PoolId) (payload : Address) (owner : HandleId) (header : Header) :
    Op Store Bool := do
  let cell ← shared p
  if header.index < cell.pool.len ∧ header.owner = some owner then
    let w ← Op.ofFault (cell.pool.place header.index)
    pure (Address.block p w = payload)
  else pure false

def freeBlock (p : PoolId) (payload : Address) (owner : HandleId) : Op Store Unit := do
  let s ← Op.get
  onPool p (Pool.checkThread s.thread)
  let header := s.headerAt payload
  let cell ← shared p
  let live ← isLive p payload owner header
  Op.ensure live (.notLive header.index cell.pool.blockSize)
  let last ← Op.expect (Word.sub? cell.pool.len 1) .lenUnderflow
  if header.index ≠ last then relocate p last header.index
  onPool p (Pool.vacate last)

def checkSlot (s : Store) (p : PoolId) (pool : Pool) (index : Nat) : Except Fault Unit :=
  match pool.slotAt index with
  | .error e => .error e
  | .ok (w, slot) =>
    if pool.len ≤ index then
      if slot.header.owner.isNone then .ok () else .error (.vacantSlotOwned index pool.len)
    else if slot.header.index ≠ index then .error (.wrongIndex index slot.header.index)
    else match slot.header.owner with
      | none => .error (.slotUnowned index)
      | some h =>
        match s.handles.get? h with
        | none => .error .dangling
        | some owner =>
          if owner.location ≠ .block p w then .error (.staleLocation index)
          else if pool.blockSize < owner.size then .error (.ownerTooLarge index)
          else .ok ()

def checkSlots (s : Store) (p : PoolId) (pool : Pool) : Nat → Nat → Except Fault Unit
  | 0, _ => .ok ()
  | n + 1, index =>
    match checkSlot s p pool index with
    | .error e => .error e
    | .ok () => checkSlots s p pool n (index + 1)

def integrityCheck (s : Store) (p : PoolId) (pool : Pool) : Except Fault Unit :=
  let total := pool.chunkSizes.foldl Word.satAdd 0
  if total ≠ pool.capacity then .error (.capacityMismatch pool.capacity total)
  else if pool.capacity < pool.len then .error (.lenExceedsCapacity pool.len pool.capacity)
  else checkSlots s p pool pool.capacity 0

def check (p : PoolId) : Op Store Unit := do
  let cell ← shared p
  Op.ofFault (integrityCheck (← Op.get) p cell.pool)

def shrinkToFit (p : PoolId) : Op Store Unit := onPool p Pool.shrinkToFit

end OffRow.Store
