import OffRow.Store.Strings

namespace OffRow.Store

def poolForClass (r : RegistryId) (c : SizeClass) : Op Store PoolId := do
  let registry ← registry r
  match registry.pool? c with
  | some p => pure p
  | none =>
    Op.emit (.poolCreated c.blockSize)
    let p ← createPool c registry.firstChunkBytes registry.policy
    Op.modify fun s => { s with registries := s.registries.modify r (·.setPool c p) }
    pure p

def poolForSize (r : RegistryId) (size : Nat) : Op Store PoolId := do
  poolForClass r (← Op.ofExcept (SizeClass.forSize size))

def create (r : RegistryId) (size : Nat) : Op Store HandleId := do
  createIn (← poolForSize r size) size

def liveIn (s : Store) (p : PoolId) : Nat :=
  match s.pools.get? p with
  | some cell => cell.pool.len
  | none => 0

def poolCount (r : Registry) : Nat := r.poolIds.length

def liveBlocks (s : Store) (r : Registry) : Nat :=
  (r.poolIds.map s.liveIn).foldl Word.satAdd 0

def releaseUnwinding : List PoolId → Op Store Unit
  | [] => pure ()
  | p :: ps => do
    release true p
    releaseUnwinding ps

/-- Gives up pools one by one, reporting the live blocks of each, and adds their number to
`leaked`. If the end of one pool is a fault, the others are given up without a report. -/
def releaseAll (unwinding : Bool) : List PoolId → Nat → Op Store Nat
  | [], leaked => pure leaked
  | p :: ps, leaked => do
    let cell ← shared p
    let len := cell.pool.len
    if len ≠ 0 then Op.emit (.liveAtTeardown cell.pool.blockSize len)
    Op.recover (release unwinding p) fun e => do
      releaseUnwinding ps
      Op.fail e
    releaseAll unwinding ps (Word.satAdd leaked len)

def dropRegistry (unwinding : Bool) (r : RegistryId) : Op Store Unit := do
  let registry ← registry r
  Op.modify fun s => { s with registries := s.registries.erase r }
  let leaked ← releaseAll unwinding registry.poolIds 0
  if leaked ≠ 0 ∧ registry.policy = .mustNotDropItems ∧ unwinding = false then
    Op.fault (.registryDropped leaked)

end OffRow.Store
