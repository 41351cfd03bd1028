import OffRow.Store.Basic

namespace OffRow.Store

def acquire (p : PoolId) : Op Store Unit := do
  let _ ← shared p
  modifyPool p fun cell => { cell with references := cell.references + 1 }

/-- Ends a pool that nobody holds. While the thread is `unwinding` from a fault, no second one is
raised. -/
def tearDown (unwinding : Bool) (p : PoolId) : Op Store Unit := do
  let cell ← shared p
  Op.modify fun s => { s with pools := s.pools.erase p }
  if cell.pool.len ≠ 0 then
    Op.emit (.poolLeaked cell.pool.blockSize cell.pool.len)
    if cell.pool.policy = .mustNotDropItems ∧ unwinding = false then
      Op.fault (.poolDropped cell.pool.blockSize cell.pool.len)

def release (unwinding : Bool) (p : PoolId) : Op Store Unit := do
  let cell ← shared p
  if cell.references ≤ 1 then tearDown unwinding p
  else modifyPool p fun cell => { cell with references := cell.references - 1 }

def createPool (c : SizeClass) (firstBytes : Nat) (policy : DropPolicy) : Op Store PoolId := do
  addPool (.new c firstBytes policy (← Op.get).thread)

end OffRow.Store
