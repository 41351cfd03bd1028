import OffRow.Arena
import OffRow.Pool.Blocks
import OffRow.Registry
/-!
The store: all pools, handles, arenas and registries of a process, the thread that acts on them,
and the answers of the system allocator.
-/

namespace OffRow

structure SharedPool where
  pool : Pool
  references : Nat
  readers : Nat

structure Store where
  pools : Table .pool SharedPool
  handles : Table .handle Handle
  arenas : Table .arena Arena
  registries : Table .registry Registry
  thread : ThreadId
  nextThread : ThreadId
  /-- What the system allocator answers to a request for a number of bytes: the address of the
  block, or a refusal. -/
  allocator : Nat → Option Nat

namespace Store

def new (allocator : Nat → Option Nat) : Store :=
  ⟨.empty, .empty, .empty, .empty, 0, 1, allocator⟩

variable {α : Type}

def onPool (p : PoolId) (x : Op Pool α) : Op Store α :=
  Op.within (fun s => (s.pools.get? p).map SharedPool.pool)
    (fun pool s => { s with pools := s.pools.modify p fun cell => { cell with pool } }) x

def onArena (a : ArenaId) (x : Op Arena α) : Op Store α :=
  Op.within (fun s => s.arenas.get? a)
    (fun arena s => { s with arenas := s.arenas.put a arena }) x

def shared (p : PoolId) : Op Store SharedPool := do
  Op.expect ((← Op.get).pools.get? p) .dangling

def handle (h : HandleId) : Op Store Handle := do
  Op.expect ((← Op.get).handles.get? h) .dangling

def registry (r : RegistryId) : Op Store Registry := do
  Op.expect ((← Op.get).registries.get? r) .dangling

def arena (a : ArenaId) : Op Store Arena := do
  Op.expect ((← Op.get).arenas.get? a) .dangling

def addHandle (h : Handle) : Op Store HandleId := do
  let s ← Op.get
  Op.modify fun s => { s with handles := s.handles.add h }
  pure s.handles.next

def modifyHandle (h : HandleId) (f : Handle → Handle) : Op Store Unit :=
  Op.modify fun s => { s with handles := s.handles.modify h f }

def eraseHandle (h : HandleId) : Op Store Unit :=
  Op.modify fun s => { s with handles := s.handles.erase h }

def modifyPool (p : PoolId) (f : SharedPool → SharedPool) : Op Store Unit :=
  Op.modify fun s => { s with pools := s.pools.modify p f }

def addPool (p : Pool) : Op Store PoolId := do
  let s ← Op.get
  Op.modify fun s => { s with pools := s.pools.add ⟨p, 1, 0⟩ }
  pure s.pools.next

def addArena (a : Arena) : Op Store ArenaId := do
  let s ← Op.get
  Op.modify fun s => { s with arenas := s.arenas.add a }
  pure s.arenas.next

def addRegistry (r : Registry) : Op Store RegistryId := do
  let s ← Op.get
  Op.modify fun s => { s with registries := s.registries.add r }
  pure s.registries.next

def elsewhere (x : Op Store α) : Op Store α := do
  let s ← Op.get
  Op.modify fun t => { t with thread := s.nextThread, nextThread := s.nextThread + 1 }
  Op.andFinally x (Op.modify fun t => { t with thread := s.thread })

end Store

end OffRow
