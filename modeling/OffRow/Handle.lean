import OffRow.Table

namespace OffRow

abbrev PoolId := Id .pool
abbrev HandleId := Id .handle
abbrev ArenaId := Id .arena
abbrev RegistryId := Id .registry
abbrev ThreadId := Nat

/-- A place in chunked storage: slots are counted within a chunk of a pool, bytes within a chunk
of an arena. -/
structure Place where
  chunk : Nat
  offset : Nat
  deriving DecidableEq, Repr

inductive Address where
  | nowhere
  | block (pool : PoolId) (place : Place)
  | scratch (arena : ArenaId) (place : Place)
  deriving DecidableEq, Repr

structure Handle where
  size : Nat
  temporary : Bool
  location : Address
  pool : Option PoolId
  /-- Whether somebody holds the right to destroy the string. -/
  owned : Bool
  deriving DecidableEq, Repr

namespace Handle

def pooled (pool : PoolId) (size : Nat) : Handle := ⟨size, false, .nowhere, some pool, true⟩

def temp (size : Nat) (location : Address) : Handle := ⟨size, true, location, none, false⟩

def detached (size : Nat) : Handle := ⟨size, false, .nowhere, none, false⟩

def describe (h : Handle) : String :=
  s!"StringRef \x7b size: {h.size}, temporary: {h.temporary}, location: @, .. \x7d"

end Handle

end OffRow
