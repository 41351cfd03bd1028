import OffRow.Session.Answer
/-!
The steps of a session, as they were received: a field may be missing or malformed, and it depends
on the step when that is noticed.
-/

namespace OffRow.Session

inductive Field (α : Type) where
  | absent
  | malformed
  | given (value : α)

namespace Field

variable {α : Type}

def required : Field α → Except Problem α
  | given a => .ok a
  | _ => .error .badInput

def optional : Field α → Except Problem (Option α)
  | absent => .ok none
  | malformed => .error .badInput
  | given a => .ok (some a)

def isAbsent : Field α → Bool
  | absent => true
  | _ => false

end Field

structure Home where
  pool : Field String
  registry : Field String

structure PoolChoice where
  pool : Field String
  registry : Field String
  size : Field Nat

structure Content where
  text : Field String
  hex : Field String
  fill : Field Nat
  pattern : Field Nat

inductive Step where
  | malformed
  | registry (id via : Field String) (first : Field Nat) (policy : Field String)
  | create (id : Field String) (home : Home) (size : Field Nat)
  | createElsewhere (id registry : Field String) (size : Field Nat)
  | createMany (stem : Field String) (start count : Field Nat) (sizes : Field (List Nat))
      (home : Home)
  | destroyMany (stem : Field String) (order : Field (List Nat))
  | forSize (registry : Field String) (size : Field Nat) (hold : Field String)
  | forClass (registry : Field String) (index : Field Nat) (hold : Field String)
  | samePool (registry : Field String) (a b : Field Nat)
  | registryState (registry : Field String)
  | dropRegistry (registry : Field String) (unwinding : Bool)
  | pool (id : Field String) (size first : Field Nat) (policy : Field String)
  | poolState (choice : PoolChoice)
  | check (choice : PoolChoice)
  | shrink (choice : PoolChoice)
  | dropPool (pool : Field String) (unwinding : Bool)
  | owner (id : Field String) (size : Field Nat)
  | rawAllocate (pool owner : Field String) (install : Bool)
  | rawFree (pool : Field String) (slot : Field Nat) (owner source : Field String)
  | info (id : Field String)
  | describe (id : Field String)
  | read (id : Field String)
  | readDuring (id : Field String) (steps : List Step)
  | write (id : Field String) (start : Field Nat) (content : Content)
  | writeDuring (id : Field String) (start : Field Nat) (content : Content) (steps : List Step)
  | destroy (id : Field String)
  | destroyElsewhere (id : Field String)
  | intoRaw (id : Field String)
  | fromRaw (id : Field String)
  | dump
  | arena (id : Field String) (chunk : Field Nat) (via : Field String)
  | allocate (arena : Field String) (size : Field Nat)
  | allocateLayout (arena : Field String) (size align : Field Nat)
  | temporary (id arena : Field String) (size : Field Nat)
  | reset (arena : Field String)
  | dropArena (arena : Field String)
  | arenaState (arena : Field String)
  | thread (steps : List Step)
  deriving Inhabited

end OffRow.Session
