import OffRow.Bytes.Digest
import OffRow.Handle
import OffRow.Failure

namespace OffRow.Session

inductive Problem where
  | badInput
  | zero
  | noSuch
  | taken
  | busy
  | notOwned
  | notRaw
  | notOwner
  | noBytes
  | noSlot
  | noClass
  | badLayout
  | failed (cause : Failure)
  | unwound
  deriving DecidableEq, Repr

namespace Problem

def name : Problem → String
  | badInput => "BadInput"
  | zero => "Zero"
  | noSuch => "NoSuch"
  | taken => "Exists"
  | busy => "Busy"
  | notOwned => "NotOwned"
  | notRaw => "NotRaw"
  | notOwner => "NotOwner"
  | noBytes => "NoBytes"
  | noSlot => "NoSlot"
  | noClass => "NoClass"
  | badLayout => "BadLayout"
  | failed cause => cause.name
  | unwound => "panic"

def message? : Problem → Option String
  | failed cause => some cause.message
  | unwound => some "outer"
  | _ => none

end Problem

structure DumpEntry where
  name : String
  place : Option Place
  digest : String

structure Growth where
  number : Nat
  block : Nat
  capacity : Nat
  chunks : Nat

structure Shrinkage where
  number : Nat
  block : Nat
  len : Nat
  capacity : Nat
  chunks : Nat

inductive Value where
  | nothing
  | flag (b : Bool)
  | text (s : String)
  | place (w : Option Place)
  | handle (size : Nat) (temporary : Bool) (place : Option Place)
  | temporary (size : Nat) (place : Option Place) (home : Place)
  | createdMany (made : Nat) (grew : List Growth) (stop : Option Problem)
  | destroyedMany (gone : Nat) (shrank : List Shrinkage) (stop : Option Problem)
  | poolClass (index block : Nat) (empty : Bool)
  | poolState (index block : Nat) (empty : Bool) (stride : Nat) (chunks : List Nat)
  | registryState (pools live : Nat)
  | arenaState (bytes chunks : Nat)
  | dump (entries : List DumpEntry)

structure PoolView where
  len : Nat
  capacity : Nat
  chunks : Nat

structure ArenaView where
  bytes : Nat
  chunks : List Nat
  cursor : Nat

structure RegistryView where
  pools : Nat
  live : Nat

structure StepResult where
  value : Option (Except Problem Value)
  log : List String
  pool : Option PoolView
  arena : Option ArenaView
  registry : Option RegistryView
  handles : Option (List DumpEntry)
  nested : Option (List StepResult)
  exit : Option (List String)

end OffRow.Session
