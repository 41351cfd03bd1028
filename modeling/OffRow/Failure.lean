import OffRow.Word
/-!
The ways in which an operation may fail. An `Error` is reported to the caller, a `Fault` is a
broken contract; both have one text.
-/

namespace OffRow

inductive Error where
  | invalidSize (size max : Nat)
  | outOfMemory (requested : Nat)
  deriving DecidableEq, Repr

namespace Error

def name : Error → String
  | invalidSize .. => "InvalidSize"
  | outOfMemory .. => "OutOfMemory"

def message : Error → String
  | invalidSize size max =>
    s!"invalid string size {size}: must be between 1 and {max} bytes"
  | outOfMemory requested =>
    s!"out of memory: failed to reserve {requested} bytes of backing storage"

def describe : Error → String
  | invalidSize size max => s!"InvalidSize \x7b size: {size}, max: {max} \x7d"
  | outOfMemory requested => s!"OutOfMemory \x7b requested_bytes: {requested} \x7d"

end Error

inductive Fault where
  | poolInUse
  | wrongThread (block : Nat)
  | sizeExceedsBlock
  | notLive (index block : Nat)
  | temporaryRelocated
  | temporaryReclaimed
  | poolless
  | ownerMissing
  | slotOutOfBounds (index capacity block : Nat)
  | indexOverflow
  | chunkMissing
  | slotOutsideChunk
  | lenOverflow
  | lenUnderflow
  | capacityOverflow
  | capacityUnderflow
  | nothingToRelease
  | liveChunkReleased
  | cursorOutsideChunk
  | freshChunkTooSmall
  | capacityMismatch (capacity total : Nat)
  | lenExceedsCapacity (len capacity : Nat)
  | vacantSlotOwned (index len : Nat)
  | wrongIndex (index recorded : Nat)
  | slotUnowned (index : Nat)
  | staleLocation (index : Nat)
  | ownerTooLarge (index : Nat)
  | poolDropped (block live : Nat)
  | registryDropped (live : Nat)
  | dangling
  deriving DecidableEq, Repr

namespace Fault

def unequal (text : String) : String := "assertion `left == right` failed: " ++ text

def message : Fault → String
  | poolInUse =>
    "cannot modify a string pool while bytes of one of its strings are being accessed; " ++
    "strings of the same size class cannot be created or destroyed inside read() or write()" ++
    ": BorrowMutError"
  | wrongThread block =>
    unequal s!"the pool for {block}-byte blocks may only be used by the thread that created it"
  | sizeExceedsBlock => "assertion failed: size <= pool.block_size()"
  | notLive index block =>
    s!"freed string block at slot {index} is not a live block of the pool for " ++
    s!"{block}-byte blocks owned by the caller; was it freed twice?"
  | temporaryRelocated => "temporary strings are never relocated"
  | temporaryReclaimed =>
    "temporary strings are reclaimed with their arena and cannot be destroyed individually"
  | poolless => "pooled strings always reference their pool"
  | ownerMissing => "live slots always record the handle that owns them"
  | slotOutOfBounds index capacity block =>
    s!"slot {index} out of bounds in pool of capacity {capacity} for {block}-byte blocks"
  | indexOverflow => "index is bounded by capacity, far below usize::MAX"
  | chunkMissing => "every index below capacity maps to an existing chunk"
  | slotOutsideChunk => "assertion failed: index_in_chunk < self.slots"
  | lenOverflow => "guarded by index < capacity above"
  | lenUnderflow => "guarded by index < len above"
  | capacityOverflow => "capacity cannot exceed the address space"
  | capacityUnderflow => "capacity is the sum of all chunk sizes"
  | nothingToRelease => "only called when there is a chunk to release"
  | liveChunkReleased => "released a chunk that still contained live blocks"
  | cursorOutsideChunk => "assertion failed: offset <= self.size()"
  | freshChunkTooSmall => "a fresh chunk is sized to fit the request including padding"
  | capacityMismatch capacity total =>
    unequal s!"capacity {capacity} does not match the sum of chunk sizes {total}"
  | lenExceedsCapacity len capacity => s!"len {len} exceeds capacity {capacity}"
  | vacantSlotOwned index len => s!"slot {index} is past len {len} but still has an owner"
  | wrongIndex index recorded =>
    unequal s!"slot {index} records the wrong index {recorded}"
  | slotUnowned index => s!"live slot {index} has no owner"
  | staleLocation index => unequal s!"handle owning slot {index} caches a stale location"
  | ownerTooLarge index => s!"handle owning slot {index} is larger than the block"
  | poolDropped block live =>
    s!"dropped a pool for {block}-byte blocks with {live} live blocks with a policy that says " ++
    "it must be empty when dropped"
  | registryDropped live =>
    s!"dropped a pool registry with {live} live strings with a policy that says " ++
    "it must be empty when dropped"
  | dangling => "the object has been released"

end Fault

inductive Failure where
  | error (cause : Error)
  | fault (cause : Fault)
  deriving DecidableEq, Repr

namespace Failure

def name : Failure → String
  | error cause => cause.name
  | fault _ => "panic"

def message : Failure → String
  | error cause => cause.message
  | fault cause => cause.message

end Failure

end OffRow
