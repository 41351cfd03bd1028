import OffRow.Bytes
import OffRow.Handle
import OffRow.Layout
import OffRow.Op

namespace OffRow

structure ArenaChunk where
  base : Nat
  size : Nat
  memory : ByteArray

structure Arena where
  chunks : Array ArenaChunk
  cursor : Nat
  allocatedBytes : Nat
  chunkSize : Nat
  chunkSize_pos : 0 < chunkSize

namespace Arena

def defaultChunkSize : Nat := 4096

def new (chunkSize : Nat) (h : 0 < chunkSize) : Arena := ⟨#[], 0, 0, chunkSize, h⟩

def chunkSizes (a : Arena) : List Nat := a.chunks.toList.map ArenaChunk.size

def bump (chunk : ArenaChunk) (layout : Layout) : Op Arena (Option Nat) := do
  let a ← Op.get
  Op.ensure (a.cursor ≤ chunk.size) .cursorOutsideChunk
  let padding := Layout.padding (chunk.base + a.cursor) layout.align
  match Word.add? a.cursor padding with
  | none => pure none
  | some start =>
    match Word.add? start layout.size with
    | none => pure none
    | some stop =>
      if stop ≤ chunk.size then
        Op.modify fun a => { a with cursor := stop }
        pure (some start)
      else pure none

def nextSize (a : Arena) (least : Nat) : Nat :=
  max (match a.chunks.back? with
    | none => a.chunkSize
    | some chunk => Word.satMul chunk.size 2) least

/-- Reserves a chunk and carves the piece out of it. `answers` is what the system allocator
answers to a request for a number of bytes: an address, or a refusal. -/
def grow (answers : Nat → Option Nat) (layout : Layout) : Op Arena Place := do
  let a ← Op.get
  match Word.add? layout.size layout.align with
  | none => Op.error (.outOfMemory layout.size)
  | some least =>
    let size := a.nextSize least
    match (Layout.words? size).bind fun _ => answers size with
    | none => Op.error (.outOfMemory size)
    | some base =>
      let chunk : ArenaChunk := ⟨base, size, .empty⟩
      Op.emit (.arenaGrown size (a.chunks.size + 1))
      Op.modify fun a => { a with cursor := 0 }
      let start ← Op.expect (← bump chunk layout) .freshChunkTooSmall
      Op.modify fun a => { a with chunks := a.chunks.push chunk }
      pure ⟨a.chunks.size, start⟩

def bumpLast (layout : Layout) : Op Arena (Option Place) := do
  let a ← Op.get
  match a.chunks.back? with
  | none => pure none
  | some chunk => return (← bump chunk layout).map fun start => ⟨a.chunks.size - 1, start⟩

def allocateLayout (answers : Nat → Option Nat) (layout : Layout) : Op Arena Place := do
  if layout.size = 0 then Op.error (.invalidSize 0 Layout.largest)
  else
    let w ← match ← bumpLast layout with
      | some w => pure w
      | none => grow answers layout
    Op.modify fun a => { a with allocatedBytes := Word.satAdd a.allocatedBytes layout.size }
    pure w

def allocate (answers : Nat → Option Nat) (size : Nat) : Op Arena Place :=
  match Layout.words? size with
  | none => Op.error (.outOfMemory size)
  | some layout => allocateLayout answers layout

def reset : Op Arena Unit := do
  let a ← Op.get
  match a.chunks.back? with
  | none => pure ()
  | some chunk =>
    Op.modify fun a => { a with chunks := #[chunk] }
    Op.emit (.arenaReset (a.chunks.size - 1))
  Op.modify fun a => { a with cursor := 0, allocatedBytes := 0 }

def load (a : Arena) (w : Place) (size : Nat) : ByteArray :=
  match a.chunks[w.chunk]? with
  | none => .empty
  | some chunk => chunk.memory.extract w.offset (w.offset + size)

def store (a : Arena) (w : Place) (data : ByteArray) : Arena :=
  { a with
    chunks := a.chunks.modify w.chunk fun chunk =>
      { chunk with
        memory := Bytes.patch (Bytes.padTo chunk.memory (w.offset + data.size)) w.offset data } }

end Arena

end OffRow
