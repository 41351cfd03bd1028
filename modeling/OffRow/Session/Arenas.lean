import OffRow.Session.Strings

namespace OffRow.Session

def openArena (id : Field String) (chunk : Field Nat) (via : Field String) : Act Value := do
  let name ← id.required
  ensure (!(← get).arenas.contains name) .taken
  let preset : Positive := ⟨Arena.defaultChunkSize, by decide⟩
  let size ← match via with
    | .given "new" => pure preset
    | .given "default" => pure preset
    | _ => positive chunk preset
  let a ← perform (Store.addArena (.new size.value size.pos))
  modify fun s => { s with arenas := s.arenas.insert name ⟨a, false⟩ }
  touchArena a
  pure .nothing

def touchedArena (field : Field String) : Act ArenaId := do
  let (_, a) ← arenaOf field
  touchArena a.arena
  pure a.arena

def allocate (arena : Field String) (size : Field Nat) : Act Value := do
  let a ← touchedArena arena
  let size ← size.required
  return .place (some (← perform (Store.allocateScratch a size)))

def allocateLayout (arena : Field String) (size align : Field Nat) : Act Value := do
  let a ← touchedArena arena
  let size ← size.required
  let align ← align.required
  let layout ← found (Layout.of? size align) .badLayout
  return .place (some (← perform (Store.allocateScratchLayout a layout)))

def createTemporary (id arena : Field String) (size : Field Nat) : Act Value := do
  let name ← freshHandle id
  let a ← touchedArena arena
  let size ← size.required
  let (h, home) ← perform (Store.createTemporary a size)
  let n : NamedHandle := ⟨h, .temporary a, false, 0, false⟩
  setHandle name n
  return .temporary size (handlePlace (← get).store n) home

def NamedHandle.isIn (n : NamedHandle) (a : ArenaId) : Bool :=
  match n.kind with
  | .temporary b => a == b
  | _ => false

def idleArena (field : Field String) : Act (String × ArenaId) := do
  let (name, a) ← arenaOf field
  let accessed := (← get).handles.any fun _ n => n.isIn a.arena && n.isBusy
  ensure (!accessed && !a.lent) .busy
  pure (name, a.arena)

def forgetTemporaries (a : ArenaId) : Act Unit :=
  modify fun s => { s with handles := s.handles.filter fun _ n => !n.isIn a }

def reset (arena : Field String) : Act Value := do
  let (_, a) ← idleArena arena
  perform (Store.resetArena a)
  forgetTemporaries a
  touchArena a
  pure .nothing

def dropArena (arena : Field String) : Act Value := do
  let (name, a) ← idleArena arena
  perform (Store.dropArena a)
  forgetTemporaries a
  modify fun s => { s with arenas := s.arenas.erase name }
  pure .nothing

def arenaState (arena : Field String) : Act Value := do
  let a ← perform (Store.arena (← touchedArena arena))
  pure (.arenaState a.allocatedBytes a.chunks.size)

end OffRow.Session
