import OffRow.Store.Strings

namespace OffRow.Store

def handleLayout : Layout := ⟨32, 8, by decide, by decide⟩

def createTemporary (a : ArenaId) (size : Nat) : Op Store (HandleId × Place) := do
  let _ ← Op.ofExcept (SizeClass.forSize size)
  let s ← Op.get
  let home ← onArena a (Arena.allocateLayout s.allocator handleLayout)
  let w ← onArena a (Arena.allocate s.allocator size)
  onArena a (Op.modify (·.store w (Bytes.zeros size)))
  let h ← addHandle (.temp size (.scratch a w))
  pure (h, home)

def allocateScratch (a : ArenaId) (size : Nat) : Op Store Place := do
  let s ← Op.get
  onArena a (Arena.allocate s.allocator size)

def allocateScratchLayout (a : ArenaId) (layout : Layout) : Op Store Place := do
  let s ← Op.get
  onArena a (Arena.allocateLayout s.allocator layout)

def livesIn (a : ArenaId) (h : Handle) : Bool :=
  match h.location with
  | .scratch b _ => h.temporary && a == b
  | _ => false

def eraseTemporaries (a : ArenaId) : Op Store Unit :=
  Op.modify fun s =>
    { s with handles := s.handles.filter fun h => !livesIn a h }

def resetArena (a : ArenaId) : Op Store Unit := do
  onArena a Arena.reset
  eraseTemporaries a

def dropArena (a : ArenaId) : Op Store Unit := do
  let _ ← arena a
  eraseTemporaries a
  Op.modify fun s => { s with arenas := s.arenas.erase a }

end OffRow.Store
