import OffRow.Session.Strings

namespace OffRow.Session

def openRegistry (id via : Field String) (first : Field Nat) (policyName : Field String) :
    Act Value := do
  let name ← id.required
  ensure (!(← get).registries.contains name) .taken
  let registry ← match via with
    | .given "new" => pure Registry.standard
    | .given "default" => pure Registry.standard
    | _ => do
      let first ← positive first ⟨_, Registry.defaultFirstChunkBytes_pos⟩
      pure (Registry.new first.value first.pos (← policy policyName))
  let r ← perform (Store.addRegistry registry)
  modify fun s => { s with registries := s.registries.insert name r }
  touchRegistry r
  pure .nothing

def poolOfClass (r : RegistryId) (c : SizeClass) (hold : Field String) : Act Value := do
  let p ← perform (Store.poolForClass r c)
  touchPool p
  if let some name ← hold.optional then
    ensure (!(← get).pools.contains name) .taken
    perform (Store.acquire p)
    modify fun s => { s with pools := s.pools.insert name p }
  let pool := (← perform (Store.shared p)).pool
  pure (.poolClass pool.sizeClass.index pool.blockSize (pool.len == 0))

def forSize (registry : Field String) (size : Field Nat) (hold : Field String) : Act Value := do
  let r ← touchedRegistry registry
  let size ← size.required
  poolOfClass r (← perform (Op.ofExcept (SizeClass.forSize size))) hold

def forClass (registry : Field String) (index : Field Nat) (hold : Field String) : Act Value := do
  let r ← touchedRegistry registry
  let index ← index.required
  poolOfClass r (← found (SizeClass.ofIndex? index) .noClass) hold

def samePool (registry : Field String) (a b : Field Nat) : Act Value := do
  let r ← registryOf registry
  let a ← a.required
  let b ← b.required
  let p ← perform (Store.poolForSize r a)
  touchPool p
  let q ← perform (Store.poolForSize r b)
  touchPool q
  pure (.flag (p == q))

def registryState (registry : Field String) : Act Value := do
  let r ← perform (Store.registry (← registryOf registry))
  pure (.registryState (Store.poolCount r) ((← get).store.liveBlocks r))

def unlessUnwinding {α : Type} (unwinding : Bool) (a : α) : Act α :=
  if unwinding then throw .unwound else pure a

def dropRegistry (registry : Field String) (unwinding : Bool) : Act Value := do
  let name ← registry.required
  let r ← found (← get).registries[name]? .noSuch
  modify fun s => { s with registries := s.registries.erase name }
  perform (Store.dropRegistry unwinding r)
  unlessUnwinding unwinding .nothing

def openPool (id : Field String) (size first : Field Nat) (policyName : Field String) :
    Act Value := do
  let name ← id.required
  ensure (!(← get).pools.contains name) .taken
  let size ← size.required
  let c ← perform (Op.ofExcept (SizeClass.forSize size))
  let first ← first.required
  ensure (first ≠ 0) .zero
  let p ← perform (Store.createPool c first (← policy policyName))
  modify fun s => { s with pools := s.pools.insert name p }
  touchPool p
  pure .nothing

def poolState (choice : PoolChoice) : Act Value := do
  let p ← choice.resolve
  let pool := (← perform (Store.shared p)).pool
  pure (.poolState pool.sizeClass.index pool.blockSize (pool.len == 0)
    (Pool.stride pool.sizeClass) pool.chunkSizes)

def check (choice : PoolChoice) : Act Value := do
  let p ← choice.resolve
  perform (Store.check p)
  pure (.text "ok")

def isUnused (p : PoolId) : Act Bool := do
  return (← perform (Store.shared p)).readers == 0

def shrink (choice : PoolChoice) : Act Value := do
  let p ← choice.resolve
  ensure (← isUnused p) .busy
  perform (Store.shrinkToFit p)
  pure .nothing

def dropPool (pool : Field String) (unwinding : Bool) : Act Value := do
  let name ← pool.required
  let p ← found (← get).pools[name]? .noSuch
  modify fun s => { s with pools := s.pools.erase name }
  let last := (← perform (Store.shared p)).references == 1
  perform (Store.release unwinding p)
  unlessUnwinding unwinding (.flag last)

def openOwner (id : Field String) (size : Field Nat) : Act Value := do
  let name ← freshHandle id
  let size ← size.required
  let _ ← perform (Op.ofExcept (SizeClass.forSize size))
  let h ← perform (Store.addHandle (.detached size))
  setHandle name ⟨h, .owner none, false, 0, false⟩
  pure .nothing

def ownerOf (field : Field String) : Act (String × NamedHandle) := do
  let name ← field.required
  let n ← found (← get).handles[name]? .noSuch
  pure (name, n)

def lend (a : ArenaId) : Act Unit :=
  modify fun s =>
    { s with
      arenas := s.arenas.map fun _ n => if n.arena = a then { n with lent := true } else n }

def rawAllocate (pool owner : Field String) (install : Bool) : Act Value := do
  let p ← poolOf pool
  let (name, n) ← ownerOf owner
  match n.kind with
  | .pooled => throw .notOwner
  | .temporary a => lend a
  | .owner _ => pure ()
  ensure (← isUnused p) .busy
  let w ← perform (Store.allocateBlock p n.handle)
  if install then
    perform (Store.updateLocation n.handle (.block p w))
    setHandle name { n with kind := .owner (some p) }
  pure (.place (some w))

def slotPlace? : List Nat → Nat → Nat → Option Place
  | [], _, _ => none
  | size :: sizes, chunk, slot =>
    if slot < size then some ⟨chunk, slot⟩ else slotPlace? sizes (chunk + 1) (slot - size)

def rawFree (pool : Field String) (slot : Field Nat) (owner source : Field String) :
    Act Value := do
  let p ← poolOf pool
  let slot ← slot.required
  let (name, n) ← ownerOf owner
  let q ← match ← source.optional with
    | none => pure p
    | some name => found (← get).pools[name]? .noSuch
  let sizes := (← perform (Store.shared q)).pool.chunkSizes
  let w ← found (slotPlace? sizes 0 slot) .noSlot
  let owned ← isOwned n
  if let .pooled := n.kind then ensure owned .notOwner
  ensure (← isUnused p) .busy
  perform (Store.freeBlock p (.block q w) n.handle)
  match n.kind with
  | .pooled => setHandle name { n with freed := true }
  | .owner _ => setHandle name { n with kind := .owner none }
  | .temporary _ => pure ()
  pure .nothing

end OffRow.Session
