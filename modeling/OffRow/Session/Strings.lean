import OffRow.Session.State

namespace OffRow.Session

inductive Source where
  | pool (p : PoolId)
  | registry (r : RegistryId)

def Home.resolve (home : Home) : Act Source := do
  if home.pool.isAbsent then return .registry (← touchedRegistry home.registry)
  else return .pool (← poolOf home.pool)

def createFrom (source : Source) (size : Nat) (thread : Op Store HandleId → Op Store HandleId) :
    Act HandleId := do
  let x := match source with
    | .pool p => Store.createIn p size
    | .registry r => Store.create r size
  let created ← attempt (perform (thread x))
  if let .registry r := source then
    if let .ok c := SizeClass.forSize size then
      if let some p := ((← get).store.registries.get? r).bind (·.pool? c) then touchPool p
  match created with
  | .ok h => pure h
  | .error e => throw e

def createNamed (name : String) (source : Source) (size : Nat)
    (thread : Op Store HandleId → Op Store HandleId) : Act NamedHandle := do
  let h ← createFrom source size thread
  let n : NamedHandle := ⟨h, .pooled, false, 0, false⟩
  setHandle name n
  pure n

def handleValue (n : NamedHandle) : Act Value := do
  let s ← get
  let h ← perform (Store.handle n.handle)
  pure (.handle h.size h.temporary (handlePlace s.store n))

def create (id : Field String) (home : Home) (size : Field Nat) : Act Value := do
  let name ← freshHandle id
  let size ← size.required
  let source ← home.resolve
  handleValue (← createNamed name source size fun x => x)

def createElsewhere (id registry : Field String) (size : Field Nat) : Act Value := do
  let name ← freshHandle id
  let size ← size.required
  let r ← touchedRegistry registry
  handleValue (← createNamed name (.registry r) size Store.elsewhere)

def growthOf (s : Store) (number : Nat) (h : HandleId) : Option Growth :=
  match (s.handles.get? h).map Handle.location with
  | some (.block p w) =>
    match s.pools.get? p with
    | some ⟨pool, _, _⟩ =>
      if w = ⟨pool.chunks.size - 1, 0⟩ then
        some ⟨number, pool.blockSize, pool.capacity, pool.chunks.size⟩
      else none
    | none => none
  | _ => none

def createOne (stem : String) (source : Source) (size number : Nat) : Act (Option Growth) := do
  let name := stem ++ toString number
  ensure (!(← get).handles.contains name) .taken
  let n ← createNamed name source size fun x => x
  perform do
    Store.write n.handle 0 (Bytes.replicate size (UInt8.ofNat number)) (pure ())
  return growthOf (← get).store number n.handle

def createSeries (stem : String) (source : Source) (sizes : Array Nat) (first : Nat) :
    Nat → Nat → List Growth → Act Value
  | 0, number, grew => pure (.createdMany (number - first) grew.reverse none)
  | count + 1, number, grew => do
    let size := sizes[(number - first) % sizes.size]?.getD 0
    match ← attempt (createOne stem source size number) with
    | .error e => pure (.createdMany (number - first) grew.reverse (some e))
    | .ok growth =>
      createSeries stem source sizes first count (number + 1) (growth.toList ++ grew)

def createMany (stem : Field String) (start count : Field Nat) (sizes : Field (List Nat))
    (home : Home) : Act Value := do
  let stem ← stem.required
  let start := (← start.optional).getD 0
  let count ← count.required
  let sizes ← sizes.required
  ensure (!sizes.isEmpty) .badInput
  let source ← home.resolve
  createSeries stem source sizes.toArray start count start []

def NamedHandle.isBusy (n : NamedHandle) : Bool := n.writing || 0 < n.readers

def isOwned (n : NamedHandle) : Act Bool := do
  let s ← get
  match n.kind with
  | .pooled => return ((s.store.handles.get? n.handle).map Handle.owned).getD false
  | _ => return false

def destroy (id : Field String) (thread : Op Store Unit → Op Store Unit) : Act Unit := do
  let (name, n) ← handleOf id
  ensure (!n.isBusy) .busy
  ensure (← isOwned n) .notOwned
  perform (thread (Store.destroy n.handle))
  modify fun s => { s with handles := s.handles.erase name }

def poolOfHandle? (s : Session) (name : String) : Option (PoolId × Pool) := do
  let n ← s.handles[name]?
  let h ← s.store.handles.get? n.handle
  let p ← h.pool
  let cell ← s.store.pools.get? p
  pure (p, cell.pool)

def destroyOne (stem : String) (number : Nat) : Act (Option Shrinkage) := do
  let name := stem ++ toString number
  let before := poolOfHandle? (← get) name
  destroy (.given name) fun x => x
  match before with
  | none => pure none
  | some (p, pool) =>
    match (← get).store.pools.get? p with
    | none => pure none
    | some ⟨after, _, _⟩ =>
      if after.capacity = pool.capacity then pure none
      else pure (some ⟨number, after.blockSize, after.len, after.capacity, after.chunks.size⟩)

def destroySeries (stem : String) : List Nat → Nat → List Shrinkage → Act Value
  | [], gone, shrank => pure (.destroyedMany gone shrank.reverse none)
  | number :: order, gone, shrank => do
    match ← attempt (destroyOne stem number) with
    | .error e => pure (.destroyedMany gone shrank.reverse (some e))
    | .ok shrinkage => destroySeries stem order (gone + 1) (shrinkage.toList ++ shrank)

def destroyMany (stem : Field String) (order : Field (List Nat)) : Act Value := do
  let stem ← stem.required
  destroySeries stem (← order.required) 0 []

def intoRaw (id : Field String) : Act Value := do
  let (_, n) ← handleOf id
  ensure (!n.isBusy) .busy
  ensure (← isOwned n) .notOwned
  perform (Store.intoRaw n.handle)
  pure .nothing

def fromRaw (id : Field String) : Act Value := do
  let (_, n) ← handleOf id
  ensure (!n.isBusy) .busy
  match n.kind with
  | .owner _ => throw .notRaw
  | _ =>
    ensure (!(← isOwned n)) .notRaw
    perform (Store.fromRaw n.handle)
    pure .nothing

def info (id : Field String) : Act Value := do
  handleValue (← handleOf id).2

def describe (id : Field String) : Act Value := do
  let (_, n) ← handleOf id
  let h ← perform (Store.handle n.handle)
  if ← isOwned n then return .text s!"PooledStringRef({h.describe})"
  else return .text h.describe

def NamedHandle.hasBytes (n : NamedHandle) : Bool :=
  match n.kind with
  | .owner _ => false
  | _ => true

def beginRead (id : Field String) : Act (String × NamedHandle) := do
  let (name, n) ← handleOf id
  ensure n.hasBytes .noBytes
  ensure (!n.writing) .busy
  ensure (!n.freed) .noBytes
  perform (Store.beginAccess n.handle)
  setHandle name { n with readers := n.readers + 1 }
  pure (name, n)

def Content.bytes (content : Content) (room : Nat) : Except Problem ByteArray := do
  if let some text ← content.text.optional then return text.toUTF8
  if let some hex ← content.hex.optional then
    match Bytes.ofHex? hex with
    | some data => return data
    | none => throw .badInput
  if let some fill ← content.fill.optional then return Bytes.replicate room (UInt8.ofNat fill)
  if let some pattern ← content.pattern.optional then
    return Bytes.tabulate room fun i => UInt8.ofNat ((i + pattern) % 251)
  return .empty

def beginWrite (id : Field String) (start : Field Nat) (content : Content) :
    Act (String × NamedHandle) := do
  let (name, n) ← handleOf id
  ensure n.hasBytes .noBytes
  ensure (!n.isBusy) .busy
  ensure (!n.freed) .noBytes
  let h ← perform (Store.handle n.handle)
  let start := min ((← start.optional).getD 0) h.size
  let data ← content.bytes (h.size - start)
  perform (Store.beginAccess n.handle)
  perform (Store.overwrite n.handle start data)
  setHandle name { n with writing := true }
  pure (name, n)

def endAccess (access : String × NamedHandle) : Act Value := do
  let (name, n) := access
  let bytes ← perform (Store.bytes n.handle)
  perform (Store.endAccess n.handle)
  setHandle name n
  pure (.text (Bytes.digest bytes))

end OffRow.Session
