import OffRow.Session.Step
import OffRow.Store.Registries
import OffRow.Store.Temporaries
import Std.Data.TreeMap

namespace OffRow.Session

abbrev Names (α : Type) := Std.TreeMap String α

inductive HandleKind where
  | pooled
  | temporary (arena : ArenaId)
  | owner (settled : Option PoolId)

structure NamedHandle where
  handle : HandleId
  kind : HandleKind
  freed : Bool
  readers : Nat
  writing : Bool

structure NamedArena where
  arena : ArenaId
  lent : Bool

structure Trail where
  events : List Event
  pool : Option PoolId
  arena : Option ArenaId
  registry : Option RegistryId

def Trail.empty : Trail := ⟨[], none, none, none⟩

structure Options where
  limit : Nat
  level : Option Level
  watch : Bool

end Session

structure Session where
  store : Store
  current : RegistryId
  registries : Session.Names RegistryId
  pools : Session.Names PoolId
  arenas : Session.Names Session.NamedArena
  handles : Session.Names Session.NamedHandle
  options : Session.Options
  trail : Session.Trail

namespace Session

def defaultLimit : Nat := 64 <<< 20

def leastLimit : Nat := 4096

def Options.of (limit : Field Nat) (level : Field String) (watch : Bool) :
    Except Problem Options := do
  let limit := max ((← limit.optional).getD defaultLimit) leastLimit
  match ← level.optional with
  | none => pure ⟨limit, none, watch⟩
  | some name =>
    match Level.ofName? name with
    | none => throw .badInput
    | some l => pure ⟨limit, some l, watch⟩

def allocator (limit bytes : Nat) : Option Nat := if bytes ≤ limit then some 4096 else none

def start (options : Options) : Session :=
  let store := Store.new (allocator options.limit)
  let o := (Store.addRegistry .standard).run store
  ⟨o.state, store.registries.next, {}, {}, {}, {}, options, .empty⟩

abbrev Act (α : Type) := ExceptT Problem (StateM Session) α

variable {α : Type}

def perform (x : Op Store α) : Act α := do
  let s ← get
  let o := x.run s.store
  set { s with
    store := o.state
    trail := { s.trail with events := o.events.reverse ++ s.trail.events } }
  match o.result with
  | .ok a => pure a
  | .error e => throw (.failed e)

def attempt (x : Act α) : Act (Except Problem α) :=
  tryCatch (do return .ok (← x)) fun e => return .error e

def ensure (p : Prop) [Decidable p] (problem : Problem) : Act Unit :=
  if p then pure () else throw problem

def found (a : Option α) (problem : Problem) : Act α :=
  match a with
  | some a => pure a
  | none => throw problem

def touchPool (p : PoolId) : Act Unit :=
  modify fun s => { s with trail := { s.trail with pool := some p } }

def touchArena (a : ArenaId) : Act Unit :=
  modify fun s => { s with trail := { s.trail with arena := some a } }

def touchRegistry (r : RegistryId) : Act Unit :=
  modify fun s => { s with trail := { s.trail with registry := some r } }

structure Positive where
  value : Nat
  pos : 0 < value

def positive (field : Field Nat) (preset : Positive) : Act Positive := do
  match ← field.optional with
  | none => pure preset
  | some n => if h : 0 < n then pure ⟨n, h⟩ else throw .zero

def policy (field : Field String) : Act DropPolicy := do
  match ← field.optional with
  | none => pure .mayDropItems
  | some "may" => pure .mayDropItems
  | some "must" => pure .mustNotDropItems
  | some _ => throw .badInput

def registryOf (field : Field String) : Act RegistryId := do
  match ← field.optional with
  | none => return (← get).current
  | some name => found (← get).registries[name]? .noSuch

def touchedRegistry (field : Field String) : Act RegistryId := do
  let r ← registryOf field
  if !field.isAbsent then touchRegistry r
  pure r

def poolOf (field : Field String) : Act PoolId := do
  let name ← field.required
  let p ← found (← get).pools[name]? .noSuch
  touchPool p
  pure p

def arenaOf (field : Field String) : Act (String × NamedArena) := do
  let name ← field.required
  let a ← found (← get).arenas[name]? .noSuch
  pure (name, a)

def PoolChoice.resolve (c : PoolChoice) : Act PoolId := do
  if c.pool.isAbsent then
    let r ← registryOf c.registry
    let size ← c.size.required
    let p ← perform (Store.poolForSize r size)
    touchPool p
    pure p
  else poolOf c.pool

def handleOf (field : Field String) : Act (String × NamedHandle) := do
  let name ← field.required
  let h ← found (← get).handles[name]? .noSuch
  match h.kind with
  | .temporary a => touchArena a
  | .owner settled => if let some p := settled then touchPool p
  | .pooled =>
    if let some p := ((← get).store.handles.get? h.handle).bind Handle.pool then touchPool p
  pure (name, h)

def setHandle (name : String) (h : NamedHandle) : Act Unit :=
  modify fun s => { s with handles := s.handles.insert name h }

def freshHandle (field : Field String) : Act String := do
  let name ← field.required
  ensure (!(← get).handles.contains name) .taken
  pure name

def placeOf (s : Store) : Address → Option Place
  | .nowhere => none
  | .block p w => ((s.pools.get? p).bind (·.pool.slot? w)).map fun _ => w
  | .scratch a w => ((s.arenas.get? a).bind (·.chunks[w.chunk]?)).map fun _ => w

def handlePlace (s : Store) (n : NamedHandle) : Option Place :=
  match s.handles.get? n.handle with
  | none => none
  | some h =>
    match n.kind, h.location with
    | .owner settled, .block p w => if settled = some p then placeOf s (.block p w) else none
    | _, location => if n.freed then none else placeOf s location

def dumpEntry? (s : Store) (name : String) (n : NamedHandle) : Option DumpEntry :=
  match n.kind with
  | .owner _ => none
  | _ =>
    if n.freed || n.writing then none
    else
      ((s.handles.get? n.handle).bind s.bytes?).map fun bytes =>
        ⟨name, handlePlace s n, Bytes.digest bytes⟩

def dump (s : Session) : List DumpEntry :=
  s.handles.toList.filterMap fun (name, n) => dumpEntry? s.store name n

def recorded (level : Option Level) (events : List Event) : List String :=
  match level with
  | none => []
  | some l => (events.filter fun e => e.level.rank ≤ l.rank).map Event.render

def poolView? (s : Store) (p : PoolId) : Option PoolView :=
  (s.pools.get? p).map fun cell =>
    ⟨cell.pool.len, cell.pool.capacity, cell.pool.chunks.size⟩

def arenaView? (s : Store) (a : ArenaId) : Option ArenaView :=
  (s.arenas.get? a).map fun arena => ⟨arena.allocatedBytes, arena.chunkSizes, arena.cursor⟩

def registryView? (s : Store) (r : RegistryId) : Option RegistryView :=
  (s.registries.get? r).map fun registry => ⟨Store.poolCount registry, s.liveBlocks registry⟩

end Session

end OffRow
