import OffRow.Session.Pools
import OffRow.Session.Arenas

namespace OffRow.Session

def Step.act : Step → Act Value
  | .malformed => throw .badInput
  | .registry id via first policy => openRegistry id via first policy
  | .create id home size => Session.create id home size
  | .createElsewhere id r size => Session.createElsewhere id r size
  | .createMany stem start count sizes home => Session.createMany stem start count sizes home
  | .destroyMany stem order => Session.destroyMany stem order
  | .forSize r size hold => Session.forSize r size hold
  | .forClass r index hold => Session.forClass r index hold
  | .samePool r a b => Session.samePool r a b
  | .registryState r => Session.registryState r
  | .dropRegistry r unwinding => Session.dropRegistry r unwinding
  | .pool id size first policy => openPool id size first policy
  | .poolState choice => Session.poolState choice
  | .check choice => Session.check choice
  | .shrink choice => Session.shrink choice
  | .dropPool p unwinding => Session.dropPool p unwinding
  | .owner id size => openOwner id size
  | .rawAllocate p h install => Session.rawAllocate p h install
  | .rawFree p slot h source => Session.rawFree p slot h source
  | .info id => Session.info id
  | .describe id => Session.describe id
  | .read id => do endAccess (← beginRead id)
  | .write id start content => do endAccess (← beginWrite id start content)
  | .destroy id => do
    Session.destroy id fun x => x
    pure .nothing
  | .destroyElsewhere id => do
    Session.destroy id Store.elsewhere
    pure .nothing
  | .intoRaw id => Session.intoRaw id
  | .fromRaw id => Session.fromRaw id
  | .dump => return .dump (Session.dump (← get))
  | .arena id chunk via => openArena id chunk via
  | .allocate a size => Session.allocate a size
  | .allocateLayout a size align => Session.allocateLayout a size align
  | .temporary id a size => createTemporary id a size
  | .reset a => Session.reset a
  | .dropArena a => Session.dropArena a
  | .arenaState a => Session.arenaState a
  | .readDuring .. | .writeDuring .. | .thread _ => throw .badInput

def enter : StateM Session Trail :=
  modifyGet fun s => (s.trail, { s with trail := .empty })

def leave (around : Trail) (value : Option (Except Problem Value))
    (nested : Option (List StepResult)) (exit : Option (List String)) :
    StateM Session StepResult :=
  modifyGet fun s =>
    ({ value, nested, exit
       log := recorded s.options.level s.trail.events.reverse
       pool := s.trail.pool.bind (poolView? s.store)
       arena := s.trail.arena.bind (arenaView? s.store)
       registry := s.trail.registry.bind (registryView? s.store)
       handles := if s.options.watch then some (Session.dump s) else none },
     { s with trail := around })

def cleanUp (s : Session) : Store :=
  let owned := s.handles.toList.filterMap fun (_, n) =>
    match n.kind, s.store.handles.get? n.handle with
    | .pooled, some h => if h.owned then some n.handle else none
    | _, _ => none
  let store := owned.foldl (fun t h => ((Store.destroy h).run t).state) s.store
  let store := s.registries.toList.foldl
    (fun t (_, r) => ((Store.dropRegistry false r).run t).state) store
  let store := s.pools.toList.foldl (fun t (_, p) => ((Store.release false p).run t).state) store
  s.arenas.toList.foldl (fun t (_, n) => ((Store.dropArena n.arena).run t).state) store

def exitLog (s : Session) : List String :=
  recorded s.options.level ((Store.dropRegistry false s.current).run (cleanUp s)).events

mutual

def Step.run : Step → StateM Session StepResult
  | .readDuring id steps => do
    let around ← enter
    match ← (beginRead id).run with
    | .error e => leave around (some (.error e)) none none
    | .ok access =>
      let results ← runAll steps
      let value ← (endAccess access).run
      leave around (some value) (some results) none
  | .writeDuring id start content steps => do
    let around ← enter
    match ← (beginWrite id start content).run with
    | .error e => leave around (some (.error e)) none none
    | .ok access =>
      let results ← runAll steps
      let value ← (endAccess access).run
      leave around (some value) (some results) none
  | .thread steps => do
    let around ← enter
    let outer ← get
    set (start outer.options)
    let results ← runAll steps
    let inner ← get
    set outer
    leave around none (some results) (some inner.exitLog)
  | step => do
    let around ← enter
    let value ← step.act.run
    leave around (some value) none none

def runAll : List Step → StateM Session (List StepResult)
  | [] => pure []
  | step :: steps => do
    let result ← step.run
    let results ← runAll steps
    pure (result :: results)

end

def runSession (options : Options) (steps : List Step) : List StepResult × List String :=
  let (results, last) := (runAll steps).run (start options)
  (results, last.exitLog)

end OffRow.Session
