import OffRow.Store.Registries
import OffRow.Store.Temporaries
/-!
Runs of a store. An engine asks one thing after another, on any thread and with any answers of the
system allocator. A closure that reads or writes a string is an access that begins, goes on while
other requests are made, and ends; a fault that is caught leaves the state it had reached.
-/

namespace OffRow

structure Access where
  handle : HandleId
  exclusive : Bool
  deriving DecidableEq

structure Engine where
  store : Store
  strings : List HandleId
  pools : List PoolId
  accesses : List Access

inductive Request where
  | openRegistry (firstBytes : Nat) (pos : 0 < firstBytes) (policy : DropPolicy)
  | dropRegistry (r : RegistryId) (unwinding : Bool)
  | holdClass (r : RegistryId) (c : SizeClass)
  | holdSize (r : RegistryId) (size : Nat)
  | openPool (c : SizeClass) (firstBytes : Nat) (policy : DropPolicy)
  | letGo (p : PoolId) (unwinding : Bool)
  | shrinkToFit (p : PoolId)
  | check (p : PoolId)
  | create (r : RegistryId) (size : Nat)
  | createIn (p : PoolId) (size : Nat)
  | destroy (h : HandleId)
  | intoRaw (h : HandleId)
  | fromRaw (h : HandleId)
  | read (h : HandleId)
  | write (h : HandleId)
  | overwrite (h : HandleId) (start : Nat) (data : ByteArray)
  | endAccess
  | openArena (chunkSize : Nat) (pos : 0 < chunkSize)
  | allocate (a : ArenaId) (size : Nat)
  | allocateLayout (a : ArenaId) (layout : Layout)
  | createTemporary (a : ArenaId) (size : Nat)
  | resetArena (a : ArenaId)
  | dropArena (a : ArenaId)

/-- A request, or a use of the pools behind the handles' backs. -/
inductive Command where
  | ask (q : Request)
  | openOwner (size : Nat)
  | allocateBlock (p : PoolId) (owner : HandleId)
  | freeBlock (p : PoolId) (payload : Address) (owner : HandleId)
  | updateLocation (h : HandleId) (location : Address)

inductive Answer where
  | done
  | string (h : HandleId)
  | temporary (h : HandleId) (home : Place)
  | bytes (b : ByteArray)
  | place (w : Place)
  | pool (p : PoolId)
  | registry (r : RegistryId)
  | arena (a : ArenaId)
  | barred

namespace Engine

variable {α κ : Type}

def start : Engine := ⟨.new fun _ => none, [], [], []⟩

def onStore (x : Op Store α) : Op Engine α :=
  Op.within (fun e => some e.store) (fun store e => { e with store }) x

def reaches (e : Engine) (h : HandleId) : Bool :=
  h ∈ e.strings || ((e.store.handles.get? h).map Handle.temporary).getD false

def isOwned (e : Engine) (h : HandleId) : Bool :=
  ((e.store.handles.get? h).map Handle.owned).getD false

def isAccessed (e : Engine) (a : ArenaId) : Bool :=
  e.accesses.any fun access => ((e.store.handles.get? access.handle).map (Store.livesIn a)).getD false

/-- What borrowing and the contract of raw handles let the engine ask. -/
def allows (e : Engine) : Request → Bool
  | .openRegistry .. | .openPool .. | .openArena .. => true
  | .dropRegistry r _ | .holdClass r _ | .holdSize r _ | .create r _ =>
    (e.store.registries.get? r).isSome
  | .letGo p _ | .shrinkToFit p | .check p | .createIn p _ => p ∈ e.pools
  | .destroy h | .intoRaw h => h ∈ e.strings && e.isOwned h
  | .fromRaw h => e.reaches h && !e.isOwned h
  | .read h => e.reaches h && e.accesses.all fun access => access ≠ ⟨h, true⟩
  | .write h => e.reaches h && e.accesses.all fun access => access.handle ≠ h
  | .overwrite h _ _ => ⟨h, true⟩ ∈ e.accesses
  | .endAccess => !e.accesses.isEmpty
  | .allocate a _ | .allocateLayout a _ | .createTemporary a _ => (e.store.arenas.get? a).isSome
  | .resetArena a | .dropArena a => (e.store.arenas.get? a).isSome && !e.isAccessed a

def hold (x : Op Store PoolId) : Op Engine Answer := do
  let p ← onStore do
    let p ← x
    Store.acquire p
    pure p
  Op.modify fun e => { e with pools := p :: e.pools }
  pure (.pool p)

def receive (x : Op Store HandleId) : Op Engine Answer := do
  let h ← onStore x
  Op.modify fun e => { e with strings := h :: e.strings }
  pure (.string h)

def access (h : HandleId) (exclusive : Bool) : Op Engine Answer := do
  onStore (Store.beginAccess h)
  Op.modify fun e => { e with accesses := ⟨h, exclusive⟩ :: e.accesses }
  return .bytes (← onStore (Store.bytes h))

def endAccess : Op Engine Answer := do
  match (← Op.get).accesses with
  | [] => pure .barred
  | access :: rest =>
    Op.modify fun e => { e with accesses := rest }
    onStore (Store.endAccess access.handle)
    pure .done

end Engine

open Engine

def Request.perform : Request → Op Engine Answer
  | .openRegistry n pos policy => do
    return .registry (← onStore (Store.addRegistry (.new n pos policy)))
  | .dropRegistry r unwinding => do
    onStore (Store.dropRegistry unwinding r)
    pure .done
  | .holdClass r c => hold (Store.poolForClass r c)
  | .holdSize r size => hold (Store.poolForSize r size)
  | .openPool c n policy => do
    let p ← onStore (Store.createPool c n policy)
    Op.modify fun e => { e with pools := p :: e.pools }
    pure (.pool p)
  | .letGo p unwinding => do
    Op.modify fun e => { e with pools := e.pools.erase p }
    onStore (Store.release unwinding p)
    pure .done
  | .shrinkToFit p => do
    onStore (Store.checkUnused p)
    onStore (Store.shrinkToFit p)
    pure .done
  | .check p => do
    onStore (Store.check p)
    pure .done
  | .create r size => receive (Store.create r size)
  | .createIn p size => receive (Store.createIn p size)
  | .destroy h => do
    onStore (Store.destroy h)
    Op.modify fun e => { e with strings := e.strings.erase h }
    pure .done
  | .intoRaw h => do
    onStore (Store.intoRaw h)
    pure .done
  | .fromRaw h => do
    onStore (Store.fromRaw h)
    pure .done
  | .read h => access h false
  | .write h => access h true
  | .overwrite h start data => do
    onStore (Store.overwrite h start data)
    pure .done
  | .endAccess => Engine.endAccess
  | .openArena n pos => do
    return .arena (← onStore (Store.addArena (.new n pos)))
  | .allocate a size => do
    return .place (← onStore (Store.allocateScratch a size))
  | .allocateLayout a layout => do
    return .place (← onStore (Store.allocateScratchLayout a layout))
  | .createTemporary a size => do
    let (h, home) ← onStore (Store.createTemporary a size)
    pure (.temporary h home)
  | .resetArena a => do
    onStore (Store.resetArena a)
    pure .done
  | .dropArena a => do
    onStore (Store.dropArena a)
    pure .done

def Request.ask (q : Request) : Op Engine Answer := do
  if (← Op.get).allows q then q.perform else pure .barred

def Command.run : Command → Op Engine Answer
  | .ask q => q.ask
  | .openOwner size => do
    return .string (← onStore (Store.addHandle (.detached size)))
  | .allocateBlock p owner => do
    onStore (Store.checkUnused p)
    return .place (← onStore (Store.allocateBlock p owner))
  | .freeBlock p payload owner => do
    onStore (Store.checkUnused p)
    onStore (Store.freeBlock p payload owner)
    pure .done
  | .updateLocation h location => do
    onStore (Store.updateLocation h location)
    pure .done

/-- Something that is asked, the thread that asks, and what the system allocator answers to a
request for a number of bytes meanwhile. -/
structure Turn (κ : Type) where
  action : κ
  thread : ThreadId
  answers : Nat → Option Nat

namespace Engine

variable {κ : Type} (perform : κ → Op Engine Answer)

def prepared (e : Engine) (t : Turn κ) : Engine :=
  { e with store := { e.store with thread := t.thread, allocator := t.answers } }

def turn (e : Engine) (t : Turn κ) : Outcome Engine Answer := (perform t.action).run (e.prepared t)

def after (e : Engine) : List (Turn κ) → Engine
  | [] => e
  | t :: ts => after (e.turn perform t).state ts

theorem after_induction {perform : κ → Op Engine Answer} {I : Engine → Prop}
    (hstep : ∀ e (t : Turn κ), I e → I (e.turn perform t).state) {e : Engine} (he : I e)
    (ts : List (Turn κ)) : I (e.after perform ts) := by
  induction ts generalizing e with
  | nil => exact he
  | cons t ts ih => exact ih (hstep e t he)

theorem after_append (e : Engine) (us vs : List (Turn κ)) :
    e.after perform (us ++ vs) = (e.after perform us).after perform vs := by
  induction us generalizing e with
  | nil => rfl
  | cons u us ih => exact ih _

def reports (e : Engine) : List (Turn κ) → List (κ × Except Failure Answer)
  | [] => []
  | t :: ts => (t.action, (e.turn perform t).result) :: reports (e.turn perform t).state ts

theorem action_of_mem_reports {perform : κ → Op Engine Answer} {e : Engine} {ts : List (Turn κ)}
    {report : κ × Except Failure Answer} (h : report ∈ e.reports perform ts) :
    report.1 ∈ ts.map Turn.action := by
  induction ts generalizing e with
  | nil => cases h
  | cons t ts ih =>
    rw [List.map_cons, List.mem_cons]
    cases h with
    | head => exact .inl rfl
    | tail _ h => exact .inr (ih h)

end Engine

end OffRow
