import OffRow.Proofs.Engine
import OffRow.Proofs.Store.Custody
import OffRow.Proofs.Store.Scratch

namespace OffRow

def Request.isAccess : Request → Bool
  | .read _ | .write _ | .endAccess => true
  | _ => false

def Request.isScratch : Request → Bool
  | .openArena .. | .allocate .. | .allocateLayout .. | .createTemporary .. | .resetArena _
  | .dropArena _ => true
  | _ => false

namespace Engine

variable {α : Type} {I : Store → Prop} {K : Engine → Prop} {E : Event → Prop} {F : Failure → Prop}
  {e : Engine}

theorem onStore_run (e : Engine) (x : Op Store α) :
    (onStore x).run e =
      ⟨(x.run e.store).result, { e with store := (x.run e.store).state }, (x.run e.store).events⟩ := rfl

/-- `K` says of the store of an engine what `I` says of a store, and lets it change as `I` does. -/
structure Lifts (I : Store → Prop) (K : Engine → Prop) : Prop where
  store : ∀ {e}, K e → I e.store
  put : ∀ {e store}, K e → I store → K { e with store }

theorem lifts_store : Lifts I fun e => I e.store := ⟨id, fun _ => id⟩

namespace Lifts

variable (hK : Lifts I K)

include hK

theorem outcome {x : Op Store α} (he : K e) (hx : (x.run e.store).Obeys I E F) :
    ((onStore x).run e).Obeys K E F := hx.congr (hK.put he hx.state) rfl fun _ => id

theorem onStore {x : Op Store α} (hx : Op.Obeys I E F x) : Op.Obeys K E F (onStore x) :=
  fun e he => hK.outcome he (hx e.store (hK.store he))

theorem answer {x : Op Store α} (hx : Op.Obeys I E F x) (answer : α → Answer) :
    Op.Obeys K E F (Engine.onStore x >>= fun a => pure (answer a)) :=
  .bind (hK.onStore hx) fun _ => .pure _

theorem answerUnused (hd : F (.fault .dangling)) (hu : F (.fault .poolInUse)) (p : PoolId)
    {x : Op Store α} (hx : Op.Obeys I E F x) (answer : α → Answer) :
    Op.Obeys K E F (Engine.onStore (Store.checkUnused p) >>= fun _ =>
      Engine.onStore x >>= fun a => pure (answer a)) :=
  .bind (hK.onStore (Store.checkUnused_obeys hd hu p)) fun _ => hK.answer hx answer

section

variable (hstrings : ∀ {e} strings, K e → K { e with strings })

include hstrings

theorem receive {x : Op Store HandleId} (hx : Op.Obeys I E F x) : Op.Obeys K E F (receive x) :=
  .bind (hK.onStore hx) fun _ => .bind (.modify fun _ he => hstrings _ he) fun _ => .pure _

theorem destroy {h : HandleId} (hx : Op.Obeys I E F (Store.destroy h)) :
    Op.Obeys K E F (Request.destroy h).perform :=
  .bind (hK.onStore hx) fun _ => .bind (.modify fun _ he => hstrings _ he) fun _ => .pure _

end

section

variable (hpools : ∀ {e} pools, K e → K { e with pools })

include hpools

theorem hold (hacquire : ∀ p, Op.Obeys I E F (Store.acquire p)) {x : Op Store PoolId}
    (hx : Op.Obeys I E F x) : Op.Obeys K E F (hold x) := by
  refine .bind (hK.onStore (.bind hx fun p => .bind (hacquire p) fun _ => .pure p)) fun p => ?_
  exact .bind (.modify fun _ he => hpools _ he) fun _ => .pure _

theorem openPool {c : SizeClass} {n : Nat} {policy : DropPolicy}
    (hx : Op.Obeys I E F (Store.createPool c n policy)) :
    Op.Obeys K E F (Request.openPool c n policy).perform :=
  .bind (hK.onStore hx) fun _ => .bind (.modify fun _ he => hpools _ he) fun _ => .pure _

theorem letGo {p : PoolId} {unwinding : Bool} (hx : Op.Obeys I E F (Store.release unwinding p)) :
    Op.Obeys K E F (Request.letGo p unwinding).perform :=
  .bind (.modify fun _ he => hpools _ he) fun _ => hK.answer hx _

end

theorem perform_scratch (hI : Store.Aloof I E F) {q : Request} (hq : q.isScratch = true) :
    Op.Obeys K E F q.perform := by
  cases q with
  | openArena n pos => exact hK.answer (hI.addArena _) _
  | allocate a size => exact hK.answer (hI.allocateScratch a size) _
  | allocateLayout a layout => exact hK.answer (hI.allocateScratchLayout a layout) _
  | createTemporary a size => exact hK.answer (hI.createTemporary a size) _
  | resetArena a => exact hK.answer (hI.resetArena a) _
  | dropArena a => exact hK.answer (hI.dropArena a) _
  | _ => cases hq

theorem perform_access (haccesses : ∀ {e} accesses, K e → K { e with accesses })
    (hd : F (.fault .dangling))
    (hreaders : ∀ {s : Store} p (f : Nat → Nat), I s →
      I { s with pools := s.pools.modify p fun c => { c with readers := f c.readers } })
    {q : Request} (hq : q.isAccess = true) : Op.Obeys K E F q.perform := by
  have hbegin : ∀ h exclusive, Op.Obeys K E F (access h exclusive) := by
    intro h exclusive
    refine .bind (hK.onStore (Store.beginAccess_obeys hd hreaders h)) fun _ => ?_
    refine .bind (.modify fun _ he => haccesses _ he) fun _ => ?_
    exact hK.answer (Store.bytes_obeys hd h) _
  cases q with
  | read h => exact hbegin h false
  | write h => exact hbegin h true
  | endAccess =>
    refine .bind .get fun e => ?_
    cases e.accesses with
    | nil => exact .pure _
    | cons access rest =>
      refine .bind (.modify fun _ he => haccesses _ he) fun _ => ?_
      exact hK.answer (Store.endAccess_obeys hd hreaders access.handle) _
  | _ => cases hq

end Lifts

end Engine

end OffRow
