import OffRow.Proofs.Store.Separation
import OffRow.Proofs.Evolution

namespace OffRow

def Request.isRegistrar : Request → Bool
  | .openRegistry .. | .dropRegistry .. | .holdClass .. | .holdSize .. | .create .. => true
  | _ => false

def Command.reachesArenas : Command → Bool
  | .ask (.overwrite ..) => true
  | c => c.isScratch

/-- Whether an owner is told to look for its bytes in an arena. -/
def Command.borrows : Command → Bool
  | .updateLocation _ (.scratch ..) => true
  | _ => false

namespace Engine

variable {I : Store → Prop} {α : Type}

theorem onStore_then {β : Type} {e : Engine} {x : Op Store α} {g : α → Op Engine β}
    (hg : ∀ a s, Op.Keeps (fun f : Engine => f.store = s) (g a)) :
    ((onStore x >>= g).run e).state.store = (x.run e.store).state :=
  Op.Keeps.state_bind (I := fun f : Engine => f.store = (x.run e.store).state) rfl fun a => hg a _

theorem answer_store {β : Type} {e : Engine} {x : Op Store α} (answer : α → β) :
    ((onStore x >>= fun a => pure (answer a)).run e).state.store = (x.run e.store).state :=
  onStore_then fun _ _ => .pure _

theorem receive_store {e : Engine} (x : Op Store HandleId) :
    ((receive x).run e).state.store = (x.run e.store).state :=
  onStore_then fun _ _ => .bind (.modify fun _ he => he) fun _ => .pure _

theorem hold_store {e : Engine} (x : Op Store PoolId) :
    ((hold x).run e).state.store =
      ((x >>= fun p => Store.acquire p >>= fun _ => pure p).run e.store).state :=
  onStore_then fun _ _ => .bind (.modify fun _ he => he) fun _ => .pure _

end Engine

open Engine Store

section

variable {I : Store → Prop} (hI : PoolBlind I)

include hI

theorem Request.perform_keeps {q : Request}
    (hr : q.isRegistrar = true → ∀ {s : Store} registries, I s → I { s with registries })
    (ha : (Command.ask q).reachesArenas = true →
      (∀ {s : Store} arenas, I s → I { s with arenas }) ∧
        ∀ {s : Store} handles, I s → I { s with handles }) :
    Op.Keeps (fun e => I e.store) q.perform := by
  have hlift : Lifts I fun e => I e.store := lifts_store
  cases q with
  | openRegistry n pos policy => exact hlift.answer (addRegistry_obeys fun hs => hr rfl _ hs) _
  | dropRegistry r unwinding =>
    exact hlift.answer (hI.custody.dropRegistry (fun _ hs => hr rfl _ hs) unwinding r) _
  | holdClass r c => exact hlift.hold (fun _ => id) hI.custody.acquire (hI.poolForClass (hr rfl) r c)
  | holdSize r size => exact hlift.hold (fun _ => id) hI.custody.acquire (hI.poolForSize (hr rfl) r size)
  | openPool c n policy => exact hlift.openPool (fun _ => id) (hI.createPool c n policy)
  | letGo p unwinding => exact hlift.letGo (fun _ => id) (hI.custody.release unwinding p)
  | shrinkToFit p => exact hlift.answerUnused trivial trivial p (hI.onPool p _) _
  | check p => exact hlift.answer (check_obeys (fun _ => trivial) p) _
  | create r size => exact hlift.receive (fun _ => id) (hI.create (hr rfl) r size)
  | createIn p size => exact hlift.receive (fun _ => id) (hI.createIn p size)
  | destroy h => exact hlift.destroy (fun _ => id) (hI.destroy h)
  | intoRaw h => exact hlift.answer (intoRaw_obeys trivial hI.owned h) _
  | fromRaw h => exact hlift.answer (fromRaw_obeys trivial hI.owned trivial h) _
  | overwrite h start data => exact hlift.answer (hI.overwrite (ha rfl).1 h start data) _
  | read h | write h | endAccess =>
    exact hlift.perform_access (fun _ => id) trivial (fun _ _ hs => hI.pools _ hs) rfl
  | _ => exact hlift.perform_scratch (aloof_of_all (ha rfl).1 (ha rfl).2) rfl

theorem Command.run_keeps (hr : ∀ {s : Store} registries, I s → I { s with registries })
    {c : Command} (hc : c.reachesArenas = false) (hb : c.borrows = false) :
    Op.Keeps (fun e => I e.store) c.run := by
  have hlift : Lifts I fun e => I e.store := lifts_store
  cases c with
  | ask q =>
    refine .bind .get fun e => ?_
    split
    · exact q.perform_keeps hI (fun _ => hr) fun ha => absurd (hc.symm.trans ha) Bool.false_ne_true
    · exact .pure _
  | openOwner size => exact hlift.answer (hI.addHandle (extent?_of_not_temporary rfl) rfl) _
  | allocateBlock p owner => exact hlift.answerUnused trivial trivial p (hI.allocateBlock p owner) _
  | freeBlock p payload owner => exact hlift.answerUnused trivial trivial p (hI.freeBlock p payload owner) _
  | updateLocation h location =>
    refine hlift.answer (hI.updateLocation h ?_) _
    rintro a w rfl
    cases hb

end

end OffRow
