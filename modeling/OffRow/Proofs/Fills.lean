import OffRow.Proofs.Evolution
import OffRow.Proofs.Guards
import OffRow.Proofs.Separation
import OffRow.Proofs.Store.Moves

namespace OffRow

def Command.touches (p : PoolId) : Command → Prop
  | .ask (.create ..) | .ask (.destroy _) => True
  | .ask (.createIn q _) | .ask (.shrinkToFit q) | .allocateBlock q _ | .freeBlock q _ _ => q = p
  | _ => False

def Command.firstBytes? : Command → Option Nat
  | .ask (.openRegistry n _ _) | .ask (.openPool _ n _) => some n
  | _ => none

def Command.move (p : PoolId) (e : Engine) (c : Command) (o : Outcome Engine Answer) : Move :=
  match c, o.result with
  | .ask (.create ..), .ok (.string h) | .ask (.createIn ..), .ok (.string h) =>
    if o.state.poolOf h = some p then .take else .stay
  | .allocateBlock q _, .ok (.place _) => if q = p then .take else .stay
  | .ask (.destroy h), .ok .done => if e.poolOf h = some p then .give else .stay
  | .freeBlock q _ _, .ok .done => if q = p then .give else .stay
  | .ask (.shrinkToFit q), .ok .done => if q = p then .fit else .stay
  | _, _ => .stay

namespace Engine

def move (e : Engine) (p : PoolId) (t : Turn Command) : Move :=
  t.action.move p e (e.turn Command.run t)

def moves (e : Engine) (p : PoolId) : List (Turn Command) → List Move
  | [] => []
  | t :: ts => e.move p t :: moves (e.turn Command.run t).state p ts

end Engine

open Engine Store

section

variable {loose : PoolId → Prop} {opens : Nat → Prop} {I : Store → Prop} (hI : Rigid loose opens I)

include hI

theorem Request.perform_rigid {q : Request} (hq : ∀ p, (Command.ask q).touches p → loose p)
    (hn : ∀ n, (Command.ask q).firstBytes? = some n → opens n) :
    Op.Keeps (fun e => I e.store) q.perform := by
  have hlift : Lifts I fun e => I e.store := lifts_store
  cases q with
  | openRegistry n pos policy =>
    exact hlift.answer (addRegistry_obeys fun hs => hI.addRegistry pos policy (hn n rfl) hs) _
  | dropRegistry r unwinding => exact hlift.answer (hI.custody.dropRegistry hI.eraseRegistry unwinding r) _
  | holdClass r c => exact hlift.hold (fun _ => id) hI.custody.acquire (hI.poolForClass r c)
  | holdSize r size => exact hlift.hold (fun _ => id) hI.custody.acquire (hI.poolForSize r size)
  | openPool c n policy => exact hlift.openPool (fun _ => id) (hI.createPool c (hn n rfl) policy)
  | letGo p unwinding => exact hlift.letGo (fun _ => id) (hI.custody.release unwinding p)
  | shrinkToFit p => exact hlift.answerUnused trivial trivial p (hI.shrinkToFit (hq p rfl)) _
  | check p => exact hlift.answer (check_obeys (fun _ => trivial) p) _
  | create r size => exact hlift.receive (fun _ => id) (hI.create (fun p => hq p trivial) r size)
  | createIn p size => exact hlift.receive (fun _ => id) (hI.createIn (hq p rfl) size)
  | destroy h =>
    have hdestroy : Op.Keeps I (Store.destroy h) :=
      .of_state fun s hs => hI.destroy hs h fun _ p _ _ => hq p trivial
    exact hlift.destroy (fun _ => id) hdestroy
  | intoRaw h => exact hlift.answer (intoRaw_obeys trivial (fun _ _ hs => hI.handles _ hs) h) _
  | fromRaw h => exact hlift.answer (fromRaw_obeys trivial (fun _ _ hs => hI.handles _ hs) trivial h) _
  | overwrite h start data => exact hlift.answer (hI.overwrite h start data) _
  | read h | write h | endAccess => exact hlift.perform_access (fun _ => id) trivial hI.readers rfl
  | _ => exact hlift.perform_scratch hI.aloof rfl

theorem Command.run_rigid {c : Command} (hc : ∀ p, c.touches p → loose p)
    (hn : ∀ n, c.firstBytes? = some n → opens n) : Op.Keeps (fun e => I e.store) c.run := by
  have hlift : Lifts I fun e => I e.store := lifts_store
  cases c with
  | ask q =>
    refine .bind .get fun e => ?_
    split
    · exact q.perform_rigid hI hc hn
    · exact .pure _
  | openOwner size => exact hlift.answer (hI.addHandle _) _
  | allocateBlock p owner =>
    exact hlift.answerUnused trivial trivial p (hI.allocateBlock (hc p rfl) owner) _
  | freeBlock p payload owner =>
    exact hlift.answerUnused trivial trivial p (hI.freeBlock (hc p rfl) payload owner) _
  | updateLocation h location => exact hlift.answer (hI.updateLocation h location) _

theorem Engine.turn_rigid {e : Engine} {t : Turn Command} (hc : ∀ p, t.action.touches p → loose p)
    (hn : ∀ n, t.action.firstBytes? = some n → opens n) (he : I e.store) :
    I (e.turn Command.run t).state.store :=
  (Command.run_rigid hI hc hn (e.prepared t) (hI.world t.thread t.answers he)).state

end

section

variable {α : Type} {e : Engine} {p : PoolId} {f : Fill} {c : Command}

theorem Command.move_error {o : Outcome Engine Answer} {failure : Failure}
    (ho : o.result = .error failure) : c.move p e o = .stay := by
  simp only [move, ho]

theorem Engine.receive_filled {x : Op Store HandleId}
    (hx : (x.run e.store).state.Filled p
      (f.moved (moveOfCreation p (x.run e.store).state (x.run e.store).result)))
    (hc : ∀ o h, o.result = .ok (.string h) →
      c.move p e o = if o.state.poolOf h = some p then .take else .stay) :
    ((receive x).run e).state.store.Filled p (f.moved (c.move p e ((receive x).run e))) := by
  have hstore := receive_store (e := e) x
  have hresult := receive_result e x
  cases hr : (x.run e.store).result with
  | ok h =>
    rw [hr] at hx hresult
    rw [hc _ h hresult, poolOf, hstore]
    exact hx
  | error failure =>
    rw [hr] at hx hresult
    rw [Command.move_error hresult, hstore]
    exact hx

theorem Engine.answer_filled {here : Prop} [Decidable here] {m : Move} {x : Op Store α}
    {g : α → Op Engine Answer} {answer : α → Answer}
    (hx : (x.run e.store).state.Filled p (f.moved (moveIf here m (x.run e.store).result)))
    (hg : ∀ a f, ((g a).run f).result = .ok (answer a))
    (hkeep : ∀ a s, Op.Keeps (fun f : Engine => f.store = s) (g a))
    (hc : ∀ o a, o.result = .ok (answer a) → c.move p e o = if here then m else .stay) :
    ((onStore x >>= g).run e).state.store.Filled p (f.moved (c.move p e ((onStore x >>= g).run e))) := by
  have hstore := onStore_then (e := e) (x := x) hkeep
  have hresult := onStore_result e x hg
  cases hr : (x.run e.store).result with
  | ok a =>
    rw [hr] at hx hresult
    rw [hc _ a hresult, hstore]
    exact hx
  | error failure =>
    rw [hr] at hx hresult
    rw [Command.move_error hresult, hstore]
    exact hx

theorem Store.checkUnused_filled {here : Prop} [Decidable here] {m : Move} {s : Store} {q : PoolId}
    {x : Op Store α} (hf : s.Filled p f)
    (hx : (x.run s).state.Filled p (f.moved (moveIf here m (x.run s).result))) :
    let o := (checkUnused q >>= fun _ => x).run s
    o.state.Filled p (f.moved (moveIf here m o.result)) := by
  rcases checkUnused_bind s q x with ⟨_, -, hrun⟩ | ⟨_, -, -, hrun⟩
  · rw [hrun]
    exact hf
  · rw [hrun]
    exact hx

variable (hs : e.store.Sound) (hf : e.store.Filled p f)

include hs hf

theorem Request.perform_filled (q : Request) :
    (q.perform.run e).state.store.Filled p
      (f.moved ((Command.ask q).move p e (q.perform.run e))) := by
  have hrigid : (∀ r, (Command.ask q).touches r → r ≠ p) →
      (q.perform.run e).state.store.Filled p f :=
    fun hq => (q.perform_rigid (rigid_filled p f) hq (fun _ _ => trivial) e hf).state
  cases q with
  | create r size =>
    exact receive_filled (create_filled hs hf r size) fun o h ho => by simp only [Command.move, ho]
  | createIn q size =>
    exact receive_filled (createIn_filled hs hf q size) fun o h ho => by simp only [Command.move, ho]
  | destroy h =>
    refine answer_filled (destroy_filled hs.wellFormed hf h) (fun _ _ => rfl) (fun _ _ => ?_)
      fun o _ ho => ?_
    · exact .bind (.modify fun _ he => he) fun _ => .pure _
    · simp only [Command.move, ho]
      rfl
  | shrinkToFit q =>
    rw [Request.perform, onStore_bind]
    refine answer_filled (checkUnused_filled hf (shrinkToFit_filled hs.wellFormed hf q))
      (fun _ _ => rfl) (fun _ _ => .pure _) fun o _ ho => ?_
    simp only [Command.move, ho]
  | _ => exact hrigid fun _ => False.elim

theorem Command.run_filled (c : Command) :
    (c.run.run e).state.store.Filled p (f.moved (c.move p e (c.run.run e))) := by
  cases c with
  | ask q =>
    rw [Command.run, ask_run]
    split
    · exact q.perform_filled hs hf
    · have hstay : (Command.ask q).move p e ⟨.ok .barred, e, []⟩ = .stay := by
        cases q <;> rfl
      rw [hstay]
      exact hf
  | openOwner size | updateLocation h location =>
    exact (Command.run_rigid (rigid_filled p f) (fun _ => False.elim) (fun _ _ => trivial) e hf).state
  | allocateBlock q owner =>
    rw [Command.run, onStore_bind]
    refine answer_filled (checkUnused_filled hf (allocateBlock_filled hs.wellFormed hf q owner))
      (fun _ _ => rfl) (fun _ _ => .pure _) fun o _ ho => ?_
    simp only [Command.move, ho]
  | freeBlock q payload owner =>
    rw [Command.run, onStore_bind]
    refine answer_filled (checkUnused_filled hf (freeBlock_filled hs.wellFormed hf q payload owner))
      (fun _ _ => rfl) (fun _ _ => .pure _) fun o _ ho => ?_
    simp only [Command.move, ho]

end

namespace Engine

variable {e : Engine} {p : PoolId} {f : Fill}

theorem turn_sound (hs : e.store.Sound) (t : Turn Command) :
    (e.turn Command.run t).state.store.Sound := lasting_referenced.turn hs t

theorem after_sound (hs : e.store.Sound) (ts : List (Turn Command)) :
    (e.after Command.run ts).store.Sound :=
  after_induction (I := fun e => e.store.Sound) (fun _ t hs => turn_sound hs t) hs ts

theorem start_sound : start.store.Sound := fun _ _ hp => nomatch hp

theorem turn_filled (hs : e.store.Sound) (hf : e.store.Filled p f) (t : Turn Command) :
    (e.turn Command.run t).state.store.Filled p (f.moved (e.move p t)) :=
  Command.run_filled (e := e.prepared t) hs (hf.congr rfl) t.action

theorem after_filled (hs : e.store.Sound) (hf : e.store.Filled p f) (ts : List (Turn Command)) :
    (e.after Command.run ts).store.Filled p ((e.moves p ts).foldl Fill.moved f) := by
  induction ts generalizing e f with
  | nil => exact hf
  | cons t ts ih => exact ih (turn_sound hs t) (turn_filled hs hf t)

theorem words_after {ts : List (Turn Command)}
    (hn : ∀ t ∈ ts, ∀ n, t.action.firstBytes? = some n → n ≤ Word.largest) (he : e.store.Words) :
    (e.after Command.run ts).store.Words := by
  induction ts generalizing e with
  | nil => exact he
  | cons t ts ih =>
    obtain ⟨ht, hts⟩ := List.forall_mem_cons.mp hn
    exact ih hts (turn_rigid rigid_words (fun _ _ => trivial) ht he)

theorem start_words : start.store.Words := ⟨fun hr => (nomatch hr), fun hp => (nomatch hp)⟩

end Engine

end OffRow
