import OffRow.Event
import OffRow.Failure
/-!
Operations on a state. An operation yields a value or a failure; either way it leaves a state and
the events it caused, so what was done before a failure stays done.
-/

namespace OffRow

structure Outcome (σ α : Type) where
  result : Except Failure α
  state : σ
  events : List Event

def Op (σ α : Type) : Type := σ → Outcome σ α

namespace Op

variable {σ τ α β : Type}

def run (x : Op σ α) (s : σ) : Outcome σ α := x s

protected def pure (a : α) : Op σ α := fun s => ⟨.ok a, s, []⟩

protected def bind (x : Op σ α) (f : α → Op σ β) : Op σ β := fun s =>
  match x s with
  | ⟨.ok a, t, before⟩ =>
    let o := f a t
    ⟨o.result, o.state, before ++ o.events⟩
  | ⟨.error e, t, before⟩ => ⟨.error e, t, before⟩

instance : Monad (Op σ) where
  pure := Op.pure
  bind := Op.bind

def get : Op σ σ := fun s => ⟨.ok s, s, []⟩

def modify (f : σ → σ) : Op σ Unit := fun s => ⟨.ok (), f s, []⟩

def fail (e : Failure) : Op σ α := fun s => ⟨.error e, s, []⟩

def error (e : Error) : Op σ α := fail (.error e)

def fault (e : Fault) : Op σ α := fail (.fault e)

def emit (e : Event) : Op σ Unit := fun s => ⟨.ok (), s, [e]⟩

def ofExcept : Except Error α → Op σ α
  | .ok a => pure a
  | .error e => error e

def ofFault : Except Fault α → Op σ α
  | .ok a => pure a
  | .error e => fault e

def expect (a : Option α) (e : Fault) : Op σ α :=
  match a with
  | some a => pure a
  | none => fault e

def ensure (p : Prop) [Decidable p] (e : Fault) : Op σ Unit := if p then pure () else fault e

def recover (x : Op σ α) (handler : Failure → Op σ α) : Op σ α := fun s =>
  match x s with
  | ⟨.ok a, t, before⟩ => ⟨.ok a, t, before⟩
  | ⟨.error e, t, before⟩ =>
    let o := handler e t
    ⟨o.result, o.state, before ++ o.events⟩

def andFinally (x : Op σ α) (last : Op σ Unit) : Op σ α := do
  let a ← recover x fun e => do last; fail e
  last
  pure a

def within (part? : σ → Option τ) (put : τ → σ → σ) (x : Op τ α) : Op σ α := fun s =>
  match part? s with
  | none => fault .dangling s
  | some t =>
    let o := x t
    ⟨o.result, put o.state s, o.events⟩

section

variable (s : σ)

@[simp] theorem run_pure (a : α) : run (pure a) s = ⟨.ok a, s, []⟩ := rfl

theorem run_bind (x : Op σ α) (f : α → Op σ β) :
    run (x >>= f) s =
      match run x s with
      | ⟨.ok a, t, before⟩ =>
        ⟨(run (f a) t).result, (run (f a) t).state, before ++ (run (f a) t).events⟩
      | ⟨.error e, t, before⟩ => ⟨.error e, t, before⟩ := rfl

@[simp] theorem run_get : run (get : Op σ σ) s = ⟨.ok s, s, []⟩ := rfl

@[simp] theorem run_modify (f : σ → σ) : run (modify f) s = ⟨.ok (), f s, []⟩ := rfl

@[simp] theorem run_fail (e : Failure) : run (fail e : Op σ α) s = ⟨.error e, s, []⟩ := rfl

@[simp] theorem run_emit (e : Event) : run (emit e) s = ⟨.ok (), s, [e]⟩ := rfl

end

end Op

end OffRow
