import OffRow.Op
/-!
How the pieces of an operation run. A run is described by its whole outcome, so that what a failed
operation leaves behind is described as well.
-/

namespace OffRow

/-- `I` bounds the state that an operation leaves, `E` each of its events, and `F` what it fails with,
if it does. -/
structure Outcome.Obeys {σ α : Type} (I : σ → Prop) (E : Event → Prop) (F : Failure → Prop)
    (o : Outcome σ α) : Prop where
  state : I o.state
  events : ∀ event ∈ o.events, E event
  failure : ∀ cause, o.result = .error cause → F cause

abbrev Outcome.Safe {σ α : Type} (I : σ → Prop) (F : Failure → Prop) (o : Outcome σ α) : Prop :=
  o.Obeys I (fun _ => True) F

namespace Outcome

variable {σ τ α β : Type} {I : σ → Prop} {E : Event → Prop} {F : Failure → Prop} {s : σ}
  {events : List Event} {a : α} {cause : Failure}

theorem Obeys.done (hs : I s) (he : ∀ event ∈ events, E event) :
    (⟨.ok a, s, events⟩ : Outcome σ α).Obeys I E F := ⟨hs, he, nofun⟩

theorem Obeys.failed (hs : I s) (he : ∀ event ∈ events, E event) (hc : F cause) :
    (⟨.error cause, s, events⟩ : Outcome σ α).Obeys I E F := by
  refine ⟨hs, he, fun cause' h => ?_⟩
  cases h
  exact hc

theorem Obeys.congr {J : τ → Prop} {o : Outcome σ α} {o' : Outcome τ β} (h : o.Obeys I E F)
    (hs : J o'.state) (he : o'.events = o.events)
    (hr : ∀ cause, o'.result = .error cause → o.result = .error cause) : o'.Obeys J E F :=
  ⟨hs, he ▸ h.events, fun cause hc => h.failure cause (hr cause hc)⟩

theorem Safe.done (hs : I s) : (⟨.ok a, s, events⟩ : Outcome σ α).Safe I F :=
  Obeys.done hs fun _ _ => trivial

theorem Safe.failed (hs : I s) (hc : F cause) : (⟨.error cause, s, events⟩ : Outcome σ α).Safe I F :=
  Obeys.failed hs (fun _ _ => trivial) hc

end Outcome

namespace Op

variable {σ τ α β : Type}

theorem run_bind_ok {x : Op σ α} {f : α → Op σ β} {s t : σ} {a : α} {before : List Event}
    (h : run x s = ⟨.ok a, t, before⟩) :
    run (x >>= f) s = ⟨(run (f a) t).result, (run (f a) t).state, before ++ (run (f a) t).events⟩ := by
  rw [run_bind, h]

theorem run_bind_silent {x : Op σ α} {f : α → Op σ β} {s t : σ} {a : α}
    (h : run x s = ⟨.ok a, t, []⟩) : run (x >>= f) s = run (f a) t := by
  rw [run_bind_ok h]
  rfl

theorem run_bind_error {x : Op σ α} {f : α → Op σ β} {s t : σ} {e : Failure} {before : List Event}
    (h : run x s = ⟨.error e, t, before⟩) : run (x >>= f) s = ⟨.error e, t, before⟩ := by
  rw [run_bind, h]

variable (s : σ)

@[simp] theorem run_error (e : Error) : run (error e : Op σ α) s = ⟨.error (.error e), s, []⟩ := rfl

@[simp] theorem run_get_bind (f : σ → Op σ β) : run (get >>= f) s = run (f s) s := rfl

@[simp] theorem run_modify_bind (g : σ → σ) (f : Unit → Op σ β) :
    run (modify g >>= f) s = run (f ()) (g s) := rfl

@[simp] theorem run_ofExcept_ok_bind (a : α) (f : α → Op σ β) :
    run (ofExcept (.ok a) >>= f) s = run (f a) s := rfl

@[simp] theorem run_ofExcept_error_bind (e : Error) (f : α → Op σ β) :
    run (ofExcept (.error e) >>= f) s = ⟨.error (.error e), s, []⟩ := rfl

@[simp] theorem run_ofFault_ok_bind (a : α) (f : α → Op σ β) :
    run (ofFault (.ok a) >>= f) s = run (f a) s := rfl

@[simp] theorem run_expect_some (a : α) (e : Fault) :
    run (expect (some a) e : Op σ α) s = ⟨.ok a, s, []⟩ := rfl

@[simp] theorem run_expect_none (e : Fault) :
    run (expect none e : Op σ α) s = ⟨.error (.fault e), s, []⟩ := rfl

@[simp] theorem run_expect_some_bind (a : α) (e : Fault) (f : α → Op σ β) :
    run (expect (some a) e >>= f) s = run (f a) s := rfl

theorem run_ensure_bind_pos {p : Prop} [Decidable p] (h : p) (e : Fault) (f : Unit → Op σ β) :
    run (ensure p e >>= f) s = run (f ()) s := by
  rw [ensure, if_pos h]
  rfl

theorem run_ensure_bind_neg {p : Prop} [Decidable p] (h : ¬p) (e : Fault) (f : Unit → Op σ β) :
    run (ensure p e >>= f) s = ⟨.error (.fault e), s, []⟩ := by
  rw [ensure, if_neg h]
  rfl

theorem run_within {part? : σ → Option τ} {put : τ → σ → σ} {t : τ} (h : part? s = some t)
    (x : Op τ α) :
    run (within part? put x) s = ⟨(run x t).result, put (run x t).state s, (run x t).events⟩ := by
  simp only [run, within, h]

theorem run_within_none {part? : σ → Option τ} {put : τ → σ → σ} (h : part? s = none)
    (x : Op τ α) : run (within part? put x) s = ⟨.error (.fault .dangling), s, []⟩ := by
  simp only [run, within, h]
  rfl

theorem run_recover_ok {x : Op σ α} {handler : Failure → Op σ α} {t : σ} {a : α}
    {before : List Event} (h : run x s = ⟨.ok a, t, before⟩) :
    run (recover x handler) s = ⟨.ok a, t, before⟩ := by
  simp only [run] at h
  simp only [run, recover, h]

theorem run_recover_error {x : Op σ α} {f : Failure → Op σ α} {t : σ} {e : Failure}
    {before : List Event} (h : run x s = ⟨.error e, t, before⟩) :
    run (recover x f) s =
      ⟨(run (f e) t).result, (run (f e) t).state, before ++ (run (f e) t).events⟩ := by
  simp only [run] at h
  simp only [run, recover, h]

theorem run_andFinally {x : Op σ α} {last : Op σ Unit} {u : σ}
    (hl : run last (run x s).state = ⟨.ok (), u, []⟩) :
    run (andFinally x last) s = ⟨(run x s).result, u, (run x s).events⟩ := by
  cases hx : run x s with
  | mk result t before =>
    rw [hx] at hl
    cases result with
    | ok a =>
      rw [andFinally, run_bind_ok (run_recover_ok s hx), run_bind_silent hl]
      simp only [run_pure, List.append_nil]
    | error e =>
      have hhandler : run (do last; fail e : Op σ α) t = ⟨.error e, u, []⟩ := run_bind_silent hl
      have hrec := run_recover_error (f := fun e => do last; fail e) s hx
      rw [hhandler] at hrec
      rw [andFinally, run_bind_error hrec]
      simp only [List.append_nil]

def Obeys (I : σ → Prop) (E : Event → Prop) (F : Failure → Prop) (x : Op σ α) : Prop :=
  ∀ s, I s → (run x s).Obeys I E F

abbrev Safe (I : σ → Prop) (F : Failure → Prop) (x : Op σ α) : Prop := Obeys I (fun _ => True) F x

abbrev Keeps (I : σ → Prop) (x : Op σ α) : Prop := Obeys I (fun _ => True) (fun _ => True) x

variable {I : σ → Prop} {J : τ → Prop} {E : Event → Prop} {F : Failure → Prop} {s : σ}

theorem obeys_bind {x : Op σ α} {f : α → Op σ β} (hx : (run x s).Obeys I E F)
    (hf : ∀ a, Obeys I E F (f a)) : (run (x >>= f) s).Obeys I E F := by
  obtain ⟨ht, hevents, hfailure⟩ := hx
  cases hr : run x s with
  | mk result t before =>
    rw [hr] at ht hevents hfailure
    cases result with
    | ok a =>
      obtain ⟨hu, hafter, hcause⟩ := hf a t ht
      rw [run_bind_ok hr]
      exact ⟨hu, fun event hm => (List.mem_append.mp hm).elim (hevents event) (hafter event), hcause⟩
    | error cause =>
      rw [run_bind_error hr]
      exact .failed ht hevents (hfailure cause rfl)

namespace Obeys

theorem pure (a : α) : Obeys I E F (Pure.pure a) := fun _ hs => .done hs nofun

theorem get : Obeys I E F (Op.get : Op σ σ) := fun _ hs => .done hs nofun

theorem modify {f : σ → σ} (h : ∀ s, I s → I (f s)) : Obeys I E F (Op.modify f) :=
  fun s hs => .done (h s hs) nofun

theorem fail {cause : Failure} (hc : F cause) : Obeys I E F (Op.fail cause : Op σ α) :=
  fun _ hs => .failed hs nofun hc

theorem emit {event : Event} (he : E event) : Obeys I E F (Op.emit event) := by
  refine fun _ hs => .done hs fun event' hm => ?_
  rw [List.mem_singleton.mp hm]
  exact he

theorem expect (a : Option α) {cause : Fault} (hc : F (.fault cause)) :
    Obeys I E F (Op.expect a cause) := by
  cases a with
  | none => exact fail hc
  | some a => exact pure a

theorem ensure (p : Prop) [Decidable p] {cause : Fault} (hc : F (.fault cause)) :
    Obeys I E F (Op.ensure p cause) := by
  unfold Op.ensure
  split
  · exact pure ()
  · exact fail hc

theorem ofExcept (x : Except Error α) (hx : ∀ e, x = .error e → F (.error e)) :
    Obeys I E F (Op.ofExcept x) := by
  cases x with
  | ok a => exact pure a
  | error e => exact fail (hx e rfl)

theorem ofFault (x : Except Fault α) (hx : ∀ e, x = .error e → F (.fault e)) :
    Obeys I E F (Op.ofFault x) := by
  cases x with
  | ok a => exact pure a
  | error e => exact fail (hx e rfl)

theorem bind {x : Op σ α} {f : α → Op σ β} (hx : Obeys I E F x) (hf : ∀ a, Obeys I E F (f a)) :
    Obeys I E F (x >>= f) := fun s hs => obeys_bind (hx s hs) hf

theorem recover {x : Op σ α} {handler : Failure → Op σ α} (hx : Obeys I E F x)
    (hh : ∀ cause, F cause → Obeys I E F (handler cause)) : Obeys I E F (Op.recover x handler) := by
  intro s hs
  obtain ⟨ht, hevents, hfailure⟩ := hx s hs
  cases hr : run x s with
  | mk result t before =>
    rw [hr] at ht hevents hfailure
    cases result with
    | ok a =>
      rw [run_recover_ok s hr]
      exact .done ht hevents
    | error cause =>
      obtain ⟨hu, hafter, hcause⟩ := hh cause (hfailure cause rfl) t ht
      rw [run_recover_error s hr]
      exact ⟨hu, fun event hm => (List.mem_append.mp hm).elim (hevents event) (hafter event), hcause⟩

theorem within {part? : σ → Option τ} {put : τ → σ → σ} {x : Op τ α} (hd : F (.fault .dangling))
    (hx : ∀ s t, I s → part? s = some t → (run x t).Obeys (fun u => I (put u s)) E F) :
    Obeys I E F (Op.within part? put x) := by
  intro s hs
  cases hp : part? s with
  | none =>
    rw [run_within_none s hp]
    exact .failed hs nofun hd
  | some t =>
    obtain ⟨hu, hevents, hfailure⟩ := hx s t hs hp
    rw [run_within s hp]
    exact ⟨hu, hevents, hfailure⟩

end Obeys

namespace Keeps

theorem of_state {x : Op σ α} (h : ∀ s, I s → I (run x s).state) : Keeps I x :=
  fun s hs => ⟨h s hs, fun _ _ => trivial, fun _ _ => trivial⟩

theorem state_bind {x : Op σ α} {f : α → Op σ β} (hx : I (run x s).state) (hf : ∀ a, Keeps I (f a)) :
    I (run (x >>= f) s).state :=
  (obeys_bind (E := fun _ => True) (F := fun _ => True) ⟨hx, fun _ _ => trivial, fun _ _ => trivial⟩
    hf).state

theorem expect (a : Option α) (cause : Fault) : Keeps I (Op.expect a cause) :=
  Obeys.expect a trivial

theorem ensure (p : Prop) [Decidable p] (cause : Fault) : Keeps I (Op.ensure p cause) :=
  Obeys.ensure p trivial

theorem ofExcept (x : Except Error α) : Keeps I (Op.ofExcept x) :=
  Obeys.ofExcept x fun _ _ => trivial

theorem ofFault (x : Except Fault α) : Keeps I (Op.ofFault x) :=
  Obeys.ofFault x fun _ _ => trivial

theorem fail (cause : Failure) : Keeps I (Op.fail cause : Op σ α) := Obeys.fail trivial

theorem emit (event : Event) : Keeps I (Op.emit event) := Obeys.emit trivial

theorem bind {x : Op σ α} {f : α → Op σ β} (hx : Keeps I x) (hf : ∀ a, Keeps I (f a)) :
    Keeps I (x >>= f) := Obeys.bind hx hf

theorem recover {x : Op σ α} {handler : Failure → Op σ α} (hx : Keeps I x)
    (hh : ∀ cause, Keeps I (handler cause)) : Keeps I (Op.recover x handler) :=
  Obeys.recover hx fun cause _ => hh cause

theorem within {part? : σ → Option τ} {put : τ → σ → σ} {x : Op τ α} (hp : ∀ s t, I s → I (put t s)) :
    Keeps I (Op.within part? put x) :=
  Obeys.within trivial fun s _ hs _ => ⟨hp s _ hs, fun _ _ => trivial, fun _ _ => trivial⟩

end Keeps

end Op

end OffRow
