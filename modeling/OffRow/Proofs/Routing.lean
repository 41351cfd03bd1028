import OffRow.Proofs.Guards
import OffRow.Proofs.Separation
import OffRow.Proofs.Store.Routes

namespace OffRow

def Request.asks? : Request → Option (RegistryId × SizeClass)
  | .holdClass r c => some (r, c)
  | .holdSize r size | .create r size => (SizeClass.forSize size).toOption.map (r, ·)
  | _ => none

namespace Store

def rerouted (s : Store) (q : Request) : Table .registry Registry :=
  match q with
  | .openRegistry n pos policy => s.registries.add (.new n pos policy)
  | .dropRegistry r _ => s.registries.erase r
  | q =>
    match q.asks? with
    | some (r, c) => s.registries.modify r (·.route c s.pools.next)
    | none => s.registries

variable {s : Store} {r : RegistryId} {c : SizeClass} {p : PoolId} {q : Request} {size : Nat}

theorem rerouted_asks (hq : q.asks? = some (r, c)) :
    s.rerouted q = s.registries.modify r (·.route c s.pools.next) := by
  cases q with
  | openRegistry n pos policy => cases hq
  | dropRegistry r unwinding => cases hq
  | _ => simp only [rerouted, hq]

theorem poolFor_rerouted :
    poolFor { s with registries := s.rerouted q } r c = some p ↔
      s.poolFor r c = some p ∧ (∀ unwinding, q ≠ .dropRegistry r unwinding) ∨
        q.asks? = some (r, c) ∧ (s.registries.get? r).isSome ∧ s.poolFor r c = none ∧
          p = s.pools.next := by
  cases hq : q.asks? with
  | some route =>
    obtain ⟨x, d⟩ := route
    have hdrop : ∀ unwinding, q ≠ .dropRegistry r unwinding := by
      rintro unwinding rfl
      cases hq
    rw [rerouted_asks hq, poolFor_modify]
    simp [hdrop, and_assoc]
  | none =>
    cases q with
    | openRegistry n pos policy =>
      simp only [rerouted, poolFor, Table.get?_add]
      by_cases hr : r = s.registries.next
      · simp [hr, Table.get?_next, Registry.pool?_new]
      · simp [hr]
    | dropRegistry x unwinding =>
      simp only [rerouted, poolFor, Table.get?_erase]
      by_cases hr : x = r
      · simp [hr]
      · simp [hr]
    | _ => simp [rerouted, hq, poolFor]

theorem live_rerouted :
    ((s.rerouted q).get? r).isSome ↔
      (s.registries.get? r).isSome ∧ (∀ unwinding, q ≠ .dropRegistry r unwinding) ∨
        (∃ n pos policy, q = .openRegistry n pos policy) ∧ r = s.registries.next := by
  cases hq : q.asks? with
  | some route =>
    obtain ⟨x, d⟩ := route
    rw [rerouted_asks hq, Table.get?_modify]
    cases q with
    | openRegistry n pos policy => cases hq
    | dropRegistry r unwinding => cases hq
    | _ =>
      split
      · simp
      · simp
  | none =>
    cases q with
    | openRegistry n pos policy =>
      rw [rerouted, Table.get?_add]
      by_cases hr : r = s.registries.next
      · simp [hr, pos]
      · simp [hr]
    | dropRegistry x unwinding =>
      rw [rerouted, Table.get?_erase]
      by_cases hr : x = r
      · simp [hr]
      · simp [hr]
    | _ => simp [rerouted, hq]

theorem next_rerouted : s.registries.next.number ≤ (s.rerouted q).next.number := by
  unfold rerouted
  split
  · rw [Table.next_add]
    exact Nat.le_succ _
  · rw [Table.next_erase]
  · split
    · rw [Table.next_modify]
    · exact Nat.le_refl _

end Store

open Engine Store

variable {e : Engine} {q : Request} {r : RegistryId} {c : SizeClass} {p : PoolId}

theorem Request.asks?_eq_some :
    q.asks? = some (r, c) ↔ q = .holdClass r c ∨
      ∃ size, SizeClass.forSize size = .ok c ∧ (q = .holdSize r size ∨ q = .create r size) := by
  constructor
  · intro hq
    cases q with
    | holdClass x d =>
      cases hq
      exact .inl rfl
    | holdSize x size =>
      cases hk : SizeClass.forSize size with
      | error cause => rw [asks?, hk] at hq; cases hq
      | ok d =>
        rw [asks?, hk] at hq
        cases hq
        exact .inr ⟨size, hk, .inl rfl⟩
    | create x size =>
      cases hk : SizeClass.forSize size with
      | error cause => rw [asks?, hk] at hq; cases hq
      | ok d =>
        rw [asks?, hk] at hq
        cases hq
        exact .inr ⟨size, hk, .inr rfl⟩
    | _ => cases hq
  · rintro (rfl | ⟨size, hk, rfl | rfl⟩)
    · rfl
    · rw [asks?, hk]
      rfl
    · rw [asks?, hk]
      rfl

theorem Request.perform_asks (hq : q.asks? = some (r, c)) :
    ∃ (β : Type) (use : PoolId → Op Store β) (answer : β → Answer), (∀ b, answer b ≠ .barred) ∧
      (∀ p {I : Store → Prop}, PoolBlind I → Op.Keeps I (use p)) ∧
      (∀ p {s : Store}, s.WellFormed → Evolving (fun _ => True) s (use p)) ∧
      ∀ e : Engine,
        (q.perform.run e).state.store = ((poolForClass r c >>= use).run e.store).state ∧
        (q.perform.run e).result = ((poolForClass r c >>= use).run e.store).result.map answer := by
  have hhold : ∀ x : Op Store PoolId, x = poolForClass r c → ∀ e : Engine,
      ((hold x).run e).state.store =
          ((poolForClass r c >>= fun p => acquire p >>= fun _ => pure p).run e.store).state ∧
        ((hold x).run e).result = ((poolForClass r c >>= fun p =>
          acquire p >>= fun _ => pure p).run e.store).result.map Answer.pool := by
    rintro x rfl e
    exact ⟨hold_store _, onStore_result e _ fun _ _ => rfl⟩
  have hacquire : ∀ p {I : Store → Prop}, PoolBlind I →
      Op.Keeps I (acquire p >>= fun _ => (pure p : Op Store PoolId)) :=
    fun p _ hI => .bind (hI.custody.acquire p) fun _ => .pure p
  have hevolves : ∀ p {s : Store}, s.WellFormed →
      Evolving (fun _ => True) s (acquire p >>= fun _ => (pure p : Op Store PoolId)) :=
    fun p _ _ => .bind (evolves_custody.acquire p) fun _ => .pure p
  obtain rfl | ⟨size, hk, rfl | rfl⟩ := asks?_eq_some.mp hq
  · exact ⟨_, _, Answer.pool, fun _ => Answer.noConfusion, hacquire, hevolves, hhold _ rfl⟩
  · exact ⟨_, _, Answer.pool, fun _ => Answer.noConfusion, hacquire, hevolves,
      hhold _ (poolForSize_eq hk r)⟩
  · refine ⟨_, fun p => Store.createIn p size, Answer.string, fun _ => Answer.noConfusion,
      fun p _ hI => hI.createIn p size, fun p _ hs => createIn_evolves hs p size, fun e => ?_⟩
    have hcreate : Store.create r size = poolForClass r c >>= fun p => Store.createIn p size := by
      rw [Store.create, poolForSize_eq hk]
    rw [← hcreate]
    exact ⟨receive_store _, receive_result e _⟩

theorem SharedPool.Change.sizeClass_eq {c d : SharedPool} (h : c.Change d) :
    d.pool.sizeClass = c.pool.sizeClass := by
  cases h with
  | allocated owner _ _ => exact Pool.roomy_sizeClass
  | freed _ _ => exact Pool.freed_sizeClass
  | _ => rfl

theorem SharedPool.Evolves.sizeClass_eq {c d : SharedPool} (h : c.Evolves d) :
    d.pool.sizeClass = c.pool.sizeClass :=
  h.invariant (I := fun d => d.pool.sizeClass = c.pool.sizeClass)
    (fun hd hc => hd.sizeClass_eq.trans hc) rfl

namespace Engine

theorem allows_asks (hq : q.asks? = some (r, c)) : e.allows q = (e.store.registries.get? r).isSome := by
  obtain rfl | ⟨size, -, rfl | rfl⟩ := Request.asks?_eq_some.mp hq
  · rfl
  · rfl
  · rfl

theorem Valid.perform_registries (he : e.Valid) (hq : e.allows q = true) :
    (q.perform.run e).state.store.registries = e.store.rerouted q := by
  have hblind : ∀ R, PoolBlind fun s => s.registries = R := fun R => ⟨fun _ h => h, fun _ h _ => h⟩
  cases ha : q.asks? with
  | some route =>
    obtain ⟨r, c⟩ := route
    obtain ⟨β, use, answer, -, hkeeps, -, hrun⟩ := Request.perform_asks ha
    rw [(hrun e).1, rerouted_asks ha]
    exact Op.Keeps.state_bind (I := fun s : Store => s.registries = _) (poolForClass_registries e.store r c)
      fun p => hkeeps p (hblind _)
  | none =>
    have hother : q.isRegistrar = false →
        (q.perform.run e).state.store.registries = e.store.registries := fun hr =>
      (q.perform_keeps (hblind e.store.registries) (fun h => absurd (hr.symm.trans h) Bool.false_ne_true)
        (fun _ => ⟨fun _ h => h, fun _ h => h⟩) e rfl).state
    have hsize : ∀ {x size}, (SizeClass.forSize size).toOption.map (x, ·) = none →
        ∀ {β : Type} (f : PoolId → Op Store β), ((poolForSize x size >>= f).run e.store).state = e.store := by
      intro x size hnone β f
      cases hk : SizeClass.forSize size with
      | ok d => rw [hk] at hnone; cases hnone
      | error err =>
        rw [poolForSize, hk]
        rfl
    cases q with
    | openRegistry n pos policy => rfl
    | dropRegistry r unwinding =>
      obtain ⟨registry, hr⟩ := Option.isSome_iff_exists.mp hq
      obtain ⟨pools, hclosed⟩ := closed_eq e.store r registry
      rw [Request.perform, answer_store, dropRegistry_run he.consistent hr, hclosed]
      rfl
    | holdClass r c => cases ha
    | holdSize r size =>
      rw [Request.perform, hold_store, hsize ha]
      simp only [rerouted, ha]
    | create r size =>
      rw [Request.perform, receive_store, Store.create, hsize ha]
      simp only [rerouted, ha]
    | _ => exact hother rfl

theorem Valid.turn_registries (he : e.Valid) (t : Turn Request) :
    (e.turn Request.ask t).state.store.registries =
      if e.allows t.action then e.store.rerouted t.action else e.store.registries := by
  cases hq : e.allows t.action with
  | true =>
    rw [turn_allowed hq, (he.prepared t).perform_registries ((e.prepared_allows t t.action).trans hq)]
    rfl
  | false =>
    rw [turn_barred hq]
    rfl

theorem Valid.turn_poolFor (he : e.Valid) (t : Turn Request) :
    (e.turn Request.ask t).state.store.poolFor r c = some p ↔
      e.store.poolFor r c = some p ∧ (∀ unwinding, t.action ≠ .dropRegistry r unwinding) ∨
        e.allows t.action ∧ t.action.asks? = some (r, c) ∧ e.store.poolFor r c = none ∧
          p = e.store.pools.next := by
  rw [poolFor, he.turn_registries t]
  cases hq : e.allows t.action with
  | true =>
    refine (poolFor_rerouted (s := e.store) (q := t.action)).trans (or_congr_right ?_)
    constructor
    · rintro ⟨ha, -, hn, hp⟩
      exact ⟨rfl, ha, hn, hp⟩
    · rintro ⟨-, ha, hn, hp⟩
      exact ⟨ha, (allows_asks ha).symm.trans hq, hn, hp⟩
  | false =>
    have hlive : e.store.poolFor r c = some p → ∀ unwinding, t.action ≠ .dropRegistry r unwinding := by
      intro hp unwinding ht
      obtain ⟨registry, hr, -⟩ := poolFor_eq_some.mp hp
      rw [ht, allows, hr] at hq
      cases hq
    simp only [Bool.false_eq_true, ↓reduceIte, false_and, or_false]
    exact ⟨fun hp => ⟨hp, hlive hp⟩, And.left⟩

theorem Valid.turn_live (he : e.Valid) (t : Turn Request) :
    ((e.turn Request.ask t).state.store.registries.get? r).isSome ↔
      (e.store.registries.get? r).isSome ∧ (∀ unwinding, t.action ≠ .dropRegistry r unwinding) ∨
        (∃ n pos policy, t.action = .openRegistry n pos policy) ∧ r = e.store.registries.next := by
  rw [he.turn_registries t]
  cases hq : e.allows t.action with
  | true => exact live_rerouted
  | false =>
    simp only [Bool.false_eq_true, ↓reduceIte]
    constructor
    · intro hr
      refine .inl ⟨hr, fun unwinding ht => ?_⟩
      rw [ht, allows, hr] at hq
      cases hq
    · rintro (⟨hr, -⟩ | ⟨⟨n, pos, policy, ht⟩, -⟩)
      · exact hr
      · rw [ht] at hq
        cases hq

theorem Valid.turn_registries_le (he : e.Valid) (t : Turn Request) :
    e.store.registries.next.number ≤ (e.turn Request.ask t).state.store.registries.next.number := by
  rw [he.turn_registries t]
  split
  · exact next_rerouted
  · exact Nat.le_refl _

theorem Valid.live_of_after (he : e.Valid) {us : List (Turn Request)}
    (hr : r.number < e.store.registries.next.number)
    (hl : ((e.after Request.ask us).store.registries.get? r).isSome) :
    (e.store.registries.get? r).isSome := by
  induction us generalizing e with
  | nil => exact hl
  | cons t us ih =>
    have hturn := ih (turn_step he t).1 (Nat.lt_of_lt_of_le hr (he.turn_registries_le t)) hl
    rcases (he.turn_live t).mp hturn with ⟨hlive, -⟩ | ⟨-, rfl⟩
    · exact hlive
    · exact absurd hr (Nat.lt_irrefl _)

theorem lt_next_of_live (hr : (e.store.registries.get? r).isSome) :
    r.number < e.store.registries.next.number := by
  obtain ⟨registry, hr⟩ := Option.isSome_iff_exists.mp hr
  exact Table.lt_next hr

theorem Valid.poolFor_after (he : e.Valid) {us : List (Turn Request)}
    (hp : e.store.poolFor r c = some p)
    (hl : ((e.after Request.ask us).store.registries.get? r).isSome) :
    (e.after Request.ask us).store.poolFor r c = some p := by
  induction us generalizing e with
  | nil => exact hp
  | cons t us ih =>
    have hvalid := (turn_step he t).1
    obtain ⟨registry, hr, -⟩ := poolFor_eq_some.mp hp
    have hlt := lt_next_of_live (e := e) (r := r) (by rw [hr]; rfl)
    have hturn := hvalid.live_of_after (Nat.lt_of_lt_of_le hlt (he.turn_registries_le t)) hl
    refine ih hvalid ((he.turn_poolFor t).mpr (.inl ⟨hp, ?_⟩)) hl
    rcases (he.turn_live t).mp hturn with ⟨-, hkept⟩ | ⟨-, rfl⟩
    · exact hkept
    · exact absurd hlt (Nat.lt_irrefl _)

theorem Valid.exists_poolFor (he : e.Valid) (hp : e.store.poolFor r c = some p) :
    ∃ cell, e.store.pools.get? p = some cell := by
  obtain ⟨registry, hr, hp⟩ := poolFor_eq_some.mp hp
  exact he.consistent.exists_of_registry hr (Registry.mem_poolIds hp)

theorem Valid.poolFor_ne_next (he : e.Valid) (hp : e.store.poolFor r c = some p) :
    p ≠ e.store.pools.next := by
  rintro rfl
  obtain ⟨cell, hcell⟩ := he.exists_poolFor hp
  rw [Table.get?_next] at hcell
  cases hcell

structure Routed (e : Engine) : Prop extends Guarded e where
  injective : ∀ {r c r' c' p}, e.store.poolFor r c = some p → e.store.poolFor r' c' = some p →
    r = r' ∧ c = c'
  classed : ∀ {r c p cell}, e.store.poolFor r c = some p → e.store.pools.get? p = some cell →
    cell.pool.sizeClass = c

theorem Guarded.turn_pool (he : e.Guarded) (t : Turn Request) {cell cell' : SharedPool}
    (hp : e.store.pools.get? p = some cell)
    (hp' : (e.turn Request.ask t).state.store.pools.get? p = some cell') :
    cell'.pool.sizeClass = cell.pool.sizeClass := by
  cases ht : t.action.isAccess with
  | true =>
    obtain ⟨readers, hr⟩ := (turn_request_accessed ht).pools hp'
    rw [hp] at hr
    cases hr
    rfl
  | false => exact ((turn_request_evolves he ht).store.pool hp hp').sizeClass_eq

theorem Valid.turn_opens (he : e.Valid) {t : Turn Request} (hq : e.allows t.action = true)
    (ha : t.action.asks? = some (r, c)) (hn : e.store.poolFor r c = none) {cell : SharedPool}
    (hp : (e.turn Request.ask t).state.store.pools.get? e.store.pools.next = some cell) :
    cell.pool.sizeClass = c := by
  obtain ⟨β, use, answer, -, -, hevolves, hrun⟩ := Request.perform_asks ha
  obtain ⟨registry, hr⟩ := Option.isSome_iff_exists.mp ((allows_asks ha).symm.trans hq)
  have hnone : registry.pool? c = none := (poolFor_of_get? hr c).symm.trans hn
  have hs := ((he.prepared t).consistent.opened hr hnone).1.wellFormed
  have hfresh : (poolForClass r c).run (e.prepared t).store = _ := poolForClass_fresh hr hnone
  rw [turn_allowed hq, (hrun (e.prepared t)).1, Op.run_bind_ok hfresh] at hp
  have hstep := (hevolves e.store.pools.next hs _ (.refl trivial)).1
  rcases hstep.pools hp with ⟨d, hd, hdc⟩ | ⟨hle, -⟩
  · cases hd.symm.trans ((get?_opened (e.prepared t).store r registry c _).trans (if_pos rfl))
    exact hdc.sizeClass_eq
  · have hlt : e.store.pools.next.number < ((e.prepared t).store.opened r registry c).pools.next.number := by
      change _ < (e.store.pools.add _).next.number
      rw [Table.next_add]
      exact Nat.lt_succ_self _
    exact absurd hle (Nat.not_le_of_lt hlt)

theorem Routed.turn (he : e.Routed) (t : Turn Request) : (e.turn Request.ask t).state.Routed where
  toGuarded := he.toGuarded.turn t
  injective hp hp' := by
    rcases (he.turn_poolFor t).mp hp with ⟨hp, -⟩ | ⟨-, ha, -, rfl⟩
    · rcases (he.turn_poolFor t).mp hp' with ⟨hp', -⟩ | ⟨-, -, -, rfl⟩
      · exact he.injective hp hp'
      · exact absurd rfl (he.poolFor_ne_next hp)
    · rcases (he.turn_poolFor t).mp hp' with ⟨hp', -⟩ | ⟨-, ha', -, -⟩
      · exact absurd rfl (he.poolFor_ne_next hp')
      · rw [ha, Option.some.injEq, Prod.mk.injEq] at ha'
        exact ha'
  classed hp hcell := by
    rcases (he.turn_poolFor t).mp hp with ⟨hp, -⟩ | ⟨hq, ha, hn, rfl⟩
    · obtain ⟨d, hd⟩ := he.exists_poolFor hp
      exact (he.turn_pool t hd hcell).trans (he.classed hp hd)
    · exact he.turn_opens hq ha hn hcell

theorem start_routed : start.Routed where
  toGuarded := start_guarded
  injective hp := nomatch hp
  classed hp := nomatch hp

theorem Routed.after (he : e.Routed) (ts : List (Turn Request)) : (e.after Request.ask ts).Routed :=
  after_induction (I := Routed) (fun _ t he => he.turn t) he ts

end Engine

end OffRow
