import OffRow.Proofs.Ledger
import OffRow.Proofs.Store.Tracing

namespace OffRow

def Request.opensRegistry : Request → Bool
  | .openRegistry .. => true
  | _ => false

def Outcome.Done {σ : Type} (o : Outcome σ Answer) : Prop :=
  ∃ answer, o.result = .ok answer ∧ answer ≠ .barred

open Store

theorem Store.next_rerouted_eq {s : Store} {q : Request} :
    (s.rerouted q).next.number = s.registries.next.number + if q.opensRegistry then 1 else 0 := by
  cases hq : q.asks? with
  | some route =>
    obtain ⟨r, c⟩ := route
    have hopens : q.opensRegistry = false := by
      cases q with
      | openRegistry n pos policy => cases hq
      | _ => rfl
    rw [rerouted_asks hq, Table.next_modify, hopens]
    rfl
  | none =>
    cases q with
    | openRegistry n pos policy =>
      rw [rerouted, Table.next_add]
      rfl
    | dropRegistry r unwinding =>
      rw [rerouted, Table.next_erase]
      rfl
    | _ =>
      simp only [rerouted, hq]
      rfl

namespace Engine

variable {e : Engine} {before : Table .pool SharedPool} {α : Type} {q : Request} {p : PoolId}
  {r : RegistryId} {c : SizeClass} {cell : SharedPool} {h : HandleId}

theorem hold_aside {x : Op Store PoolId} (hx : (x.run e.store).Aside (Framed before)) :
    ((hold x).run e).Aside fun f => f.store.Framed before := by
  have hacquire : ((x >>= fun p => acquire p >>= fun _ => pure p).run e.store).Aside (Framed before) :=
    Op.obeys_bind hx fun p => .bind (framed_custody.acquire p) fun _ => .pure p
  refine Op.obeys_bind (x := onStore (x >>= fun p => acquire p >>= fun _ => pure p)) ?_ fun p => ?_
  · exact hacquire.congr hacquire.state rfl fun _ => id
  · exact .bind (.modify fun _ hf => hf) fun _ => .pure _

inductive Faces (e : Engine) (q : Request) : Table .pool SharedPool → Prop
  | same : e.Faces q e.store.pools
  | opened {r : RegistryId} {c : SizeClass} (firstBytes : Nat) (policy : DropPolicy) (thread : ThreadId) :
      q.asks? = some (r, c) → (e.store.registries.get? r).isSome → e.store.poolFor r c = none →
      e.Faces q (e.store.pools.add ⟨.new c firstBytes policy thread, 1, 0⟩)

theorem Valid.distinct (he : e.Valid) (hp : e.store.pools.get? p = some cell) : cell.pool.Distinct :=
  fun hi hj => (he.consistent.toPlaced.owns_inj hp hp hi hj).2

theorem aside_traced (hd : Discernible before) {o : Outcome Engine Answer}
    (ho : o.Aside fun f => f.store.Framed before) :
    Traced before o.Done o.events o.state.store.pools :=
  traced_aside (o := ⟨o.result, o.state.store, o.events⟩) hd ⟨ho.state, ho.events, ho.failure⟩

theorem onStore_traced {x : Op Store α} {g : α → Op Engine Answer}
    (hg : ∀ a f, ∃ answer u, (g a).run f = ⟨.ok answer, u, []⟩ ∧ answer ≠ .barred ∧ u.store = f.store)
    (hx : Traced before (∃ a, (x.run e.store).result = .ok a) (x.run e.store).events
      (x.run e.store).state.pools) :
    Traced before ((onStore x >>= g).run e).Done ((onStore x >>= g).run e).events
      ((onStore x >>= g).run e).state.store.pools := by
  have hrun := onStore_run e x
  cases hr : (x.run e.store).result with
  | ok a =>
    obtain ⟨answer, u, hgrun, hbarred, hstore⟩ := hg a { e with store := (x.run e.store).state }
    rw [hr] at hrun
    rw [Op.run_bind_ok hrun, hgrun, List.append_nil]
    simp only [hstore]
    exact hx.mono fun _ => ⟨answer, rfl, hbarred⟩
  | error failure =>
    rw [hr] at hrun
    rw [Op.run_bind_error hrun]
    refine hx.mono ?_
    rintro ⟨a, ha⟩
    rw [hr] at ha
    cases ha

theorem holdClass_traced (hd : ∀ pools, e.Faces q pools → Discernible pools)
    (hq : q.asks? = some (r, c)) (hr : (e.store.registries.get? r).isSome) :
    ∃ before, e.Faces q before ∧ Traced before ((hold (poolForClass r c)).run e).Done
      ((hold (poolForClass r c)).run e).events ((hold (poolForClass r c)).run e).state.store.pools := by
  obtain ⟨registry, hregistry⟩ := Option.isSome_iff_exists.mp hr
  cases hp : registry.pool? c with
  | some p =>
    refine ⟨_, .same, aside_traced (hd _ .same) (hold_aside ?_)⟩
    rw [poolForClass_known hregistry hp]
    exact .silent (framed_self _) rfl
  | none =>
    have hfaces : e.Faces q (e.store.opened r registry c).pools :=
      .opened _ _ _ hq hr ((poolFor_of_get? hregistry c).trans hp)
    refine ⟨_, hfaces, aside_traced (hd _ hfaces) (hold_aside ?_)⟩
    rw [poolForClass_fresh hregistry hp]
    refine ⟨framed_self _, fun event hm => ?_, fun _ _ => trivial⟩
    rw [List.mem_singleton.mp hm]
    rfl

theorem Valid.create_traced (he : e.Valid) {size : Nat}
    (hd : ∀ pools, e.Faces (.create r size) pools → Discernible pools)
    (hr : (e.store.registries.get? r).isSome) :
    let o := (Store.create r size).run e.store
    ∃ before, e.Faces (.create r size) before ∧
      Traced before (∃ h, o.result = .ok h) o.events o.state.pools := by
  obtain ⟨registry, hregistry⟩ := Option.isSome_iff_exists.mp hr
  intro o
  cases hk : SizeClass.forSize size with
  | error err =>
    have ho : o = ⟨.error (.error err), e.store, []⟩ := by
      change (Store.create r size).run e.store = _
      rw [Store.create, poolForSize, hk]
      rfl
    rw [ho]
    exact ⟨_, .same, traced_aside (hd _ .same) (.silent (framed_self _) rfl)⟩
  | ok c =>
    cases hp : registry.pool? c with
    | some p =>
      obtain ⟨cell, hcell⟩ := he.consistent.exists_of_registry hregistry (Registry.mem_poolIds hp)
      have ho : o = (Store.createIn p size).run e.store := create_known hregistry hk hp
      rw [ho]
      exact ⟨_, .same, createIn_traced he.consistent (hd _ .same) hcell size⟩
    | none =>
      have hasks : (Request.create r size).asks? = some (r, c) := by
        rw [Request.asks?, hk]
        rfl
      have hfaces : e.Faces (.create r size) (e.store.opened r registry c).pools :=
        .opened _ _ _ hasks hr ((poolFor_of_get? hregistry c).trans hp)
      have hcell := (get?_opened e.store r registry c e.store.pools.next).trans (if_pos rfl)
      have htraced := createIn_traced (he.consistent.opened hregistry hp).1 (hd _ hfaces) hcell size
      have ho : o = _ := create_fresh hregistry hk hp
      rw [ho]
      exact ⟨_, hfaces, htraced.cons rfl⟩

theorem Valid.perform_traced (he : e.Valid) (hd : ∀ pools, e.Faces q pools → Discernible pools)
    (hpublic : q.isPublic = true) (hq : e.allows q = true) :
    ∃ before, e.Faces q before ∧ Traced before (q.perform.run e).Done (q.perform.run e).events
      (q.perform.run e).state.store.pools := by
  have hself := hd _ .same
  have haside : Op.Aside (fun f : Engine => f.store.Framed e.store.pools) q.perform →
      ∃ before, e.Faces q before ∧ Traced before (q.perform.run e).Done (q.perform.run e).events
        (q.perform.run e).state.store.pools := fun hx =>
    ⟨_, .same, aside_traced hself (hx e (framed_self _))⟩
  have hlift : Lifts (Framed e.store.pools) fun f => f.store.Framed e.store.pools := lifts_store
  have hcustody : Custody (Framed e.store.pools) (fun event => event.traffic? = none) (fun _ => True) :=
    framed_custody
  cases q with
  | openRegistry n pos policy => exact haside (hlift.answer (addRegistry_obeys id) _)
  | dropRegistry r unwinding =>
    exact haside (hlift.answer (hcustody.dropRegistry (fun _ hf => hf) unwinding r) _)
  | holdClass r c => exact holdClass_traced hd rfl hq
  | holdSize r size =>
    cases hk : SizeClass.forSize size with
    | error err =>
      refine ⟨_, .same, aside_traced hself (hold_aside ?_)⟩
      rw [poolForSize, hk]
      exact .silent (framed_self _) rfl
    | ok c =>
      rw [Request.perform, poolForSize_eq hk]
      refine holdClass_traced hd ?_ hq
      rw [Request.asks?, hk]
      rfl
  | openPool c n policy => cases hpublic
  | letGo p unwinding => exact haside (hlift.letGo (fun _ => id) (hcustody.release unwinding p))
  | shrinkToFit p =>
    obtain ⟨cell, hcell⟩ := he.consistent.exists_of_held (of_decide_eq_true hq)
    rw [Request.perform, onStore_bind]
    refine ⟨_, .same, onStore_traced (fun _ _ => ⟨_, _, rfl, Answer.noConfusion, rfl⟩) ?_⟩
    rcases checkUnused_bind e.store p (Store.shrinkToFit p) with ⟨cause, -, hrun⟩ | ⟨-, -, -, hrun⟩
    · rw [hrun]
      exact traced_aside hself (.silent (framed_self _) rfl)
    · rw [hrun]
      exact shrinkToFit_traced he.consistent.toPlaced hself hcell
  | check p => exact haside (hlift.answer (check_obeys (fun _ => trivial) p) _)
  | create r size =>
    obtain ⟨before, hfaces, htraced⟩ := he.create_traced hd hq
    exact ⟨before, hfaces, onStore_traced (fun _ _ => ⟨_, _, rfl, Answer.noConfusion, rfl⟩) htraced⟩
  | createIn p size => cases hpublic
  | destroy h =>
    obtain ⟨b, hb⟩ := Option.isSome_iff_exists.mp
      ((he.strings_iff h).mp (of_decide_eq_true (Bool.and_eq_true_iff.mp hq).1))
    exact ⟨_, .same, onStore_traced (fun _ _ => ⟨_, _, rfl, Answer.noConfusion, rfl⟩)
      (destroy_traced he.consistent hself hb)⟩
  | intoRaw h => exact haside (hlift.answer (intoRaw_obeys trivial (fun _ _ hf => hf) h) _)
  | fromRaw h => exact haside (hlift.answer (fromRaw_obeys trivial (fun _ _ hf => hf) trivial h) _)
  | overwrite h start data => exact haside (hlift.answer (overwrite_aside h start data) _)
  | read h | write h | endAccess =>
    exact haside (hlift.perform_access (fun _ => id) trivial framed_readers rfl)
  | _ => exact haside (hlift.perform_scratch framed_aloof rfl)

structure Sole (e : Engine) : Prop extends Routed e where
  first : e.store.registries.next.number ≤ 1
  begun : ∀ {p cell}, e.store.pools.get? p = some cell → 0 < e.store.registries.next.number
  apart : ∀ {p q cell cell'}, e.store.pools.get? p = some cell → e.store.pools.get? q = some cell' →
    cell.pool.sizeClass = cell'.pool.sizeClass → p = q
  served : ∀ {r p cell}, (e.store.registries.get? r).isSome → e.store.pools.get? p = some cell →
    e.store.poolFor r cell.pool.sizeClass = some p

theorem Sole.live_eq (he : e.Sole) {x : RegistryId} (hr : (e.store.registries.get? r).isSome)
    (hx : (e.store.registries.get? x).isSome) : r = x := by
  have hr := lt_next_of_live hr
  have hx := lt_next_of_live hx
  have hfirst := he.first
  exact (Table.number_eq r x).mp (by omega)

theorem Sole.discernible (he : e.Sole) (hb : e.Faces q before) : Discernible before := by
  have hdistinct : ∀ {p cell}, e.store.pools.get? p = some cell → cell.pool.Distinct :=
    fun hp => he.toValid.distinct hp
  cases hb with
  | same => exact ⟨he.apart, hdistinct⟩
  | @opened r c firstBytes policy thread hasks hr hn =>
    have hnew : ∀ {p cell}, e.store.pools.get? p = some cell → cell.pool.sizeClass ≠ c := by
      rintro p cell hp rfl
      rw [he.served hr hp] at hn
      cases hn
    refine ⟨fun {p q d d'} hp hq hclass => ?_, fun {p d} hp => ?_⟩
    · rw [Table.get?_add] at hp hq
      split at hp
      · next hpn =>
        cases hp
        split at hq
        · next hqn => rw [hpn, hqn]
        · exact absurd hclass.symm (hnew hq)
      · split at hq
        · cases hq
          exact absurd hclass (hnew hp)
        · exact he.apart hp hq hclass
    · rw [Table.get?_add] at hp
      split at hp
      · cases hp
        exact fun hi => absurd hi.1 (Nat.not_lt_zero _)
      · exact hdistinct hp

theorem Sole.turn_traced (he : e.Sole) {t : Turn Request} (hpublic : t.action.isPublic = true) :
    let o := e.turn Request.ask t
    ∃ before, e.Faces t.action before ∧ Traced before o.Done o.events o.state.store.pools := by
  have hprepared : ∀ {pools}, (e.prepared t).Faces t.action pools → e.Faces t.action pools := by
    intro pools hfaces
    cases hfaces with
    | same => exact .same
    | opened firstBytes policy thread hasks hr hn => exact .opened firstBytes policy thread hasks hr hn
  intro o
  cases hq : e.allows t.action with
  | true =>
    have hallows := (e.prepared_allows t t.action).trans hq
    obtain ⟨before, hfaces, htraced⟩ := (he.toValid.prepared t).perform_traced
      (fun pools hfaces => he.discernible (hprepared hfaces)) hpublic hallows
    have ho : o = t.action.perform.run (e.prepared t) := turn_allowed hq
    rw [ho]
    exact ⟨before, hprepared hfaces, htraced⟩
  | false =>
    have ho : o = ⟨.ok .barred, e.prepared t, []⟩ := turn_barred hq
    rw [ho]
    have hsame : e.Faces t.action e.store.pools := .same
    exact ⟨_, hsame, aside_traced (he.discernible hsame) (.silent (framed_self (e.prepared t).store) rfl)⟩

theorem Sole.turn_next (he : e.Sole) (t : Turn Request) :
    (e.turn Request.ask t).state.store.registries.next.number =
      e.store.registries.next.number + if t.action.opensRegistry then 1 else 0 := by
  rw [he.turn_registries t]
  cases hq : e.allows t.action with
  | true => exact next_rerouted_eq
  | false =>
    have hopens : t.action.opensRegistry = false := by
      cases ha : t.action with
      | openRegistry n pos policy =>
        rw [ha] at hq
        cases hq
      | _ => rfl
    rw [hopens]
    rfl

theorem Faces.of_get? (hb : e.Faces q before) (hp : e.store.pools.get? p = some cell) :
    before.get? p = some cell := by
  cases hb with
  | same => exact hp
  | opened firstBytes policy thread hasks hr hn =>
    rw [Table.get?_add, if_neg]
    · exact hp
    · rintro rfl
      rw [Table.get?_next] at hp
      cases hp

theorem Faces.cases (hb : e.Faces q before) (hp : before.get? p = some cell) :
    e.store.pools.get? p = some cell ∨ p = e.store.pools.next ∧ ∃ r c firstBytes policy thread,
      q.asks? = some (r, c) ∧ (e.store.registries.get? r).isSome ∧ e.store.poolFor r c = none ∧
        cell.pool = .new c firstBytes policy thread := by
  cases hb with
  | same => exact .inl hp
  | @opened r c firstBytes policy thread hasks hr hn =>
    rw [Table.get?_add] at hp
    split at hp
    · next hnext =>
      cases hp
      exact .inr ⟨hnext, r, c, firstBytes, policy, thread, hasks, hr, hn, rfl⟩
    · exact .inl hp

theorem Faces.begun (hb : e.Faces q before) (he : e.Sole) (hp : before.get? p = some cell) :
    0 < e.store.registries.next.number := by
  rcases hb.cases hp with hold | ⟨-, r, -, -, -, -, -, hr, -⟩
  · exact he.begun hold
  · exact Nat.zero_lt_of_lt (lt_next_of_live hr)

theorem Sole.turn_keeps (he : e.Sole) {t : Turn Request} (hb : e.Faces t.action before)
    (hr : ((e.turn Request.ask t).state.store.registries.get? r).isSome) (hp : before.get? p = some cell)
    (hfirst : t.action.opensRegistry = true → e.store.registries.next.number = 0) :
    (e.turn Request.ask t).state.store.poolFor r cell.pool.sizeClass = some p := by
  rcases hb.cases hp with hold | ⟨rfl, x, c, n, policy, thread, hasks, hx, hn, hnew⟩
  · rcases (he.turn_live t).mp hr with ⟨hlive, hkept⟩ | ⟨⟨n, pos, policy, ha⟩, -⟩
    · exact (he.turn_poolFor t).mpr (.inl ⟨he.served hlive hold, hkept⟩)
    -- A second registry would be needed for this, and there is none.
    · have hzero := hfirst (by rw [ha]; rfl)
      have hpos := he.begun hold
      omega
  · have hlive : (e.store.registries.get? r).isSome := by
      rcases (he.turn_live t).mp hr with ⟨hlive, -⟩ | ⟨⟨n, pos, policy, ha⟩, -⟩
      · exact hlive
      · rw [ha] at hasks
        cases hasks
    obtain rfl := he.live_eq hlive hx
    rw [hnew]
    exact (he.turn_poolFor t).mpr (.inr ⟨(allows_asks hasks).trans hlive, hasks, hn, rfl⟩)

theorem Sole.turn (he : e.Sole) {t : Turn Request} (hpublic : t.action.isPublic = true)
    (hfirst : t.action.opensRegistry = true → e.store.registries.next.number = 0) :
    (e.turn Request.ask t).state.Sole := by
  -- A turn ends or changes pools of `before`, so what tells two of them apart still does.
  obtain ⟨before, hb, htraced⟩ := he.turn_traced hpublic
  have hnext := he.turn_next t
  have hclass : ∀ {p d}, (e.turn Request.ask t).state.store.pools.get? p = some d →
      ∃ c, before.get? p = some c ∧ d.pool.sizeClass = c.pool.sizeClass := by
    intro p d hd
    obtain ⟨c, hc⟩ := htraced.known hd
    exact ⟨c, hc, (htraced.tells hc hd).sizeClass_eq⟩
  refine ⟨he.toRouted.turn t, ?_, fun {p d} hd => ?_, fun {p q d d'} hd hd' heq => ?_,
    fun {r p d} hr hd => ?_⟩
  · rw [hnext]
    split
    · next hopens => rw [hfirst hopens]
    · exact he.first
  · obtain ⟨c, hc, -⟩ := hclass hd
    rw [hnext]
    exact Nat.lt_of_lt_of_le (hb.begun he hc) (Nat.le_add_right _ _)
  · obtain ⟨c, hc, hcd⟩ := hclass hd
    obtain ⟨c', hc', hcd'⟩ := hclass hd'
    rw [hcd, hcd'] at heq
    exact (he.discernible hb).apart hc hc' heq
  · obtain ⟨c, hc, hcd⟩ := hclass hd
    rw [hcd]
    exact he.turn_keeps hb hr hc hfirst

def MayOpen (e : Engine) : Prop :=
  e.store.registries.next.number = 0 ∨ ∃ r, (e.store.registries.get? r).isSome

theorem Sole.mayOpen_of_turn (he : e.Sole) {t : Turn Request}
    (hfirst : t.action.opensRegistry = true → e.store.registries.next.number = 0)
    (hopen : (e.turn Request.ask t).state.MayOpen) : e.MayOpen := by
  rcases hopen with hzero | ⟨r, hr⟩
  · rw [he.turn_next t] at hzero
    exact .inl (Nat.eq_zero_of_add_eq_zero hzero).1
  · rcases (he.turn_live t).mp hr with ⟨hlive, -⟩ | ⟨⟨n, pos, policy, ha⟩, -⟩
    · exact .inr ⟨r, hlive⟩
    · exact .inl (hfirst (by rw [ha]; rfl))

theorem Sole.turn_stays (he : e.Sole) {t : Turn Request} (hpublic : t.action.isPublic = true)
    (hfirst : t.action.opensRegistry = true → e.store.registries.next.number = 0)
    (hopen : (e.turn Request.ask t).state.MayOpen) (hb : e.Faces t.action before)
    (hp : before.get? p = some cell) : ∃ d, (e.turn Request.ask t).state.store.pools.get? p = some d := by
  rcases hopen with hzero | ⟨r, hr⟩
  · have hpos := hb.begun he hp
    rw [he.turn_next t] at hzero
    omega
  · exact (he.turn hpublic hfirst).exists_poolFor (he.turn_keeps hb hr hp hfirst)

theorem start_sole : start.Sole where
  toRouted := start_routed
  first := Nat.zero_le 1
  begun hp := nomatch hp
  apart hp := nomatch hp
  served _ hp := nomatch hp

end Engine

end OffRow
