import OffRow.Proofs.PoolLifetime
import OffRow.Proofs.ScopedAccess
import OffRow.Proofs.Store.Quiet

namespace OffRow

namespace Engine

variable {e f : Engine} {p : PoolId} {c : SharedPool} {h m : HandleId} {b : ByteArray} {i : Nat}

theorem lifts_trivial : Lifts (fun _ => True) fun _ => True := lifts_store

theorem answer_quiet {α : Type} {x : Op Store α} (hx : (x.run e.store).Quiet) (answer : α → Answer) :
    ((onStore x >>= fun a => pure (answer a)).run e).Quiet :=
  Op.obeys_bind (lifts_trivial.outcome trivial hx) fun _ => .pure _

theorem receive_quiet {x : Op Store HandleId} (hx : (x.run e.store).Quiet) :
    ((receive x).run e).Quiet :=
  Op.obeys_bind (lifts_trivial.outcome trivial hx) fun _ => .bind (.modify fun _ _ => trivial) fun _ => .pure _

theorem Valid.perform_quiet (he : e.Valid) {q : Request} (hq : e.allows q = true) :
    (q.perform.run e).Quiet := by
  have hs := he.consistent
  cases q with
  | openRegistry n pos policy => exact lifts_trivial.answer (Store.addRegistry_quiet _) _ e trivial
  | dropRegistry r unwinding => exact answer_quiet (Store.dropRegistry_quiet hs unwinding r) _
  | holdClass r c =>
    exact lifts_trivial.hold (fun _ => id) Store.acquire_quiet (Store.poolForClass_quiet r c) e trivial
  | holdSize r size =>
    exact lifts_trivial.hold (fun _ => id) Store.acquire_quiet (Store.poolForSize_quiet r size) e trivial
  | openPool c n policy =>
    exact lifts_trivial.openPool (fun _ => id) (Store.createPool_quiet c n policy) e trivial
  | letGo p unwinding =>
    have hheld : e.store.Consistent (p :: e.pools.erase p) :=
      ⟨hs.toPlaced, hs.toCounted.perm (List.perm_cons_erase (of_decide_eq_true hq))⟩
    rw [Request.perform, Op.run_modify_bind]
    exact answer_quiet (e := { e with pools := e.pools.erase p })
      (Store.release_quiet hheld unwinding) _
  | shrinkToFit p =>
    obtain ⟨c, hc⟩ := hs.exists_of_held (of_decide_eq_true hq)
    rw [Request.perform, onStore_bind]
    apply answer_quiet
    rcases Store.checkUnused_bind e.store p (Store.shrinkToFit p) with ⟨cause, hcause, hrun⟩ | ⟨-, -, -, hrun⟩
    · rw [hrun]
      rcases hcause with rfl | ⟨-, rfl⟩ <;> exact Outcome.Quiet.failed rfl
    · rw [hrun]
      exact Store.shrinkToFit_quiet hs.toPlaced hc
  | check p =>
    obtain ⟨c, hc⟩ := hs.exists_of_held (of_decide_eq_true hq)
    exact answer_quiet (Store.check_quiet hs.toPlaced hc) _
  | create r size =>
    obtain ⟨registry, hr⟩ := Option.isSome_iff_exists.mp hq
    exact receive_quiet (Store.create_quiet hs hr size)
  | createIn p size =>
    obtain ⟨c, hc⟩ := hs.exists_of_held (of_decide_eq_true hq)
    exact receive_quiet (Store.createIn_quiet hs hc size)
  | destroy h =>
    obtain ⟨b, hb⟩ := Option.isSome_iff_exists.mp
      ((he.strings_iff h).mp (of_decide_eq_true (Bool.and_eq_true_iff.mp hq).1))
    have hdestroy := lifts_trivial.outcome trivial (Store.destroy_quiet hs hb)
    exact Op.obeys_bind hdestroy fun _ => .bind (.modify fun _ _ => trivial) fun _ => .pure _
  | intoRaw h => exact lifts_trivial.answer (Store.intoRaw_quiet h) _ e trivial
  | fromRaw h => exact lifts_trivial.answer (Store.fromRaw_quiet h) _ e trivial
  | overwrite h start data => exact lifts_trivial.answer (Store.overwrite_quiet h start data) _ e trivial
  | read h | write h | endAccess =>
    exact lifts_trivial.perform_access (fun _ => id) Store.quiet_dangling (fun _ _ _ => trivial) rfl e trivial
  | _ => exact lifts_trivial.perform_scratch Store.quiet_aloof rfl e trivial

theorem Valid.turn_quiet (he : e.Valid) (t : Turn Request) : (e.turn Request.ask t).Quiet := by
  cases hq : e.allows t.action with
  | true =>
    rw [turn_allowed hq]
    exact (he.prepared t).perform_quiet ((e.prepared_allows t t.action).trans hq)
  | false =>
    rw [turn_barred hq]
    exact Outcome.Quiet.done nofun

theorem Valid.owns_iff (he : e.Valid) (hc : e.store.pools.get? p = some c) (h : HandleId) :
    h ∈ e.stringsIn p ↔ ∃ i, c.pool.Owns i h := by
  have hs := he.consistent.toPlaced
  rw [mem_stringsIn he]
  constructor
  · rintro ⟨a, ha, hp, hl⟩
    cases hloc : a.location with
    | nowhere => exact absurd hloc hl
    | scratch b w => exact absurd hloc ((hs.pooled ha hp).2 b w)
    | block q w =>
      obtain ⟨d, i, hd, hi, -⟩ := hs.located ha hloc
      obtain ⟨a', ha', hq, -, -⟩ := hs.settled hd hi
      rw [ha] at ha'
      cases ha'
      rw [hp] at hq
      cases hq
      rw [hc] at hd
      cases hd
      exact ⟨i, hi⟩
  · rintro ⟨i, hi⟩
    obtain ⟨a, ha, hp, hl, -⟩ := hs.settled hc hi
    exact ⟨a, ha, hp, hl ▸ Address.noConfusion⟩

theorem Valid.length_stringsIn (he : e.Valid) (hc : e.store.pools.get? p = some c) :
    (e.stringsIn p).length = c.pool.len :=
  he.consistent.toPlaced.length_owners hc (he.nodup.filter _) (he.owns_iff hc)

theorem Guarded.turn_handle (he : e.Guarded) (t : Turn Request)
    (hb : (e.store.contents h).isSome) (ha : ((e.turn Request.ask t).state.store.contents h).isSome) :
    ∃ a a', e.store.handles.get? h = some a ∧
      (e.turn Request.ask t).state.store.handles.get? h = some a' ∧ a'.size = a.size ∧
      a'.pool = a.pool := by
  obtain ⟨a, -, -, hh, -⟩ := he.consistent.toPlaced.contents_isSome.mp hb
  obtain ⟨a', -, -, hh', -⟩ :=
    (turn_step he.toValid t).1.consistent.toPlaced.contents_isSome.mp ha
  refine ⟨a, a', hh, hh', ?_⟩
  cases ht : t.action.isAccess with
  | true =>
    rw [(turn_request_accessed ht).handles_eq, hh] at hh'
    cases hh'
    exact ⟨rfl, rfl⟩
  | false =>
    rcases (turn_request_evolves he ht).store.handles hh' with ⟨d, hd, hsize, -, hpool⟩ | hle
    · rw [hh] at hd
      cases hd
      exact ⟨hsize, hpool⟩
    · exact absurd (Table.lt_next hh) (Nat.not_lt_of_le hle)

theorem Guarded.turn_poolOf_stored (he : e.Guarded) (t : Turn Request)
    (hb : (e.store.contents h).isSome) (ha : ((e.turn Request.ask t).state.store.contents h).isSome) :
    (e.turn Request.ask t).state.poolOf h = e.poolOf h := by
  obtain ⟨a, a', hh, hh', -, hpool⟩ := he.turn_handle t hb ha
  rw [poolOf, poolOf, hh, hh', Option.bind_some, Option.bind_some, hpool]

theorem Guarded.pool_kept (he : e.Guarded) (t : Turn Request) (hp : h ∈ e.stringsIn p)
    (hd : (t.action, (e.turn Request.ask t).result) ≠ (.destroy h, .ok .done)) :
    ∃ d, (e.turn Request.ask t).state.store.pools.get? p = some d := by
  obtain ⟨hstring, hpool⟩ := List.mem_filter.mp hp
  have hpool : e.poolOf h = some p := of_decide_eq_true hpool
  obtain ⟨hvalid, hcontents, -⟩ := turn_step he.toValid t
  have hb := (he.strings_iff h).mp hstring
  have ha : ((e.turn Request.ask t).state.store.contents h).isSome := by
    rw [hcontents]
    exact Contents.next_isSome hb hd
  obtain ⟨q, d, -, hq, hget, -⟩ := hvalid.exists_pool ha
  rw [he.turn_poolOf_stored t hb ha, hpool] at hq
  cases hq
  exact ⟨d, hget⟩

theorem Guarded.ended_empty (he : e.Guarded) (t : Turn Request) (hc : e.store.pools.get? p = some c)
    (hgone : (e.turn Request.ask t).state.store.pools.get? p = none) :
    c.pool.len = 0 ∨ ∃ h, t.action = .destroy h ∧ (e.turn Request.ask t).result = .ok .done ∧
      e.stringsIn p = [h] := by
  have hlast : ∀ h ∈ e.stringsIn p,
      t.action = .destroy h ∧ (e.turn Request.ask t).result = .ok .done := by
    intro h hp
    by_contra hd
    obtain ⟨d, hd⟩ := he.pool_kept t hp fun heq => hd (Prod.mk.inj heq)
    rw [hgone] at hd
    cases hd
  have hlen := he.length_stringsIn hc
  have hnodup : (e.stringsIn p).Nodup := he.nodup.filter _
  cases hl : e.stringsIn p with
  | nil =>
    rw [hl] at hlen
    exact .inl hlen.symm
  | cons h rest =>
    rw [hl] at hlast hnodup
    obtain ⟨hdestroy, hdone⟩ := hlast h List.mem_cons_self
    refine .inr ⟨h, hdestroy, hdone, ?_⟩
    rw [List.cons.injEq, List.eq_nil_iff_forall_not_mem]
    refine ⟨rfl, fun x hx => ?_⟩
    have heq := (hlast x (List.mem_cons_of_mem h hx)).1
    rw [hdestroy] at heq
    cases heq
    exact (List.nodup_cons.mp hnodup).1 hx

/-- What can be done to a string `h` of pool `p`, and what becomes of its bytes `b` meanwhile. -/
structure Usable (e : Engine) (h : HandleId) (p : PoolId) (c : SharedPool) (b : ByteArray) : Prop where
  poolOf_eq : e.poolOf h = some p
  pool_eq : e.store.pools.get? p = some c
  bytes_eq : (Store.read h pure).run e.store = ⟨.ok b, e.store, []⟩
  read : ∀ t : Turn Request, e.allows t.action → t.action = .read h ∨ t.action = .write h →
    (e.turn Request.ask t).result = .ok (.bytes b)
  overwrite : ∀ (t : Turn Request) start data, e.allows t.action → t.action = .overwrite h start data →
    let o := e.turn Request.ask t
    o.result = .ok .done ∧ o.state.store.contents h = some (Bytes.overlay b start data)
  adopt : ∀ t : Turn Request, e.isOwned h = false → t.action = .fromRaw h →
    let o := e.turn Request.ask t
    o.result = .ok .done ∧ o.state.allows (.destroy h)
  destroy : ∀ t : Turn Request, e.isOwned h → t.action = .destroy h → ¬e.InUse p →
    t.thread = c.pool.ownerThread →
    let o := e.turn Request.ask t
    o.result = .ok .done ∧ h ∉ o.state.strings
  relocate : ∀ (t : Turn Request) m i, e.allows t.action → t.action = .destroy m → c.pool.Owns i m →
    m ≠ h → c.pool.Owns (c.pool.len - 1) h →
    let o := e.turn Request.ask t
    o.result = .ok .done → o.state.store.contents h = some b ∧
      (o.state.store.handles.get? h).map Handle.location =
        some (.block p (Pool.placeOf c.pool.firstSlots i))

theorem isOwned_iff : e.isOwned h = true ↔ ∃ a, e.store.handles.get? h = some a ∧ a.owned = true := by
  unfold isOwned
  cases e.store.handles.get? h <;> simp

theorem Valid.turn_fromRaw (he : e.Valid) (hh : h ∈ e.strings) (ho : e.isOwned h = false)
    {t : Turn Request} (ht : t.action = .fromRaw h) :
    (e.turn Request.ask t).result = .ok .done ∧ (e.turn Request.ask t).state.allows (.destroy h) := by
  obtain ⟨b, hb⟩ := Option.isSome_iff_exists.mp ((he.strings_iff h).mp hh)
  obtain ⟨a, p, c, i, ha, -, -, hpool, -⟩ := he.consistent.exists_block hb
  have htemp := (he.consistent.pooled ha hpool).1
  have hq : e.allows t.action = true := by
    rw [ht, allows, reaches, decide_eq_true hh, ho]
    rfl
  have hhandle : (Store.handle h).run (e.prepared t).store = ⟨.ok a, (e.prepared t).store, []⟩ :=
    Store.handle_run ha
  have hadopt : (Store.fromRaw h).run (e.prepared t).store =
      ⟨.ok (), { (e.prepared t).store with
        handles := e.store.handles.modify h fun a => { a with owned := true } }, []⟩ := by
    rw [Store.fromRaw, Op.run_bind_silent hhandle, Op.run_ensure_bind_pos _ htemp]
    rfl
  have hrun := onStore_run (e.prepared t) (Store.fromRaw h)
  rw [hadopt] at hrun
  rw [turn_allowed hq, ht, Request.perform, Op.run_bind_silent hrun, Op.run_pure]
  refine ⟨rfl, Bool.and_eq_true_iff.mpr ⟨decide_eq_true hh, isOwned_iff.mpr ?_⟩⟩
  refine ⟨{ a with owned := true }, ?_, rfl⟩
  change (e.store.handles.modify h _).get? h = _
  rw [Table.get?_modify, if_pos rfl, ha]
  rfl

theorem Valid.turn_relocate (he : e.Valid) (hc : e.store.pools.get? p = some c) {t : Turn Request}
    (hq : e.allows t.action = true) (ht : t.action = .destroy m) (hi : c.pool.Owns i m) (hne : m ≠ h)
    (hh : c.pool.Owns (c.pool.len - 1) h) (hr : (e.turn Request.ask t).result = .ok .done) :
    ((e.turn Request.ask t).state.store.handles.get? h).map Handle.location =
      some (.block p (Pool.placeOf c.pool.firstSlots i)) := by
  obtain ⟨a, ha, -, -, -⟩ := he.consistent.settled hc hi
  obtain ⟨a', ha', -, -, -⟩ := he.consistent.settled hc hh
  have hdestroy := Store.destroy_run (he.prepared t).consistent ha hc hi hh
  have hrun := onStore_run (e.prepared t) (Store.destroy m)
  rw [turn_allowed hq, ht, Request.perform] at hr ⊢
  rw [hdestroy] at hrun
  split_ifs at hrun
  · rw [Op.run_bind_error hrun] at hr
    cases hr
  · rw [Op.run_bind_error hrun] at hr
    cases hr
  · rw [Op.run_bind_ok hrun, Op.run_modify_bind, Op.run_pure]
    change ((Store.pulled _ p c.pool i m h).handles.get? h).map Handle.location = _
    rw [Store.get?_pulled, if_neg hne, if_pos rfl]
    change (((e.store.handles.modify m _).get? h).map _).map _ = _
    rw [Table.get?_modify, if_neg hne, ha']
    rfl

theorem Guarded.usable (he : e.Guarded) (hh : h ∈ e.strings) : ∃ p c b, e.Usable h p c b := by
  have hsome := (he.strings_iff h).mp hh
  obtain ⟨b, hb⟩ := Option.isSome_iff_exists.mp hsome
  obtain ⟨p, c, k, hp, hc, hk⟩ := he.toValid.exists_pool hsome
  refine ⟨p, c, b, hp, hc, Store.read_run he.consistent.toPlaced hb, ?_, ?_, ?_, ?_, ?_⟩
  · intro t hq ht
    obtain ⟨-, -, hfits, -⟩ := turn_step he.toValid t
    have hfits := hfits hq
    rcases ht with ht | ht
    · rw [ht] at hfits
      exact hfits b hb
    · rw [ht] at hfits
      exact hfits b hb
  · intro t start data hq ht o
    obtain ⟨-, hcontents, hfits, -⟩ := turn_step he.toValid t
    have hfits := hfits hq
    rw [ht] at hfits hcontents
    have hdone : o.result = .ok .done := hfits hsome
    refine ⟨hdone, ?_⟩
    rw [hcontents, hdone]
    simp only [Contents.next, Function.update_self, hb, Option.map_some]
  · exact fun t ho ht => he.turn_fromRaw hh ho ht
  · intro t ho ht hu hthread o
    have hq : e.allows t.action = true := by
      rw [ht]
      exact Bool.and_eq_true_iff.mpr ⟨decide_eq_true hh, ho⟩
    have hdone : o.result = .ok .done := he.turn_destroy ht hq hp hc hu hthread
    obtain ⟨hvalid, hcontents, -⟩ := turn_step he.toValid t
    refine ⟨hdone, ?_⟩
    rw [hvalid.strings_iff, hcontents, ht, hdone]
    simp [Contents.next]
  · intro t m i hq ht hi hne hlast o hdone
    obtain ⟨-, hcontents, -⟩ := turn_step he.toValid t
    refine ⟨?_, he.turn_relocate hc hq ht hi hne hlast hdone⟩
    rw [hcontents, ht, hdone]
    exact (Function.update_of_ne hne.symm _ _).trans hb

theorem Valid.turn_drop (he : e.Valid) {t : Turn Request} {r : RegistryId} {unwinding : Bool}
    {registry : Registry} (ht : t.action = .dropRegistry r unwinding)
    (hr : e.store.registries.get? r = some registry) :
    e.turn Request.ask t =
      ⟨if e.store.liveBlocks registry ≠ 0 ∧ registry.policy = .mustNotDropItems ∧ unwinding = false then
          .error (.fault (.registryDropped (e.store.liveBlocks registry)))
        else .ok .done,
        { e with store := (e.prepared t).store.closed r registry },
        registry.poolIds.filterMap e.store.leftover⟩ := by
  have hq : e.allows t.action = true := by
    rw [ht, allows, hr]
    rfl
  have hrun := onStore_run (e.prepared t) (Store.dropRegistry unwinding r)
  have hdrop := Store.dropRegistry_run (he.prepared t).consistent hr unwinding
  rw [show (e.prepared t).store.liveBlocks = e.store.liveBlocks from rfl,
    show (e.prepared t).store.leftover = e.store.leftover from rfl] at hdrop
  rw [hdrop] at hrun
  rw [turn_allowed hq, ht, Request.perform]
  split
  · next hleft =>
    rw [if_pos hleft] at hrun
    rw [Op.run_bind_error hrun]
    rfl
  · next hleft =>
    rw [if_neg hleft] at hrun
    rw [Op.run_bind_ok hrun, Op.run_pure, List.append_nil]
    rfl

theorem Valid.turn_dropRegistry (he : e.Valid) {t : Turn Request} {r : RegistryId} {unwinding : Bool}
    (ht : t.action = .dropRegistry r unwinding) :
    (e.turn Request.ask t).state.strings = e.strings ∧
      (e.turn Request.ask t).state.store.handles = e.store.handles := by
  cases hr : e.store.registries.get? r with
  | none =>
    have hq : e.allows t.action = false := by
      rw [ht, allows, hr]
      rfl
    rw [turn_barred hq]
    exact ⟨rfl, rfl⟩
  | some registry =>
    obtain ⟨pools, hclosed⟩ := Store.closed_eq (e.prepared t).store r registry
    rw [he.turn_drop ht hr, hclosed]
    exact ⟨rfl, rfl⟩

end Engine

open Engine in
/-- No pool ends with a live block: one that is gone after a turn was empty before it, or had one string
left and that one was destroyed, and in no turn does a pool complain. At all times each live block, each
registry and each holder has a reference to its pool. A registry that goes leaves all strings in place,
and they can be read, written, moved and destroyed as before. -/
theorem pools_end_empty (ts : List (Turn Request)) :
    let e := start.after Request.ask ts
    (∀ t : Turn Request,
      let o := e.turn Request.ask t
      (∀ block live, .poolLeaked block live ∉ o.events ∧
        o.result ≠ .error (.fault (.poolDropped block live))) ∧
      ∀ p c, e.store.pools.get? p = some c → o.state.store.pools.get? p = none →
        c.pool.len = 0 ∨ c.pool.len = 1 ∧ ∃ h, t.action = .destroy h ∧ o.result = .ok .done ∧
          e.stringsIn p = [h]) ∧
    (∀ p c, e.store.pools.get? p = some c →
      c.references = c.pool.len + e.store.registryReferences p + e.pools.count p + start.lost ts p) ∧
    (∀ (t : Turn Request) r unwinding, t.action = .dropRegistry r unwinding →
      let f := (e.turn Request.ask t).state
      f.strings = e.strings ∧ f.store.handles = e.store.handles ∧
        f.store.contents = e.store.contents) ∧
    ∀ h ∈ e.strings, ∃ p c b, e.Usable h p c b := by
  intro e
  have he : e.Guarded := start_guarded.after ts
  refine ⟨fun t => ⟨fun block live => ⟨fun hm => ?_, fun hr => ?_⟩, fun p c hc hgone => ?_⟩,
    fun p c hc => ?_, fun t r unwinding ht => ?_, fun h hh => he.usable hh⟩
  · have hquiet := (he.turn_quiet t).events _ hm
    cases hquiet
  · have hquiet := (he.turn_quiet t).failure _ hr
    cases hquiet
  · rcases he.ended_empty t hc hgone with hlen | ⟨h, ht, hr, hlast⟩
    · exact .inl hlen
    · refine .inr ⟨?_, h, ht, hr, hlast⟩
      rw [← he.length_stringsIn hc, hlast]
      rfl
  · have hr : e.store.references p = e.store.registryReferences p + e.pools.count p +
        (e.stringsIn p).length + start.lost ts p := references_after ts p
    have hlen : (e.stringsIn p).length = c.pool.len := he.length_stringsIn hc
    rw [Store.references_of_get? hc] at hr
    omega
  · obtain ⟨-, hcontents, -⟩ := turn_step he.toValid t
    obtain ⟨hstrings, hhandles⟩ := he.turn_dropRegistry ht
    refine ⟨hstrings, hhandles, ?_⟩
    rw [hcontents, ht]
    rfl

def orphaned : List (Turn Request) :=
  [⟨.openRegistry 80 (by decide) .mayDropItems, 0, some⟩, ⟨.create ⟨0⟩ 8, 0, some⟩,
    ⟨.dropRegistry ⟨0⟩ false, 0, some⟩]

def orphanDestroyed : Turn Request := ⟨.destroy ⟨0⟩, 0, some⟩

open Engine in
theorem pools_end_empty_orphaned :
    ∃ c, (start.after Request.ask orphaned).store.pools.get? ⟨0⟩ = some c ∧
      ((start.after Request.ask orphaned).turn Request.ask orphanDestroyed).state.store.pools.get? ⟨0⟩ =
        none ∧
      c.references = 1 ∧ c.pool.len = 1 ∧
      (start.after Request.ask orphaned).stringsIn ⟨0⟩ = [⟨0⟩] := by
  have hlive : ((start.after Request.ask orphaned).store.pools.get? ⟨0⟩).map (fun c => c.pool.len) =
      some 1 := by decide +kernel
  have hended : (((start.after Request.ask orphaned).turn
      Request.ask orphanDestroyed).state.store.pools.get? ⟨0⟩).isNone := by decide +kernel
  have hothers : (start.after Request.ask orphaned).store.registryReferences ⟨0⟩ = 0 ∧
      (start.after Request.ask orphaned).pools.count ⟨0⟩ = 0 ∧ start.lost orphaned ⟨0⟩ = 0 := by
    decide +kernel
  obtain ⟨c, hc, hlen⟩ := Option.map_eq_some_iff.mp hlive
  have hgone := Option.isNone_iff_eq_none.mp hended
  obtain ⟨hturn, hcounts, -, -⟩ := pools_end_empty orphaned
  have hcount := hcounts ⟨0⟩ c hc
  obtain ⟨hregistries, hholders, hlost⟩ := hothers
  rw [hlen, hregistries, hholders, hlost] at hcount
  rcases (hturn orphanDestroyed).2 ⟨0⟩ c hc hgone with hempty | ⟨-, h, hdestroy, -, hlast⟩
  · omega
  · cases hdestroy
    exact ⟨c, hc, hgone, hcount, hlen, hlast⟩

end OffRow
