import OffRow.Proofs.Ledger
import Mathlib.Algebra.Order.BigOperators.Group.List
import Mathlib.Data.List.Dedup

namespace OffRow

theorem Registry.sum_poolIds (r : Registry) (f : PoolId → Nat) :
    (r.poolIds.map f).sum = (SizeClass.all.map fun c => (r.pool? c).elim 0 f).sum := by
  rw [Registry.poolIds_eq]
  induction SizeClass.all with
  | nil => rfl
  | cons c cs ih =>
    cases hp : r.pool? c with
    | none => rw [List.filterMap_cons_none hp, List.map_cons, List.sum_cons, hp, ih]; simp
    | some p => rw [List.filterMap_cons_some hp, List.map_cons, List.map_cons, List.sum_cons,
        List.sum_cons, hp, ih, Option.elim_some]

theorem SizeClass.sum_capacity_le :
    (SizeClass.all.map fun c => Word.largest / Pool.stride c).sum ≤ Word.largest := by decide +kernel

namespace Ledger

variable {past : List Report} {r : RegistryId} {c : SizeClass}

def diedIn (past : List Report) (r : RegistryId) : List HandleId :=
  (died past).filter ((bornIn past r).map Birth.handle).contains

theorem sum_class {l : List Birth} (hl : ∀ b ∈ l, ∃ c, b.class? = some c) :
    (SizeClass.all.map fun c => (l.filter (·.class? = some c)).length).sum = l.length := by
  induction l with
  | nil => simp
  | cons b l ih =>
    obtain ⟨⟨d, hd⟩, hl⟩ := List.forall_mem_cons.mp hl
    -- The new string counts once in the sum, for its own class.
    have hb : (SizeClass.all.map fun c => if c = d then 1 else 0).sum = 1 := by
      rw [List.sum_map_eq_nsmul_single d _ fun c hc _ => if_neg hc,
        List.count_eq_one_of_mem SizeClass.nodup_all (SizeClass.mem_all d)]
      simp
    have hcons : ∀ c, ((b :: l).filter (·.class? = some c)).length =
        (if c = d then 1 else 0) + (l.filter (·.class? = some c)).length := by
      intro c
      rw [List.filter_cons, hd]
      by_cases hcd : c = d
      · simp [hcd, Nat.add_comm]
      · simp [hcd, Ne.symm hcd]
    simp only [hcons, List.sum_map_add, hb, ih hl, List.length_cons]
    omega

end Ledger

open Ledger Store

namespace Engine

variable {e : Engine} {b : Birth} {h : HandleId} {r : RegistryId} {c : SizeClass} {p : PoolId}
  {past : List Report} {registry : Registry}

theorem Routed.liveIn_le (he : e.Routed) (hp : e.store.poolFor r c = some p) :
    e.store.liveIn p ≤ Word.largest / Pool.stride c := by
  obtain ⟨cell, hcell⟩ := he.exists_poolFor hp
  have hw := he.consistent.wellFormed p cell hcell
  have hs := hw.stride_mul_capacity_le
  rw [he.classed hp hcell] at hs
  have hpos : 0 < Pool.stride c := by
    have hle := Pool.le_stride c
    unfold Pool.headerSize at hle
    omega
  rw [liveIn_of_get? hcell, Nat.le_div_iff_mul_le hpos, Nat.mul_comm]
  exact Nat.le_trans (Nat.mul_le_mul_left _ hw.len_le) hs

theorem Routed.liveBlocks_eq (he : e.Routed) (hr : e.store.registries.get? r = some registry) :
    e.store.liveBlocks registry =
      (SizeClass.all.map fun c => (e.store.poolFor r c).elim 0 e.store.liveIn).sum := by
  have hle : (SizeClass.all.map fun c => (e.store.poolFor r c).elim 0 e.store.liveIn).sum ≤
      Word.largest := by
    refine Nat.le_trans (List.sum_le_sum fun c _ => ?_) SizeClass.sum_capacity_le
    cases hp : e.store.poolFor r c with
    | none => exact Nat.zero_le _
    | some p => exact he.liveIn_le hp
  have hsum : (registry.poolIds.map e.store.liveIn).sum =
      (SizeClass.all.map fun c => (e.store.poolFor r c).elim 0 e.store.liveIn).sum := by
    simp only [registry.sum_poolIds, poolFor_of_get? hr]
  rw [liveBlocks, Pool.foldl_satAdd _ _ (by rw [hsum, Nat.zero_add]; exact hle), hsum, Nat.zero_add]

namespace Balanced

theorem mem_stringsIn (he : e.Balanced past) (hp : e.store.poolFor r c = some p) (h : HandleId) :
    h ∈ e.stringsIn p ↔ h ∈ (remainingOf past r c).map Birth.handle := by
  rw [stringsIn, List.mem_filter, he.living, decide_eq_true_iff, List.mem_map]
  constructor
  · rintro ⟨⟨⟨b, hb, rfl⟩, hdied⟩, hpool⟩
    obtain ⟨d, q, hhouses⟩ := he.housed b hb hdied
    cases hhouses.pool_eq.symm.trans hpool
    obtain ⟨rfl, rfl⟩ := hhouses.only hp
    exact ⟨b, mem_remainingOf.mpr ⟨hb, rfl, hdied, hhouses.class_eq⟩, rfl⟩
  · rintro ⟨b, hleft, rfl⟩
    obtain ⟨hb, rfl, hdied, hclass⟩ := mem_remainingOf.mp hleft
    obtain ⟨d, q, hhouses⟩ := he.housed b hb hdied
    cases hhouses.class_eq.symm.trans hclass
    obtain ⟨registry, hr, -⟩ := poolFor_eq_some.mp hp
    cases (hhouses.routed (by rw [hr]; rfl)).symm.trans hp
    exact ⟨⟨⟨b, hb, rfl⟩, hdied⟩, hhouses.pool_eq⟩

theorem nodup_remainingOf (he : e.Balanced past) : ((remainingOf past r c).map Birth.handle).Nodup :=
  he.distinct.sublist
    (((List.filter_sublist.trans List.filter_sublist).trans List.filter_sublist).map Birth.handle)

theorem length_remainingOf (he : e.Balanced past) (hr : (e.store.registries.get? r).isSome)
    (c : SizeClass) :
    (remainingOf past r c).length = (e.store.poolFor r c).elim 0 e.store.liveIn := by
  cases hp : e.store.poolFor r c with
  | none =>
    rw [Option.elim_none, List.length_eq_zero_iff, List.eq_nil_iff_forall_not_mem]
    intro b hleft
    obtain ⟨hb, rfl, hdied, hclass⟩ := mem_remainingOf.mp hleft
    obtain ⟨d, q, hhouses⟩ := he.housed b hb hdied
    cases hhouses.class_eq.symm.trans hclass
    cases (hhouses.routed hr).symm.trans hp
  | some p =>
    obtain ⟨cell, hcell⟩ := he.exists_poolFor hp
    have hnodup : (e.stringsIn p).Nodup := he.nodup.filter _
    have hperm := (List.perm_ext_iff_of_nodup hnodup he.nodup_remainingOf).mpr (he.mem_stringsIn hp)
    rw [Option.elim_some, liveIn_of_get? hcell, ← he.length_stringsIn hcell, hperm.length_eq,
      List.length_map]

theorem liveBlocks_eq (he : e.Balanced past) (hr : e.store.registries.get? r = some registry) :
    e.store.liveBlocks registry = (remaining past r).length := by
  have hclass : ∀ b ∈ remaining past r, ∃ c, b.class? = some c := by
    intro b hleft
    obtain ⟨hb, -, hdied⟩ := mem_remaining.mp hleft
    obtain ⟨c, p, hhouses⟩ := he.housed b hb hdied
    exact ⟨c, hhouses.class_eq⟩
  rw [he.toRouted.liveBlocks_eq hr, ← sum_class hclass]
  simp only [← he.length_remainingOf (r := r) (by rw [hr]; rfl)]
  rfl

theorem length_bornIn (he : e.Balanced past) :
    (remaining past r).length + (diedIn past r).length = (bornIn past r).length := by
  have hmem : ∀ h, h ∈ diedIn past r ↔
      h ∈ ((bornIn past r).filter (·.handle ∈ died past)).map Birth.handle := by
    intro h
    simp only [diedIn, List.mem_filter, List.contains_eq_mem, List.mem_map, decide_eq_true_eq]
    constructor
    · rintro ⟨hdied, b, hb, rfl⟩
      exact ⟨b, ⟨hb, hdied⟩, rfl⟩
    · rintro ⟨b, ⟨hb, hdied⟩, rfl⟩
      exact ⟨hdied, b, hb, rfl⟩
  have hnodup : (((bornIn past r).filter (·.handle ∈ died past)).map Birth.handle).Nodup :=
    he.distinct.sublist ((List.filter_sublist.trans List.filter_sublist).map Birth.handle)
  have hperm := (List.perm_ext_iff_of_nodup (he.once.filter _) hnodup).mpr hmem
  rw [diedIn, hperm.length_eq, List.length_map, remaining, Nat.add_comm,
    List.length_eq_countP_add_countP (·.handle ∈ died past) (l := bornIn past r),
    List.countP_eq_length_filter, List.countP_eq_length_filter]
  simp

theorem poolCount_eq (he : e.Balanced past) (hr : e.store.registries.get? r = some registry) :
    poolCount registry = (asked past r).dedup.length := by
  have hmem : ∀ c, c ∈ SizeClass.all.filter (fun c => (registry.pool? c).isSome) ↔
      c ∈ (asked past r).dedup := by
    intro c
    rw [List.mem_filter, List.mem_dedup, he.asked_iff r c (by rw [hr]; rfl), poolFor_of_get? hr]
    exact and_iff_right (SizeClass.mem_all c)
  have hperm := (List.perm_ext_iff_of_nodup (SizeClass.nodup_all.filter _)
    (List.nodup_dedup _)).mpr hmem
  rw [poolCount, Registry.poolIds_eq, List.length_filterMap_eq_countP,
    List.countP_eq_length_filter, hperm.length_eq]

end Balanced

theorem Valid.hold_result (he : e.Valid) (hr : e.store.registries.get? r = some registry)
    (c : SizeClass) :
    ∃ p, ((hold (poolForClass r c)).run e).result = .ok (.pool p) ∧
      ((hold (poolForClass r c)).run e).state.store.poolFor r c = some p := by
  obtain ⟨p, s, events, hrun, hs, -, ⟨cell, hcell⟩, hp⟩ := poolForClass_run he.consistent hr c
  have hstore := onStore_run e (poolForClass r c >>= fun p => acquire p >>= fun _ => pure p)
  rw [Op.run_bind_ok hrun, Op.run_bind_silent (acquire_run hcell), Op.run_pure] at hstore
  refine ⟨p, ?_⟩
  rw [hold, Op.run_bind_ok hstore, Op.run_modify_bind, Op.run_pure]
  exact ⟨rfl, hp⟩

theorem Valid.turn_hold (he : e.Valid) (hr : (e.store.registries.get? r).isSome) {t : Turn Request}
    (ha : t.action.asks? = some (r, c)) (hc : t.action.creates = false) :
    ∃ p, (e.turn Request.ask t).result = .ok (.pool p) ∧
      (e.turn Request.ask t).state.store.poolFor r c = some p := by
  have hq : e.allows t.action = true := (allows_asks ha).trans hr
  obtain ⟨registry, hregistry⟩ := Option.isSome_iff_exists.mp hr
  have hhold := (he.prepared t).hold_result hregistry c
  rw [turn_allowed hq]
  obtain ht | ⟨size, hk, ht | ht⟩ := Request.asks?_eq_some.mp ha
  · rw [ht]
    exact hhold
  · rw [ht, Request.perform, poolForSize_eq hk]
    exact hhold
  · rw [ht] at hc
    cases hc

theorem Routed.turn_asks (he : e.Routed) (hr : (e.store.registries.get? r).isSome) {t : Turn Request}
    (ha : t.action.asks? = some (r, c)) :
    ∃ p, (e.turn Request.ask t).state.store.poolFor r c = some p ∧
      (∀ q, e.store.poolFor r c = some q → q = p) ∧
      (t.action.creates = false → (e.turn Request.ask t).result = .ok (.pool p)) ∧
      ∀ h, (e.turn Request.ask t).result = .ok (.string h) →
        (e.turn Request.ask t).state.poolOf h = some p := by
  have hq : e.allows t.action = true := (allows_asks ha).trans hr
  have hkept : ∀ unwinding, t.action ≠ .dropRegistry r unwinding := by
    intro unwinding ht
    rw [ht] at ha
    cases ha
  have hpool : ∃ p, (e.turn Request.ask t).state.store.poolFor r c = some p := by
    cases hp : e.store.poolFor r c with
    | some p => exact ⟨p, (he.turn_poolFor t).mpr (.inl ⟨hp, hkept⟩)⟩
    | none => exact ⟨_, (he.turn_poolFor t).mpr (.inr ⟨hq, ha, hp, rfl⟩)⟩
  obtain ⟨p, hp⟩ := hpool
  refine ⟨p, hp, fun q hold => ?_, fun hc => ?_, fun h hh => ?_⟩
  · cases ((he.turn_poolFor t).mpr (.inl ⟨hold, hkept⟩)).symm.trans hp
    rfl
  · obtain ⟨q, hresult, hq⟩ := he.toValid.turn_hold hr ha hc
    cases hq.symm.trans hp
    exact hresult
  · have hcreates : t.action.creates = true := by
      by_contra hc
      obtain ⟨q, hresult, -⟩ := he.toValid.turn_hold hr ha (eq_false_of_ne_true hc)
      rw [hh] at hresult
      cases hresult
    obtain ht | ⟨size, hk, ht | ht⟩ := Request.asks?_eq_some.mp ha
    · rw [ht] at hcreates
      cases hcreates
    · rw [ht] at hcreates
      cases hcreates
    · have hb : Report.birth? (t.action, (e.turn Request.ask t).result) = some ⟨r, size, h⟩ := by
        rw [ht, hh]
        rfl
      obtain ⟨-, -, d, q, hhouses⟩ := he.turn_birth hb
      have hclass := hhouses.class_eq
      rw [Birth.class?, hk] at hclass
      cases hclass
      cases (hhouses.routed ((he.turn_live t).mpr (.inl ⟨hr, hkept⟩))).symm.trans hp
      exact hhouses.pool_eq

theorem turn_invalid {t : Turn Request} {size : Nat} {cause : Error}
    (hr : (e.store.registries.get? r).isSome) (hk : SizeClass.forSize size = .error cause)
    (ht : t.action = .holdSize r size ∨ t.action = .create r size) :
    e.turn Request.ask t = ⟨.error (.error cause), e.prepared t, []⟩ := by
  have hq : e.allows t.action = true := by
    rcases ht with ht | ht <;> rw [ht] <;> exact hr
  have hpool : (poolForSize r size).run (e.prepared t).store =
      ⟨.error (.error cause), (e.prepared t).store, []⟩ := by
    rw [poolForSize, hk]
    rfl
  rw [turn_allowed hq]
  rcases ht with ht | ht
  · have hrun := onStore_run (e.prepared t) (poolForSize r size >>= fun p => acquire p >>= fun _ => pure p)
    rw [Op.run_bind_error hpool] at hrun
    rw [ht, Request.perform, hold, Op.run_bind_error hrun]
  · have hrun := onStore_run (e.prepared t) (Store.create r size)
    rw [Store.create, Op.run_bind_error hpool] at hrun
    rw [ht, Request.perform, receive, Store.create, Op.run_bind_error hrun]

theorem Routed.same_pool (he : e.Routed) (hr : (e.store.registries.get? r).isSome)
    {t u : Turn Request} {us : List (Turn Request)} {d : SizeClass}
    (ht : t.action.asks? = some (r, c)) (hu : u.action.asks? = some (r, d))
    (hct : t.action.creates = false) (hcu : u.action.creates = false)
    (hlive : (((e.turn Request.ask t).state.after Request.ask us).store.registries.get? r).isSome) :
    ∃ p q, (e.turn Request.ask t).result = .ok (.pool p) ∧
      (((e.turn Request.ask t).state.after Request.ask us).turn Request.ask u).result = .ok (.pool q) ∧
      (p = q ↔ c = d) := by
  have hf := (he.turn t).after us
  obtain ⟨p, hp, -, hresult, -⟩ := he.turn_asks hr ht
  obtain ⟨q, hq, hsame, hresult', -⟩ := hf.turn_asks hlive hu
  have hp' := (he.turn t).poolFor_after hp hlive
  have hp'' := (hf.turn_poolFor u).mpr (.inl ⟨hp', fun unwinding hdrop => ?_⟩)
  · refine ⟨p, q, hresult hct, hresult' hcu, ?_, ?_⟩
    · rintro rfl
      exact (hf.turn u).injective hp'' hq |>.2
    · rintro rfl
      exact hsame p hp'
  · rw [hdrop] at hu
    cases hu

end Engine

open Engine in
/-- As long as a registry is there, each class has at most one pool, the same for all requests; a size
that has no class opens none. Two sizes share a pool if and only if they are of one class, and each
string is in the pool of its class. The registry counts the classes that it was ever asked for, and of
the strings that were created through it those that were not destroyed. -/
theorem registry_accounts (ts : List (Turn Request)) (hp : ∀ t ∈ ts, t.action.isPublic = true)
    {r : RegistryId} {registry : Registry}
    (hr : (start.after Request.ask ts).store.registries.get? r = some registry) :
    let e := start.after Request.ask ts
    let past := start.reports Request.ask ts
    (∀ (t : Turn Request) c, t.action.asks? = some (r, c) →
      let o := e.turn Request.ask t
      ∃ p, o.state.store.poolFor r c = some p ∧ (∀ q, e.store.poolFor r c = some q → q = p) ∧
        (t.action.creates = false → o.result = .ok (.pool p)) ∧
        ∀ h, o.result = .ok (.string h) → o.state.poolOf h = some p) ∧
    (∀ (t : Turn Request) size cause, SizeClass.forSize size = .error cause →
      t.action = .holdSize r size ∨ t.action = .create r size →
      e.turn Request.ask t = ⟨.error (.error cause), e.prepared t, []⟩) ∧
    (∀ us c p, e.store.poolFor r c = some p →
      ((e.after Request.ask us).store.registries.get? r).isSome →
      (e.after Request.ask us).store.poolFor r c = some p) ∧
    (∀ (t u : Turn Request) us a b c d, t.action = .holdSize r a → u.action = .holdSize r b →
      SizeClass.forSize a = .ok c → SizeClass.forSize b = .ok d →
      let f := (e.turn Request.ask t).state.after Request.ask us
      (f.store.registries.get? r).isSome →
      ∃ p q, (e.turn Request.ask t).result = .ok (.pool p) ∧
        (f.turn Request.ask u).result = .ok (.pool q) ∧
        (p = q ↔ SizeClass.forSize a = SizeClass.forSize b)) ∧
    (∀ b ∈ remaining past r, ∃ c p, SizeClass.forSize b.size = .ok c ∧
      e.store.poolFor r c = some p ∧ e.poolOf b.handle = some p) ∧
    Store.poolCount registry = (asked past r).dedup.length ∧
    e.store.liveBlocks registry = (remaining past r).length ∧
    e.store.liveBlocks registry + (diedIn past r).length = (bornIn past r).length := by
  intro e past
  have he : e.Balanced past := balanced_after hp
  have hlive : (e.store.registries.get? r).isSome := by
    rw [show e.store.registries.get? r = some registry from hr]
    rfl
  refine ⟨fun t c ha => he.turn_asks hlive ha, fun t size cause hk ht => turn_invalid hlive hk ht,
    fun us c p hpool hafter => he.poolFor_after hpool hafter, ?_, ?_, he.poolCount_eq hr,
    he.liveBlocks_eq hr, ?_⟩
  · intro t u us a b c d ht hu hc hd f hf
    have hasks : ∀ {q : Request} {size k}, q = .holdSize r size → SizeClass.forSize size = .ok k →
        q.asks? = some (r, k) := fun hq hk => Request.asks?_eq_some.mpr (.inr ⟨_, hk, .inl hq⟩)
    obtain ⟨p, q, hp, hq, hiff⟩ := he.toRouted.same_pool hlive (hasks ht hc) (hasks hu hd)
      (by rw [ht]; rfl) (by rw [hu]; rfl) hf
    refine ⟨p, q, hp, hq, ?_⟩
    rw [hc, hd, hiff, Except.ok.injEq]
  · intro b hb
    obtain ⟨hborn, hregistry, hdied⟩ := mem_remaining.mp hb
    obtain ⟨c, p, hhouses⟩ := he.housed b hborn hdied
    have hrouted := hhouses.routed (hregistry ▸ hlive)
    refine ⟨c, p, ?_, hregistry ▸ hrouted, hhouses.pool_eq⟩
    have hclass := hhouses.class_eq
    unfold Birth.class? at hclass
    cases hk : SizeClass.forSize b.size with
    | error cause =>
      rw [hk] at hclass
      cases hclass
    | ok d =>
      rw [hk] at hclass
      cases hclass
      rfl
  · rw [he.liveBlocks_eq hr]
    exact he.length_bornIn

def mixedRun : List (Turn Request) :=
  [⟨.openRegistry 192 (by decide) .mayDropItems, 0, some⟩, ⟨.create ⟨0⟩ 8, 0, some⟩,
    ⟨.create ⟨0⟩ 20, 0, some⟩, ⟨.holdClass ⟨0⟩ ⟨5, by decide⟩, 0, some⟩, ⟨.create ⟨0⟩ 0, 0, some⟩,
    ⟨.intoRaw ⟨0⟩, 0, some⟩, ⟨.destroy ⟨1⟩, 0, some⟩, ⟨.create ⟨0⟩ 10, 0, some⟩]

theorem registry_accounts_mixed :
    ∃ registry, (Engine.start.after Request.ask mixedRun).store.registries.get? ⟨0⟩ = some registry ∧
      Store.poolCount registry = 4 ∧
      (Engine.start.after Request.ask mixedRun).store.liveBlocks registry = 2 := by
  have hlive : ((Engine.start.after Request.ask mixedRun).store.registries.get? ⟨0⟩).isSome := by
    decide +kernel
  have hpublic : ∀ t ∈ mixedRun, t.action.isPublic = true := by decide
  have hasked : (asked (Engine.start.reports Request.ask mixedRun) ⟨0⟩).dedup.length = 4 := by
    decide +kernel
  have hremaining : (remaining (Engine.start.reports Request.ask mixedRun) ⟨0⟩).length = 2 := by
    decide +kernel
  obtain ⟨registry, hr⟩ := Option.isSome_iff_exists.mp hlive
  obtain ⟨-, -, -, -, -, hcount, hblocks, -⟩ := registry_accounts mixedRun hpublic hr
  exact ⟨registry, hr, hcount.trans hasked, hblocks.trans hremaining⟩

end OffRow
