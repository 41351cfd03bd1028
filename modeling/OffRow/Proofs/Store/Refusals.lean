import OffRow.Proofs.Store.Creation

namespace OffRow

def Failure.isRefusal : Failure → Bool
  | .error _ => true
  | .fault cause =>
    match cause with
    | .poolInUse | .wrongThread _ | .sizeExceedsBlock | .notLive .. | .temporaryReclaimed => true
    | _ => false

namespace Store

/-- What a creation in `p` leaves when it has failed: an error takes the new handle back, but after a
fault it stays where it is, nowhere, and holds the pool. -/
def abandoned (s : Store) (p : PoolId) (size : Nat) : Failure → Store
  | .error _ => { s with handles := (s.handles.add (.pooled p size)).erase s.handles.next }
  | .fault _ => s.withOrphan p size

/-- What is left of `s` after a string could not be created through registry `r`. The pool of its
class is there from then on. -/
def uncreated (s : Store) (r : RegistryId) (size : Nat) (failure : Failure) : Store :=
  match SizeClass.forSize size, s.registries.get? r with
  | .ok k, some registry =>
    match registry.pool? k with
    | some p => s.abandoned p size failure
    | none => (s.opened r registry k).abandoned s.pools.next size failure
  | _, _ => s

def disowned (s : Store) (h : HandleId) : Store :=
  { s with handles := s.handles.modify h fun a => { a with owned := false } }

/-- What is in `s` is in `t`, but for the references to the pools and the owners of the handles, and
the pools that only `t` has are empty. -/
structure Kept (s t : Store) : Prop where
  pools : ∀ {p c}, s.pools.get? p = some c → ∃ references, t.pools.get? p = some { c with references }
  handles : ∀ {h a}, s.handles.get? h = some a → ∃ owned, t.handles.get? h = some { a with owned }
  newPools : ∀ {p d}, t.pools.get? p = some d → s.pools.get? p = none →
    d.pool.chunks = #[] ∧ d.pool.len = 0
  arenas_eq : t.arenas = s.arenas

variable {s t : Store} {p : PoolId} {c : SharedPool} {h : HandleId} {size : Nat} {failure : Failure}

namespace Kept

theorem refl (s : Store) : s.Kept s where
  pools hp := ⟨_, hp⟩
  handles hh := ⟨_, hh⟩
  newPools hp hn := by
    rw [hn] at hp
    cases hp
  arenas_eq := rfl

theorem abandoned (ht : s.Kept t) (p : PoolId) (size : Nat) (failure : Failure) :
    s.Kept (t.abandoned p size failure) := by
  have hadd : ∀ {h a}, s.handles.get? h = some a →
      ∃ owned, (t.handles.add (.pooled p size)).get? h = some { a with owned } := by
    intro h a hh
    obtain ⟨owned, ha⟩ := ht.handles hh
    exact ⟨owned, (Table.get?_add _ _ _).trans ((if_neg (get?_ne_next ha)).trans ha)⟩
  cases failure with
  | error cause =>
    refine ⟨ht.pools, fun {h a} hh => ?_, ht.newPools, ht.arenas_eq⟩
    obtain ⟨owned, ha⟩ := ht.handles hh
    obtain ⟨owned', ha'⟩ := hadd hh
    have hne : t.handles.next ≠ h := (get?_ne_next ha).symm
    exact ⟨owned', (Table.get?_erase _ _ _).trans ((if_neg hne).trans ha')⟩
  | fault cause =>
    refine ⟨fun {q c} hq => ?_, hadd, fun {q d} hq hn => ?_, ht.arenas_eq⟩
    · obtain ⟨references, hc⟩ := ht.pools hq
      change ∃ references, (t.pools.modify p _).get? q = _
      rw [Table.get?_modify, hc]
      split
      · exact ⟨references + 1, rfl⟩
      · exact ⟨references, rfl⟩
    · have hq : (t.pools.modify p _).get? q = some d := hq
      rw [Table.get?_modify] at hq
      split at hq
      · obtain ⟨c, hc, rfl⟩ := Option.map_eq_some_iff.mp hq
        have hempty := ht.newPools hc hn
        exact hempty
      · exact ht.newPools hq hn

theorem disowned (s : Store) (h : HandleId) : s.Kept (s.disowned h) where
  pools hp := ⟨_, hp⟩
  handles {x a} hx := by
    change ∃ owned, (s.handles.modify h _).get? x = _
    rw [Table.get?_modify, hx]
    split
    · exact ⟨false, rfl⟩
    · exact ⟨a.owned, rfl⟩
  newPools hp hn := by
    rw [show s.pools.get? _ = some _ from hp] at hn
    cases hn
  arenas_eq := rfl

theorem opened (s : Store) (r : RegistryId) (registry : Registry) (k : SizeClass) :
    s.Kept (s.opened r registry k) where
  pools {q c} hq := by
    have hne : q ≠ s.pools.next := by
      rintro rfl
      rw [Table.get?_next] at hq
      cases hq
    exact ⟨c.references, (get?_opened s r registry k q).trans ((if_neg hne).trans hq)⟩
  handles hh := ⟨_, hh⟩
  newPools {q d} hq hn := by
    rw [get?_opened] at hq
    split at hq
    · cases hq
      exact ⟨rfl, rfl⟩
    · rw [hn] at hq
      cases hq
  arenas_eq := rfl

theorem bytes?_eq (ht : s.Kept t) (a : Handle) : t.bytes? a = s.bytes? a := by
  unfold bytes?
  cases a.location with
  | nowhere => rfl
  | scratch b w => simp only [ht.arenas_eq]
  | block p w =>
    have hslot : (t.pools.get? p).bind (·.pool.slot? w) = (s.pools.get? p).bind (·.pool.slot? w) := by
      cases hp : s.pools.get? p with
      | some c =>
        obtain ⟨references, hc⟩ := ht.pools hp
        rw [hc]
        rfl
      | none =>
        cases hq : t.pools.get? p with
        | none => rfl
        | some d =>
          obtain ⟨hempty, -⟩ := ht.newPools hq hp
          simp [Pool.slot?, hempty]
    simp only [hslot]

end Kept

theorem released_withoutHandle (hp : s.pools.get? p = some c) (hr : 0 < c.references) :
    ((s.withOrphan p size).withoutHandle s.handles.next).released p =
      { s with handles := (s.handles.add (.pooled p size)).erase s.handles.next } := by
  have hp' : ((s.withOrphan p size).withoutHandle s.handles.next).pools.get? p =
      some { c with references := c.references + 1 } := get?_acquired hp
  have hrefs : 1 < references ((s.withOrphan p size).withoutHandle s.handles.next) p := by
    rw [references_of_get? hp']
    exact Nat.succ_lt_succ hr
  have hpools : (s.pools.modify p fun c => { c with references := c.references + 1 }).modify p
      (fun c => { c with references := c.references - 1 }) = s.pools := by
    rw [Table.modify_modify]
    exact Table.modify_eq_self fun _ _ => rfl
  rw [released, if_neg (Nat.not_le_of_lt hrefs)]
  exact congrArg (fun pools => { s with
    pools, handles := (s.handles.add (.pooled p size)).erase s.handles.next }) hpools

theorem createIn_refused (hw : s.WellFormed) (hr : ∀ p c, s.pools.get? p = some c → 0 < c.references)
    (hf : ((createIn p size).run s).result = .error failure) (href : failure.isRefusal = true) :
    ((createIn p size).run s).state = s.abandoned p size failure := by
  cases hp : s.pools.get? p with
  | none =>
    rw [createIn, Op.run_bind_error (acquire_run_none hp)] at hf
    cases hf
    cases href
  | some c =>
    have hrun := createIn_run hp (hw p c hp) (hr p c hp) size
    simp only at hrun
    rw [hrun] at hf ⊢
    split_ifs at hf ⊢
    · cases hf
      rfl
    · cases hf
      rfl
    · cases hf
      rfl
    · cases hf
      exact released_withoutHandle hp (hr p c hp)

theorem poolForSize_cases (s : Store) (r : RegistryId) (size : Nat) :
    (∃ failure, ((s.registries.get? r).isSome = true → failure.isRefusal = true) ∧
        (poolForSize r size).run s = ⟨.error failure, s, []⟩) ∨
      (∃ p k registry, s.registries.get? r = some registry ∧ registry.pool? k = some p ∧
        (poolForSize r size).run s = ⟨.ok p, s, []⟩) ∨
      ∃ k registry, SizeClass.forSize size = .ok k ∧ s.registries.get? r = some registry ∧
        registry.pool? k = none ∧ (poolForSize r size).run s =
          ⟨.ok s.pools.next, s.opened r registry k, [.poolCreated k.blockSize]⟩ := by
  rw [poolForSize]
  cases hk : SizeClass.forSize size with
  | error e => exact .inl ⟨.error e, fun _ => rfl, rfl⟩
  | ok k =>
    rw [Op.run_ofExcept_ok_bind]
    cases hr : s.registries.get? r with
    | none =>
      rw [poolForClass, Op.run_bind_error (registry_run_none hr)]
      exact .inl ⟨_, fun hsome => absurd hsome Bool.false_ne_true, rfl⟩
    | some registry =>
      cases hp : registry.pool? k with
      | some p => exact .inr (.inl ⟨p, k, registry, rfl, hp, poolForClass_known hr hp⟩)
      | none => exact .inr (.inr ⟨k, registry, rfl, rfl, hp, poolForClass_fresh hr hp⟩)

theorem create_refused {r : RegistryId} (hw : s.WellFormed)
    (hr : ∀ p c, s.pools.get? p = some c → 0 < c.references)
    (hf : ((create r size).run s).result = .error failure) (href : failure.isRefusal = true) :
    ((create r size).run s).state = s.uncreated r size failure := by
  unfold uncreated
  cases hk : SizeClass.forSize size with
  | error e => rw [create, poolForSize, hk, Op.run_bind_error (Op.run_ofExcept_error_bind s e _)]
  | ok k =>
    cases hreg : s.registries.get? r with
    | none =>
      have hpool : (poolForSize r size).run s = ⟨.error (.fault .dangling), s, []⟩ := by
        rw [poolForSize, hk, Op.run_ofExcept_ok_bind, poolForClass]
        exact Op.run_bind_error (registry_run_none hreg)
      rw [create, Op.run_bind_error hpool]
    | some registry =>
      cases hp : registry.pool? k with
      | some p =>
        rw [create_known hreg hk hp] at hf ⊢
        simp only [hp]
        exact createIn_refused hw hr hf href
      | none =>
        rw [create_fresh hreg hk hp] at hf ⊢
        simp only [hp]
        refine createIn_refused (fun q c hq => ?_) (fun q c hq => ?_) hf href
        · rw [get?_opened] at hq
          split at hq
          · cases hq
            exact Pool.new_wellFormed _ _ _ _
          · exact hw q c hq
        · rw [get?_opened] at hq
          split at hq
          · cases hq
            exact Nat.one_pos
          · exact hr q c hq

theorem Kept.uncreated (s : Store) (r : RegistryId) (size : Nat) (failure : Failure) :
    s.Kept (s.uncreated r size failure) := by
  unfold Store.uncreated
  split
  · split
    · exact (Kept.refl s).abandoned _ _ _
    · exact (Kept.opened s _ _ _).abandoned _ _ _
  · exact .refl s

theorem hold_refused {r : RegistryId}
    (hf : ((poolForSize r size >>= fun p => do acquire p; pure p).run s).result = .error failure) :
    ((poolForSize r size >>= fun p => do acquire p; pure p).run s).state = s := by
  rcases poolForSize_cases s r size with
    ⟨e, -, hrun⟩ | ⟨p, -, -, -, -, hrun⟩ | ⟨k, registry, -, -, -, hrun⟩
  · rw [Op.run_bind_error hrun]
  · rw [Op.run_bind_silent hrun] at hf ⊢
    cases hp : s.pools.get? p with
    | none => rw [Op.run_bind_error (acquire_run_none hp)]
    | some c =>
      rw [Op.run_bind_silent (acquire_run hp)] at hf
      cases hf
  · have hp := (get?_opened s r registry k s.pools.next).trans (if_pos rfl)
    rw [Op.run_bind_ok hrun, Op.run_bind_silent (acquire_run hp)] at hf
    cases hf

theorem fromRaw_refused (hf : ((fromRaw h).run s).result = .error failure) :
    ((fromRaw h).run s).state = s := by
  cases hh : s.handles.get? h with
  | none => rw [fromRaw, Op.run_bind_error (handle_run_none hh)]
  | some a =>
    rw [fromRaw, Op.run_bind_silent (handle_run hh)] at hf ⊢
    by_cases ht : a.temporary = false
    · rw [Op.run_ensure_bind_pos s ht] at hf
      cases hf
    · rw [Op.run_ensure_bind_neg s ht]

theorem checkUnused_refused {α : Type} {x : Op Store α}
    (hx : (x.run s).result = .error failure → (x.run s).state = s)
    (hf : ((checkUnused p >>= fun _ => x).run s).result = .error failure) :
    ((checkUnused p >>= fun _ => x).run s).state = s := by
  rcases checkUnused_bind s p x with ⟨cause, -, hrun⟩ | ⟨c, -, -, hrun⟩
  · rw [hrun]
  · rw [hrun] at hf ⊢
    exact hx hf

theorem shrinkToFit_refused (hw : s.WellFormed)
    (hf : ((shrinkToFit p).run s).result = .error failure) : ((shrinkToFit p).run s).state = s := by
  rw [shrinkToFit] at hf ⊢
  cases hp : s.pools.get? p with
  | none => rw [onPool_run_none hp]
  | some c =>
    rw [onPool_run hp, Pool.shrinkToFit_run (hw p c hp).toShaped] at hf
    cases hf

theorem allocateBlock_refused {owner : HandleId} (hw : s.WellFormed)
    (hf : ((allocateBlock p owner).run s).result = .error failure) :
    ((allocateBlock p owner).run s).state = s := by
  cases hp : s.pools.get? p with
  | none => rw [allocateBlock, Op.run_get_bind, onPool_run_none hp]
  | some c =>
    rw [allocateBlock_run hp (hw p c hp)] at hf ⊢
    split
    · rfl
    · next ht =>
      rw [if_neg ht] at hf
      split
      · next hg =>
        rw [if_pos hg] at hf
        cases hf
      · rfl

theorem freeBlock_refused {payload : Address} {owner : HandleId} (hw : s.WellFormed)
    (hf : ((freeBlock p payload owner).run s).result = .error failure)
    (hr : failure.isRefusal = true) : ((freeBlock p payload owner).run s).state = s := by
  cases hp : s.pools.get? p with
  | none => rw [freeBlock, Op.run_get_bind, Op.run_bind_error (onPool_run_none hp _)]
  | some c =>
    have hfreeing := freeBlock_freeing hp (hw p c hp) payload owner
    generalize (freeBlock p payload owner).run s = o at hfreeing hf
    cases hfreeing with
    | refused _ => rfl
    | last _ _ => cases hf
    | stuck _ _ _ hcause =>
      -- The pool has changed by then, but this is not a refusal.
      cases hf
      rcases hcause with rfl | rfl <;> cases hr
    | moved _ _ _ => cases hf

theorem release_not_refused (unwinding : Bool) (p : PoolId) :
    Op.Safe (fun _ => True) (fun failure => failure.isRefusal = false) (release unwinding p) := by
  refine Custody.release ⟨fun _ _ => trivial, fun _ _ => trivial, fun _ => trivial, ?_⟩ unwinding p
  intro cause hc
  cases cause with
  | dangling | poolDropped _ _ | registryDropped _ => rfl
  | _ => cases hc

theorem destroy_refused (hw : s.WellFormed) (hf : ((destroy h).run s).result = .error failure)
    (href : failure.isRefusal = true) : ((destroy h).run s).state = s.disowned h := by
  cases hh : s.handles.get? h with
  | none =>
    rw [destroy, Op.run_bind_error (handle_run_none hh)] at hf
    cases hf
    cases href
  | some a =>
    have hmodify : (modifyHandle h fun a => { a with owned := false }).run s =
      ⟨.ok (), s.disowned h, []⟩ := rfl
    rw [destroy, Op.run_bind_silent (handle_run hh), Op.run_bind_silent hmodify] at hf ⊢
    cases hpool : a.pool with
    | none => rfl
    | some p =>
      simp only [hpool, Op.run_expect_some_bind] at hf ⊢
      rcases checkUnused_bind (s.disowned h) p
          (do freeBlock p a.location h; eraseHandle h; release false p) with
        ⟨cause, -, hrun⟩ | ⟨c, -, -, hrun⟩
      · rw [hrun]
      rw [hrun] at hf ⊢
      cases hfree : (freeBlock p a.location h).run (s.disowned h) with
      | mk result u events =>
        cases result with
        | error cause =>
          rw [Op.run_bind_error hfree] at hf ⊢
          cases hf
          have hstate := freeBlock_refused (s := s.disowned h) hw (congrArg Outcome.result hfree) href
          rwa [hfree] at hstate
        | ok _ =>
          -- Past the block, only the end of the pool can fail.
          have herase : (eraseHandle h).run u = ⟨.ok (), u.withoutHandle h, []⟩ := rfl
          rw [Op.run_bind_ok hfree, Op.run_bind_silent herase] at hf
          have hnot : failure.isRefusal = false := (release_not_refused false p _ trivial).failure failure hf
          rw [href] at hnot
          cases hnot

variable {held : List PoolId}

theorem createIn_isRefusal (hp : s.pools.get? p = some c) (hw : c.pool.WellFormed)
    (hr : 0 < c.references) (hf : ((createIn p size).run s).result = .error failure) :
    failure.isRefusal = true := by
  have hrun := createIn_run hp hw hr size
  simp only at hrun
  rw [hrun] at hf
  split at hf
  · cases hf
    rfl
  · split at hf
    · cases hf
      rfl
    · split at hf
      · cases hf
        rfl
      · split at hf
        · cases hf
        · cases hf
          rfl

theorem create_isRefusal {r : RegistryId} (hs : s.Consistent held)
    (hr : (s.registries.get? r).isSome) (hf : ((create r size).run s).result = .error failure) :
    failure.isRefusal = true := by
  rcases poolForSize_cases s r size with
    ⟨e, he, hrun⟩ | ⟨p, k, registry, hreg, hp, hrun⟩ | ⟨k, registry, -, -, -, hrun⟩
  · rw [create, Op.run_bind_error hrun] at hf
    cases hf
    exact he hr
  · obtain ⟨c, hc⟩ := hs.exists_of_registry hreg (Registry.mem_poolIds hp)
    rw [create, Op.run_bind_silent hrun] at hf
    exact createIn_isRefusal hc (hs.wellFormed p c hc) (hs.positive hc) hf
  · have hnew := (get?_opened s r registry k s.pools.next).trans (if_pos rfl)
    rw [create, Op.run_bind_ok hrun] at hf
    exact createIn_isRefusal hnew (Pool.new_wellFormed _ _ _ _) Nat.one_pos hf

theorem hold_isRefusal {r : RegistryId} (hs : s.Consistent held)
    (hr : (s.registries.get? r).isSome)
    (hf : ((poolForSize r size >>= fun p => do acquire p; pure p).run s).result = .error failure) :
    failure.isRefusal = true := by
  rcases poolForSize_cases s r size with
    ⟨e, he, hrun⟩ | ⟨p, k, registry, hreg, hp, hrun⟩ | ⟨k, registry, -, -, -, hrun⟩
  · rw [Op.run_bind_error hrun] at hf
    cases hf
    exact he hr
  · obtain ⟨c, hc⟩ := hs.exists_of_registry hreg (Registry.mem_poolIds hp)
    rw [Op.run_bind_silent hrun, Op.run_bind_silent (acquire_run hc)] at hf
    cases hf
  · have hp := (get?_opened s r registry k s.pools.next).trans (if_pos rfl)
    rw [Op.run_bind_ok hrun, Op.run_bind_silent (acquire_run hp)] at hf
    cases hf

theorem destroy_failed {b : ByteArray} (hs : s.Consistent held) (hc : s.contents h = some b)
    (hf : ((destroy h).run s).result = .error failure) :
    (failure = .fault .poolInUse ∨ ∃ block, failure = .fault (.wrongThread block)) ∧
      ((destroy h).run s).state.handles =
        s.handles.modify h fun a => { a with owned := false } := by
  obtain ⟨a, p, c, i, hh, hp, hi, -, -⟩ := hs.exists_block hc
  obtain ⟨m, hm⟩ := (hs.wellFormed p c hp).exists_owner
    (show c.pool.len - 1 < c.pool.len by have := hi.1; omega)
  have hrun := destroy_run hs hh hp hi hm
  simp only at hrun
  rw [hrun] at hf ⊢
  split at hf
  · next hr =>
    cases hf
    exact ⟨.inl rfl, by rw [if_pos hr]⟩
  · next hr =>
    split at hf
    · next ht =>
      cases hf
      exact ⟨.inr ⟨_, rfl⟩, by rw [if_neg hr, if_pos ht]⟩
    · cases hf

theorem fromRaw_isRefusal (hh : (s.handles.get? h).isSome)
    (hf : ((fromRaw h).run s).result = .error failure) : failure.isRefusal = true := by
  obtain ⟨a, hh⟩ := Option.isSome_iff_exists.mp hh
  rw [fromRaw, Op.run_bind_silent (handle_run hh)] at hf
  by_cases ht : a.temporary = false
  · rw [Op.run_ensure_bind_pos s ht] at hf
    cases hf
  · rw [Op.run_ensure_bind_neg s ht] at hf
    cases hf
    rfl

end Store

end OffRow
