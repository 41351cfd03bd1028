import OffRow.Proofs.Store.Accesses

namespace OffRow.Store

variable {s : Store} {p q : PoolId} {cell : SharedPool} {h : HandleId} {handle : Handle}
  {held : List PoolId} {r : RegistryId} {registry : Registry}

theorem registry_run (hr : s.registries.get? r = some registry) :
    (Store.registry r).run s = ⟨.ok registry, s, []⟩ := by
  simp only [Store.registry, Op.run_get_bind, hr, Op.run_expect_some]

theorem registry_run_none (hr : s.registries.get? r = none) :
    (Store.registry r).run s = ⟨.error (.fault .dangling), s, []⟩ := by
  simp only [Store.registry, Op.run_get_bind, hr, Op.run_expect_none]

def withPool (s : Store) (c : SizeClass) (firstBytes : Nat) (policy : DropPolicy) : Store :=
  { s with pools := s.pools.add ⟨.new c firstBytes policy s.thread, 1, 0⟩ }

namespace Consistent

theorem withPool (hs : s.Consistent held) (c : SizeClass) (firstBytes : Nat) (policy : DropPolicy) :
    (s.withPool c firstBytes policy).Consistent (s.pools.next :: held) ∧
      SameStrings s (s.withPool c firstBytes policy) := by
  have hw := hs.toPlaced.withPools (s.pools.add ⟨.new c firstBytes policy s.thread, 1, 0⟩) ?_ ?_
  · exact ⟨⟨hw.1, hs.toCounted.addPool rfl⟩, .of_pools hw.2⟩
  · intro p cell hp _
    have hn : p ≠ s.pools.next := by
      rintro rfl
      rw [Table.get?_next] at hp
      cases hp
    exact ⟨cell, by rw [Table.get?_add, if_neg hn, hp], rfl⟩
  · intro p cell hp
    rw [Table.get?_add] at hp
    split at hp
    · cases hp
      exact .inr ⟨Pool.new_wellFormed c firstBytes policy s.thread, rfl⟩
    · exact .inl ⟨cell, hp, rfl⟩

theorem addRegistry (hs : s.Consistent held) {registry : Registry} (hr : registry.poolIds = []) :
    Consistent { s with registries := s.registries.add registry } held ∧
      SameStrings s { s with registries := s.registries.add registry } :=
  ⟨⟨hs.toPlaced.congr rfl rfl, hs.toCounted.addRegistry hr⟩, .congr rfl rfl⟩

theorem eraseRegistry (hs : s.Consistent held) (hr : s.registries.get? r = some registry) :
    Consistent { s with registries := s.registries.erase r } (registry.poolIds ++ held) ∧
      SameStrings s { s with registries := s.registries.erase r } :=
  ⟨⟨hs.toPlaced.congr rfl rfl, hs.toCounted.eraseRegistry hr⟩, .congr rfl rfl⟩

end Consistent

def opened (s : Store) (r : RegistryId) (registry : Registry) (c : SizeClass) : Store :=
  { s.withPool c registry.firstChunkBytes registry.policy with
    registries := s.registries.modify r (·.setPool c s.pools.next) }

theorem get?_opened (s : Store) (r : RegistryId) (registry : Registry) (c : SizeClass) (p : PoolId) :
    (s.opened r registry c).pools.get? p =
      if p = s.pools.next then some ⟨.new c registry.firstChunkBytes registry.policy s.thread, 1, 0⟩
      else s.pools.get? p := Table.get?_add _ _ _

theorem poolForClass_known {c : SizeClass} (hr : s.registries.get? r = some registry)
    (hp : registry.pool? c = some p) : (poolForClass r c).run s = ⟨.ok p, s, []⟩ := by
  rw [poolForClass, Op.run_bind_silent (registry_run hr), hp]
  rfl

theorem poolForClass_fresh {c : SizeClass} (hr : s.registries.get? r = some registry)
    (hp : registry.pool? c = none) :
    (poolForClass r c).run s =
      ⟨.ok s.pools.next, s.opened r registry c, [.poolCreated c.blockSize]⟩ := by
  rw [poolForClass, Op.run_bind_silent (registry_run hr), hp]
  rfl

theorem Consistent.opened (hs : s.Consistent held) (hr : s.registries.get? r = some registry)
    {c : SizeClass} (hp : registry.pool? c = none) :
    (s.opened r registry c).Consistent held ∧ SameStrings s (s.opened r registry c) := by
  obtain ⟨ht, hsame⟩ := hs.withPool c registry.firstChunkBytes registry.policy
  have hcounted := ht.toCounted.modifyRegistry (f := (·.setPool c s.pools.next)) hr
    (Registry.poolIds_setPool hp s.pools.next)
  exact ⟨⟨ht.toPlaced.congr rfl rfl, hcounted⟩, hsame.trans (.congr rfl rfl)⟩

theorem poolForClass_run (hs : s.Consistent held) (hr : s.registries.get? r = some registry)
    (c : SizeClass) :
    ∃ p t events, (poolForClass r c).run s = ⟨.ok p, t, events⟩ ∧ t.Consistent held ∧
      SameStrings s t ∧ (∃ cell, t.pools.get? p = some cell) ∧
      (t.registries.get? r).bind (·.pool? c) = some p := by
  cases hpool : registry.pool? c with
  | some p =>
    have hp := hs.exists_of_registry hr (Registry.mem_poolIds hpool)
    exact ⟨p, s, [], poolForClass_known hr hpool, hs, .refl s, hp, by rw [hr]; exact hpool⟩
  | none =>
    obtain ⟨ht, hsame⟩ := hs.opened hr hpool
    refine ⟨s.pools.next, s.opened r registry c, _, poolForClass_fresh hr hpool, ht, hsame,
      ⟨_, (get?_opened s r registry c _).trans (if_pos rfl)⟩, ?_⟩
    change ((s.registries.modify r _).get? r).bind _ = _
    rw [Table.get?_modify, if_pos rfl, hr, Option.map_some, Option.bind_some, Registry.pool?_setPool]

def leftover (s : Store) (p : PoolId) : Option Event :=
  (s.pools.get? p).bind fun cell =>
    if cell.pool.len = 0 then none else some (.liveAtTeardown cell.pool.blockSize cell.pool.len)

theorem leftover_of_get? (hp : s.pools.get? p = some cell) :
    s.leftover p =
      if cell.pool.len = 0 then none else some (.liveAtTeardown cell.pool.blockSize cell.pool.len) := by
  rw [leftover, hp, Option.bind_some]

theorem liveIn_of_get? (hp : s.pools.get? p = some cell) : s.liveIn p = cell.pool.len := by
  rw [liveIn, hp]

theorem get?_released :
    (s.released p).pools.get? q =
      if p = q then
        if s.references p ≤ 1 then none
        else (s.pools.get? q).map fun cell => { cell with references := cell.references - 1 }
      else s.pools.get? q := by
  unfold Store.released
  by_cases hr : s.references p ≤ 1
  · simp only [hr, ↓reduceIte, Table.get?_erase]
  · simp only [hr, ↓reduceIte, Table.get?_modify]

theorem Consistent.count_released (hs : s.Consistent (p :: held)) (q : PoolId) :
    (s.released p).liveIn q = s.liveIn q ∧ (s.released p).leftover q = s.leftover q := by
  obtain ⟨cell, hp⟩ := hs.exists_of_held List.mem_cons_self
  unfold liveIn leftover
  rw [get?_released]
  split_ifs with hq hr
  · subst hq
    have hlen := hs.vacant_of_references hp hr
    simp only [hp, hlen, Option.bind_none, Option.bind_some, ↓reduceIte, and_self]
  · subst hq
    rw [hp]
    exact ⟨rfl, rfl⟩
  · exact ⟨rfl, rfl⟩

theorem releaseAll_run {ps : List PoolId} (hs : s.Consistent (ps ++ held)) (unwinding : Bool)
    (leaked : Nat) :
    (releaseAll unwinding ps leaked).run s =
      ⟨.ok ((ps.map s.liveIn).foldl Word.satAdd leaked), ps.foldl Store.released s,
        ps.filterMap s.leftover⟩ := by
  induction ps generalizing s leaked with
  | nil => rfl
  | cons p ps ih =>
    obtain ⟨cell, hp⟩ := hs.exists_of_held List.mem_cons_self
    have hrec : (Op.recover (release unwinding p) fun e => do
        releaseUnwinding ps
        Op.fail e).run s = ⟨.ok (), s.released p, []⟩ := Op.run_recover_ok s (release_run hs unwinding)
    have hrest := (Op.run_bind_silent hrec (f := fun _ =>
      releaseAll unwinding ps (Word.satAdd leaked cell.pool.len))).trans
        (ih hs.released.1 (Word.satAdd leaked cell.pool.len))
    -- A pool that ends here was empty, so what the others report can be read off `s`.
    have hlive : (s.released p).liveIn = s.liveIn := funext fun q => (hs.count_released q).1
    have hleft : (s.released p).leftover = s.leftover := funext fun q => (hs.count_released q).2
    rw [hlive, hleft] at hrest
    rw [releaseAll, Op.run_bind_silent (shared_run hp), List.map_cons, List.foldl_cons,
      List.foldl_cons, List.filterMap_cons, leftover_of_get? hp, liveIn_of_get? hp]
    simp only
    by_cases hlen : cell.pool.len = 0
    · rw [if_neg (not_not.mpr hlen), if_pos hlen, hrest]
    · rw [if_pos hlen, if_neg hlen, Op.run_bind_ok (Op.run_emit s _), hrest]
      rfl

theorem Consistent.releasedAll {ps : List PoolId} (hs : s.Consistent (ps ++ held)) :
    (ps.foldl Store.released s).Consistent held ∧ SameStrings s (ps.foldl Store.released s) := by
  induction ps generalizing s with
  | nil => exact ⟨hs, .refl s⟩
  | cons p ps ih =>
    obtain ⟨ht, hsame⟩ := hs.released
    obtain ⟨hu, hsame'⟩ := ih ht
    exact ⟨hu, hsame.trans hsame'⟩

def closed (s : Store) (r : RegistryId) (registry : Registry) : Store :=
  registry.poolIds.foldl released { s with registries := s.registries.erase r }

theorem foldl_released (ps : List PoolId) : ∃ pools, ps.foldl Store.released s = { s with pools } := by
  induction ps generalizing s with
  | nil => exact ⟨s.pools, rfl⟩
  | cons p ps ih => exact ih (s := s.released p)

theorem closed_eq (s : Store) (r : RegistryId) (registry : Registry) :
    ∃ pools, s.closed r registry = { s with pools, registries := s.registries.erase r } :=
  foldl_released registry.poolIds

theorem dropRegistry_run (hs : s.Consistent held) (hr : s.registries.get? r = some registry)
    (unwinding : Bool) :
    (dropRegistry unwinding r).run s =
      ⟨if s.liveBlocks registry ≠ 0 ∧ registry.policy = .mustNotDropItems ∧ unwinding = false then
          .error (.fault (.registryDropped (s.liveBlocks registry)))
        else .ok (),
        s.closed r registry, registry.poolIds.filterMap s.leftover⟩ := by
  obtain ⟨ht, -⟩ := hs.eraseRegistry hr
  have hall : (releaseAll unwinding registry.poolIds 0).run
      { s with registries := s.registries.erase r } =
      ⟨.ok (s.liveBlocks registry), s.closed r registry, registry.poolIds.filterMap s.leftover⟩ :=
    releaseAll_run ht unwinding 0
  rw [dropRegistry, Op.run_bind_silent (registry_run hr), Op.run_modify_bind, Op.run_bind_ok hall]
  split
  · simp only [Op.fault, Op.run_fail, List.append_nil]
  · simp only [Op.run_pure, List.append_nil]

theorem Consistent.closed (hs : s.Consistent held) (hr : s.registries.get? r = some registry) :
    (s.closed r registry).Consistent held ∧ SameStrings s (s.closed r registry) := by
  obtain ⟨ht, hsame⟩ := hs.eraseRegistry hr
  obtain ⟨hu, hsame'⟩ := ht.releasedAll
  exact ⟨hu, hsame.trans hsame'⟩

theorem dropRegistry_state (hs : s.Consistent held) (unwinding : Bool) (r : RegistryId) :
    ((dropRegistry unwinding r).run s).state.Consistent held ∧
      SameStrings s ((dropRegistry unwinding r).run s).state := by
  cases hr : s.registries.get? r with
  | none =>
    rw [dropRegistry, Op.run_bind_error (registry_run_none hr)]
    exact ⟨hs, .refl s⟩
  | some registry =>
    rw [dropRegistry_run hs hr]
    exact hs.closed hr

end OffRow.Store
