import OffRow.Proofs.Store.Creation
import OffRow.Proofs.Store.Sharing

namespace OffRow

def SizeClass.all : List SizeClass := List.ofFn fun i : Fin 35 => ⟨i, i.isLt⟩

namespace SizeClass

theorem mem_all (c : SizeClass) : c ∈ all := List.mem_ofFn.mpr ⟨⟨c.index, c.index_lt⟩, rfl⟩

theorem nodup_all : all.Nodup :=
  List.nodup_ofFn.mpr fun _ _ h => Fin.ext (congrArg SizeClass.index h)

theorem sorted_all : all.Pairwise fun c d => c.index < d.index := by
  rw [all, List.pairwise_ofFn]
  exact fun _ _ h => h

end SizeClass

namespace Registry

def route (r : Registry) (c : SizeClass) (p : PoolId) : Registry :=
  if r.pool? c = none then r.setPool c p else r

variable {r : Registry} {c d : SizeClass} {p q : PoolId}

theorem poolIds_eq (r : Registry) : r.poolIds = SizeClass.all.filterMap r.pool? := by
  have hl : r.pools.toList = SizeClass.all.map r.pool? := by
    apply List.ext_getElem
    · rw [Vector.length_toList, List.length_map, SizeClass.all, List.length_ofFn]
      rfl
    · intro i hi hj
      simp only [SizeClass.all, List.getElem_map, List.getElem_ofFn, Vector.getElem_toList]
      rfl
  rw [poolIds, hl, List.filterMap_map, Function.id_comp]

theorem pool?_setPool_of_ne (h : c ≠ d) (p : PoolId) : (r.setPool c p).pool? d = r.pool? d := by
  have hne : c.index ≠ d.index := fun he => h (by cases c; cases d; cases he; rfl)
  exact Vector.getElem_set_ne c.index_lt d.index_lt hne

theorem pool?_route :
    (r.route c p).pool? d = some q ↔ r.pool? d = some q ∨ c = d ∧ r.pool? d = none ∧ q = p := by
  unfold route
  by_cases hcd : c = d
  · subst hcd
    cases hp : r.pool? c with
    | none =>
      rw [if_pos rfl, pool?_setPool]
      simp [eq_comm]
    | some p' => simp [hp]
  · split
    · rw [pool?_setPool_of_ne hcd]
      simp [hcd]
    · simp [hcd]

theorem pool?_new (firstBytes : Nat) (pos : 0 < firstBytes) (policy : DropPolicy) (c : SizeClass) :
    (Registry.new firstBytes pos policy).pool? c = none := Vector.getElem_replicate c.index_lt

end Registry

namespace Store

def poolFor (s : Store) (r : RegistryId) (c : SizeClass) : Option PoolId :=
  (s.registries.get? r).bind (·.pool? c)

variable {s : Store} {r x : RegistryId} {c d : SizeClass} {p q : PoolId} {registry : Registry}

theorem poolFor_eq_some :
    s.poolFor r c = some p ↔ ∃ registry, s.registries.get? r = some registry ∧ registry.pool? c = some p :=
  Option.bind_eq_some_iff

theorem poolFor_of_get? (hr : s.registries.get? r = some registry) (c : SizeClass) :
    s.poolFor r c = registry.pool? c := by
  rw [poolFor, hr, Option.bind_some]

theorem poolForSize_eq {size : Nat} (hc : SizeClass.forSize size = .ok c) (r : RegistryId) :
    poolForSize r size = poolForClass r c := by
  funext s
  change Op.run (poolForSize r size) s = Op.run (poolForClass r c) s
  rw [poolForSize, hc, Op.run_ofExcept_ok_bind]

theorem poolForClass_registries (s : Store) (r : RegistryId) (c : SizeClass) :
    ((poolForClass r c).run s).state.registries =
      s.registries.modify r (·.route c s.pools.next) := by
  cases hr : s.registries.get? r with
  | none =>
    rw [poolForClass, Op.run_bind_error (registry_run_none hr)]
    refine (Table.modify_eq_self fun registry hr' => ?_).symm
    rw [hr] at hr'
    cases hr'
  | some registry =>
    cases hp : registry.pool? c with
    | some p =>
      rw [poolForClass_known hr hp]
      refine (Table.modify_eq_self fun registry' hr' => ?_).symm
      rw [hr] at hr'
      cases hr'
      rw [Registry.route, hp]
      rfl
    | none =>
      rw [poolForClass_fresh hr hp]
      refine Table.modify_congr fun registry' hr' => ?_
      rw [hr] at hr'
      cases hr'
      rw [Registry.route, if_pos hp]

theorem poolFor_modify :
    poolFor { s with registries := s.registries.modify r (·.route c p) } x d = some q ↔
      s.poolFor x d = some q ∨
        r = x ∧ c = d ∧ (s.registries.get? x).isSome ∧ s.poolFor x d = none ∧ q = p := by
  simp only [poolFor, Table.get?_modify]
  by_cases hr : r = x
  · subst hr
    cases hx : s.registries.get? r with
    | none => simp
    | some registry => simp [Registry.pool?_route]
  · simp [hr]

theorem Consistent.createIn_string {held : List PoolId} {cell : SharedPool} {h : HandleId} {size : Nat}
    (hs : s.Consistent held) (hp : s.pools.get? p = some cell)
    (hh : ((createIn p size).run s).result = .ok h) :
    h = s.handles.next ∧ ∃ a, ((createIn p size).run s).state.handles.get? h = some a ∧
      a.size = size ∧ a.pool = some p := by
  have hrun := createIn_run hp (hs.wellFormed p cell hp) (hs.positive hp) size
  simp only at hrun
  rw [hrun] at hh ⊢
  split_ifs at hh ⊢
  cases hh
  have hnew := (get?_withOrphan (s := s) (p := p) (x := s.handles.next) size).trans (if_pos rfl)
  exact ⟨rfl, _, (get?_pushed hnew cell.pool).trans (if_pos rfl), rfl, rfl⟩

theorem Consistent.create_string {held : List PoolId} {h : HandleId} {size : Nat}
    (hs : s.Consistent held) (hr : s.registries.get? r = some registry)
    (hh : ((create r size).run s).result = .ok h) :
    h = s.handles.next ∧ ∃ c p a, SizeClass.forSize size = .ok c ∧
      ((create r size).run s).state.poolFor r c = some p ∧
      ((create r size).run s).state.handles.get? h = some a ∧ a.size = size ∧ a.pool = some p := by
  cases hc : SizeClass.forSize size with
  | error err =>
    rw [create, poolForSize, hc] at hh
    cases hh
  | ok c =>
    cases hp : registry.pool? c with
    | some p =>
      obtain ⟨cell, hcell⟩ := hs.exists_of_registry hr (Registry.mem_poolIds hp)
      rw [create_known hr hc hp] at hh ⊢
      obtain ⟨hnext, a, ha⟩ := hs.createIn_string hcell hh
      refine ⟨hnext, c, p, a, rfl, ?_, ha⟩
      rw [poolFor, (createIn_creation hs hcell size).2]
      exact (poolFor_of_get? hr c).trans hp
    | none =>
      obtain ⟨ht, -⟩ := hs.opened hr hp
      have hcell := (get?_opened s r registry c s.pools.next).trans (if_pos rfl)
      rw [create_fresh hr hc hp] at hh ⊢
      obtain ⟨hnext, a, ha⟩ := ht.createIn_string hcell hh
      refine ⟨hnext, c, s.pools.next, a, rfl, ?_, ha⟩
      simp only [poolFor, (createIn_creation ht hcell size).2]
      change ((s.registries.modify r _).get? r).bind _ = _
      rw [Table.get?_modify, if_pos rfl, hr, Option.map_some, Option.bind_some,
        Registry.pool?_setPool]

end Store

end OffRow
