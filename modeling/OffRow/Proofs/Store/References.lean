import OffRow.Store.Registries
import OffRow.Store.Temporaries
import OffRow.Proofs.Store.Freeing
/-!
Who holds a pool. A pool has one reference for each registry that sends strings to it, one for each
handle of a string in it, and one for each that is held outside the store; with the last reference
the pool goes.
-/

namespace OffRow

namespace Registry

theorem filterMap_set_perm {α : Type} (l : List (Option α)) (n : Nat) (a : α)
    (h : l[n]? = some none) :
    ((l.set n (some a)).filterMap id).Perm (a :: l.filterMap id) := by
  induction l generalizing n with
  | nil => simp at h
  | cons o l ih =>
    cases n with
    | zero =>
      simp only [List.getElem?_cons_zero, Option.some.injEq] at h
      subst h
      exact .refl _
    | succ n =>
      have ih := ih n (by simpa using h)
      rw [List.set_cons_succ]
      cases o with
      | none => exact ih
      | some b => exact (ih.cons b).trans (.swap a b _)

theorem poolIds_setPool {r : Registry} {c : SizeClass} (h : r.pool? c = none) (p : PoolId) :
    (r.setPool c p).poolIds.Perm (p :: r.poolIds) := by
  have hlt : c.index < SizeClass.count := c.index_lt
  have hn : r.pools[c.index] = none := h
  have hl : r.pools.toList[c.index]? = some none := by
    rw [← hn]
    simp [hlt]
  have hs : (r.setPool c p).pools.toList = r.pools.toList.set c.index (some p) :=
    Array.toList_set _ _ _ (r.pools.size_toArray.symm ▸ hlt)
  rw [poolIds, hs]
  exact filterMap_set_perm _ _ _ hl

theorem pool?_setPool (r : Registry) (c : SizeClass) (p : PoolId) :
    (r.setPool c p).pool? c = some p := Vector.getElem_set_self c.index_lt

theorem mem_poolIds {r : Registry} {c : SizeClass} {p : PoolId} (h : r.pool? c = some p) :
    p ∈ r.poolIds := by
  have hlt : c.index < SizeClass.count := c.index_lt
  have hm : r.pools[c.index] = some p := h
  rw [poolIds, List.mem_filterMap]
  exact ⟨some p, Vector.mem_toList_iff.mpr (hm ▸ Vector.getElem_mem hlt), rfl⟩

end Registry

namespace Store

def references (s : Store) (p : PoolId) : Nat := (s.pools.get? p).elim 0 SharedPool.references

def registryReferences (s : Store) (p : PoolId) : Nat := s.registries.sum fun r => r.poolIds.count p

def handleReferences (s : Store) (p : PoolId) : Nat :=
  s.handles.sum fun h => if h.pool = some p then 1 else 0

/-- Every reference is accounted for; those outside the store are listed in `held`. -/
structure Counted (s : Store) (held : List PoolId) : Prop where
  references_eq : ∀ p,
    s.references p = s.registryReferences p + s.handleReferences p + held.count p
  positive : ∀ {p cell}, s.pools.get? p = some cell → 0 < cell.references

def acquired (s : Store) (p : PoolId) : Store :=
  { s with pools := s.pools.modify p fun cell => { cell with references := cell.references + 1 } }

def released (s : Store) (p : PoolId) : Store :=
  { s with
    pools :=
      if s.references p ≤ 1 then s.pools.erase p
      else s.pools.modify p fun cell => { cell with references := cell.references - 1 } }

variable {s t : Store} {p q : PoolId} {cell : SharedPool} {h : HandleId} {handle : Handle}
  {held rest : List PoolId}

theorem references_of_get? (hp : s.pools.get? p = some cell) : s.references p = cell.references := by
  rw [references, hp]
  rfl

theorem references_modify (hp : s.pools.get? p = some cell) (f : SharedPool → SharedPool) :
    references { s with pools := s.pools.modify p f } q =
      if p = q then (f cell).references else s.references q := by
  simp only [references, Table.get?_modify]
  split
  · next he => rw [← he, hp]; rfl
  · rfl

theorem references_erase :
    references { s with pools := s.pools.erase p } q = if p = q then 0 else s.references q := by
  simp only [references, Table.get?_erase]
  split <;> rfl

theorem references_add (c : SharedPool) :
    references { s with pools := s.pools.add c } q =
      if q = s.pools.next then c.references else s.references q := by
  simp only [references, Table.get?_add]
  split <;> rfl

theorem handleReferences_add (handle : Handle) :
    handleReferences { s with handles := s.handles.add handle } q =
      s.handleReferences q + if handle.pool = some q then 1 else 0 := Table.sum_add _ _ _

theorem handleReferences_erase (hh : s.handles.get? h = some handle) :
    handleReferences { s with handles := s.handles.erase h } q +
      (if handle.pool = some q then 1 else 0) = s.handleReferences q := Table.sum_erase _ hh

theorem handleReferences_modify {f : Handle → Handle} (hf : ∀ a, (f a).pool = a.pool) :
    handleReferences { s with handles := s.handles.modify h f } q = s.handleReferences q := by
  cases hh : s.handles.get? h with
  | none =>
    have he : s.handles.modify h f = s.handles := Table.modify_eq_self fun a ha => by
      rw [hh] at ha
      cases ha
    rw [he]
  | some handle =>
    have hs := Table.sum_modify (fun h : Handle => if h.pool = some q then 1 else 0) hh f
    simp only [hf, Nat.add_right_cancel_iff] at hs
    exact hs

theorem handleReferences_filter {pass : Handle → Bool}
    (hp : ∀ h a, s.handles.get? h = some a → pass a = false → a.pool = none) :
    handleReferences { s with handles := s.handles.filter pass } q = s.handleReferences q := by
  apply Table.sum_filter
  intro h a hh ha
  rw [hp h a hh ha]
  rfl

theorem registryReferences_add (r : Registry) :
    registryReferences { s with registries := s.registries.add r } q =
      s.registryReferences q + r.poolIds.count q := Table.sum_add _ _ _

theorem registryReferences_erase {r : RegistryId} {registry : Registry}
    (hr : s.registries.get? r = some registry) :
    registryReferences { s with registries := s.registries.erase r } q + registry.poolIds.count q =
      s.registryReferences q := Table.sum_erase _ hr

namespace Counted

theorem exists_of_references (hr : 0 < s.references p) : ∃ cell, s.pools.get? p = some cell := by
  unfold references at hr
  cases hp : s.pools.get? p with
  | none => simp [hp] at hr
  | some cell => exact ⟨cell, rfl⟩

theorem exists_of_held (hc : s.Counted held) (hp : p ∈ held) : ∃ cell, s.pools.get? p = some cell := by
  have he := hc.references_eq p
  have hpos := List.count_pos_iff.mpr hp
  exact exists_of_references (by omega)

theorem le_handleReferences (hh : s.handles.get? h = some handle) (hp : handle.pool = some p) :
    1 ≤ s.handleReferences p := by
  have hle := Table.le_sum (fun h : Handle => if h.pool = some p then 1 else 0) hh
  simp only [hp, ↓reduceIte] at hle
  exact hle

theorem exists_of_registry (hc : s.Counted held) {r : RegistryId} {registry : Registry}
    (hr : s.registries.get? r = some registry) (hp : p ∈ registry.poolIds) :
    ∃ cell, s.pools.get? p = some cell := by
  have he := hc.references_eq p
  have hle := Table.le_sum (fun r : Registry => r.poolIds.count p) hr
  have hpos := List.count_pos_iff.mpr hp
  unfold registryReferences at he
  exact exists_of_references (by omega)

theorem balance (hc : s.Counted held)
    (hb : ∀ q, t.references q + s.registryReferences q + s.handleReferences q + held.count q =
      s.references q + t.registryReferences q + t.handleReferences q + rest.count q)
    (hpos : ∀ {p cell}, t.pools.get? p = some cell → 0 < cell.references) : t.Counted rest where
  references_eq q := by
    have hq := hb q
    have he := hc.references_eq q
    omega
  positive := hpos

theorem perm (hc : s.Counted held) (h : held.Perm rest) : s.Counted rest where
  references_eq q := by
    rw [hc.references_eq, h.count_eq]
  positive := hc.positive

theorem positive_modify (hc : s.Counted held) {f : SharedPool → SharedPool}
    (hf : ∀ c, s.pools.get? p = some c → 0 < (f c).references) {c : SharedPool}
    (hq : (s.pools.modify p f).get? q = some c) : 0 < c.references := by
  rw [Table.get?_modify] at hq
  split at hq
  · next he =>
    subst he
    obtain ⟨c', hc', rfl⟩ := Option.map_eq_some_iff.mp hq
    exact hf c' hc'
  · exact hc.positive hq

theorem acquired (hc : s.Counted held) (hp : s.pools.get? p = some cell) :
    (s.acquired p).Counted (p :: held) := by
  apply hc.balance
  · intro q
    rw [Store.acquired, references_modify hp, List.count_cons]
    change _ = _ + s.registryReferences q + s.handleReferences q + _
    by_cases he : p = q
    · subst he
      simp only [↓reduceIte, BEq.rfl, references_of_get? hp]
      omega
    · simp only [he, ↓reduceIte, beq_iff_eq]
      omega
  · exact hc.positive_modify fun c _ => Nat.succ_pos _

theorem released (hc : s.Counted (p :: held)) : (s.released p).Counted held := by
  obtain ⟨cell, hp⟩ := hc.exists_of_held List.mem_cons_self
  have hr := references_of_get? hp
  have he := hc.references_eq p
  have hpos := hc.positive hp
  rw [List.count_cons_self] at he
  apply hc.balance
  · intro q
    rw [List.count_cons]
    change _ = _ + s.registryReferences q + s.handleReferences q + _
    unfold Store.released
    by_cases hq : p = q
    · subst hq
      split
      · rw [references_erase, if_pos rfl]
        simp only [BEq.rfl, ↓reduceIte]
        omega
      · rw [references_modify hp, if_pos rfl]
        simp only [BEq.rfl, ↓reduceIte]
        omega
    · simp only [hq, beq_iff_eq, ↓reduceIte]
      split
      · rw [references_erase, if_neg hq]
        omega
      · rw [references_modify hp, if_neg hq]
        omega
  · intro q c hq
    unfold Store.released at hq
    split at hq
    · exact hc.positive (Table.get?_of_erase hq)
    · refine hc.positive_modify ?_ hq
      intro c' hc'
      rw [hp] at hc'
      cases hc'
      change 0 < cell.references - 1
      omega

theorem addHandle (hc : s.Counted (p :: held)) (hp : handle.pool = some p) :
    Counted { s with handles := s.handles.add handle } held := by
  apply hc.balance
  · intro q
    rw [handleReferences_add, hp, List.count_cons]
    change s.references q + _ + _ + _ = _ + s.registryReferences q + _ + _
    simp only [Option.some.injEq, beq_iff_eq]
    omega
  · exact hc.positive

theorem addPoolless (hc : s.Counted held) (hp : handle.pool = none) :
    Counted { s with handles := s.handles.add handle } held := by
  apply hc.balance
  · intro q
    rw [handleReferences_add, hp]
    rfl
  · exact hc.positive

theorem eraseHandle (hc : s.Counted held) (hh : s.handles.get? h = some handle)
    (hp : handle.pool = some p) :
    Counted { s with handles := s.handles.erase h } (p :: held) := by
  apply hc.balance
  · intro q
    have he := handleReferences_erase (q := q) hh
    rw [hp] at he
    rw [List.count_cons]
    change s.references q + _ + _ + _ = _ + s.registryReferences q + _ + _
    simp only [Option.some.injEq, beq_iff_eq] at he ⊢
    omega
  · exact hc.positive

theorem modifyHandle (hc : s.Counted held) {f : Handle → Handle} (hf : ∀ a, (f a).pool = a.pool) :
    Counted { s with handles := s.handles.modify h f } held := by
  apply hc.balance
  · intro q
    rw [handleReferences_modify hf]
    rfl
  · exact hc.positive

theorem filterHandles (hc : s.Counted held) {pass : Handle → Bool}
    (hp : ∀ h a, s.handles.get? h = some a → pass a = false → a.pool = none) :
    Counted { s with handles := s.handles.filter pass } held := by
  apply hc.balance
  · intro q
    rw [handleReferences_filter hp]
    rfl
  · exact hc.positive

theorem modifyPool (hc : s.Counted held) {f : SharedPool → SharedPool}
    (hf : ∀ c, (f c).references = c.references) :
    Counted { s with pools := s.pools.modify p f } held := by
  have hr : ∀ q, references { s with pools := s.pools.modify p f } q = s.references q := by
    intro q
    simp only [references, Table.get?_modify]
    split
    · cases s.pools.get? q with
      | none => rfl
      | some c => exact hf c
    · rfl
  apply hc.balance
  · intro q
    rw [hr]
    rfl
  · refine hc.positive_modify fun c hq => ?_
    rw [hf]
    exact hc.positive hq

theorem setPool (hc : s.Counted held) (pool : Pool) : (s.setPool p pool).Counted held :=
  hc.modifyPool fun _ => rfl

theorem addPool (hc : s.Counted held) (hr : cell.references = 1) :
    Counted { s with pools := s.pools.add cell } (s.pools.next :: held) := by
  have hnone : s.references s.pools.next = 0 := by
    rw [references, Table.get?_next]
    rfl
  apply hc.balance
  · intro q
    rw [references_add, List.count_cons]
    change _ = _ + s.registryReferences q + s.handleReferences q + _
    by_cases hq : q = s.pools.next
    · subst hq
      simp only [↓reduceIte, BEq.rfl]
      omega
    · simp only [hq, ↓reduceIte, Ne.symm hq, beq_iff_eq]
      omega
  · intro q c hq
    rw [Table.get?_add] at hq
    split at hq
    · cases hq
      omega
    · exact hc.positive hq

theorem addRegistry (hc : s.Counted held) {r : Registry} (hr : r.poolIds = []) :
    Counted { s with registries := s.registries.add r } held := by
  apply hc.balance
  · intro q
    rw [registryReferences_add, hr]
    rfl
  · exact hc.positive

theorem eraseRegistry (hc : s.Counted held) {r : RegistryId} {registry : Registry}
    (hr : s.registries.get? r = some registry) :
    Counted { s with registries := s.registries.erase r } (registry.poolIds ++ held) := by
  apply hc.balance
  · intro q
    have he := registryReferences_erase (q := q) hr
    rw [List.count_append]
    change s.references q + _ + _ + _ = _ + _ + s.handleReferences q + _
    omega
  · exact hc.positive

theorem modifyRegistry (hc : s.Counted (p :: held)) {r : RegistryId} {registry : Registry}
    (hr : s.registries.get? r = some registry) {f : Registry → Registry}
    (hf : ((f registry).poolIds).Perm (p :: registry.poolIds)) :
    Counted { s with registries := s.registries.modify r f } held := by
  apply hc.balance
  · intro q
    have he := Table.sum_modify (fun r : Registry => r.poolIds.count q) hr f
    rw [hf.count_eq, List.count_cons] at he
    rw [List.count_cons]
    change s.references q + s.registries.sum _ + _ + _ =
      _ + (s.registries.modify r f).sum (fun r => r.poolIds.count q) + s.handleReferences q + _
    omega
  · exact hc.positive

end Counted

end Store

end OffRow
