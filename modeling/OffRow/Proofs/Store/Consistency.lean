import OffRow.Proofs.Store.Moving
import OffRow.Proofs.Store.References

namespace OffRow.Store

structure Consistent (s : Store) (held : List PoolId) : Prop extends s.Placed, s.Counted held

def orphans (s : Store) (p : PoolId) : Nat :=
  s.handles.sum fun h => if h.pool = some p ∧ h.location = .nowhere then 1 else 0

structure SameStrings (s t : Store) : Prop where
  contents_eq : t.contents = s.contents
  orphans_eq : ∀ p, t.orphans p = s.orphans p
  handleReferences_eq : ∀ p, t.handleReferences p = s.handleReferences p

variable {s t u : Store} {p q : PoolId} {cell : SharedPool} {h m : HandleId} {i : Nat}
  {handle : Handle} {held : List PoolId}

theorem SameStrings.refl (s : Store) : SameStrings s s := ⟨rfl, fun _ => rfl, fun _ => rfl⟩

theorem SameStrings.trans (hst : SameStrings s t) (htu : SameStrings t u) : SameStrings s u where
  contents_eq := htu.contents_eq.trans hst.contents_eq
  orphans_eq p := (htu.orphans_eq p).trans (hst.orphans_eq p)
  handleReferences_eq p := (htu.handleReferences_eq p).trans (hst.handleReferences_eq p)

theorem SameStrings.congr (hp : t.pools = s.pools) (hh : t.handles = s.handles) : SameStrings s t where
  contents_eq := by
    funext h
    simp only [contents, hh]
    congr 1
    funext handle
    cases hl : handle.location <;> simp only [bytes?, hl, hp]
  orphans_eq p := by simp only [orphans, hh]
  handleReferences_eq p := by simp only [handleReferences, hh]

theorem SameStrings.of_pools {pools : Table .pool SharedPool}
    (hc : contents { s with pools } = s.contents) : SameStrings s { s with pools } :=
  ⟨hc, fun _ => rfl, fun _ => rfl⟩

theorem orphans_modify {f : Handle → Handle} (hh : s.handles.get? h = some handle)
    (hp : (f handle).pool = handle.pool)
    (hl : (f handle).location = .nowhere ↔ handle.location = .nowhere) :
    orphans { s with handles := s.handles.modify h f } q = s.orphans q := by
  have hs := Table.sum_modify
    (fun h : Handle => if h.pool = some q ∧ h.location = .nowhere then 1 else 0) hh f
  simp only [hp, hl, Nat.add_right_cancel_iff] at hs
  exact hs

theorem orphans_setLocation (hh : s.handles.get? h = some handle) (w : Place) :
    (s.setLocation h (.block p w)).orphans q +
      (if handle.pool = some q ∧ handle.location = .nowhere then 1 else 0) = s.orphans q := by
  have hs := Table.sum_modify
    (fun h : Handle => if h.pool = some q ∧ h.location = .nowhere then 1 else 0) hh
    fun a => { a with location := .block p w }
  simp only [reduceCtorEq, and_false, ↓reduceIte, Nat.add_zero] at hs
  exact hs

theorem orphans_add (handle : Handle) :
    orphans { s with handles := s.handles.add handle } q =
      s.orphans q + if handle.pool = some q ∧ handle.location = .nowhere then 1 else 0 :=
  Table.sum_add _ _ _

theorem orphans_erase (hh : s.handles.get? h = some handle) :
    orphans { s with handles := s.handles.erase h } q +
      (if handle.pool = some q ∧ handle.location = .nowhere then 1 else 0) = s.orphans q :=
  Table.sum_erase _ hh

namespace Consistent

theorem congr (hs : s.Consistent held) (hp : t.pools = s.pools) (hh : t.handles = s.handles)
    (hr : t.registries = s.registries) : t.Consistent held where
  toPlaced := hs.toPlaced.congr hp hh
  references_eq q := by
    have he := hs.references_eq q
    simp only [references, registryReferences, handleReferences, hp, hh, hr] at he ⊢
    exact he
  positive hq := hs.positive (hp ▸ hq)

theorem sameStrings_modifyPool (hs : s.Placed) {f : SharedPool → SharedPool}
    (hf : ∀ c, (f c).pool = c.pool) :
    Placed { s with pools := s.pools.modify p f } ∧
      SameStrings s { s with pools := s.pools.modify p f } := by
  have hw := hs.withPools (s.pools.modify p f) ?_ ?_
  · exact ⟨hw.1, .of_pools hw.2⟩
  · intro q c hq _
    rw [Table.get?_modify, hq]
    split
    · exact ⟨_, rfl, hf c⟩
    · exact ⟨c, rfl, rfl⟩
  · intro q c hq
    rw [Table.get?_modify] at hq
    split at hq
    · obtain ⟨c', hc', rfl⟩ := Option.map_eq_some_iff.mp hq
      exact .inl ⟨c', hc', (hf c').symm⟩
    · exact .inl ⟨c, hq, rfl⟩

theorem acquired (hs : s.Consistent held) (hp : s.pools.get? p = some cell) :
    (s.acquired p).Consistent (p :: held) ∧ SameStrings s (s.acquired p) := by
  obtain ⟨hplaced, hsame⟩ := sameStrings_modifyPool hs.toPlaced (p := p)
    (f := fun cell => { cell with references := cell.references + 1 }) fun _ => rfl
  exact ⟨⟨hplaced, hs.toCounted.acquired hp⟩, hsame⟩

theorem modifyPool (hs : s.Consistent held) {f : SharedPool → SharedPool}
    (hf : ∀ c, (f c).pool = c.pool) (hr : ∀ c, (f c).references = c.references) :
    Consistent { s with pools := s.pools.modify p f } held ∧
      SameStrings s { s with pools := s.pools.modify p f } := by
  obtain ⟨hplaced, hsame⟩ := sameStrings_modifyPool hs.toPlaced (p := p) hf
  exact ⟨⟨hplaced, hs.toCounted.modifyPool hr⟩, hsame⟩

theorem vacant_of_references (hs : s.Consistent (p :: held)) (hp : s.pools.get? p = some cell)
    (hr : s.references p ≤ 1) : cell.pool.len = 0 := by
  by_contra hn
  obtain ⟨h, ho⟩ := (hs.wellFormed p cell hp).exists_owner (Nat.pos_of_ne_zero hn)
  obtain ⟨handle, hh, hpool, -⟩ := hs.settled hp ho
  have hle := Counted.le_handleReferences hh hpool
  have he := hs.references_eq p
  rw [List.count_cons_self] at he
  omega

theorem released (hs : s.Consistent (p :: held)) :
    (s.released p).Consistent held ∧ SameStrings s (s.released p) := by
  obtain ⟨cell, hp⟩ := hs.exists_of_held List.mem_cons_self
  have hc := hs.toCounted.released
  unfold Store.released at hc ⊢
  split
  · next hr =>
    rw [if_pos hr] at hc
    have hlen := hs.vacant_of_references hp hr
    have hw := hs.toPlaced.withPools (s.pools.erase p) ?_ ?_
    · exact ⟨⟨hw.1, hc⟩, .of_pools hw.2⟩
    · intro q c hq hl
      have hn : p ≠ q := by
        rintro rfl
        rw [hp] at hq
        cases hq
        omega
      exact ⟨c, by rw [Table.get?_erase, if_neg hn, hq], rfl⟩
    · intro q c hq
      exact .inl ⟨c, Table.get?_of_erase hq, rfl⟩
  · next hr =>
    rw [if_neg hr] at hc
    obtain ⟨hplaced, hsame⟩ := sameStrings_modifyPool hs.toPlaced (p := p)
      (f := fun cell => { cell with references := cell.references - 1 }) fun _ => rfl
    exact ⟨⟨hplaced, hc⟩, hsame⟩

theorem setOwned (hs : s.Consistent held) (hh : s.handles.get? h = some handle) (owned : Bool) :
    Consistent { s with handles := s.handles.modify h fun a => { a with owned } } held ∧
      SameStrings s { s with handles := s.handles.modify h fun a => { a with owned } } := by
  have hw := hs.toPlaced.withHandles (s.handles.modify h fun a => { a with owned }) ?_ ?_
  · refine ⟨⟨hw.1, hs.toCounted.modifyHandle fun _ => rfl⟩, hw.2, fun q => ?_, fun q => ?_⟩
    · exact orphans_modify hh rfl Iff.rfl
    · exact handleReferences_modify fun _ => rfl
  · intro x a q w hx hl
    rw [Table.get?_modify, hx]
    split
    · exact ⟨owned, rfl⟩
    · exact ⟨a.owned, rfl⟩
  · intro x a hx
    rw [Table.get?_modify] at hx
    split at hx
    · obtain ⟨a', ha', rfl⟩ := Option.map_eq_some_iff.mp hx
      exact .inl ⟨a'.owned, ha'⟩
    · exact .inl ⟨a.owned, hx⟩

end Consistent

theorem acquire_run_none (hp : s.pools.get? p = none) :
    (acquire p).run s = ⟨.error (.fault .dangling), s, []⟩ := Op.run_bind_error (shared_run_none hp)

theorem acquire_run (hp : s.pools.get? p = some cell) :
    (acquire p).run s = ⟨.ok (), s.acquired p, []⟩ := by
  rw [acquire, Op.run_bind_silent (shared_run hp)]
  rfl

theorem release_shared (hp : s.pools.get? p = some cell) (hr : 1 < cell.references) (unwinding : Bool) :
    (release unwinding p).run s = ⟨.ok (), s.released p, []⟩ := by
  have href := references_of_get? hp
  rw [release, Op.run_bind_silent (shared_run hp), Store.released, href,
    if_neg (Nat.not_le_of_lt hr), if_neg (Nat.not_le_of_lt hr)]
  rfl

theorem release_run (hs : s.Consistent (p :: held)) (unwinding : Bool) :
    (release unwinding p).run s = ⟨.ok (), s.released p, []⟩ := by
  obtain ⟨cell, hp⟩ := hs.exists_of_held List.mem_cons_self
  by_cases hle : cell.references ≤ 1
  · have href := references_of_get? hp
    have hlen := hs.vacant_of_references hp (href ▸ hle)
    rw [release, Op.run_bind_silent (shared_run hp), Store.released, href, if_pos hle, if_pos hle,
      tearDown, Op.run_bind_silent (shared_run hp), Op.run_modify_bind, if_neg (not_not.mpr hlen),
      Op.run_pure]
  · exact release_shared hp (Nat.lt_of_not_le hle) unwinding

end OffRow.Store
