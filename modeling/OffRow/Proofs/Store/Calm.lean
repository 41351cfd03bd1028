import OffRow.Proofs.Store.Custody
import OffRow.Proofs.Store.Scratch

namespace OffRow.Store

def Calm (s : Store) (held : List PoolId) (t : Store) : Prop := t.Consistent held ∧ SameStrings s t

variable {s t : Store} {held : List PoolId} {α : Type}

theorem Calm.step {u : Store} (ht : s.Calm held t) (h : t.Calm held u) : s.Calm held u :=
  ⟨h.1, ht.2.trans h.2⟩

theorem Calm.refl (hs : s.Consistent held) : s.Calm held s := ⟨hs, .refl s⟩

theorem calm_keeps {x : Op Store α}
    (h : ∀ t : Store, t.Consistent held → t.Calm held (x.run t).state) : Op.Keeps (Calm s held) x :=
  .of_state fun t ht => ht.step (h t ht.1)

theorem calm_readers (p : PoolId) (f : Nat → Nat) (ht : s.Calm held t) :
    s.Calm held { t with pools := t.pools.modify p fun c => { c with readers := f c.readers } } :=
  ht.step (ht.1.modifyPool (fun _ => rfl) fun _ => rfl)

theorem calm_owned (h : HandleId) (owned : Bool) (ht : s.Calm held t) :
    s.Calm held { t with handles := t.handles.modify h fun a => { a with owned } } := by
  cases hh : t.handles.get? h with
  | none =>
    have he : t.handles.modify h (fun a => { a with owned }) = t.handles := by
      apply Table.modify_eq_self
      intro a ha
      rw [hh] at ha
      cases ha
    rw [he]
    exact ht
  | some handle => exact ht.step (ht.1.setOwned hh owned)

theorem shrinkToFit_calm (p : PoolId) : Op.Keeps (Calm s held) (shrinkToFit p) := by
  apply calm_keeps
  intro t ht
  cases hp : t.pools.get? p with
  | none =>
    rw [shrinkToFit, onPool_run_none hp]
    exact .refl ht
  | some cell =>
    rw [shrinkToFit_run ht.toPlaced hp]
    exact ht.fitted hp

theorem dropRegistry_calm (unwinding : Bool) (r : RegistryId) :
    Op.Keeps (Calm s held) (dropRegistry unwinding r) :=
  calm_keeps fun _ ht => dropRegistry_state ht unwinding r

theorem poolForClass_calm (r : RegistryId) (c : SizeClass) :
    Op.Keeps (Calm s held) (poolForClass r c) :=
  poolForClass_obeys trivial (fun _ => trivial) (fun hr hp ht => ht.step (ht.1.opened hr hp)) r c

theorem poolForSize_calm (r : RegistryId) (size : Nat) :
    Op.Keeps (Calm s held) (poolForSize r size) :=
  .bind (.ofExcept _) fun c => poolForClass_calm r c

theorem addRegistry_calm {registry : Registry} (hr : registry.poolIds = []) :
    Op.Keeps (Calm s held) (addRegistry registry) :=
  addRegistry_obeys fun ht => ht.step (ht.1.addRegistry hr)

theorem calm_created (size : Nat) (a : ArenaId) (w : Place) (ht : s.Calm held t) :
    s.Calm held { t with handles := t.handles.add (.temp size (.scratch a w)) } := by
  have hw := ht.1.toPlaced.withHandles (t.handles.add (.temp size (.scratch a w))) ?_ ?_
  · refine ht.step ⟨⟨hw.1, ht.1.toCounted.addPoolless rfl⟩, hw.2, fun q => ?_, fun q => ?_⟩
    · exact (orphans_add _).trans (by simp [Handle.temp])
    · exact (handleReferences_add _).trans (by simp [Handle.temp])
  · intro x b q v hx _
    exact ⟨b.owned, by rw [Table.get?_add, if_neg (get?_ne_next hx), hx]⟩
  · intro x b hx
    rw [Table.get?_add] at hx
    split at hx
    · cases hx
      exact .inr ⟨fun _ _ => Address.noConfusion, fun _ hp => nomatch hp⟩
    · exact .inl ⟨b.owned, hx⟩

theorem calm_reclaimed (a : ArenaId) (ht : s.Calm held t) :
    s.Calm held { t with handles := t.handles.filter fun h => !livesIn a h } := by
  have hpass : ∀ h b, t.handles.get? h = some b → (!livesIn a b) = false →
      b.pool = none ∧ ∃ c w, b.location = .scratch c w := by
    intro h b hb hp
    unfold livesIn at hp
    split at hp
    · next c w hl =>
      simp only [Bool.not_eq_false', Bool.and_eq_true] at hp
      refine ⟨?_, c, w, hl⟩
      cases hpool : b.pool with
      | none => rfl
      | some q =>
        have htemp := (ht.1.pooled hb hpool).1
        rw [hp.1] at htemp
        cases htemp
    · cases hp
  have hw := ht.1.toPlaced.withHandles (t.handles.filter fun b => !livesIn a b) ?_ ?_
  · refine ht.step ⟨⟨hw.1, ht.1.toCounted.filterHandles fun h b hb hp => (hpass h b hb hp).1⟩, hw.2,
      fun q => ?_, fun q => handleReferences_filter fun h b hb hp => (hpass h b hb hp).1⟩
    apply Table.sum_filter
    intro h b hb hp
    simp [(hpass h b hb hp).1]
  · intro x b q v hx hl
    refine ⟨b.owned, ?_⟩
    have hn : livesIn a b = false := by
      unfold livesIn
      rw [hl]
    rw [Table.get?_filter, hx, Option.filter, hn]
    rfl
  · intro x b hx
    rw [Table.get?_filter, Option.filter_eq_some_iff] at hx
    exact .inl ⟨b.owned, hx.1⟩

theorem calm_aloof : Aloof (Calm s held) (fun _ => True) (fun _ => True) where
  arenas _ ht := ht.step ⟨ht.1.congr rfl rfl rfl, .congr rfl rfl⟩
  created := calm_created
  reclaimed := calm_reclaimed
  event _ := trivial
  failure _ := trivial

end OffRow.Store
