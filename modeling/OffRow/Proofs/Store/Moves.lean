import OffRow.Proofs.Store.Creation
import OffRow.Proofs.Store.Fills

namespace OffRow.Store

def Sound (s : Store) : Prop :=
  ∀ p c, s.pools.get? p = some c → c.pool.WellFormed ∧ 0 < c.references

abbrev Filled (p : PoolId) (f : Fill) : Store → Prop := View p fun q => q.fill = f

def moveIf {α : Type} (here : Prop) [Decidable here] (m : Move) : Except Failure α → Move
  | .ok _ => if here then m else .stay
  | .error _ => .stay

def moveOfCreation (p : PoolId) (s : Store) : Except Failure HandleId → Move
  | .ok h => if (s.handles.get? h).bind Handle.pool = some p then .take else .stay
  | .error _ => .stay

variable {s : Store} {p q : PoolId} {f : Fill} {m : Move} {c : SharedPool} {h owner : HandleId}

theorem rigid_filled (p : PoolId) (f : Fill) : Rigid (· ≠ p) (fun _ => True) (Filled p f) :=
  rigid_view fun hq hf => (hq.resolve_left (absurd rfl)).trans hf

theorem filled_of_get? (hp : s.pools.get? p = some c) : s.Filled p c.pool.fill := by
  refine ⟨Table.lt_next hp, fun hd => ?_⟩
  cases hp.symm.trans hd
  rfl

theorem Sound.wellFormed (hs : s.Sound) : s.WellFormed := fun p c hp => (hs p c hp).1

theorem Sound.opened (hs : s.Sound) (r : RegistryId) (registry : Registry) (k : SizeClass) :
    (s.opened r registry k).Sound := by
  intro p c hp
  rw [get?_opened] at hp
  split at hp
  · cases hp
    exact ⟨Pool.new_wellFormed _ _ _ _, Nat.one_pos⟩
  · exact hs p c hp

theorem Filled.setPool (hf : s.Filled p f) (hq : s.pools.get? q = some c) {pool : Pool}
    (hpool : pool.fill = c.pool.fill.moved m) :
    (s.setPool q pool).Filled p (f.moved (if q = p then m else .stay)) := by
  refine ⟨by rw [Store.setPool, Table.next_modify]; exact hf.known, fun {d} hd => ?_⟩
  by_cases hqp : q = p
  · subst hqp
    rw [get?_setPool hq] at hd
    cases hd
    rw [if_pos rfl, hpool, hf.holds hq]
  · rw [Store.setPool, Table.get?_modify, if_neg hqp] at hd
    rw [if_neg hqp]
    exact hf.holds hd

theorem Filled.released (hf : s.Filled p f) (q : PoolId) : (s.released q).Filled p f := by
  unfold Store.released
  by_cases hr : s.references q ≤ 1
  · rw [if_pos hr]
    exact (rigid_filled p f).erase q hf
  · rw [if_neg hr]
    exact (rigid_filled p f).modify (fun _ _ => ⟨rfl, .inr rfl⟩) hf

theorem Filled.withOrphan (hf : s.Filled p f) (q : PoolId) (size : Nat) :
    (s.withOrphan q size).Filled p f := by
  have hacquired : (s.acquired q).Filled p f :=
    (rigid_filled p f).modify (fun _ _ => ⟨rfl, .inr rfl⟩) hf
  exact hacquired.congr rfl

theorem allocateBlock_filled (hs : s.WellFormed) (hf : s.Filled p f) (q : PoolId) (owner : HandleId) :
    let o := (allocateBlock q owner).run s
    o.state.Filled p (f.moved (moveIf (q = p) .take o.result)) := by
  cases hq : s.pools.get? q with
  | none =>
    rw [allocateBlock, Op.run_get_bind, onPool_run_none hq]
    exact hf
  | some c =>
    have hw := hs q c hq
    rw [allocateBlock_run hq hw]
    split
    · exact hf
    · split
      · exact hf.setPool hq (Pool.fill_pushed hw.toShaped)
      · exact hf

theorem freeBlock_filled (hs : s.WellFormed) (hf : s.Filled p f) (q : PoolId) (payload : Address)
    (owner : HandleId) :
    let o := (freeBlock q payload owner).run s
    o.state.Filled p (f.moved (moveIf (q = p) .give o.result)) := by
  cases hq : s.pools.get? q with
  | none =>
    rw [freeBlock, Op.run_get_bind, Op.run_bind_error (onPool_run_none hq _)]
    exact hf
  | some c =>
    have hfreeing := freeBlock_freeing hq (hs q c hq) payload owner
    generalize (freeBlock q payload owner).run s = o at hfreeing
    cases hfreeing with
    | refused _ => exact hf
    | last _ _ => exact hf.setPool hq Pool.fill_freed
    | @stuck i _ _ _ _ _ _ =>
      have hstay : (c.pool.copied (c.pool.len - 1) i).fill = c.pool.fill.moved .stay := Pool.fill_copied
      have hcopied := hf.setPool hq hstay
      rwa [ite_self] at hcopied
    | moved _ _ _ => exact (hf.setPool hq Pool.fill_freed).congr rfl

theorem shrinkToFit_filled (hs : s.WellFormed) (hf : s.Filled p f) (q : PoolId) :
    let o := (shrinkToFit q).run s
    o.state.Filled p (f.moved (moveIf (q = p) .fit o.result)) := by
  cases hq : s.pools.get? q with
  | none =>
    rw [shrinkToFit, onPool_run_none hq]
    exact hf
  | some c =>
    rw [shrinkToFit, onPool_run hq, Pool.shrinkToFit_run (hs q c hq).toShaped]
    exact hf.setPool hq Pool.fill_fitted

theorem createIn_filled (hs : s.Sound) (hf : s.Filled p f) (q : PoolId) (size : Nat) :
    let o := (createIn q size).run s
    o.state.Filled p (f.moved (moveOfCreation p o.state o.result)) := by
  cases hq : s.pools.get? q with
  | none =>
    rw [createIn, Op.run_bind_error (acquire_run_none hq)]
    exact hf
  | some c =>
    obtain ⟨hw, hr⟩ := hs q c hq
    have ht := hf.withOrphan q size
    have hh := get?_withOrphan (s := s) (p := q) (x := s.handles.next) size
    rw [if_pos rfl] at hh
    have hrun := createIn_run hq hw hr size
    simp only at hrun
    rw [hrun]
    split
    · exact ht
    · split
      · exact ht
      · split
        · exact ht
        · split
          · simp only [moveOfCreation, get?_pushed hh, ↓reduceIte, Option.bind_some, Handle.pooled,
              Option.some.injEq]
            exact (ht.setPool (get?_acquired hq) (Pool.fill_pushed hw.toShaped)).congr rfl
          · have hback : ((s.withOrphan q size).withoutHandle s.handles.next).Filled p f := ht.congr rfl
            exact Filled.released hback q

theorem create_filled (hs : s.Sound) (hf : s.Filled p f) (r : RegistryId) (size : Nat) :
    let o := (create r size).run s
    o.state.Filled p (f.moved (moveOfCreation p o.state o.result)) := by
  cases hk : SizeClass.forSize size with
  | error cause =>
    rw [create, poolForSize, hk]
    exact hf
  | ok k =>
    cases hr : s.registries.get? r with
    | none =>
      have hpool : (poolForSize r size).run s = ⟨.error (.fault .dangling), s, []⟩ := by
        rw [poolForSize, hk, Op.run_ofExcept_ok_bind, poolForClass,
          Op.run_bind_error (registry_run_none hr)]
      rw [create, Op.run_bind_error hpool]
      exact hf
    | some registry =>
      cases hp : registry.pool? k with
      | some q =>
        rw [create_known hr hk hp]
        exact createIn_filled hs hf q size
      | none =>
        rw [create_fresh hr hk hp]
        exact createIn_filled (hs.opened r registry k) ((rigid_filled p f).opened k hr hf) _ size

theorem tearDown_absent (hq : s.pools.get? q = some c) (hk : q.number < s.pools.next.number)
    (unwinding : Bool) : View q (fun _ => False) ((tearDown unwinding q).run s).state := by
  have herased : View q (fun _ => False) { s with pools := s.pools.erase q } := by
    refine ⟨by rw [Table.next_erase]; exact hk, fun {d} hd => ?_⟩
    rw [Table.get?_erase, if_pos rfl] at hd
    cases hd
  rw [tearDown, Op.run_bind_silent (shared_run hq), Op.run_modify_bind]
  refine ((?_ : Op.Keeps (View q fun _ => False) _) _ herased).state
  split
  · refine .bind (.emit _) fun _ => ?_
    split
    · exact .fail _
    · exact .pure _
  · exact .pure _

theorem release_filled (hf : s.Filled p f) (g : Fill) (unwinding : Bool) (q : PoolId) :
    let o := (release unwinding q).run s
    o.state.Filled p f ∧ (q = p → ∀ failure, o.result = .error failure → o.state.Filled p g) := by
  have hkeep : ((release unwinding q).run s).state.Filled p f :=
    ((rigid_filled p f).custody.release unwinding q s hf).state
  refine ⟨hkeep, ?_⟩
  rintro rfl failure hfail
  cases hq : s.pools.get? q with
  | none =>
    rw [release, Op.run_bind_error (shared_run_none hq)]
    refine ⟨hf.known, fun hd => ?_⟩
    rw [hq] at hd
    cases hd
  | some c =>
    rw [release, Op.run_bind_silent (shared_run hq)] at hfail ⊢
    split
    · have habsent := tearDown_absent hq hf.known unwinding
      exact ⟨habsent.known, fun hd => (habsent.holds hd).elim⟩
    · next hr =>
      rw [if_neg hr] at hfail
      cases hfail

theorem destroy_filled (hs : s.WellFormed) (hf : s.Filled p f) (h : HandleId) :
    let o := (destroy h).run s
    o.state.Filled p
      (f.moved (moveIf ((s.handles.get? h).bind Handle.pool = some p) .give o.result)) := by
  cases hh : s.handles.get? h with
  | none =>
    rw [destroy, Op.run_bind_error (handle_run_none hh)]
    exact hf
  | some a =>
    let t : Store := { s with handles := s.handles.modify h fun a => { a with owned := false } }
    have ht : t.Filled p f := hf.congr rfl
    have hmodify : (modifyHandle h fun a => { a with owned := false }).run s = ⟨.ok (), t, []⟩ := rfl
    rw [destroy, Op.run_bind_silent (handle_run hh), Op.run_bind_silent hmodify, Option.bind_some]
    cases hpool : a.pool with
    | none => exact ht
    | some q =>
      simp only [Op.run_expect_some_bind, Option.some.injEq]
      rcases checkUnused_bind t q (freeBlock q a.location h >>= fun _ =>
        eraseHandle h >>= fun _ => release false q) with ⟨_, -, hrun⟩ | ⟨c, hq, -, hrun⟩
      · rw [hrun]
        exact ht
      · rw [hrun]
        have hfree := freeBlock_filled (s := t) hs ht q a.location h
        cases hr : (freeBlock q a.location h).run t with
        | mk result u events =>
          rw [hr] at hfree
          cases result with
          | error failure =>
            rw [Op.run_bind_error hr]
            exact hfree
          | ok _ =>
            have herased : Filled p (f.moved (if q = p then .give else .stay))
                { u with handles := u.handles.erase h } := hfree.congr rfl
            have herase : (eraseHandle h).run u = ⟨.ok (), { u with handles := u.handles.erase h }, []⟩ := rfl
            obtain ⟨hkeep, hgone⟩ := release_filled herased f false q
            rw [Op.run_bind_ok hr, Op.run_bind_silent herase]
            generalize (release false q).run { u with handles := u.handles.erase h } = o at hkeep hgone
            obtain ⟨result, v, events⟩ := o
            cases result with
            | ok _ => exact hkeep
            | error failure =>
              by_cases hqp : q = p
              · exact hgone hqp failure rfl
              · rwa [if_neg hqp] at hkeep

end OffRow.Store
