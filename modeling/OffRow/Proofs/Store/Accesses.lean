import OffRow.Proofs.Store.Checking
import OffRow.Proofs.Store.Lifetimes

namespace OffRow.Store

variable {s : Store} {p q : PoolId} {cell : SharedPool} {h : HandleId} {handle : Handle}
  {held : List PoolId} {b : ByteArray}

def entered (s : Store) : Option PoolId → Store
  | none => s
  | some p =>
    { s with pools := s.pools.modify p fun cell => { cell with readers := cell.readers + 1 } }

def left (s : Store) : Option PoolId → Store
  | none => s
  | some p =>
    { s with pools := s.pools.modify p fun cell => { cell with readers := cell.readers - 1 } }

@[simp] theorem entered_handles (s : Store) (pool : Option PoolId) :
    (s.entered pool).handles = s.handles := by
  cases pool <;> rfl

@[simp] theorem left_handles (s : Store) (pool : Option PoolId) :
    (s.left pool).handles = s.handles := by
  cases pool <;> rfl

theorem get?_entered (s : Store) (pool : Option PoolId) (p : PoolId) :
    (s.entered pool).pools.get? p = (s.pools.get? p).map fun cell =>
      { cell with readers := cell.readers + if pool = some p then 1 else 0 } := by
  cases pool with
  | none =>
    change s.pools.get? p = _
    cases s.pools.get? p <;> simp
  | some q =>
    refine (Table.get?_modify _ _ _ _).trans ?_
    split
    · next he => simp [he]
    · next he => cases s.pools.get? p <;> simp [he]

theorem get?_left (s : Store) (pool : Option PoolId) (p : PoolId) :
    (s.left pool).pools.get? p = (s.pools.get? p).map fun cell =>
      { cell with readers := cell.readers - if pool = some p then 1 else 0 } := by
  cases pool with
  | none =>
    change s.pools.get? p = _
    cases s.pools.get? p <;> simp
  | some q =>
    refine (Table.get?_modify _ _ _ _).trans ?_
    split
    · next he => simp [he]
    · next he => cases s.pools.get? p <;> simp [he]

theorem left_entered (s : Store) (pool : Option PoolId) : (s.entered pool).left pool = s := by
  cases pool with
  | none => rfl
  | some p =>
    have hm : ((s.pools.modify p fun cell => { cell with readers := cell.readers + 1 }).modify p
        fun cell => { cell with readers := cell.readers - 1 }) = s.pools := by
      rw [Table.modify_modify]
      apply Table.modify_eq_self
      intro c _
      rfl
    simp only [entered, left, hm]

theorem beginAccess_run (hh : s.handles.get? h = some handle) :
    (beginAccess h).run s = ⟨.ok (), s.entered handle.pool, []⟩ := by
  rw [beginAccess, Op.run_bind_silent (handle_run hh)]
  cases handle.pool <;> rfl

theorem endAccess_run (hh : s.handles.get? h = some handle) :
    (endAccess h).run s = ⟨.ok (), s.left handle.pool, []⟩ := by
  rw [endAccess, Op.run_bind_silent (handle_run hh)]
  cases handle.pool <;> rfl

theorem Placed.entered (hs : s.Placed) (pool : Option PoolId) :
    (s.entered pool).Placed ∧ SameStrings s (s.entered pool) := by
  cases pool with
  | none => exact ⟨hs, .refl s⟩
  | some p => exact Consistent.sameStrings_modifyPool hs fun _ => rfl

namespace Consistent

theorem entered (hs : s.Consistent held) (pool : Option PoolId) :
    (s.entered pool).Consistent held ∧ SameStrings s (s.entered pool) := by
  cases pool with
  | none => exact ⟨hs, .refl s⟩
  | some p => exact hs.modifyPool (fun _ => rfl) fun _ => rfl

theorem left (hs : s.Consistent held) (pool : Option PoolId) :
    (s.left pool).Consistent held ∧ SameStrings s (s.left pool) := by
  cases pool with
  | none => exact ⟨hs, .refl s⟩
  | some p => exact hs.modifyPool (fun _ => rfl) fun _ => rfl

end Consistent

theorem bytes_outcome (hh : s.handles.get? h = some handle) :
    (bytes h).run s =
      match s.bytes? handle with
      | some b => ⟨.ok b, s, []⟩
      | none => ⟨.error (.fault .dangling), s, []⟩ := by
  rw [bytes, Op.run_bind_silent (handle_run hh), Op.run_get_bind]
  cases s.bytes? handle <;> rfl

theorem bytes_run (hc : s.contents h = some b) : (bytes h).run s = ⟨.ok b, s, []⟩ := by
  obtain ⟨handle, hh, hb⟩ := Option.bind_eq_some_iff.mp hc
  have hbytes : s.bytes? handle = some b := by
    cases hl : handle.location with
    | nowhere => simp [hl] at hb
    | scratch a w => simp [hl] at hb
    | block p w => simpa only [hl] using hb
  rw [bytes_outcome hh, hbytes]

theorem guarded_run {α : Type} (hh : s.handles.get? h = some handle) (x : Op Store α)
    (hk : ((x.run (s.entered handle.pool)).state.handles.get? h).map Handle.pool = some handle.pool) :
    (do beginAccess h; Op.andFinally x (endAccess h) : Op Store α).run s =
      ⟨(x.run (s.entered handle.pool)).result, (x.run (s.entered handle.pool)).state.left handle.pool,
        (x.run (s.entered handle.pool)).events⟩ := by
  obtain ⟨a, ha, hpool⟩ := Option.map_eq_some_iff.mp hk
  have hend := endAccess_run ha
  rw [hpool] at hend
  rw [Op.run_bind_silent (beginAccess_run hh)]
  exact Op.run_andFinally _ hend

theorem read_run (hs : s.Placed) (hc : s.contents h = some b) :
    (Store.read h pure).run s = ⟨.ok b, s, []⟩ := by
  obtain ⟨handle, hh, -⟩ := Option.bind_eq_some_iff.mp hc
  have hc' : (s.entered handle.pool).contents h = some b := by
    rw [(hs.entered handle.pool).2.contents_eq, hc]
  have hbody : (bytes h >>= pure).run (s.entered handle.pool) = ⟨.ok b, s.entered handle.pool, []⟩ :=
    Op.run_bind_silent (bytes_run hc')
  have hrun := guarded_run hh (bytes h >>= pure)
  rw [hbody] at hrun
  rw [Store.read, hrun (by simp [hh]), left_entered]

theorem check_run (hs : s.Placed) (hp : s.pools.get? p = some cell) :
    (check p).run s = ⟨.ok (), s, []⟩ := by
  have hi : integrityCheck s p cell.pool = .ok () := by
    apply integrityCheck_ok (hs.wellFormed p cell hp)
    intro i h ho
    obtain ⟨handle, hh, -, hl, hsize⟩ := hs.settled hp ho
    exact ⟨handle, hh, hl, hsize⟩
  rw [check, Op.run_bind_silent (shared_run hp), Op.run_get_bind, hi]
  rfl

theorem shrinkToFit_run (hs : s.Placed) (hp : s.pools.get? p = some cell) :
    (shrinkToFit p).run s =
      ⟨.ok (), s.setPool p cell.pool.fitted,
        Pool.releaseEvents cell.pool cell.pool.isSpare cell.pool.chunks.size⟩ := by
  rw [shrinkToFit, onPool_run hp, Pool.shrinkToFit_run (hs.wellFormed p cell hp).toShaped]

theorem Consistent.fitted (hs : s.Consistent held) (hp : s.pools.get? p = some cell) :
    (s.setPool p cell.pool.fitted).Consistent held ∧
      SameStrings s (s.setPool p cell.pool.fitted) := by
  obtain ⟨ht, hc⟩ := hs.toPlaced.fitted hp
  exact ⟨⟨ht, hs.toCounted.setPool _⟩, .of_pools hc⟩

theorem Placed.exists_block (hs : s.Placed) (hc : s.contents h = some b) :
    ∃ handle p cell i, s.handles.get? h = some handle ∧ s.pools.get? p = some cell ∧
      cell.pool.Owns i h ∧ handle.pool = some p ∧
      handle.location = .block p (Pool.placeOf cell.pool.firstSlots i) := by
  obtain ⟨p, i, payload, handle, ⟨cell, hp, ho⟩, hh, -⟩ := hs.contents_eq_some.mp hc
  obtain ⟨a, ha, hpool, hl, -⟩ := hs.settled hp ho.owns
  rw [hh] at ha
  cases ha
  exact ⟨handle, p, cell, i, hh, hp, ho.owns, hpool, hl⟩

theorem overwrite_run (hs : s.Consistent held) (hc : s.contents h = some b) (start : Nat)
    (data : ByteArray) :
    ∃ t, (overwrite h start data).run s = ⟨.ok (), t, []⟩ ∧ t.Consistent held ∧
      t.contents = Function.update s.contents h (some (Bytes.patch b start data)) ∧
      ∀ q, t.orphans q = s.orphans q := by
  obtain ⟨handle, p, cell, i, hh, hp, hi, -, hl⟩ := hs.exists_block hc
  obtain ⟨payload, ho⟩ := Pool.owns_iff.mp hi
  obtain ⟨ht, hcontents⟩ := hs.toPlaced.overwritten hp hi hh start data
  rw [hc, Option.map_some] at hcontents
  refine ⟨_, ?_, ⟨ht, hs.toCounted.setPool _⟩, hcontents, fun q => rfl⟩
  have hslot : cell.pool.slot? (Pool.placeOf cell.pool.firstSlots i) = some _ := ho.2
  have he : ∀ f : ByteArray → ByteArray, cell.pool.setSlot (Pool.placeOf cell.pool.firstSlots i)
      ⟨⟨some h, i⟩, f payload⟩ = cell.pool.rewritten i f := by
    intro f
    rw [Pool.rewritten, ho.2]
    rfl
  rw [overwrite, Op.run_bind_silent (handle_run hh)]
  simp only [hl, onPool_run hp, Op.run_get_bind, hslot, Op.run_expect_some_bind, Op.run_modify]
  rw [← he]

theorem onArena_state {α : Type} (s : Store) (a : ArenaId) (x : Op Arena α) :
    ∃ arenas, ((onArena a x).run s).state = { s with arenas } := by
  cases ha : s.arenas.get? a with
  | none =>
    rw [onArena, Op.run_within_none s ha]
    exact ⟨s.arenas, rfl⟩
  | some arena =>
    rw [onArena, Op.run_within s ha]
    exact ⟨_, rfl⟩

theorem overwrite_elsewhere (hs : s.Consistent held) (hc : s.contents h = none) (start : Nat)
    (data : ByteArray) :
    ((overwrite h start data).run s).state.Consistent held ∧
      SameStrings s ((overwrite h start data).run s).state := by
  cases hh : s.handles.get? h with
  | none =>
    rw [overwrite, Op.run_bind_error (handle_run_none hh)]
    exact ⟨hs, .refl s⟩
  | some handle =>
    rw [overwrite, Op.run_bind_silent (handle_run hh)]
    simp only
    cases hl : handle.location with
    | nowhere => exact ⟨hs, .refl s⟩
    | block p w =>
      have hsome := hs.contents_isSome.mpr ⟨handle, p, w, hh, hl⟩
      rw [hc] at hsome
      cases hsome
    | scratch a w =>
      obtain ⟨arenas, he⟩ := onArena_state s a (Op.modify
        (·.store ⟨w.chunk, w.offset + min start handle.size⟩
          (data.extract 0 (handle.size - min start handle.size))))
      rw [he]
      exact ⟨hs.congr rfl rfl rfl, .congr rfl rfl⟩

end OffRow.Store
