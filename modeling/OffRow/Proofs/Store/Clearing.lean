import OffRow.Proofs.Store.Creation
import Mathlib.Order.Interval.Set.Defs

namespace OffRow

theorem Pool.freed_ownerThread {p : Pool} {i : Nat} : (p.freed i).ownerThread = p.ownerThread := by
  unfold freed
  split <;> rfl

namespace Store

def destroyEach (s : Store) (l : List HandleId) : Store :=
  l.foldl (fun s h => ((destroy h).run s).state) s

def tenants (s : Store) (p : PoolId) : Set HandleId := {h | ∃ i b, s.Block p i h b}

def occupied (s : Store) (p : PoolId) : Set Nat := {i | ∃ h b, s.Block p i h b}

def Yields (s : Store) (p : PoolId) : Prop :=
  ∀ cell, s.pools.get? p = some cell → cell.readers = 0 ∧ s.thread = cell.pool.ownerThread

structure Cleared (s t : Store) (p : PoolId) (gone : List HandleId) : Prop where
  contents_eq : ∀ h, t.contents h = if h ∈ gone then none else s.contents h
  tenants_iff : ∀ h, h ∈ t.tenants p ↔ h ∈ s.tenants p ∧ h ∉ gone
  live_eq : t.liveIn p + gone.length = s.liveIn p

variable {s t u : Store} {p : PoolId} {cell : SharedPool} {h m : HandleId} {i : Nat} {handle : Handle}
  {gone l : List HandleId} {held : List PoolId}

theorem mem_tenants_iff (hp : s.pools.get? p = some cell) :
    h ∈ s.tenants p ↔ ∃ i, cell.pool.Owns i h := by
  simp [tenants, Block, hp, Pool.owns_iff]

theorem exists_of_mem_tenants (hh : h ∈ s.tenants p) :
    ∃ cell i, s.pools.get? p = some cell ∧ cell.pool.Owns i h := by
  obtain ⟨i, b, cell, hp, hi⟩ := hh
  exact ⟨cell, i, hp, hi.owns⟩

theorem Placed.exists_tenancy (hs : s.Placed) (hh : h ∈ s.tenants p) :
    ∃ cell i handle m, s.pools.get? p = some cell ∧ cell.pool.Owns i h ∧ s.handles.get? h = some handle ∧
      cell.pool.Owns (cell.pool.len - 1) m := by
  obtain ⟨cell, i, hp, hi⟩ := exists_of_mem_tenants hh
  obtain ⟨handle, hget, -⟩ := hs.settled hp hi
  have hlive := hi.1
  obtain ⟨m, hm⟩ := (hs.wellFormed p cell hp).exists_owner (show cell.pool.len - 1 < cell.pool.len by omega)
  exact ⟨cell, i, handle, m, hp, hi, hget, hm⟩

theorem Placed.mem_tenants (hs : s.Placed) :
    h ∈ s.tenants p ↔ (s.contents h).isSome ∧ (s.handles.get? h).bind Handle.pool = some p := by
  constructor
  · intro hh
    obtain ⟨cell, i, hp, hi⟩ := exists_of_mem_tenants hh
    obtain ⟨handle, hget, hpool, hl, -⟩ := hs.settled hp hi
    exact ⟨hs.contents_isSome.mpr ⟨handle, p, _, hget, hl⟩, by rw [hget]; exact hpool⟩
  · rintro ⟨hc, hpool⟩
    obtain ⟨b, hb⟩ := Option.isSome_iff_exists.mp hc
    obtain ⟨handle, q, cell, i, hget, hq, hi, hqpool, -⟩ := hs.exists_block hb
    rw [hget, Option.bind_some, hqpool, Option.some.injEq] at hpool
    exact (mem_tenants_iff (hpool ▸ hq)).mpr ⟨i, hi⟩

theorem WellFormed.occupied_eq (hs : s.WellFormed) (p : PoolId) : s.occupied p = Set.Iio (s.liveIn p) := by
  ext i
  cases hp : s.pools.get? p with
  | none => simp [occupied, Block, liveIn, hp]
  | some cell =>
    have hlive : i < cell.pool.len ↔ ∃ h, cell.pool.Owns i h := by
      refine ⟨(hs p cell hp).exists_owner, ?_⟩
      rintro ⟨h, hi⟩
      exact hi.1
    rw [Set.mem_Iio, liveIn_of_get? hp, hlive]
    simp [occupied, Block, hp, Pool.owns_iff]

namespace Cleared

theorem of_same (hc : t.contents = s.contents) (hp : t.pools = s.pools) : Cleared s t p [] where
  contents_eq h := by rw [hc, if_neg List.not_mem_nil]
  tenants_iff h := by simp [tenants, Block, hp]
  live_eq := by simp [liveIn, hp]

theorem refl (s : Store) (p : PoolId) : Cleared s s p [] := of_same rfl rfl

theorem append {more : List HandleId} (hst : Cleared s t p gone) (htu : Cleared t u p more) :
    Cleared s u p (gone ++ more) where
  contents_eq h := by
    rw [htu.contents_eq, hst.contents_eq]
    by_cases hg : h ∈ gone <;> by_cases hm : h ∈ more <;> simp [hg, hm]
  tenants_iff h := by
    rw [htu.tenants_iff, hst.tenants_iff, List.mem_append, not_or, and_assoc]
  live_eq := by
    have hs := hst.live_eq
    have ht := htu.live_eq
    rw [List.length_append]
    omega

theorem agree {other : List HandleId} (ht : Cleared s t p gone) (hu : Cleared s u p other)
    (hperm : gone.Perm other) :
    t.contents = u.contents ∧ t.tenants p = u.tenants p ∧ t.liveIn p = u.liveIn p := by
  refine ⟨funext fun h => ?_, Set.ext fun h => ?_, ?_⟩
  · simp only [ht.contents_eq, hu.contents_eq, hperm.mem_iff]
  · rw [ht.tenants_iff, hu.tenants_iff, hperm.mem_iff]
  · have hlive := ht.live_eq
    have hlive' := hu.live_eq
    rw [hperm.length_eq] at hlive
    omega

theorem mem_tenants (hs : s.Placed) (ht : Cleared s t p gone) :
    h ∈ t.tenants p ↔ h ∈ s.tenants p ∧ (t.contents h).isSome := by
  rw [ht.tenants_iff, ht.contents_eq]
  refine and_congr_right fun hh => ?_
  have hsome := (hs.mem_tenants.mp hh).1
  by_cases hg : h ∈ gone <;> simp [hg, hsome]

end Cleared

namespace Consistent

theorem destroy_yields (hs : s.Consistent held) (hy : s.Yields p) (hh : h ∈ s.tenants p) :
    let t := ((destroy h).run s).state
    t.Consistent held ∧ t.Yields p ∧ Cleared s t p [h] := by
  intro t
  obtain ⟨cell, i, handle, m, hp, hi, hget, hm⟩ := hs.exists_tenancy hh
  obtain ⟨hreaders, hthread⟩ := hy cell hp
  let r : Store := { s with handles := s.handles.modify h fun a => { a with owned := false } }
  let v := r.pulled p cell.pool i h m
  have ht : t = v.released p := by
    have hrun := destroy_run hs hget hp hi hm
    simp only at hrun
    rw [if_neg (not_not.mpr hreaders), if_neg (not_not.mpr hthread)] at hrun
    exact congrArg Outcome.state hrun
  have hdestroyed := hs.destroyed hget hp hi hm
  simp only at hdestroyed
  obtain ⟨hconsistent, hcontents, -⟩ := hdestroyed
  rw [show (r.pulled p cell.pool i h m).released p = t from ht.symm] at hconsistent hcontents
  have hv : v.pools.get? p = some { cell with pool := cell.pool.freed i } :=
    get?_setPool (s := r) hp (cell.pool.freed i)
  have hpool : ∀ x, x ≠ h → (t.handles.get? x).bind Handle.pool = (s.handles.get? x).bind Handle.pool := by
    intro x hx
    have hr : (r.handles.get? x) = s.handles.get? x := by
      rw [Table.get?_modify, if_neg (Ne.symm hx)]
    rw [ht, show (v.released p).handles = v.handles from rfl, get?_pulled, if_neg (Ne.symm hx), hr]
    split
    · cases s.handles.get? x <;> rfl
    · rfl
  refine ⟨hconsistent, ?_, ?_, ?_, ?_⟩
  · intro d hd
    rw [ht, get?_released, if_pos rfl] at hd
    split at hd
    · cases hd
    · rw [hv] at hd
      cases hd
      have hcaller : t.thread = s.thread := by
        rw [ht]
        rfl
      exact ⟨hreaders, hcaller.trans (hthread.trans Pool.freed_ownerThread.symm)⟩
  · intro x
    rw [hcontents, Function.update_apply]
    simp
  · intro x
    rw [hconsistent.mem_tenants, hs.mem_tenants, hcontents, Function.update_apply, List.mem_singleton]
    by_cases hx : x = h
    · simp [hx]
    · rw [if_neg hx, hpool x hx]
      simp [hx]
  · have hpulled := (hs.setOwned hget false).1.pulled hp hi hm
    have hsame : (v.released p).liveIn p = v.liveIn p := (hpulled.1.count_released p).1
    rw [ht, hsame, liveIn_of_get? hv, liveIn_of_get? hp, Pool.freed_len, List.length_singleton]
    exact Nat.sub_add_cancel (Nat.zero_lt_of_lt hi.1)

theorem destroy_refused (hs : s.Consistent held) (hy : ¬s.Yields p) (hh : h ∈ s.tenants p) :
    let t := ((destroy h).run s).state
    t.Consistent held ∧ ¬t.Yields p ∧ Cleared s t p [] := by
  intro t
  obtain ⟨cell, i, handle, m, hp, hi, hget, hm⟩ := hs.exists_tenancy hh
  have hclosed : ¬(cell.readers = 0 ∧ s.thread = cell.pool.ownerThread) := by
    intro hopen
    apply hy
    intro d hd
    rw [hp] at hd
    cases hd
    exact hopen
  have ht : t = { s with handles := s.handles.modify h fun a => { a with owned := false } } := by
    have hrun := destroy_run hs hget hp hi hm
    simp only at hrun
    by_cases hreaders : cell.readers = 0
    · rw [if_neg (not_not.mpr hreaders), if_pos fun hthread => hclosed ⟨hreaders, hthread⟩] at hrun
      exact congrArg Outcome.state hrun
    · rw [if_pos hreaders] at hrun
      exact congrArg Outcome.state hrun
  obtain ⟨hconsistent, hsame⟩ := hs.setOwned hget false
  rw [ht]
  exact ⟨hconsistent, hy, .of_same hsame.contents_eq rfl⟩

theorem destroyEach_yields (hs : s.Consistent held) (hy : s.Yields p) (hn : l.Nodup)
    (hl : ∀ h ∈ l, h ∈ s.tenants p) :
    (s.destroyEach l).Consistent held ∧ Cleared s (s.destroyEach l) p l := by
  induction l generalizing s with
  | nil => exact ⟨hs, .refl s p⟩
  | cons h l ih =>
    obtain ⟨hh, hrest⟩ := List.forall_mem_cons.mp hl
    obtain ⟨hnot, hn⟩ := List.nodup_cons.mp hn
    obtain ⟨ht, hty, hclear⟩ := hs.destroy_yields hy hh
    have hstill : ∀ x ∈ l, x ∈ ((destroy h).run s).state.tenants p := by
      intro x hx
      refine (hclear.tenants_iff x).mpr ⟨hrest x hx, fun hmem => ?_⟩
      exact hnot (List.mem_singleton.mp hmem ▸ hx)
    obtain ⟨hend, hall⟩ := ih ht hty hn hstill
    exact ⟨hend, hclear.append hall⟩

theorem destroyEach_refused (hs : s.Consistent held) (hy : ¬s.Yields p) (hl : ∀ h ∈ l, h ∈ s.tenants p) :
    (s.destroyEach l).Consistent held ∧ Cleared s (s.destroyEach l) p [] := by
  induction l generalizing s with
  | nil => exact ⟨hs, .refl s p⟩
  | cons h l ih =>
    obtain ⟨hh, hrest⟩ := List.forall_mem_cons.mp hl
    obtain ⟨ht, hty, hkept⟩ := hs.destroy_refused hy hh
    have hstill : ∀ x ∈ l, x ∈ ((destroy h).run s).state.tenants p :=
      fun x hx => (hkept.tenants_iff x).mpr ⟨hrest x hx, List.not_mem_nil⟩
    obtain ⟨hend, hall⟩ := ih ht hty hstill
    exact ⟨hend, hkept.append hall⟩

end Consistent

end Store

end OffRow
