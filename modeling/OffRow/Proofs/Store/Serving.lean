import OffRow.Proofs.Store.Refusals

namespace OffRow.Store

variable {s t : Store} {p : PoolId} {c : SharedPool} {h m : HandleId} {i : Nat}

def Owned (s : Store) : Prop :=
  ∀ ⦃p c i h⦄, s.pools.get? p = some c → c.pool.Owns i h →
    ∃ a, s.handles.get? h = some a ∧ a.temporary = false

theorem Placed.owned (hs : s.Placed) : s.Owned := by
  intro p c i h hp hi
  obtain ⟨a, ha, hpool, -⟩ := hs.settled hp hi
  exact ⟨a, ha, (hs.pooled ha hpool).1⟩

theorem Owned.congr (hs : s.Owned) (hh : t.handles = s.handles)
    (hp : ∀ {p d}, t.pools.get? p = some d → ∃ c, s.pools.get? p = some c ∧ c.pool = d.pool) :
    t.Owned := by
  intro p d i h hd hi
  obtain ⟨c, hc, he⟩ := hp hd
  rw [hh]
  exact hs hc (he ▸ hi)

theorem Kept.owned (ht : s.Kept t) (hs : s.Owned) : t.Owned := by
  intro p d i h hd hi
  cases hp : s.pools.get? p with
  | none =>
    obtain ⟨-, hlen⟩ := ht.newPools hd hp
    have hlt := hi.1
    omega
  | some c =>
    obtain ⟨references, hc⟩ := ht.pools hp
    rw [hd] at hc
    cases hc
    obtain ⟨a, ha, htemporary⟩ := hs hp hi
    obtain ⟨owned, hb⟩ := ht.handles ha
    exact ⟨_, hb, htemporary⟩

def Gives (s : Store) (p : PoolId) (c : SharedPool) : Prop :=
  ∀ size, size ≤ c.pool.blockSize → c.pool.CanAllocate s.grants →
    let o := (createIn p size).run s
    ∃ h d, o.result = .ok h ∧ o.state.pools.get? p = some d ∧
      (∀ j x b, d.pool.Holds j x b ↔
        c.pool.Holds j x b ∨ j = c.pool.len ∧ x = h ∧ b = Bytes.zeros c.pool.blockSize) ∧
      (bytes h).run o.state = ⟨.ok (Bytes.zeros size), o.state, []⟩

def Takes (s : Store) (p : PoolId) (c : SharedPool) : Prop :=
  ∀ i h m, c.pool.Owns i h → c.pool.Owns (c.pool.len - 1) m →
    let o := (freeBlock p (.block p (Pool.placeOf c.pool.firstSlots i)) h).run s
    ∃ d, o.result = .ok () ∧ o.state.pools.get? p = some d ∧
      (∀ j x b, d.pool.Holds j x b ↔
        j < c.pool.len - 1 ∧ c.pool.Holds (if j = i then c.pool.len - 1 else j) x b) ∧
      (i ≠ c.pool.len - 1 → (o.state.handles.get? m).map Handle.location =
        some (.block p (Pool.placeOf c.pool.firstSlots i)))

theorem gives (hp : s.pools.get? p = some c) (hw : c.pool.WellFormed) (hr : 0 < c.references)
    (hu : c.readers = 0) (ht : s.thread = c.pool.ownerThread) : s.Gives p c := by
  intro size hsize hg
  have hrun := createIn_run hp hw hr size
  simp only at hrun ⊢
  rw [if_neg (not_not.mpr hu), if_neg (Nat.not_lt_of_le hsize), if_neg (not_not.mpr ht),
    if_pos hg] at hrun
  let t := s.withOrphan p size
  let u := t.pushed p c.pool s.handles.next
  rw [show (createIn p size).run s = ⟨.ok s.handles.next, u, _⟩ from hrun]
  have hp' : t.pools.get? p = some { c with references := c.references + 1 } := get?_acquired hp
  have hh : t.handles.get? s.handles.next = some (.pooled p size) := by
    rw [get?_withOrphan, if_pos rfl]
  have hpool : u.pools.get? p =
      some ⟨c.pool.roomy.pushed s.handles.next, c.references + 1, c.readers⟩ := get?_setPool hp' _
  have hholds : ∀ j x b, (c.pool.roomy.pushed s.handles.next).Holds j x b ↔
      c.pool.Holds j x b ∨ j = c.pool.len ∧ x = s.handles.next ∧ b = Bytes.zeros c.pool.blockSize :=
    fun _ _ _ => Pool.holds_pushed hw hg
  refine ⟨s.handles.next, _, rfl, hpool, hholds, ?_⟩
  have hhandle : u.handles.get? s.handles.next = some
      { Handle.pooled p size with
        location := .block p (Pool.placeOf c.pool.firstSlots c.pool.len) } := by
    rw [get?_pushed hh, if_pos rfl]
  have hslot : (c.pool.roomy.pushed s.handles.next).slot?
      (Pool.placeOf c.pool.firstSlots c.pool.len) =
        some ⟨⟨some s.handles.next, c.pool.len⟩, Bytes.zeros c.pool.blockSize⟩ := by
    have hnew := (hholds c.pool.len _ _).mpr (.inr ⟨rfl, rfl, rfl⟩)
    rw [← Pool.roomy_firstSlots (p := c.pool)]
    exact hnew.2
  rw [bytes, Op.run_bind_silent (handle_run hhandle), Op.run_get_bind]
  simp only [bytes?, hpool, Option.bind_some, hslot, Option.map_some, Op.run_expect_some]
  rw [show (Handle.pooled p size).size = size from rfl, Bytes.extract_zeros _ hsize]

theorem takes (hs : s.Owned) (hp : s.pools.get? p = some c) (hw : c.pool.WellFormed)
    (ht : s.thread = c.pool.ownerThread) : s.Takes p c := by
  intro i h m hi hm
  have hl : IsLive c.pool p (.block p (Pool.placeOf c.pool.firstSlots i)) h i := ⟨hi, rfl⟩
  have hholds : ∀ j x b, (c.pool.freed i).Holds j x b ↔
      j < c.pool.len - 1 ∧ c.pool.Holds (if j = i then c.pool.len - 1 else j) x b :=
    fun _ _ _ => Pool.holds_freed_at hw hi.1
  by_cases hlast : i = c.pool.len - 1
  · rw [freeBlock_last hp hw ht hl hlast]
    exact ⟨_, rfl, get?_setPool hp _, hholds, fun hne => absurd hlast hne⟩
  · obtain ⟨a, ha, htemporary⟩ := hs hp hm
    have hrun := freeBlock_moving hp hw ht hl hlast hm
    simp only [ha, htemporary, Bool.false_eq_true, ↓reduceIte] at hrun
    rw [hrun]
    refine ⟨_, rfl, get?_setPool hp _, hholds, fun _ => ?_⟩
    rw [get?_setLocation, if_pos rfl, show (s.setPool p _).handles = s.handles from rfl, ha]
    rfl

theorem Owned.freeBlock_isRefusal (hs : s.Owned) (hp : s.pools.get? p = some c)
    (hw : c.pool.WellFormed) {payload : Address} {failure : Failure}
    (hf : ((checkUnused p >>= fun _ => freeBlock p payload h).run s).result = .error failure) :
    failure.isRefusal = true := by
  rcases checkUnused_bind s p (freeBlock p payload h) with ⟨cause, hcause, hrun⟩ | ⟨-, -, -, hrun⟩
  · rw [hrun] at hf
    cases hf
    rcases hcause with rfl | ⟨hn, -⟩
    · rfl
    · rw [hp] at hn
      cases hn
  rw [hrun] at hf
  have hfreeing := freeBlock_freeing hp hw payload h
  generalize (freeBlock p payload h).run s = o at hfreeing hf
  cases hfreeing with
  | refused hcause =>
    cases hf
    rcases hcause with rfl | ⟨_, rfl⟩ <;> rfl
  | last _ _ => cases hf
  | stuck _ hm htemporary _ =>
    obtain ⟨a, ha, hfalse⟩ := hs hp hm
    rw [htemporary a ha] at hfalse
    cases hfalse
  | moved _ _ _ => cases hf

end OffRow.Store
