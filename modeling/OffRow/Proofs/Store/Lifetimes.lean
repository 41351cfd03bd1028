import OffRow.Proofs.Store.Consistency

namespace OffRow.Store

variable {s : Store} {p q : PoolId} {cell : SharedPool} {h m : HandleId} {i : Nat}
  {handle : Handle} {held : List PoolId}

def withOrphan (s : Store) (p : PoolId) (size : Nat) : Store :=
  { s.acquired p with handles := s.handles.add (.pooled p size) }

def withoutHandle (s : Store) (h : HandleId) : Store := { s with handles := s.handles.erase h }

def grants (s : Store) (bytes : Nat) : Bool := (s.allocator bytes).isSome

theorem checkUnused_run (hp : s.pools.get? p = some cell) :
    (checkUnused p).run s =
      if cell.readers = 0 then ⟨.ok (), s, []⟩ else ⟨.error (.fault .poolInUse), s, []⟩ := by
  rw [checkUnused, Op.run_bind_silent (shared_run hp), Op.ensure]
  split <;> rfl

theorem checkUnused_bind {α : Type} (s : Store) (p : PoolId) (x : Op Store α) :
    (∃ cause, (cause = .poolInUse ∨ s.pools.get? p = none ∧ cause = .dangling) ∧
        (checkUnused p >>= fun _ => x).run s = ⟨.error (.fault cause), s, []⟩) ∨
      ∃ c, s.pools.get? p = some c ∧ c.readers = 0 ∧
        (checkUnused p >>= fun _ => x).run s = x.run s := by
  cases hp : s.pools.get? p with
  | none =>
    have hu : (checkUnused p).run s = ⟨.error (.fault .dangling), s, []⟩ := by
      rw [checkUnused, Op.run_bind_error (shared_run_none hp)]
    exact .inl ⟨_, .inr ⟨rfl, rfl⟩, Op.run_bind_error hu⟩
  | some c =>
    have hu := checkUnused_run hp
    by_cases hr : c.readers = 0
    · rw [if_pos hr] at hu
      exact .inr ⟨c, rfl, hr, Op.run_bind_silent hu⟩
    · rw [if_neg hr] at hu
      exact .inl ⟨_, .inl rfl, Op.run_bind_error hu⟩

theorem get?_acquired (hp : s.pools.get? p = some cell) :
    (s.acquired p).pools.get? p = some { cell with references := cell.references + 1 } := by
  rw [acquired, Table.get?_modify, if_pos rfl, hp]
  rfl

theorem get?_withOrphan {x : HandleId} (size : Nat) :
    (s.withOrphan p size).handles.get? x =
      if x = s.handles.next then some (.pooled p size) else s.handles.get? x :=
  Table.get?_add _ _ _

theorem unplaced_pooled (p : PoolId) (size : Nat) : (Handle.pooled p size).Unplaced where
  no_block _ _ := Address.noConfusion
  pooled _ _ := ⟨rfl, fun _ _ => Address.noConfusion⟩

theorem get?_ne_next {t : Table .handle Handle} (hh : t.get? h = some handle) : h ≠ t.next := by
  rintro rfl
  rw [Table.get?_next] at hh
  cases hh

namespace Consistent

theorem withOrphan (hs : s.Consistent held) (hp : s.pools.get? p = some cell) (size : Nat) :
    (s.withOrphan p size).Consistent held ∧ (s.withOrphan p size).contents = s.contents ∧
      (∀ q, (s.withOrphan p size).orphans q = s.orphans q + if p = q then 1 else 0) ∧
      ∀ q, (s.withOrphan p size).handleReferences q =
        s.handleReferences q + if p = q then 1 else 0 := by
  obtain ⟨ha, hsame⟩ := hs.acquired hp
  have hw := ha.toPlaced.withHandles (s.handles.add (.pooled p size)) ?_ ?_
  · refine ⟨⟨hw.1, ha.toCounted.addHandle rfl⟩, hw.2.trans hsame.contents_eq, fun q => ?_, fun q => ?_⟩
    · have ho : (s.withOrphan p size).orphans q = s.orphans q + _ := orphans_add (.pooled p size)
      simpa only [Handle.pooled, Option.some.injEq, and_true] using ho
    · have hr : (s.withOrphan p size).handleReferences q = s.handleReferences q + _ :=
        handleReferences_add (.pooled p size)
      simpa only [Handle.pooled, Option.some.injEq] using hr
  · intro x a r w hx hl
    have hx : s.handles.get? x = some a := hx
    exact ⟨a.owned, by rw [Table.get?_add, if_neg (get?_ne_next hx), hx]⟩
  · intro x a hx
    rw [Table.get?_add] at hx
    split at hx
    · cases hx
      exact .inr (unplaced_pooled p size)
    · exact .inl ⟨a.owned, hx⟩

theorem withoutHandle (hs : s.Consistent held) (hh : s.handles.get? h = some handle)
    (hpool : handle.pool = some p) (hl : handle.location = .nowhere) :
    (s.withoutHandle h).Consistent (p :: held) ∧
      (s.withoutHandle h).contents = s.contents := by
  have hw := hs.toPlaced.withHandles (s.handles.erase h) ?_ ?_
  · exact ⟨⟨hw.1, hs.toCounted.eraseHandle hh hpool⟩, hw.2⟩
  · intro x a r w hx hb
    have hn : h ≠ x := by
      rintro rfl
      rw [hh] at hx
      cases hx
      rw [hl] at hb
      cases hb
    exact ⟨a.owned, by rw [Table.get?_erase, if_neg hn]; exact hx⟩
  · intro x a hx
    exact .inl ⟨a.owned, Table.get?_of_erase hx⟩

theorem abandoned (hs : s.Consistent held) (hp : s.pools.get? p = some cell) (size : Nat) :
    let t := ((s.withOrphan p size).withoutHandle s.handles.next).released p
    t.Consistent held ∧ SameStrings s t := by
  obtain ⟨ho, hcontents, horphans, hrefs⟩ := hs.withOrphan hp size
  have hh := get?_withOrphan (s := s) (p := p) (x := s.handles.next) size
  rw [if_pos rfl] at hh
  obtain ⟨hw, hcontents'⟩ := ho.withoutHandle hh rfl rfl
  obtain ⟨hr, hsame⟩ := hw.released
  refine ⟨hr, hsame.contents_eq.trans (hcontents'.trans hcontents), fun q => ?_, fun q => ?_⟩
  · have he := orphans_erase (q := q) hh
    rw [hsame.orphans_eq q]
    simp only [Handle.pooled, Option.some.injEq, and_true, horphans q] at he
    exact Nat.add_right_cancel he
  · have he := handleReferences_erase (q := q) hh
    rw [hsame.handleReferences_eq q]
    simp only [Handle.pooled, Option.some.injEq, hrefs q] at he
    exact Nat.add_right_cancel he

end Consistent

theorem takeBack_run (hp : (s.withoutHandle h).pools.get? p = some cell) (hr : 1 < cell.references)
    {α : Type} (e : Error) :
    ((do eraseHandle h; release false p; Op.error e) : Op Store α).run s =
      ⟨.error (.error e), (s.withoutHandle h).released p, []⟩ := by
  have herase : (eraseHandle h).run s = ⟨.ok (), s.withoutHandle h, []⟩ := rfl
  rw [Op.run_bind_silent herase, Op.run_bind_silent (release_shared hp hr false), Op.run_error]

theorem install_run {size : Nat} (hh : s.handles.get? h = some (.pooled p size)) (pool : Pool) :
    (do
      updateLocation h (.block p (Pool.placeOf pool.firstSlots pool.len))
      modifyHandle h fun handle => { handle with owned := true }
      pure h : Op Store HandleId).run (s.setPool p (pool.roomy.pushed h)) =
      ⟨.ok h, s.pushed p pool h, []⟩ := by
  have hl := updateLocation_run (s.setPool p (pool.roomy.pushed h)) h
    (.block p (Pool.placeOf pool.firstSlots pool.len))
  rw [show (s.setPool p (pool.roomy.pushed h)).handles = s.handles from rfl, hh] at hl
  have howned : (s.pushed p pool h).handles.modify h (fun handle => { handle with owned := true }) =
      (s.pushed p pool h).handles := by
    apply Table.modify_eq_self
    intro a ha
    rw [get?_pushed hh, if_pos rfl] at ha
    cases ha
    rfl
  have hmodify : (modifyHandle h fun handle => { handle with owned := true }).run
      (s.pushed p pool h) = ⟨.ok (), s.pushed p pool h, []⟩ := by
    rw [modifyHandle, Op.run_modify, howned]
  rw [Op.run_bind_silent hl, ← Store.pushed, Op.run_bind_silent hmodify, Op.run_pure]

theorem createIn_run (hp : s.pools.get? p = some cell) (hw : cell.pool.WellFormed)
    (hr : 0 < cell.references) (size : Nat) :
    let t := s.withOrphan p size
    (createIn p size).run s =
      if cell.readers ≠ 0 then ⟨.error (.fault .poolInUse), t, []⟩
      else if cell.pool.blockSize < size then ⟨.error (.fault .sizeExceedsBlock), t, []⟩
      else if s.thread ≠ cell.pool.ownerThread then
        ⟨.error (.fault (.wrongThread cell.pool.blockSize)), t, []⟩
      else if cell.pool.CanAllocate s.grants then
        ⟨.ok s.handles.next, t.pushed p cell.pool s.handles.next,
          cell.pool.growthEvents ++ [.blockAllocated cell.pool.blockSize cell.pool.len]⟩
      else
        ⟨.error (.error (.outOfMemory
          (min (cell.pool.chunkBytes cell.pool.chunks.size) Word.largest))),
          (t.withoutHandle s.handles.next).released p, []⟩ := by
  intro t
  have hp' : t.pools.get? p = some { cell with references := cell.references + 1 } := get?_acquired hp
  have hadd : (addHandle (.pooled p size)).run (s.acquired p) = ⟨.ok s.handles.next, t, []⟩ := rfl
  have hh : t.handles.get? s.handles.next = some (.pooled p size) := by
    rw [get?_withOrphan, if_pos rfl]
  have hu := checkUnused_run hp'
  rw [createIn, Op.run_bind_silent (acquire_run hp), Op.run_bind_silent hadd]
  by_cases hreaders : cell.readers = 0
  case neg =>
    rw [if_neg hreaders] at hu
    rw [if_pos hreaders, Op.run_bind_error hu]
  rw [if_pos hreaders] at hu
  rw [if_neg (not_not.mpr hreaders), Op.run_bind_silent hu, Op.run_bind_silent (shared_run hp')]
  by_cases hsize : size ≤ cell.pool.blockSize
  case neg => rw [if_pos (Nat.lt_of_not_le hsize), Op.run_ensure_bind_neg t hsize]
  rw [if_neg (Nat.not_lt_of_le hsize), Op.run_ensure_bind_pos t hsize]
  have hb := allocateBlock_run hp' hw s.handles.next
  simp only [show t.thread = s.thread from rfl,
    show (fun bytes => (t.allocator bytes).isSome) = s.grants from rfl] at hb
  by_cases ht : s.thread = cell.pool.ownerThread
  case neg =>
    rw [if_pos ht] at hb
    rw [if_pos ht]
    exact Op.run_bind_error (Op.run_recover_error t hb)
  rw [if_neg (not_not.mpr ht)] at hb
  rw [if_neg (not_not.mpr ht)]
  by_cases hg : cell.pool.CanAllocate s.grants
  case neg =>
    rw [if_neg hg] at hb
    rw [if_neg hg]
    have htake : ∀ e, ((do eraseHandle s.handles.next; release false p; Op.error e) : Op Store Place).run t =
        ⟨.error (.error e), (t.withoutHandle s.handles.next).released p, []⟩ :=
      takeBack_run (s := t) (h := s.handles.next) hp' (Nat.succ_lt_succ hr)
    exact Op.run_bind_error ((Op.run_recover_error t hb).trans (htake _))
  rw [if_pos hg] at hb
  rw [if_pos hg, Op.run_bind_ok (Op.run_recover_ok t hb), install_run hh, List.append_nil]

theorem Consistent.created (hs : s.Consistent held) (hp : s.pools.get? p = some cell) {size : Nat}
    (hsize : size ≤ cell.pool.blockSize) {grants : Nat → Bool} (hg : cell.pool.CanAllocate grants) :
    let t := (s.withOrphan p size).pushed p cell.pool s.handles.next
    t.Consistent held ∧
      t.contents = Function.update s.contents s.handles.next (some (Bytes.zeros size)) ∧
      ∀ q, t.orphans q = s.orphans q := by
  obtain ⟨ho, hcontents, horphans, -⟩ := hs.withOrphan hp size
  have hh := get?_withOrphan (s := s) (p := p) (x := s.handles.next) size
  rw [if_pos rfl] at hh
  have hp' : (s.withOrphan p size).pools.get? p = some { cell with references := cell.references + 1 } :=
    get?_acquired hp
  have hplaced := ho.toPlaced.pushed hp' hh rfl rfl hsize hg
  have hcounted := (ho.toCounted.setPool (p := p) (cell.pool.roomy.pushed s.handles.next)).modifyHandle
    (h := s.handles.next)
    (f := fun a => { a with location := .block p (Pool.placeOf cell.pool.firstSlots cell.pool.len) })
    fun _ => rfl
  refine ⟨⟨hplaced, hcounted⟩, ?_, ?_⟩
  · rw [← hcontents]
    exact ho.toPlaced.contents_pushed hp' hh rfl rfl hsize hg
  · intro q
    have hl := orphans_setLocation (p := p) (q := q) hh
      (Pool.placeOf cell.pool.firstSlots cell.pool.len)
    have hq := horphans q
    simp only [Handle.pooled, Option.some.injEq, and_true] at hl
    exact Nat.add_right_cancel (hl.trans hq)

theorem Consistent.pulled (hs : s.Consistent held) (hp : s.pools.get? p = some cell)
    (hi : cell.pool.Owns i h) (hm : cell.pool.Owns (cell.pool.len - 1) m) :
    (s.pulled p cell.pool i h m).Consistent (p :: held) ∧
      (s.pulled p cell.pool i h m).contents = Function.update s.contents h none ∧
      ∀ q, (s.pulled p cell.pool i h m).orphans q = s.orphans q := by
  let w := Pool.placeOf cell.pool.firstSlots i
  let t := (s.setPool p (cell.pool.freed i)).setLocation m (.block p w)
  obtain ⟨a, ha, hpool, hl, -⟩ := hs.settled hp hi
  obtain ⟨b, hb, -, hlb, -⟩ := hs.settled hp hm
  have hcounted : t.Counted held :=
    (hs.toCounted.setPool (p := p) (cell.pool.freed i)).modifyHandle fun _ => rfl
  obtain ⟨a', ha', hpool', hl'⟩ :
      ∃ a', t.handles.get? h = some a' ∧ a'.pool = some p ∧ a'.location ≠ .nowhere := by
    have hg := get?_setLocation (s := s.setPool p (cell.pool.freed i)) (h := m) (m := h) (.block p w)
    rw [show (s.setPool p (cell.pool.freed i)).handles = s.handles from rfl, ha] at hg
    by_cases he : m = h
    · rw [if_pos he] at hg
      exact ⟨_, hg, hpool, Address.noConfusion⟩
    · rw [if_neg he] at hg
      exact ⟨a, hg, hpool, hl ▸ Address.noConfusion⟩
  refine ⟨⟨hs.toPlaced.pulled hp hi hm, hcounted.eraseHandle ha' hpool'⟩,
    hs.toPlaced.contents_pulled hp hi hm, fun q => ?_⟩
  have ht := orphans_setLocation (p := p) (q := q) hb w
  have he := orphans_erase (q := q) ha'
  simp only [hlb, reduceCtorEq, and_false, ↓reduceIte, Nat.add_zero] at ht
  simp only [hl', and_false, ↓reduceIte, Nat.add_zero] at he
  exact he.trans ht

def destroyEvents (pool : Pool) (i : Nat) : List Event :=
  (if i = pool.len - 1 then [] else [.blockRelocated pool.blockSize (pool.len - 1) i]) ++
    freeEvents pool i

theorem freeBlock_run (hs : s.Placed) (hh : s.handles.get? h = some handle)
    (hp : s.pools.get? p = some cell) (ht : s.thread = cell.pool.ownerThread)
    (hi : cell.pool.Owns i h) (hm : cell.pool.Owns (cell.pool.len - 1) m) :
    ∃ t, (freeBlock p handle.location h).run s = ⟨.ok (), t, destroyEvents cell.pool i⟩ ∧
      t.withoutHandle h = s.pulled p cell.pool i h m := by
  obtain ⟨a, ha, -, hl, -⟩ := hs.settled hp hi
  have he : a = handle := Option.some.inj (ha.symm.trans hh)
  have hlive : IsLive cell.pool p handle.location h i := ⟨hi, he ▸ hl⟩
  have hw := hs.wellFormed p cell hp
  unfold destroyEvents
  by_cases hlast : i = cell.pool.len - 1
  · have hf := freeBlock_last hp hw ht hlive hlast
    rw [if_pos hlast]
    subst hlast
    refine ⟨_, hf, ?_⟩
    rw [hm.owner_eq hi, withoutHandle, Store.pulled]
    simp only [setLocation, Table.erase_modify]
  · obtain ⟨b, hb, hpool, -⟩ := hs.settled hp hm
    have hf := freeBlock_moving hp hw ht hlive hlast hm
    simp only [hb, (hs.pooled hb hpool).1, Bool.false_eq_true, ↓reduceIte] at hf
    rw [if_neg hlast]
    exact ⟨_, hf, rfl⟩

theorem destroy_run (hs : s.Consistent held) (hh : s.handles.get? h = some handle)
    (hp : s.pools.get? p = some cell) (hi : cell.pool.Owns i h)
    (hm : cell.pool.Owns (cell.pool.len - 1) m) :
    let t : Store := { s with handles := s.handles.modify h fun a => { a with owned := false } }
    (destroy h).run s =
      if cell.readers ≠ 0 then ⟨.error (.fault .poolInUse), t, []⟩
      else if s.thread ≠ cell.pool.ownerThread then
        ⟨.error (.fault (.wrongThread cell.pool.blockSize)), t, []⟩
      else ⟨.ok (), (t.pulled p cell.pool i h m).released p, destroyEvents cell.pool i⟩ := by
  intro t
  obtain ⟨ht, -⟩ := hs.setOwned hh false
  obtain ⟨a, ha, hpool, -, -⟩ := hs.settled hp hi
  have he : handle.pool = some p := by
    rw [hh] at ha
    cases ha
    exact hpool
  have hh' : t.handles.get? h = some { handle with owned := false } := by
    rw [Table.get?_modify, if_pos rfl, hh]
    rfl
  have hmodify : (modifyHandle h fun a => { a with owned := false }).run s = ⟨.ok (), t, []⟩ := rfl
  have hu := checkUnused_run (s := t) hp
  rw [destroy, Op.run_bind_silent (handle_run hh), Op.run_bind_silent hmodify, he,
    Op.run_expect_some_bind]
  by_cases hr : cell.readers = 0
  case neg =>
    rw [if_neg hr] at hu
    rw [if_pos hr, Op.run_bind_error hu]
  rw [if_pos hr] at hu
  rw [if_neg (not_not.mpr hr), Op.run_bind_silent hu]
  by_cases hthread : s.thread = cell.pool.ownerThread
  case neg =>
    rw [if_pos hthread]
    exact Op.run_bind_error (freeBlock_wrongThread (s := t) hp hthread _ _)
  rw [if_neg (not_not.mpr hthread)]
  obtain ⟨u, hf, hw⟩ := freeBlock_run ht.toPlaced hh' hp hthread hi hm
  have herase : (eraseHandle h).run u = ⟨.ok (), t.pulled p cell.pool i h m, []⟩ := by
    rw [← hw]
    rfl
  have hrel : (release false p).run (t.pulled p cell.pool i h m) =
      ⟨.ok (), (t.pulled p cell.pool i h m).released p, []⟩ := release_run (ht.pulled hp hi hm).1 false
  have hfree : (freeBlock p handle.location h).run t = ⟨.ok (), u, destroyEvents cell.pool i⟩ := hf
  rw [Op.run_bind_ok hfree, Op.run_bind_silent herase, hrel]
  simp only [List.append_nil]

theorem Consistent.destroyed (hs : s.Consistent held) (hh : s.handles.get? h = some handle)
    (hp : s.pools.get? p = some cell) (hi : cell.pool.Owns i h)
    (hm : cell.pool.Owns (cell.pool.len - 1) m) :
    let t : Store := { s with handles := s.handles.modify h fun a => { a with owned := false } }
    let u := (t.pulled p cell.pool i h m).released p
    u.Consistent held ∧ u.contents = Function.update s.contents h none ∧
      ∀ q, u.orphans q = s.orphans q := by
  intro t u
  obtain ⟨ht, hsame⟩ := hs.setOwned hh false
  obtain ⟨hpulled, hcontents, horphans⟩ := ht.pulled hp hi hm
  obtain ⟨hu, hsame'⟩ := hpulled.released
  refine ⟨hu, ?_, fun q => ?_⟩
  · rw [hsame'.contents_eq, hcontents, hsame.contents_eq]
  · rw [hsame'.orphans_eq, horphans, hsame.orphans_eq]

end OffRow.Store
