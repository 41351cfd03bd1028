import OffRow.Store.Blocks
import OffRow.Proofs.Pool.Compaction
import OffRow.Proofs.Tables

namespace OffRow.Store

variable {α : Type} {s : Store} {p : PoolId} {cell : SharedPool} {h owner : HandleId}

def setPool (s : Store) (p : PoolId) (pool : Pool) : Store :=
  { s with pools := s.pools.modify p fun cell => { cell with pool } }

def setLocation (s : Store) (h : HandleId) (location : Address) : Store :=
  { s with handles := s.handles.modify h fun handle => { handle with location } }

def WellFormed (s : Store) : Prop := ∀ p cell, s.pools.get? p = some cell → cell.pool.WellFormed

theorem WellFormed.setPool (hs : s.WellFormed) {pool : Pool} (hw : pool.WellFormed) :
    (s.setPool p pool).WellFormed := by
  intro q c hq
  rw [Store.setPool, Table.get?_modify] at hq
  split at hq
  · obtain ⟨c', -, rfl⟩ := Option.map_eq_some_iff.mp hq
    exact hw
  · exact hs q c hq

theorem setPool_self (hp : s.pools.get? p = some cell) : s.setPool p cell.pool = s := by
  have hm : s.pools.modify p (fun c => { c with pool := cell.pool }) = s.pools := by
    apply Table.modify_eq_self
    intro c hc
    rw [hp, Option.some.injEq] at hc
    rw [hc]
  rw [setPool, hm]

theorem setPool_setPool (s : Store) (p : PoolId) (a b : Pool) :
    (s.setPool p a).setPool p b = s.setPool p b := by
  simp only [setPool, Table.modify_modify]
  rfl

theorem get?_setPool (hp : s.pools.get? p = some cell) (pool : Pool) :
    (s.setPool p pool).pools.get? p = some { cell with pool } := by
  rw [setPool, Table.get?_modify, if_pos rfl, hp]
  rfl

theorem onPool_run (hp : s.pools.get? p = some cell) (x : Op Pool α) :
    (onPool p x).run s =
      ⟨(x.run cell.pool).result, s.setPool p (x.run cell.pool).state, (x.run cell.pool).events⟩ :=
  Op.run_within s (by rw [hp]; rfl) x

theorem onPool_run_none (hp : s.pools.get? p = none) (x : Op Pool α) :
    (onPool p x).run s = ⟨.error (.fault .dangling), s, []⟩ :=
  Op.run_within_none s (by rw [hp]; rfl) x

theorem shared_run (hp : s.pools.get? p = some cell) : (shared p).run s = ⟨.ok cell, s, []⟩ := by
  simp only [shared, Op.run_get_bind, hp, Op.run_expect_some]

theorem shared_run_none (hp : s.pools.get? p = none) :
    (shared p).run s = ⟨.error (.fault .dangling), s, []⟩ := by
  simp only [shared, Op.run_get_bind, hp, Op.run_expect_none]

theorem handle_run {handle : Handle} (hh : s.handles.get? h = some handle) :
    (Store.handle h).run s = ⟨.ok handle, s, []⟩ := by
  simp only [Store.handle, Op.run_get_bind, hh, Op.run_expect_some]

theorem handle_run_none (hh : s.handles.get? h = none) :
    (Store.handle h).run s = ⟨.error (.fault .dangling), s, []⟩ := by
  simp only [Store.handle, Op.run_get_bind, hh, Op.run_expect_none]

theorem updateLocation_run (s : Store) (h : HandleId) (location : Address) :
    (updateLocation h location).run s =
      match s.handles.get? h with
      | none => ⟨.error (.fault .dangling), s, []⟩
      | some handle =>
        if handle.temporary then ⟨.error (.fault .temporaryRelocated), s, []⟩
        else ⟨.ok (), s.setLocation h location, []⟩ := by
  cases hh : s.handles.get? h with
  | none => rw [updateLocation, Op.run_bind_error (handle_run_none hh)]
  | some handle =>
    rw [updateLocation, Op.run_bind_silent (handle_run hh)]
    cases ht : handle.temporary with
    | true =>
      rw [Op.run_ensure_bind_neg _ (Bool.true_eq_false ▸ not_false)]
      simp only [ht, ↓reduceIte]
    | false =>
      rw [Op.run_ensure_bind_pos _ rfl]
      simp only [ht, Bool.false_eq_true, ↓reduceIte]
      rfl

theorem allocateBlock_run (hp : s.pools.get? p = some cell) (hw : cell.pool.WellFormed)
    (owner : HandleId) :
    (allocateBlock p owner).run s =
      if s.thread ≠ cell.pool.ownerThread then
        ⟨.error (.fault (.wrongThread cell.pool.blockSize)), s, []⟩
      else if cell.pool.CanAllocate fun bytes => (s.allocator bytes).isSome then
        ⟨.ok (Pool.placeOf cell.pool.firstSlots cell.pool.len),
          s.setPool p (cell.pool.roomy.pushed owner),
          cell.pool.growthEvents ++ [.blockAllocated cell.pool.blockSize cell.pool.len]⟩
      else
        ⟨.error (.error (.outOfMemory
          (min (cell.pool.chunkBytes cell.pool.chunks.size) Word.largest))), s, []⟩ := by
  rw [allocateBlock, Op.run_get_bind, onPool_run hp, Pool.allocate_run hw]
  split
  · rw [setPool_self hp]
  · split
    · rfl
    · rw [setPool_self hp]

def IsLive (pool : Pool) (p : PoolId) (payload : Address) (owner : HandleId) (i : Nat) : Prop :=
  pool.Owns i owner ∧ payload = .block p (Pool.placeOf pool.firstSlots i)

theorem headerAt_block {w : Place} {slot : Slot} (hp : s.pools.get? p = some cell)
    (hs : cell.pool.slot? w = some slot) : s.headerAt (.block p w) = slot.header := by
  simp only [headerAt, hp, Option.bind_some, hs]

theorem isLive_run_pos {payload : Address} {i : Nat} (hp : s.pools.get? p = some cell)
    (hw : cell.pool.WellFormed) (hl : IsLive cell.pool p payload owner i) :
    s.headerAt payload = ⟨some owner, i⟩ ∧
      (isLive p payload owner (s.headerAt payload)).run s = ⟨.ok true, s, []⟩ := by
  obtain ⟨⟨hi, b, hb⟩, rfl⟩ := hl
  have hh := headerAt_block hp hb
  refine ⟨hh, ?_⟩
  rw [isLive, Op.run_bind_silent (shared_run hp), hh]
  simp only [hi, and_self, ↓reduceIte, hw.place_eq (Nat.lt_of_lt_of_le hi hw.len_le),
    Op.run_ofFault_ok_bind, decide_true, Op.run_pure]

theorem isLive_run_neg {payload : Address} (hp : s.pools.get? p = some cell)
    (hw : cell.pool.WellFormed) (hl : ¬∃ i, IsLive cell.pool p payload owner i) :
    (isLive p payload owner (s.headerAt payload)).run s = ⟨.ok false, s, []⟩ := by
  rw [isLive, Op.run_bind_silent (shared_run hp)]
  generalize hd : s.headerAt payload = header
  by_cases hc : header.index < cell.pool.len ∧ header.owner = some owner
  · have hi := hc.1
    rw [if_pos hc, hw.place_eq (Nat.lt_of_lt_of_le hi hw.len_le), Op.run_ofFault_ok_bind]
    have hn : Address.block p (Pool.placeOf cell.pool.firstSlots header.index) ≠ payload := by
      intro he
      obtain ⟨o, b, hs, -⟩ := hw.live _ hi
      rw [← he, headerAt_block hp hs] at hd
      have ho : some o = some owner := (congrArg Header.owner hd).trans hc.2
      rw [Option.some.injEq] at ho
      exact hl ⟨_, ⟨hi, b, ho ▸ hs⟩, he.symm⟩
    simp only [hn, decide_false, Op.run_pure]
  · rw [if_neg hc]
    rfl

theorem relocate_run {source target i : Nat} {payload : ByteArray}
    (hp : s.pools.get? p = some cell) (hw : cell.pool.Shaped)
    (hs : cell.pool.get? source = some ⟨⟨some h, i⟩, payload⟩) (ht : target < cell.pool.capacity) :
    (relocate p source target).run s =
      match s.handles.get? h with
      | none => ⟨.error (.fault .dangling), s.setPool p (cell.pool.copied source target), []⟩
      | some handle =>
        if handle.temporary then
          ⟨.error (.fault .temporaryRelocated), s.setPool p (cell.pool.copied source target), []⟩
        else
          ⟨.ok (), (s.setPool p (cell.pool.copied source target)).setLocation h
              (.block p (Pool.placeOf cell.pool.firstSlots target)),
            [.blockRelocated cell.pool.blockSize source target]⟩ := by
  have hc := onPool_run hp (Pool.copyBlock source target)
  rw [Pool.copyBlock_run hw hs ht] at hc
  rw [relocate, Op.run_bind_silent hc]
  have hu := updateLocation_run (s.setPool p (cell.pool.copied source target)) h
    (.block p (Pool.placeOf cell.pool.firstSlots target))
  have hh : (s.setPool p (cell.pool.copied source target)).handles = s.handles := rfl
  rw [hh] at hu
  cases hg : s.handles.get? h with
  | none =>
    rw [hg] at hu
    exact Op.run_bind_error hu
  | some handle =>
    simp only [hg] at hu ⊢
    cases htemp : handle.temporary with
    | true =>
      simp only [htemp, ↓reduceIte] at hu ⊢
      exact Op.run_bind_error hu
    | false =>
      simp only [htemp, Bool.false_eq_true, ↓reduceIte] at hu ⊢
      have hp' : ((s.setPool p (cell.pool.copied source target)).setLocation h
          (.block p (Pool.placeOf cell.pool.firstSlots target))).pools.get? p =
            some { cell with pool := cell.pool.copied source target } := get?_setPool hp _
      rw [Op.run_bind_silent hu, Op.run_bind_silent (shared_run hp')]
      rfl

theorem freeBlock_wrongThread (hp : s.pools.get? p = some cell)
    (ht : s.thread ≠ cell.pool.ownerThread) (payload : Address) (owner : HandleId) :
    (freeBlock p payload owner).run s =
      ⟨.error (.fault (.wrongThread cell.pool.blockSize)), s, []⟩ := by
  have hc := onPool_run hp (Pool.checkThread s.thread)
  rw [Pool.checkThread_run, if_neg ht, setPool_self hp] at hc
  rw [freeBlock, Op.run_get_bind, Op.run_bind_error hc]

theorem checkThread_run (hp : s.pools.get? p = some cell) (ht : s.thread = cell.pool.ownerThread) :
    (onPool p (Pool.checkThread s.thread)).run s = ⟨.ok (), s, []⟩ := by
  have hc := onPool_run hp (Pool.checkThread s.thread)
  rw [Pool.checkThread_run, if_pos ht, setPool_self hp] at hc
  exact hc

theorem freeBlock_notLive {payload : Address} (hp : s.pools.get? p = some cell)
    (hw : cell.pool.WellFormed) (ht : s.thread = cell.pool.ownerThread)
    (hl : ¬∃ i, IsLive cell.pool p payload owner i) :
    (freeBlock p payload owner).run s =
      ⟨.error (.fault (.notLive (s.headerAt payload).index cell.pool.blockSize)), s, []⟩ := by
  rw [freeBlock, Op.run_get_bind, Op.run_bind_silent (checkThread_run hp ht),
    Op.run_bind_silent (shared_run hp), Op.run_bind_silent (isLive_run_neg hp hw hl),
    Op.run_ensure_bind_neg _ Bool.false_ne_true]

def freeEvents (pool : Pool) (i : Nat) : List Event :=
  let compact := (if i = pool.len - 1 then pool else pool.copied (pool.len - 1) i).vacated (pool.len - 1)
  Pool.releaseEvents compact compact.isSparse compact.chunks.size

theorem vacate_run {pool : Pool} (hp : s.pools.get? p = some { cell with pool })
    (hw : pool.WellFormed) {last : Nat} (hl : pool.len = last + 1) :
    (onPool p (Pool.vacate last)).run s =
      ⟨.ok (), s.setPool p (pool.vacated last).thinned,
        Pool.releaseEvents (pool.vacated last) (pool.vacated last).isSparse
          (pool.vacated last).chunks.size⟩ := by
  rw [onPool_run hp]
  simp only [Pool.vacate_run hw hl]

theorem freeBlock_last {payload : Address} {i : Nat} (hp : s.pools.get? p = some cell)
    (hw : cell.pool.WellFormed) (ht : s.thread = cell.pool.ownerThread)
    (hl : IsLive cell.pool p payload owner i) (hi : i = cell.pool.len - 1) :
    (freeBlock p payload owner).run s =
      ⟨.ok (), s.setPool p (cell.pool.freed i), freeEvents cell.pool i⟩ := by
  obtain ⟨hh, hr⟩ := isLive_run_pos hp hw hl
  have hlen : i < cell.pool.len := hl.1.1
  have hsub : Word.sub? cell.pool.len 1 = some (cell.pool.len - 1) :=
    (Word.sub?_eq_some _ _ _).mpr ⟨by omega, rfl⟩
  have hv := vacate_run (show s.pools.get? p = some { cell with pool := cell.pool } from hp) hw
    (show cell.pool.len = cell.pool.len - 1 + 1 by omega)
  rw [freeBlock, Op.run_get_bind, Op.run_bind_silent (checkThread_run hp ht),
    Op.run_bind_silent (shared_run hp), Op.run_bind_silent hr, Op.run_ensure_bind_pos _ rfl]
  simp only [hh, hsub, Op.run_expect_some_bind, hi, ne_eq, not_true_eq_false, ↓reduceIte,
    hv, Pool.freed, freeEvents]

theorem freeBlock_moving {payload : Address} {i : Nat} (hp : s.pools.get? p = some cell)
    (hw : cell.pool.WellFormed) (ht : s.thread = cell.pool.ownerThread)
    (hl : IsLive cell.pool p payload owner i) (hi : i ≠ cell.pool.len - 1)
    (ho : cell.pool.Owns (cell.pool.len - 1) h) :
    (freeBlock p payload owner).run s =
      match s.handles.get? h with
      | none =>
        ⟨.error (.fault .dangling), s.setPool p (cell.pool.copied (cell.pool.len - 1) i), []⟩
      | some handle =>
        if handle.temporary then
          ⟨.error (.fault .temporaryRelocated),
            s.setPool p (cell.pool.copied (cell.pool.len - 1) i), []⟩
        else
          ⟨.ok (), (s.setPool p (cell.pool.freed i)).setLocation h
              (.block p (Pool.placeOf cell.pool.firstSlots i)),
            .blockRelocated cell.pool.blockSize (cell.pool.len - 1) i :: freeEvents cell.pool i⟩ := by
  obtain ⟨hh, hr⟩ := isLive_run_pos hp hw hl
  obtain ⟨hlast, payload, hs⟩ := ho
  have hlen : i < cell.pool.len := hl.1.1
  have hsub : Word.sub? cell.pool.len 1 = some (cell.pool.len - 1) :=
    (Word.sub?_eq_some _ _ _).mpr ⟨by omega, rfl⟩
  have hrel := relocate_run hp hw.toShaped hs (Nat.lt_of_lt_of_le hlen hw.len_le)
  rw [freeBlock, Op.run_get_bind, Op.run_bind_silent (checkThread_run hp ht),
    Op.run_bind_silent (shared_run hp), Op.run_bind_silent hr, Op.run_ensure_bind_pos _ rfl]
  simp only [hh, hsub, Op.run_expect_some_bind, hi, ne_eq, not_false_eq_true, ↓reduceIte]
  cases hg : s.handles.get? h with
  | none =>
    rw [hg] at hrel
    exact Op.run_bind_error hrel
  | some handle =>
    simp only [hg] at hrel ⊢
    cases htemp : handle.temporary with
    | true =>
      simp only [htemp, ↓reduceIte] at hrel ⊢
      exact Op.run_bind_error hrel
    | false =>
      simp only [htemp, Bool.false_eq_true, ↓reduceIte] at hrel ⊢
      have hp' : ((s.setPool p (cell.pool.copied (cell.pool.len - 1) i)).setLocation h
          (.block p (Pool.placeOf cell.pool.firstSlots i))).pools.get? p =
            some { cell with pool := cell.pool.copied (cell.pool.len - 1) i } := get?_setPool hp _
      have hc := hw.copied hlast hlen
      have hv := vacate_run hp' hc (show cell.pool.len = cell.pool.len - 1 + 1 by omega)
      rw [Op.run_bind_ok hrel, hv, Pool.freed, freeEvents]
      simp only [if_neg hi]
      refine congrArg (fun t => (⟨.ok (), t, _⟩ : Outcome Store Unit)) ?_
      exact congrArg (fun t : Store => t.setLocation h
        (.block p (Pool.placeOf cell.pool.firstSlots i))) (setPool_setPool s p _ _)

/-- The outcomes of giving a block of `owner` back to pool `p`. A handle that cannot be told where its
block is now leaves that block in two slots. -/
inductive Freeing (s : Store) (p : PoolId) (pool : Pool) (owner : HandleId) : Outcome Store Unit → Prop
  | refused {cause : Fault} :
    cause = .wrongThread pool.blockSize ∨ (∃ index, cause = .notLive index pool.blockSize) →
    Freeing s p pool owner ⟨.error (.fault cause), s, []⟩
  | last {i : Nat} : pool.Owns i owner → i = pool.len - 1 →
    Freeing s p pool owner ⟨.ok (), s.setPool p (pool.freed i), freeEvents pool i⟩
  | stuck {i : Nat} {m : HandleId} {cause : Fault} : pool.Owns i owner → pool.Owns (pool.len - 1) m →
    (∀ handle, s.handles.get? m = some handle → handle.temporary = true) →
    cause = .dangling ∨ cause = .temporaryRelocated →
    Freeing s p pool owner ⟨.error (.fault cause), s.setPool p (pool.copied (pool.len - 1) i), []⟩
  | moved {i : Nat} {m : HandleId} : pool.Owns i owner → i ≠ pool.len - 1 → pool.Owns (pool.len - 1) m →
    Freeing s p pool owner
      ⟨.ok (), (s.setPool p (pool.freed i)).setLocation m (.block p (Pool.placeOf pool.firstSlots i)),
        .blockRelocated pool.blockSize (pool.len - 1) i :: freeEvents pool i⟩

theorem freeBlock_freeing (hp : s.pools.get? p = some cell) (hw : cell.pool.WellFormed)
    (payload : Address) (owner : HandleId) :
    Freeing s p cell.pool owner ((freeBlock p payload owner).run s) := by
  by_cases ht : s.thread = cell.pool.ownerThread
  case neg =>
    rw [freeBlock_wrongThread hp ht]
    exact .refused (.inl rfl)
  by_cases hl : ∃ i, IsLive cell.pool p payload owner i
  case neg =>
    rw [freeBlock_notLive hp hw ht hl]
    exact .refused (.inr ⟨_, rfl⟩)
  obtain ⟨i, hl⟩ := hl
  have hi : i < cell.pool.len := hl.1.1
  by_cases hlast : i = cell.pool.len - 1
  · rw [freeBlock_last hp hw ht hl hlast]
    exact .last hl.1 hlast
  · obtain ⟨m, hm⟩ := hw.exists_owner (show cell.pool.len - 1 < cell.pool.len by omega)
    rw [freeBlock_moving hp hw ht hl hlast hm]
    cases hh : s.handles.get? m with
    | none => exact .stuck hl.1 hm (fun handle hs => by rw [hh] at hs; cases hs) (.inl rfl)
    | some handle =>
      cases htemporary : handle.temporary with
      | true =>
        simp only [htemporary, ↓reduceIte]
        refine .stuck hl.1 hm (fun handle' hs => ?_) (.inr rfl)
        rw [hh] at hs
        cases hs
        exact htemporary
      | false =>
        simp only [htemporary, Bool.false_eq_true, ↓reduceIte]
        exact .moved hl.1 hlast hm

end OffRow.Store
