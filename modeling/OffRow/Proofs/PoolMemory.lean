import OffRow.Proofs.Evolution
import OffRow.Proofs.Pool.Thrift

namespace OffRow

theorem SharedPool.Change.thrifty {c d : SharedPool} (h : c.Change d) (hw : c.pool.WellFormed)
    (hc : c.pool.Thrifty) : d.pool.Thrifty := by
  cases h with
  | counted _ => exact hc
  | allocated _ _ _ => exact hc.pushed hw.toShaped
  | copied _ _ => simpa [Pool.Thrifty, Pool.copied] using hc
  | freed _ _ => exact Pool.freed_thrifty
  | fitted _ => exact hc.fitted hw.toShaped
  | rewritten _ _ => simpa [Pool.Thrifty, Pool.rewritten] using hc

theorem Engine.thrifty_after (ts : List (Turn Command)) {p : PoolId} {cell : SharedPool}
    (hp : (start.after Command.run ts).store.pools.get? p = some cell) : cell.pool.Thrifty := by
  have hI : Lasting fun c => c.pool.Thrifty :=
    ⟨Pool.new_thrifty, fun hd hw hc => hd.thrifty hw hc, id⟩
  exact hI.after ts hp

theorem Engine.outward_after (ts : List (Turn Command)) (t : Turn Command) {failure : Failure}
    (hf : ((start.after Command.run ts).turn Command.run t).result = .error failure) :
    failure.Outward :=
  (turn_safe (wellFormed_after ts) t).failure failure hf

namespace Store

variable {s : Store} {p : PoolId} {cell : SharedPool} {owner : HandleId}

theorem allocateBlock_chunks (hp : s.pools.get? p = some cell) (hw : cell.pool.WellFormed) {w : Place}
    (hok : ((allocateBlock p owner).run s).result = .ok w) :
    ∃ pool, ((allocateBlock p owner).run s).state.pools.get? p = some { cell with pool } ∧
      pool.chunks.size = cell.pool.chunks.size + if cell.pool.len = cell.pool.capacity then 1 else 0 := by
  rw [allocateBlock_run hp hw owner] at hok ⊢
  split at hok
  · cases hok
  · next ht =>
    rw [if_neg ht]
    split at hok
    · next hg =>
      rw [if_pos hg]
      exact ⟨_, get?_setPool hp _, Pool.chunks_size_pushed⟩
    · cases hok

theorem freeBlock_chunks (hp : s.pools.get? p = some cell) (hw : cell.pool.WellFormed)
    (ht : cell.pool.Thrifty) (payload : Address) (owner : HandleId) :
    ∃ pool, ((freeBlock p payload owner).run s).state.pools.get? p = some { cell with pool } ∧
      pool.len ≤ pool.capacity ∧ pool.chunks.size ≤ cell.pool.chunks.size ∧
      cell.pool.chunks.size ≤ pool.chunks.size + 1 ∧
      (1 ≤ cell.pool.chunks.size → 1 ≤ pool.chunks.size) := by
  have hfreed : ∀ {i}, cell.pool.Owns i owner →
      ∃ pool, (s.setPool p (cell.pool.freed i)).pools.get? p = some { cell with pool } ∧
        pool.len ≤ pool.capacity ∧ pool.chunks.size ≤ cell.pool.chunks.size ∧
        cell.pool.chunks.size ≤ pool.chunks.size + 1 ∧
        (1 ≤ cell.pool.chunks.size → 1 ≤ pool.chunks.size) := by
    intro i hi
    obtain ⟨hone, hle, hge⟩ := Pool.chunks_size_freed (i := i) hw ht (Nat.zero_lt_of_lt hi.1)
    exact ⟨_, get?_setPool hp _, (hw.freed hi.1).len_le, hle, hge, fun _ => hone⟩
  have hfreeing := freeBlock_freeing hp hw payload owner
  generalize (freeBlock p payload owner).run s = o at hfreeing
  cases hfreeing with
  | refused _ => exact ⟨cell.pool, hp, hw.len_le, Nat.le_refl _, Nat.le_succ _, id⟩
  | last hi _ => exact hfreed hi
  | @stuck i _ _ _ _ _ _ =>
    have hcopied : (cell.pool.copied (cell.pool.len - 1) i).chunks.size = cell.pool.chunks.size :=
      Pool.setAt_chunks_size
    exact ⟨_, get?_setPool hp _, hw.len_le, by omega, by omega, by omega⟩
  | moved hi _ _ => exact hfreed hi

theorem shrinkToFit_chunks (hp : s.pools.get? p = some cell) (hw : cell.pool.WellFormed) :
    ((shrinkToFit p).run s).result = .ok () ∧
      ∃ pool, ((shrinkToFit p).run s).state.pools.get? p = some { cell with pool } ∧
        pool.len = cell.pool.len ∧ (∀ i < cell.pool.len, pool.slotAt i = cell.pool.slotAt i) ∧
        pool.chunkSizes = cell.pool.chunkSizes.take pool.chunks.size ∧
        IsLeast {k | cell.pool.len ≤ (cell.pool.chunkSizes.take k).sum} pool.chunks.size := by
  rw [shrinkToFit, onPool_run hp, Pool.shrinkToFit_run hw.toShaped]
  refine ⟨rfl, _, get?_setPool hp _, rfl, fun i hi => ?_, Pool.chunkSizes_fitted, Pool.fitted_least hw⟩
  obtain ⟨h, payload, hs, -⟩ := hw.live i hi
  have hs' : cell.pool.fitted.get? i = _ := (Pool.get?_fitted hw hi).trans hs
  rw [hw.slotAt_eq hs, hw.fitted.slotAt_eq hs']
  rfl

end Store

/-- With more than one chunk, at most three quarters of a pool's slots are vacant. A block that is
taken reserves a chunk only if no slot is vacant; one that is given back releases one chunk at most,
and not the first; shrinking leaves as many chunks as the live blocks need. Nothing that is done to
the pools fails for a defect of a pool. -/
theorem pool_memory (ts : List (Turn Command)) :
    let e := Engine.start.after Command.run ts
    (∀ p cell, e.store.pools.get? p = some cell →
      (cell.pool.chunks.size ≤ 1 ∨ cell.pool.capacity ≤ 4 * cell.pool.len) ∧
      cell.pool.capacity ≤ max cell.pool.firstSlots (4 * cell.pool.len) ∧
      ∀ thread answers,
        let s : Store := { e.store with thread, allocator := answers }
        (∀ owner w, ((Store.allocateBlock p owner).run s).result = .ok w →
          ∃ pool, ((Store.allocateBlock p owner).run s).state.pools.get? p = some { cell with pool } ∧
            pool.chunks.size =
              cell.pool.chunks.size + if cell.pool.len = cell.pool.capacity then 1 else 0) ∧
        (∀ payload owner,
          ∃ pool, ((Store.freeBlock p payload owner).run s).state.pools.get? p =
              some { cell with pool } ∧
            pool.len ≤ pool.capacity ∧ pool.chunks.size ≤ cell.pool.chunks.size ∧
            cell.pool.chunks.size ≤ pool.chunks.size + 1 ∧
            (1 ≤ cell.pool.chunks.size → 1 ≤ pool.chunks.size)) ∧
        ((Store.shrinkToFit p).run s).result = .ok () ∧
        ∃ pool, ((Store.shrinkToFit p).run s).state.pools.get? p = some { cell with pool } ∧
          pool.len = cell.pool.len ∧ (∀ i < cell.pool.len, pool.slotAt i = cell.pool.slotAt i) ∧
          pool.chunkSizes = cell.pool.chunkSizes.take pool.chunks.size ∧
          IsLeast {k | cell.pool.len ≤ (cell.pool.chunkSizes.take k).sum} pool.chunks.size) ∧
    ∀ t failure, (e.turn Command.run t).result = .error failure → failure.Outward := by
  intro e
  constructor
  · intro p cell hp
    have hw : cell.pool.WellFormed := Engine.wellFormed_after ts p cell hp
    have ht : cell.pool.Thrifty := Engine.thrifty_after ts hp
    refine ⟨ht, ht.capacity_le hw.toShaped, fun thread answers => ?_⟩
    intro s
    have hs : s.pools.get? p = some cell := hp
    refine ⟨fun owner w hok => ?_, fun payload owner => ?_, ?_⟩
    · exact Store.allocateBlock_chunks hs hw hok
    · exact Store.freeBlock_chunks hs hw ht payload owner
    · exact Store.shrinkToFit_chunks hs hw
  · intro t failure hf
    exact Engine.outward_after ts t hf

def fullChunk : List (Turn Command) :=
  [⟨.ask (.openPool ⟨7, by decide⟩ 336 .mayDropItems), 0, some⟩, ⟨.openOwner 8, 0, some⟩,
    ⟨.openOwner 8, 0, some⟩, ⟨.openOwner 8, 0, some⟩, ⟨.openOwner 8, 0, some⟩,
    ⟨.allocateBlock ⟨0⟩ ⟨0⟩, 0, some⟩, ⟨.allocateBlock ⟨0⟩ ⟨1⟩, 0, some⟩,
    ⟨.allocateBlock ⟨0⟩ ⟨2⟩, 0, some⟩]

theorem pool_memory_full :
    let s : Store := { (Engine.start.after Command.run fullChunk).store with
      thread := 0, allocator := some }
    ∃ cell pool, s.pools.get? ⟨0⟩ = some cell ∧ cell.pool.chunks.size = 1 ∧
      ((Store.allocateBlock ⟨0⟩ ⟨3⟩).run s).state.pools.get? ⟨0⟩ = some { cell with pool } ∧
      pool.chunks.size = 2 := by
  intro s
  have hsome : (s.pools.get? ⟨0⟩).map (fun c => (c.pool.chunks.size, c.pool.len, c.pool.capacity)) =
      some (1, 3, 3) := by decide +kernel
  have hok : ((Store.allocateBlock ⟨0⟩ ⟨3⟩).run s).result = .ok ⟨1, 0⟩ := by decide +kernel
  obtain ⟨cell, hp, hsizes⟩ := Option.map_eq_some_iff.mp hsome
  simp only [Prod.mk.injEq] at hsizes
  obtain ⟨hchunks, hlen, hcap⟩ := hsizes
  obtain ⟨hpools, -⟩ := pool_memory fullChunk
  obtain ⟨-, -, hchanges⟩ := hpools ⟨0⟩ cell hp
  obtain ⟨htaken, -⟩ := hchanges 0 some
  obtain ⟨pool, hpool, hsize⟩ := htaken ⟨3⟩ ⟨1, 0⟩ hok
  refine ⟨cell, pool, hp, hchunks, hpool, ?_⟩
  rw [hsize, hchunks, hlen, hcap, if_pos rfl]

end OffRow
