import OffRow.Proofs.Evolution

namespace OffRow

structure Pool.Intact (p : Pool) : Prop where
  chunk_size : ∀ k chunk, p.chunks[k]? = some chunk → chunk.size = p.firstSlots * 2 ^ k
  capacity_eq : p.capacity = p.chunkSizes.sum
  len_le : p.len ≤ p.capacity
  live : ∀ i < p.len, ∃ w owner payload, p.slotAt i = .ok (w, ⟨⟨some owner, i⟩, payload⟩)
  vacant : ∀ i, p.len ≤ i → i < p.capacity → ∃ w payload, p.slotAt i = .ok (w, ⟨.vacant, payload⟩)

theorem Pool.WellFormed.intact {p : Pool} (h : p.WellFormed) : p.Intact where
  chunk_size := h.chunk_size
  capacity_eq := h.sum_chunkSizes.symm
  len_le := h.len_le
  live i hi := by
    obtain ⟨owner, payload, hs, -⟩ := h.live i hi
    exact ⟨_, owner, payload, h.slotAt_eq hs⟩
  vacant i hl hi := by
    obtain ⟨payload, hs⟩ := h.vacant i hl hi
    exact ⟨_, payload, h.slotAt_eq hs⟩

/-- Whatever is done, every pool is intact, so a check can only find fault with what the owner of a
live block records. While pools are used through their strings alone, it finds none: each live
block has an owner of its own, which knows where the block is and fits in it. -/
theorem pools_intact :
    (∀ ts : List (Turn Command), ∀ p cell,
      (Engine.start.after Command.run ts).store.pools.get? p = some cell →
        cell.pool.Intact ∧
          ∀ e, Store.integrityCheck (Engine.start.after Command.run ts).store p cell.pool = .error e →
            ∃ i h, cell.pool.Owns i h ∧
              Store.Complaint (Engine.start.after Command.run ts).store p cell.pool i h e) ∧
    ∀ ts : List (Turn Request), ∀ p cell,
      (Engine.start.after Request.ask ts).store.pools.get? p = some cell →
        (Store.check p).run (Engine.start.after Request.ask ts).store =
            ⟨.ok (), (Engine.start.after Request.ask ts).store, []⟩ ∧
          ∀ i h, cell.pool.Owns i h →
            (∃ handle w,
              (Engine.start.after Request.ask ts).store.handles.get? h = some handle ∧
                cell.pool.place i = .ok w ∧ handle.location = .block p w ∧
                handle.size ≤ cell.pool.blockSize) ∧
            ∀ q cell' j, (Engine.start.after Request.ask ts).store.pools.get? q = some cell' →
              cell'.pool.Owns j h → p = q ∧ i = j := by
  constructor
  · intro ts p cell hp
    have hw := Engine.wellFormed_after ts p cell hp
    exact ⟨hw.intact, fun e he => Store.complaint_of_integrityCheck hw he⟩
  · intro ts p cell hp
    have hs := (Engine.after_valid ts).consistent.toPlaced
    have hw := hs.wellFormed p cell hp
    refine ⟨Store.check_run hs hp, fun i h hi => ⟨?_, fun q cell' j hq hj => hs.owns_inj hp hq hi hj⟩⟩
    obtain ⟨handle, hh, -, hl, hsize⟩ := hs.settled hp hi
    exact ⟨handle, _, hh, hw.place_eq (Nat.lt_of_lt_of_le hi.1 hw.len_le), hl, hsize⟩

def untold : List (Turn Command) :=
  [⟨.ask (.openPool ⟨9, by decide⟩ 432 .mayDropItems), 0, some⟩, ⟨.openOwner 8, 0, some⟩,
    ⟨.allocateBlock ⟨0⟩ ⟨0⟩, 0, some⟩]

def survivor : List (Turn Request) :=
  [⟨.openRegistry 48 (by decide) .mayDropItems, 0, some⟩, ⟨.create ⟨0⟩ 8, 0, some⟩,
    ⟨.create ⟨0⟩ 8, 0, some⟩, ⟨.destroy ⟨0⟩, 0, some⟩]

theorem pools_intact_untold :
    (∃ cell, (Engine.start.after Command.run untold).store.pools.get? ⟨0⟩ = some cell ∧
      Store.integrityCheck (Engine.start.after Command.run untold).store ⟨0⟩ cell.pool =
        .error (.staleLocation 0) ∧
      ∃ i h, cell.pool.Owns i h ∧
        Store.Complaint (Engine.start.after Command.run untold).store ⟨0⟩ cell.pool i h
          (.staleLocation 0)) ∧
    (Store.check ⟨0⟩).run (Engine.start.after Request.ask survivor).store =
      ⟨.ok (), (Engine.start.after Request.ask survivor).store, []⟩ := by
  obtain ⟨hbehind, hthrough⟩ := pools_intact
  constructor
  · have hstale : ((Engine.start.after Command.run untold).store.pools.get? ⟨0⟩).map (fun c =>
        Store.integrityCheck (Engine.start.after Command.run untold).store ⟨0⟩ c.pool) =
        some (.error (.staleLocation 0)) := by decide +kernel
    obtain ⟨cell, hp, he⟩ := Option.map_eq_some_iff.mp hstale
    exact ⟨cell, hp, he, (hbehind untold ⟨0⟩ cell hp).2 _ he⟩
  · have hsome : ((Engine.start.after Request.ask survivor).store.pools.get? ⟨0⟩).isSome := by
      decide +kernel
    obtain ⟨cell, hp⟩ := Option.isSome_iff_exists.mp hsome
    exact (hthrough survivor ⟨0⟩ cell hp).1

end OffRow
