import OffRow.Proofs.Evolution
import OffRow.Proofs.Pool.Holdings

namespace OffRow

def swapRemove {α : Type} (l : List α) (i : Nat) : List α :=
  match l.getLast? with
  | some last => (l.set i last).dropLast
  | none => l

theorem getElem?_swapRemove {α : Type} {l : List α} {i : Nat} (hi : i < l.length) (j : Nat) :
    (swapRemove l i)[j]? =
      if j < l.length - 1 then if j = i then l[l.length - 1]? else l[j]? else none := by
  have hlast : l.getLast? = l[l.length - 1]? := List.getLast?_eq_getElem?
  have hget : l[l.length - 1]? = some l[l.length - 1] := List.getElem?_eq_getElem (by omega)
  rw [swapRemove, hlast, hget]
  simp only [List.getElem?_dropLast, List.length_set, List.getElem?_set]
  split
  · by_cases hj : j = i
    · simp [hj]
    · simp [hj, Ne.symm hj]
  · rfl

namespace Pool

def block? (p : Pool) (i : Nat) : Option (HandleId × ByteArray) :=
  match p.slotAt i with
  | .ok (_, slot) => slot.header.owner.map fun owner => (owner, slot.payload)
  | .error _ => none

def blocks (p : Pool) : List (HandleId × ByteArray) := (List.range p.len).filterMap p.block?

variable {p q : Pool} {i j : Nat} {owner m : HandleId} {b : ByteArray} {grants : Nat → Bool}
  {l : List (HandleId × ByteArray)}

theorem Holds.block?_eq (hw : p.WellFormed) (h : p.Holds i owner b) : p.block? i = some (owner, b) := by
  rw [block?, hw.slotAt_eq h.2]
  rfl

theorem blocks_eq_map (hw : p.WellFormed) :
    ∃ f : Nat → HandleId × ByteArray,
      (∀ i < p.len, p.Holds i (f i).1 (f i).2) ∧ p.blocks = (List.range p.len).map f := by
  refine ⟨fun i => (p.block? i).getD (⟨0⟩, .empty), ?_, ?_⟩
  · intro i hi
    obtain ⟨owner, payload, hs, -⟩ := hw.live i hi
    have hholds : p.Holds i owner payload := ⟨hi, hs⟩
    simp only [hholds.block?_eq hw, Option.getD_some]
    exact hholds
  · rw [blocks, ← List.filterMap_eq_map]
    apply List.filterMap_congr
    intro i hi
    obtain ⟨owner, payload, hs, -⟩ := hw.live i (List.mem_range.mp hi)
    have hholds : p.Holds i owner payload := ⟨List.mem_range.mp hi, hs⟩
    simp only [hholds.block?_eq hw, Function.comp_apply, Option.getD_some]

theorem length_blocks (hw : p.WellFormed) : p.blocks.length = p.len := by
  obtain ⟨f, -, hf⟩ := blocks_eq_map hw
  rw [hf, List.length_map, List.length_range]

theorem getElem?_blocks (hw : p.WellFormed) : p.blocks[i]? = some (owner, b) ↔ p.Holds i owner b := by
  obtain ⟨f, hholds, hf⟩ := blocks_eq_map hw
  rw [hf, List.getElem?_map]
  by_cases hi : i < p.len
  · rw [List.getElem?_range hi, Option.map_some, Option.some.injEq]
    constructor
    · intro he
      have h := hholds i hi
      rw [he] at h
      exact h
    · intro h
      have howner := (hholds i hi).owns.owner_eq h.owns
      have hbytes : p.Holds i owner (f i).2 := howner ▸ hholds i hi
      exact Prod.ext howner (hbytes.payload_eq h)
  · rw [List.getElem?_eq_none (by rw [List.length_range]; omega)]
    exact iff_of_false nofun fun h => hi h.1

theorem blocks_eq (hw : p.WellFormed) (h : ∀ i owner b, p.Holds i owner b ↔ l[i]? = some (owner, b)) :
    p.blocks = l := by
  apply List.ext_getElem?
  intro i
  apply Option.ext
  rintro ⟨owner, b⟩
  exact (getElem?_blocks hw).trans (h i owner b)

theorem blocks_congr (hp : p.WellFormed) (hq : q.WellFormed)
    (h : ∀ i owner b, q.Holds i owner b ↔ p.Holds i owner b) : q.blocks = p.blocks :=
  blocks_eq hq fun i owner b => (h i owner b).trans (getElem?_blocks hp).symm

theorem blocks_pushed (hw : p.WellFormed) (hg : p.CanAllocate grants) :
    (p.roomy.pushed owner).blocks = p.blocks ++ [(owner, Bytes.zeros p.blockSize)] := by
  have hlen := length_blocks hw
  apply blocks_eq ((hw.roomy hg).pushed (len_lt_roomy hw))
  intro i h b
  rw [holds_pushed hw hg, ← getElem?_blocks hw]
  rcases Nat.lt_trichotomy i p.len with hi | rfl | hi
  · rw [List.getElem?_append_left (by omega)]
    exact or_iff_left fun h => Nat.ne_of_lt hi h.1
  · rw [List.getElem?_append_right (by omega), hlen, Nat.sub_self, List.getElem?_eq_none (by omega)]
    simp [eq_comm]
  · rw [List.getElem?_append_right (by omega), List.getElem?_eq_none (by omega),
      List.getElem?_eq_none (by simp; omega)]
    simp [Nat.ne_of_gt hi]

theorem blocks_freed (hw : p.WellFormed) (hi : i < p.len) : (p.freed i).blocks = swapRemove p.blocks i := by
  have hlen := length_blocks hw
  apply blocks_eq (hw.freed hi)
  intro j h b
  rw [holds_freed_at hw hi, getElem?_swapRemove (by omega), hlen]
  by_cases hj : j < p.len - 1
  · rw [if_pos hj, and_iff_right hj, ← getElem?_blocks hw]
    split <;> rfl
  · rw [if_neg hj]
    exact iff_of_false (fun h => hj h.1) nofun

theorem place_zero (hw : p.WellFormed) (hl : 0 < p.len) : p.place 0 = .ok ⟨0, 0⟩ :=
  hw.place_eq_ok.mpr ⟨Nat.lt_of_lt_of_le hl hw.len_le, (placeOf_zero _).symm⟩

theorem slotAt_congr (hp : p.Shaped) (hq : q.Shaped) (hf : q.firstSlots = p.firstSlots)
    (hi : i < p.capacity) (h : q.get? i = p.get? i) : q.slotAt i = p.slotAt i := by
  obtain ⟨s, hs⟩ := hp.exists_get? hi
  rw [hp.slotAt_eq hs, hq.slotAt_eq (h.trans hs), hf]

theorem slotAt_pushed (hw : p.WellFormed) (hg : p.CanAllocate grants) (hi : i < p.capacity)
    (hn : i ≠ p.len) : (p.roomy.pushed owner).slotAt i = p.slotAt i := by
  have hroomy : p.roomy.get? i = p.get? i := by
    unfold roomy
    split
    · exact get?_extended_of_lt hw.toShaped hi
    · rfl
  have hpushed : (p.roomy.pushed owner).WellFormed := (hw.roomy hg).pushed (len_lt_roomy hw)
  apply slotAt_congr hw.toShaped hpushed.toShaped roomy_firstSlots hi
  rw [get?_pushed (hw.roomy hg) (len_lt_roomy hw), roomy_len, if_neg hn, hroomy]

theorem slotAt_freed (hw : p.WellFormed) (hi : i < p.len) (hj : j < (p.freed i).capacity) (hji : j ≠ i)
    (hn : j ≠ p.len - 1) : (p.freed i).slotAt j = p.slotAt j := by
  have hl := hw.len_le
  obtain ⟨m, payload, hs, -⟩ := hw.live (p.len - 1) (by omega)
  have hcompacted := hw.compacted hi
  have hcapacity : (if i = p.len - 1 then p else p.copied (p.len - 1) i).capacity = p.capacity := by
    split <;> rfl
  have hlen : (if i = p.len - 1 then p else p.copied (p.len - 1) i).len = p.len := by
    split <;> rfl
  have hkept : (p.freed i).get? j = p.get? j := by
    have hcopied : (if i = p.len - 1 then p else p.copied (p.len - 1) i).get? j = p.get? j := by
      split
      · rfl
      · rw [get?_copied hw.toShaped hs (by omega), if_neg hji]
    rw [freed, thinned, get?_keep hj, get?_vacated hcompacted.toShaped (by omega), if_neg hn, hcopied]
  obtain ⟨slot, hslot⟩ := (hw.freed hi).exists_get? hj
  exact slotAt_congr hw.toShaped (hw.freed hi).toShaped freed_firstSlots
    (hw.lt_capacity (hkept.symm.trans hslot)) hkept

theorem getElem?_owners (hw : p.WellFormed) : (p.blocks.map Prod.fst)[i]? = some owner ↔ p.Owns i owner := by
  rw [owns_iff, List.getElem?_map, Option.map_eq_some_iff]
  constructor
  · rintro ⟨⟨_, b⟩, hb, rfl⟩
    exact ⟨b, (getElem?_blocks hw).mp hb⟩
  · rintro ⟨b, hb⟩
    exact ⟨(owner, b), (getElem?_blocks hw).mpr hb, rfl⟩

theorem mem_blocks_size (hw : p.WellFormed) : ∀ x ∈ p.blocks, x.2.size = p.blockSize := by
  intro x hx
  obtain ⟨i, hi⟩ := List.mem_iff_getElem?.mp hx
  exact ((getElem?_blocks hw).mp hi).size_eq hw

structure Same (p q : Pool) : Prop where
  blocks_eq : q.blocks = p.blocks
  slotAt_eq : ∀ i < p.len, q.slotAt i = p.slotAt i

theorem same_of_get? (hp : p.WellFormed) (hq : q.WellFormed) (hf : q.firstSlots = p.firstSlots)
    (hl : q.len = p.len) (h : ∀ i < p.len, q.get? i = p.get? i) : p.Same q where
  blocks_eq := by
    apply blocks_congr hp hq
    intro i owner b
    rw [Holds, Holds, hl]
    apply and_congr_right
    intro hi
    rw [h i hi]
  slotAt_eq i hi :=
    slotAt_congr hp.toShaped hq.toShaped hf (Nat.lt_of_lt_of_le hi hp.len_le) (h i hi)

theorem same_extended (hw : p.WellFormed) (hg : p.CanGrow grants) : p.Same p.extended :=
  same_of_get? hw (hw.extended hg.1) rfl rfl fun _ hi =>
    get?_extended_of_lt hw.toShaped (Nat.lt_of_lt_of_le hi hw.len_le)

theorem grow_same (hw : p.WellFormed) (grants : Nat → Bool) : p.Same ((grow grants).run p).state := by
  rw [grow_run hw.toShaped]
  split
  · next hg => exact same_extended hw hg
  · exact ⟨rfl, fun _ _ => rfl⟩

theorem shrinkToFit_same (hw : p.WellFormed) : p.Same (shrinkToFit.run p).state := by
  rw [shrinkToFit_run hw.toShaped]
  exact same_of_get? hw hw.fitted rfl rfl fun _ hi => get?_fitted hw hi

theorem shrinkIfSparse_same (hw : p.WellFormed) : p.Same (shrinkIfSparse.run p).state := by
  rw [shrinkIfSparse_run hw.toShaped hw.len_le]
  exact same_of_get? hw hw.thinned rfl rfl fun _ hi => get?_thinned hw hi

end Pool

namespace Store

variable {s : Store} {p : PoolId} {cell : SharedPool} {owner m : HandleId} {w : Place} {i : Nat}
  {b last : ByteArray}

theorem allocateBlock_pushes (hp : s.pools.get? p = some cell) (hw : cell.pool.WellFormed)
    (hok : ((allocateBlock p owner).run s).result = .ok w) :
    ∃ pool, ((allocateBlock p owner).run s).state = s.setPool p pool ∧
      pool.place cell.pool.len = .ok w ∧
      pool.blocks = cell.pool.blocks ++ [(owner, Bytes.zeros cell.pool.blockSize)] ∧
      ∀ i < cell.pool.capacity, i ≠ cell.pool.len → pool.slotAt i = cell.pool.slotAt i := by
  rw [allocateBlock_run hp hw owner] at hok ⊢
  split at hok
  · cases hok
  · next ht =>
    rw [if_neg ht]
    split at hok
    · next hg =>
      cases hok
      rw [if_pos hg]
      have hpushed : (cell.pool.roomy.pushed owner).WellFormed :=
        (hw.roomy hg).pushed (Pool.len_lt_roomy hw)
      have hlt := Pool.len_lt_roomy hw
      rw [Pool.roomy_len] at hlt
      have hplace : (cell.pool.roomy.pushed owner).place cell.pool.len =
          .ok (Pool.placeOf cell.pool.roomy.firstSlots cell.pool.len) := hpushed.place_eq hlt
      rw [Pool.roomy_firstSlots] at hplace
      exact ⟨_, rfl, hplace, Pool.blocks_pushed hw hg, fun i hi => Pool.slotAt_pushed hw hg hi⟩
    · cases hok

theorem freeBlock_swaps (hp : s.pools.get? p = some cell) (hw : cell.pool.WellFormed)
    (hs : ∀ x ∈ cell.pool.blocks, ∃ a, s.handles.get? x.1 = some a ∧ a.temporary = false)
    (ht : s.thread = cell.pool.ownerThread) (hplace : cell.pool.place i = .ok w)
    (hb : cell.pool.blocks[i]? = some (owner, b))
    (hlast : cell.pool.blocks[cell.pool.len - 1]? = some (m, last)) :
    let o := (freeBlock p (.block p w) owner).run s
    o.result = .ok () ∧ ∃ pool, pool.blocks = swapRemove cell.pool.blocks i ∧
      (∀ j < pool.capacity, j ≠ i → j ≠ cell.pool.len - 1 → pool.slotAt j = cell.pool.slotAt j) ∧
      (i ≠ cell.pool.len - 1 → pool.place i = .ok w) ∧
      o.state = if i = cell.pool.len - 1 then s.setPool p pool
        else (s.setPool p pool).setLocation m (.block p w) := by
  have hi := ((Pool.getElem?_blocks hw).mp hb).owns
  have hm := ((Pool.getElem?_blocks hw).mp hlast).owns
  have hwhere : w = Pool.placeOf cell.pool.firstSlots i := (hw.place_eq_ok.mp hplace).2
  have hl : IsLive cell.pool p (.block p w) owner i := ⟨hi, by rw [hwhere]⟩
  have hkept := fun j => Pool.slotAt_freed (j := j) hw hi.1
  have hthere : i ≠ cell.pool.len - 1 → (cell.pool.freed i).place i = .ok w := by
    intro hil
    have hlive := hi.1
    rw [(hw.freed hi.1).place_eq_ok, Pool.freed_firstSlots]
    exact ⟨Nat.lt_of_lt_of_le (by rw [Pool.freed_len]; omega) (hw.freed hi.1).len_le, hwhere⟩
  by_cases hil : i = cell.pool.len - 1
  · rw [freeBlock_last hp hw ht hl hil]
    exact ⟨rfl, _, Pool.blocks_freed hw hi.1, hkept, hthere, (if_pos hil).symm⟩
  · obtain ⟨a, ha, htemporary⟩ := hs _ (List.mem_of_getElem? hlast)
    have hrun := freeBlock_moving hp hw ht hl hil hm
    simp only [ha, htemporary, Bool.false_eq_true, ↓reduceIte] at hrun
    rw [hrun]
    refine ⟨rfl, _, Pool.blocks_freed hw hi.1, hkept, hthere, ?_⟩
    rw [if_neg hil, hwhere]

theorem onPool_same (hp : s.pools.get? p = some cell) {x : Op Pool Unit}
    (hx : cell.pool.Same (x.run cell.pool).state) :
    ∃ pool, ((onPool p x).run s).state = s.setPool p pool ∧ pool.blocks = cell.pool.blocks ∧
      ∀ i < cell.pool.len, pool.slotAt i = cell.pool.slotAt i := by
  rw [onPool_run hp]
  exact ⟨_, rfl, hx.blocks_eq, hx.slotAt_eq⟩

end Store

/-- A pool is the vector of its live blocks. Taking a block pushes a block of zeros and moves nothing;
giving back the block at `i` puts the last one there, with all its bytes, and tells its owner and nobody
else; and reserving and releasing chunks leaves the vector, and where its blocks lie. -/
theorem pool_is_vector (ts : List (Turn Command)) (p : PoolId) (cell : SharedPool)
    (hp : (Engine.start.after Command.run ts).store.pools.get? p = some cell) (thread : ThreadId)
    (answers : Nat → Option Nat) :
    let s : Store := { (Engine.start.after Command.run ts).store with thread, allocator := answers }
    let n := cell.pool.len
    cell.pool.blocks.length = n ∧ (∀ x ∈ cell.pool.blocks, x.2.size = cell.pool.blockSize) ∧
      (∀ owner w, ((Store.allocateBlock p owner).run s).result = .ok w →
        ∃ pool, ((Store.allocateBlock p owner).run s).state = s.setPool p pool ∧ pool.place n = .ok w ∧
          pool.blocks = cell.pool.blocks ++ [(owner, Bytes.zeros cell.pool.blockSize)] ∧
          ∀ i < cell.pool.capacity, i ≠ n → pool.slotAt i = cell.pool.slotAt i) ∧
      ((∀ x ∈ cell.pool.blocks, ∃ a, s.handles.get? x.1 = some a ∧ a.temporary = false) →
        thread = cell.pool.ownerThread → ∀ i w owner bytes m last, cell.pool.place i = .ok w →
          cell.pool.blocks[i]? = some (owner, bytes) → cell.pool.blocks[n - 1]? = some (m, last) →
            let o := (Store.freeBlock p (.block p w) owner).run s
            o.result = .ok () ∧ ∃ pool, pool.blocks = swapRemove cell.pool.blocks i ∧
              (∀ j < pool.capacity, j ≠ i → j ≠ n - 1 → pool.slotAt j = cell.pool.slotAt j) ∧
              (i ≠ n - 1 → pool.place i = .ok w) ∧
              o.state = if i = n - 1 then s.setPool p pool
                else (s.setPool p pool).setLocation m (.block p w)) ∧
      ∀ grants, ∀ x ∈ [Pool.grow grants, Pool.shrinkIfSparse, Pool.shrinkToFit],
        ∃ pool, ((Store.onPool p x).run s).state = s.setPool p pool ∧ pool.blocks = cell.pool.blocks ∧
          ∀ i < n, pool.slotAt i = cell.pool.slotAt i := by
  intro s n
  have hw : cell.pool.WellFormed := Engine.wellFormed_after ts p cell hp
  have hs : s.pools.get? p = some cell := hp
  refine ⟨Pool.length_blocks hw, Pool.mem_blocks_size hw, fun _ _ => Store.allocateBlock_pushes hs hw,
    fun howners ht _ _ _ _ _ _ => Store.freeBlock_swaps hs hw howners ht, fun grants x hx => ?_⟩
  simp only [List.mem_cons, List.not_mem_nil, or_false] at hx
  rcases hx with rfl | rfl | rfl
  · exact Store.onPool_same hs (Pool.grow_same hw grants)
  · exact Store.onPool_same hs (Pool.shrinkIfSparse_same hw)
  · exact Store.onPool_same hs (Pool.shrinkToFit_same hw)

def neighbours : List (Turn Command) :=
  [⟨.ask (.openPool ⟨1, by decide⟩ 96 .mayDropItems), 0, some⟩, ⟨.openOwner 8, 0, some⟩,
    ⟨.openOwner 8, 0, some⟩, ⟨.allocateBlock ⟨0⟩ ⟨0⟩, 0, some⟩, ⟨.allocateBlock ⟨0⟩ ⟨1⟩, 0, some⟩]

theorem neighbours_pool :
    ∃ cell, (Engine.start.after Command.run neighbours).store.pools.get? ⟨0⟩ = some cell ∧
      cell.pool.blocks.map Prod.fst = [⟨0⟩, ⟨1⟩] ∧ cell.pool.len = 2 ∧ cell.pool.ownerThread = 0 := by
  have hfacts : ((Engine.start.after Command.run neighbours).store.pools.get? ⟨0⟩).map (fun cell =>
      (cell.pool.blocks.map Prod.fst, cell.pool.len, cell.pool.ownerThread)) =
        some ([⟨0⟩, ⟨1⟩], 2, 0) := by decide +kernel
  obtain ⟨cell, hp, hcell⟩ := Option.map_eq_some_iff.mp hfacts
  simp only [Prod.mk.injEq] at hcell
  exact ⟨cell, hp, hcell⟩

theorem pool_is_vector_first :
    let o := (Store.freeBlock ⟨0⟩ (.block ⟨0⟩ ⟨0, 0⟩) ⟨0⟩).run
      { (Engine.start.after Command.run neighbours).store with thread := 0, allocator := some }
    o.result = .ok () ∧ (o.state.handles.get? ⟨1⟩).map Handle.location = some (.block ⟨0⟩ ⟨0, 0⟩) := by
  obtain ⟨cell, hp, howners, hlen, hthread⟩ := neighbours_pool
  have hw : cell.pool.WellFormed := Engine.wellFormed_after neighbours ⟨0⟩ cell hp
  have hfirst : cell.pool.place 0 = .ok ⟨0, 0⟩ := Pool.place_zero hw (by omega)
  have htold : ∀ h ∈ ([⟨0⟩, ⟨1⟩] : List HandleId), ∃ a,
      (Engine.start.after Command.run neighbours).store.handles.get? h = some a ∧ a.temporary = false := by
    have hmap : ∀ h ∈ ([⟨0⟩, ⟨1⟩] : List HandleId), ((Engine.start.after Command.run
        neighbours).store.handles.get? h).map Handle.temporary = some false := by decide +kernel
    exact fun h hh => Option.map_eq_some_iff.mp (hmap h hh)
  have hget : ∀ (i : Nat) (h : HandleId), ([⟨0⟩, ⟨1⟩] : List HandleId)[i]? = some h →
      ∃ b, cell.pool.blocks[i]? = some (h, b) := by
    intro i h hi
    rw [← howners, Pool.getElem?_owners hw] at hi
    obtain ⟨b, hb⟩ := Pool.owns_iff.mp hi
    exact ⟨b, (Pool.getElem?_blocks hw).mpr hb⟩
  obtain ⟨b, hb⟩ := hget 0 ⟨0⟩ rfl
  obtain ⟨last, hlast⟩ := hget 1 ⟨1⟩ rfl
  have hmem : ∀ x ∈ cell.pool.blocks, x.1 ∈ ([⟨0⟩, ⟨1⟩] : List HandleId) := by
    intro x hx
    rw [← howners]
    exact List.mem_map_of_mem hx
  obtain ⟨hok, pool, -, -, -, hstate⟩ := (pool_is_vector neighbours ⟨0⟩ cell hp 0 some).2.2.2.1
    (fun x hx => htold x.1 (hmem x hx)) hthread.symm 0 ⟨0, 0⟩ ⟨0⟩ b ⟨1⟩ last hfirst hb
    (by rw [hlen]; exact hlast)
  obtain ⟨a, ha, -⟩ := htold ⟨1⟩ (by decide)
  refine ⟨hok, ?_⟩
  rw [hstate, if_neg (by rw [hlen]; decide), Store.get?_setLocation, if_pos rfl]
  change Option.map _ (Option.map _ ((Engine.start.after Command.run neighbours).store.handles.get? ⟨1⟩)) = _
  rw [ha]
  rfl

end OffRow
