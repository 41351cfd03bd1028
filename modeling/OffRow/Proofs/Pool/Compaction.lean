import OffRow.Pool.Blocks
import OffRow.Proofs.Pool.Resizing

namespace OffRow.Pool

def roomy (p : Pool) : Pool := if p.len = p.capacity then p.extended else p

def CanAllocate (p : Pool) (grants : Nat → Bool) : Prop := p.len < p.capacity ∨ p.CanGrow grants

instance (p : Pool) (grants : Nat → Bool) : Decidable (p.CanAllocate grants) :=
  inferInstanceAs (Decidable (_ ∨ _))

def pushed (p : Pool) (owner : HandleId) : Pool :=
  { p.setAt p.len ⟨⟨some owner, p.len⟩, Bytes.zeros p.blockSize⟩ with len := p.len + 1 }

def growthEvents (p : Pool) : List Event :=
  if p.len = p.capacity then
    [.chunkReserved p.blockSize p.chunks.size (p.firstSlots * 2 ^ p.chunks.size) p.extended.capacity]
  else []

def copied (p : Pool) (source target : Nat) : Pool :=
  let s := (p.get? source).getD .vacant
  p.setAt target ⟨⟨s.header.owner, target⟩, s.payload⟩

def vacated (p : Pool) (last : Nat) : Pool :=
  { p.setAt last { (p.get? last).getD .vacant with header := .vacant } with len := last }

def freed (p : Pool) (i : Nat) : Pool :=
  ((if i = p.len - 1 then p else p.copied (p.len - 1) i).vacated (p.len - 1)).thinned

variable {p : Pool} {i j last : Nat} {owner : HandleId} {payload : ByteArray} {grants : Nat → Bool}

@[simp] theorem roomy_len : p.roomy.len = p.len := by
  unfold roomy
  split <;> rfl

@[simp] theorem roomy_firstSlots : p.roomy.firstSlots = p.firstSlots := by
  unfold roomy
  split <;> rfl

@[simp] theorem roomy_blockSize : p.roomy.blockSize = p.blockSize := by
  unfold roomy
  split <;> rfl

@[simp] theorem roomy_sizeClass : p.roomy.sizeClass = p.sizeClass := by
  unfold roomy
  split <;> rfl

theorem len_lt_roomy (h : p.WellFormed) : p.roomy.len < p.roomy.capacity := by
  have hl := h.len_le
  unfold roomy
  split
  · next he =>
    rw [extended_capacity h.toShaped]
    have hp : 0 < p.firstSlots * 2 ^ p.chunks.size := Nat.mul_pos p.firstSlots_pos (Nat.two_pow_pos _)
    change p.len < p.capacity + p.firstSlots * 2 ^ p.chunks.size
    omega
  · omega

theorem get?_roomy (h : p.WellFormed) (hi : i < p.len) : p.roomy.get? i = p.get? i := by
  unfold roomy
  split
  · exact get?_extended_of_lt h.toShaped (Nat.lt_of_lt_of_le hi h.len_le)
  · rfl

theorem WellFormed.roomy (h : p.WellFormed) (hg : p.CanAllocate grants) : p.roomy.WellFormed := by
  unfold Pool.roomy
  split
  · next he =>
    rcases hg with hl | hg
    · omega
    · exact h.extended hg.1
  · exact h

theorem get?_pushed (h : p.WellFormed) (hl : p.len < p.capacity) :
    (p.pushed owner).get? i =
      if i = p.len then some ⟨⟨some owner, p.len⟩, Bytes.zeros p.blockSize⟩ else p.get? i := by
  obtain ⟨s, hs⟩ := h.exists_get? hl
  rw [pushed, get?_withLen, get?_setAt]
  by_cases hi : i = p.len
  · simp [hi, hs]
  · simp [hi, Ne.symm hi]

theorem WellFormed.pushed (h : p.WellFormed) (hl : p.len < p.capacity) :
    (p.pushed owner).WellFormed where
  toShaped := h.toShaped.setAt.withLen
  len_le := hl
  live i hi := by
    rw [get?_pushed h hl]
    rcases Nat.lt_succ_iff_lt_or_eq.mp hi with hi | rfl
    · rw [if_neg (Nat.ne_of_lt hi)]
      exact h.live i hi
    · rw [if_pos rfl]
      exact ⟨owner, _, rfl, Bytes.size_zeros _⟩
  vacant i hi hc := by
    have hn : p.len < i := hi
    rw [get?_pushed h hl, if_neg (Nat.ne_of_gt hn)]
    exact h.vacant i (Nat.le_of_lt hn) hc

theorem checkThread_run (p : Pool) (caller : ThreadId) :
    (checkThread caller).run p =
      if caller = p.ownerThread then ⟨.ok (), p, []⟩
      else ⟨.error (.fault (.wrongThread p.blockSize)), p, []⟩ := by
  simp only [checkThread, Op.run_get_bind, Op.ensure]
  split <;> rfl

theorem makeRoom_run (h : p.WellFormed) (grants : Nat → Bool) :
    (makeRoom grants).run p =
      if p.CanAllocate grants then ⟨.ok (), p.roomy, p.growthEvents⟩
      else
        ⟨.error (.error (.outOfMemory (min (p.chunkBytes p.chunks.size) Word.largest))), p, []⟩ := by
  have hl := h.len_le
  by_cases he : p.len = p.capacity
  · have hc : p.CanAllocate grants ↔ p.CanGrow grants := or_iff_right (by omega)
    simp only [makeRoom, Op.run_get_bind, if_pos he, grow_run h.toShaped, hc, roomy, growthEvents]
  · have hc : p.CanAllocate grants := Or.inl (by omega)
    simp only [makeRoom, Op.run_get_bind, if_neg he, if_pos hc, roomy, growthEvents]
    rfl

theorem append_run (h : p.WellFormed) (hl : p.len < p.capacity) (owner : HandleId) :
    (append owner).run p =
      ⟨.ok (placeOf p.firstSlots p.len), p.pushed owner, [.blockAllocated p.blockSize p.len]⟩ := by
  have hc := h.capacity_lt
  have hadd : Word.add? p.len 1 = some (p.len + 1) :=
    (Word.add?_eq_some _ _ _).mpr ⟨by unfold Word.largest; omega, rfl⟩
  simp only [append, Op.run_get_bind, h.place_eq hl, Op.run_ofFault_ok_bind, Op.run_modify_bind,
    hadd, Op.run_expect_some_bind]
  rfl

theorem allocate_run (h : p.WellFormed) (grants : Nat → Bool) (caller : ThreadId)
    (owner : HandleId) :
    (allocate grants caller owner).run p =
      if caller ≠ p.ownerThread then ⟨.error (.fault (.wrongThread p.blockSize)), p, []⟩
      else if p.CanAllocate grants then
        ⟨.ok (placeOf p.firstSlots p.len), p.roomy.pushed owner,
          p.growthEvents ++ [.blockAllocated p.blockSize p.len]⟩
      else
        ⟨.error (.error (.outOfMemory (min (p.chunkBytes p.chunks.size) Word.largest))), p, []⟩ := by
  have hc := checkThread_run p caller
  have hm := makeRoom_run h grants
  by_cases ht : caller = p.ownerThread
  · rw [if_pos ht] at hc
    rw [if_neg (not_not.mpr ht), allocate, Op.run_bind_silent hc]
    by_cases hg : p.CanAllocate grants
    · rw [if_pos hg] at hm
      rw [if_pos hg, Op.run_bind_ok hm, append_run (h.roomy hg) (len_lt_roomy h)]
      simp only [roomy_firstSlots, roomy_len, roomy_blockSize]
    · rw [if_neg hg] at hm
      rw [if_neg hg, Op.run_bind_error hm]
  · rw [if_neg ht] at hc
    rw [if_pos ht, allocate, Op.run_bind_error hc]

theorem get?_copied {source target : Nat} {s : Slot} (h : p.Shaped)
    (hs : p.get? source = some s) (ht : target < p.capacity) :
    (p.copied source target).get? j =
      if j = target then some ⟨⟨s.header.owner, target⟩, s.payload⟩ else p.get? j := by
  obtain ⟨t, hj⟩ := h.exists_get? ht
  rw [copied, get?_setAt]
  by_cases he : j = target
  · simp [he, hs, hj]
  · simp [he, Ne.symm he]

theorem WellFormed.copied {source target : Nat} (h : p.WellFormed) (hs : source < p.len)
    (ht : target < p.len) : (p.copied source target).WellFormed := by
  obtain ⟨owner, payload, hp, hb⟩ := h.live source hs
  have hg := fun j => get?_copied (j := j) h.toShaped hp (Nat.lt_of_lt_of_le ht h.len_le)
  refine ⟨h.toShaped.setAt, h.len_le, ?_, ?_⟩
  · intro i hi
    rw [hg]
    split
    · next he => exact ⟨owner, payload, by rw [he], hb⟩
    · exact h.live i hi
  · intro i hi hc
    have hn : i ≠ target := Nat.ne_of_gt (Nat.lt_of_lt_of_le ht hi)
    rw [hg, if_neg hn]
    exact h.vacant i hi hc

theorem copyBlock_run {source target : Nat} (h : p.Shaped)
    (hs : p.get? source = some ⟨⟨some owner, i⟩, payload⟩) (ht : target < p.capacity) :
    (copyBlock source target).run p =
      ⟨.ok (owner, placeOf p.firstSlots target), p.copied source target, []⟩ := by
  simp only [copyBlock, Op.run_get_bind, h.slotAt_eq hs, Op.run_ofFault_ok_bind,
    Op.run_expect_some_bind, h.place_eq ht, Op.run_modify_bind, copied, hs, Option.getD_some]
  rfl

theorem get?_vacated (h : p.Shaped) (hl : last < p.capacity) :
    (p.vacated last).get? j =
      if j = last then (p.get? j).map fun s => { s with header := .vacant } else p.get? j := by
  obtain ⟨s, hs⟩ := h.exists_get? hl
  rw [vacated, get?_withLen, get?_setAt]
  by_cases he : j = last
  · simp [he, hs]
  · simp [he, Ne.symm he]

theorem WellFormed.vacated (h : p.WellFormed) (hl : p.len = last + 1) :
    (p.vacated last).WellFormed := by
  have hc : last < p.capacity := by
    have := h.len_le
    omega
  have hg := fun j => get?_vacated (j := j) h.toShaped hc
  refine ⟨h.toShaped.setAt.withLen, Nat.le_of_lt hc, ?_, ?_⟩
  · intro i hi
    have hi' : i < last := hi
    rw [hg, if_neg (Nat.ne_of_lt hi')]
    exact h.live i (by omega)
  · intro i hi hic
    have hi' : last ≤ i := hi
    rw [hg]
    split
    · next he =>
      obtain ⟨s, hs⟩ := h.exists_get? hc
      exact ⟨s.payload, by rw [he, hs]; rfl⟩
    · next hn => exact h.vacant i (by omega) hic

theorem vacate_run (h : p.WellFormed) (hl : p.len = last + 1) :
    (vacate last).run p =
      ⟨.ok (), (p.vacated last).thinned,
        releaseEvents (p.vacated last) (p.vacated last).isSparse (p.vacated last).chunks.size⟩ := by
  have hc : last < p.capacity := by
    have := h.len_le
    omega
  obtain ⟨s, hs⟩ := h.exists_get? hc
  have hv := h.vacated hl
  have he : { p.setSlot (placeOf p.firstSlots last) { s with header := .vacant } with len := last } =
      p.vacated last := by
    rw [Pool.vacated, hs]
    rfl
  simp only [vacate, Op.run_get_bind, h.slotAt_eq hs, Op.run_ofFault_ok_bind, Op.run_modify_bind, he]
  exact shrinkIfSparse_run hv.toShaped hv.len_le

@[simp] theorem freed_len : (p.freed i).len = p.len - 1 := rfl

@[simp] theorem freed_firstSlots : (p.freed i).firstSlots = p.firstSlots := by
  unfold freed
  split <;> rfl

@[simp] theorem freed_blockSize : (p.freed i).blockSize = p.blockSize := by
  unfold freed
  split <;> rfl

@[simp] theorem freed_sizeClass : (p.freed i).sizeClass = p.sizeClass := by
  unfold freed
  split <;> rfl

theorem WellFormed.compacted (h : p.WellFormed) (hi : i < p.len) :
    (if i = p.len - 1 then p else p.copied (p.len - 1) i).WellFormed := by
  split
  · exact h
  · exact h.copied (by omega) hi

theorem WellFormed.freed (h : p.WellFormed) (hi : i < p.len) : (p.freed i).WellFormed := by
  have hc := h.compacted hi
  refine (hc.vacated ?_).thinned
  split
  · omega
  · change p.len = _
    omega

theorem get?_freed (h : p.WellFormed) (hi : i < p.len) (hj : j < p.len - 1)
    (hs : p.get? (p.len - 1) = some ⟨⟨some owner, p.len - 1⟩, payload⟩) :
    (p.freed i).get? j = if j = i then some ⟨⟨some owner, i⟩, payload⟩ else p.get? j := by
  have hl := h.len_le
  have hc := h.compacted hi
  have hn : (if i = p.len - 1 then p else p.copied (p.len - 1) i).len = p.len := by split <;> rfl
  have hv := hc.vacated (show _ = p.len - 1 + 1 by omega)
  rw [Pool.freed, get?_thinned hv hj, get?_vacated hc.toShaped (by have := hc.len_le; omega),
    if_neg (Nat.ne_of_lt hj)]
  by_cases he : i = p.len - 1
  · rw [if_pos he, if_neg (by omega)]
  · rw [if_neg he, get?_copied h.toShaped hs (by omega)]

end OffRow.Pool
