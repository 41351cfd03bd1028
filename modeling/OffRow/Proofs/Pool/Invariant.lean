import OffRow.Layout
import OffRow.Proofs.Pool.Addressing
/-!
The representation invariant of a pool. A pool is read as the list of its slots by index; the
invariant says how the chunks are sized and that the live blocks are the slots below `len`.
-/

namespace OffRow.Pool

def get? (p : Pool) (index : Nat) : Option Slot := p.slot? (placeOf p.firstSlots index)

def setAt (p : Pool) (index : Nat) (s : Slot) : Pool := p.setSlot (placeOf p.firstSlots index) s

def chunkBytes (p : Pool) (k : Nat) : Nat := stride p.sizeClass * (p.firstSlots * 2 ^ k)

structure Shaped (p : Pool) : Prop where
  chunk_size : ∀ k chunk, p.chunks[k]? = some chunk → chunk.size = p.firstSlots * 2 ^ k
  capacity_eq : p.capacity = total p.firstSlots p.chunks.size
  fits : ∀ k < p.chunks.size, p.chunkBytes k + 8 ≤ 2 ^ 63

structure WellFormed (p : Pool) : Prop extends Shaped p where
  len_le : p.len ≤ p.capacity
  live : ∀ i < p.len, ∃ owner payload,
    p.get? i = some ⟨⟨some owner, i⟩, payload⟩ ∧ payload.size = p.blockSize
  vacant : ∀ i, p.len ≤ i → i < p.capacity → ∃ payload, p.get? i = some ⟨.vacant, payload⟩

variable {p : Pool} {i j k n : Nat} {s : Slot} {w : Place}

theorem le_stride_mul (c : SizeClass) (n : Nat) : 24 * n ≤ stride c * n := by
  have hb : 8 ≤ c.blockSize := by
    have hp : 0 < 2 ^ (c.index / 2) := Nat.two_pow_pos _
    unfold SizeClass.blockSize
    split <;> omega
  have hs := le_stride c
  unfold headerSize at hs
  exact Nat.mul_le_mul_right n (by omega)

@[simp] theorem setAt_chunks_size : (p.setAt i s).chunks.size = p.chunks.size := by
  simp [setAt, setSlot]

@[simp] theorem setAt_firstSlots : (p.setAt i s).firstSlots = p.firstSlots := rfl

@[simp] theorem setAt_capacity : (p.setAt i s).capacity = p.capacity := rfl

@[simp] theorem setAt_len : (p.setAt i s).len = p.len := rfl

@[simp] theorem setAt_sizeClass : (p.setAt i s).sizeClass = p.sizeClass := rfl

@[simp] theorem setAt_blockSize : (p.setAt i s).blockSize = p.blockSize := rfl

@[simp] theorem setAt_ownerThread : (p.setAt i s).ownerThread = p.ownerThread := rfl

@[simp] theorem setAt_policy : (p.setAt i s).policy = p.policy := rfl

theorem get?_setAt : (p.setAt i s).get? j = if i = j then (p.get? j).map fun _ => s else p.get? j := by
  unfold get? setAt
  rw [slot?_setSlot]
  simp only [show (p.setSlot (placeOf p.firstSlots i) s).firstSlots = p.firstSlots from rfl,
    placeOf_inj]

@[simp] theorem get?_withLen (n : Nat) : ({ p with len := n } : Pool).get? i = p.get? i := rfl

namespace Shaped

theorem get?_isSome (h : p.Shaped) : (p.get? i).isSome ↔ i < p.capacity := by
  have hc : (placeOf p.firstSlots i).chunk < p.chunks.size ↔ _ :=
    placeOf_chunk_lt p.firstSlots_pos
  have ho := offset_lt p.firstSlots_pos i
  rw [h.capacity_eq, ← hc, get?, slot?]
  cases hk : p.chunks[(placeOf p.firstSlots i).chunk]? with
  | none => simpa using hk
  | some chunk =>
    have hs := h.chunk_size _ _ hk
    have hl : (placeOf p.firstSlots i).chunk < p.chunks.size := (Array.getElem?_eq_some_iff.mp hk).1
    simpa [hs, hl] using ho

theorem exists_get? (h : p.Shaped) (hi : i < p.capacity) : ∃ s, p.get? i = some s :=
  Option.isSome_iff_exists.mp (h.get?_isSome.mpr hi)

theorem lt_capacity (h : p.Shaped) (hs : p.get? i = some s) : i < p.capacity :=
  h.get?_isSome.mp (by rw [hs]; rfl)

theorem exists_index (h : p.Shaped) (hs : p.slot? w = some s) :
    ∃ i < p.capacity, w = placeOf p.firstSlots i ∧ p.get? i = some s := by
  obtain ⟨chunk, hk, ho⟩ := Option.bind_eq_some_iff.mp hs
  have hl : w.offset < p.firstSlots * 2 ^ w.chunk :=
    h.chunk_size _ _ hk ▸ (Array.getElem?_eq_some_iff.mp ho).1
  have hw : placeOf p.firstSlots (total p.firstSlots w.chunk + w.offset) = w :=
    placeOf_total_add p.firstSlots_pos hl
  have hg : p.get? (total p.firstSlots w.chunk + w.offset) = some s := by rw [get?, hw, hs]
  exact ⟨_, h.lt_capacity hg, hw.symm, hg⟩

theorem capacity_lt (h : p.Shaped) : p.capacity < 2 ^ 60 := by
  rw [h.capacity_eq]
  cases hm : p.chunks.size with
  | zero => simp
  | succ m =>
    have hf := h.fits m (by omega)
    have hs := le_stride_mul p.sizeClass (p.firstSlots * 2 ^ m)
    have ht := total_eq_sum p.firstSlots m
    rw [total_succ]
    unfold chunkBytes at hf
    omega

theorem stride_mul_capacity_le (h : p.Shaped) : stride p.sizeClass * p.capacity ≤ Word.largest := by
  rw [h.capacity_eq]
  cases hm : p.chunks.size with
  | zero => simp
  | succ m =>
    have hf := h.fits m (by omega)
    have ht := total_eq_sum p.firstSlots m
    have hl : total p.firstSlots (m + 1) ≤ 2 * (p.firstSlots * 2 ^ m) := by
      rw [total_succ]
      omega
    have hs := Nat.mul_le_mul_left (stride p.sizeClass) hl
    rw [Nat.mul_left_comm] at hs
    unfold chunkBytes at hf
    unfold Word.largest
    omega

theorem place_eq (h : p.Shaped) (hi : i < p.capacity) : p.place i = .ok (placeOf p.firstSlots i) := by
  have hc := h.capacity_lt
  have hl : i < Word.largest := Nat.lt_trans hi (Nat.lt_trans hc (by decide))
  obtain ⟨s, hs⟩ := h.exists_get? hi
  obtain ⟨chunk, hk, ho⟩ := Option.bind_eq_some_iff.mp hs
  rw [place, if_pos hi, locate?_eq hl]
  simp only [hk, (Array.getElem?_eq_some_iff.mp ho).1, ↓reduceIte]

theorem place_eq_ok {w : Place} (h : p.Shaped) :
    p.place i = .ok w ↔ i < p.capacity ∧ w = placeOf p.firstSlots i := by
  by_cases hi : i < p.capacity
  · rw [h.place_eq hi, Except.ok.injEq, and_iff_right hi]
    exact eq_comm
  · rw [place, if_neg hi]
    exact iff_of_false nofun fun hn => hi hn.1

theorem slotAt_eq (h : p.Shaped) (hs : p.get? i = some s) :
    p.slotAt i = .ok (placeOf p.firstSlots i, s) := by
  rw [get?] at hs
  simp only [slotAt, h.place_eq (h.lt_capacity hs), hs]

theorem setAt (h : p.Shaped) : (p.setAt i s).Shaped where
  chunk_size k chunk hk := by
    have hs := p.size_setSlot (placeOf p.firstSlots i) s k
    rw [show (p.setSlot (placeOf p.firstSlots i) s).chunks[k]? = some chunk from hk] at hs
    obtain ⟨old, ho, he⟩ := Option.map_eq_some_iff.mp hs.symm
    exact he ▸ h.chunk_size k old ho
  capacity_eq := by simpa using h.capacity_eq
  fits := by simpa [chunkBytes] using h.fits

theorem withLen (h : p.Shaped) : ({ p with len := n } : Pool).Shaped := ⟨h.chunk_size, h.capacity_eq, h.fits⟩

end Shaped

def Owns (p : Pool) (i : Nat) (owner : HandleId) : Prop :=
  i < p.len ∧ ∃ payload, p.get? i = some ⟨⟨some owner, i⟩, payload⟩

theorem WellFormed.exists_owner (h : p.WellFormed) (hi : i < p.len) : ∃ owner, p.Owns i owner := by
  obtain ⟨owner, payload, hs, -⟩ := h.live i hi
  exact ⟨owner, hi, payload, hs⟩

theorem Owns.owner_eq {a b : HandleId} (ha : p.Owns i a) (hb : p.Owns i b) : a = b := by
  obtain ⟨-, _, ha⟩ := ha
  obtain ⟨-, _, hb⟩ := hb
  rw [ha] at hb
  simpa using congrArg (Option.map (·.header.owner)) hb

theorem new_wellFormed (c : SizeClass) (firstBytes : Nat) (policy : DropPolicy)
    (thread : ThreadId) : (new c firstBytes policy thread).WellFormed where
  chunk_size k chunk hk := by simp [new] at hk
  capacity_eq := rfl
  fits k hk := absurd hk (Nat.not_lt_zero k)
  len_le := Nat.le_refl 0
  live i hi := absurd hi (Nat.not_lt_zero i)
  vacant i _ hi := absurd hi (Nat.not_lt_zero i)

def rewritten (p : Pool) (i : Nat) (f : ByteArray → ByteArray) : Pool :=
  let s := (p.get? i).getD .vacant
  p.setAt i { s with payload := f s.payload }

variable {f : ByteArray → ByteArray}

theorem get?_rewritten :
    (p.rewritten i f).get? j =
      if i = j then (p.get? j).map fun s => { s with payload := f s.payload } else p.get? j := by
  rw [rewritten, get?_setAt]
  split
  · next he =>
    subst he
    cases p.get? i <;> rfl
  · rfl

theorem setSlot_eq_rewritten (h : p.Shaped) (hs : p.slot? w = some s) (f : ByteArray → ByteArray) :
    ∃ i, w = placeOf p.firstSlots i ∧ p.get? i = some s ∧
      p.setSlot w { s with payload := f s.payload } = p.rewritten i f := by
  obtain ⟨i, -, rfl, hg⟩ := h.exists_index hs
  refine ⟨i, rfl, hg, ?_⟩
  rw [Pool.rewritten, hg]
  rfl

theorem WellFormed.rewritten (h : p.WellFormed) (hf : ∀ b, (f b).size = b.size) :
    (p.rewritten i f).WellFormed where
  toShaped := h.toShaped.setAt
  len_le := h.len_le
  live j hj := by
    obtain ⟨owner, payload, hs, hb⟩ := h.live j hj
    rw [get?_rewritten, hs]
    split
    · exact ⟨owner, f payload, rfl, (hf payload).trans hb⟩
    · exact ⟨owner, payload, rfl, hb⟩
  vacant j hj hc := by
    obtain ⟨payload, hs⟩ := h.vacant j hj hc
    rw [get?_rewritten, hs]
    split
    · exact ⟨f payload, rfl⟩
    · exact ⟨payload, rfl⟩

end OffRow.Pool
