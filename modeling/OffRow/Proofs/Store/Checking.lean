import OffRow.Store.Blocks
import OffRow.Proofs.Pool.Invariant
import Mathlib.Algebra.BigOperators.Group.List.Basic

namespace OffRow

namespace Pool

variable {p : Pool} {i : Nat}

theorem Shaped.chunkSizes_eq (h : p.Shaped) :
    p.chunkSizes = (List.range p.chunks.size).map fun k => p.firstSlots * 2 ^ k := by
  apply List.ext_getElem
  · simp [chunkSizes]
  · intro k hk _
    have hk : k < p.chunks.size := by simpa [chunkSizes] using hk
    have hs := h.chunk_size k _ (Array.getElem?_eq_getElem hk)
    simpa [chunkSizes] using hs

theorem Shaped.sum_chunkSizes (h : p.Shaped) : p.chunkSizes.sum = p.capacity := by
  rw [h.chunkSizes_eq, h.capacity_eq]
  induction p.chunks.size with
  | zero => simp
  | succ k ih => rw [List.range_succ, List.map_append, List.sum_append, ih, total_succ]; simp

theorem foldl_satAdd (l : List Nat) (n : Nat) (h : n + l.sum ≤ Word.largest) :
    l.foldl Word.satAdd n = n + l.sum := by
  induction l generalizing n with
  | nil => rfl
  | cons a l ih =>
    rw [List.sum_cons] at h
    have ha : Word.satAdd n a = n + a := by
      unfold Word.satAdd
      omega
    rw [List.foldl_cons, ha, ih (n + a) (by omega), List.sum_cons, Nat.add_assoc]

end Pool

namespace Store

variable {s : Store} {p : PoolId} {pool : Pool} {h : HandleId} {index n : Nat} {e : Fault}

def Agrees (s : Store) (p : PoolId) (pool : Pool) (i : Nat) (h : HandleId) : Prop :=
  ∃ handle, s.handles.get? h = some handle ∧
    handle.location = .block p (Pool.placeOf pool.firstSlots i) ∧ handle.size ≤ pool.blockSize

inductive Complaint (s : Store) (p : PoolId) (pool : Pool) (i : Nat) (h : HandleId) : Fault → Prop
  | gone : s.handles.get? h = none → Complaint s p pool i h .dangling
  | stale {handle : Handle} : s.handles.get? h = some handle →
      handle.location ≠ .block p (Pool.placeOf pool.firstSlots i) →
      Complaint s p pool i h (.staleLocation i)
  | large {handle : Handle} : s.handles.get? h = some handle → pool.blockSize < handle.size →
      Complaint s p pool i h (.ownerTooLarge i)

theorem Complaint.not_agrees {i : Nat} (hc : Complaint s p pool i h e) : ¬Agrees s p pool i h := by
  rintro ⟨handle, hh, hl, hs⟩
  cases hc with
  | gone hg =>
    rw [hh] at hg
    cases hg
  | stale hg hn =>
    rw [hh] at hg
    cases hg
    exact hn hl
  | large hg hn =>
    rw [hh] at hg
    cases hg
    omega

theorem checkSlot_vacant (hw : pool.WellFormed) {i : Nat} (hl : pool.len ≤ i) (hi : i < pool.capacity) :
    checkSlot s p pool i = .ok () := by
  obtain ⟨payload, hs⟩ := hw.vacant i hl hi
  simp [checkSlot, hw.slotAt_eq hs, hl, Header.vacant]

theorem checkSlot_live (hw : pool.WellFormed) {i : Nat} (ho : pool.Owns i h) :
    (checkSlot s p pool i = .ok () ∧ Agrees s p pool i h) ∨
      ∃ e, checkSlot s p pool i = .error e ∧ Complaint s p pool i h e := by
  obtain ⟨hi, payload, hs⟩ := ho
  simp only [checkSlot, hw.slotAt_eq hs, Nat.not_le_of_lt hi, ↓reduceIte, ne_eq, not_true_eq_false]
  cases hh : s.handles.get? h with
  | none => exact .inr ⟨_, rfl, .gone hh⟩
  | some handle =>
    simp only
    split
    · next hl => exact .inr ⟨_, rfl, .stale hh hl⟩
    · next hl =>
      split
      · next hb => exact .inr ⟨_, rfl, .large hh hb⟩
      · next hb => exact .inl ⟨rfl, handle, hh, not_not.mp hl, Nat.le_of_not_lt hb⟩

theorem checkSlots_ok (hs : ∀ i, index ≤ i → i < index + n → checkSlot s p pool i = .ok ()) :
    checkSlots s p pool n index = .ok () := by
  induction n generalizing index with
  | zero => rfl
  | succ n ih =>
    rw [checkSlots, hs index (Nat.le_refl _) (by omega)]
    exact ih fun i hl hi => hs i (by omega) (by omega)

theorem exists_of_checkSlots_error (hs : checkSlots s p pool n index = .error e) :
    ∃ i, index ≤ i ∧ i < index + n ∧ checkSlot s p pool i = .error e := by
  induction n generalizing index with
  | zero => cases hs
  | succ n ih =>
    rw [checkSlots] at hs
    cases hc : checkSlot s p pool index with
    | error f =>
      rw [hc] at hs
      cases hs
      exact ⟨index, Nat.le_refl _, by omega, hc⟩
    | ok _ =>
      rw [hc] at hs
      obtain ⟨i, hl, hi, he⟩ := ih hs
      exact ⟨i, by omega, by omega, he⟩

theorem integrityCheck_eq (hw : pool.WellFormed) :
    integrityCheck s p pool = checkSlots s p pool pool.capacity 0 := by
  have hc := hw.capacity_lt
  have hl := hw.len_le
  have hsum := hw.sum_chunkSizes
  have hf : pool.chunkSizes.foldl Word.satAdd 0 = pool.capacity := by
    rw [Pool.foldl_satAdd _ _ (by unfold Word.largest; omega), Nat.zero_add, hsum]
  simp only [integrityCheck, hf, ne_eq, not_true_eq_false, ↓reduceIte, Nat.not_lt_of_le hl]

theorem integrityCheck_ok (hw : pool.WellFormed) (ha : ∀ i h, pool.Owns i h → Agrees s p pool i h) :
    integrityCheck s p pool = .ok () := by
  rw [integrityCheck_eq hw]
  apply checkSlots_ok
  intro i _ hi
  rw [Nat.zero_add] at hi
  by_cases hl : i < pool.len
  · obtain ⟨h, ho⟩ := hw.exists_owner hl
    rcases checkSlot_live (s := s) (p := p) hw ho with ⟨hc, -⟩ | ⟨e, -, hc⟩
    · exact hc
    · exact absurd (ha i h ho) hc.not_agrees
  · exact checkSlot_vacant hw (Nat.le_of_not_lt hl) hi

theorem complaint_of_integrityCheck (hw : pool.WellFormed) (he : integrityCheck s p pool = .error e) :
    ∃ i h, pool.Owns i h ∧ Complaint s p pool i h e := by
  rw [integrityCheck_eq hw] at he
  obtain ⟨i, -, hi, hc⟩ := exists_of_checkSlots_error he
  rw [Nat.zero_add] at hi
  by_cases hl : i < pool.len
  · obtain ⟨h, ho⟩ := hw.exists_owner hl
    rcases checkSlot_live (s := s) (p := p) hw ho with ⟨ho', -⟩ | ⟨f, hf, hcomplaint⟩
    · rw [ho'] at hc
      cases hc
    · rw [hf] at hc
      cases hc
      exact ⟨i, h, ho, hcomplaint⟩
  · rw [checkSlot_vacant hw (Nat.le_of_not_lt hl) hi] at hc
    cases hc

end Store

end OffRow
