import OffRow.Proofs.Pool.Compaction

namespace OffRow.Pool

def Holds (p : Pool) (i : Nat) (owner : HandleId) (payload : ByteArray) : Prop :=
  i < p.len ∧ p.get? i = some ⟨⟨some owner, i⟩, payload⟩

variable {p : Pool} {i j : Nat} {owner h m : HandleId} {b payload : ByteArray}

theorem owns_iff : p.Owns i owner ↔ ∃ payload, p.Holds i owner payload := by
  constructor
  · rintro ⟨hi, payload, hs⟩
    exact ⟨payload, hi, hs⟩
  · rintro ⟨payload, hi, hs⟩
    exact ⟨hi, payload, hs⟩

theorem Holds.owns (h : p.Holds i owner payload) : p.Owns i owner := owns_iff.mpr ⟨payload, h⟩

theorem Holds.payload_eq (ha : p.Holds i owner payload) (hb : p.Holds i owner b) : payload = b := by
  have he := ha.2
  rw [hb.2] at he
  simpa using he.symm

theorem Holds.size_eq (hw : p.WellFormed) (h : p.Holds i owner payload) : payload.size = p.blockSize := by
  obtain ⟨_, _, hs, hb⟩ := hw.live i h.1
  have he := h.2
  rw [hs] at he
  simp only [Option.some.injEq, Slot.mk.injEq] at he
  exact he.2 ▸ hb

theorem holds_fitted (hw : p.WellFormed) : p.fitted.Holds i owner payload ↔ p.Holds i owner payload := by
  constructor
  · rintro ⟨hi, hs⟩
    exact ⟨hi, get?_fitted hw hi ▸ hs⟩
  · rintro ⟨hi, hs⟩
    exact ⟨hi, get?_fitted hw hi ▸ hs⟩

theorem owns_fitted (hw : p.WellFormed) : p.fitted.Owns i owner ↔ p.Owns i owner := by
  simp only [owns_iff, holds_fitted hw]

theorem holds_pushed (hw : p.WellFormed) {grants : Nat → Bool} (hg : p.CanAllocate grants) :
    (p.roomy.pushed owner).Holds i h b ↔
      p.Holds i h b ∨ i = p.len ∧ h = owner ∧ b = Bytes.zeros p.blockSize := by
  have hs : (p.roomy.pushed owner).get? i = _ := get?_pushed (hw.roomy hg) (len_lt_roomy hw)
  simp only [roomy_len, roomy_blockSize] at hs
  have hl : (p.roomy.pushed owner).len = p.len + 1 := congrArg (· + 1) roomy_len
  simp only [Holds, hs, hl]
  by_cases hi : i = p.len
  · subst hi
    simp only [↓reduceIte, Option.some.injEq, Slot.mk.injEq, Header.mk.injEq, and_true, true_and,
      Nat.lt_add_one, Nat.lt_irrefl, false_and, false_or]
    exact and_congr eq_comm eq_comm
  · simp only [hi, ↓reduceIte, false_and, or_false]
    constructor
    · rintro ⟨hlt, hs⟩
      have hlt : i < p.len := by omega
      exact ⟨hlt, get?_roomy hw hlt ▸ hs⟩
    · rintro ⟨hlt, hs⟩
      exact ⟨by omega, get?_roomy hw hlt ▸ hs⟩

theorem owns_pushed (hw : p.WellFormed) {grants : Nat → Bool} (hg : p.CanAllocate grants) :
    (p.roomy.pushed owner).Owns i h ↔ p.Owns i h ∨ i = p.len ∧ h = owner := by
  simp only [owns_iff, holds_pushed hw hg]
  constructor
  · rintro ⟨b, hb | ⟨hi, hm, -⟩⟩
    · exact .inl ⟨b, hb⟩
    · exact .inr ⟨hi, hm⟩
  · rintro (⟨b, hb⟩ | ⟨hi, hm⟩)
    · exact ⟨b, .inl hb⟩
    · exact ⟨_, .inr ⟨hi, hm, rfl⟩⟩

theorem holds_freed (hw : p.WellFormed) (hi : i < p.len) (hm : p.Holds (p.len - 1) m payload) :
    (p.freed i).Holds j h b ↔
      j < p.len - 1 ∧ if j = i then h = m ∧ b = payload else p.Holds j h b := by
  simp only [Holds, freed_len]
  apply and_congr_right
  intro hj
  rw [get?_freed hw hi hj hm.2]
  split
  · next he =>
    subst he
    simp only [Option.some.injEq, Slot.mk.injEq, Header.mk.injEq, and_true]
    exact and_congr eq_comm eq_comm
  · exact (and_iff_right (by omega)).symm

theorem holds_freed_at (hw : p.WellFormed) (hi : i < p.len) :
    (p.freed i).Holds j h b ↔ j < p.len - 1 ∧ p.Holds (if j = i then p.len - 1 else j) h b := by
  obtain ⟨m, payload, hs, -⟩ := hw.live (p.len - 1) (by omega)
  have hlast : p.Holds (p.len - 1) m payload := ⟨by omega, hs⟩
  rw [holds_freed hw hi hlast]
  apply and_congr_right
  intro _
  split
  · constructor
    · rintro ⟨rfl, rfl⟩
      exact hlast
    · intro hx
      obtain rfl := hx.owns.owner_eq hlast.owns
      exact ⟨rfl, hx.payload_eq hlast⟩
  · rfl

theorem owns_freed (hw : p.WellFormed) (hi : i < p.len) :
    (p.freed i).Owns j h ↔ j < p.len - 1 ∧ p.Owns (if j = i then p.len - 1 else j) h := by
  simp only [owns_iff, holds_freed_at hw hi, exists_and_left]

theorem holds_rewritten {f : ByteArray → ByteArray} :
    (p.rewritten i f).Holds j h b ↔ ∃ a, p.Holds j h a ∧ b = if i = j then f a else a := by
  have hl : (p.rewritten i f).len = p.len := rfl
  simp only [Holds, get?_rewritten, hl]
  constructor
  · rintro ⟨hj, hs⟩
    split at hs
    · next he =>
      obtain ⟨⟨header, a⟩, ha, hb⟩ := Option.map_eq_some_iff.mp hs
      simp only [Slot.mk.injEq] at hb
      obtain ⟨rfl, rfl⟩ := hb
      exact ⟨a, ⟨hj, ha⟩, (if_pos he).symm⟩
    · next he => exact ⟨b, ⟨hj, hs⟩, (if_neg he).symm⟩
  · rintro ⟨a, ⟨hj, ha⟩, rfl⟩
    refine ⟨hj, ?_⟩
    rw [ha]
    split <;> rfl

end OffRow.Pool
