import OffRow.Proofs.Pool.Invariant

namespace OffRow

def Slot.bare (s : Slot) : Slot := { s with payload := .empty }

namespace Pool

def frame (p : Pool) : Pool := { p with chunks := p.chunks.map (·.map Slot.bare) }

variable {p q : Pool} {i : Nat} {h : HandleId}

theorem slot?_frame (w : Place) : p.frame.slot? w = (p.slot? w).map Slot.bare := by
  simp only [slot?, frame, Array.getElem?_map]
  cases p.chunks[w.chunk]? with
  | none => rfl
  | some chunk => simp

theorem owns_frame : p.frame.Owns i h ↔ p.Owns i h := by
  have hget : p.frame.get? i = (p.get? i).map Slot.bare := slot?_frame _
  unfold Owns
  rw [hget]
  apply and_congr_right
  intro _
  constructor
  · rintro ⟨payload, hs⟩
    obtain ⟨⟨header, b⟩, hs, he⟩ := Option.map_eq_some_iff.mp hs
    simp only [Slot.bare, Slot.mk.injEq] at he
    obtain ⟨rfl, -⟩ := he
    exact ⟨b, hs⟩
  · rintro ⟨payload, hs⟩
    rw [hs]
    exact ⟨.empty, rfl⟩

theorem owns_of_frame_eq (hf : q.frame = p.frame) : q.Owns i h ↔ p.Owns i h := by
  rw [← owns_frame, hf, owns_frame]

theorem frame_setSlot {w : Place} {s : Slot} (hs : ∀ t, p.slot? w = some t → s.bare = t.bare) :
    (p.setSlot w s).frame = p.frame := by
  have hchunks : (p.setSlot w s).chunks.map (·.map Slot.bare) = p.chunks.map (·.map Slot.bare) := by
    apply Array.ext_getElem?
    intro k
    simp only [setSlot, Array.getElem?_map, Array.getElem?_modify]
    split
    · next hk =>
      subst hk
      cases hc : p.chunks[w.chunk]? with
      | none => rfl
      | some chunk =>
        simp only [Option.map_some, Option.some.injEq]
        apply Array.ext_getElem?
        intro l
        simp only [Array.getElem?_map, Array.getElem?_setIfInBounds]
        split
        · next hl =>
          subst hl
          split
          · next hlt =>
            rw [Array.getElem?_eq_getElem hlt, Option.map_some, Option.map_some]
            refine congrArg some (hs _ ?_)
            rw [slot?, hc, Option.bind_some, Array.getElem?_eq_getElem hlt]
          · next hlt => rw [Array.getElem?_eq_none (Nat.le_of_not_lt hlt)]
        · rfl
    · rfl
  simp only [frame, hchunks]
  rfl

theorem frame_rewritten (i : Nat) (f : ByteArray → ByteArray) : (p.rewritten i f).frame = p.frame := by
  refine frame_setSlot fun t ht => ?_
  have hget : p.get? i = some t := ht
  rw [hget, Option.getD_some]
  rfl

end Pool

end OffRow
