import OffRow.Arena
import OffRow.Proofs.Outcomes

namespace OffRow.Arena

def tail? (a : Arena) (layout : Layout) : Option Nat :=
  a.chunks.back?.bind fun chunk =>
    let start := a.cursor + Layout.padding (chunk.base + a.cursor) layout.align
    if start + layout.size ≤ chunk.size ∧ start + layout.size ≤ Word.largest then some start else none

def fresh? (a : Arena) (answers : Nat → Option Nat) (layout : Layout) : Option ArenaChunk :=
  let size := a.nextSize (layout.size + layout.align)
  (Layout.words? size).bind fun _ => (answers size).map fun base => ⟨base, size, .empty⟩

def CursorInside (a : Arena) : Prop := ∀ chunk, a.chunks.back? = some chunk → a.cursor ≤ chunk.size

def Grants (a : Arena) (answers : Nat → Option Nat) (layout : Layout) : Prop :=
  a.CursorInside ∧ ((a.tail? layout).isSome ∨ (a.fresh? answers layout).isSome)

def carvedTo (a : Arena) (cursor : Nat) (layout : Layout) : Arena :=
  { a with cursor, allocatedBytes := Word.satAdd a.allocatedBytes layout.size }

def carved (a : Arena) (answers : Nat → Option Nat) (layout : Layout) : Arena :=
  match a.tail? layout with
  | some start => a.carvedTo (start + layout.size) layout
  | none =>
    match a.fresh? answers layout with
    | some chunk =>
      { a with chunks := a.chunks.push chunk }.carvedTo
        (Layout.padding chunk.base layout.align + layout.size) layout
    | none => a

def spot (a : Arena) (answers : Nat → Option Nat) (layout : Layout) : Place :=
  match a.tail? layout with
  | some start => ⟨a.chunks.size - 1, start⟩
  | none =>
    match a.fresh? answers layout with
    | some chunk => ⟨a.chunks.size, Layout.padding chunk.base layout.align⟩
    | none => ⟨a.chunks.size, 0⟩

def extent (a : Arena) : List Nat × Nat × Nat := (a.chunkSizes, a.cursor, a.allocatedBytes)

variable {a : Arena} {answers : Nat → Option Nat} {layout : Layout}

theorem bump_run (chunk : ArenaChunk) (layout : Layout) (hc : a.cursor ≤ chunk.size) :
    let start := a.cursor + Layout.padding (chunk.base + a.cursor) layout.align
    (bump chunk layout).run a =
      if start + layout.size ≤ chunk.size ∧ start + layout.size ≤ Word.largest then
        ⟨.ok (some start), { a with cursor := start + layout.size }, []⟩
      else ⟨.ok none, a, []⟩ := by
  intro start
  rw [bump, Op.run_get_bind, Op.run_ensure_bind_pos a hc]
  simp only [Word.add?]
  by_cases hl : start + layout.size ≤ Word.largest
  · have hs : start ≤ Word.largest := Nat.le_trans (Nat.le_add_right _ _) hl
    rw [if_pos hs]
    simp only
    rw [if_pos hl]
    by_cases hk : start + layout.size ≤ chunk.size
    · rw [if_pos ⟨hk, hl⟩]
      simp only
      rw [if_pos hk]
      rfl
    · rw [if_neg fun h => hk h.1]
      simp only
      rw [if_neg hk]
      rfl
  · rw [if_neg (show ¬(start + layout.size ≤ chunk.size ∧ _) from fun h => hl h.2)]
    by_cases hs : start ≤ Word.largest
    · rw [if_pos hs]
      simp only
      rw [if_neg hl]
      rfl
    · rw [if_neg hs]
      rfl

theorem bumpLast_run (hc : a.CursorInside) (layout : Layout) :
    (bumpLast layout).run a =
      match a.tail? layout with
      | some start =>
        ⟨.ok (some ⟨a.chunks.size - 1, start⟩), { a with cursor := start + layout.size }, []⟩
      | none => ⟨.ok none, a, []⟩ := by
  rw [bumpLast, Op.run_get_bind, tail?]
  cases hb : a.chunks.back? with
  | none => rfl
  | some chunk =>
    have hr := bump_run chunk layout (hc chunk hb)
    simp only [Option.bind_some] at hr ⊢
    by_cases hs : a.cursor + Layout.padding (chunk.base + a.cursor) layout.align + layout.size ≤ chunk.size ∧
        a.cursor + Layout.padding (chunk.base + a.cursor) layout.align + layout.size ≤ Word.largest
    · rw [if_pos hs] at hr
      rw [if_pos hs, Op.run_bind_silent hr]
      rfl
    · rw [if_neg hs] at hr
      rw [if_neg hs, Op.run_bind_silent hr]
      rfl

theorem le_nextSize (a : Arena) (least : Nat) : least ≤ a.nextSize least := Nat.le_max_right _ _

theorem grow_run (a : Arena) (answers : Nat → Option Nat) (layout : Layout) :
    (grow answers layout).run a =
      match a.fresh? answers layout with
      | some chunk =>
        let start := Layout.padding chunk.base layout.align
        ⟨.ok ⟨a.chunks.size, start⟩,
          { a with chunks := a.chunks.push chunk, cursor := start + layout.size },
          [.arenaGrown chunk.size (a.chunks.size + 1)]⟩
      | none =>
        ⟨.error (.error (.outOfMemory (a.nextSize (layout.size + layout.align)))), a, []⟩ := by
  have hfit := layout.size_add_align
  have hadd : Word.add? layout.size layout.align = some (layout.size + layout.align) :=
    (Word.add?_eq_some _ _ _).mpr ⟨by unfold Word.largest; omega, rfl⟩
  rw [grow, Op.run_get_bind, hadd, fresh?]
  simp only
  cases hwords : Layout.words? (a.nextSize (layout.size + layout.align)) with
  | none => rfl
  | some words =>
    have hw := (Layout.words?_isSome _).mp (Option.isSome_of_eq_some hwords)
    rw [Option.bind_some, Option.bind_some]
    cases answers (a.nextSize (layout.size + layout.align)) with
    | none => rfl
    | some base =>
      have hpad := Layout.padding_lt base layout.align_pos
      have hle := a.le_nextSize (layout.size + layout.align)
      have hb := bump_run (a := { a with cursor := 0 })
        ⟨base, a.nextSize (layout.size + layout.align), .empty⟩ layout (Nat.zero_le _)
      simp only [Nat.add_zero, Nat.zero_add] at hb
      rw [if_pos ⟨by omega, by unfold Word.largest; omega⟩] at hb
      simp only [Option.map_some]
      rw [Op.run_bind_ok (Op.run_emit a _), Op.run_modify_bind, Op.run_bind_silent hb,
        Op.run_expect_some_bind, Op.run_modify_bind, Op.run_pure]
      rfl

theorem allocateLayout_eq (hc : a.CursorInside) (hs : layout.size ≠ 0) :
    (allocateLayout answers layout).run a =
      match a.tail? layout with
      | some start =>
        ⟨.ok ⟨a.chunks.size - 1, start⟩, a.carvedTo (start + layout.size) layout, []⟩
      | none =>
        match a.fresh? answers layout with
        | some chunk =>
          let start := Layout.padding chunk.base layout.align
          ⟨.ok ⟨a.chunks.size, start⟩,
            { a with chunks := a.chunks.push chunk }.carvedTo (start + layout.size) layout,
            [.arenaGrown chunk.size (a.chunks.size + 1)]⟩
        | none =>
          ⟨.error (.error (.outOfMemory (a.nextSize (layout.size + layout.align)))), a, []⟩ := by
  have hb := bumpLast_run hc layout
  have hgrow := grow_run a answers layout
  rw [allocateLayout, if_neg hs]
  cases ht : a.tail? layout with
  | some start =>
    rw [ht] at hb
    exact Op.run_bind_ok hb
  | none =>
    rw [ht] at hb
    rw [Op.run_bind_silent hb]
    cases hf : a.fresh? answers layout with
    | some chunk =>
      rw [hf] at hgrow
      exact Op.run_bind_ok hgrow
    | none =>
      rw [hf] at hgrow
      exact Op.run_bind_error hgrow

theorem allocateLayout_run (hs : layout.size ≠ 0) (hg : a.Grants answers layout) :
    ∃ events, (allocateLayout answers layout).run a =
      ⟨.ok (a.spot answers layout), a.carved answers layout, events⟩ := by
  obtain ⟨hc, hg⟩ := hg
  rw [allocateLayout_eq hc hs, carved, spot]
  cases ht : a.tail? layout with
  | some start => exact ⟨_, rfl⟩
  | none =>
    rw [ht] at hg
    obtain ⟨chunk, hf⟩ := Option.isSome_iff_exists.mp (hg.resolve_left Bool.false_ne_true)
    rw [hf]
    exact ⟨_, rfl⟩

theorem allocateLayout_granted (hs : layout.size ≠ 0) (hg : a.Grants answers layout) :
    ∃ w events, (allocateLayout answers layout).run a =
      ⟨.ok w, a.carved answers layout, events⟩ := ⟨_, allocateLayout_run hs hg⟩

theorem allocateLayout_refused (hg : ¬a.Grants answers layout) :
    ∃ failure, (allocateLayout answers layout).run a = ⟨.error failure, a, []⟩ := by
  by_cases hs : layout.size = 0
  · rw [allocateLayout, if_pos hs]
    exact ⟨_, rfl⟩
  by_cases hc : a.CursorInside
  · rw [allocateLayout_eq hc hs]
    cases ht : a.tail? layout with
    | some start => exact absurd ⟨hc, .inl (by rw [ht]; rfl)⟩ hg
    | none =>
      cases hf : a.fresh? answers layout with
      | some chunk => exact absurd ⟨hc, .inr (by rw [hf]; rfl)⟩ hg
      | none => exact ⟨_, rfl⟩
  · obtain ⟨chunk, hback, hlt⟩ : ∃ chunk, a.chunks.back? = some chunk ∧ chunk.size < a.cursor := by
      simpa [CursorInside] using hc
    have hb : (bump chunk layout).run a = ⟨.error (.fault .cursorOutsideChunk), a, []⟩ := by
      rw [bump, Op.run_get_bind, Op.run_ensure_bind_neg a (Nat.not_le_of_lt hlt)]
    have hl : (bumpLast layout).run a = ⟨.error (.fault .cursorOutsideChunk), a, []⟩ := by
      rw [bumpLast, Op.run_get_bind, hback]
      exact Op.run_bind_error hb
    rw [allocateLayout, if_neg hs]
    exact ⟨_, Op.run_bind_error hl⟩

theorem extent_carved (hs : layout.size ≠ 0) (hg : a.Grants answers layout) :
    (a.carved answers layout).extent ≠ a.extent := by
  have hpos : 0 < layout.size := Nat.pos_of_ne_zero hs
  intro he
  simp only [extent, Prod.mk.injEq] at he
  obtain ⟨hchunks, hcursor, -⟩ := he
  rw [carved] at hchunks hcursor
  cases ht : a.tail? layout with
  | some start =>
    simp only [ht] at hcursor
    obtain ⟨chunk, -, hc⟩ := Option.bind_eq_some_iff.mp ht
    simp only [Option.ite_none_right_eq_some, Option.some.injEq] at hc
    have hstart := hc.2
    change start + layout.size = a.cursor at hcursor
    omega
  | none =>
    have hg := hg.2
    rw [ht] at hg
    obtain ⟨chunk, hf⟩ := Option.isSome_iff_exists.mp (hg.resolve_left Bool.false_ne_true)
    simp only [ht, hf] at hchunks
    have hlen := congrArg List.length hchunks
    simp [chunkSizes, carvedTo] at hlen

end OffRow.Arena
