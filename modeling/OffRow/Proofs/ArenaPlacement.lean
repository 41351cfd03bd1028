import OffRow.Proofs.ArenaBookkeeping
import Mathlib.Order.Bounds.Basic

namespace OffRow

namespace Layout

variable {align base c : Nat}

theorem padding_isLeast (base c : Nat) (h : 0 < align) :
    IsLeast {x | c ≤ x ∧ align ∣ base + x} (c + padding (base + c) align) := by
  constructor
  · refine ⟨Nat.le_add_right c _, Nat.dvd_of_mod_eq_zero ?_⟩
    rw [← Nat.add_assoc]
    exact padding_aligned (base + c) h
  · rintro x ⟨hcx, hx⟩
    have hr : (base + c) % align < align := Nat.mod_lt _ h
    have hsum : ((base + c) % align + (x - c)) % align = 0 := by
      rw [Nat.mod_add_mod, show base + c + (x - c) = base + x by omega]
      exact Nat.mod_eq_zero_of_dvd hx
    unfold padding
    rcases Nat.eq_zero_or_pos ((base + c) % align) with hz | hpos
    · rw [hz, Nat.sub_zero, Nat.mod_self]
      omega
    · -- The sum is a multiple of the alignment that is not zero.
      have hle : align ≤ (base + c) % align + (x - c) :=
        Nat.le_of_dvd (by omega) (Nat.dvd_of_mod_eq_zero hsum)
      rw [Nat.mod_eq_of_lt (by omega)]
      omega

theorem words?_eq_some {size : Nat} {layout : Layout} :
    words? size = some layout ↔ layout.size = size ∧ layout.align = 8 := by
  constructor
  · exact of_words?
  · obtain ⟨n, align, hvalid, hle⟩ := layout
    rintro ⟨rfl, rfl⟩
    exact dif_pos ⟨hvalid, hle⟩

end Layout

namespace Arena

def FitsAt (a : Arena) (layout : Layout) (start : Nat) : Prop :=
  ∃ chunk, a.chunks.back? = some chunk ∧
    IsLeast {x | a.cursor ≤ x ∧ layout.align ∣ chunk.base + x} start ∧ start + layout.size ≤ chunk.size

def wanted (a : Arena) (layout : Layout) : Nat :=
  max ((a.chunks.back?.map fun chunk => 2 * chunk.size).getD a.chunkSize) (layout.size + layout.align)

def Denied (answers : Nat → Option Nat) (n : Nat) : Prop := 2 ^ 63 - 8 < n ∨ answers n = none

namespace Booked

variable {a : Arena} {answers : Nat → Option Nat} {layout : Layout} {granted : List Nat} {start base : Nat}

theorem tail?_eq_some (h : a.Booked granted) : a.tail? layout = some start ↔ a.FitsAt layout start := by
  constructor
  · intro ht
    obtain ⟨chunk, hb, rfl, hle⟩ := exists_chunk_of_tail ht
    exact ⟨chunk, hb, Layout.padding_isLeast chunk.base a.cursor layout.align_pos, hle⟩
  · rintro ⟨chunk, hb, hleast, hle⟩
    have hstart := (Layout.padding_isLeast chunk.base a.cursor layout.align_pos).unique hleast
    have hlast := h.last_le hb
    rw [tail?, hb, Option.bind_some]
    simp only [hstart]
    apply if_pos
    refine ⟨hle, ?_⟩
    unfold Word.largest
    omega

theorem tail?_eq_none (h : a.Booked granted) :
    a.tail? layout = none ↔ ∀ start, ¬a.FitsAt layout start := by
  rw [Option.eq_none_iff_forall_not_mem]
  exact forall_congr' fun start => not_congr h.tail?_eq_some

theorem fresh?_eq (h : a.Booked granted) (answers : Nat → Option Nat) (layout : Layout) :
    a.fresh? answers layout = (Layout.words? (a.wanted layout)).bind fun _ =>
      (answers (a.wanted layout)).map fun base => ⟨base, a.wanted layout, .empty⟩ := by
  rw [fresh?, wanted, ← h.nextSize_eq]

theorem fresh?_eq_none (h : a.Booked granted) :
    a.fresh? answers layout = none ↔ Denied answers (a.wanted layout) := by
  have hwords := Layout.words?_isSome (a.wanted layout)
  rw [h.fresh?_eq, Denied]
  cases hw : Layout.words? (a.wanted layout) with
  | none =>
    rw [hw] at hwords
    simp only [Option.bind_none, true_iff]
    left
    simp only [Option.isSome_none, Bool.false_eq_true, false_iff] at hwords
    omega
  | some words =>
    rw [hw] at hwords
    simp only [Option.isSome_some, true_iff] at hwords
    rw [Option.bind_some, Option.map_eq_none_iff]
    constructor
    · exact .inr
    · rintro (hlarge | hnone)
      · omega
      · exact hnone

theorem allocateLayout_fits (h : a.Booked granted) (hs : layout.size ≠ 0) (hf : a.FitsAt layout start) :
    (allocateLayout answers layout).run a = ⟨.ok ⟨a.chunks.size - 1, start⟩,
      { a with cursor := start + layout.size, allocatedBytes := a.allocatedBytes + layout.size }, []⟩ := by
  have ht := h.tail?_eq_some.mpr hf
  obtain ⟨chunk, hb, hstart, hle⟩ := exists_chunk_of_tail ht
  rw [allocateLayout_eq h.cursorInside hs, ht]
  simp only
  rw [h.carvedTo_eq]
  · rw [getLastD_chunkSizes hb]
    exact hle
  · omega

theorem allocateLayout_grows (h : a.Booked granted) (hs : layout.size ≠ 0)
    (hf : ∀ start, ¬a.FitsAt layout start) (hn : a.wanted layout ≤ 2 ^ 63 - 8)
    (hb : answers (a.wanted layout) = some base) :
    ∃ start, IsLeast {x | layout.align ∣ base + x} start ∧ start + layout.size ≤ a.wanted layout ∧
      (allocateLayout answers layout).run a = ⟨.ok ⟨a.chunks.size, start⟩,
        { a with
          chunks := a.chunks.push ⟨base, a.wanted layout, .empty⟩, cursor := start + layout.size
          allocatedBytes := a.allocatedBytes + layout.size },
        [.arenaGrown (a.wanted layout) (a.chunks.size + 1)]⟩ := by
  have ht := h.tail?_eq_none.mpr hf
  obtain ⟨words, hwords⟩ := Option.isSome_iff_exists.mp
    ((Layout.words?_isSome (a.wanted layout)).mpr (by omega))
  have hfresh : a.fresh? answers layout = some ⟨base, a.wanted layout, .empty⟩ := by
    rw [h.fresh?_eq, hwords, hb]
    rfl
  have hroom := lt_size_of_fresh hfresh
  have hleast := Layout.padding_isLeast base 0 layout.align_pos
  simp only [Nat.zero_le, true_and, Nat.add_zero, Nat.zero_add] at hleast
  refine ⟨Layout.padding base layout.align, hleast, hroom, ?_⟩
  -- What the cursor was before makes no difference to what is carved.
  have hcarved : { a with chunks := a.chunks.push ⟨base, a.wanted layout, .empty⟩ }.carvedTo
      (Layout.padding base layout.align + layout.size) layout = _ :=
    (h.fresh hfresh).carvedTo_eq (by rw [getLastD_chunkSizes_push]; exact hroom)
      (show 0 + layout.size ≤ Layout.padding base layout.align + layout.size by omega)
  rw [allocateLayout_eq h.cursorInside hs, ht, hfresh]
  simp only
  rw [hcarved]

theorem allocateLayout_denied (h : a.Booked granted) (hs : layout.size ≠ 0)
    (hf : ∀ start, ¬a.FitsAt layout start) (hd : Denied answers (a.wanted layout)) :
    (allocateLayout answers layout).run a =
      ⟨.error (.error (.outOfMemory (a.wanted layout))), a, []⟩ := by
  rw [allocateLayout_eq h.cursorInside hs, h.tail?_eq_none.mpr hf, h.fresh?_eq_none.mpr hd, wanted,
    ← h.nextSize_eq]

theorem allocateLayout_zero (a : Arena) (answers : Nat → Option Nat) (hs : layout.size = 0) :
    (allocateLayout answers layout).run a = ⟨.error (.error (.invalidSize 0 (2 ^ 63 - 1))), a, []⟩ := by
  rw [allocateLayout, if_pos hs]
  rfl

theorem allocateLayout_cases (h : a.Booked granted) (answers : Nat → Option Nat) (layout : Layout) :
    (layout.size = 0 ∧
        (allocateLayout answers layout).run a = ⟨.error (.error (.invalidSize 0 (2 ^ 63 - 1))), a, []⟩) ∨
      (((∃ start, a.FitsAt layout start) ∨ ¬Denied answers (a.wanted layout)) ∧
        ∃ w b events, (allocateLayout answers layout).run a = ⟨.ok w, b, events⟩) ∨
      (layout.size ≠ 0 ∧ (∀ start, ¬a.FitsAt layout start) ∧ Denied answers (a.wanted layout) ∧
        (allocateLayout answers layout).run a =
          ⟨.error (.error (.outOfMemory (a.wanted layout))), a, []⟩) := by
  by_cases hs : layout.size = 0
  · exact .inl ⟨hs, allocateLayout_zero a answers hs⟩
  right
  by_cases hf : ∃ start, a.FitsAt layout start
  · obtain ⟨start, hstart⟩ := id hf
    exact .inl ⟨.inl hf, _, _, _, h.allocateLayout_fits hs hstart⟩
  have hf' := not_exists.mp hf
  by_cases hd : Denied answers (a.wanted layout)
  · exact .inr ⟨hs, hf', hd, h.allocateLayout_denied hs hf' hd⟩
  · obtain ⟨hle, hsome⟩ := not_or.mp hd
    obtain ⟨base, hb⟩ := Option.ne_none_iff_exists'.mp hsome
    obtain ⟨start, -, -, hr⟩ := h.allocateLayout_grows hs hf' (Nat.le_of_not_lt hle) hb
    exact .inl ⟨.inr hd, _, _, _, hr⟩

theorem outOfMemory_iff (h : a.Booked granted) (n : Nat) :
    ((allocateLayout answers layout).run a).result = .error (.error (.outOfMemory n)) ↔
      layout.size ≠ 0 ∧ (∀ start, ¬a.FitsAt layout start) ∧ Denied answers (a.wanted layout) ∧
        n = a.wanted layout := by
  rcases h.allocateLayout_cases answers layout with
    ⟨hs, hr⟩ | ⟨hroom, w, b, events, hr⟩ | ⟨hs, hf, hd, hr⟩
  · rw [hr]
    exact iff_of_false nofun fun hn => hn.1 hs
  · rw [hr]
    refine iff_of_false nofun ?_
    rintro ⟨-, hf, hd, -⟩
    rcases hroom with ⟨start, hstart⟩ | hgranted
    · exact hf start hstart
    · exact hgranted hd
  · rw [hr]
    constructor
    · intro hn
      cases hn
      exact ⟨hs, hf, hd, rfl⟩
    · rintro ⟨-, -, -, rfl⟩
      rfl

theorem failure_unchanged (h : a.Booked granted) {failure : Failure}
    (hf : ((allocateLayout answers layout).run a).result = .error failure) :
    (∃ cause, failure = .error cause) ∧ ((allocateLayout answers layout).run a).state = a := by
  rcases h.allocateLayout_cases answers layout with ⟨-, hr⟩ | ⟨-, w, b, events, hr⟩ | ⟨-, -, -, hr⟩
  · rw [hr] at hf ⊢
    cases hf
    exact ⟨⟨_, rfl⟩, rfl⟩
  · rw [hr] at hf
    cases hf
  · rw [hr] at hf ⊢
    cases hf
    exact ⟨⟨_, rfl⟩, rfl⟩

end Booked

theorem allocate_run (a : Arena) (answers : Nat → Option Nat) (size : Nat) :
    (∀ layout : Layout, layout.size = size → layout.align = 8 →
        (allocate answers size).run a = (allocateLayout answers layout).run a) ∧
      ((∀ layout : Layout, layout.size = size → layout.align ≠ 8) →
        (allocate answers size).run a = ⟨.error (.error (.outOfMemory size)), a, []⟩) := by
  constructor
  · intro layout hsize halign
    rw [allocate, Layout.words?_eq_some.mpr ⟨hsize, halign⟩]
  · intro hnone
    rw [allocate]
    cases hw : Layout.words? size with
    | none => rfl
    | some layout =>
      obtain ⟨hsize, halign⟩ := Layout.words?_eq_some.mp hw
      exact absurd halign (hnone layout hsize)

end Arena

/-- A piece is put at the least aligned position from the cursor on if it ends within the last chunk
there, and else in a new chunk that is twice as large as the last or as large as need be, where the
first aligned position has room for it. Only if that chunk is too large or refused is the arena out of
memory, and no failure changes it. -/
theorem arena_placement (ts : List (Turn Command)) (a : ArenaId) (arena : Arena)
    (ha : (Engine.start.after Command.run ts).store.arenas.get? a = some arena)
    (answers : Nat → Option Nat) (layout : Layout) :
    let o := (Arena.allocateLayout answers layout).run arena
    let n := arena.wanted layout
    (layout.size = 0 → o = ⟨.error (.error (.invalidSize 0 (2 ^ 63 - 1))), arena, []⟩) ∧
      (layout.size ≠ 0 → ∀ start, arena.FitsAt layout start →
        o = ⟨.ok ⟨arena.chunks.size - 1, start⟩,
          { arena with
            cursor := start + layout.size, allocatedBytes := arena.allocatedBytes + layout.size }, []⟩) ∧
      (layout.size ≠ 0 → (∀ start, ¬arena.FitsAt layout start) → n ≤ 2 ^ 63 - 8 →
        ∀ base, answers n = some base →
          ∃ start, IsLeast {x | layout.align ∣ base + x} start ∧ start + layout.size ≤ n ∧
            o = ⟨.ok ⟨arena.chunks.size, start⟩,
              { arena with
                chunks := arena.chunks.push ⟨base, n, .empty⟩, cursor := start + layout.size
                allocatedBytes := arena.allocatedBytes + layout.size },
              [.arenaGrown n (arena.chunks.size + 1)]⟩) ∧
      (∀ m, o.result = .error (.error (.outOfMemory m)) ↔
        layout.size ≠ 0 ∧ (∀ start, ¬arena.FitsAt layout start) ∧
          (2 ^ 63 - 8 < n ∨ answers n = none) ∧ m = n) ∧
      (∀ failure, o.result = .error failure → (∃ cause, failure = .error cause) ∧ o.state = arena) ∧
      ∀ size, let r := (Arena.allocate answers size).run arena
        (∀ words : Layout, words.size = size → words.align = 8 →
          r = (Arena.allocateLayout answers words).run arena) ∧
        ((∀ words : Layout, words.size = size → words.align ≠ 8) →
          r = ⟨.error (.error (.outOfMemory size)), arena, []⟩) := by
  have h := Engine.booked_of_start ts ha
  refine ⟨Arena.Booked.allocateLayout_zero arena answers, fun hs start => h.allocateLayout_fits hs,
    fun hs hf hn base => h.allocateLayout_grows hs hf hn, h.outOfMemory_iff, fun _ => h.failure_unchanged,
    arena.allocate_run answers⟩

theorem arena_placement_fresh :
    ∃ start, IsLeast {x | 8 ∣ 3 + x} start ∧ start + 32 ≤ 96 ∧
      ((Arena.allocateLayout (fun _ => some 3) Store.handleLayout).run (.new 96 (by decide))).result =
        .ok ⟨0, start⟩ := by
  have ha : (Engine.start.after Command.run [⟨.ask (.openArena 96 (by decide)), 0, some⟩]).store.arenas.get?
      ⟨0⟩ = some (.new 96 (by decide)) := rfl
  have hempty : ∀ start, ¬(Arena.new 96 (by decide)).FitsAt Store.handleLayout start := by
    rintro start ⟨chunk, hb, -⟩
    cases hb
  obtain ⟨start, hleast, hle, hr⟩ := (arena_placement _ ⟨0⟩ _ ha (fun _ => some 3)
    Store.handleLayout).2.2.1 (by decide) hempty (by decide) 3 rfl
  refine ⟨start, hleast, hle, ?_⟩
  rw [hr]
  rfl

end OffRow
