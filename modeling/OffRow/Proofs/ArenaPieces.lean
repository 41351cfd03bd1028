import OffRow.Proofs.ArenaAllocation
import Mathlib.Data.List.Infix

namespace OffRow

structure Piece where
  place : Place
  size : Nat
  align : Nat

namespace Piece

def stop (q : Piece) : Nat := q.place.offset + q.size

def Apart (q r : Piece) : Prop :=
  q.place.chunk ≠ r.place.chunk ∨ q.stop ≤ r.place.offset ∨ r.stop ≤ q.place.offset

end Piece

namespace Arena

def spans (a : Arena) : List (Nat × Nat) := a.chunks.toList.map fun chunk => (chunk.base, chunk.size)

def shape (a : Arena) : List (Nat × Nat) × Nat := (a.spans, a.cursor)

def Holds (a : Arena) (q : Piece) : Prop :=
  ∃ chunk, a.chunks[q.place.chunk]? = some chunk ∧ q.stop ≤ chunk.size ∧
    (chunk.base + q.place.offset) % q.align = 0

structure Lays (a : Arena) (pieces : List Piece) : Prop where
  cursorInside : a.CursorInside
  holds : ∀ q ∈ pieces, a.Holds q
  below : ∀ q ∈ pieces, q.place.chunk + 1 = a.chunks.size → q.stop ≤ a.cursor
  apart : pieces.Pairwise Piece.Apart

def pieceFor (a : Arena) (answers : Nat → Option Nat) (layout : Layout) : Piece :=
  ⟨a.spot answers layout, layout.size, layout.align⟩

variable {a b c : Arena} {answers : Nat → Option Nat} {layout : Layout} {q : Piece}
  {pieces ps qs : List Piece} {chunk : ArenaChunk}

theorem getElem?_spans (a : Arena) (k : Nat) :
    a.spans[k]? = (a.chunks[k]?).map fun chunk => (chunk.base, chunk.size) := by
  rw [spans, List.getElem?_map, Array.getElem?_toList]

theorem length_spans (a : Arena) : a.spans.length = a.chunks.size := by
  rw [spans, List.length_map, Array.length_toList]

theorem exists_chunk_of_spans (h : b.spans = a.spans) {k : Nat} (hk : a.chunks[k]? = some chunk) :
    ∃ d, b.chunks[k]? = some d ∧ d.base = chunk.base ∧ d.size = chunk.size := by
  have hs := getElem?_spans b k
  rw [h, getElem?_spans, hk] at hs
  obtain ⟨d, hd, he⟩ := Option.map_eq_some_iff.mp hs.symm
  simp only [Prod.mk.injEq] at he
  exact ⟨d, hd, he⟩

theorem size_eq_of_spans (h : b.spans = a.spans) : b.chunks.size = a.chunks.size := by
  rw [← length_spans, ← length_spans, h]

theorem CursorInside.of_shape (ha : a.CursorInside) (h : b.shape = a.shape) : b.CursorInside := by
  obtain ⟨hs, hc⟩ := Prod.mk.inj h
  intro d hd
  obtain ⟨chunk, hk, -, hsize⟩ := exists_chunk_of_spans hs.symm hd
  rw [size_eq_of_spans hs] at hk
  have hle := ha chunk hk
  rw [hc]
  omega

theorem Holds.of_spans (hq : a.Holds q) (h : b.spans = a.spans) : b.Holds q := by
  obtain ⟨chunk, hk, hstop, halign⟩ := hq
  obtain ⟨d, hd, hbase, hsize⟩ := exists_chunk_of_spans h hk
  exact ⟨d, hd, hsize ▸ hstop, hbase ▸ halign⟩

theorem Lays.of_shape (h : a.Lays pieces) (he : b.shape = a.shape) : b.Lays pieces := by
  obtain ⟨hs, hc⟩ := Prod.mk.inj he
  refine ⟨h.cursorInside.of_shape he, fun q hq => (h.holds q hq).of_spans hs, ?_, h.apart⟩
  intro q hq hlast
  rw [hc]
  exact h.below q hq (hlast.trans (size_eq_of_spans hs))

theorem Lays.tail (h : a.Lays (q :: pieces)) : a.Lays pieces where
  cursorInside := h.cursorInside
  holds r hr := h.holds r (List.mem_cons_of_mem q hr)
  below r hr := h.below r (List.mem_cons_of_mem q hr)
  apart := (List.pairwise_cons.mp h.apart).2

theorem lays_nil (h : a.CursorInside) : a.Lays [] := ⟨h, nofun, nofun, List.Pairwise.nil⟩

theorem lays_new (n : Nat) (pos : 0 < n) : (Arena.new n pos).Lays [] := lays_nil nofun

theorem shape_store (a : Arena) (w : Place) (data : ByteArray) : (a.store w data).shape = a.shape := by
  have hs : (a.store w data).spans = a.spans := by
    apply List.ext_getElem?
    intro k
    rw [getElem?_spans, getElem?_spans, store, Array.getElem?_modify]
    split
    · cases a.chunks[k]? <;> rfl
    · rfl
  exact Prod.ext hs rfl

theorem exists_chunk_of_tail {start : Nat} (h : a.tail? layout = some start) :
    ∃ chunk, a.chunks.back? = some chunk ∧
      start = a.cursor + Layout.padding (chunk.base + a.cursor) layout.align ∧
      start + layout.size ≤ chunk.size := by
  obtain ⟨chunk, hb, hs⟩ := Option.bind_eq_some_iff.mp h
  simp only [Option.ite_none_right_eq_some, Option.some.injEq] at hs
  obtain ⟨⟨hle, -⟩, rfl⟩ := hs
  exact ⟨chunk, hb, rfl, hle⟩

theorem lt_size_of_fresh (h : a.fresh? answers layout = some chunk) :
    Layout.padding chunk.base layout.align + layout.size ≤ chunk.size := by
  obtain ⟨words, -, hs⟩ := Option.bind_eq_some_iff.mp h
  obtain ⟨base, -, rfl⟩ := Option.map_eq_some_iff.mp hs
  have hpad := Layout.padding_lt base layout.align_pos
  have hle := a.le_nextSize (layout.size + layout.align)
  change Layout.padding base layout.align + layout.size ≤ a.nextSize (layout.size + layout.align)
  omega

theorem Lays.carved_tail (h : a.Lays pieces) {start : Nat} (ht : a.tail? layout = some start) :
    (a.carvedTo (start + layout.size) layout).Lays
      (⟨⟨a.chunks.size - 1, start⟩, layout.size, layout.align⟩ :: pieces) := by
  obtain ⟨chunk, hb, hstart, hle⟩ := exists_chunk_of_tail ht
  have hpos : 0 < a.chunks.size := by
    by_contra hz
    rw [Array.back?, Array.getElem?_eq_none (by omega)] at hb
    cases hb
  have halign := Layout.padding_aligned (chunk.base + a.cursor) layout.align_pos
  constructor
  · intro d hd
    rw [show (a.carvedTo _ layout).chunks = a.chunks from rfl, hb] at hd
    cases hd
    exact hle
  · intro q hq
    rcases List.mem_cons.mp hq with rfl | hq
    · refine ⟨chunk, hb, hle, ?_⟩
      change (chunk.base + start) % layout.align = 0
      rw [hstart, ← Nat.add_assoc]
      exact halign
    · exact h.holds q hq
  · intro q hq hlast
    change q.stop ≤ start + layout.size
    rcases List.mem_cons.mp hq with rfl | hq
    · exact Nat.le_refl _
    · have hbelow := h.below q hq hlast
      omega
  · apply List.pairwise_cons.mpr
    refine ⟨fun q hq => ?_, h.apart⟩
    by_cases hlast : q.place.chunk + 1 = a.chunks.size
    · have hbelow := h.below q hq hlast
      right
      right
      change q.stop ≤ start
      omega
    · left
      change a.chunks.size - 1 ≠ q.place.chunk
      omega

theorem Lays.carved_fresh (h : a.Lays pieces) (hf : a.fresh? answers layout = some chunk) :
    ({ a with chunks := a.chunks.push chunk }.carvedTo
        (Layout.padding chunk.base layout.align + layout.size) layout).Lays
      (⟨⟨a.chunks.size, Layout.padding chunk.base layout.align⟩, layout.size, layout.align⟩ ::
        pieces) := by
  have hle := lt_size_of_fresh hf
  have hpush : ∀ q ∈ pieces, q.place.chunk < a.chunks.size := by
    intro q hq
    obtain ⟨d, hd, -⟩ := h.holds q hq
    exact (Array.getElem?_eq_some_iff.mp hd).1
  constructor
  · intro d hd
    have hd' : (a.chunks.push chunk).back? = some d := hd
    rw [Array.back?_push] at hd'
    cases hd'
    exact hle
  · intro q hq
    rcases List.mem_cons.mp hq with rfl | hq
    · refine ⟨chunk, Array.getElem?_push_size, hle, ?_⟩
      exact Layout.padding_aligned chunk.base layout.align_pos
    · obtain ⟨d, hd, hin⟩ := h.holds q hq
      refine ⟨d, ?_, hin⟩
      change (a.chunks.push chunk)[q.place.chunk]? = some d
      rw [Array.getElem?_push, if_neg (Nat.ne_of_lt (hpush q hq)), hd]
  · intro q hq hlast
    change q.place.chunk + 1 = (a.chunks.push chunk).size at hlast
    change q.stop ≤ Layout.padding chunk.base layout.align + layout.size
    rw [Array.size_push] at hlast
    rcases List.mem_cons.mp hq with rfl | hq
    · exact Nat.le_refl _
    · have hlt := hpush q hq
      omega
  · apply List.pairwise_cons.mpr
    refine ⟨fun q hq => ?_, h.apart⟩
    left
    exact Nat.ne_of_gt (hpush q hq)

theorem Lays.carved (h : a.Lays pieces) (hg : a.Grants answers layout) :
    (a.carved answers layout).Lays (a.pieceFor answers layout :: pieces) := by
  rw [pieceFor, spot, Arena.carved]
  cases ht : a.tail? layout with
  | some start => exact h.carved_tail ht
  | none =>
    have hg := hg.2
    rw [ht] at hg
    obtain ⟨chunk, hf⟩ := Option.isSome_iff_exists.mp (hg.resolve_left Bool.false_ne_true)
    simp only [hf]
    exact h.carved_fresh hf

theorem spans_prefix_carved (a : Arena) (answers : Nat → Option Nat) (layout : Layout) :
    a.spans <+: (a.carved answers layout).spans := by
  unfold Arena.carved
  split
  · exact List.prefix_rfl
  · split
    · next chunk _ =>
      have hs : spans { a with chunks := a.chunks.push chunk } = a.spans ++ [(chunk.base, chunk.size)] := by
        simp [spans]
      change a.spans <+: spans { a with chunks := a.chunks.push chunk }
      rw [hs]
      exact List.prefix_append _ _
    · exact List.prefix_rfl

structure Extends (a : Arena) (ps : List Piece) (b : Arena) : Prop where
  lays : ∀ {held}, a.Lays held → b.Lays (ps ++ held)
  spans_prefix : a.spans <+: b.spans

theorem Extends.of_shape (h : b.shape = a.shape) : a.Extends [] b where
  lays ha := ha.of_shape h
  spans_prefix := by
    rw [(Prod.mk.inj h).1]

theorem extends_carved (hg : a.Grants answers layout) :
    a.Extends [a.pieceFor answers layout] (a.carved answers layout) where
  lays ha := ha.carved hg
  spans_prefix := spans_prefix_carved a answers layout

theorem Extends.trans (hab : a.Extends ps b) (hbc : b.Extends qs c) : a.Extends (qs ++ ps) c where
  lays ha := by
    rw [List.append_assoc]
    exact hbc.lays (hab.lays ha)
  spans_prefix := hab.spans_prefix.trans hbc.spans_prefix

theorem allocateLayout_cases (a : Arena) (answers : Nat → Option Nat) (layout : Layout) :
    (∃ failure, (allocateLayout answers layout).run a = ⟨.error failure, a, []⟩) ∨
      a.Grants answers layout ∧ ∃ events, (allocateLayout answers layout).run a =
        ⟨.ok (a.spot answers layout), a.carved answers layout, events⟩ := by
  by_cases hs : layout.size = 0
  · left
    rw [allocateLayout, if_pos hs]
    exact ⟨_, rfl⟩
  · by_cases hg : a.Grants answers layout
    · exact .inr ⟨hg, allocateLayout_run hs hg⟩
    · exact .inl (allocateLayout_refused hg)

def address? (a : Arena) (q : Piece) : Option Nat :=
  (a.chunks[q.place.chunk]?).map fun chunk => chunk.base + q.place.offset

theorem Lays.apart_in_memory (h : a.Lays pieces)
    (hs : a.spans.Pairwise fun c d => c.1 + c.2 ≤ d.1 ∨ d.1 + d.2 ≤ c.1) :
    pieces.Pairwise fun q r => ∀ x y, a.address? q = some x → a.address? r = some y →
      x + q.size ≤ y ∨ y + r.size ≤ x := by
  have hspans : ∀ {i j : Nat} {c d : Nat × Nat}, i < j → a.spans[i]? = some c → a.spans[j]? = some d →
      c.1 + c.2 ≤ d.1 ∨ d.1 + d.2 ≤ c.1 := by
    intro i j c d hij hc hd
    obtain ⟨hi, rfl⟩ := List.getElem?_eq_some_iff.mp hc
    obtain ⟨hj, rfl⟩ := List.getElem?_eq_some_iff.mp hd
    exact List.pairwise_iff_getElem.mp hs i j hi hj hij
  apply h.apart.imp_of_mem
  intro q r hq hr hapart x y hx hy
  obtain ⟨c, hc, hqstop, -⟩ := h.holds q hq
  obtain ⟨d, hd, hrstop, -⟩ := h.holds r hr
  rw [address?, hc] at hx
  rw [address?, hd] at hy
  have hx : c.base + q.place.offset = x := Option.some.inj hx
  have hy : d.base + r.place.offset = y := Option.some.inj hy
  unfold Piece.stop at hqstop hrstop
  have hcs := getElem?_spans a q.place.chunk
  have hds := getElem?_spans a r.place.chunk
  rw [hc] at hcs
  rw [hd] at hds
  rcases Nat.lt_trichotomy q.place.chunk r.place.chunk with hlt | heq | hlt
  · have hdisjoint := hspans hlt hcs hds
    simp only at hdisjoint
    omega
  · rw [heq, hd] at hc
    cases hc
    have hoffsets := hapart.resolve_left (not_not.mpr heq)
    unfold Piece.stop at hoffsets
    omega
  · have hdisjoint := hspans hlt hds hcs
    simp only at hdisjoint
    omega

end Arena

end OffRow
