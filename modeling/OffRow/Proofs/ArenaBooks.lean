import OffRow.Proofs.ArenaPieces
import Mathlib.Algebra.Order.BigOperators.Group.List
import Mathlib.Algebra.Order.Ring.Nat
import Mathlib.Data.List.Chain
import Mathlib.Data.List.MinMax
/-!
The books that an arena keeps. Each chunk is at least twice as large as the one before it, so all
chunks together are at most twice as large as the last: what has been granted fits a word and is
counted exactly.
-/

namespace OffRow

def Doubling (sizes : List Nat) : Prop := sizes.IsChain fun m n => 2 * m ≤ n

namespace Doubling

variable {sizes : List Nat} {n : Nat}

theorem concat (h : Doubling sizes) (hn : ∀ m ∈ sizes.getLast?, 2 * m ≤ n) :
    Doubling (sizes ++ [n]) := by
  apply List.isChain_append.mpr
  refine ⟨h, List.isChain_singleton n, fun m hm k hk => ?_⟩
  cases hk
  exact hn m hm

theorem sum_le (h : Doubling (sizes ++ [n])) : sizes.sum ≤ n := by
  induction sizes using List.reverseRecOn generalizing n with
  | nil => exact Nat.zero_le n
  | append_singleton sizes m ih =>
    obtain ⟨hsizes, -, hlast⟩ := List.isChain_append.mp h
    have hm : 2 * m ≤ n := hlast m (by simp) n rfl
    have hsum := ih hsizes
    rw [List.sum_append, List.sum_singleton]
    omega

theorem lt_last (h : Doubling (sizes ++ [n])) (hpos : 0 < n) : ∀ m ∈ sizes, m < n := by
  intro m hm
  rcases List.eq_nil_or_concat' sizes with rfl | ⟨front, k, rfl⟩
  · cases hm
  · obtain ⟨hfront, -, hlast⟩ := List.isChain_append.mp h
    have hk : 2 * k ≤ n := hlast k (by simp) n rfl
    have hle : m ≤ k := by
      rcases List.mem_append.mp hm with hm | hm
      · exact (List.le_sum_of_mem hm).trans (sum_le hfront)
      · exact (List.mem_singleton.mp hm).le
    omega

theorem sum_lt (h : Doubling sizes) (hvalid : ∀ n ∈ sizes, (Layout.words? n).isSome) :
    sizes.sum < Word.largest := by
  rcases List.eq_nil_or_concat' sizes with rfl | ⟨front, n, rfl⟩
  · decide
  · have hsum := h.sum_le
    have hn := (Layout.words?_isSome n).mp (hvalid n (by simp))
    rw [List.sum_append, List.sum_singleton]
    unfold Word.largest
    omega

end Doubling

theorem sum_dropLast_add (sizes : List Nat) :
    sizes.dropLast.sum + sizes.getLastD 0 = sizes.sum := by
  rcases List.eq_nil_or_concat' sizes with rfl | ⟨front, n, rfl⟩
  · rfl
  · rw [List.dropLast_concat, List.getLastD_concat, List.sum_append, List.sum_singleton]

namespace Arena

/-- The books of an arena that has granted requests of the sizes `granted`. -/
structure Booked (a : Arena) (granted : List Nat) : Prop where
  doubling : Doubling a.chunkSizes
  positive : ∀ n ∈ a.chunkSizes, 0 < n
  valid : ∀ n ∈ a.chunkSizes, (Layout.words? n).isSome
  cursor_le : a.cursor ≤ a.chunkSizes.getLastD 0
  allocatedBytes_eq : a.allocatedBytes = granted.sum
  allocatedBytes_le : a.allocatedBytes ≤ a.chunkSizes.dropLast.sum + a.cursor

def grantedOf (answers : Nat → Option Nat) : Arena → List Layout → List Nat
  | _, [] => []
  | a, layout :: layouts =>
    match (allocateLayout answers layout).run a with
    | ⟨.ok _, b, _⟩ => layout.size :: grantedOf answers b layouts
    | ⟨.error _, _, _⟩ => []

variable {a b : Arena} {answers : Nat → Option Nat} {layout : Layout} {granted : List Nat}
  {chunk : ArenaChunk}

theorem chunkSizes_push (a : Arena) (chunk : ArenaChunk) :
    chunkSizes { a with chunks := a.chunks.push chunk } = a.chunkSizes ++ [chunk.size] := by
  simp [chunkSizes]

theorem getLast?_chunkSizes (a : Arena) : a.chunkSizes.getLast? = a.chunks.back?.map ArenaChunk.size := by
  rw [chunkSizes, List.getLast?_map, Array.getLast?_toList]

theorem exists_chunkSizes (hb : a.chunks.back? = some chunk) :
    ∃ sizes, a.chunkSizes = sizes ++ [chunk.size] := by
  have hlast := getLast?_chunkSizes a
  rw [hb] at hlast
  exact List.getLast?_eq_some_iff.mp hlast

theorem getLastD_chunkSizes (hb : a.chunks.back? = some chunk) : a.chunkSizes.getLastD 0 = chunk.size := by
  obtain ⟨sizes, hs⟩ := exists_chunkSizes hb
  rw [hs, List.getLastD_concat]

theorem mem_chunkSizes (hb : a.chunks.back? = some chunk) : chunk.size ∈ a.chunkSizes := by
  obtain ⟨sizes, hs⟩ := exists_chunkSizes hb
  rw [hs]
  exact List.mem_append_right sizes List.mem_cons_self

theorem extent_store (a : Arena) (w : Place) (data : ByteArray) : (a.store w data).extent = a.extent := by
  have hspans := (Prod.mk.inj (shape_store a w data)).1
  have hsizes : ∀ c : Arena, c.chunkSizes = c.spans.map Prod.snd := by
    intro c
    rw [chunkSizes, spans, List.map_map]
    rfl
  rw [extent, hsizes, hspans, ← hsizes]
  rfl

theorem valid_of_fresh (hf : a.fresh? answers layout = some chunk) :
    (Layout.words? chunk.size).isSome ∧ chunk.size = a.nextSize (layout.size + layout.align) := by
  obtain ⟨words, hwords, hbase⟩ := Option.bind_eq_some_iff.mp hf
  obtain ⟨base, -, rfl⟩ := Option.map_eq_some_iff.mp hbase
  exact ⟨by rw [hwords]; rfl, rfl⟩

namespace Booked

theorem of_extent (h : a.Booked granted) (he : b.extent = a.extent) : b.Booked granted := by
  simp only [extent, Prod.mk.injEq] at he
  obtain ⟨hsizes, hcursor, hallocated⟩ := he
  constructor
  · rw [hsizes]
    exact h.doubling
  · rw [hsizes]
    exact h.positive
  · rw [hsizes]
    exact h.valid
  · rw [hsizes, hcursor]
    exact h.cursor_le
  · rw [hallocated]
    exact h.allocatedBytes_eq
  · rw [hsizes, hcursor, hallocated]
    exact h.allocatedBytes_le

theorem new (n : Nat) (pos : 0 < n) : (Arena.new n pos).Booked [] where
  doubling := List.isChain_nil
  positive := nofun
  valid := nofun
  cursor_le := Nat.le_refl 0
  allocatedBytes_eq := rfl
  allocatedBytes_le := Nat.le_refl 0

theorem cursorInside (h : a.Booked granted) : a.CursorInside := by
  intro chunk hb
  have hle := h.cursor_le
  rw [getLastD_chunkSizes hb] at hle
  exact hle

theorem last_le (h : a.Booked granted) (hb : a.chunks.back? = some chunk) :
    chunk.size + 8 ≤ 0x8000000000000000 :=
  (Layout.words?_isSome _).mp (h.valid chunk.size (mem_chunkSizes hb))

theorem allocatedBytes_le_sum (h : a.Booked granted) : a.allocatedBytes ≤ a.chunkSizes.sum := by
  have hsum := sum_dropLast_add a.chunkSizes
  have hle := h.allocatedBytes_le
  have hcursor := h.cursor_le
  omega

theorem carvedTo_eq {cursor : Nat} (h : a.Booked granted) (hc : cursor ≤ a.chunkSizes.getLastD 0)
    (hle : a.cursor + layout.size ≤ cursor) :
    a.carvedTo cursor layout = { a with cursor, allocatedBytes := a.allocatedBytes + layout.size } := by
  have hsum := sum_dropLast_add a.chunkSizes
  have hlt := h.doubling.sum_lt h.valid
  have hallocated := h.allocatedBytes_le
  have hcount : Word.satAdd a.allocatedBytes layout.size = a.allocatedBytes + layout.size :=
    Nat.min_eq_left (by omega)
  rw [Arena.carvedTo, hcount]

theorem counted {cursor : Nat} (h : a.Booked granted) (hc : cursor ≤ a.chunkSizes.getLastD 0)
    (hle : a.cursor + layout.size ≤ cursor) :
    (a.carvedTo cursor layout).Booked (granted ++ [layout.size]) := by
  rw [h.carvedTo_eq hc hle]
  refine ⟨h.doubling, h.positive, h.valid, hc, ?_, ?_⟩
  · change a.allocatedBytes + layout.size = _
    rw [List.sum_append, List.sum_singleton, h.allocatedBytes_eq]
  · have hallocated := h.allocatedBytes_le
    change a.allocatedBytes + layout.size ≤ a.chunkSizes.dropLast.sum + cursor
    omega

theorem pushed (h : a.Booked granted) (hpos : 0 < chunk.size) (hv : (Layout.words? chunk.size).isSome)
    (hd : ∀ last, a.chunks.back? = some last → 2 * last.size ≤ chunk.size) :
    Booked { a with chunks := a.chunks.push chunk, cursor := 0 } granted := by
  have hsizes : chunkSizes { a with chunks := a.chunks.push chunk, cursor := 0 } =
      a.chunkSizes ++ [chunk.size] := chunkSizes_push a chunk
  constructor
  · rw [hsizes]
    apply h.doubling.concat
    intro m hm
    rw [getLast?_chunkSizes] at hm
    obtain ⟨last, hlast, rfl⟩ := Option.map_eq_some_iff.mp hm
    exact hd last hlast
  · intro n hn
    rw [hsizes] at hn
    rcases List.mem_append.mp hn with hn | hn
    · exact h.positive n hn
    · rwa [List.mem_singleton.mp hn]
  · intro n hn
    rw [hsizes] at hn
    rcases List.mem_append.mp hn with hn | hn
    · exact h.valid n hn
    · rwa [List.mem_singleton.mp hn]
  · exact Nat.zero_le _
  · exact h.allocatedBytes_eq
  · rw [hsizes, List.dropLast_concat]
    exact h.allocatedBytes_le_sum

theorem nextSize_eq (h : a.Booked granted) (least : Nat) :
    a.nextSize least = max ((a.chunks.back?.map fun chunk => 2 * chunk.size).getD a.chunkSize) least := by
  rw [nextSize]
  cases hb : a.chunks.back? with
  | none => rfl
  | some chunk =>
    have hle := h.last_le hb
    have htwice : Word.satMul chunk.size 2 = 2 * chunk.size := by
      unfold Word.satMul Word.largest
      omega
    simp only [htwice]
    rfl

theorem fresh (h : a.Booked granted) (hf : a.fresh? answers layout = some chunk) :
    Booked { a with chunks := a.chunks.push chunk, cursor := 0 } granted := by
  obtain ⟨hv, hsize⟩ := valid_of_fresh hf
  have hle := a.le_nextSize (layout.size + layout.align)
  have halign := layout.align_pos
  apply h.pushed (by omega) hv
  intro last hlast
  rw [hsize, h.nextSize_eq, hlast]
  exact Nat.le_max_left _ _

theorem getLastD_chunkSizes_push (a : Arena) (chunk : ArenaChunk) :
    (chunkSizes { a with chunks := a.chunks.push chunk, cursor := 0 }).getLastD 0 = chunk.size := by
  rw [show chunkSizes { a with chunks := a.chunks.push chunk, cursor := 0 } = _ from
    chunkSizes_push a chunk, List.getLastD_concat]

theorem carved (h : a.Booked granted) (hg : a.Grants answers layout) :
    (a.carved answers layout).Booked (granted ++ [layout.size]) := by
  rw [Arena.carved]
  cases ht : a.tail? layout with
  | some start =>
    obtain ⟨chunk, hb, hstart, hle⟩ := exists_chunk_of_tail ht
    apply h.counted
    · rw [getLastD_chunkSizes hb]
      exact hle
    · omega
  | none =>
    have hfresh := hg.2
    rw [ht] at hfresh
    obtain ⟨chunk, hf⟩ := Option.isSome_iff_exists.mp (hfresh.resolve_left Bool.false_ne_true)
    have hroom := lt_size_of_fresh hf
    simp only [hf]
    apply (h.fresh hf).counted
    · rw [getLastD_chunkSizes_push]
      exact hroom
    · change 0 + layout.size ≤ _
      omega

end Booked

theorem allocateLayout_outcome (hc : a.CursorInside) (answers : Nat → Option Nat) (layout : Layout) :
    (∃ cause, (allocateLayout answers layout).run a = ⟨.error (.error cause), a, []⟩) ∨
      a.Grants answers layout ∧ ∃ events, (allocateLayout answers layout).run a =
        ⟨.ok (a.spot answers layout), a.carved answers layout, events⟩ := by
  by_cases hs : layout.size = 0
  · left
    rw [allocateLayout, if_pos hs]
    exact ⟨_, rfl⟩
  by_cases hg : a.Grants answers layout
  · exact .inr ⟨hg, allocateLayout_run hs hg⟩
  · left
    rw [allocateLayout_eq hc hs]
    cases ht : a.tail? layout with
    | some start => exact absurd ⟨hc, .inl (by rw [ht]; rfl)⟩ hg
    | none =>
      cases hf : a.fresh? answers layout with
      | some chunk => exact absurd ⟨hc, .inr (by rw [hf]; rfl)⟩ hg
      | none => exact ⟨_, rfl⟩

theorem grantedOf_ok {w : Place} {events : List Event} (layouts : List Layout)
    (hr : (allocateLayout answers layout).run a = ⟨.ok w, b, events⟩) :
    grantedOf answers a (layout :: layouts) = layout.size :: grantedOf answers b layouts := by
  rw [grantedOf, hr]

theorem grantedOf_error {failure : Failure} {events : List Event} (layouts : List Layout)
    (hr : (allocateLayout answers layout).run a = ⟨.error failure, b, events⟩) :
    grantedOf answers a (layout :: layouts) = [] := by
  rw [grantedOf, hr]

theorem Booked.lt_last (h : a.Booked granted) {front : List ArenaChunk}
    (hc : a.chunks.toList = front ++ [chunk]) : ∀ d ∈ front, d.size < chunk.size := by
  have hsizes : a.chunkSizes = front.map ArenaChunk.size ++ [chunk.size] := by
    rw [chunkSizes, hc, List.map_append, List.map_singleton]
  have hd := h.doubling
  rw [hsizes] at hd
  intro d hmem
  exact hd.lt_last (h.positive chunk.size (by rw [hsizes]; simp)) d.size (List.mem_map_of_mem hmem)

theorem Booked.argmax_eq (h : a.Booked granted) :
    a.chunks.toList.argmax ArenaChunk.size = a.chunks.back? := by
  rw [← Array.getLast?_toList]
  rcases List.eq_nil_or_concat' a.chunks.toList with hc | ⟨front, chunk, hc⟩
  · rw [hc]
    rfl
  · have hlt := h.lt_last hc
    rw [hc, List.getLast?_concat, List.argmax_concat]
    cases hm : front.argmax ArenaChunk.size with
    | none => rfl
    | some d => exact if_pos (hlt d (List.argmax_mem hm))

theorem Booked.reset_run (h : a.Booked granted) :
    (Arena.reset.run a).result = .ok () ∧
      (Arena.reset.run a).state =
        { a with
          chunks := (a.chunks.toList.argmax ArenaChunk.size).toArray, cursor := 0
          allocatedBytes := 0 } := by
  rw [h.argmax_eq, Arena.reset, Op.run_get_bind]
  cases hb : a.chunks.back? with
  | none =>
    have hempty : a.chunks = #[] := by simpa using hb
    refine ⟨rfl, ?_⟩
    change { a with cursor := 0, allocatedBytes := 0 } = _
    rw [hempty]
    rfl
  | some chunk => exact ⟨rfl, rfl⟩

theorem Booked.reset (h : a.Booked granted) : (Arena.reset.run a).state.Booked [] := by
  rw [h.reset_run.2, h.argmax_eq]
  cases hb : a.chunks.back? with
  | none => exact of_extent (Booked.new a.chunkSize a.chunkSize_pos) rfl
  | some chunk =>
    have hmem := mem_chunkSizes hb
    refine ⟨List.isChain_singleton _, ?_, ?_, Nat.zero_le _, rfl, Nat.zero_le _⟩
    · intro n hn
      rw [List.mem_singleton.mp hn]
      exact h.positive _ hmem
    · intro n hn
      rw [List.mem_singleton.mp hn]
      exact h.valid _ hmem

end Arena

end OffRow
