import OffRow.Proofs.ArenaPieces
import OffRow.Proofs.Patching

namespace OffRow

namespace Bytes

variable (b data : ByteArray) (n start i : Nat)

theorem getElem?_padTo (hi : i < b.size) : (padTo b n).data[i]? = b.data[i]? := by
  rw [padTo, ByteArray.data_append, Array.getElem?_append_left hi]

theorem patch_cut :
    patch b (min start b.size) (data.extract 0 (b.size - min start b.size)) = overlay b start data := by
  have hcut := extract_patch b data start b.size (Nat.le_refl _)
  have hall : ∀ c : ByteArray, c.size = b.size → c.extract 0 b.size = c := by
    intro c hc
    apply ByteArray.ext
    rw [ByteArray.data_extract, Array.extract_eq_self_iff]
    right
    exact ⟨rfl, Nat.le_of_eq hc⟩
  rw [hall _ (size_patch _ _ _), hall b rfl] at hcut
  rw [hcut, patch_eq_overlay]

end Bytes

def Piece.string (w : Place) (n : Nat) : Piece := ⟨w, n, Layout.wordAlign⟩

theorem Piece.Apart.symm {q r : Piece} (h : q.Apart r) : r.Apart q := by
  rcases h with h | h | h
  · exact .inl (Ne.symm h)
  · exact .inr (.inr h)
  · exact .inr (.inl h)

namespace Arena

def byte? (a : Arena) (k j : Nat) : Option UInt8 := (a.chunks[k]?).bind (·.memory.data[j]?)

def Written (a : Arena) (w : Place) (n : Nat) : Prop :=
  ∃ chunk, a.chunks[w.chunk]? = some chunk ∧ w.offset + n ≤ chunk.memory.size

structure Retains (a b : Arena) : Prop where
  lays : ∀ {held}, a.Lays held → b.Lays held
  chunks : ∀ {k : Nat} {chunk}, a.chunks[k]? = some chunk → b.chunks[k]? = some chunk

variable {a b c : Arena} {answers : Nat → Option Nat} {layout : Layout} {v w : Place} {n k i j : Nat}
  {data : ByteArray} {chunk : ArenaChunk}

theorem getElem?_load :
    (a.load w n).data[i]? = if i < n then a.byte? w.chunk (w.offset + i) else none := by
  rw [load, byte?]
  cases a.chunks[w.chunk]? with
  | none => simp
  | some chunk =>
    have hm : chunk.memory.data.size = chunk.memory.size := rfl
    rw [ByteArray.data_extract, Array.getElem?_extract, hm, Option.bind_some]
    by_cases hi : i < n
    · rw [if_pos hi]
      split
      · rfl
      · exact (Array.getElem?_eq_none (by omega)).symm
    · rw [if_neg (by omega), if_neg hi]

theorem Written.size_load (h : a.Written w n) : (a.load w n).size = n := by
  obtain ⟨chunk, hk, hle⟩ := h
  rw [load, hk]
  simp only [ByteArray.size_extract]
  omega

theorem Written.exists_byte (h : a.Written w n) (hi : i < n) :
    ∃ x, a.byte? w.chunk (w.offset + i) = some x := by
  obtain ⟨chunk, hk, hle⟩ := h
  have hm : chunk.memory.data.size = chunk.memory.size := rfl
  rw [byte?, hk, Option.bind_some]
  exact ⟨_, Array.getElem?_eq_getElem (by omega)⟩

theorem byte?_store_inside (hk : a.chunks[w.chunk]? = some chunk) (hj : w.offset ≤ j)
    (hd : j < w.offset + data.size) : (a.store w data).byte? w.chunk j = data.data[j - w.offset]? := by
  have hsize := Bytes.size_padTo chunk.memory (w.offset + data.size)
  rw [byte?, store, Array.getElem?_modify, if_pos rfl, hk, Option.map_some, Option.bind_some,
    Bytes.getElem?_patch, if_pos ⟨hj, hd, by omega⟩]

theorem byte?_store_outside {x : UInt8} (hx : a.byte? k j = some x)
    (hj : k ≠ w.chunk ∨ j < w.offset ∨ w.offset + data.size ≤ j) :
    (a.store w data).byte? k j = some x := by
  obtain ⟨chunk, hk, hx⟩ := Option.bind_eq_some_iff.mp hx
  rw [byte?, store, Array.getElem?_modify]
  by_cases hw : w.chunk = k
  · have hlt : j < chunk.memory.size := (Array.getElem?_eq_some_iff.mp hx).1
    rw [if_pos hw, hk, Option.map_some, Option.bind_some, Bytes.getElem?_patch,
      if_neg (by have := hj.resolve_left (not_not.mpr hw.symm); omega), Bytes.getElem?_padTo _ _ _ hlt,
      hx]
  · rw [if_neg hw, hk, Option.bind_some, hx]

theorem Written.store (h : a.Written w n) : (a.store v data).Written w n := by
  obtain ⟨chunk, hk, hle⟩ := h
  unfold Written Arena.store
  rw [Array.getElem?_modify]
  split
  · rw [hk]
    refine ⟨_, rfl, ?_⟩
    simp only [Bytes.size_patch, Bytes.size_padTo]
    omega
  · exact ⟨chunk, hk, hle⟩

theorem load_store_part (h : a.Written w n) (start : Nat) :
    (a.store ⟨w.chunk, w.offset + start⟩ data).load w n = Bytes.patch (a.load w n) start data := by
  have hsize := h.size_load
  obtain ⟨chunk, hk, -⟩ := id h
  apply ByteArray.ext
  apply Array.ext_getElem?
  intro i
  rw [getElem?_load, Bytes.getElem?_patch, getElem?_load, hsize]
  by_cases hi : i < n
  · rw [if_pos hi, if_pos hi]
    by_cases hin : start ≤ i ∧ i < start + data.size ∧ i < n
    · have hbyte : (a.store ⟨w.chunk, w.offset + start⟩ data).byte? w.chunk (w.offset + i) =
          data.data[w.offset + i - (w.offset + start)]? :=
        byte?_store_inside hk (by simp only; omega) (by simp only; omega)
      rw [if_pos hin, hbyte, Nat.add_sub_add_left]
    · obtain ⟨x, hx⟩ := h.exists_byte hi
      rw [if_neg hin, hx]
      apply byte?_store_outside hx
      simp only
      omega
  · rw [if_neg hi, if_neg hi, if_neg (by omega)]

theorem load_store_apart {m start : Nat} (h : a.Written w n) (hd : start + data.size ≤ m)
    (hapart : (Piece.string v m).Apart (.string w n)) :
    (a.store ⟨v.chunk, v.offset + start⟩ data).load w n = a.load w n := by
  apply ByteArray.ext
  apply Array.ext_getElem?
  intro i
  rw [getElem?_load, getElem?_load]
  by_cases hi : i < n
  · obtain ⟨x, hx⟩ := h.exists_byte hi
    rw [if_pos hi, if_pos hi, hx]
    apply byte?_store_outside hx
    unfold Piece.Apart Piece.stop Piece.string at hapart
    simp only at hapart ⊢
    omega
  · rw [if_neg hi, if_neg hi]

theorem zeros_stored (hk : a.chunks[w.chunk]? = some chunk) :
    (a.store w (Bytes.zeros n)).Written w n ∧
      (a.store w (Bytes.zeros n)).load w n = Bytes.zeros n := by
  have hsize := Bytes.size_zeros n
  constructor
  · unfold Written store
    rw [Array.getElem?_modify, if_pos rfl, hk]
    refine ⟨_, rfl, ?_⟩
    simp only [Bytes.size_patch, Bytes.size_padTo, hsize]
    omega
  · apply ByteArray.ext
    apply Array.ext_getElem?
    intro i
    rw [getElem?_load]
    by_cases hi : i < n
    · rw [if_pos hi, byte?_store_inside hk (by omega) (by omega), Nat.add_sub_cancel_left]
    · have hdata : (Bytes.zeros n).data.size = n := hsize
      rw [if_neg hi, Array.getElem?_eq_none (by omega)]

namespace Retains

theorem refl (a : Arena) : a.Retains a := ⟨id, id⟩

theorem trans (hab : a.Retains b) (hbc : b.Retains c) : a.Retains c :=
  ⟨fun h => hbc.lays (hab.lays h), fun h => hbc.chunks (hab.chunks h)⟩

theorem written (h : a.Retains b) (hw : a.Written w n) : b.Written w n := by
  obtain ⟨chunk, hk, hle⟩ := hw
  exact ⟨chunk, h.chunks hk, hle⟩

theorem load_eq (h : a.Retains b) (hw : a.Written w n) : b.load w n = a.load w n := by
  obtain ⟨chunk, hk, -⟩ := hw
  rw [load, load, hk, h.chunks hk]

end Retains

theorem retains_carved (hg : a.Grants answers layout) : a.Retains (a.carved answers layout) where
  lays h := (h.carved hg).tail
  chunks hk := by
    unfold Arena.carved
    split
    · exact hk
    · split
      · have hlt := (Array.getElem?_eq_some_iff.mp hk).1
        exact (Array.getElem?_push.trans (if_neg (Nat.ne_of_lt hlt))).trans hk
      · exact hk

theorem allocateLayout_retains (a : Arena) (answers : Nat → Option Nat) (layout : Layout) :
    let o := (allocateLayout answers layout).run a
    a.Retains o.state ∧ ∀ w, o.result = .ok w → ∀ {held}, a.Lays held →
      o.state.Lays (⟨w, layout.size, layout.align⟩ :: held) := by
  rcases a.allocateLayout_cases answers layout with ⟨failure, hr⟩ | ⟨hg, events, hr⟩
  · rw [hr]
    exact ⟨.refl a, nofun⟩
  · rw [hr]
    refine ⟨retains_carved hg, fun w hw held h => ?_⟩
    cases hw
    exact h.carved hg

theorem allocate_retains (a : Arena) (answers : Nat → Option Nat) (n : Nat) :
    let o := (allocate answers n).run a
    a.Retains o.state ∧ ∀ w, o.result = .ok w → ∀ {held}, a.Lays held →
      o.state.Lays (.string w n :: held) := by
  rw [allocate]
  cases hp : Layout.words? n with
  | none => exact ⟨.refl a, nofun⟩
  | some layout =>
    obtain ⟨hsize, halign⟩ := Layout.of_words? hp
    have hpiece : ∀ w, Piece.string w n = ⟨w, layout.size, layout.align⟩ := by
      intro w
      rw [hsize, halign]
      rfl
    simp only [hpiece]
    exact a.allocateLayout_retains answers layout

end Arena

end OffRow
