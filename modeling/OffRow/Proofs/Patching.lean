import OffRow.Bytes

namespace OffRow.Bytes

def overlay (b : ByteArray) (start : Nat) (data : ByteArray) : ByteArray :=
  tabulate b.size fun i =>
    if start ≤ i ∧ i < start + data.size then data.data[i - start]?.getD 0 else b.data[i]?.getD 0

variable (b data : ByteArray) (start n i : Nat)

theorem getElem?_patch :
    (patch b start data).data[i]? =
      if start ≤ i ∧ i < start + data.size ∧ i < b.size then data.data[i - start]?
      else b.data[i]? := by
  have hb : b.data.size = b.size := rfl
  have hd : data.data.size = data.size := rfl
  simp only [patch, ByteArray.data_extract, ByteArray.data_append, Array.getElem?_extract,
    Array.getElem?_append, Array.size_extract, Array.size_append, hb, hd]
  grind

theorem patch_eq_overlay : patch b start data = overlay b start data := by
  apply ByteArray.ext
  apply Array.ext_getElem?
  intro i
  have hb : b.data.size = b.size := rfl
  have hd : data.data.size = data.size := rfl
  rw [getElem?_patch, overlay, tabulate, Array.getElem?_ofFn]
  grind

theorem extract_patch (hn : n ≤ b.size) :
    (patch b (min start n) (data.extract 0 (n - min start n))).extract 0 n =
      patch (b.extract 0 n) start data := by
  apply ByteArray.ext
  apply Array.ext_getElem?
  intro i
  have hb : b.data.size = b.size := rfl
  have hd : data.data.size = data.size := rfl
  have hs : (patch b (min start n) (data.extract 0 (n - min start n))).data.size = b.size :=
    size_patch _ _ _
  rw [ByteArray.data_extract, Array.getElem?_extract, Nat.zero_add, getElem?_patch, getElem?_patch]
  simp only [ByteArray.data_extract, ByteArray.size_extract, Array.getElem?_extract, hs, hb, hd]
  grind

theorem extract_zeros {k : Nat} (h : k ≤ n) : (zeros n).extract 0 k = zeros k := by
  apply ByteArray.ext
  simp [zeros, replicate, h]

end OffRow.Bytes
