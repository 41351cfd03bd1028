import OffRow.Table
import Mathlib.Algebra.BigOperators.Group.List.Basic
import Mathlib.Tactic.Ring

namespace OffRow.Table

variable {k : ObjectKind} {α : Type}

def sum (t : Table k α) (f : α → Nat) : Nat := (t.cells.toList.map fun o => o.elim 0 f).sum

theorem get?_of_le {t : Table k α} {i : Id k} (h : t.next.number ≤ i.number) : t.get? i = none := by
  have hn : t.cells[i.number]? = none := Array.getElem?_eq_none h
  rw [get?, hn]
  rfl

theorem lt_next {t : Table k α} {i : Id k} {a : α} (h : t.get? i = some a) : i.number < t.next.number := by
  by_contra hle
  rw [get?_of_le (Nat.le_of_not_lt hle)] at h
  cases h

theorem get?_of_erase {t : Table k α} {i j : Id k} {a : α} (h : (t.erase i).get? j = some a) :
    t.get? j = some a := by
  rw [get?_erase] at h
  split at h
  · cases h
  · exact h

theorem modify_congr {t : Table k α} {i : Id k} {f g : α → α}
    (h : ∀ a, t.get? i = some a → f a = g a) : t.modify i f = t.modify i g := by
  obtain ⟨cells⟩ := t
  simp only [modify, Table.mk.injEq]
  apply Array.ext_getElem?
  intro j
  simp only [Array.getElem?_modify]
  split
  · next he =>
    subst he
    cases hc : cells[i.number]? with
    | none => rfl
    | some cell =>
      cases cell with
      | none => rfl
      | some a => simp [h a (by simp [get?, hc])]
  · rfl

theorem modify_eq_self {t : Table k α} {i : Id k} {f : α → α} (h : ∀ a, t.get? i = some a → f a = a) :
    t.modify i f = t := by
  rw [modify_congr (g := id) h]
  obtain ⟨cells⟩ := t
  simp only [modify, Table.mk.injEq]
  apply Array.ext_getElem?
  intro j
  rw [Array.getElem?_modify]
  split <;> simp

theorem modify_modify (t : Table k α) (i : Id k) (f g : α → α) :
    (t.modify i f).modify i g = t.modify i (g ∘ f) := by
  obtain ⟨cells⟩ := t
  simp only [modify, Table.mk.injEq]
  apply Array.ext_getElem?
  intro j
  simp only [Array.getElem?_modify]
  split
  · cases cells[j]? <;> simp
  · rfl

theorem erase_modify (t : Table k α) (i : Id k) (f : α → α) : (t.modify i f).erase i = t.erase i := by
  obtain ⟨cells⟩ := t
  simp only [modify, erase, Table.mk.injEq]
  apply Array.ext_getElem?
  intro j
  simp only [Array.getElem?_modify]
  split
  · cases cells[j]? <;> simp
  · rfl

variable (f : α → Nat)

theorem sum_add (t : Table k α) (a : α) : (t.add a).sum f = t.sum f + f a := by
  simp [sum, add]

theorem sum_map_modify {β : Type} (F : β → Nat) (g : β → β) (l : List β) (n : Nat) (b : β)
    (h : l[n]? = some b) : ((l.modify n g).map F).sum + F b = (l.map F).sum + F (g b) := by
  induction l generalizing n with
  | nil => simp at h
  | cons c l ih =>
    cases n with
    | zero =>
      simp only [List.getElem?_cons_zero, Option.some.injEq] at h
      subst h
      simp only [List.modify_zero_cons, List.map_cons, List.sum_cons]
      omega
    | succ n =>
      have ih := ih n (by simpa using h)
      simp only [List.modify_succ_cons, List.map_cons, List.sum_cons]
      omega

theorem getElem?_of_get? {t : Table k α} {i : Id k} {a : α} (h : t.get? i = some a) :
    t.cells.toList[i.number]? = some (some a) := by
  simp only [get?] at h
  cases hc : t.cells[i.number]? with
  | none => simp [hc] at h
  | some o =>
    simp only [hc, Option.join_some] at h
    simpa [h] using hc

theorem sum_modify {t : Table k α} {i : Id k} {a : α} (h : t.get? i = some a) (g : α → α) :
    (t.modify i g).sum f + f a = t.sum f + f (g a) := by
  have hs := sum_map_modify (fun o : Option α => o.elim 0 f) (·.map g) t.cells.toList i.number
    (some a) (getElem?_of_get? h)
  simpa [sum, modify, Array.toList_modify] using hs

theorem sum_erase {t : Table k α} {i : Id k} {a : α} (h : t.get? i = some a) :
    (t.erase i).sum f + f a = t.sum f := by
  have hs := sum_map_modify (fun o : Option α => o.elim 0 f) (fun _ => none) t.cells.toList
    i.number (some a) (getElem?_of_get? h)
  simpa [sum, erase, Array.toList_modify] using hs

theorem le_sum {t : Table k α} {i : Id k} {a : α} (h : t.get? i = some a) : f a ≤ t.sum f := by
  have hs := sum_erase f h
  omega

theorem exists_of_sum_pos {t : Table k α} (h : 0 < t.sum f) : ∃ i a, t.get? i = some a ∧ 0 < f a := by
  obtain ⟨x, hx, hp⟩ := List.exists_mem_ne_zero_of_sum_ne_zero (Nat.ne_of_gt h)
  obtain ⟨o, ho, rfl⟩ := List.mem_map.mp hx
  cases o with
  | none => exact absurd rfl hp
  | some a =>
    obtain ⟨n, hl⟩ := List.mem_iff_getElem?.mp ho
    rw [Array.getElem?_toList] at hl
    exact ⟨⟨n⟩, a, by simp [get?, hl], Nat.pos_of_ne_zero hp⟩

theorem sum_eq_length {t : Table k α} {P : α → Prop} [DecidablePred P] {l : List (Id k)}
    (hn : l.Nodup) (hl : ∀ i, i ∈ l ↔ ∃ a, t.get? i = some a ∧ P a) :
    t.sum (fun a => if P a then 1 else 0) = l.length := by
  induction l generalizing t with
  | nil =>
    by_contra hs
    obtain ⟨i, a, ha, hp⟩ := exists_of_sum_pos _ (Nat.pos_of_ne_zero hs)
    have hpa : P a := by
      by_contra hn
      simp [hn] at hp
    exact absurd ((hl i).mpr ⟨a, ha, hpa⟩) List.not_mem_nil
  | cons i l ih =>
    obtain ⟨hi, hn⟩ := List.nodup_cons.mp hn
    obtain ⟨a, ha, hpa⟩ := (hl i).mp List.mem_cons_self
    have he := sum_erase (fun a => if P a then 1 else 0) ha
    have hrest : (t.erase i).sum (fun a => if P a then 1 else 0) = l.length := by
      apply ih hn
      intro j
      rw [get?_erase]
      split
      · next hij =>
        subst hij
        simp [hi]
      · next hij =>
        rw [← hl j, List.mem_cons]
        exact (or_iff_right fun h => hij h.symm).symm
    rw [if_pos hpa, hrest] at he
    exact he.symm

theorem sum_congr {t : Table k α} {f g : α → Nat} (h : ∀ i a, t.get? i = some a → f a = g a) :
    t.sum f = t.sum g := by
  unfold sum
  congr 1
  apply List.map_congr_left
  intro o ho
  cases o with
  | none => rfl
  | some a =>
    obtain ⟨n, hl⟩ := List.mem_iff_getElem?.mp ho
    rw [Array.getElem?_toList] at hl
    exact h ⟨n⟩ a (by simp [get?, hl])

theorem sum_add_sum (t : Table k α) (f g : α → Nat) :
    t.sum (fun a => f a + g a) = t.sum f + t.sum g := by
  unfold sum
  induction t.cells.toList with
  | nil => rfl
  | cons o l ih =>
    cases o <;> simp only [List.map_cons, List.sum_cons, Option.elim_none, Option.elim_some, ih] <;>
      omega

theorem sum_filter {t : Table k α} {pass : α → Bool}
    (h : ∀ i a, t.get? i = some a → pass a = false → f a = 0) :
    (t.filter pass).sum f = t.sum f := by
  unfold sum filter
  rw [Array.toList_map, List.map_map]
  congr 1
  apply List.map_congr_left
  intro o ho
  cases o with
  | none => rfl
  | some a =>
    obtain ⟨n, hl⟩ := List.mem_iff_getElem?.mp ho
    rw [Array.getElem?_toList] at hl
    have ha : t.get? ⟨n⟩ = some a := by simp [get?, hl]
    cases hp : pass a with
    | true => simp [Option.filter, hp]
    | false => simp [Option.filter, hp, h ⟨n⟩ a ha hp]

end OffRow.Table
