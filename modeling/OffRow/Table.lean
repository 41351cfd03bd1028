namespace OffRow

inductive ObjectKind where
  | pool
  | handle
  | arena
  | registry

structure Id (k : ObjectKind) where
  number : Nat
  deriving DecidableEq, Repr

structure Table (k : ObjectKind) (α : Type) where
  cells : Array (Option α)

namespace Table

variable {k : ObjectKind} {α : Type}

def empty : Table k α := ⟨#[]⟩

def next (t : Table k α) : Id k := ⟨t.cells.size⟩

def get? (t : Table k α) (i : Id k) : Option α := t.cells[i.number]?.join

def add (t : Table k α) (a : α) : Table k α := ⟨t.cells.push (some a)⟩

def modify (t : Table k α) (i : Id k) (f : α → α) : Table k α :=
  ⟨t.cells.modify i.number (·.map f)⟩

def put (t : Table k α) (i : Id k) (a : α) : Table k α := t.modify i fun _ => a

def erase (t : Table k α) (i : Id k) : Table k α := ⟨t.cells.modify i.number fun _ => none⟩

def filter (t : Table k α) (pass : α → Bool) : Table k α := ⟨t.cells.map (·.filter pass)⟩

variable (t : Table k α) (a : α) (f : α → α) (i j : Id k)

theorem number_eq : i.number = j.number ↔ i = j := by
  cases i; cases j; simp

theorem get?_add : (t.add a).get? i = if i = t.next then some a else t.get? i := by
  by_cases h : i = t.next
  · subst h
    simp [get?, add, next]
  · have hn : i.number ≠ t.cells.size := fun e => h ((number_eq i t.next).mp e)
    simp [get?, add, Array.getElem?_push, h, hn]

theorem get?_next : t.get? t.next = none := by
  simp [get?, next]

theorem get?_modify : (t.modify i f).get? j = if i = j then (t.get? j).map f else t.get? j := by
  simp only [get?, modify, Array.getElem?_modify, number_eq]
  split
  · cases t.cells[j.number]? <;> simp
  · rfl

theorem get?_put : (t.put i a).get? j = if i = j then (t.get? j).map (fun _ => a) else t.get? j :=
  get?_modify t (fun _ => a) i j

theorem get?_filter (pass : α → Bool) : (t.filter pass).get? i = (t.get? i).filter pass := by
  simp only [get?, filter, Array.getElem?_map]
  cases t.cells[i.number]? <;> simp

theorem get?_erase : (t.erase i).get? j = if i = j then none else t.get? j := by
  simp only [get?, erase, Array.getElem?_modify, number_eq]
  split
  · cases t.cells[j.number]? <;> simp
  · rfl

theorem next_add : (t.add a).next = ⟨t.next.number + 1⟩ := by
  simp [next, add]

@[simp] theorem next_modify : (t.modify i f).next = t.next := by
  simp [next, modify]

@[simp] theorem next_erase : (t.erase i).next = t.next := by
  simp [next, erase]

@[simp] theorem next_filter (pass : α → Bool) : (t.filter pass).next = t.next := by
  simp [next, filter]

end Table

end OffRow
