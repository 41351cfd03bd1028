import OffRow.Proofs.Pool.Thrift

namespace OffRow

structure Fill where
  first : Nat
  chunks : Nat
  len : Nat
  deriving DecidableEq

namespace Fill

def capacity (f : Fill) : Nat := Pool.total f.first f.chunks

def taken (f : Fill) : Fill :=
  ⟨f.first, f.chunks + (if f.len = f.capacity then 1 else 0), f.len + 1⟩

def given (f : Fill) : Fill :=
  ⟨f.first, Pool.settle (fun k => 1 < k && 4 * (f.len - 1) < Pool.total f.first k) f.chunks, f.len - 1⟩

def fitted (f : Fill) : Fill :=
  ⟨f.first, Pool.settle (fun k => 0 < k && f.len ≤ Pool.total f.first (k - 1)) f.chunks, f.len⟩

end Fill

inductive Move where
  | stay
  | take
  | give
  | fit
  deriving DecidableEq

def Fill.moved (f : Fill) : Move → Fill
  | .stay => f
  | .take => f.taken
  | .give => f.given
  | .fit => f.fitted

namespace Pool

def fill (p : Pool) : Fill := ⟨p.firstSlots, p.chunks.size, p.len⟩

variable {p : Pool} {i j : Nat} {w : Place} {slot : Slot} {owner : HandleId}

theorem Shaped.capacity_fill (h : p.Shaped) : p.fill.capacity = p.capacity := h.capacity_eq.symm

theorem fill_setSlot : (p.setSlot w slot).fill = p.fill := by
  simp [fill, setSlot]

theorem fill_copied : (p.copied i j).fill = p.fill := fill_setSlot

theorem fill_pushed (h : p.Shaped) : (p.roomy.pushed owner).fill = p.fill.taken := by
  have hchunks : (p.roomy.pushed owner).chunks.size = _ := chunks_size_pushed
  have hlen : (p.roomy.pushed owner).len = p.len + 1 := congrArg (· + 1) roomy_len
  have hfirst : (p.roomy.pushed owner).firstSlots = p.firstSlots := roomy_firstSlots
  rw [fill, Fill.taken, h.capacity_fill, hchunks, hlen, hfirst]
  rfl

theorem fill_freed : (p.freed i).fill = p.fill.given := by
  have hchunks : (p.freed i).chunks.size =
      settle (p.compacted i).isSparse (p.compacted i).chunks.size := keep_chunks_size (settle_le _ _)
  have hsparse : (p.compacted i).isSparse =
      fun k => 1 < k && 4 * (p.len - 1) < total p.firstSlots k := by
    funext k
    rw [isSparse, firstSlots_compacted]
    rfl
  rw [chunks_size_compacted, hsparse] at hchunks
  rw [fill, hchunks, freed_firstSlots, freed_len]
  rfl

theorem fill_fitted : p.fitted.fill = p.fill.fitted := by
  have hchunks : p.fitted.chunks.size = settle p.isSpare p.chunks.size :=
    keep_chunks_size (settle_le _ _)
  rw [fill, hchunks]
  rfl

section

variable {n : Nat} {grants : Nat → Bool}

theorem grow_keeps : Op.Keeps (fun q => q.firstSlots = n) (grow grants) := by
  refine .bind .get fun q => ?_
  cases q.nextSlots? with
  | none => exact .fail _
  | some slots =>
    simp only
    split
    · refine .bind (.modify fun _ h => h) fun _ => .bind (.expect _ _) fun _ => ?_
      exact .bind (.modify fun _ h => h) fun _ => .emit _
    · exact .fail _

theorem releaseLast_keeps : Op.Keeps (fun q => q.firstSlots = n) releaseLast := by
  refine .bind .get fun _ => .bind (.expect _ _) fun _ => .bind (.modify fun _ h => h) fun _ => ?_
  refine .bind (.expect _ _) fun _ => .bind (.modify fun _ h => h) fun _ => ?_
  exact .bind (.ensure _ _) fun _ => .emit _

theorem releaseWhile_keeps {idle : Op Pool Bool} (hi : Op.Keeps (fun q => q.firstSlots = n) idle)
    (k : Nat) : Op.Keeps (fun q => q.firstSlots = n) (releaseWhile idle k) := by
  induction k with
  | zero => exact .pure _
  | succ k ih =>
    refine .bind hi fun b => ?_
    cases b with
    | true => exact .bind releaseLast_keeps fun _ => ih
    | false => exact .pure _

theorem shrinkToFit_keeps : Op.Keeps (fun q => q.firstSlots = n) shrinkToFit := by
  refine .bind .get fun _ => releaseWhile_keeps (.bind .get fun q => ?_) _
  cases q.chunks.back? with
  | none => exact .pure _
  | some chunk => exact .bind (.expect _ _) fun _ => .pure _

theorem shrinkIfSparse_keeps : Op.Keeps (fun q => q.firstSlots = n) shrinkIfSparse :=
  .bind .get fun _ => releaseWhile_keeps (.bind .get fun _ => .pure _) _

theorem checkThread_keeps {I : Pool → Prop} (caller : ThreadId) : Op.Keeps I (checkThread caller) :=
  .bind .get fun _ => .ensure _ _

theorem allocate_keeps (caller : ThreadId) (owner : HandleId) :
    Op.Keeps (fun q => q.firstSlots = n) (allocate grants caller owner) := by
  refine .bind (checkThread_keeps caller) fun _ => .bind (.bind .get fun q => ?_) fun _ => ?_
  · split
    · exact grow_keeps
    · exact .pure _
  · refine .bind .get fun _ => .bind (.ofFault _) fun _ => .bind (.modify fun _ h => h) fun _ => ?_
    exact .bind (.expect _ _) fun _ => .bind (.modify fun _ h => h) fun _ => .bind (.emit _) fun _ => .pure _

theorem copyBlock_keeps (source target : Nat) :
    Op.Keeps (fun q => q.firstSlots = n) (copyBlock source target) := by
  refine .bind .get fun _ => .bind (.ofFault _) fun _ => .bind (.expect _ _) fun _ => ?_
  exact .bind (.ofFault _) fun _ => .bind (.modify fun _ h => h) fun _ => .pure _

theorem vacate_keeps (last : Nat) : Op.Keeps (fun q => q.firstSlots = n) (vacate last) := by
  refine .bind .get fun _ => .bind (.ofFault _) fun _ => .bind (.modify fun _ h => h) fun _ => ?_
  exact .bind (.modify fun _ h => h) fun _ => shrinkIfSparse_keeps

end

end Pool

end OffRow
