import OffRow.Proofs.Outcomes
import OffRow.Store.Temporaries

namespace OffRow

def Event.isScratch : Event → Bool
  | .arenaGrown .. | .arenaReset _ => true
  | _ => false

def Failure.isScratch : Failure → Bool
  | .error _ => true
  | .fault .cursorOutsideChunk | .fault .freshChunkTooSmall | .fault .dangling => true
  | .fault _ => false

abbrev Op.Scratch {α : Type} (x : Op Arena α) : Prop :=
  Op.Obeys (fun _ => True) (·.isScratch = true) (·.isScratch = true) x

namespace Arena

variable (answers : Nat → Option Nat) (layout : Layout)

theorem bump_scratch (chunk : ArenaChunk) : (bump chunk layout).Scratch := by
  refine .bind .get fun a => .bind (.ensure _ rfl) fun _ => ?_
  simp only
  split
  · exact .pure _
  · split
    · exact .pure _
    · split
      · exact .bind (.modify fun _ _ => trivial) fun _ => .pure _
      · exact .pure _

theorem grow_scratch : (grow answers layout).Scratch := by
  refine .bind .get fun a => ?_
  split
  · exact .fail rfl
  · simp only
    split
    · exact .fail rfl
    · refine .bind (.emit rfl) fun _ => .bind (.modify fun _ _ => trivial) fun _ => ?_
      refine .bind (bump_scratch layout _) fun _ => .bind (.expect _ rfl) fun _ => ?_
      exact .bind (.modify fun _ _ => trivial) fun _ => .pure _

theorem bumpLast_scratch : (bumpLast layout).Scratch := by
  refine .bind .get fun a => ?_
  split
  · exact .pure _
  · exact .bind (bump_scratch layout _) fun _ => .pure _

theorem allocateLayout_scratch : (allocateLayout answers layout).Scratch := by
  unfold allocateLayout
  split
  · exact .fail rfl
  · refine .bind (bumpLast_scratch layout) fun w => ?_
    cases w with
    | some w => exact .bind (.pure w) fun _ => .bind (.modify fun _ _ => trivial) fun _ => .pure _
    | none =>
      refine .bind (grow_scratch answers layout) fun _ => ?_
      exact .bind (.modify fun _ _ => trivial) fun _ => .pure _

theorem allocate_scratch (size : Nat) : (allocate answers size).Scratch := by
  unfold allocate
  split
  · exact .fail rfl
  · exact allocateLayout_scratch answers _

theorem reset_scratch : reset.Scratch := by
  refine .bind .get fun a => ?_
  simp only
  split
  · exact .modify fun _ _ => trivial
  · refine .bind (.modify fun _ _ => trivial) fun _ => ?_
    exact .bind (.emit rfl) fun _ => .modify fun _ _ => trivial

end Arena

namespace Store

/-- What cannot be told from the arenas and the temporary strings in them. -/
structure Aloof (I : Store → Prop) (E : Event → Prop) (F : Failure → Prop) : Prop where
  arenas : ∀ {s : Store} arenas, I s → I { s with arenas }
  created : ∀ {s : Store} size a w, I s →
    I { s with handles := s.handles.add (.temp size (.scratch a w)) }
  reclaimed : ∀ {s : Store} a, I s → I { s with handles := s.handles.filter fun h => !livesIn a h }
  event : ∀ {event : Event}, event.isScratch = true → E event
  failure : ∀ {cause : Failure}, cause.isScratch = true → F cause

theorem aloof_of_all {I : Store → Prop} (ha : ∀ {s : Store} arenas, I s → I { s with arenas })
    (hh : ∀ {s : Store} handles, I s → I { s with handles }) :
    Aloof I (fun _ => True) (fun _ => True) where
  arenas := ha
  created _ _ _ hs := hh _ hs
  reclaimed _ hs := hh _ hs
  event _ := trivial
  failure _ := trivial

namespace Aloof

variable {α : Type} {I : Store → Prop} {E : Event → Prop} {F : Failure → Prop} (hI : Aloof I E F)

include hI

theorem onArena (a : ArenaId) {x : Op Arena α} (hx : x.Scratch) : Op.Obeys I E F (onArena a x) := by
  refine .within (hI.failure rfl) fun s t hs _ => ?_
  obtain ⟨-, hevents, hfailure⟩ := hx t trivial
  exact ⟨hI.arenas _ hs, fun event hm => hI.event (hevents event hm),
    fun cause hc => hI.failure (hfailure cause hc)⟩

theorem store (a : ArenaId) (w : Place) (data : ByteArray) :
    Op.Obeys I E F (Store.onArena a (Op.modify (·.store w data))) :=
  hI.onArena a (.modify fun _ _ => trivial)

theorem addArena (a : Arena) : Op.Obeys I E F (addArena a) :=
  .bind .get fun _ => .bind (.modify fun _ hs => hI.arenas _ hs) fun _ => .pure _

theorem allocateScratch (a : ArenaId) (size : Nat) : Op.Obeys I E F (allocateScratch a size) :=
  .bind .get fun _ => hI.onArena a (Arena.allocate_scratch _ size)

theorem allocateScratchLayout (a : ArenaId) (layout : Layout) :
    Op.Obeys I E F (allocateScratchLayout a layout) :=
  .bind .get fun _ => hI.onArena a (Arena.allocateLayout_scratch _ layout)

theorem createTemporary (a : ArenaId) (size : Nat) : Op.Obeys I E F (createTemporary a size) := by
  have hadd : ∀ w, Op.Obeys I E F (addHandle (.temp size (.scratch a w))) := fun w =>
    .bind .get fun _ => .bind (.modify fun _ hs => hI.created size a w hs) fun _ => .pure _
  refine .bind (.ofExcept _ fun _ _ => hI.failure rfl) fun _ => .bind .get fun _ => ?_
  refine .bind (hI.onArena a (Arena.allocateLayout_scratch _ _)) fun _ => ?_
  refine .bind (hI.onArena a (Arena.allocate_scratch _ _)) fun w => .bind (hI.store a _ _) fun _ => ?_
  exact .bind (hadd w) fun _ => .pure _

theorem eraseTemporaries (a : ArenaId) : Op.Obeys I E F (eraseTemporaries a) :=
  .modify fun _ hs => hI.reclaimed a hs

theorem resetArena (a : ArenaId) : Op.Obeys I E F (resetArena a) :=
  .bind (hI.onArena a Arena.reset_scratch) fun _ => hI.eraseTemporaries a

theorem dropArena (a : ArenaId) : Op.Obeys I E F (dropArena a) :=
  .bind (.bind .get fun _ => .expect _ (hI.failure rfl)) fun _ => .bind (hI.eraseTemporaries a) fun _ =>
    .modify fun _ hs => hI.arenas _ hs

end Aloof

end Store

end OffRow
