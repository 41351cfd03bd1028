import OffRow.Proofs.Store.Custody
import OffRow.Proofs.Store.Scratch
/-!
What pools do not reach. An operation on pools and their strings changes nothing of a temporary string
but who owns it, which nobody does, and it leaves registries and arenas alone. This is said of any
property that does not depend on the rest.
-/

namespace OffRow

def Handle.extent? (h : Handle) : Option (Nat × Address) :=
  if h.temporary ∧ h.pool = none then some (h.size, h.location) else none

namespace Store

def temporary? (s : Store) (h : HandleId) : Option (Nat × Address) :=
  (s.handles.get? h).bind Handle.extent?

def Stray (s : Store) (h : HandleId) : Prop :=
  ∃ x a w, s.handles.get? h = some x ∧ x.location = .scratch a w ∧ x.extent? = none

def Spares (s : Store) (handles : Table .handle Handle) : Prop :=
  temporary? { s with handles } = s.temporary? ∧ ∀ h, Stray { s with handles } h → s.Stray h

structure PoolBlind (I : Store → Prop) : Prop where
  pools : ∀ {s : Store} pools, I s → I { s with pools }
  handles : ∀ {s : Store} handles, I s → s.Spares handles → I { s with handles }

variable {s : Store} {I : Store → Prop} {h : HandleId} {a : Handle} {p : PoolId}

theorem extent?_pooled (hp : a.pool = some p) : a.extent? = none := by
  rw [Handle.extent?, hp]
  exact if_neg fun h => nomatch h.2

theorem extent?_of_not_temporary (ht : a.temporary = false) : a.extent? = none := by
  rw [Handle.extent?, ht]
  exact if_neg fun h => nomatch h.1

theorem Spares.refl (s : Store) : s.Spares s.handles := ⟨rfl, fun _ => id⟩

theorem spares_add (ha : a.extent? = none) (hl : a.location = .nowhere) :
    s.Spares (s.handles.add a) := by
  constructor
  · funext x
    simp only [temporary?, Table.get?_add]
    split
    · next hx => rw [hx, Table.get?_next, Option.bind_some, Option.bind_none, ha]
    · rfl
  · rintro x ⟨b, k, w, hb, hscratch, hextent⟩
    rw [Table.get?_add] at hb
    split at hb
    · cases hb
      rw [hl] at hscratch
      cases hscratch
    · exact ⟨b, k, w, hb, hscratch, hextent⟩

theorem spares_modify {f : Handle → Handle}
    (hf : ∀ a, s.handles.get? h = some a → (f a).extent? = a.extent? ∧
      ∀ k w, (f a).location = .scratch k w → a.location = .scratch k w) :
    s.Spares (s.handles.modify h f) := by
  constructor
  · funext x
    simp only [temporary?, Table.get?_modify]
    split
    · next hx =>
      subst hx
      cases hh : s.handles.get? h with
      | none => rfl
      | some a => rw [Option.map_some, Option.bind_some, Option.bind_some, (hf a hh).1]
    · rfl
  · rintro x ⟨b, k, w, hb, hscratch, hextent⟩
    rw [Table.get?_modify] at hb
    split at hb
    · next hx =>
      subst hx
      obtain ⟨a, ha, rfl⟩ := Option.map_eq_some_iff.mp hb
      exact ⟨a, k, w, ha, (hf a ha).2 k w hscratch, (hf a ha).1 ▸ hextent⟩
    · exact ⟨b, k, w, hb, hscratch, hextent⟩

theorem spares_erase (hh : s.temporary? h = none) : s.Spares (s.handles.erase h) := by
  constructor
  · funext x
    simp only [temporary?, Table.get?_erase]
    split
    · next hx => exact hx ▸ hh.symm
    · rfl
  · rintro x ⟨b, k, w, hb, hstray⟩
    exact ⟨b, k, w, Table.get?_of_erase hb, hstray⟩

theorem freeBlock_keeps (hcheck : ∀ thread, Op.Keeps I (onPool p (Pool.checkThread thread)))
    (hcopy : ∀ source target, Op.Keeps I (onPool p (Pool.copyBlock source target)))
    (hvacate : ∀ last, Op.Keeps I (onPool p (Pool.vacate last)))
    (hmove : ∀ owner w, Op.Keeps I (updateLocation owner (.block p w)))
    (payload : Address) (owner : HandleId) : Op.Keeps I (freeBlock p payload owner) := by
  refine .bind .get fun s => .bind (hcheck _) fun _ => .bind (shared_obeys trivial p) fun cell => ?_
  have hlive : Op.Keeps I (isLive p payload owner (s.headerAt payload)) := by
    refine .bind (shared_obeys trivial p) fun cell => ?_
    split
    · exact .bind (.ofFault _) fun _ => .pure _
    · exact .pure _
  have hrelocate : ∀ source target, Op.Keeps I (relocate p source target) := fun _ _ =>
    .bind (hcopy _ _) fun _ => .bind (hmove _ _) fun _ => .bind (shared_obeys trivial p) fun _ => .emit _
  refine .bind hlive fun live => .bind (.ensure _ _) fun _ => .bind (.expect _ _) fun last => ?_
  split
  · exact .bind (hrelocate _ _) fun _ => hvacate last
  · exact hvacate last

theorem poolBlind_scratch (s : Store) :
    PoolBlind fun t => t.arenas = s.arenas ∧ s.Spares t.handles where
  pools _ ht := ht
  handles _ ht he := ⟨ht.1, he.1.trans ht.2.1, fun h hn => ht.2.2 h (he.2 h hn)⟩

namespace PoolBlind

theorem without (hI : PoolBlind I) (h : HandleId) : PoolBlind fun s => I s ∧ s.temporary? h = none where
  pools pools hs := ⟨hI.pools pools hs.1, hs.2⟩
  handles handles hs he := ⟨hI.handles handles hs.1 he, (congrFun he.1 h).trans hs.2⟩

variable (hI : PoolBlind I)

include hI

theorem onPool {α : Type} (p : PoolId) (x : Op Pool α) : Op.Keeps I (onPool p x) :=
  .within fun _ _ hs => hI.pools _ hs

theorem addHandle (ha : a.extent? = none) (hl : a.location = .nowhere) : Op.Keeps I (addHandle a) :=
  .bind .get fun _ => .bind (.modify fun _ hs => hI.handles _ hs (spares_add ha hl)) fun _ => .pure _

theorem owned (h : HandleId) (owned : Bool) (hs : I s) :
    I { s with handles := s.handles.modify h fun a => { a with owned } } :=
  hI.handles _ hs (spares_modify fun _ _ => ⟨rfl, fun _ _ => id⟩)

theorem overwrite (ha : ∀ {s : Store} arenas, I s → I { s with arenas }) (h : HandleId) (start : Nat)
    (data : ByteArray) : Op.Keeps I (overwrite h start data) :=
  overwrite_obeys trivial (fun _ _ _ hs => ha _ hs) (fun _ _ _ _ hs => hI.pools _ hs) h start data

theorem setOwned (h : HandleId) (owned : Bool) :
    Op.Keeps I (Store.modifyHandle h fun a => { a with owned }) := .modify fun _ hs => hI.owned h owned hs

theorem custody : Custody I (fun _ => True) (fun _ => True) where
  counted _ hs := hI.pools _ hs
  ended _ hs := hI.pools _ hs
  event _ := trivial
  fault _ := trivial

theorem createPool (c : SizeClass) (firstBytes : Nat) (policy : DropPolicy) :
    Op.Keeps I (createPool c firstBytes policy) := createPool_obeys fun hs => hI.pools _ hs

theorem updateLocation (h : HandleId) {location : Address} (hl : ∀ k w, location ≠ .scratch k w) :
    Op.Keeps I (updateLocation h location) := by
  refine .of_state fun s hs => ?_
  rw [updateLocation_run]
  cases hh : s.handles.get? h with
  | none => exact hs
  | some a =>
    simp only
    split
    · exact hs
    · next ht =>
      refine hI.handles _ hs (spares_modify fun b hb => ?_)
      rw [hh] at hb
      cases hb
      have ht : a.temporary = false := eq_false_of_ne_true ht
      rw [extent?_of_not_temporary ht]
      exact ⟨extent?_of_not_temporary ht, fun k w hk => absurd hk (hl k w)⟩

theorem moveTo (h : HandleId) (p : PoolId) (w : Place) : Op.Keeps I (Store.updateLocation h (.block p w)) :=
  hI.updateLocation h fun _ _ => nofun

theorem allocateBlock (p : PoolId) (owner : HandleId) : Op.Keeps I (allocateBlock p owner) :=
  .bind .get fun _ => hI.onPool p _

theorem freeBlock (p : PoolId) (payload : Address) (owner : HandleId) :
    Op.Keeps I (freeBlock p payload owner) :=
  freeBlock_keeps (fun _ => hI.onPool p _) (fun _ _ => hI.onPool p _) (fun _ => hI.onPool p _)
    (fun owner w => hI.moveTo owner p w) payload owner

theorem createIn (p : PoolId) (size : Nat) : Op.Keeps I (createIn p size) := by
  refine .bind (hI.custody.acquire p) fun _ => .of_state fun s hs => ?_
  have hadd : (Store.addHandle (.pooled p size)).run s =
      ⟨.ok s.handles.next, { s with handles := s.handles.add (.pooled p size) }, []⟩ := rfl
  have hspares := spares_add (s := s) (extent?_pooled (a := .pooled p size) rfl) rfl
  have hnext : s.temporary? s.handles.next = none := by
    rw [temporary?, Table.get?_next, Option.bind_none]
  -- From here on it matters that the new handle is not that of a temporary string: it may be erased.
  have hJ := hI.without s.handles.next
  rw [Op.run_bind_silent hadd]
  refine ((Op.Keeps.bind (checkUnused_obeys trivial trivial p) fun _ =>
    .bind (shared_obeys trivial p) fun _ => .bind (.ensure _ _) fun _ =>
    .bind (.recover (hJ.allocateBlock p _) fun failure => ?_) fun w =>
      .bind (hJ.moveTo _ _ _) fun _ => .bind (hJ.setOwned _ _) fun _ => .pure _) _
    ⟨hI.handles _ hs hspares, (congrFun hspares.1 _).trans hnext⟩).state.1
  cases failure with
  | fault e => exact .fail _
  | error e =>
    refine .bind (.modify fun t ht => ?_) fun _ => .bind (hJ.custody.release false p) fun _ => .fail _
    exact hJ.handles _ ht (spares_erase ht.2)

theorem destroy (h : HandleId) : Op.Keeps I (destroy h) := by
  refine .of_state fun s hs => ?_
  cases hh : s.handles.get? h with
  | none =>
    rw [Store.destroy, Op.run_bind_error (handle_run_none hh)]
    exact hs
  | some a =>
    rw [Store.destroy, Op.run_bind_silent (handle_run hh)]
    cases hpool : a.pool with
    | none => exact (hI.setOwned h false s hs).state
    | some p =>
      have hJ := hI.without h
      have htemp : s.temporary? h = none := by
        rw [temporary?, hh, Option.bind_some, extent?_pooled hpool]
      refine ((Op.Keeps.bind (hJ.setOwned h false) fun _ => .bind (.expect _ _) fun p =>
        .bind (checkUnused_obeys trivial trivial p) fun _ => .bind (hJ.freeBlock p _ h) fun _ =>
          .bind (.modify fun t ht => ?_) fun _ => hJ.custody.release false p) s ⟨hs, htemp⟩).state.1
      exact hJ.handles _ ht (spares_erase ht.2)

section

variable (hr : ∀ {s : Store} registries, I s → I { s with registries })

include hr

theorem poolForClass (r : RegistryId) (c : SizeClass) : Op.Keeps I (poolForClass r c) :=
  poolForClass_obeys trivial (fun _ => trivial) (fun _ _ hs => hr _ (hI.pools _ hs)) r c

theorem poolForSize (r : RegistryId) (size : Nat) : Op.Keeps I (poolForSize r size) :=
  .bind (.ofExcept _) fun c => hI.poolForClass hr r c

theorem create (r : RegistryId) (size : Nat) : Op.Keeps I (create r size) :=
  .bind (hI.poolForSize hr r size) fun p => hI.createIn p size

end

end PoolBlind

end Store

end OffRow
