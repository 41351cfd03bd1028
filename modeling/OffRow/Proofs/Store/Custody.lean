import OffRow.Proofs.Store.Sharing

namespace OffRow

def Event.isTeardown : Event → Bool
  | .liveAtTeardown .. | .poolLeaked .. => true
  | _ => false

def Fault.isTeardown : Fault → Bool
  | .dangling | .poolDropped .. | .registryDropped _ => true
  | _ => false

namespace Store

variable {α : Type} {I : Store → Prop} {E : Event → Prop} {F : Failure → Prop}

theorem addRegistry_obeys {registry : Registry}
    (hadd : ∀ {s : Store}, I s → I { s with registries := s.registries.add registry }) :
    Op.Obeys I E F (addRegistry registry) :=
  .bind .get fun _ => .bind (.modify fun _ hs => hadd hs) fun _ => .pure _

theorem createPool_obeys {c : SizeClass} {firstBytes : Nat} {policy : DropPolicy}
    (hadd : ∀ {s : Store}, I s → I (s.withPool c firstBytes policy)) :
    Op.Obeys I E F (createPool c firstBytes policy) :=
  fun _ hs => .done (hadd hs) (List.forall_mem_nil _)

section

variable (hd : F (.fault .dangling))

include hd

theorem shared_obeys (p : PoolId) : Op.Obeys I E F (shared p) := .bind .get fun _ => .expect _ hd

theorem handle_obeys (h : HandleId) : Op.Obeys I E F (handle h) := .bind .get fun _ => .expect _ hd

theorem registry_obeys (r : RegistryId) : Op.Obeys I E F (registry r) :=
  .bind .get fun _ => .expect _ hd

theorem bytes_obeys (h : HandleId) : Op.Obeys I E F (bytes h) :=
  .bind (handle_obeys hd h) fun _ => .bind .get fun _ => .expect _ hd

theorem overwrite_obeys
    (hscratch : ∀ {s : Store} {a arena} w data, s.arenas.get? a = some arena → I s →
      I { s with arenas := s.arenas.put a (arena.store w data) })
    (hblock : ∀ {s : Store} {p c w slot} start data, s.pools.get? p = some c →
      c.pool.slot? w = some slot → I s →
      I (s.setPool p (c.pool.setSlot w { slot with payload := Bytes.patch slot.payload start data })))
    (h : HandleId) (start : Nat) (data : ByteArray) : Op.Obeys I E F (overwrite h start data) := by
  refine .bind (handle_obeys hd h) fun handle => ?_
  cases handle.location with
  | nowhere => exact .fail hd
  | scratch a w =>
    refine .within hd fun s arena hs ha => ?_
    exact .done (hscratch _ _ ha hs) (List.forall_mem_nil _)
  | block p w =>
    refine .within hd fun s pool hs hpool => ?_
    obtain ⟨c, hp, rfl⟩ := Option.map_eq_some_iff.mp hpool
    rw [Op.run_get_bind]
    cases hslot : c.pool.slot? w with
    | none =>
      have hself : I (s.setPool p c.pool) := by rwa [setPool_self hp]
      exact .failed hself (List.forall_mem_nil _) hd
    | some slot => exact .done (hblock _ _ hp hslot hs) (List.forall_mem_nil _)

theorem checkUnused_obeys (hu : F (.fault .poolInUse)) (p : PoolId) :
    Op.Obeys I E F (checkUnused p) := .bind (shared_obeys hd p) fun _ => .ensure _ hu

section

variable (howned : ∀ {s : Store} h owned, I s →
  I { s with handles := s.handles.modify h fun a => { a with owned } })

include howned

theorem intoRaw_obeys (h : HandleId) : Op.Obeys I E F (intoRaw h) :=
  .bind (handle_obeys hd h) fun _ => .modify fun _ hs => howned h false hs

theorem fromRaw_obeys (ht : F (.fault .temporaryReclaimed)) (h : HandleId) :
    Op.Obeys I E F (fromRaw h) :=
  .bind (handle_obeys hd h) fun _ => .bind (.ensure _ ht) fun _ => .modify fun _ hs => howned h true hs

end

section

variable (hreaders : ∀ {s : Store} p (f : Nat → Nat), I s →
  I { s with pools := s.pools.modify p fun c => { c with readers := f c.readers } })

include hreaders

theorem beginAccess_obeys (h : HandleId) : Op.Obeys I E F (beginAccess h) := by
  refine .bind (handle_obeys hd h) fun a => ?_
  cases a.pool with
  | none => exact .pure _
  | some p => exact .modify fun _ hs => hreaders p (· + 1) hs

theorem endAccess_obeys (h : HandleId) : Op.Obeys I E F (endAccess h) := by
  refine .bind (handle_obeys hd h) fun a => ?_
  cases a.pool with
  | none => exact .pure _
  | some p => exact .modify fun _ hs => hreaders p (· - 1) hs

end

theorem poolForClass_obeys (he : ∀ b, E (.poolCreated b))
    (hopened : ∀ {s : Store} {r registry c}, s.registries.get? r = some registry →
      registry.pool? c = none → I s → I (s.opened r registry c)) (r : RegistryId) (c : SizeClass) :
    Op.Obeys I E F (poolForClass r c) := by
  intro s hs
  cases hr : s.registries.get? r with
  | none =>
    rw [poolForClass, Op.run_bind_error (registry_run_none hr)]
    exact .failed hs (List.forall_mem_nil _) hd
  | some registry =>
    cases hp : registry.pool? c with
    | some p =>
      rw [poolForClass_known hr hp]
      exact .done hs (List.forall_mem_nil _)
    | none =>
      rw [poolForClass_fresh hr hp]
      refine .done (hopened hr hp hs) fun event hm => ?_
      rw [List.mem_singleton.mp hm]
      exact he _

end

theorem check_obeys (hF : ∀ cause, F (.fault cause)) (p : PoolId) : Op.Obeys I E F (check p) :=
  .bind (shared_obeys (hF _) p) fun _ => .bind .get fun _ => .ofFault _ fun cause _ => hF cause

/-- What cannot be told from who holds the pools, as long as somebody does. -/
structure Custody (I : Store → Prop) (E : Event → Prop) (F : Failure → Prop) : Prop where
  counted : ∀ {s : Store} {p f},
    (∀ c, s.pools.get? p = some c → ∃ references, 0 < references ∧ f c = { c with references }) →
    I s → I { s with pools := s.pools.modify p f }
  ended : ∀ {s : Store} p, I s → I { s with pools := s.pools.erase p }
  event : ∀ {event : Event}, event.isTeardown = true → E event
  fault : ∀ {cause : Fault}, cause.isTeardown = true → F (.fault cause)

namespace Custody

variable (hI : Custody I E F)

include hI

theorem acquire (p : PoolId) : Op.Obeys I E F (acquire p) := by
  refine .bind (shared_obeys (hI.fault rfl) p) fun _ => .modify fun _ hs => hI.counted (fun c _ => ?_) hs
  exact ⟨c.references + 1, Nat.succ_pos _, rfl⟩

theorem tearDown (unwinding : Bool) (p : PoolId) : Op.Obeys I E F (tearDown unwinding p) := by
  refine .bind (shared_obeys (hI.fault rfl) p) fun _ => .bind (.modify fun _ hs => hI.ended p hs) fun _ => ?_
  split
  · refine .bind (.emit (hI.event rfl)) fun _ => ?_
    split
    · exact .fail (hI.fault rfl)
    · exact .pure _
  · exact .pure _

theorem release (unwinding : Bool) (p : PoolId) : Op.Obeys I E F (release unwinding p) := by
  intro s hs
  cases hp : s.pools.get? p with
  | none =>
    rw [Store.release, Op.run_bind_error (shared_run_none hp)]
    exact .failed hs (List.forall_mem_nil _) (hI.fault rfl)
  | some c =>
    rw [Store.release, Op.run_bind_silent (shared_run hp)]
    split
    · exact hI.tearDown unwinding p s hs
    · next hr =>
      refine .done (hI.counted (fun d hd => ?_) hs) (List.forall_mem_nil _)
      obtain rfl := Option.some.inj (hp.symm.trans hd)
      exact ⟨c.references - 1, by omega, rfl⟩

theorem releaseUnwinding (ps : List PoolId) : Op.Obeys I E F (releaseUnwinding ps) := by
  induction ps with
  | nil => exact .pure _
  | cons p ps ih => exact .bind (hI.release true p) fun _ => ih

theorem releaseAll (unwinding : Bool) (ps : List PoolId) (leaked : Nat) :
    Op.Obeys I E F (releaseAll unwinding ps leaked) := by
  induction ps generalizing leaked with
  | nil => exact .pure _
  | cons p ps ih =>
    have hrelease : Op.Obeys I E F (Op.recover (Store.release unwinding p) fun e => do
        Store.releaseUnwinding ps
        Op.fail e) :=
      .recover (hI.release unwinding p) fun _ he => .bind (hI.releaseUnwinding ps) fun _ => .fail he
    refine .bind (shared_obeys (hI.fault rfl) p) fun cell => ?_
    simp only
    split
    · exact .bind (.emit (hI.event rfl)) fun _ => .bind hrelease fun _ => ih _
    · exact .bind hrelease fun _ => ih _

theorem dropRegistry (hr : ∀ {s : Store} r, I s → I { s with registries := s.registries.erase r })
    (unwinding : Bool) (r : RegistryId) : Op.Obeys I E F (dropRegistry unwinding r) := by
  refine .bind (registry_obeys (hI.fault rfl) r) fun registry => .bind (.modify fun _ hs => hr r hs) fun _ => ?_
  refine .bind (hI.releaseAll unwinding _ 0) fun leaked => ?_
  split
  · exact .fail (hI.fault rfl)
  · exact .pure _

end Custody

end Store

end OffRow
