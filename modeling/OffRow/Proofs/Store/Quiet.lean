import OffRow.Proofs.Store.Creation

namespace OffRow

def Event.isLeak : Event → Bool
  | .poolLeaked .. => true
  | _ => false

def Failure.isLeak : Failure → Bool
  | .fault (.poolDropped ..) => true
  | _ => false

abbrev Outcome.Quiet {σ α : Type} (o : Outcome σ α) : Prop :=
  o.Obeys (fun _ => True) (·.isLeak = false) (·.isLeak = false)

abbrev Op.Quiet {σ α : Type} (x : Op σ α) : Prop :=
  Op.Obeys (fun _ => True) (·.isLeak = false) (·.isLeak = false) x

namespace Outcome.Quiet

variable {σ α : Type} {s : σ} {events : List Event}

theorem done {a : α} (h : ∀ event ∈ events, event.isLeak = false) :
    (⟨.ok a, s, events⟩ : Outcome σ α).Quiet := Obeys.done trivial h

theorem failed {failure : Failure} (h : failure.isLeak = false) :
    (⟨.error failure, s, []⟩ : Outcome σ α).Quiet := Obeys.failed trivial nofun h

end Outcome.Quiet

namespace Pool

variable {p : Pool} {event : Event}

theorem isLeak_releaseEvents {idle : Nat → Bool} {k : Nat} (h : event ∈ releaseEvents p idle k) :
    event.isLeak = false := by
  induction k with
  | zero => cases h
  | succ k ih =>
    rw [releaseEvents] at h
    split at h
    · rcases List.mem_cons.mp h with rfl | h
      · rfl
      · exact ih h
    · cases h

theorem isLeak_growthEvents (h : event ∈ p.growthEvents) : event.isLeak = false := by
  rw [growthEvents] at h
  split at h
  · rw [List.mem_singleton.mp h]
    rfl
  · cases h

end Pool

namespace Store

variable {s : Store} {p : PoolId} {cell : SharedPool} {h : HandleId} {held : List PoolId} {event : Event}

theorem isLeak_destroyEvents {pool : Pool} {i : Nat} (h : event ∈ destroyEvents pool i) :
    event.isLeak = false := by
  rcases List.mem_append.mp h with h | h
  · split at h
    · cases h
    · rw [List.mem_singleton.mp h]
      rfl
  · exact Pool.isLeak_releaseEvents h

theorem isLeak_of_leftover (h : s.leftover p = some event) : event.isLeak = false := by
  obtain ⟨cell, -, h⟩ := Option.bind_eq_some_iff.mp h
  split at h
  · cases h
  · cases h
    rfl

theorem quiet_dangling : (Failure.fault .dangling).isLeak = false := rfl

theorem quiet_aloof :
    Aloof (fun _ => True) (fun event => event.isLeak = false) (fun failure => failure.isLeak = false) where
  arenas _ _ := trivial
  created _ _ _ _ := trivial
  reclaimed _ _ := trivial
  event {event} he := by
    cases event with
    | poolLeaked _ _ => cases he
    | _ => rfl
  failure {cause} hc := by
    cases cause with
    | error _ => rfl
    | fault cause =>
      cases cause with
      | poolDropped _ _ => cases hc
      | _ => rfl

theorem acquire_quiet (p : PoolId) : (acquire p).Quiet :=
  .bind (shared_obeys quiet_dangling p) fun _ => .modify fun _ _ => trivial

theorem createPool_quiet (c : SizeClass) (firstBytes : Nat) (policy : DropPolicy) :
    (createPool c firstBytes policy).Quiet := createPool_obeys fun _ => trivial

theorem poolForClass_quiet (r : RegistryId) (c : SizeClass) : (poolForClass r c).Quiet :=
  poolForClass_obeys quiet_dangling (fun _ => rfl) (fun _ _ _ => trivial) r c

theorem poolForSize_quiet (r : RegistryId) (size : Nat) : (poolForSize r size).Quiet :=
  .bind (.ofExcept _ fun _ _ => rfl) fun c => poolForClass_quiet r c

theorem addRegistry_quiet (registry : Registry) : (addRegistry registry).Quiet :=
  addRegistry_obeys fun _ => trivial

theorem intoRaw_quiet (h : HandleId) : (intoRaw h).Quiet :=
  intoRaw_obeys quiet_dangling (fun _ _ _ => trivial) h

theorem fromRaw_quiet (h : HandleId) : (fromRaw h).Quiet :=
  fromRaw_obeys quiet_dangling (fun _ _ _ => trivial) (by rfl) h

theorem overwrite_quiet (h : HandleId) (start : Nat) (data : ByteArray) : (overwrite h start data).Quiet :=
  overwrite_obeys quiet_dangling (fun _ _ _ _ => trivial) (fun _ _ _ _ _ => trivial) h start data

theorem createIn_quiet (hs : s.Consistent held) (hp : s.pools.get? p = some cell) (size : Nat) :
    ((createIn p size).run s).Quiet := by
  have hrun := createIn_run hp (hs.wellFormed p cell hp) (hs.positive hp) size
  simp only at hrun
  rw [hrun]
  split_ifs
  · exact .failed rfl
  · exact .failed rfl
  · exact .failed rfl
  · refine .done fun event hm => ?_
    rcases List.mem_append.mp hm with hm | hm
    · exact Pool.isLeak_growthEvents hm
    · rw [List.mem_singleton.mp hm]
      rfl
  · exact .failed rfl

theorem create_quiet {r : RegistryId} {registry : Registry} (hs : s.Consistent held)
    (hr : s.registries.get? r = some registry) (size : Nat) : ((create r size).run s).Quiet := by
  cases hk : SizeClass.forSize size with
  | error err =>
    rw [create, poolForSize, hk]
    exact .failed rfl
  | ok k =>
    cases hp : registry.pool? k with
    | some p =>
      obtain ⟨cell, hcell⟩ := hs.exists_of_registry hr (Registry.mem_poolIds hp)
      rw [create_known hr hk hp]
      exact createIn_quiet hs hcell size
    | none =>
      have hnew := (get?_opened s r registry k s.pools.next).trans (if_pos rfl)
      obtain ⟨-, hevents, hresult⟩ := createIn_quiet (hs.opened hr hp).1 hnew size
      rw [create_fresh hr hk hp]
      refine ⟨trivial, fun event hm => ?_, hresult⟩
      rcases List.mem_cons.mp hm with rfl | hm
      · rfl
      · exact hevents event hm

theorem destroy_quiet {b : ByteArray} (hs : s.Consistent held) (hc : s.contents h = some b) :
    ((destroy h).run s).Quiet := by
  obtain ⟨handle, p, cell, i, hh, hp, hi, -, -⟩ := hs.exists_block hc
  obtain ⟨m, hm⟩ := (hs.wellFormed p cell hp).exists_owner
    (show cell.pool.len - 1 < cell.pool.len by have := hi.1; omega)
  have hrun := destroy_run hs hh hp hi hm
  simp only at hrun
  rw [hrun]
  split_ifs
  · exact .failed rfl
  · exact .failed rfl
  · exact .done fun event hm => isLeak_destroyEvents hm

theorem release_quiet (hs : s.Consistent (p :: held)) (unwinding : Bool) :
    ((release unwinding p).run s).Quiet := by
  rw [release_run hs]
  exact .done nofun

theorem dropRegistry_quiet (hs : s.Consistent held) (unwinding : Bool) (r : RegistryId) :
    ((dropRegistry unwinding r).run s).Quiet := by
  cases hr : s.registries.get? r with
  | none =>
    rw [dropRegistry, Op.run_bind_error (registry_run_none hr)]
    exact .failed rfl
  | some registry =>
    rw [dropRegistry_run hs hr]
    refine ⟨trivial, fun event hm => ?_, fun failure he => ?_⟩
    · obtain ⟨p, -, hp⟩ := List.mem_filterMap.mp hm
      exact isLeak_of_leftover hp
    · simp only at he
      split at he
      · cases he
        rfl
      · cases he

theorem shrinkToFit_quiet (hs : s.Placed) (hp : s.pools.get? p = some cell) :
    ((shrinkToFit p).run s).Quiet := by
  rw [shrinkToFit_run hs hp]
  exact .done fun event hm => Pool.isLeak_releaseEvents hm

theorem check_quiet (hs : s.Placed) (hp : s.pools.get? p = some cell) : ((check p).run s).Quiet := by
  rw [check_run hs hp]
  exact .done nofun

end Store

end OffRow
