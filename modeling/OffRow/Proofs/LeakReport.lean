import OffRow.Proofs.RegistryAccounts

namespace OffRow

open Ledger Store

namespace Store

variable {s : Store} {held : List PoolId} {r : RegistryId} {registry : Registry}

theorem Consistent.references_closed (hs : s.Consistent held)
    (hr : s.registries.get? r = some registry) (p : PoolId) :
    (s.closed r registry).references p + registry.poolIds.count p = s.references p := by
  obtain ⟨ht, hsame⟩ := hs.closed hr
  obtain ⟨pools, hclosed⟩ := closed_eq s r registry
  have hregistries : (s.closed r registry).registryReferences p + registry.poolIds.count p =
      s.registryReferences p := by
    rw [hclosed]
    exact registryReferences_erase hr
  have hafter := ht.references_eq p
  have hbefore := hs.references_eq p
  have hhandles := hsame.handleReferences_eq p
  omega

end Store

namespace Engine

variable {e : Engine} {past : List Report} {r : RegistryId} {c : SizeClass} {registry : Registry}

theorem Balanced.leftover_eq (he : e.Balanced past) (hr : e.store.registries.get? r = some registry)
    (c : SizeClass) :
    (registry.pool? c).bind e.store.leftover =
      if (remainingOf past r c).length = 0 then none
      else some (.liveAtTeardown c.blockSize (remainingOf past r c).length) := by
  have hlen := he.length_remainingOf (r := r) (by rw [hr]; rfl) c
  rw [poolFor_of_get? hr] at hlen
  cases hp : registry.pool? c with
  | none =>
    rw [hp] at hlen
    rw [hlen]
    rfl
  | some p =>
    have hpool : e.store.poolFor r c = some p := (poolFor_of_get? hr c).trans hp
    obtain ⟨cell, hcell⟩ := he.exists_poolFor hpool
    rw [hp, Option.elim_some, liveIn_of_get? hcell] at hlen
    rw [Option.bind_some, leftover_of_get? hcell, hlen, Pool.blockSize, he.classed hpool hcell]

theorem Balanced.leftovers_eq (he : e.Balanced past)
    (hr : e.store.registries.get? r = some registry) :
    registry.poolIds.filterMap e.store.leftover =
      (SizeClass.all.filter fun c => (remainingOf past r c).length ≠ 0).map fun c =>
        .liveAtTeardown c.blockSize (remainingOf past r c).length := by
  rw [Registry.poolIds_eq, List.filterMap_filterMap]
  simp only [he.leftover_eq hr]
  -- Class by class: one of which no string is left is skipped on both sides.
  induction SizeClass.all with
  | nil => rfl
  | cons c cs ih =>
    rw [List.filterMap_cons, List.filter_cons]
    by_cases hz : (remainingOf past r c).length = 0
    · simp only [hz, ↓reduceIte, ne_eq, not_true_eq_false, decide_false, Bool.false_eq_true, ih]
    · simp only [hz, ↓reduceIte, ne_eq, not_false_eq_true, decide_true, ih, List.map_cons]

end Engine

open Engine in
/-- A registry that goes reports each class of which a string was not destroyed, once and in order of
size, with the number of these strings. It fails if and only if it must not leave strings, there is
one, and the thread is not already unwinding; and then it says how many there are. In any case it is
gone with all its references to pools, and the strings stay where and as they are. -/
theorem leak_report (ts : List (Turn Request)) (hp : ∀ t ∈ ts, t.action.isPublic = true)
    {r : RegistryId} {registry : Registry}
    (hr : (start.after Request.ask ts).store.registries.get? r = some registry)
    {t : Turn Request} {unwinding : Bool} (ht : t.action = .dropRegistry r unwinding) :
    let e := start.after Request.ask ts
    let past := start.reports Request.ask ts
    let o := e.turn Request.ask t
    (∃ classes : List SizeClass, classes.Pairwise (fun c d => c.index < d.index) ∧
      (∀ c, c ∈ classes ↔ remainingOf past r c ≠ []) ∧
      o.events = classes.map fun c => .liveAtTeardown c.blockSize (remainingOf past r c).length) ∧
    o.result =
      (if registry.policy = .mustNotDropItems ∧ remaining past r ≠ [] ∧ unwinding = false then
        .error (.fault (.registryDropped (remaining past r).length))
      else .ok .done) ∧
    o.state.store.registries.get? r = none ∧
    (∀ p, o.state.store.references p + registry.poolIds.count p = e.store.references p) ∧
    o.state.strings = e.strings ∧ o.state.store.handles = e.store.handles ∧
    o.state.store.contents = e.store.contents := by
  intro e past o
  have he : e.Balanced past := balanced_after hp
  have hr : e.store.registries.get? r = some registry := hr
  have hturn : o = _ := he.toValid.turn_drop ht hr
  obtain ⟨hstrings, hhandles⟩ := he.toValid.turn_dropRegistry ht
  refine ⟨⟨SizeClass.all.filter fun c => (remainingOf past r c).length ≠ 0,
    SizeClass.sorted_all.filter _, fun c => ?_, ?_⟩, ?_, ?_, fun p => ?_, hstrings, hhandles, ?_⟩
  · simp [SizeClass.mem_all]
  · rw [hturn]
    exact he.leftovers_eq hr
  · rw [hturn, he.liveBlocks_eq hr]
    simp only [ne_eq, List.length_eq_zero_iff]
    exact if_congr (by rw [and_left_comm]) rfl rfl
  · obtain ⟨pools, hclosed⟩ := closed_eq (e.prepared t).store r registry
    rw [hturn, hclosed]
    exact (Table.get?_erase _ _ _).trans (if_pos rfl)
  · rw [hturn]
    exact (he.toValid.prepared t).consistent.references_closed hr p
  · obtain ⟨-, hcontents, -⟩ := turn_step he.toValid t
    rw [hcontents, ht]
    rfl

def leakyRun : List (Turn Request) :=
  [⟨.openRegistry 256 (by decide) .mustNotDropItems, 0, some⟩, ⟨.create ⟨0⟩ 8, 0, some⟩,
    ⟨.create ⟨0⟩ 8, 0, some⟩, ⟨.create ⟨0⟩ 20, 0, some⟩, ⟨.intoRaw ⟨0⟩, 0, some⟩,
    ⟨.destroy ⟨1⟩, 0, some⟩]

theorem leak_report_raw :
    ((Engine.start.after Request.ask leakyRun).turn Request.ask
      ⟨.dropRegistry ⟨0⟩ false, 0, some⟩).result = .error (.fault (.registryDropped 2)) := by
  have hpublic : ∀ t ∈ leakyRun, t.action.isPublic = true := by decide
  have hpolicy : ((Engine.start.after Request.ask leakyRun).store.registries.get? ⟨0⟩).map
      Registry.policy = some .mustNotDropItems := by decide +kernel
  have hremaining : (remaining (Engine.start.reports Request.ask leakyRun) ⟨0⟩).length = 2 := by
    decide +kernel
  obtain ⟨registry, hr, hmust⟩ := Option.map_eq_some_iff.mp hpolicy
  obtain ⟨-, hresult, -⟩ :=
    leak_report leakyRun hpublic hr (t := ⟨.dropRegistry ⟨0⟩ false, 0, some⟩) rfl
  rw [hresult, if_pos, hremaining]
  refine ⟨hmust, fun hnil => ?_, rfl⟩
  rw [hnil] at hremaining
  cases hremaining

end OffRow
