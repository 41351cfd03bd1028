import OffRow.Proofs.Turns

namespace OffRow

namespace Store

def outsideReferences (s : Store) (p : PoolId) : Nat := s.references p - s.registryReferences p

theorem Consistent.outsideReferences_eq {s : Store} {held : List PoolId} (hs : s.Consistent held)
    (p : PoolId) : s.outsideReferences p = s.handleReferences p + held.count p := by
  have he := hs.references_eq p
  unfold outsideReferences
  omega

theorem handleReferences_eq (s : Store) (p : PoolId) :
    s.handleReferences p =
      s.orphans p +
        s.handles.sum fun h => if h.pool = some p ∧ h.location ≠ .nowhere then 1 else 0 := by
  rw [orphans, ← Table.sum_add_sum]
  apply Table.sum_congr
  intro h a _
  by_cases hp : a.pool = some p <;> by_cases hl : a.location = .nowhere <;> simp [hp, hl]

theorem Counted.get?_eq_none {s : Store} {held : List PoolId} (hs : s.Counted held) (p : PoolId) :
    s.pools.get? p = none ↔ s.references p = 0 := by
  unfold references
  cases hp : s.pools.get? p with
  | none => simp
  | some cell => simpa using Nat.ne_of_gt (hs.positive hp)

theorem registryReferences_eq_zero (s : Store) (p : PoolId) :
    s.registryReferences p = 0 ↔
      ∀ r registry, s.registries.get? r = some registry → p ∉ registry.poolIds := by
  constructor
  · intro hz r registry hr hp
    have hle := Table.le_sum (fun r : Registry => r.poolIds.count p) hr
    have hpos := List.count_pos_iff.mpr hp
    unfold registryReferences at hz
    omega
  · intro hnone
    by_contra hz
    obtain ⟨r, registry, hr, hpos⟩ := Table.exists_of_sum_pos _ (Nat.pos_of_ne_zero hz)
    exact hnone r registry hr (List.count_pos_iff.mp hpos)

end Store

def Request.creates : Request → Bool
  | .create .. | .createIn .. => true
  | _ => false

theorem Request.losses_ne_zero {q : Request} {o : Outcome Engine Answer} {p : PoolId} :
    q.losses o p ≠ 0 ↔
      (∃ cause, o.result = .error (.fault cause)) ∧ q.aim? o.state.store = some p := by
  unfold losses
  split
  · next cause hr => simp [hr]
  · next hr =>
    refine iff_of_false (not_not.mpr rfl) ?_
    rintro ⟨⟨cause, hfault⟩, -⟩
    exact hr cause hfault

namespace Engine

variable {e : Engine}

def stringsIn (e : Engine) (p : PoolId) : List HandleId :=
  e.strings.filter fun h => (e.store.handles.get? h).bind Handle.pool = some p

def lost (e : Engine) : List (Turn Request) → PoolId → Nat
  | [], _ => 0
  | t :: ts, p =>
    t.action.losses (e.turn Request.ask t) p + lost (e.turn Request.ask t).state ts p

theorem orphans_after (he : e.Valid) (ts : List (Turn Request)) (p : PoolId) :
    (e.after Request.ask ts).store.orphans p = e.store.orphans p + e.lost ts p := by
  induction ts generalizing e with
  | nil => rfl
  | cons t ts ih =>
    obtain ⟨hvalid, -, -, horphans, -⟩ := turn_step he t
    rw [after, ih hvalid, horphans, lost, Nat.add_assoc]

theorem mem_stringsIn (he : e.Valid) (p : PoolId) (h : HandleId) :
    h ∈ e.stringsIn p ↔ ∃ a, e.store.handles.get? h = some a ∧
      a.pool = some p ∧ a.location ≠ .nowhere := by
  have hs := he.consistent.toPlaced
  rw [stringsIn, List.mem_filter, he.strings_iff, hs.contents_isSome, decide_eq_true_iff]
  constructor
  · rintro ⟨⟨a, q, w, ha, hl⟩, hp⟩
    rw [ha] at hp
    exact ⟨a, ha, hp, hl ▸ Address.noConfusion⟩
  · rintro ⟨a, ha, hp, hl⟩
    refine ⟨?_, by rw [ha]; exact hp⟩
    cases hloc : a.location with
    | nowhere => exact absurd hloc hl
    | scratch b w => exact absurd hloc ((hs.pooled ha hp).2 b w)
    | block q w => exact ⟨a, q, w, ha, hloc⟩

theorem references_after (ts : List (Turn Request)) (p : PoolId) :
    (start.after Request.ask ts).store.references p =
      (start.after Request.ask ts).store.registryReferences p +
        (start.after Request.ask ts).pools.count p +
        ((start.after Request.ask ts).stringsIn p).length + start.lost ts p := by
  have he := after_valid ts
  have hr := he.consistent.references_eq p
  have hh := Store.handleReferences_eq (start.after Request.ask ts).store p
  have ho := orphans_after start_valid ts p
  have hn : ((start.after Request.ask ts).stringsIn p).Nodup := he.nodup.filter _
  rw [Table.sum_eq_length hn (mem_stringsIn he p)] at hh
  rw [show start.store.orphans p = 0 from rfl] at ho
  omega

theorem aim_of_fault (he : e.Valid) {q : Request} (hq : e.allows q) (hc : q.creates)
    {f : Fault} (hf : (q.perform.run e).result = .error (.fault f)) :
    ∃ p, q.aim? (q.perform.run e).state.store = some p := by
  cases q with
  | createIn p size => exact ⟨p, rfl⟩
  | create r size =>
    obtain ⟨registry, hr⟩ := Option.isSome_iff_exists.mp hq
    have hrun := onStore_run e (Store.create r size)
    rw [Request.perform, receive] at hf ⊢
    rcases Store.create_creation he.consistent hr size with ⟨err, -, hresult, -⟩ | ⟨c, p, hsize, haim, -⟩
    · rw [hresult] at hrun
      rw [Op.run_bind_error hrun] at hf
      cases hf
    · cases hresult : ((Store.create r size).run e.store).result with
      | ok h =>
        rw [hresult] at hrun
        rw [Op.run_bind_ok hrun] at hf
        cases hf
      | error failure =>
        rw [hresult] at hrun
        rw [Op.run_bind_error hrun]
        refine ⟨p, ?_⟩
        simp only [Request.aim?, hsize]
        exact haim
  | _ => cases hc

theorem turn_aim_of_fault (he : e.Valid) (t : Turn Request) (hc : t.action.creates) {f : Fault}
    (hf : (e.turn Request.ask t).result = .error (.fault f)) :
    ∃ p, t.action.aim? (e.turn Request.ask t).state.store = some p := by
  cases hq : e.allows t.action with
  | true =>
    rw [turn_allowed hq] at hf ⊢
    exact aim_of_fault (he.prepared t) ((e.prepared_allows t t.action).trans hq) hc hf
  | false =>
    rw [turn_barred hq] at hf
    cases hf

theorem outsideReferences_of_failed (he : e.Valid) (t : Turn Request) {failure : Failure}
    (hf : (e.turn Request.ask t).result = .error failure) (p : PoolId) :
    (e.turn Request.ask t).state.store.outsideReferences p =
      e.store.outsideReferences p + t.action.losses (e.turn Request.ask t) p := by
  obtain ⟨hvalid, -, -, -, hfailed⟩ := turn_step he t
  obtain ⟨hpools, hrefs⟩ := hfailed failure hf
  rw [hvalid.consistent.outsideReferences_eq, he.consistent.outsideReferences_eq, hpools, hrefs]
  omega

end Engine

/-- A request for a new string that is refused by an error leaves the references to every pool as
they were, besides what the registry takes for itself; one that ends in a fault leaves one more to
the pool that the string was to be in. So a pool lives until no registry, no holder and no string is
left, and for ever if a creation in it has ended in a fault. -/
theorem pool_lifetime (ts : List (Turn Request)) :
    let e := Engine.start.after Request.ask ts
    (∀ t : Turn Request, t.action.creates →
      let o := e.turn Request.ask t
      (∀ cause, o.result = .error (.error cause) →
        ∀ p, o.state.store.outsideReferences p = e.store.outsideReferences p) ∧
      ∀ cause, o.result = .error (.fault cause) →
        ∃ p, t.action.aim? o.state.store = some p ∧
          ∀ q, o.state.store.outsideReferences q =
            e.store.outsideReferences q + if p = q then 1 else 0) ∧
    ∀ p,
      e.store.references p =
        e.store.registryReferences p + e.pools.count p + (e.stringsIn p).length +
          Engine.start.lost ts p ∧
      (e.store.pools.get? p = none ↔
        (∀ r registry, e.store.registries.get? r = some registry → p ∉ registry.poolIds) ∧
          p ∉ e.pools ∧ e.stringsIn p = [] ∧ Engine.start.lost ts p = 0) := by
  intro e
  have he : e.Valid := Engine.after_valid ts
  refine ⟨fun t hc => ⟨fun cause hf p => ?_, fun cause hf => ?_⟩, fun p => ⟨?_, ?_⟩⟩
  · rw [Engine.outsideReferences_of_failed he t hf, Request.losses, hf]
    rfl
  · obtain ⟨p, hp⟩ := Engine.turn_aim_of_fault he t hc hf
    refine ⟨p, hp, fun q => ?_⟩
    rw [Engine.outsideReferences_of_failed he t hf, Request.losses, hf]
    simp only [hp, Option.some.injEq]
  · exact Engine.references_after ts p
  · have hr : e.store.references p = e.store.registryReferences p + e.pools.count p +
        (e.stringsIn p).length + Engine.start.lost ts p := Engine.references_after ts p
    rw [he.consistent.get?_eq_none, hr, ← Store.registryReferences_eq_zero, ← List.count_eq_zero,
      ← List.length_eq_zero_iff]
    omega

def readingRun : List (Turn Request) :=
  [⟨.openRegistry 64 (by decide) .mayDropItems, 0, some⟩, ⟨.create ⟨0⟩ 8, 0, some⟩,
    ⟨.read ⟨0⟩, 0, some⟩]

theorem pool_lifetime_while_read :
    let e := Engine.start.after Request.ask readingRun
    let o := e.turn Request.ask ⟨.create ⟨0⟩ 8, 0, some⟩
    (∃ cause, o.result = .error (.fault cause)) ∧
      o.state.store.outsideReferences ⟨0⟩ = e.store.outsideReferences ⟨0⟩ + 1 := by
  have hlosses : (Request.create ⟨0⟩ 8).losses ((Engine.start.after Request.ask readingRun).turn
      Request.ask ⟨.create ⟨0⟩ 8, 0, some⟩) ⟨0⟩ ≠ 0 := by decide +kernel
  obtain ⟨⟨cause, hfault⟩, haim⟩ := Request.losses_ne_zero.mp hlosses
  obtain ⟨p, hp, hrefs⟩ :=
    ((pool_lifetime readingRun).1 ⟨.create ⟨0⟩ 8, 0, some⟩ rfl).2 cause hfault
  cases hp.symm.trans haim
  exact ⟨⟨cause, hfault⟩, (hrefs ⟨0⟩).trans (by rw [if_pos rfl])⟩

end OffRow
