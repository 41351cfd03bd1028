import OffRow.Proofs.Fills
import OffRow.Proofs.Routing
import OffRow.Proofs.ScopedAccess

namespace OffRow

inductive Deed where
  | create
  | destroy
  | shrink
  deriving DecidableEq

def Request.deed? : Request → Option Deed
  | .create .. | .createIn .. => some .create
  | .destroy _ => some .destroy
  | .shrinkToFit _ => some .shrink
  | _ => none

theorem Request.exists_size {q : Request} (hq : q.deed? = some .create) : ∃ size, q.size? = some size := by
  cases q with
  | create r size => exact ⟨size, rfl⟩
  | createIn p size => exact ⟨size, rfl⟩
  | _ => cases hq

theorem Request.exists_destroyed {q : Request} (hq : q.deed? = some .destroy) : ∃ h, q = .destroy h := by
  cases q with
  | destroy h => exact ⟨h, rfl⟩
  | _ => cases hq

theorem Request.exists_shrunk {q : Request} (hq : q.deed? = some .shrink) : ∃ p, q = .shrinkToFit p := by
  cases q with
  | shrinkToFit p => exact ⟨p, rfl⟩
  | _ => cases hq

theorem Command.move_string {q : Request} {p : PoolId} {e : Engine} {o : Outcome Engine Answer}
    {h : HandleId} (hq : q.deed? = some .create) (ho : o.result = .ok (.string h))
    (hp : o.state.poolOf h = some p) : (Command.ask q).move p e o = .take := by
  cases q with
  | create r size => simp only [Command.move, ho, hp, ↓reduceIte]
  | createIn p size => simp only [Command.move, ho, hp, ↓reduceIte]
  | _ => cases hq

theorem Command.stay_or_moves {p : PoolId} {e : Engine} (q : Request) (o : Outcome Engine Answer) :
    (Command.ask q).move p e o = .stay ∨
      (q.deed? = some .create ∧ ∃ h, o.result = .ok (.string h) ∧ o.state.poolOf h = some p) ∨
      (∃ h, q = .destroy h ∧ e.poolOf h = some p) ∨ q = .shrinkToFit p := by
  cases hr : o.result with
  | error failure => exact .inl (Command.move_error hr)
  | ok answer =>
    cases q with
    | create r size | createIn r size =>
      cases answer with
      | string h =>
        by_cases hp : o.state.poolOf h = some p
        · exact .inr (.inl ⟨rfl, h, rfl, hp⟩)
        · exact .inl (by simp only [Command.move, hr, hp, ↓reduceIte])
      | _ => exact .inl (by simp only [Command.move, hr])
    | destroy h =>
      by_cases hp : e.poolOf h = some p
      · exact .inr (.inr (.inl ⟨h, rfl, hp⟩))
      · cases answer with
        | done => exact .inl (by simp only [Command.move, hr, hp, ↓reduceIte])
        | _ => exact .inl (by simp only [Command.move, hr])
    | shrinkToFit q =>
      by_cases hp : q = p
      · exact .inr (.inr (.inr (congrArg Request.shrinkToFit hp)))
      · cases answer with
        | done => exact .inl (by simp only [Command.move, hr, hp, ↓reduceIte])
        | _ => exact .inl (by simp only [Command.move, hr])
    | _ => exact .inl (by simp only [Command.move])

structure Gauge where
  len : Nat
  capacity : Nat
  chunks : Nat
  deriving DecidableEq

def Pool.gauge (p : Pool) : Gauge := ⟨p.len, p.capacity, p.chunks.size⟩

namespace Fill

variable {k : SizeClass} {grants : Nat → Bool}

def gauge (f : Fill) : Gauge := ⟨f.len, f.capacity, f.chunks⟩

def chunkBytes (k : SizeClass) (f : Fill) : Nat := Pool.stride k * (f.first * 2 ^ f.chunks)

def CanTake (k : SizeClass) (grants : Nat → Bool) (f : Fill) : Prop :=
  f.len < f.capacity ∨ f.chunkBytes k + 8 ≤ 2 ^ 63 ∧ grants (f.chunkBytes k)

instance (f : Fill) : Decidable (f.CanTake k grants) := inferInstanceAs (Decidable (_ ∨ _))

def done (k : SizeClass) (grants : Nat → Bool) (f : Fill) : Deed → Except Failure Unit × Fill
  | .create =>
    if f.CanTake k grants then (.ok (), f.taken)
    else (.error (.error (.outOfMemory (min (f.chunkBytes k) Word.largest))), f)
  | .destroy => (.ok (), f.given)
  | .shrink => (.ok (), f.fitted)

def record (k : SizeClass) (grants : Nat → Bool) (f : Fill) :
    List Deed → List (Except Failure Unit × Option Gauge)
  | [] => []
  | d :: ds =>
    ((f.done k grants d).1, some (f.done k grants d).2.gauge) :: record k grants (f.done k grants d).2 ds

theorem record_isSome {f : Fill} {ds : List Deed} : ∀ x ∈ f.record k grants ds, x.2.isSome := by
  induction ds generalizing f with
  | nil => exact fun _ hx => nomatch hx
  | cons d ds ih => exact List.forall_mem_cons.mpr ⟨rfl, ih⟩

end Fill

theorem Pool.Shaped.gauge_fill {p : Pool} (h : p.Shaped) : p.gauge = p.fill.gauge := by
  rw [Fill.gauge, h.capacity_fill]
  rfl

theorem Pool.Shaped.canTake_iff {p : Pool} (h : p.Shaped) (grants : Nat → Bool) :
    p.fill.CanTake p.sizeClass grants ↔ p.CanAllocate grants := by
  rw [Fill.CanTake, h.capacity_fill]
  rfl

namespace Engine

def Fresh (e : Engine) (p : PoolId) (k : SizeClass) (firstBytes : Nat) : Prop :=
  ∃ policy thread references,
    e.store.pools.get? p = some ⟨.new k firstBytes policy thread, references, 0⟩

def deedTo (e : Engine) (p : PoolId) (q : Request) : Option Deed :=
  if e.allows q ∧ e.poolMeant q = some p then q.deed? else none

def deeds (p : PoolId) (e : Engine) : List (Turn Request) → List Deed
  | [] => []
  | t :: ts =>
    let rest := deeds p (e.turn Request.ask t).state ts
    match e.deedTo p t.action with
    | some d => d :: rest
    | none => rest

def record (p : PoolId) (e : Engine) : List (Turn Request) → List (Except Failure Unit × Option Gauge)
  | [] => []
  | t :: ts =>
    let o := e.turn Request.ask t
    let rest := record p o.state ts
    match e.deedTo p t.action with
    | some _ => (o.result.map fun _ => (), (o.state.store.pools.get? p).map fun c => c.pool.gauge) :: rest
    | none => rest

/-- A deed to pool `p`, whose blocks are of class `k`, outside of closures that read or write one of its
strings, on the thread of the pool, while chunks are granted as `grants` says. The pool is still there
afterwards. -/
structure Proper (e : Engine) (p : PoolId) (k : SizeClass) (grants : Nat → Bool) (t : Turn Request) :
    Prop where
  unused : ¬e.InUse p
  fits : ∀ size ∈ t.action.size?, size ≤ k.blockSize
  own : ∀ c ∈ e.store.pools.get? p, t.thread = c.pool.ownerThread
  granted : ∀ n, (t.answers n).isSome = grants n
  stays : ((e.turn Request.ask t).state.store.pools.get? p).isSome

/-- All deeds to pool `p` in the run are proper; whatever else is asked in between. -/
def Orderly (p : PoolId) (k : SizeClass) (grants : Nat → Bool) (e : Engine) : List (Turn Request) → Prop
  | [] => True
  | t :: ts =>
    ((e.deedTo p t.action).isSome → e.Proper p k grants t) ∧
      Orderly p k grants (e.turn Request.ask t).state ts

variable {e f : Engine} {p q : PoolId} {c : SharedPool} {k : SizeClass} {grants : Nat → Bool} {d : Deed}
  {t : Turn Request} {h : HandleId}

theorem deedTo_eq_some {q : Request} :
    e.deedTo p q = some d ↔ (e.allows q ∧ e.poolMeant q = some p) ∧ q.deed? = some d := by
  unfold deedTo
  split
  · next hq => simp [hq]
  · next hq => simp [hq]

theorem exists_deedTo {q : Request} (hq : e.allows q = true) (hp : e.poolMeant q = some p) :
    ∃ d, e.deedTo p q = some d := by
  rw [deedTo, if_pos ⟨hq, hp⟩]
  cases q with
  | create r size => exact ⟨_, rfl⟩
  | createIn p size => exact ⟨_, rfl⟩
  | destroy h => exact ⟨_, rfl⟩
  | shrinkToFit p => exact ⟨_, rfl⟩
  | _ => cases hp

theorem Guarded.turn_present (he : e.Guarded) (hk : p.number < e.store.pools.next.number)
    (hc : (e.turn Request.ask t).state.store.pools.get? p = some c) :
    ∃ b, e.store.pools.get? p = some b := by
  cases ht : t.action.isAccess with
  | true =>
    obtain ⟨readers, hb⟩ := (turn_request_accessed ht).pools hc
    exact ⟨_, hb⟩
  | false =>
    rcases (turn_request_evolves he ht).store.pools hc with ⟨b, hb, -⟩ | ⟨hle, -⟩
    · exact ⟨b, hb⟩
    · exact absurd hk (Nat.not_lt_of_le hle)

theorem receive_string {x : Op Store HandleId} (hr : ((receive x).run e).result = .ok (.string h)) :
    (x.run e.store).result = .ok h := by
  rw [receive_result] at hr
  cases hx : (x.run e.store).result with
  | error failure =>
    rw [hx] at hr
    cases hr
  | ok h' =>
    rw [hx] at hr
    cases hr
    rfl

theorem Guarded.meant_of_created (he : e.Guarded) (hk : p.number < e.store.pools.next.number)
    (hq : e.allows t.action = true) (hd : t.action.deed? = some .create)
    (hr : (e.turn Request.ask t).result = .ok (.string h))
    (hp : (e.turn Request.ask t).state.poolOf h = some p) : e.poolMeant t.action = some p := by
  have hs := (he.prepared t).consistent
  have hroute := fun r c => he.turn_poolFor (r := r) (c := c) (p := p) t
  rw [turn_allowed hq] at hr hp hroute
  cases ha : t.action with
  | create r size =>
    rw [ha] at hr hp hroute hq
    obtain ⟨registry, hregistry⟩ := Option.isSome_iff_exists.mp hq
    obtain ⟨-, c, q, a, hsize, hpool, hh, -, hq⟩ := hs.create_string hregistry (receive_string hr)
    rw [Request.perform, poolOf, receive_store, hh, Option.bind_some, hq] at hp
    cases hp
    rw [Request.perform, receive_store] at hroute
    rcases (hroute r c).mp hpool with ⟨hbefore, -⟩ | ⟨-, -, -, rfl⟩
    · simp only [poolMeant, Request.aim?, hsize]
      exact hbefore
    · exact absurd hk (Nat.lt_irrefl _)
  | createIn q size =>
    rw [ha] at hr hp hq
    obtain ⟨cell, hcell⟩ := hs.exists_of_held (of_decide_eq_true hq)
    obtain ⟨-, a, hh, -, hq⟩ := hs.createIn_string hcell (receive_string hr)
    rw [Request.perform, poolOf, receive_store, hh, Option.bind_some, hq] at hp
    exact hp
  | _ =>
    rw [ha] at hd
    cases hd

theorem Guarded.move_aside (he : e.Guarded) (hk : p.number < e.store.pools.next.number)
    (hd : e.deedTo p t.action = none) : e.move p t.asked = .stay := by
  have hnot : e.allows t.action = true → e.poolMeant t.action ≠ some p := by
    intro hq hp
    obtain ⟨d, hd'⟩ := exists_deedTo hq hp
    rw [hd] at hd'
    cases hd'
  change (Command.ask t.action).move p e (e.turn Request.ask t) = .stay
  cases hq : e.allows t.action with
  | false =>
    rw [turn_barred hq]
    cases t.action <;> rfl
  | true =>
    rcases Command.stay_or_moves t.action (e.turn Request.ask t) with hstay | ⟨hc, h, hr, hp⟩ | ⟨h, ha, hp⟩ | ha
    · exact hstay
    · exact absurd (he.meant_of_created hk hq hc hr hp) (hnot hq)
    · refine absurd ?_ (hnot hq)
      rw [ha]
      exact hp
    · refine absurd ?_ (hnot hq)
      rw [ha]
      rfl

theorem Guarded.turn_created (he : e.Guarded) (hc : e.store.pools.get? p = some c)
    (hd : e.deedTo p t.action = some .create) (hp : e.Proper p c.pool.sizeClass grants t) :
    let o := e.turn Request.ask t
    (c.pool.CanAllocate grants ∧ ∃ h, o.result = .ok (.string h) ∧ o.state.poolOf h = some p) ∨
      ¬c.pool.CanAllocate grants ∧ o.result =
        .error (.error (.outOfMemory (min (c.pool.chunkBytes c.pool.chunks.size) Word.largest))) := by
  obtain ⟨⟨hallowed, hmeant⟩, hdeed⟩ := deedTo_eq_some.mp hd
  obtain ⟨size, hsize⟩ := Request.exists_size hdeed
  have hs := (he.prepared t).consistent
  have hget : (e.prepared t).store.pools.get? p = some c := hc
  have hreaders : c.readers = 0 := by
    have hunused := hp.unused
    rwa [he.inUse_iff_readers hc, not_not] at hunused
  have hfits : size ≤ c.pool.blockSize := hp.fits size hsize
  have hthread : (e.prepared t).store.thread = c.pool.ownerThread := hp.own c hc
  have hgrants : (e.prepared t).store.grants = grants := funext hp.granted
  have hrun := Store.createIn_run hget (hs.wellFormed p c hget) (hs.positive hget) size
  simp only at hrun
  rw [if_neg (not_not.mpr hreaders), if_neg (Nat.not_lt_of_le hfits), if_neg (not_not.mpr hthread),
    hgrants] at hrun
  intro o
  have ho : o = (receive (Store.createIn p size)).run (e.prepared t) :=
    turn_creation hsize hallowed hmeant
  by_cases hg : c.pool.CanAllocate grants
  · rw [if_pos hg] at hrun
    have hok := congrArg Outcome.result hrun
    obtain ⟨-, a, ha, -, hpool⟩ := hs.createIn_string hget hok
    refine .inl ⟨hg, (e.prepared t).store.handles.next, ?_, ?_⟩
    · rw [ho, receive_result, hok]
      rfl
    · rw [ho, poolOf, receive_store, ha]
      exact hpool
  · rw [if_neg hg] at hrun
    refine .inr ⟨hg, ?_⟩
    rw [ho, receive_result, congrArg Outcome.result hrun]
    rfl

theorem Guarded.turn_done (he : e.Guarded) (hc : e.store.pools.get? p = some c)
    (hd : e.deedTo p t.action = some d) (hp : e.Proper p c.pool.sizeClass grants t) :
    ((e.turn Request.ask t).result.map (fun _ => ()), c.pool.fill.moved (e.move p t.asked)) =
      c.pool.fill.done c.pool.sizeClass grants d := by
  have hshaped := (he.consistent.wellFormed p c hc).toShaped
  obtain ⟨⟨hallowed, hmeant⟩, hdeed⟩ := deedTo_eq_some.mp hd
  cases d with
  | create =>
    rcases he.turn_created hc hd hp with ⟨hg, h, hresult, hpool⟩ | ⟨hg, hresult⟩
    · have hmove : e.move p t.asked = .take := Command.move_string hdeed hresult hpool
      rw [Fill.done, if_pos ((hshaped.canTake_iff grants).mpr hg), hmove, hresult]
      rfl
    · have hmove : e.move p t.asked = .stay := Command.move_error hresult
      rw [Fill.done, if_neg (mt (hshaped.canTake_iff grants).mp hg), hmove, hresult]
      rfl
  | destroy =>
    obtain ⟨h, ha⟩ := Request.exists_destroyed hdeed
    rw [ha] at hmeant
    have hresult := he.turn_destroy ha hallowed hmeant hc hp.unused (hp.own c hc)
    have hmove : e.move p t.asked = .give := by
      change (Command.ask t.action).move p e (e.turn Request.ask t) = .give
      rw [ha]
      simp only [Command.move, hresult]
      exact if_pos hmeant
    rw [hmove, hresult]
    rfl
  | shrink =>
    obtain ⟨q, ha⟩ := Request.exists_shrunk hdeed
    rw [ha] at hmeant
    cases hmeant
    have hresult : (e.turn Request.ask t).result = .ok .done := by
      rw [turn_allowed hallowed, ha]
      rw [ha] at hallowed
      rcases (he.prepared t).shrinkToFit_result (of_decide_eq_true hallowed) with ⟨-, hu⟩ | ⟨hok, -⟩
      · exact absurd hu hp.unused
      · exact hok
    have hmove : e.move p t.asked = .fit := by
      change (Command.ask t.action).move p e (e.turn Request.ask t) = .fit
      rw [ha]
      simp only [Command.move, hresult, ↓reduceIte]
    rw [hmove, hresult]
    rfl

structure Follows (e : Engine) (p : PoolId) (k : SizeClass) (fill : Fill) : Prop extends Guarded e where
  filled : e.store.Filled p fill
  classed : ∀ c, e.store.pools.get? p = some c → c.pool.sizeClass = k

namespace Follows

variable {fill : Fill} {ts : List (Turn Request)}

theorem turn (he : e.Follows p k fill) (t : Turn Request) :
    (e.turn Request.ask t).state.Follows p k (fill.moved (e.move p t.asked)) where
  toGuarded := he.toGuarded.turn t
  filled := by
    have hsound : e.store.Sound := fun p c hp => ⟨he.consistent.wellFormed p c hp, he.consistent.positive hp⟩
    exact turn_filled hsound he.filled t.asked
  classed c hc := by
    obtain ⟨b, hb⟩ := he.turn_present he.filled.known hc
    exact (he.turn_pool t hb hc).trans (he.classed b hb)

theorem turn_done (he : e.Follows p k fill) (hd : e.deedTo p t.action = some d)
    (hp : e.Proper p k grants t) :
    (e.turn Request.ask t).result.map (fun _ => ()) = (fill.done k grants d).1 ∧
      (e.turn Request.ask t).state.Follows p k (fill.done k grants d).2 := by
  obtain ⟨c', hc'⟩ := Option.isSome_iff_exists.mp hp.stays
  obtain ⟨c, hc⟩ := he.turn_present he.filled.known hc'
  have hdone := he.toGuarded.turn_done hc hd (he.classed c hc ▸ hp)
  rw [he.classed c hc, he.filled.holds hc] at hdone
  obtain ⟨hresult, hfill⟩ := Prod.ext_iff.mp hdone
  refine ⟨hresult, ?_⟩
  rw [← hfill]
  exact he.turn t

theorem record_eq (he : e.Follows p k fill) (hp : Orderly p k grants e ts) :
    e.record p ts = fill.record k grants (e.deeds p ts) := by
  induction ts generalizing e fill with
  | nil => rfl
  | cons t ts ih =>
    obtain ⟨hproper, hrest⟩ := hp
    rw [Engine.record, Engine.deeds]
    -- Only deeds are recorded; whatever else is asked in between leaves the fill as it is.
    cases hd : e.deedTo p t.action with
    | none =>
      have hturn := he.turn t
      rw [he.move_aside he.filled.known hd] at hturn
      exact ih hturn hrest
    | some d =>
      have hproper := hproper (hd ▸ rfl)
      obtain ⟨hresult, hturn⟩ := he.turn_done hd hproper
      obtain ⟨c, hc⟩ := Option.isSome_iff_exists.mp hproper.stays
      have hshaped := (hturn.consistent.wellFormed p c hc).toShaped
      simp only
      rw [Fill.record, hresult, hc, Option.map_some, hshaped.gauge_fill, hturn.filled.holds hc,
        ih hturn hrest]

end Follows

theorem Fresh.follows {n : Nat} (he : e.Guarded) (hp : e.Fresh p k n) :
    e.Follows p k ⟨max 1 (n / Pool.stride k), 0, 0⟩ := by
  obtain ⟨policy, thread, references, hc⟩ := hp
  refine ⟨he, Store.filled_of_get? hc, fun c hc' => ?_⟩
  cases hc.symm.trans hc'
  rfl

end Engine

end OffRow
