import OffRow.Proofs.Tracing

namespace OffRow

open Trace Store

namespace Pool

variable {p q : Pool} {log told : List Event}

structure Accounted (p : Pool) (log : List Event) : Prop where
  capacity_eq : p.capacity + (released p.blockSize log).sum = (reserved p.blockSize log).sum
  chunks_eq : p.chunks.size + (released p.blockSize log).length = (reserved p.blockSize log).length

theorem Accounted.tells (h : p.Accounted log) (ht : p.Tells told q) : q.Accounted (log ++ told) := by
  have hcapacity := h.capacity_eq
  have hchunks := h.chunks_eq
  have htold := ht.capacity_eq
  have hreserved := ht.reserved_length
  have hreleased := ht.released_length
  constructor
  · rw [ht.blockSize_eq, reserved_append, released_append, List.sum_append, List.sum_append]
    omega
  · rw [ht.blockSize_eq, reserved_append, released_append, List.length_append, List.length_append]
    omega

theorem accounted_new {c : SizeClass} {firstBytes : Nat} {policy : DropPolicy} {thread : ThreadId}
    (h : ∀ event ∈ log, event.traffic? ≠ some c.blockSize) :
    (new c firstBytes policy thread).Accounted log := by
  obtain ⟨hreserved, hreleased, -⟩ := Trace.untold h
  constructor
  · change 0 + (released c.blockSize log).sum = (reserved c.blockSize log).sum
    rw [hreserved, hreleased, Nat.zero_add]
  · change 0 + (released c.blockSize log).length = (reserved c.blockSize log).length
    rw [hreserved, hreleased, Nat.zero_add]

end Pool

namespace Engine

section

variable {κ : Type} (perform : κ → Op Engine Answer)

def trace (e : Engine) : List (Turn κ) → List Event
  | [] => []
  | t :: ts => (e.turn perform t).events ++ trace (e.turn perform t).state ts

theorem split_of_mem_reports {perform : κ → Op Engine Answer} {e : Engine} {ts : List (Turn κ)}
    {report : κ × Except Failure Answer} (h : report ∈ e.reports perform ts) :
    ∃ us t vs, ts = us ++ t :: vs ∧
      report = (t.action, ((e.after perform us).turn perform t).result) := by
  induction ts generalizing e with
  | nil => cases h
  | cons t ts ih =>
    rw [reports, List.mem_cons] at h
    rcases h with rfl | h
    · exact ⟨[], t, ts, rfl, rfl⟩
    · obtain ⟨us, v, vs, rfl, hreport⟩ := ih h
      exact ⟨t :: us, v, vs, rfl, hreport⟩

end

variable {e : Engine} {log : List Event} {before : Table .pool SharedPool} {q : Request} {p : PoolId}
  {cell : SharedPool} {h : HandleId} {i : Nat} {t : Turn Request} {ts : List (Turn Request)}

structure Told (log : List Event) (e : Engine) : Prop extends Sole e where
  accounted : ∀ {p cell}, e.store.pools.get? p = some cell → cell.pool.Accounted log
  running : ∀ b, Running b 0 log
  unopened : e.MayOpen → ∀ b, (∀ p cell, e.store.pools.get? p = some cell → cell.pool.blockSize ≠ b) →
    ∀ event ∈ log, event.traffic? ≠ some b

theorem Told.untold (he : e.Told log) {r : RegistryId} {c : SizeClass}
    (hr : (e.store.registries.get? r).isSome) (hn : e.store.poolFor r c = none) :
    ∀ event ∈ log, event.traffic? ≠ some c.blockSize := by
  refine he.unopened (.inr ⟨r, hr⟩) _ fun p cell hp hblock => ?_
  have hserved := he.served hr hp
  rw [SizeClass.blockSize_inj.mp hblock, hn] at hserved
  cases hserved

theorem Told.accounted_faces (he : e.Told log) (hb : e.Faces q before) (hp : before.get? p = some cell) :
    cell.pool.Accounted log := by
  rcases hb.cases hp with hold | ⟨-, r, c, n, policy, thread, -, hr, hn, hnew⟩
  · exact he.accounted hold
  · rw [hnew]
    exact Pool.accounted_new (he.untold hr hn)

theorem Told.turn (he : e.Told log) (hpublic : t.action.isPublic = true)
    (hfirst : t.action.opensRegistry = true → e.store.registries.next.number = 0) :
    (e.turn Request.ask t).state.Told (log ++ (e.turn Request.ask t).events) := by
  obtain ⟨before, hb, htraced⟩ := he.turn_traced hpublic
  have hafter := he.toSole.turn hpublic hfirst
  refine ⟨hafter, fun {p d} hd => ?_, fun b => ?_, fun hopen b hnone event hm htraffic => ?_⟩
  · obtain ⟨c, hc⟩ := htraced.known hd
    exact (he.accounted_faces hb hc).tells (htraced.tells hc hd)
  -- The capacities told are right up to this turn, and what it tells itself goes on from there.
  · by_cases hpool : ∃ p c, before.get? p = some c ∧ c.pool.blockSize = b
    · obtain ⟨p, c, hc, rfl⟩ := hpool
      obtain ⟨pool, htells⟩ := htraced.told hc
      refine (he.running _).append ?_ htells.running
      rw [(he.accounted_faces hb hc).capacity_eq, Nat.zero_add]
    · refine (he.running b).append_untold fun event hm htraffic => ?_
      exact hpool (htraced.traffic event hm b htraffic).2
  · have hfaces : ∀ p c, before.get? p = some c → c.pool.blockSize ≠ b := by
      intro p c hc hblock
      obtain ⟨d, hd⟩ := he.turn_stays hpublic hfirst hopen hb hc
      exact hnone p d hd ((htraced.tells hc hd).blockSize_eq.trans hblock)
    rcases List.mem_append.mp hm with hm | hm
    · have hmay := he.mayOpen_of_turn hfirst hopen
      exact he.unopened hmay b (fun p c hc => hfaces p c (hb.of_get? hc)) event hm htraffic
    · obtain ⟨-, p, c, hc, hblock⟩ := htraced.traffic event hm b htraffic
      exact hfaces p c hc hblock

/-- All turns of a run are open to all, and no second registry is opened. -/
structure Single (e : Engine) (ts : List (Turn Request)) : Prop where
  isPublic : ∀ t ∈ ts, t.action.isPublic = true
  opens : e.store.registries.next.number + ts.countP (·.action.opensRegistry) ≤ 1

theorem Single.head (hs : e.Single (t :: ts)) : t.action.isPublic = true ∧
    (t.action.opensRegistry = true → e.store.registries.next.number = 0) := by
  refine ⟨hs.isPublic t List.mem_cons_self, fun hopens => ?_⟩
  have hone := hs.opens
  rw [List.countP_cons, if_pos hopens] at hone
  omega

theorem Single.tail (he : e.Sole) (hs : e.Single (t :: ts)) :
    (e.turn Request.ask t).state.Single ts := by
  refine ⟨fun u hu => hs.isPublic u (List.mem_cons_of_mem _ hu), ?_⟩
  have hone := hs.opens
  rw [List.countP_cons] at hone
  rw [he.turn_next t]
  omega

theorem Single.append {us vs : List (Turn Request)} (he : e.Sole) (hs : e.Single (us ++ vs)) :
    e.Single us ∧ (e.after Request.ask us).Single vs := by
  induction us generalizing e with
  | nil => exact ⟨⟨nofun, (Nat.le_add_right _ _).trans hs.opens⟩, hs⟩
  | cons t us ih =>
    obtain ⟨hpublic, hfirst⟩ := Single.head hs
    obtain ⟨-, hvs⟩ := ih (he.turn hpublic hfirst) (Single.tail he hs)
    refine ⟨⟨fun u hu => hs.isPublic u (List.mem_append_left _ hu), ?_⟩, hvs⟩
    have hone := hs.opens
    rw [List.countP_append] at hone
    omega

theorem Told.after (he : e.Told log) (hs : e.Single ts) :
    (e.after Request.ask ts).Told (log ++ e.trace Request.ask ts) := by
  induction ts generalizing e log with
  | nil => rwa [trace, List.append_nil]
  | cons t ts ih =>
    obtain ⟨hpublic, hfirst⟩ := hs.head
    rw [trace, ← List.append_assoc]
    exact ih (he.turn hpublic hfirst) (hs.tail he.toSole)

theorem start_told : start.Told [] where
  toSole := start_sole
  accounted hp := nomatch hp
  running _ := running_nil
  unopened _ _ _ _ hm := nomatch hm

theorem Sole.strings_of_after (he : e.Sole) (hs : e.Single ts)
    (hh : h.number < e.store.handles.next.number)
    (hleft : h ∈ (e.after Request.ask ts).strings) : h ∈ e.strings := by
  induction ts generalizing e with
  | nil => exact hleft
  | cons t ts ih =>
    obtain ⟨hpublic, hfirst⟩ := hs.head
    have hturn := ih (he.turn hpublic hfirst) (hs.tail he)
      (Nat.lt_of_lt_of_le hh (he.toGuarded.turn_handles_le t)) hleft
    rcases (he.toValid.turn_strings hpublic).mp hturn with ⟨b, hb, rfl⟩ | ⟨hold, -⟩
    · rw [(he.turn_birth hb).1] at hh
      exact absurd hh (Nat.lt_irrefl _)
    · exact hold

def Sits (e : Engine) (h : HandleId) (p : PoolId) (cell : SharedPool) (i : Nat) : Prop :=
  e.store.pools.get? p = some cell ∧ cell.pool.Owns i h

theorem Valid.sits_iff (he : e.Valid) : h ∈ e.strings ↔ ∃ p cell i, e.Sits h p cell i := by
  rw [he.strings_iff]
  constructor
  · intro hsome
    obtain ⟨p, cell, i, -, hp, hi⟩ := he.exists_pool hsome
    exact ⟨p, cell, i, hp, hi⟩
  · rintro ⟨p, cell, i, hp, hi⟩
    rw [← he.strings_iff]
    have hmem := (he.owns_iff hp h).mpr ⟨i, hi⟩
    exact List.mem_of_mem_filter hmem

theorem Sole.turn_sits (he : e.Sole) (hpublic : t.action.isPublic = true) (hi : e.Sits h p cell i)
    {q : PoolId} {cell' : SharedPool} {j : Nat} (hj : (e.turn Request.ask t).state.Sits h q cell' j) :
    q = p ∧ cell'.pool.sizeClass = cell.pool.sizeClass ∧
      follow cell.pool.blockSize (e.turn Request.ask t).events i = j := by
  have hafter := (turn_step he.toValid t).1
  have hpool : ∀ {f : Engine} {x d k}, f.Valid → f.Sits h x d k → f.poolOf h = some x := by
    intro f x d k hf hk
    obtain ⟨a, ha, hx, -⟩ := hf.consistent.toPlaced.settled hk.1 hk.2
    rw [poolOf, ha]
    exact hx
  have hstring := he.toValid.sits_iff.mpr ⟨p, cell, i, hi⟩
  have hstring' := hafter.sits_iff.mpr ⟨q, cell', j, hj⟩
  have hsame := he.turn_poolOf_stored t ((he.strings_iff h).mp hstring)
    ((hafter.strings_iff h).mp hstring')
  rw [hpool he.toValid hi, hpool hafter hj, Option.some.injEq] at hsame
  subst hsame
  obtain ⟨before, hb, htraced⟩ := he.turn_traced hpublic
  have htells := htraced.tells (hb.of_get? hi.1) hj.1
  exact ⟨rfl, htells.sizeClass_eq, htells.follow_eq (hafter.distinct hj.1) hi.2 hj.2⟩

theorem Sole.after_sits (he : e.Sole) (hs : e.Single ts) (hi : e.Sits h p cell i)
    (hleft : h ∈ (e.after Request.ask ts).strings) :
    ∃ d, (e.after Request.ask ts).Sits h p d (follow cell.pool.blockSize (e.trace Request.ask ts) i) ∧
      d.pool.blockSize = cell.pool.blockSize := by
  induction ts generalizing e cell i with
  | nil => exact ⟨cell, hi, rfl⟩
  | cons t ts ih =>
    obtain ⟨hpublic, hfirst⟩ := hs.head
    have hturn := he.turn hpublic hfirst
    have hknown : h.number < (e.turn Request.ask t).state.store.handles.next.number := by
      obtain ⟨a, ha, -⟩ := he.consistent.toPlaced.settled hi.1 hi.2
      exact Nat.lt_of_lt_of_le (Table.lt_next ha) (he.toGuarded.turn_handles_le t)
    -- A string that is left at the end is there after this turn, so its slot can be followed.
    obtain ⟨q, cell', j, hj⟩ :=
      hturn.sits_iff.mp (hturn.strings_of_after (hs.tail he) hknown hleft)
    obtain ⟨rfl, hclass, rfl⟩ := he.turn_sits hpublic hi hj
    have hblock : cell'.pool.blockSize = cell.pool.blockSize := congrArg SizeClass.blockSize hclass
    obtain ⟨d, hd, hdblock⟩ := ih hturn (hs.tail he) hj hleft
    rw [hblock] at hd hdblock
    refine ⟨d, ?_, hdblock⟩
    rw [trace, follow_append]
    exact hd

theorem Sole.turn_born (he : e.Sole) (hpublic : t.action.isPublic = true)
    {b : Birth} (hb : Report.birth? (t.action, (e.turn Request.ask t).result) = some b) :
    ∃ p cell i, (e.turn Request.ask t).state.Sits b.handle p cell i ∧
      allocated cell.pool.blockSize (e.turn Request.ask t).events = [i] := by
  have hafter := (turn_step he.toValid t).1
  have hnext := (he.turn_birth hb).1
  obtain ⟨p, d, i, hi⟩ := hafter.sits_iff.mp ((he.toValid.turn_strings hpublic).mpr (.inl ⟨b, hb, rfl⟩))
  obtain ⟨before, hfaces, htraced⟩ := he.turn_traced hpublic
  obtain ⟨c, hc⟩ := htraced.known hi.1
  have htells := htraced.tells hc hi.1
  have hnew : ∀ j, ¬c.pool.Owns j b.handle := by
    intro j hj
    rcases hfaces.cases hc with hold | ⟨-, r, k, n, policy, thread, -, -, -, hempty⟩
    · rw [hnext] at hj
      exact he.consistent.toPlaced.nobody_next hold j hj
    · rw [hempty] at hj
      exact absurd hj.1 (Nat.not_lt_zero _)
  have hmem := (htells.mem_allocated i).mpr ⟨_, hi.2, hnew⟩
  have hone := htells.allocated_length
  refine ⟨p, d, i, hi, ?_⟩
  rw [htells.blockSize_eq]
  -- The slot is among those told, and one turn tells of one new block at most.
  match ha : allocated c.pool.blockSize (e.turn Request.ask t).events with
  | [] =>
    rw [ha] at hmem
    cases hmem
  | [j] =>
    rw [ha] at hmem
    rw [List.mem_singleton.mp hmem]
  | _ :: _ :: _ =>
    rw [ha] at hone
    simp at hone

end Engine

open Engine in
/-- As long as no second registry is opened, the trace is an account of the pools. At every point what it
tells of the chunks of a class comes to the capacity and the number of chunks of the pool of that class,
to nothing if there is no pool yet, and each event gives the capacity up to itself. The slot of a string
is the one told with its creation, carried along by the relocations since. Each chunk that a pool gets
or gives up and each block that moves is told once, also in the turn with which the pool ends, and what
is not done tells of none. The chunks that are freed together with their pool are not told. -/
theorem trace_faithful (ts : List (Turn Request)) (hpublic : ∀ t ∈ ts, t.action.isPublic = true)
    (hone : ts.countP (·.action.opensRegistry) ≤ 1) :
    let e := start.after Request.ask ts
    let log := start.trace Request.ask ts
    (∀ p cell, e.store.pools.get? p = some cell →
      let b := cell.pool.blockSize
      cell.pool.capacity + (released b log).sum = (reserved b log).sum ∧
        cell.pool.chunks.size + (released b log).length = (reserved b log).length ∧
        ∀ q cell', e.store.pools.get? q = some cell' → cell'.pool.sizeClass = cell.pool.sizeClass → q = p) ∧
      (∀ r c, (e.store.registries.get? r).isSome → e.store.poolFor r c = none →
        ∀ event ∈ log, event.traffic? ≠ some c.blockSize) ∧
      (∀ c : SizeClass, Running c.blockSize 0 log) ∧
      (∀ h ∈ e.strings, ∃ us t vs r size, ts = us ++ t :: vs ∧ t.action = .create r size ∧
        ((start.after Request.ask us).turn Request.ask t).result = .ok (.string h)) ∧
      ∀ us t vs, ts = us ++ t :: vs →
        let f := start.after Request.ask us
        let o := f.turn Request.ask t
        (∀ r size h, t.action = .create r size → o.result = .ok (.string h) → h ∈ e.strings →
          ∃ p cell i, e.store.pools.get? p = some cell ∧ allocated cell.pool.blockSize o.events = [i] ∧
            let j := follow cell.pool.blockSize (o.state.trace Request.ask vs) i
            cell.pool.Owns j h ∧ (e.store.handles.get? h).map Handle.location =
              some (.block p (Pool.placeOf cell.pool.firstSlots j))) ∧
          (∀ p c d, f.store.pools.get? p = some c → o.state.store.pools.get? p = some d →
            c.pool.Tells o.events d.pool) ∧
          (∀ p c, f.store.pools.get? p = some c → o.state.store.pools.get? p = none →
            ∃ pool, c.pool.Tells o.events pool) ∧
          (∀ p d, f.store.pools.get? p = none → o.state.store.pools.get? p = some d →
            ∃ c n policy thread, Pool.Tells (.new c n policy thread) o.events d.pool) ∧
          (¬o.Done → ∀ event ∈ o.events, event.traffic? = none) := by
  intro e log
  have hs : start.Single ts := ⟨hpublic, (Nat.zero_add _).trans_le hone⟩
  have he : e.Told log := start_told.after hs
  refine ⟨fun p cell hp => ?_, fun r c hr hn => ?_, fun c => he.running _, fun h hh => ?_,
    fun us t vs hts => ?_⟩
  · obtain ⟨hcapacity, hchunks⟩ := he.accounted hp
    exact ⟨hcapacity, hchunks, fun q cell' hq hclass => he.apart hq hp hclass⟩
  · exact he.untold hr hn
  · obtain ⟨⟨b, hb, rfl⟩, -⟩ := ((balanced_after hpublic).living h).mp hh
    obtain ⟨report, hreport, hbirth⟩ := List.mem_filterMap.mp hb
    obtain ⟨us, t, vs, hts, rfl⟩ := split_of_mem_reports hreport
    obtain ⟨haction, hresult⟩ := Prod.mk.inj (Report.birth?_eq_some.mp hbirth)
    exact ⟨us, t, vs, b.registry, b.size, hts, haction, hresult⟩
  · subst hts
    obtain ⟨hus, htvs⟩ := hs.append start_sole
    intro f o
    have hf : f.Sole := (start_told.after hus).toSole
    obtain ⟨hturn, hfirst⟩ := htvs.head
    obtain ⟨before, hfaces, htraced⟩ := hf.turn_traced hturn
    have hafter : e = o.state.after Request.ask vs := after_append Request.ask start us (t :: vs)
    refine ⟨fun r size h ha hr hh => ?_, fun p c d hc hd => htraced.tells (hfaces.of_get? hc) hd,
      fun p c hc _ => htraced.told (hfaces.of_get? hc), fun p d hn hd => ?_, fun hfailed event hm => ?_⟩
    · have hbirth : Report.birth? (t.action, o.result) = some ⟨r, size, h⟩ :=
        Report.birth?_eq_some.mpr (Prod.ext ha hr)
      obtain ⟨p, cell, i, hi, hallocated⟩ := hf.turn_born hturn hbirth
      rw [hafter] at hh ⊢
      obtain ⟨d, hd, hblock⟩ := (hf.turn hturn hfirst).after_sits (htvs.tail hf) hi hh
      rw [← hblock] at hallocated hd
      exact ⟨p, d, i, hd.1, hallocated, hd.2,
        (hafter ▸ he.consistent.toPlaced).location_iff hd.1 h _ |>.mpr ⟨_, hd.2, rfl⟩⟩
    · obtain ⟨c, hc⟩ := htraced.known hd
      rcases hfaces.cases hc with hold | ⟨-, r, k, n, policy, thread, -, -, -, hnew⟩
      · rw [hn] at hold
        cases hold
      · exact ⟨k, n, policy, thread, hnew ▸ htraced.tells hc hd⟩
    · by_contra htraffic
      obtain ⟨b, hb⟩ := Option.ne_none_iff_exists'.mp htraffic
      exact hfailed (htraced.traffic event hm b hb).1

def fourStrings : List (Turn Request) :=
  ⟨.openRegistry 24 (by decide) .mayDropItems, 0, some⟩ :: List.replicate 3 ⟨.create ⟨0⟩ 8, 0, some⟩

def threeLost : List (Turn Request) :=
  [⟨.destroy ⟨0⟩, 0, some⟩, ⟨.destroy ⟨1⟩, 0, some⟩, ⟨.destroy ⟨2⟩, 0, some⟩]

def shrinkingRun : List (Turn Request) := fourStrings ++ ⟨.create ⟨0⟩ 8, 0, some⟩ :: threeLost

open Engine in
theorem trace_faithful_shrinking :
    ∃ cell, (start.after Request.ask shrinkingRun).store.pools.get? ⟨0⟩ = some cell ∧
      cell.pool.capacity + 4 = 7 ∧ cell.pool.Owns 0 ⟨3⟩ := by
  have hpublic : ∀ t ∈ shrinkingRun, t.action.isPublic = true := by decide
  have hreleased : released 8 (start.trace Request.ask shrinkingRun) = [4] := by decide +kernel
  have hreserved : reserved 8 (start.trace Request.ask shrinkingRun) = [1, 2, 4] := by decide +kernel
  obtain ⟨hpools, -, -, -, hturns⟩ := trace_faithful shrinkingRun hpublic (by decide)
  obtain ⟨hborn, -⟩ := hturns fourStrings ⟨.create ⟨0⟩ 8, 0, some⟩ threeLost rfl
  obtain ⟨p, cell, i, hp, hallocated, howns, hlocation⟩ :=
    hborn ⟨0⟩ 8 ⟨3⟩ rfl rfl (by decide +kernel)
  have hblock : ((start.after Request.ask shrinkingRun).store.handles.get? ⟨3⟩).map Handle.location =
      some (.block ⟨0⟩ ⟨0, 0⟩) := by decide +kernel
  have hsize : ((start.after Request.ask shrinkingRun).store.pools.get? ⟨0⟩).map
      (fun c => c.pool.blockSize) = some 8 := by decide +kernel
  rw [hblock, Option.some.injEq, Address.block.injEq] at hlocation
  obtain ⟨rfl, -⟩ := hlocation
  rw [hp, Option.map_some, Option.some.injEq] at hsize
  obtain ⟨hcapacity, -⟩ := hpools ⟨0⟩ cell hp
  rw [hsize] at hcapacity hallocated howns
  rw [hreleased, hreserved] at hcapacity
  have hfirst : allocated 8 ((start.after Request.ask fourStrings).turn Request.ask
      ⟨.create ⟨0⟩ 8, 0, some⟩).events = [3] := by decide +kernel
  obtain rfl : i = 3 := List.singleton_inj.mp (hallocated.symm.trans hfirst)
  have hslot : follow 8 (((start.after Request.ask fourStrings).turn Request.ask
      ⟨.create ⟨0⟩ 8, 0, some⟩).state.trace Request.ask threeLost) 3 = 0 := by decide +kernel
  rw [hslot] at howns
  exact ⟨cell, hp, hcapacity, howns⟩

end OffRow
