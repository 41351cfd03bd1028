import OffRow.Proofs.Evolution
import OffRow.Proofs.Pool.Frames

namespace OffRow

namespace SharedPool

variable {c d : SharedPool}

theorem Change.frame_eq (h : c.Change d) (hr : c.readers ≠ 0) : d.pool.frame = c.pool.frame := by
  cases h with
  | counted _ => rfl
  | rewritten i _ => exact Pool.frame_rewritten i _
  | allocated _ hz _ => exact absurd hz hr
  | copied hz _ => exact absurd hz hr
  | freed hz _ => exact absurd hz hr
  | fitted hz => exact absurd hz hr

theorem Evolves.frame_eq (h : c.Evolves d) (hr : c.readers ≠ 0) : d.pool.frame = c.pool.frame := by
  have hI : d.readers ≠ 0 ∧ d.pool.frame = c.pool.frame := by
    apply h.invariant (I := fun d => d.readers ≠ 0 ∧ d.pool.frame = c.pool.frame)
    · intro a b hab ha
      exact ⟨hab.readers_eq ▸ ha.1, (hab.frame_eq ha.1).trans ha.2⟩
    · exact ⟨hr, rfl⟩
  exact hI.2

end SharedPool

namespace Store

variable {s t : Store} {p q : PoolId} {c d : SharedPool} {h : HandleId} {size : Nat}
  {held : List PoolId}

theorem Placed.location_iff (hs : s.Placed) (hp : s.pools.get? p = some c) (h : HandleId) (w : Place) :
    (s.handles.get? h).map Handle.location = some (.block p w) ↔
      ∃ i, c.pool.Owns i h ∧ w = Pool.placeOf c.pool.firstSlots i := by
  constructor
  · intro hl
    obtain ⟨a, ha, hl⟩ := Option.map_eq_some_iff.mp hl
    rcases hs.located_cases hp ha hl with ⟨-, hi⟩ | hne
    · exact hi
    · exact absurd rfl hne
  · rintro ⟨i, hi, rfl⟩
    obtain ⟨a, ha, -, hl, -⟩ := hs.settled hp hi
    rw [ha, Option.map_some, hl]

theorem Placed.location_congr (hs : s.Placed) (ht : t.Placed) (hp : s.pools.get? p = some c)
    (hq : t.pools.get? p = some d) (hf : d.pool.frame = c.pool.frame) (h : HandleId) (w : Place) :
    (t.handles.get? h).map Handle.location = some (.block p w) ↔
      (s.handles.get? h).map Handle.location = some (.block p w) := by
  have hfirst : d.pool.firstSlots = c.pool.firstSlots := by
    change d.pool.frame.firstSlots = c.pool.frame.firstSlots
    rw [hf]
  rw [ht.location_iff hq, hs.location_iff hp, hfirst]
  simp only [Pool.owns_of_frame_eq hf]

end Store

def Request.modifies : Request → Bool
  | .create .. | .createIn .. | .destroy _ | .shrinkToFit _ => true
  | _ => false

namespace Engine

variable {e f : Engine} {p : PoolId} {c d : SharedPool} {h : HandleId} {access : Access}
  {rest : List Access}

def poolOf (e : Engine) (h : HandleId) : Option PoolId := (e.store.handles.get? h).bind Handle.pool

def InUse (e : Engine) (p : PoolId) : Prop := ∃ access ∈ e.accesses, e.poolOf access.handle = some p

def accessesTo (e : Engine) (p : PoolId) : Nat :=
  e.accesses.countP fun access => e.poolOf access.handle = some p

/-- Pools count the accesses to their strings, and the handle of an access stays as long as the access
does. Nobody reads a string that is being written. -/
structure Guarded (e : Engine) : Prop extends Valid e where
  readers_eq : ∀ {p c}, e.store.pools.get? p = some c → c.readers = e.accessesTo p
  known : ∀ access ∈ e.accesses, access.handle.number < e.store.handles.next.number
  stored : ∀ access ∈ e.accesses, e.poolOf access.handle ≠ none →
    (e.store.contents access.handle).isSome
  alone : ∀ h, ⟨h, true⟩ ∈ e.accesses → ⟨h, false⟩ ∉ e.accesses

theorem Valid.exists_pool (he : e.Valid) (hc : (e.store.contents h).isSome) :
    ∃ p c i, e.poolOf h = some p ∧ e.store.pools.get? p = some c ∧ c.pool.Owns i h := by
  obtain ⟨b, hb⟩ := Option.isSome_iff_exists.mp hc
  obtain ⟨a, p, c, i, ha, hp, hi, hpool, -⟩ := he.consistent.exists_block hb
  exact ⟨p, c, i, by rw [poolOf, ha]; exact hpool, hp, hi⟩

theorem inUse_iff : e.InUse p ↔ e.accessesTo p ≠ 0 := by
  rw [← Nat.pos_iff_ne_zero, accessesTo, List.countP_pos_iff]
  simp only [decide_eq_true_eq]
  rfl

theorem accessesTo_congr (ha : f.accesses = e.accesses)
    (hf : ∀ access ∈ e.accesses, f.poolOf access.handle = e.poolOf access.handle) (p : PoolId) :
    f.accessesTo p = e.accessesTo p := by
  rw [accessesTo, ha]
  apply List.countP_congr
  intro access hmem
  rw [hf access hmem]

theorem inUse_congr (ha : f.accesses = e.accesses)
    (hf : ∀ access ∈ e.accesses, f.poolOf access.handle = e.poolOf access.handle) (p : PoolId) :
    f.InUse p ↔ e.InUse p := by
  rw [inUse_iff, inUse_iff, accessesTo_congr ha hf]

theorem accessesTo_entered {a : Handle} (hh : e.store.handles.get? access.handle = some a) (p : PoolId) :
    (e.entered access a.pool).accessesTo p = e.accessesTo p + if a.pool = some p then 1 else 0 := by
  simp only [accessesTo, poolOf, Engine.entered, Store.entered_handles, List.countP_cons, hh,
    Option.bind_some, decide_eq_true_eq]
  rfl

theorem accessesTo_left {a : Handle} (ha : e.accesses = access :: rest)
    (hh : e.store.handles.get? access.handle = some a) (p : PoolId) :
    e.accessesTo p = (e.left rest a.pool).accessesTo p + if a.pool = some p then 1 else 0 := by
  simp only [accessesTo, poolOf, Engine.left, Store.left_handles, ha, List.countP_cons, hh,
    Option.bind_some, decide_eq_true_eq]
  rfl

namespace Guarded

theorem inUse_iff_readers (he : e.Guarded) (hp : e.store.pools.get? p = some c) :
    e.InUse p ↔ c.readers ≠ 0 := by
  rw [inUse_iff, he.readers_eq hp]

theorem exists_pool (he : e.Guarded) (hu : e.InUse p) : ∃ c, e.store.pools.get? p = some c := by
  obtain ⟨access, ha, hp⟩ := hu
  have hne : e.poolOf access.handle ≠ none := by
    rw [hp]
    exact nofun
  obtain ⟨q, c, -, hq, hc, -⟩ := he.toValid.exists_pool (he.stored access ha hne)
  rw [hp, Option.some.injEq] at hq
  exact ⟨c, hq ▸ hc⟩

theorem prepared {κ : Type} (he : e.Guarded) (t : Turn κ) : (e.prepared t).Guarded where
  toValid := he.toValid.prepared t
  readers_eq := he.readers_eq
  known := he.known
  stored access ha hp := by
    have hsame : Store.SameStrings e.store (e.prepared t).store := .congr rfl rfl
    rw [hsame.contents_eq]
    exact he.stored access ha hp
  alone := he.alone

theorem of_handles (he : e.Guarded) (hf : f.Valid) (hh : f.store.handles = e.store.handles)
    (hc : f.store.contents = e.store.contents)
    (hr : ∀ {p c}, f.store.pools.get? p = some c → c.readers = f.accessesTo p)
    (ha : ∀ access ∈ f.accesses, access ∈ e.accesses ∨
      access.handle.number < e.store.handles.next.number ∧
        (e.poolOf access.handle ≠ none → (e.store.contents access.handle).isSome))
    (hs : ∀ h, ⟨h, true⟩ ∈ f.accesses → ⟨h, false⟩ ∉ f.accesses) : f.Guarded where
  toValid := hf
  readers_eq := hr
  known access hm := by
    rw [hh]
    rcases ha access hm with hm | ⟨hlt, -⟩
    · exact he.known access hm
    · exact hlt
  stored access hm hp := by
    rw [poolOf, hh] at hp
    rw [hc]
    rcases ha access hm with hm | ⟨-, hsome⟩
    · exact he.stored access hm hp
    · exact hsome hp
  alone := hs

theorem entered (he : e.Guarded) {a : Handle} (hh : e.store.handles.get? access.handle = some a)
    (hc : a.pool ≠ none → (e.store.contents access.handle).isSome)
    (hs : ⟨access.handle, !access.exclusive⟩ ∉ e.accesses) : (e.entered access a.pool).Guarded := by
  obtain ⟨ht, hsame⟩ := he.consistent.entered a.pool
  have hvalid : (e.entered access a.pool).Valid := he.toValid.of_same ht hsame.contents_eq rfl
  apply he.of_handles hvalid (Store.entered_handles _ _) hsame.contents_eq
  · intro p c hp
    obtain ⟨d, hd, rfl⟩ := Option.map_eq_some_iff.mp ((Store.get?_entered _ _ p).symm.trans hp)
    rw [accessesTo_entered hh, he.readers_eq hd]
  · intro other hm
    rcases List.mem_cons.mp hm with rfl | hm
    · have hpool : e.poolOf other.handle = a.pool := by rw [poolOf, hh]; rfl
      exact .inr ⟨Table.lt_next hh, fun hp => hc (hpool ▸ hp)⟩
    · exact .inl hm
  · intro h hw hr
    obtain ⟨x, exclusive⟩ := access
    rcases List.mem_cons.mp hw with heq | hw'
    · cases heq
      rcases List.mem_cons.mp hr with heq | hr'
      · cases heq
      · exact hs hr'
    · rcases List.mem_cons.mp hr with heq | hr'
      · cases heq
        exact hs hw'
      · exact he.alone h hw' hr'

theorem left (he : e.Guarded) (ha : e.accesses = access :: rest) {a : Handle}
    (hh : e.store.handles.get? access.handle = some a) : (e.left rest a.pool).Guarded := by
  obtain ⟨ht, hsame⟩ := he.consistent.left a.pool
  have hvalid : (e.left rest a.pool).Valid := he.toValid.of_same ht hsame.contents_eq rfl
  apply he.of_handles hvalid (Store.left_handles _ _) hsame.contents_eq
  · intro p c hp
    obtain ⟨d, hd, rfl⟩ := Option.map_eq_some_iff.mp ((Store.get?_left _ _ p).symm.trans hp)
    have hcount := he.readers_eq hd
    rw [accessesTo_left ha hh] at hcount
    simp only [hcount, Nat.add_sub_cancel]
  · exact fun other hm => .inl (ha ▸ List.mem_cons_of_mem _ hm)
  · exact fun h hw hr => he.alone h (ha ▸ List.mem_cons_of_mem _ hw) (ha ▸ List.mem_cons_of_mem _ hr)

theorem forgotten (he : e.Guarded) (ha : e.accesses = access :: rest)
    (hh : e.store.handles.get? access.handle = none) : Guarded { e with accesses := rest } := by
  have hvalid : Valid { e with accesses := rest } := he.toValid.of_same he.consistent rfl rfl
  apply he.of_handles hvalid rfl rfl
  · intro p c hp
    have hcount : e.accessesTo p = accessesTo { e with accesses := rest } p := by
      rw [accessesTo, ha, List.countP_cons, poolOf, hh]
      rfl
    exact hcount ▸ he.readers_eq hp
  · exact fun other hm => .inl (ha ▸ List.mem_cons_of_mem _ hm)
  · exact fun h hw hr => he.alone h (ha ▸ List.mem_cons_of_mem _ hw) (ha ▸ List.mem_cons_of_mem _ hr)

end Guarded

def poolMeant (e : Engine) : Request → Option PoolId
  | .destroy h => e.poolOf h
  | .shrinkToFit p => some p
  | q => q.aim? e.store

theorem prepared_poolMeant {κ : Type} (e : Engine) (t : Turn κ) (q : Request) :
    (e.prepared t).poolMeant q = e.poolMeant q := by
  cases q <;> rfl

theorem onStore_result {α : Type} (e : Engine) (x : Op Store α) {g : α → Op Engine Answer}
    {answer : α → Answer} (hg : ∀ a f, ((g a).run f).result = .ok (answer a)) :
    ((onStore x >>= g).run e).result = (x.run e.store).result.map answer := by
  have hrun := onStore_run e x
  cases hr : (x.run e.store).result with
  | ok a =>
    rw [hr] at hrun
    rw [Op.run_bind_ok hrun]
    exact hg a _
  | error failure =>
    rw [hr] at hrun
    rw [Op.run_bind_error hrun]
    rfl

theorem receive_result (e : Engine) (x : Op Store HandleId) :
    ((receive x).run e).result = (x.run e.store).result.map Answer.string :=
  onStore_result e x fun _ _ => rfl

theorem answer_result (e : Engine) (x : Op Store Unit) (after : Op Engine Unit)
    (ha : ∀ f, ∃ g events, after.run f = ⟨.ok (), g, events⟩) :
    ((do onStore x; after; pure .done : Op Engine Answer).run e).result =
      (x.run e.store).result.map fun _ => .done := by
  refine onStore_result e x fun _ f => ?_
  obtain ⟨g, events, hg⟩ := ha f
  rw [Op.run_bind_ok hg]
  rfl

theorem map_eq_fault {α β : Type} {r : Except Failure α} {g : α → β} {failure : Failure} :
    r.map g = .error failure ↔ r = .error failure := by
  cases r with
  | ok a => simp [Except.map]
  | error e => simp [Except.map]

namespace Guarded

variable {q : Request}

theorem destroy_result (he : e.Guarded) (hh : h ∈ e.strings) :
    ∃ p c, e.poolOf h = some p ∧ e.store.pools.get? p = some c ∧
      ((Request.destroy h).perform.run e).result =
        if c.readers ≠ 0 then .error (.fault .poolInUse)
        else if e.store.thread ≠ c.pool.ownerThread then
          .error (.fault (.wrongThread c.pool.blockSize))
        else .ok .done := by
  obtain ⟨b, hb⟩ := Option.isSome_iff_exists.mp ((he.strings_iff h).mp hh)
  obtain ⟨a, p, c, i, ha, hp, hi, hpool, -⟩ := he.consistent.exists_block hb
  refine ⟨p, c, by rw [poolOf, ha]; exact hpool, hp, ?_⟩
  have hresult := answer_result e (Store.destroy h)
    (Op.modify fun e => { e with strings := e.strings.erase h }) fun f => ⟨_, _, rfl⟩
  rw [Request.perform, hresult, Store.destroy_result he.consistent ha hp hi]
  split
  · rfl
  · split <;> rfl

theorem createIn_refused (he : e.Guarded) (hp : p ∈ e.pools) (size : Nat) :
    ((Request.createIn p size).perform.run e).result = .error (.fault .poolInUse) ↔ e.InUse p := by
  obtain ⟨c, hc⟩ := he.consistent.exists_of_held hp
  rw [Request.perform, receive_result, map_eq_fault, Store.createIn_inUse he.consistent hc,
    he.inUse_iff_readers hc]

theorem create_refused (he : e.Guarded) {r : RegistryId} (hr : (e.store.registries.get? r).isSome)
    (size : Nat) :
    ((Request.create r size).perform.run e).result = .error (.fault .poolInUse) ↔
      ∃ p, (Request.create r size).aim? e.store = some p ∧ e.InUse p := by
  obtain ⟨registry, hr⟩ := Option.isSome_iff_exists.mp hr
  rw [Request.perform, receive_result, map_eq_fault]
  cases hk : SizeClass.forSize size with
  | error err =>
    have hrun : ((Store.create r size).run e.store).result = .error (.error err) := by
      rw [Store.create, Store.poolForSize, hk]
      rfl
    have haim : (Request.create r size).aim? e.store = none := by simp only [Request.aim?, hk]
    rw [hrun, haim]
    simp
  | ok k =>
    have haim : (Request.create r size).aim? e.store = registry.pool? k := by
      simp only [Request.aim?, hk, hr, Option.bind_some]
    rw [haim]
    cases hp : registry.pool? k with
    | none => simp [Store.create_fresh_unused he.consistent hr hk hp]
    | some p =>
      obtain ⟨c, hc⟩ := he.consistent.exists_of_registry hr (Registry.mem_poolIds hp)
      rw [Store.create_known hr hk hp, Store.createIn_inUse he.consistent hc]
      simp only [Option.some.injEq, exists_eq_left', he.inUse_iff_readers hc]

theorem destroy_refused (he : e.Guarded) (hh : h ∈ e.strings) :
    ((Request.destroy h).perform.run e).result = .error (.fault .poolInUse) ↔
      ∃ p, e.poolOf h = some p ∧ e.InUse p := by
  obtain ⟨p, c, hp, hc, hresult⟩ := he.destroy_result hh
  simp only [hresult, hp, Option.some.injEq, exists_eq_left', he.inUse_iff_readers hc]
  split
  · next hr => exact iff_of_true rfl hr
  · next hr =>
    refine iff_of_false ?_ hr
    split <;> simp

theorem shrinkToFit_result (he : e.Guarded) (hp : p ∈ e.pools) :
    ((Request.shrinkToFit p).perform.run e).result = .error (.fault .poolInUse) ∧ e.InUse p ∨
      ((Request.shrinkToFit p).perform.run e).result = .ok .done ∧ ¬e.InUse p := by
  obtain ⟨c, hc⟩ := he.consistent.exists_of_held hp
  have hu := Store.checkUnused_run hc
  have hcheck := onStore_run e (Store.checkUnused p)
  rw [he.inUse_iff_readers hc, Request.perform]
  by_cases hr : c.readers = 0
  · rw [hu, if_pos hr] at hcheck
    have hshrink := onStore_run e (Store.shrinkToFit p)
    rw [Store.shrinkToFit_run he.consistent.toPlaced hc] at hshrink
    rw [Op.run_bind_silent hcheck, Op.run_bind_ok hshrink]
    exact .inr ⟨rfl, not_not.mpr hr⟩
  · rw [hu, if_neg hr] at hcheck
    rw [Op.run_bind_error hcheck]
    exact .inl ⟨rfl, hr⟩

theorem refused_iff (he : e.Guarded) (hq : e.allows q = true) (hm : q.modifies = true) :
    (q.perform.run e).result = .error (.fault .poolInUse) ↔
      ∃ p, e.poolMeant q = some p ∧ e.InUse p := by
  cases q with
  | create r size => exact he.create_refused hq size
  | createIn p size =>
    rw [he.createIn_refused (of_decide_eq_true hq)]
    simp [poolMeant, Request.aim?]
  | destroy h => exact he.destroy_refused (of_decide_eq_true (Bool.and_eq_true_iff.mp hq).1)
  | shrinkToFit p =>
    rcases he.shrinkToFit_result (of_decide_eq_true hq) with ⟨hr, hu⟩ | ⟨hr, hu⟩
    · rw [hr]
      exact iff_of_true rfl ⟨p, rfl, hu⟩
    · rw [hr]
      refine iff_of_false (by simp) ?_
      rintro ⟨_, ⟨⟩, hp⟩
      exact hu hp
  | _ => cases hm

end Guarded

theorem Guarded.not_destroyed (he : e.Guarded) (t : Turn Request) (ha : access ∈ e.accesses)
    (hp : e.poolOf access.handle ≠ none) :
    (t.action, (e.turn Request.ask t).result) ≠ (.destroy access.handle, .ok .done) := by
  intro heq
  obtain ⟨haction, hresult⟩ := Prod.mk.inj heq
  obtain ⟨p, hp⟩ := Option.ne_none_iff_exists'.mp hp
  cases hq : e.allows t.action with
  | false =>
    rw [turn_barred hq] at hresult
    cases hresult
  | true =>
    rw [turn_allowed hq, haction] at hresult
    rw [haction] at hq
    have hmem : access.handle ∈ e.strings := of_decide_eq_true (Bool.and_eq_true_iff.mp hq).1
    have hrefused := ((he.prepared t).destroy_refused hmem).mpr ⟨p, hp, access, ha, hp⟩
    rw [hresult] at hrefused
    cases hrefused

theorem Guarded.turn_stored (he : e.Guarded) (t : Turn Request) (ha : access ∈ e.accesses)
    (hp : e.poolOf access.handle ≠ none) :
    ((e.turn Request.ask t).state.store.contents access.handle).isSome := by
  obtain ⟨-, hcontents, -⟩ := turn_step he.toValid t
  rw [hcontents]
  exact Contents.next_isSome (he.stored access ha hp) (he.not_destroyed t ha hp)

theorem turn_request_evolves (he : e.Guarded) {t : Turn Request} (ht : t.action.isAccess = false) :
    e.Evolves (fun _ => True) (e.turn Request.ask t).state :=
  (turn_evolves (t := t.asked) he.consistent.wellFormed (fun _ _ _ _ _ _ _ => trivial) trivial ht
    fun _ _ => trivial).1

theorem turn_request_accessed {t : Turn Request} (ht : t.action.isAccess = true) :
    e.Accessed (e.turn Request.ask t).state := (turn_accessed (t := t.asked) ht).1

theorem turn_access_poolOf {t : Turn Request} (ht : t.action.isAccess = true) (h : HandleId) :
    (e.turn Request.ask t).state.poolOf h = e.poolOf h := by
  rw [poolOf, (turn_request_accessed ht).handles_eq, poolOf]

theorem Guarded.turn_poolOf (he : e.Guarded) (t : Turn Request) (ha : access ∈ e.accesses) :
    (e.turn Request.ask t).state.poolOf access.handle = e.poolOf access.handle := by
  cases ht : t.action.isAccess with
  | true => exact turn_access_poolOf ht access.handle
  | false =>
    have hstore := (turn_request_evolves he ht).store
    cases hf : (e.turn Request.ask t).state.store.handles.get? access.handle with
    | some b =>
      rcases hstore.handles hf with ⟨a, ha', -, -, hpool⟩ | hle
      · rw [poolOf, poolOf, hf, ha', Option.bind_some, Option.bind_some, hpool]
      · have hlt := he.known access ha
        omega
    | none =>
      by_contra hne
      rw [poolOf, hf] at hne
      -- A string whose handle is gone has no bytes, but one that is being accessed keeps them.
      have hsome := he.turn_stored t ha (Ne.symm hne)
      obtain ⟨a, q, w, ha', -⟩ :=
        (turn_step he.toValid t).1.consistent.toPlaced.contents_isSome.mp hsome
      rw [hf] at ha'
      cases ha'

theorem Guarded.reached_stored (he : e.Guarded) (hr : e.reaches h = true) (hp : e.poolOf h ≠ none) :
    (e.store.contents h).isSome := by
  rw [reaches, Bool.or_eq_true, decide_eq_true_eq] at hr
  rcases hr with hr | hr
  · exact (he.strings_iff _).mp hr
  · obtain ⟨p, hp⟩ := Option.ne_none_iff_exists'.mp hp
    obtain ⟨a, hh, hp⟩ := Option.bind_eq_some_iff.mp hp
    rw [hh, Option.map_some, Option.getD_some, (he.consistent.pooled hh hp).1] at hr
    cases hr

theorem Guarded.begun (he : e.Guarded) (access : Access) (hr : e.reaches access.handle = true)
    (hs : ⟨access.handle, !access.exclusive⟩ ∉ e.accesses) :
    ((Engine.access access.handle access.exclusive).run e).state.Guarded := by
  rw [access_run]
  cases hh : e.store.handles.get? access.handle with
  | none => exact he
  | some a =>
    have hentered : (e.entered access a.pool).Guarded := by
      apply he.entered hh _ hs
      intro hp
      apply he.reached_stored hr
      rw [poolOf, hh]
      exact hp
    simp only
    split
    · exact hentered
    · exact hentered

theorem Guarded.ended (he : e.Guarded) : (Engine.endAccess.run e).state.Guarded := by
  rw [endAccess_run]
  cases ha : e.accesses with
  | nil => exact he
  | cons access rest =>
    simp only
    cases hh : e.store.handles.get? access.handle with
    | none => exact he.forgotten ha hh
    | some a => exact he.left ha hh

theorem Guarded.turn_access (he : e.Guarded) {t : Turn Request} (ht : t.action.isAccess = true) :
    (e.turn Request.ask t).state.Guarded := by
  cases hq : e.allows t.action with
  | false =>
    rw [turn_barred hq]
    exact he.prepared t
  | true =>
    rw [turn_allowed hq]
    have hp := he.prepared t
    cases ha : t.action with
    | read h =>
      rw [ha] at hq
      obtain ⟨hr, hall⟩ := Bool.and_eq_true_iff.mp hq
      refine hp.begun ⟨h, false⟩ hr fun hm => ?_
      exact of_decide_eq_true (List.all_eq_true.mp hall ⟨h, true⟩ hm) rfl
    | write h =>
      rw [ha] at hq
      obtain ⟨hr, hall⟩ := Bool.and_eq_true_iff.mp hq
      refine hp.begun ⟨h, true⟩ hr fun hm => ?_
      exact of_decide_eq_true (List.all_eq_true.mp hall ⟨h, false⟩ hm) rfl
    | endAccess => exact hp.ended
    | _ =>
      rw [ha] at ht
      cases ht

theorem Guarded.turn (he : e.Guarded) (t : Turn Request) : (e.turn Request.ask t).state.Guarded := by
  cases ht : t.action.isAccess with
  | true => exact he.turn_access ht
  | false =>
    have hstep := turn_request_evolves he ht
    have hkept : ∀ access ∈ e.accesses,
        (e.turn Request.ask t).state.poolOf access.handle = e.poolOf access.handle :=
      fun _ ha => he.turn_poolOf t ha
    refine ⟨(turn_step he.toValid t).1, ?_, ?_, ?_, ?_⟩
    · intro p d hd
      rw [accessesTo_congr hstep.accesses_eq hkept]
      rcases hstep.store.pools hd with ⟨c, hc, hcd⟩ | ⟨hle, k, n, policy, thread, hcd⟩
      · exact hcd.readers_eq.trans (he.readers_eq hc)
      · -- The pools that are new are not yet known to any access.
        have hunused : ¬e.InUse p := by
          intro hu
          obtain ⟨c, hc⟩ := he.exists_pool hu
          exact absurd (Table.lt_next hc) (Nat.not_lt_of_le hle)
        rw [inUse_iff, not_not] at hunused
        exact hcd.readers_eq.trans hunused.symm
    · intro access ha
      have hlt := he.known access (hstep.accesses_eq ▸ ha)
      exact Nat.lt_of_lt_of_le hlt hstep.store.handles_le
    · intro access ha hp
      have ha : access ∈ e.accesses := hstep.accesses_eq ▸ ha
      exact he.turn_stored t ha (hkept access ha ▸ hp)
    · rw [hstep.accesses_eq]
      exact he.alone

theorem Guarded.after (he : e.Guarded) (ts : List (Turn Request)) : (e.after Request.ask ts).Guarded :=
  after_induction (I := Guarded) (fun _ t he => he.turn t) he ts

theorem start_guarded : start.Guarded where
  toValid := start_valid
  readers_eq hp := nomatch hp
  known _ ha := nomatch ha
  stored _ ha := nomatch ha
  alone _ ha := nomatch ha

end Engine

end OffRow
