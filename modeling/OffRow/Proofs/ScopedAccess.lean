import OffRow.Proofs.Guards

namespace OffRow

def Access.request (access : Access) : Request :=
  if access.exclusive then .write access.handle else .read access.handle

theorem Access.isAccess_request (access : Access) : access.request.isAccess = true := by
  obtain ⟨h, exclusive⟩ := access
  cases exclusive <;> rfl

theorem Access.request_perform (access : Access) :
    access.request.perform = Engine.access access.handle access.exclusive := by
  obtain ⟨h, exclusive⟩ := access
  cases exclusive <;> rfl

def Request.size? : Request → Option Nat
  | .create _ size | .createIn _ size => some size
  | _ => none

namespace Engine

variable {e f : Engine} {p : PoolId} {c d : SharedPool} {h : HandleId} {access : Access}
  {rest outer : List Access} {us : List (Turn Request)}

/-- None of the accesses `outer` ends during the run. -/
def Within (outer : List Access) (e : Engine) (us : List (Turn Request)) : Prop :=
  ∀ vs, vs <+: us → outer <:+ (e.after Request.ask vs).accesses

theorem Within.head (hw : Within outer e us) : outer <:+ e.accesses := hw [] List.nil_prefix

theorem Within.tail {t : Turn Request} (hw : Within outer e (t :: us)) :
    Within outer (e.turn Request.ask t).state us :=
  fun vs hv => hw (t :: vs) (List.cons_prefix_cons.mpr ⟨rfl, hv⟩)

theorem Guarded.turn_frame (he : e.Guarded) (t : Turn Request) (hc : e.store.pools.get? p = some c)
    (hu : e.InUse p) (hd : (e.turn Request.ask t).state.store.pools.get? p = some d) :
    d.pool.frame = c.pool.frame := by
  cases ht : t.action.isAccess with
  | true =>
    obtain ⟨readers, hp⟩ := (turn_request_accessed ht).pools hd
    rw [hc] at hp
    cases hp
    rfl
  | false =>
    have hcd := (turn_request_evolves he ht).store.pool hc hd
    exact hcd.frame_eq ((he.inUse_iff_readers hc).mp hu)

theorem Guarded.not_written (he : e.Guarded) (ha : access ∈ e.accesses) (hx : access.exclusive = false)
    (start : Nat) (data : ByteArray) : e.allows (.overwrite access.handle start data) = false := by
  apply decide_eq_false
  intro hmem
  obtain ⟨h, exclusive⟩ := access
  cases hx
  exact he.alone h hmem ha

theorem Guarded.turn_contents (he : e.Guarded) (t : Turn Request) (ha : access ∈ e.accesses)
    (hp : e.poolOf access.handle ≠ none)
    (hw : access.exclusive = true → ∀ start data, t.action ≠ .overwrite access.handle start data) :
    (e.turn Request.ask t).state.store.contents access.handle = e.store.contents access.handle := by
  obtain ⟨-, hcontents, hfits, -⟩ := turn_step he.toValid t
  cases hq : e.allows t.action with
  | false =>
    rw [turn_barred hq]
    exact congrFun (Store.SameStrings.congr rfl rfl).contents_eq _
  | true =>
    rw [hcontents]
    apply Contents.next_eq_self (he.stored access ha hp) (hfits hq) (he.not_destroyed t ha hp)
    intro start data heq
    have haction : t.action = .overwrite access.handle start data := (Prod.mk.inj heq).1
    cases hx : access.exclusive with
    | true => exact hw hx start data haction
    | false =>
      rw [haction, he.not_written ha hx] at hq
      cases hq

theorem Within.poolOf_eq (he : e.Guarded) (hw : Within outer e us) (ha : access ∈ outer) :
    (e.after Request.ask us).poolOf access.handle = e.poolOf access.handle := by
  induction us generalizing e with
  | nil => rfl
  | cons t us ih => rw [after, ih (he.turn t) hw.tail, he.turn_poolOf t (hw.head.subset ha)]

theorem Within.frame_eq (he : e.Guarded) (hw : Within outer e us) (ha : access ∈ outer)
    (hp : e.poolOf access.handle = some p) (hc : e.store.pools.get? p = some c) :
    ∃ d, (e.after Request.ask us).store.pools.get? p = some d ∧ d.pool.frame = c.pool.frame := by
  induction us generalizing e c with
  | nil => exact ⟨c, hc, rfl⟩
  | cons t us ih =>
    -- The access is under way before each turn, so each turn finds the pool in use and leaves its frame.
    have hmem : access ∈ e.accesses := hw.head.subset ha
    have hp' : (e.turn Request.ask t).state.poolOf access.handle = some p :=
      (he.turn_poolOf t hmem).trans hp
    obtain ⟨b, hb⟩ := (he.turn t).exists_pool ⟨access, hw.tail.head.subset ha, hp'⟩
    have hframe := he.turn_frame t hc ⟨access, hmem, hp⟩ hb
    obtain ⟨d, hd, hdb⟩ := ih (he.turn t) hw.tail hp' hb
    exact ⟨d, hd, hdb.trans hframe⟩

/-- Pool `p` is in `f` as it was in `e`, but for the bytes in its blocks, and so are the places of its
strings. -/
structure Pinned (e f : Engine) (p : PoolId) : Prop where
  frame_eq : ∃ c d, e.store.pools.get? p = some c ∧ f.store.pools.get? p = some d ∧
    d.pool.frame = c.pool.frame
  location_iff : ∀ h w, (f.store.handles.get? h).map Handle.location = some (.block p w) ↔
    (e.store.handles.get? h).map Handle.location = some (.block p w)

theorem Within.pinned (he : e.Guarded) (hw : Within outer e us) (ha : access ∈ outer)
    (hp : e.poolOf access.handle = some p) : e.Pinned (e.after Request.ask us) p := by
  obtain ⟨c, hc⟩ := he.exists_pool ⟨access, hw.head.subset ha, hp⟩
  obtain ⟨d, hd, hframe⟩ := hw.frame_eq he ha hp hc
  refine ⟨⟨c, d, hc, hd, hframe⟩, ?_⟩
  exact he.consistent.toPlaced.location_congr (he.after us).consistent.toPlaced hc hd hframe

theorem Within.contents_eq (he : e.Guarded) (hw : Within outer e us) (ha : access ∈ outer)
    (hp : e.poolOf access.handle ≠ none)
    (hwrites : access.exclusive = true →
      ∀ u ∈ us, ∀ start data, u.action ≠ .overwrite access.handle start data) :
    (e.after Request.ask us).store.contents access.handle = e.store.contents access.handle := by
  induction us generalizing e with
  | nil => rfl
  | cons t us ih =>
    have hmem : access ∈ e.accesses := hw.head.subset ha
    have hturn := he.turn_contents t hmem hp fun hx => hwrites hx t List.mem_cons_self
    rw [after, ih (he.turn t) hw.tail ?_ ?_, hturn]
    · rw [he.turn_poolOf t hmem]
      exact hp
    · exact fun hx u hu => hwrites hx u (List.mem_cons_of_mem t hu)

theorem Guarded.turn_begun (he : e.Guarded) {t : Turn Request} (ht : t.action = access.request)
    (hq : e.allows t.action = true) (hp : e.poolOf access.handle = some p) :
    ∃ b, e.turn Request.ask t = ⟨.ok (.bytes b), (e.prepared t).entered access (some p), []⟩ ∧
      (e.turn Request.ask t).state.store.contents access.handle = some b := by
  have hreach : e.reaches access.handle = true := by
    obtain ⟨h, exclusive⟩ := access
    rw [ht] at hq
    cases exclusive <;> exact (Bool.and_eq_true_iff.mp hq).1
  have hstored := he.reached_stored hreach (by rw [hp]; exact nofun)
  obtain ⟨b, hb⟩ := Option.isSome_iff_exists.mp hstored
  have hcontents : (e.turn Request.ask t).state.store.contents = e.store.contents := by
    obtain ⟨-, hcontents, -⟩ := turn_step he.toValid t
    rw [hcontents, ht]
    obtain ⟨h, exclusive⟩ := access
    cases exclusive <;> rfl
  refine ⟨b, ?_, hcontents ▸ hb⟩
  obtain ⟨a, hh, hpool⟩ := Option.bind_eq_some_iff.mp hp
  have hhandle : (e.prepared t).store.handles.get? access.handle = some a := hh
  have hrun := access_run (e.prepared t) access.handle access.exclusive
  have hanswer := access_answer (he.toValid.prepared t) (h := access.handle)
    (show (e.prepared t).store.contents access.handle = some b from
      (congrFun (Store.SameStrings.congr rfl rfl).contents_eq _).trans hb) access.exclusive
  rw [turn_allowed hq, ht, access.request_perform]
  rw [hhandle] at hrun
  simp only [hpool] at hrun
  split at hrun
  · next b' _ =>
    rw [hrun] at hanswer ⊢
    cases hanswer
    rfl
  · rw [hrun] at hanswer
    cases hanswer

theorem turn_ended (ha : e.accesses = access :: rest) {t : Turn Request}
    (ht : t.action = .endAccess) : (e.turn Request.ask t).state.accesses = rest := by
  have hq : e.allows t.action = true := by
    rw [ht]
    simp [allows, ha]
  rw [turn_allowed hq, ht]
  change (Engine.endAccess.run (e.prepared t)).state.accesses = rest
  rw [endAccess_run, show (e.prepared t).accesses = access :: rest from ha]
  simp only
  split <;> rfl

theorem Guarded.turn_destroy (he : e.Guarded) {t : Turn Request} (ht : t.action = .destroy h)
    (hq : e.allows t.action = true) (hp : e.poolOf h = some p) (hc : e.store.pools.get? p = some c)
    (hu : ¬e.InUse p) (hthread : t.thread = c.pool.ownerThread) :
    (e.turn Request.ask t).result = .ok .done := by
  rw [ht] at hq
  have hmem : h ∈ e.strings := of_decide_eq_true (Bool.and_eq_true_iff.mp hq).1
  obtain ⟨p', c', hp', hc', hresult⟩ := (he.prepared t).destroy_result hmem
  have hp' : e.poolOf h = some p' := hp'
  rw [hp] at hp'
  cases hp'
  have hc' : e.store.pools.get? p = some c' := hc'
  rw [hc] at hc'
  cases hc'
  rw [he.inUse_iff_readers hc] at hu
  rw [turn_allowed (ht ▸ hq), ht, hresult, if_neg hu]
  exact if_neg (not_not.mpr hthread)

theorem receive_congr {x y : Op Store HandleId} (h : x.run e.store = y.run e.store) :
    (receive x).run e = (receive y).run e := by
  have hstore : (onStore x).run e = (onStore y).run e := by rw [onStore_run, onStore_run, h]
  cases hr : (onStore y).run e with
  | mk result f events =>
    rw [hr] at hstore
    cases result with
    | ok h => rw [receive, receive, Op.run_bind_ok hstore, Op.run_bind_ok hr]
    | error failure => rw [receive, receive, Op.run_bind_error hstore, Op.run_bind_error hr]

theorem turn_creation {t : Turn Request} {size : Nat} (ht : t.action.size? = some size)
    (hq : e.allows t.action = true) (hp : e.poolMeant t.action = some p) :
    e.turn Request.ask t = (receive (Store.createIn p size)).run (e.prepared t) := by
  rw [turn_allowed hq]
  cases ha : t.action with
  | createIn q n =>
    rw [ha] at ht hp
    cases ht
    cases hp
    rfl
  | create r n =>
    rw [ha] at ht hp hq
    cases ht
    obtain ⟨registry, hr⟩ := Option.isSome_iff_exists.mp hq
    have hr' : (e.prepared t).store.registries.get? r = some registry := hr
    have haim : (Request.create r size).aim? e.store = some p := hp
    cases hk : SizeClass.forSize size with
    | error err =>
      simp only [Request.aim?, hk] at haim
      cases haim
    | ok k =>
      simp only [Request.aim?, hk, hr, Option.bind_some] at haim
      exact receive_congr (Store.create_known hr' hk haim)
  | _ =>
    rw [ha] at ht
    cases ht

theorem Guarded.turn_create (he : e.Guarded) {t : Turn Request} {size : Nat}
    (ht : t.action.size? = some size) (hq : e.allows t.action = true)
    (hp : e.poolMeant t.action = some p) (hc : e.store.pools.get? p = some c) (hu : ¬e.InUse p)
    (hthread : t.thread = c.pool.ownerThread) (hsize : size ≤ c.pool.blockSize)
    (hg : c.pool.CanAllocate fun bytes => (t.answers bytes).isSome) :
    ∃ h, (e.turn Request.ask t).result = .ok (.string h) := by
  have hs := (he.prepared t).consistent
  rw [he.inUse_iff_readers hc, not_not] at hu
  have hok : ((Store.createIn p size).run (e.prepared t).store).result = .ok e.store.handles.next :=
    Store.createIn_ok hs hc hu hthread hsize hg
  refine ⟨e.store.handles.next, ?_⟩
  rw [turn_creation ht hq hp, receive_result, hok]
  rfl

end Engine

open Engine in
/-- Creating and destroying a string is refused for the use of a pool exactly if some access under way
is to a string of that pool; otherwise the pool can be changed on its own thread. From the beginning
of an access to a string of pool `p` to its end, whatever runs in between, `p` keeps its frame, the
strings of `p` stay where they are, and the bytes that are seen stay the same unless who writes the
string changes them. The end of the access leaves in use what was in use before it, and a read or a
write gives its guard back however the closure ends. -/
theorem scoped_access (ts : List (Turn Request)) :
    let e := start.after Request.ask ts
    (∀ t : Turn Request, e.allows t.action → t.action.modifies →
      ((e.turn Request.ask t).result = .error (.fault .poolInUse) ↔
        ∃ p, e.poolMeant t.action = some p ∧ e.InUse p)) ∧
    (∀ (t : Turn Request) p cell, e.allows t.action → e.poolMeant t.action = some p →
      e.store.pools.get? p = some cell → ¬e.InUse p → t.thread = cell.pool.ownerThread →
      (∀ h, t.action = .destroy h → (e.turn Request.ask t).result = .ok .done) ∧
      ∀ size, t.action.size? = some size → size ≤ cell.pool.blockSize →
        (cell.pool.CanAllocate fun bytes => (t.answers bytes).isSome) →
        ∃ h, (e.turn Request.ask t).result = .ok (.string h)) ∧
    (∀ (access : Access) (t : Turn Request) p, t.action = access.request → e.allows t.action →
      e.poolOf access.handle = some p →
      let f := (e.turn Request.ask t).state
      ∃ b, (e.turn Request.ask t).result = .ok (.bytes b) ∧
        ∀ us, Within f.accesses f us →
          let g := f.after Request.ask us
          f.Pinned g p ∧
          ((access.exclusive = true →
              ∀ u ∈ us, ∀ start data, u.action ≠ .overwrite access.handle start data) →
            (Store.bytes access.handle).run g.store = ⟨.ok b, g.store, []⟩) ∧
          ∀ last : Turn Request, last.action = .endAccess → g.accesses = f.accesses →
            ∀ q, (g.turn Request.ask last).state.InUse q ↔ e.InUse q) ∧
    ∀ h p α, e.poolOf h = some p →
      (∀ body : ByteArray → Op Store α,
        let inner := (Store.bytes h >>= body).run (e.store.entered (some p))
        ∀ a, inner.state.handles.get? h = some a → a.pool = some p →
          (Store.read h body).run e.store =
            ⟨inner.result, inner.state.left (some p), inner.events⟩) ∧
      ∀ start data (body : Op Store α),
        let inner := (Store.overwrite h start data >>= fun _ => body).run (e.store.entered (some p))
        ∀ a, inner.state.handles.get? h = some a → a.pool = some p →
          (Store.write h start data body).run e.store =
            ⟨inner.result, inner.state.left (some p), inner.events⟩ := by
  intro e
  have he : e.Guarded := start_guarded.after ts
  refine ⟨?_, ?_, ?_, ?_⟩
  · intro t hq hm
    rw [turn_allowed hq, ← e.prepared_poolMeant t]
    exact (he.prepared t).refused_iff ((e.prepared_allows t t.action).trans hq) hm
  · intro t p cell hq hp hc hu hthread
    constructor
    · intro h ht
      have hp : e.poolOf h = some p := by
        rw [ht] at hp
        exact hp
      exact he.turn_destroy ht hq hp hc hu hthread
    · intro size ht hsize hg
      exact he.turn_create ht hq hp hc hu hthread hsize hg
  · intro access t p ht hq hp f
    obtain ⟨b, hturn, hb⟩ := he.turn_begun ht hq hp
    have hf : f.Guarded := he.turn t
    have haccesses : f.accesses = access :: e.accesses := by
      change (e.turn Request.ask t).state.accesses = _
      rw [hturn]
      rfl
    have hmem : access ∈ f.accesses := haccesses ▸ List.mem_cons_self
    have hp' : f.poolOf access.handle = some p :=
      (turn_access_poolOf (ht ▸ access.isAccess_request) access.handle).trans hp
    refine ⟨b, congrArg Outcome.result hturn, fun us hw => ?_⟩
    intro g
    have hg : g.Guarded := hf.after us
    refine ⟨hw.pinned hf hmem hp', fun hwrites => ?_, fun last hlast hga q => ?_⟩
    · have hne : f.poolOf access.handle ≠ none := by
        rw [hp']
        exact nofun
      apply Store.bytes_run
      rw [hw.contents_eq hf hmem hne hwrites]
      exact hb
    · have hga : g.accesses = access :: e.accesses := hga.trans haccesses
      apply inUse_congr (turn_ended hga hlast)
      intro other hother
      have hof : other ∈ f.accesses := haccesses ▸ List.mem_cons_of_mem _ hother
      have hog : other ∈ g.accesses := hga ▸ List.mem_cons_of_mem _ hother
      rw [hg.turn_poolOf last hog, hw.poolOf_eq hf hof, he.turn_poolOf t hother]
  · intro h p α hp
    obtain ⟨a, hh, hpool⟩ := Option.bind_eq_some_iff.mp hp
    constructor
    · intro body inner b hb hpool'
      have hrun := Store.guarded_run hh (Store.bytes h >>= body)
      rw [hpool] at hrun
      apply hrun
      rw [hb, Option.map_some, hpool']
    · intro start data body inner b hb hpool'
      have hrun := Store.guarded_run hh (Store.overwrite h start data >>= fun _ => body)
      rw [hpool] at hrun
      apply hrun
      rw [hb, Option.map_some, hpool']

def siblingsRun : List (Turn Request) :=
  [⟨.openRegistry 160 (by decide) .mayDropItems, 0, some⟩, ⟨.create ⟨0⟩ 8, 0, some⟩,
    ⟨.create ⟨0⟩ 8, 0, some⟩, ⟨.read ⟨0⟩, 0, some⟩]

open Engine in
theorem scoped_access_nested :
    let e := start.after Request.ask siblingsRun
    let f := (e.turn Request.ask ⟨.read ⟨1⟩, 0, some⟩).state
    let g := f.after Request.ask [⟨.create ⟨0⟩ 8, 1, some⟩, ⟨.destroy ⟨0⟩, 0, some⟩]
    (e.turn Request.ask ⟨.create ⟨0⟩ 8, 1, some⟩).result = .error (.fault .poolInUse) ∧
      f.Pinned g ⟨0⟩ ∧ (g.turn Request.ask ⟨.endAccess, 0, some⟩).state.InUse ⟨0⟩ := by
  intro e f g
  obtain ⟨hrefused, -, hbegun, -⟩ := scoped_access siblingsRun
  have he : e.InUse ⟨0⟩ := ⟨⟨⟨0⟩, false⟩, by decide +kernel, by decide +kernel⟩
  have hcreate : (e.turn Request.ask ⟨.create ⟨0⟩ 8, 1, some⟩).result = .error (.fault .poolInUse) :=
    (hrefused ⟨.create ⟨0⟩ 8, 1, some⟩ (by decide +kernel) (by decide +kernel)).mpr
      ⟨⟨0⟩, by decide +kernel, he⟩
  obtain ⟨b, -, hinside⟩ := hbegun ⟨⟨1⟩, false⟩ ⟨.read ⟨1⟩, 0, some⟩ ⟨0⟩ rfl
    (by decide +kernel) (by decide +kernel)
  have hw : Within f.accesses f [⟨.create ⟨0⟩ 8, 1, some⟩, ⟨.destroy ⟨0⟩, 0, some⟩] := by
    intro vs hv
    obtain rfl | ⟨us, rfl, hus⟩ := List.prefix_cons_iff.mp hv
    · exact List.suffix_rfl
    obtain rfl | ⟨ws, rfl, hws⟩ := List.prefix_cons_iff.mp hus
    · decide +kernel
    obtain rfl := List.prefix_nil.mp hws
    decide +kernel
  obtain ⟨hpinned, -, hends⟩ := hinside _ hw
  exact ⟨hcreate, hpinned, (hends ⟨.endAccess, 0, some⟩ rfl (by decide +kernel) ⟨0⟩).mpr he⟩

end OffRow
