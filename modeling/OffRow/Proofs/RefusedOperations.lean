import OffRow.Proofs.Guards
import OffRow.Proofs.Store.Serving

namespace OffRow

def Command.isPooled : Command → Bool
  | .ask (.create ..) | .ask (.createIn ..) | .ask (.destroy _) | .ask (.fromRaw _) => true
  | .ask (.holdSize ..) | .ask (.shrinkToFit _) => true
  | .allocateBlock .. | .freeBlock .. => true
  | _ => false

def Command.residue (c : Command) (s : Store) (failure : Failure) : Store :=
  match c with
  | .ask (.create r size) => s.uncreated r size failure
  | .ask (.createIn p size) => s.abandoned p size failure
  | .ask (.destroy h) => s.disowned h
  | _ => s

theorem Command.residue_kept (c : Command) (s : Store) (failure : Failure) :
    s.Kept (c.residue s failure) := by
  unfold residue
  split
  · exact .uncreated s _ _ failure
  · exact (Store.Kept.refl s).abandoned _ _ failure
  · exact .disowned s _
  · exact .refl s

namespace Engine

variable {e : Engine} {p : PoolId} {c : SharedPool} {h : HandleId} {failure : Failure} {α : Type}
  {x : Op Store α} {g : α → Op Engine Answer}

def refused (e : Engine) (c : Command) (failure : Failure) : Engine :=
  { e with store := c.residue e.store failure }

theorem onStore_failed (hg : ∀ a f, ∃ answer u events, (g a).run f = ⟨.ok answer, u, events⟩)
    (hf : ((onStore x >>= g).run e).result = .error failure) :
    (x.run e.store).result = .error failure ∧
      ((onStore x >>= g).run e).state = { e with store := (x.run e.store).state } := by
  have hrun := onStore_run e x
  cases hx : (x.run e.store).result with
  | ok a =>
    rw [hx] at hrun
    obtain ⟨answer, u, events, ha⟩ := hg a { e with store := (x.run e.store).state }
    rw [Op.run_bind_ok hrun, ha] at hf
    cases hf
  | error cause =>
    rw [hx] at hrun
    rw [Op.run_bind_error hrun] at hf ⊢
    cases hf
    exact ⟨rfl, rfl⟩

theorem onStore_refused {c : Command}
    (hg : ∀ a f, ∃ answer u events, (g a).run f = ⟨.ok answer, u, events⟩)
    (hf : ((onStore x >>= g).run e).result = .error failure)
    (hx : (x.run e.store).result = .error failure →
      (x.run e.store).state = c.residue e.store failure) :
    ((onStore x >>= g).run e).state = e.refused c failure := by
  obtain ⟨hresult, hstate⟩ := onStore_failed hg hf
  rw [hstate, hx hresult]
  rfl

section

variable (hw : e.store.WellFormed) (hr : ∀ p c, e.store.pools.get? p = some c → 0 < c.references)
  (href : failure.isRefusal = true)

include hw hr href

theorem perform_refused {q : Request} (hq : (Command.ask q).isPooled = true)
    (hf : (q.perform.run e).result = .error failure) :
    (q.perform.run e).state = e.refused (.ask q) failure := by
  cases q with
  | create r size =>
    exact onStore_refused (fun _ _ => ⟨_, _, _, rfl⟩) hf fun hx => Store.create_refused hw hr hx href
  | createIn p size =>
    exact onStore_refused (fun _ _ => ⟨_, _, _, rfl⟩) hf fun hx => Store.createIn_refused hw hr hx href
  | destroy h =>
    exact onStore_refused (fun _ _ => ⟨_, _, _, rfl⟩) hf fun hx => Store.destroy_refused hw hx href
  | fromRaw h => exact onStore_refused (fun _ _ => ⟨_, _, _, rfl⟩) hf Store.fromRaw_refused
  | holdSize r size => exact onStore_refused (fun _ _ => ⟨_, _, _, rfl⟩) hf Store.hold_refused
  | shrinkToFit p =>
    rw [Request.perform, onStore_bind] at hf ⊢
    refine onStore_refused (fun _ _ => ⟨_, _, _, rfl⟩) hf fun hx => ?_
    exact Store.checkUnused_refused (Store.shrinkToFit_refused hw) hx
  | _ => cases hq

theorem run_refused {c : Command} (hc : c.isPooled = true) (hf : (c.run.run e).result = .error failure) :
    (c.run.run e).state = e.refused c failure := by
  cases c with
  | ask q =>
    rw [Command.run, ask_run] at hf ⊢
    split at hf
    · next hallows =>
      rw [if_pos hallows]
      exact perform_refused hw hr href hc hf
    · cases hf
  | allocateBlock p owner =>
    rw [Command.run, onStore_bind] at hf ⊢
    refine onStore_refused (fun _ _ => ⟨_, _, _, rfl⟩) hf fun hx => ?_
    exact Store.checkUnused_refused (Store.allocateBlock_refused hw) hx
  | freeBlock p payload owner =>
    rw [Command.run, onStore_bind] at hf ⊢
    refine onStore_refused (fun _ _ => ⟨_, _, _, rfl⟩) hf fun hx => ?_
    exact Store.checkUnused_refused (fun hfree => Store.freeBlock_refused hw hfree href) hx
  | openOwner size => cases hc
  | updateLocation h location => cases hc

end

theorem owned_ended (he : e.store.Owned) {vs : List (Turn Command)}
    (hv : ∀ v ∈ vs, v.action = .ask .endAccess) : (e.after Command.run vs).store.Owned := by
  induction vs generalizing e with
  | nil => exact he
  | cons v vs ih =>
    have hv' : v.action.isAccess = true := by
      rw [hv v List.mem_cons_self]
      rfl
    have hstep := (turn_accessed (e := e) hv').1
    refine ih ?_ fun u hu => hv u (List.mem_cons_of_mem v hu)
    apply he.congr hstep.handles_eq
    intro p d hd
    obtain ⟨readers, hc⟩ := hstep.pools hd
    exact ⟨_, hc, rfl⟩

theorem Guarded.perform_isRefusal (he : e.Guarded) {q : Request}
    (hq : (Command.ask q).isPooled = true) (hallows : e.allows q = true)
    (hf : (q.perform.run e).result = .error failure) : failure.isRefusal = true := by
  cases q with
  | create r size =>
    exact Store.create_isRefusal he.consistent hallows (onStore_failed (fun _ _ => ⟨_, _, _, rfl⟩) hf).1
  | createIn p size =>
    obtain ⟨c, hc⟩ := he.consistent.exists_of_held (of_decide_eq_true hallows)
    exact Store.createIn_isRefusal hc (he.consistent.wellFormed p c hc) (he.consistent.positive hc)
      (onStore_failed (fun _ _ => ⟨_, _, _, rfl⟩) hf).1
  | destroy h =>
    obtain ⟨p, c, -, -, hresult⟩ := he.destroy_result (of_decide_eq_true (Bool.and_eq_true_iff.mp hallows).1)
    rw [hresult] at hf
    split at hf
    · cases hf
      rfl
    · split at hf
      · cases hf
        rfl
      · cases hf
  | fromRaw h =>
    have hh : (e.store.handles.get? h).isSome := by
      have hreach := (Bool.and_eq_true_iff.mp hallows).1
      rw [reaches, Bool.or_eq_true, decide_eq_true_eq] at hreach
      rcases hreach with hmem | htemporary
      · obtain ⟨a, p, w, ha, -⟩ := he.consistent.toPlaced.contents_isSome.mp ((he.strings_iff h).mp hmem)
        rw [ha]
        rfl
      · cases ha : e.store.handles.get? h with
        | some a => rfl
        | none =>
          rw [ha] at htemporary
          cases htemporary
    exact Store.fromRaw_isRefusal hh (onStore_failed (fun _ _ => ⟨_, _, _, rfl⟩) hf).1
  | holdSize r size =>
    exact Store.hold_isRefusal he.consistent hallows (onStore_failed (fun _ _ => ⟨_, _, _, rfl⟩) hf).1
  | shrinkToFit p =>
    rcases he.shrinkToFit_result (of_decide_eq_true hallows) with ⟨hresult, -⟩ | ⟨hresult, -⟩
    · rw [hresult] at hf
      cases hf
      rfl
    · rw [hresult] at hf
      cases hf
  | _ => cases hq

theorem Guarded.turn_isRefusal (he : e.Guarded) {t : Turn Request}
    (hq : t.asked.action.isPooled = true) (hf : (e.turn Request.ask t).result = .error failure) :
    failure.isRefusal = true := by
  cases hallows : e.allows t.action with
  | true =>
    rw [turn_allowed hallows] at hf
    exact (he.prepared t).perform_isRefusal hq ((e.prepared_allows t t.action).trans hallows) hf
  | false =>
    rw [turn_barred hallows] at hf
    cases hf

theorem Guarded.destroy_failed (he : e.Guarded) {t : Turn Request} (ht : t.action = .destroy h)
    (hf : (e.turn Request.ask t).result = .error failure) :
    let f := (e.turn Request.ask t).state
    (failure = .fault .poolInUse ∨ ∃ block, failure = .fault (.wrongThread block)) ∧
      h ∈ f.strings ∧ f.isOwned h = false ∧ f.store.contents = e.store.contents := by
  intro f
  cases hq : e.allows t.action with
  | false =>
    rw [turn_barred hq] at hf
    cases hf
  | true =>
    have hcontents : f.store.contents = e.store.contents := by
      obtain ⟨-, hcontents, -⟩ := turn_step he.toValid t
      rw [hf, ht] at hcontents
      exact hcontents
    have hturn := turn_allowed hq
    rw [ht] at hq
    have hmem : h ∈ e.strings := of_decide_eq_true (Bool.and_eq_true_iff.mp hq).1
    rw [ht] at hturn
    rw [hturn] at hf
    obtain ⟨hresult, hstate⟩ := onStore_failed (fun _ _ => ⟨_, _, _, rfl⟩) hf
    have hf' : f = { e.prepared t with store := ((Store.destroy h).run (e.prepared t).store).state } :=
      (congrArg Outcome.state hturn).trans hstate
    obtain ⟨b, hb⟩ := Option.isSome_iff_exists.mp (((he.prepared t).strings_iff h).mp hmem)
    obtain ⟨hcause, hhandles⟩ := Store.destroy_failed (he.prepared t).consistent hb hresult
    refine ⟨hcause, ?_, ?_, hcontents⟩
    · rw [hf']
      exact hmem
    · rw [isOwned, hf']
      simp only [hhandles, Table.get?_modify, ↓reduceIte, Option.map_map]
      cases (e.prepared t).store.handles.get? h <;> rfl

theorem Guarded.still_stored (he : e.Guarded) (hm : h ∈ e.strings) {us : List (Turn Request)}
    (hd : (.destroy h, .ok .done) ∉ e.reports Request.ask us) :
    let g := e.after Request.ask us
    h ∈ g.strings ∧
      (∃ a p c i w, g.store.handles.get? h = some a ∧ a.location = .block p w ∧
        g.store.pools.get? p = some c ∧ c.pool.Owns i h ∧ c.pool.place i = .ok w) ∧
      g.store.contents h = Contents.replay e.store.contents (e.reports Request.ask us) h := by
  intro g
  have hg : g.Guarded := he.after us
  have hcontents := congrFun (contents_after he.toValid us) h
  have hsome : (g.store.contents h).isSome := by
    rw [hcontents]
    exact Contents.replay_isSome ((he.strings_iff h).mp hm) hd
  obtain ⟨a, p, w, ha, hl⟩ := hg.consistent.toPlaced.contents_isSome.mp hsome
  obtain ⟨c, i, hc, hi, rfl⟩ := hg.consistent.toPlaced.located ha hl
  have hw := hg.consistent.wellFormed p c hc
  exact ⟨(hg.strings_iff h).mpr hsome, ⟨a, p, c, i, _, ha, hl, hc, hi,
    hw.place_eq (Nat.lt_of_lt_of_le hi.1 hw.len_le)⟩, hcontents⟩

end Engine

open Engine

theorem refused_after (ts : List (Turn Command)) {t : Turn Command} {failure : Failure}
    (hq : t.action.isPooled = true) (href : failure.isRefusal = true)
    (hf : ((start.after Command.run ts).turn Command.run t).result = .error failure) :
    ((start.after Command.run ts).turn Command.run t).state =
      ((start.after Command.run ts).prepared t).refused t.action failure :=
  run_refused (e := (start.after Command.run ts).prepared t) (wellFormed_after ts)
    (fun _ _ hc => referenced_after ts hc) href hq hf

theorem serves_after (ts : List (Turn Command)) {p : PoolId} {c : SharedPool} {v : Turn Command}
    (ho : (start.after Command.run ts).store.Owned)
    (hc : (start.after Command.run ts).store.pools.get? p = some c) (hu : c.readers = 0)
    (hv : v.thread = c.pool.ownerThread) :
    ((start.after Command.run ts).prepared v).store.Gives p c ∧
      ((start.after Command.run ts).prepared v).store.Takes p c := by
  have hw := wellFormed_after ts p c hc
  have hp : ((start.after Command.run ts).prepared v).store.pools.get? p = some c := hc
  have ho' : ((start.after Command.run ts).prepared v).store.Owned :=
    ho.congr rfl fun hd => ⟨_, hd, rfl⟩
  exact ⟨Store.gives hp hw (referenced_after ts hc) hu hv, Store.takes ho' hp hw hv⟩

/-- A refused operation on pools leaves every pool its chunks, headers and bytes and every handle its
size, its place and its bytes. There may be one more pool, which is empty; a string that was not
destroyed has no owner; and if the operation was to create a string and has ended in a fault, the pool
has one more reference, held by one more handle that has no bytes. All else is as it was. After it, once
no access is under way, each pool gives and takes back blocks on its own thread. If every block has an
owner that can be told of its moves, no block is ever left halfway between two slots. That is so wherever
the pools are used through strings alone; there every failure is a refusal, and a string whose
destruction is refused lives on and follows its block. -/
theorem refusals_leave_pools (ts : List (Turn Command)) (us : List (Turn Request)) :
    (∀ (t : Turn Command) failure, t.action.isPooled = true →
      let e := start.after Command.run ts
      let f := (e.turn Command.run t).state
      (e.turn Command.run t).result = .error failure → failure.isRefusal = true →
      f = (e.prepared t).refused t.action failure ∧ e.store.Kept f.store ∧
        (∀ a, f.store.bytes? a = e.store.bytes? a) ∧
        (e.store.Owned → ∀ vs : List (Turn Command), (∀ v ∈ vs, v.action = .ask .endAccess) →
          let g := f.after Command.run vs
          ∀ p c (v : Turn Command), g.store.pools.get? p = some c → c.readers = 0 →
            v.thread = c.pool.ownerThread →
            (g.prepared v).store.Gives p c ∧ (g.prepared v).store.Takes p c)) ∧
    (∀ (t : Turn Command) p payload owner failure,
      let e := start.after Command.run ts
      e.store.Owned → (e.store.pools.get? p).isSome → t.action = .freeBlock p payload owner →
      (e.turn Command.run t).result = .error failure → failure.isRefusal = true) ∧
    let e := start.after Request.ask us
    e.store.Owned ∧
    (∀ (t : Turn Request) failure, t.asked.action.isPooled = true →
      (e.turn Request.ask t).result = .error failure → failure.isRefusal = true) ∧
    ∀ (t : Turn Request) h failure, t.action = .destroy h →
      (e.turn Request.ask t).result = .error failure →
      let f := (e.turn Request.ask t).state
      (failure = .fault .poolInUse ∨ ∃ block, failure = .fault (.wrongThread block)) ∧
      f.isOwned h = false ∧
      ∀ vs, (.destroy h, .ok .done) ∉ f.reports Request.ask vs →
        let g := f.after Request.ask vs
        h ∈ g.strings ∧
        (∃ a p c i w, g.store.handles.get? h = some a ∧ a.location = .block p w ∧
          g.store.pools.get? p = some c ∧ c.pool.Owns i h ∧ c.pool.place i = .ok w) ∧
        g.store.contents h = Contents.replay e.store.contents (f.reports Request.ask vs) h := by
  refine ⟨?_, ?_, ?_⟩
  · intro t failure hq e f hf href
    have hrefused : f = (e.prepared t).refused t.action failure := refused_after ts hq href hf
    have hkept : e.store.Kept f.store := by
      have hresidue := t.action.residue_kept (e.prepared t).store failure
      rw [hrefused]
      exact ⟨hresidue.pools, hresidue.handles, hresidue.newPools, hresidue.arenas_eq⟩
    refine ⟨hrefused, hkept, hkept.bytes?_eq, fun ho vs hvs => ?_⟩
    intro g p c v hc hu hv
    have hg : g = start.after Command.run (ts ++ t :: vs) := by
      rw [after_append]
      rfl
    have hog : g.store.Owned := owned_ended (hkept.owned ho) hvs
    rw [hg] at hc hog ⊢
    exact serves_after (ts ++ t :: vs) hog hc hu hv
  · intro t p payload owner failure e ho hp ht hf
    obtain ⟨c, hc⟩ := Option.isSome_iff_exists.mp hp
    have ho' : (e.prepared t).store.Owned := ho.congr rfl fun hd => ⟨_, hd, rfl⟩
    rw [turn, ht, Command.run, onStore_bind] at hf
    exact ho'.freeBlock_isRefusal hc (wellFormed_after ts p c hc)
      (onStore_failed (fun _ _ => ⟨_, _, _, rfl⟩) hf).1
  · intro e
    have he : e.Guarded := start_guarded.after us
    refine ⟨he.consistent.toPlaced.owned, fun t failure => he.turn_isRefusal, ?_⟩
    intro t h failure ht hf f
    obtain ⟨hcause, hmem, howned, hcontents⟩ := he.destroy_failed ht hf
    refine ⟨hcause, howned, fun vs hd => ?_⟩
    rw [← hcontents]
    exact (he.turn t).still_stored hmem hd

def destroyingRun : List (Turn Request) :=
  [⟨.openRegistry 128 (by decide) .mayDropItems, 0, some⟩, ⟨.create ⟨0⟩ 8, 0, some⟩,
    ⟨.create ⟨0⟩ 8, 0, some⟩, ⟨.read ⟨1⟩, 0, some⟩]

theorem refusals_leave_pools_while_read :
    let e := start.after Request.ask destroyingRun
    let f := (e.turn Request.ask ⟨.destroy ⟨0⟩, 0, some⟩).state
    let g := f.after Request.ask [⟨.endAccess, 0, some⟩, ⟨.destroy ⟨1⟩, 0, some⟩]
    let d := start.after Command.run (destroyingRun.map Turn.asked)
    let k := (d.turn Command.run ⟨.ask (.create ⟨0⟩ 8), 0, some⟩).state
    (f.isOwned ⟨0⟩ = false ∧ ⟨0⟩ ∈ g.strings ∧ g.store.contents ⟨0⟩ = some (Bytes.zeros 8)) ∧
      d.store.references ⟨0⟩ = 3 ∧ d.store.handles.get? ⟨2⟩ = none ∧
      k.store.references ⟨0⟩ = 4 ∧ k.store.handles.get? ⟨2⟩ = some (.pooled ⟨0⟩ 8) := by
  intro e f g d k
  have hresult : (e.turn Request.ask ⟨.destroy ⟨0⟩, 0, some⟩).result = .error (.fault .poolInUse) := by rfl
  obtain ⟨hrefused, -, -, -, hdestroys⟩ :=
    refusals_leave_pools (destroyingRun.map Turn.asked) destroyingRun
  obtain ⟨-, howned, hlives⟩ := hdestroys ⟨.destroy ⟨0⟩, 0, some⟩ ⟨0⟩ _ rfl hresult
  obtain ⟨hmem, -, hcontents⟩ := hlives [⟨.endAccess, 0, some⟩, ⟨.destroy ⟨1⟩, 0, some⟩] (by
    simp [reports])
  have hcreate : (d.turn Command.run ⟨.ask (.create ⟨0⟩ 8), 0, some⟩).result =
      .error (.fault .poolInUse) := by rfl
  obtain ⟨hk, -⟩ := hrefused ⟨.ask (.create ⟨0⟩ 8), 0, some⟩ _ rfl hcreate rfl
  refine ⟨⟨howned, hmem, hcontents.trans ?_⟩, ?_, ?_, ?_, ?_⟩
  · decide +kernel
  · decide +kernel
  · decide +kernel
  · exact (congrArg (fun f : Engine => f.store.references ⟨0⟩) hk).trans (by decide +kernel)
  · exact (congrArg (fun f : Engine => f.store.handles.get? ⟨2⟩) hk).trans (by decide +kernel)

end OffRow
