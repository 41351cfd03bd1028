import OffRow.Proofs.PoolTeardown
import OffRow.Proofs.Routing
/-!
The books of a run. What was asked and answered tells which strings were created through which
registry, which of them were destroyed since, and for which classes each registry was asked.
-/

namespace OffRow

/-- What is not open to all: a pool outside the registries, and a string in a pool of one's choice. -/
def Request.isPublic : Request → Bool
  | .openPool .. | .createIn .. => false
  | _ => true

abbrev Report := Request × Except Failure Answer

structure Birth where
  registry : RegistryId
  size : Nat
  handle : HandleId
  deriving DecidableEq

def Birth.class? (b : Birth) : Option SizeClass := (SizeClass.forSize b.size).toOption

namespace Report

def birth? : Report → Option Birth
  | (.create r size, .ok (.string h)) => some ⟨r, size, h⟩
  | _ => none

def death? : Report → Option HandleId
  | (.destroy h, .ok .done) => some h
  | _ => none

def asked? : Report → Option (RegistryId × SizeClass)
  | (_, .ok .barred) => none
  | (q, _) => q.asks?

variable {report : Report} {b : Birth} {h : HandleId}

theorem birth?_eq_some :
    report.birth? = some b ↔ report = (.create b.registry b.size, .ok (.string b.handle)) := by
  constructor
  · intro hb
    unfold birth? at hb
    split at hb
    · cases hb
      rfl
    · cases hb
  · rintro rfl
    rfl

theorem death?_eq_some : report.death? = some h ↔ report = (.destroy h, .ok .done) := by
  constructor
  · intro hd
    unfold death? at hd
    split at hd
    · cases hd
      rfl
    · cases hd
  · rintro rfl
    rfl

end Report

theorem Contents.next_isSome_iff {m : Contents} {report : Report} {h : HandleId}
    (hp : report.1.isPublic = true) :
    (next m report h).isSome ↔
      (∃ b, report.birth? = some b ∧ b.handle = h) ∨ (m h).isSome ∧ report.death? ≠ some h := by
  unfold next
  split
  · next r size x =>
    by_cases hx : h = x
    · simp [hx, Report.birth?]
    · simp [hx, Ne.symm hx, Report.birth?, Report.death?]
  · cases hp
  · next x =>
    by_cases hx : h = x
    · simp [hx, Report.birth?, Report.death?]
    · simp [hx, Ne.symm hx, Report.birth?, Report.death?]
  · next x start data =>
    by_cases hx : h = x
    · simp [hx, Report.birth?, Report.death?]
    · simp [hx, Report.birth?, Report.death?]
  · next hcreate _ hdestroy _ =>
    have hb : ∀ b, report.birth? ≠ some b := fun b hb =>
      hcreate _ _ _ (Report.birth?_eq_some.mp hb)
    have hd : report.death? ≠ some h := fun hd => hdestroy _ (Report.death?_eq_some.mp hd)
    simp [hb, hd]

namespace Ledger

variable (past : List Report) (r : RegistryId) (c : SizeClass)

def born : List Birth := past.filterMap Report.birth?

def died : List HandleId := past.filterMap Report.death?

def asked : List SizeClass :=
  (past.filterMap Report.asked?).filterMap fun route => if route.1 = r then some route.2 else none

def bornIn : List Birth := (born past).filter (·.registry = r)

/-- The strings of a registry that were not destroyed, be they raw, leaked or refused. -/
def remaining : List Birth := (bornIn past r).filter fun b => !(died past).contains b.handle

def remainingOf : List Birth := (remaining past r).filter (·.class? = some c)

variable {past r c} {report : Report} {b : Birth} {h : HandleId}

theorem born_append (past : List Report) (report : Report) :
    born (past ++ [report]) = born past ++ report.birth?.toList := by
  rw [born, List.filterMap_append, ← born]
  cases hb : report.birth? <;> simp [hb]

theorem died_append (past : List Report) (report : Report) :
    died (past ++ [report]) = died past ++ report.death?.toList := by
  rw [died, List.filterMap_append, ← died]
  cases hd : report.death? <;> simp [hd]

theorem mem_born_append :
    b ∈ born (past ++ [report]) ↔ b ∈ born past ∨ report.birth? = some b := by
  rw [born_append, List.mem_append, Option.mem_toList]

theorem mem_died_append :
    h ∈ died (past ++ [report]) ↔ h ∈ died past ∨ report.death? = some h := by
  rw [died_append, List.mem_append, Option.mem_toList]

theorem mem_asked :
    c ∈ asked past r ↔ ∃ report ∈ past, report.asked? = some (r, c) := by
  simp only [asked, List.mem_filterMap]
  constructor
  · rintro ⟨⟨x, d⟩, ⟨report, hm, hr⟩, hx⟩
    split at hx
    · next he =>
      cases hx
      exact ⟨report, hm, he ▸ hr⟩
    · cases hx
  · rintro ⟨report, hm, hr⟩
    exact ⟨(r, c), ⟨report, hm, hr⟩, if_pos rfl⟩

theorem mem_asked_append :
    c ∈ asked (past ++ [report]) r ↔ c ∈ asked past r ∨ report.asked? = some (r, c) := by
  simp only [mem_asked, List.mem_append, List.mem_singleton, or_and_right, exists_or, exists_eq_left]

theorem mem_remaining : b ∈ remaining past r ↔ b ∈ born past ∧ b.registry = r ∧ b.handle ∉ died past := by
  simp only [remaining, bornIn, List.mem_filter, List.contains_eq_mem, Bool.not_eq_true',
    decide_eq_false_iff_not, decide_eq_true_eq, and_assoc]

theorem mem_remainingOf :
    b ∈ remainingOf past r c ↔
      b ∈ born past ∧ b.registry = r ∧ b.handle ∉ died past ∧ b.class? = some c := by
  rw [remainingOf, List.mem_filter, mem_remaining, decide_eq_true_eq, and_assoc, and_assoc]

end Ledger

open Ledger Store

namespace Engine

variable {e : Engine} {b : Birth} {h : HandleId} {r : RegistryId} {c : SizeClass} {p : PoolId}
  {past : List Report}

structure Houses (e : Engine) (b : Birth) (c : SizeClass) (p : PoolId) : Prop where
  class_eq : b.class? = some c
  size_eq : (e.store.handles.get? b.handle).map Handle.size = some b.size
  pool_eq : e.poolOf b.handle = some p
  only : ∀ {r d}, e.store.poolFor r d = some p → r = b.registry ∧ d = c
  routed : (e.store.registries.get? b.registry).isSome → e.store.poolFor b.registry c = some p

theorem Houses.lt_next (hb : e.Houses b c p) : b.handle.number < e.store.handles.next.number := by
  obtain ⟨a, ha, -⟩ := Option.map_eq_some_iff.mp hb.size_eq
  exact Table.lt_next ha

theorem Guarded.turn_handles_le (he : e.Guarded) (t : Turn Request) :
    e.store.handles.next.number ≤ (e.turn Request.ask t).state.store.handles.next.number := by
  cases ht : t.action.isAccess with
  | true => rw [(turn_request_accessed ht).handles_eq]
  | false => exact (turn_request_evolves he ht).store.handles_le

theorem Valid.turn_strings (he : e.Valid) {t : Turn Request} (hp : t.action.isPublic = true) :
    h ∈ (e.turn Request.ask t).state.strings ↔
      (∃ b, Report.birth? (t.action, (e.turn Request.ask t).result) = some b ∧ b.handle = h) ∨
        h ∈ e.strings ∧ Report.death? (t.action, (e.turn Request.ask t).result) ≠ some h := by
  obtain ⟨hvalid, hcontents, -⟩ := turn_step he t
  rw [hvalid.strings_iff, hcontents, he.strings_iff]
  exact Contents.next_isSome_iff hp

theorem allows_of_answer {t : Turn Request} {answer : Answer}
    (hr : (e.turn Request.ask t).result = .ok answer) (hn : answer ≠ .barred) :
    e.allows t.action = true := by
  by_contra hq
  rw [turn_barred (eq_false_of_ne_true hq)] at hr
  cases hr
  exact hn rfl

theorem turn_death {t : Turn Request}
    (hd : Report.death? (t.action, (e.turn Request.ask t).result) = some h) : h ∈ e.strings := by
  obtain ⟨ht, hr⟩ := Prod.mk.inj (Report.death?_eq_some.mp hd)
  have hq := allows_of_answer hr nofun
  rw [ht, allows] at hq
  exact of_decide_eq_true (Bool.and_eq_true_iff.mp hq).1

theorem Routed.turn_birth (he : e.Routed) {t : Turn Request}
    (hb : Report.birth? (t.action, (e.turn Request.ask t).result) = some b) :
    b.handle = e.store.handles.next ∧ (e.store.registries.get? b.registry).isSome ∧
      ∃ c p, (e.turn Request.ask t).state.Houses b c p := by
  obtain ⟨ht, hr⟩ := Prod.mk.inj (Report.birth?_eq_some.mp hb)
  have hq := allows_of_answer hr nofun
  have hafter := he.turn t
  rw [turn_allowed hq, ht] at hr hafter ⊢
  rw [ht] at hq
  obtain ⟨registry, hregistry⟩ := Option.isSome_iff_exists.mp hq
  have hresult := receive_result (e.prepared t) (Store.create b.registry b.size)
  have hstate := receive_store (e := e.prepared t) (Store.create b.registry b.size)
  rw [Request.perform] at hr hafter ⊢
  rw [hr] at hresult
  cases hcreate : ((Store.create b.registry b.size).run (e.prepared t).store).result with
  | error failure =>
    rw [hcreate] at hresult
    cases hresult
  | ok h =>
    rw [hcreate] at hresult
    cases hresult
    obtain ⟨hnext, c, p, a, hsize, hpool, ha, hsize', hpool'⟩ :=
      (he.toValid.prepared t).consistent.create_string hregistry hcreate
    rw [← hstate] at hpool ha
    refine ⟨hnext, hq, c, p, ?_, ?_, ?_, fun hp => hafter.injective hp hpool, fun _ => hpool⟩
    · rw [Birth.class?, hsize]
      rfl
    · rw [ha, Option.map_some, hsize']
    · rw [poolOf, ha, Option.bind_some, hpool']

theorem Routed.turn_houses (he : e.Routed) {t : Turn Request} (hb : e.Houses b c p)
    (hr : b.registry.number < e.store.registries.next.number) (hs : b.handle ∈ e.strings)
    (hs' : b.handle ∈ (e.turn Request.ask t).state.strings) :
    (e.turn Request.ask t).state.Houses b c p := by
  have hsome := (he.strings_iff _).mp hs
  have hsome' := ((he.turn t).strings_iff _).mp hs'
  obtain ⟨a, a', ha, ha', hsize, -⟩ := he.turn_handle t hsome hsome'
  refine ⟨hb.class_eq, ?_, (he.turn_poolOf_stored t hsome hsome').trans hb.pool_eq, fun hp => ?_,
    fun hlive => ?_⟩
  · rw [ha', Option.map_some, hsize, ← Option.map_some, ← ha]
    exact hb.size_eq
  · rcases (he.turn_poolFor t).mp hp with ⟨hp, -⟩ | ⟨-, -, -, rfl⟩
    · exact hb.only hp
    · obtain ⟨q, cell, -, hq, hcell, -⟩ := he.toValid.exists_pool hsome
      cases hq.symm.trans hb.pool_eq
      rw [Table.get?_next] at hcell
      cases hcell
  · rcases (he.turn_live t).mp hlive with ⟨hold, hkept⟩ | ⟨-, hnew⟩
    · exact (he.turn_poolFor t).mpr (.inl ⟨hb.routed hold, hkept⟩)
    · exact absurd (hnew ▸ hr) (Nat.lt_irrefl _)

theorem turn_asked (e : Engine) (t : Turn Request) :
    Report.asked? (t.action, (e.turn Request.ask t).result) = some (r, c) ↔
      e.allows t.action = true ∧ t.action.asks? = some (r, c) := by
  cases hq : e.allows t.action with
  | false => simp [turn_barred hq, Report.asked?]
  | true =>
    have hasks : ∀ result : Except Failure Answer, result ≠ .ok .barred →
        Report.asked? (t.action, result) = t.action.asks? := by
      intro result hn
      unfold Report.asked?
      split
      · next heq =>
        cases heq
        exact absurd rfl hn
      · next heq =>
        cases heq
        rfl
    constructor
    · intro ha
      refine ⟨rfl, ?_⟩
      rw [← hasks _ fun hbarred => ?_]
      · exact ha
      · rw [hbarred] at ha
        cases ha
    · rintro ⟨-, ha⟩
      obtain ⟨β, use, answer, hanswer, -, -, hrun⟩ := Request.perform_asks ha
      rw [hasks _ fun hbarred => ?_, ha]
      rw [turn_allowed hq, (hrun (e.prepared t)).2] at hbarred
      cases hresult : ((poolForClass r c >>= use).run (e.prepared t).store).result with
      | error failure =>
        rw [hresult] at hbarred
        cases hbarred
      | ok b =>
        rw [hresult] at hbarred
        exact hanswer b (Except.ok.inj hbarred)

structure Balanced (past : List Report) (e : Engine) : Prop extends Routed e where
  numbered : ∀ b ∈ born past, b.handle.number < e.store.handles.next.number ∧
    b.registry.number < e.store.registries.next.number
  distinct : ((born past).map Birth.handle).Nodup
  once : (died past).Nodup
  died_born : ∀ h ∈ died past, ∃ b ∈ born past, b.handle = h
  living : ∀ h, h ∈ e.strings ↔ (∃ b ∈ born past, b.handle = h) ∧ h ∉ died past
  housed : ∀ b ∈ born past, b.handle ∉ died past → ∃ c p, e.Houses b c p
  asked_lt : ∀ r c, c ∈ asked past r → r.number < e.store.registries.next.number
  asked_iff : ∀ r c, (e.store.registries.get? r).isSome →
    (c ∈ asked past r ↔ (e.store.poolFor r c).isSome)

theorem Balanced.turn_distinct (he : e.Balanced past) {t : Turn Request} {b' : Birth}
    (hb' : b' ∈ born past) (hb : Report.birth? (t.action, (e.turn Request.ask t).result) = some b) :
    b'.handle ≠ b.handle := by
  intro heq
  have hlt := (he.numbered b' hb').1
  rw [heq, (he.turn_birth hb).1] at hlt
  exact Nat.lt_irrefl _ hlt

theorem Balanced.turn_living (he : e.Balanced past) {t : Turn Request}
    (hp : t.action.isPublic = true) (h : HandleId) :
    let past' := past ++ [(t.action, (e.turn Request.ask t).result)]
    h ∈ (e.turn Request.ask t).state.strings ↔ (∃ b ∈ born past', b.handle = h) ∧ h ∉ died past' := by
  intro past'
  rw [he.toValid.turn_strings hp, he.living, mem_died_append]
  simp only [past', mem_born_append]
  constructor
  · rintro (⟨b, hb, rfl⟩ | ⟨⟨⟨b, hb, rfl⟩, hdied⟩, hd⟩)
    · refine ⟨⟨b, .inr hb, rfl⟩, ?_⟩
      rintro (hdied | hd)
      -- A number is given out once, so what died before is not what is born now.
      · obtain ⟨b', hb', heq⟩ := he.died_born _ hdied
        exact he.turn_distinct hb' hb heq
      · rw [Report.birth?_eq_some.mp hb] at hd
        cases hd
    · exact ⟨⟨b, .inl hb, rfl⟩, not_or.mpr ⟨hdied, hd⟩⟩
  · rintro ⟨⟨b, hb | hb, rfl⟩, hdied⟩
    · exact .inr ⟨⟨⟨b, hb, rfl⟩, (not_or.mp hdied).1⟩, (not_or.mp hdied).2⟩
    · exact .inl ⟨b, hb, rfl⟩

theorem Balanced.turn_asked_iff (he : e.Balanced past) {t : Turn Request} {r : RegistryId}
    {c : SizeClass} (hlive : ((e.turn Request.ask t).state.store.registries.get? r).isSome) :
    c ∈ asked (past ++ [(t.action, (e.turn Request.ask t).result)]) r ↔
      ((e.turn Request.ask t).state.store.poolFor r c).isSome := by
  rw [mem_asked_append, turn_asked, Option.isSome_iff_exists]
  simp only [he.turn_poolFor t]
  rcases (he.turn_live t).mp hlive with ⟨hold, hkept⟩ | ⟨⟨n, pos, policy, ht⟩, rfl⟩
  · rw [he.asked_iff r c hold]
    cases hpool : e.store.poolFor r c with
    | some p => simp [hkept]
    | none => simp [hkept]
  -- A registry that has just been opened was asked for nothing.
  · have hnone : e.store.poolFor e.store.registries.next c = none := by
      rw [poolFor, Table.get?_next, Option.bind_none]
    have hasks : t.action.asks? = none := by
      rw [ht]
      rfl
    have hnew : c ∉ asked past e.store.registries.next := fun hc =>
      Nat.lt_irrefl _ (he.asked_lt _ c hc)
    simp [hnone, hasks, hnew]

theorem Balanced.turn (he : e.Balanced past) {t : Turn Request} (hp : t.action.isPublic = true) :
    (e.turn Request.ask t).state.Balanced (past ++ [(t.action, (e.turn Request.ask t).result)]) := by
  have hafter := he.toRouted.turn t
  have hhandles := he.toGuarded.turn_handles_le t
  have hregistries := he.turn_registries_le t
  refine ⟨hafter, ?numbered, ?distinct, ?once, ?died_born, ?living, ?housed, ?asked_lt, ?asked_iff⟩
  case numbered =>
    intro b hb
    rcases mem_born_append.mp hb with hb | hb
    · have hlt := he.numbered b hb
      exact ⟨Nat.lt_of_lt_of_le hlt.1 hhandles, Nat.lt_of_lt_of_le hlt.2 hregistries⟩
    · obtain ⟨-, hlive, c, p, hhouses⟩ := he.turn_birth hb
      exact ⟨hhouses.lt_next, Nat.lt_of_lt_of_le (lt_next_of_live hlive) hregistries⟩
  case distinct =>
    rw [born_append, List.map_append]
    refine he.distinct.append ?_ fun h hold hnew => ?_
    · cases Report.birth? (t.action, (e.turn Request.ask t).result) <;> simp
    · obtain ⟨b, hb, rfl⟩ := List.mem_map.mp hnew
      obtain ⟨b', hb', heq⟩ := List.mem_map.mp hold
      exact he.turn_distinct hb' (Option.mem_toList.mp hb) heq
  case once =>
    rw [died_append]
    refine he.once.append ?_ fun h hold hd => ?_
    · cases Report.death? (t.action, (e.turn Request.ask t).result) <;> simp
    · exact ((he.living h).mp (turn_death (Option.mem_toList.mp hd))).2 hold
  case died_born =>
    intro h hh
    rcases mem_died_append.mp hh with hh | hd
    · obtain ⟨b, hb, heq⟩ := he.died_born h hh
      exact ⟨b, mem_born_append.mpr (.inl hb), heq⟩
    · obtain ⟨b, hb, heq⟩ := ((he.living h).mp (turn_death hd)).1
      exact ⟨b, mem_born_append.mpr (.inl hb), heq⟩
  case living => exact he.turn_living hp
  case housed =>
    intro b hb hdied
    rcases mem_born_append.mp hb with hb | hb
    · obtain ⟨hdied, hd⟩ := not_or.mp fun hdied' => hdied (mem_died_append.mpr hdied')
      have hstring := (he.living b.handle).mpr ⟨⟨b, hb, rfl⟩, hdied⟩
      obtain ⟨c, p, hhouses⟩ := he.housed b hb hdied
      have hkept := (he.toValid.turn_strings hp).mpr (.inr ⟨hstring, hd⟩)
      exact ⟨c, p, he.turn_houses hhouses (he.numbered b hb).2 hstring hkept⟩
    · exact (he.turn_birth hb).2.2
  case asked_lt =>
    intro r c hc
    rcases mem_asked_append.mp hc with hc | hc
    · exact Nat.lt_of_lt_of_le (he.asked_lt r c hc) hregistries
    · obtain ⟨hq, ha⟩ := (turn_asked e t).mp hc
      rw [allows_asks ha] at hq
      exact Nat.lt_of_lt_of_le (lt_next_of_live hq) hregistries
  case asked_iff => exact fun r c hlive => he.turn_asked_iff hlive

theorem start_balanced : start.Balanced [] where
  toRouted := start_routed
  numbered b hb := nomatch hb
  distinct := List.nodup_nil
  once := List.nodup_nil
  died_born h hh := nomatch hh
  living h := by simp [start, born]
  housed b hb := nomatch hb
  asked_lt r c hc := nomatch hc
  asked_iff r c hr := nomatch hr

theorem Balanced.after (he : e.Balanced past) {ts : List (Turn Request)}
    (hp : ∀ t ∈ ts, t.action.isPublic = true) :
    (e.after Request.ask ts).Balanced (past ++ e.reports Request.ask ts) := by
  induction ts generalizing e past with
  | nil => rwa [reports, List.append_nil]
  | cons t ts ih =>
    obtain ⟨ht, hts⟩ := List.forall_mem_cons.mp hp
    rw [reports, ← List.singleton_append, ← List.append_assoc]
    exact ih (he.turn ht) hts

theorem balanced_after {ts : List (Turn Request)} (hp : ∀ t ∈ ts, t.action.isPublic = true) :
    (start.after Request.ask ts).Balanced (start.reports Request.ask ts) :=
  start_balanced.after hp

end Engine

end OffRow
