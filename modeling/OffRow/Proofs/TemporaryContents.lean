import OffRow.Proofs.ArenaStorage
import OffRow.Proofs.Separation
import OffRow.Proofs.Store.Drafts

namespace OffRow

open Store

def written (h : HandleId) (b : ByteArray) : Command × Except Failure Answer → ByteArray
  | (.ask (.overwrite x start data), .ok .done) => if h = x then Bytes.overlay b start data else b
  | _ => b

namespace Store

variable {s t u : Store} {lost lost' : ArenaId → Prop} {change change' : HandleId → ByteArray → ByteArray}

theorem Redrafted.mono (h : s.Redrafted lost change t) (hl : ∀ a, lost a → lost' a)
    (hc : ∀ {k n a w}, s.temporary? k = some (n, .scratch a w) → change' k = change k) :
    s.Redrafted lost' change' t where
  drafted := h.drafted
  temporary?_eq hk hn := h.temporary?_eq hk fun hlost => hn (hl _ hlost)
  draft?_eq hk hn := by
    rw [hc hk]
    exact h.draft?_eq hk fun hlost => hn (hl _ hlost)

end Store

namespace Engine

variable {e f : Engine} {a : ArenaId} {h : HandleId} {n : Nat} {q : Request}

def Redrafts (e : Engine) (c : Command) (o : Outcome Engine Answer) : Prop :=
  e.store.Redrafted (fun a => c.clears a o = true) (fun h b => written h b (c, o.result)) o.state.store

theorem written_of_unreached {c : Command} (hc : c.reachesArenas = false) (h : HandleId) (b : ByteArray)
    (result : Except Failure Answer) : written h b (c, result) = b := by
  unfold written
  split
  · next heq =>
    cases (Prod.mk.inj heq).1
    cases hc
  · rfl

theorem written_barred (h : HandleId) (b : ByteArray) (c : Command) :
    written h b (c, .ok .barred) = b := by
  unfold written
  split
  · next heq => cases (Prod.mk.inj heq).2
  · rfl

theorem redrafts_of_kept {c : Command} {o : Outcome Engine Answer}
    (h : e.store.KeepsDrafts o.state.store) (hw : ∀ h b, written h b (c, o.result) = b) : e.Redrafts c o :=
  h.mono (fun _ => False.elim) fun _ => funext fun b => hw _ b

theorem overwrite_redrafts (hs : e.store.Drafted) (h : HandleId) (start : Nat) (data : ByteArray) :
    e.Redrafts (.ask (.overwrite h start data)) ((Request.overwrite h start data).perform.run e) := by
  by_cases hh : ∃ n a w, e.store.temporary? h = some (n, .scratch a w)
  · obtain ⟨n, a, w, hh⟩ := hh
    obtain ⟨t, hr, ht⟩ := hs.overwrite hh start data
    have hrun := onStore_run e (Store.overwrite h start data)
    rw [hr] at hrun
    rw [Request.perform, Op.run_bind_silent hrun, Op.run_pure]
    exact ht.mono (fun _ => False.elim) fun _ => rfl
  · push Not at hh
    have ht := hs.overwrite_elsewhere hh start data
    rw [Redrafts, Request.perform, answer_store]
    refine ht.mono (fun _ => False.elim) fun {k n a w} hk => funext fun b => ?_
    unfold written
    split
    · next heq =>
      simp only [Prod.mk.injEq, Command.ask.injEq, Request.overwrite.injEq] at heq
      rw [if_neg]
      · rfl
      · rintro rfl
        exact hh n a w (heq.1.1 ▸ hk)
    · rfl

theorem resetArena_redrafts (hs : e.store.Drafted) {arena : Arena}
    (ha : e.store.arenas.get? a = some arena) :
    e.Redrafts (.ask (.resetArena a)) ((Request.resetArena a).perform.run e) := by
  obtain ⟨c, events, hr, hc⟩ := arena.reset_run
  have hreset := onArena_run ha Arena.reset
  rw [hr] at hreset
  have hrun := onStore_run e (Store.resetArena a)
  rw [Store.resetArena, Op.run_bind_ok hreset] at hrun
  have hperform : (Request.resetArena a).perform.run e = _ := Op.run_bind_ok hrun
  rw [Redrafts, hperform]
  refine (hs.clears (a := a) rfl ?_ ?_).mono ?_ fun _ => rfl
  · intro d hd
    cases hd.symm.trans (get?_setArena ha c)
    exact hc
  · exact fun hne => get?_setArena_of_ne hne
  · rintro b rfl
    exact decide_eq_true rfl

theorem dropArena_redrafts (hs : e.store.Drafted) {arena : Arena}
    (ha : e.store.arenas.get? a = some arena) :
    e.Redrafts (.ask (.dropArena a)) ((Request.dropArena a).perform.run e) := by
  have hget : (Store.arena a).run e.store = ⟨.ok arena, e.store, []⟩ := by
    rw [Store.arena, Op.run_get_bind, ha, Op.run_expect_some]
  have hrun := onStore_run e (Store.dropArena a)
  rw [Store.dropArena, Op.run_bind_silent hget] at hrun
  have hperform : (Request.dropArena a).perform.run e = _ := Op.run_bind_ok hrun
  rw [Redrafts, hperform]
  refine (hs.clears (a := a) rfl ?_ ?_).mono ?_ fun _ => rfl
  · intro d hd
    cases hd.symm.trans ((Table.get?_erase _ _ _).trans (if_pos rfl))
  · exact fun hne => (Table.get?_erase _ _ _).trans (if_neg hne)
  · rintro b rfl
    exact decide_eq_true rfl

theorem perform_redrafts (hs : e.store.Drafted) (hq : e.allows q = true)
    (hc : (Command.ask q).reachesArenas = true) : e.Redrafts (.ask q) (q.perform.run e) := by
  cases q with
  | overwrite h start data => exact overwrite_redrafts hs h start data
  | openArena n pos =>
    refine redrafts_of_kept ?_ fun _ _ => rfl
    rw [Request.perform, answer_store]
    exact hs.addArena (Arena.lays_new n pos)
  | allocate a size =>
    obtain ⟨arena, ha⟩ := Option.isSome_iff_exists.mp hq
    refine redrafts_of_kept ?_ fun _ _ => rfl
    rw [Request.perform, answer_store, allocateScratch, Op.run_get_bind, onArena_run ha]
    exact hs.retains ha (arena.allocate_retains e.store.allocator size).1
  | allocateLayout a layout =>
    obtain ⟨arena, ha⟩ := Option.isSome_iff_exists.mp hq
    refine redrafts_of_kept ?_ fun _ _ => rfl
    rw [Request.perform, answer_store, allocateScratchLayout, Op.run_get_bind, onArena_run ha]
    exact hs.retains ha (arena.allocateLayout_retains e.store.allocator layout).1
  | createTemporary a size =>
    obtain ⟨arena, ha⟩ := Option.isSome_iff_exists.mp hq
    refine redrafts_of_kept ?_ fun _ _ => rfl
    rw [Request.perform, answer_store]
    exact (hs.createTemporary ha size).1
  | resetArena a =>
    obtain ⟨arena, ha⟩ := Option.isSome_iff_exists.mp (Bool.and_eq_true_iff.mp hq).1
    exact resetArena_redrafts hs ha
  | dropArena a =>
    obtain ⟨arena, ha⟩ := Option.isSome_iff_exists.mp (Bool.and_eq_true_iff.mp hq).1
    exact dropArena_redrafts hs ha
  | _ => cases hc

theorem prepared_drafted {κ : Type} (hs : e.store.Drafted) (t : Turn κ) : (e.prepared t).store.Drafted :=
  ⟨hs.straight, hs.inside, hs.kept, hs.apart⟩

theorem turn_redrafts (hs : e.store.Drafted) {t : Turn Command} (hb : t.action.borrows = false) :
    e.Redrafts t.action (e.turn Command.run t) := by
  cases hc : t.action.reachesArenas with
  | false =>
    obtain ⟨ha, hh⟩ := (Command.run_keeps (Store.poolBlind_scratch e.store) (fun _ => id) hc hb
      (e.prepared t) ⟨rfl, .refl e.store⟩).state
    exact redrafts_of_kept (hs.congr ha hh) fun h b => written_of_unreached hc h b _
  | true =>
    obtain ⟨action, thread, answers⟩ := t
    cases action with
    | ask q =>
      rw [turn, Command.run, ask_run]
      split
      · next hq =>
        have hturn := perform_redrafts (prepared_drafted hs _) hq hc
        exact ⟨hturn.drafted, hturn.temporary?_eq, hturn.draft?_eq⟩
      · exact redrafts_of_kept (hs.congr rfl (.refl e.store)) fun h b => written_barred h b _
    | _ => cases hc

theorem start_drafted : start.store.Drafted where
  straight := by
    rintro h ⟨x, a, w, hx, -⟩
    cases hx
  inside ha := nomatch ha
  kept hh := nomatch hh
  apart _ hh := nomatch hh

theorem drafted_after (hs : e.store.Drafted) {ts : List (Turn Command)}
    (hb : ∀ t ∈ ts, t.action.borrows = false) : (e.after Command.run ts).store.Drafted := by
  induction ts generalizing e with
  | nil => exact hs
  | cons t ts ih =>
    exact ih (turn_redrafts hs (hb t List.mem_cons_self)).drafted
      fun u hu => hb u (List.mem_cons_of_mem t hu)

theorem clears_eq_true {c : Command} {o : Outcome Engine Answer} (h : c.clears a o = true) :
    (c, o.result) = (.ask (.resetArena a), .ok .done) ∨
      (c, o.result) = (.ask (.dropArena a), .ok .done) := by
  unfold Command.clears at h
  split at h
  · next hr =>
    cases of_decide_eq_true h
    exact .inl (Prod.ext rfl hr)
  · next hr =>
    cases of_decide_eq_true h
    exact .inr (Prod.ext rfl hr)
  · cases h

theorem draft_after (hs : e.store.Drafted) {us : List (Turn Command)}
    (hb : ∀ u ∈ us, u.action.borrows = false) {w : Place} {b : ByteArray}
    (hh : e.store.temporary? h = some (n, .scratch a w)) (hd : e.store.draft? h = some b)
    (hreset : (.ask (.resetArena a), .ok .done) ∉ e.reports Command.run us)
    (hdrop : (.ask (.dropArena a), .ok .done) ∉ e.reports Command.run us) :
    let f := e.after Command.run us
    f.store.temporary? h = some (n, .scratch a w) ∧
      f.store.draft? h = some ((e.reports Command.run us).foldl (written h) b) := by
  -- The bytes `b` go with the induction: each turn rewrites them as its report says.
  induction us generalizing e b with
  | nil => exact ⟨hh, hd⟩
  | cons u us ih =>
    rw [reports, List.mem_cons, not_or] at hreset hdrop
    have hturn := turn_redrafts hs (hb u List.mem_cons_self)
    have hkept : ¬u.action.clears a (e.turn Command.run u) = true := fun hclears =>
      (clears_eq_true hclears).elim (hreset.1 ·.symm) (hdrop.1 ·.symm)
    refine ih hturn.drafted (fun v hv => hb v (List.mem_cons_of_mem u hv))
      (hturn.temporary?_eq hh hkept) ?_ hreset.2 hdrop.2
    rw [hturn.draft?_eq hh hkept, hd]
    rfl

theorem turn_created (hs : e.store.Drafted) {t : Turn Command} {size : Nat} {home : Place}
    (ht : t.action = .ask (.createTemporary a size))
    (hr : (e.turn Command.run t).result = .ok (.temporary h home)) :
    let f := (e.turn Command.run t).state
    f.store.draft? h = some (Bytes.zeros size) ∧ ∃ w, f.store.temporary? h = some (size, .scratch a w) := by
  obtain ⟨action, thread, answers⟩ := t
  cases ht
  let p := e.prepared (⟨.ask (.createTemporary a size), thread, answers⟩ : Turn Command)
  have hp : p.store.Drafted := prepared_drafted hs _
  simp only [turn, Command.run, ask_run] at hr ⊢
  split at hr
  · next hq =>
    obtain ⟨arena, ha⟩ := Option.isSome_iff_exists.mp hq
    obtain ⟨-, hmade⟩ := hp.createTemporary ha size
    have hrun := onStore_run p (Store.createTemporary a size)
    rw [if_pos hq]
    cases hc : (Store.createTemporary a size).run p.store with
    | mk result s events =>
      rw [hc] at hrun hmade
      cases result with
      | error failure =>
        rw [Request.perform, Op.run_bind_error hrun] at hr
        cases hr
      | ok made =>
        have hperform : (Request.createTemporary a size).perform.run p = _ := Op.run_bind_ok hrun
        rw [hperform] at hr ⊢
        cases hr
        exact hmade made rfl
  · cases hr

theorem access_draft {b : ByteArray} (hd : e.store.draft? h = some b) (exclusive : Bool) :
    ((access h exclusive).run e).result = .ok (.bytes b) := by
  obtain ⟨x, hx, hpool, hbytes⟩ := Store.bytes?_of_draft hd
  have hentered : (e.store.entered x.pool).bytes? x = some b := by
    rw [hpool]
    exact hbytes
  rw [access_run, hx]
  simp only [hentered]

theorem turn_draft (hs : e.store.Drafted) {b : ByteArray} {w : Place}
    (hh : e.store.temporary? h = some (n, .scratch a w)) (hd : e.store.draft? h = some b)
    {t : Turn Command} (ht : t.action = .ask q) (hq : e.allows q = true) :
    (q = .read h ∨ q = .write h → (e.turn Command.run t).result = .ok (.bytes b)) ∧
      ∀ start data, q = .overwrite h start data → (e.turn Command.run t).result = .ok .done := by
  have hturn : e.turn Command.run t = q.perform.run (e.prepared t) := by
    rw [turn, ht, Command.run, ask_run, prepared_allows, if_pos hq]
  have hd : (e.prepared t).store.draft? h = some b := hd
  rw [hturn]
  constructor
  · rintro (rfl | rfl)
    · exact access_draft hd false
    · exact access_draft hd true
  · rintro start data rfl
    obtain ⟨s, hr, -⟩ := (prepared_drafted hs t).overwrite hh start data
    have hrun := onStore_run (e.prepared t) (Store.overwrite h start data)
    rw [hr] at hrun
    rw [Request.perform, Op.run_bind_silent hrun, Op.run_pure]

end Engine

open Engine in
theorem temporary_contents (ts us : List (Turn Command)) {t : Turn Command} {a : ArenaId} {size : Nat}
    {h : HandleId} {home : Place} (hb : ∀ u ∈ ts ++ t :: us, u.action.borrows = false)
    (ht : t.action = .ask (.createTemporary a size))
    (hr : ((start.after Command.run ts).turn Command.run t).result = .ok (.temporary h home)) :
    let e := ((start.after Command.run ts).turn Command.run t).state
    let past := e.reports Command.run us
    let f := e.after Command.run us
    let b := past.foldl (written h) (Bytes.zeros size)
    (Store.read h pure).run e.store = ⟨.ok (Bytes.zeros size), e.store, []⟩ ∧
      ∃ w, e.store.temporary? h = some (size, .scratch a w) ∧
        ((.ask (.resetArena a), .ok .done) ∉ past → (.ask (.dropArena a), .ok .done) ∉ past →
          f.store.temporary? h = some (size, .scratch a w) ∧
          (Store.read h pure).run f.store = ⟨.ok b, f.store, []⟩ ∧
          ∀ v q, v.action = .ask q → f.allows q = true →
            (q = .read h ∨ q = .write h → (f.turn Command.run v).result = .ok (.bytes b)) ∧
            ∀ start data, q = .overwrite h start data → (f.turn Command.run v).result = .ok .done) := by
  intro e past f b
  have hbefore : (start.after Command.run ts).store.Drafted :=
    drafted_after start_drafted fun u hu => hb u (List.mem_append_left _ hu)
  have hbt : t.action.borrows = false := hb t (List.mem_append_right ts List.mem_cons_self)
  have hbus : ∀ u ∈ us, u.action.borrows = false := fun u hu =>
    hb u (List.mem_append_right ts (List.mem_cons_of_mem t hu))
  have he : e.store.Drafted := (turn_redrafts hbefore hbt).drafted
  obtain ⟨hzeros, w, hw⟩ := turn_created hbefore ht hr
  refine ⟨read_draft hzeros, w, hw, fun hreset hdrop => ?_⟩
  obtain ⟨hplace, hdraft⟩ := draft_after he hbus hw hzeros hreset hdrop
  exact ⟨hplace, read_draft hdraft, fun v q hv hq =>
    turn_draft (drafted_after he hbus) hplace hdraft hv hq⟩

def reusedRun : List (Turn Command) :=
  [⟨.ask (.openArena 112 (by decide)), 0, some⟩, ⟨.ask (.createTemporary ⟨0⟩ 8), 0, some⟩,
    ⟨.ask (.write ⟨0⟩), 0, some⟩, ⟨.ask (.overwrite ⟨0⟩ 0 ⟨#[1, 2, 3, 4]⟩), 0, some⟩,
    ⟨.ask .endAccess, 0, some⟩, ⟨.ask (.resetArena ⟨0⟩), 0, some⟩]

def draftingRun : List (Turn Command) :=
  [⟨.ask (.createTemporary ⟨0⟩ 100), 0, some⟩, ⟨.ask (.write ⟨1⟩), 0, some⟩,
    ⟨.ask (.overwrite ⟨1⟩ 2 ⟨#[7, 8]⟩), 0, some⟩, ⟨.ask (.write ⟨2⟩), 0, some⟩,
    ⟨.ask (.overwrite ⟨2⟩ 0 ⟨#[9]⟩), 0, some⟩, ⟨.openOwner 8, 0, some⟩,
    ⟨.ask (.openPool ⟨3, by decide⟩ 160 .mayDropItems), 0, some⟩, ⟨.allocateBlock ⟨0⟩ ⟨3⟩, 0, some⟩,
    ⟨.allocateBlock ⟨0⟩ ⟨1⟩, 0, some⟩, ⟨.freeBlock ⟨0⟩ (.block ⟨0⟩ ⟨0, 0⟩) ⟨3⟩, 0, some⟩]

theorem temporary_contents_reused :
    let e := (Engine.start.after Command.run reusedRun).turn Command.run
      ⟨.ask (.createTemporary ⟨0⟩ 8), 0, some⟩
    let f := e.state.after Command.run draftingRun
    (Store.read ⟨1⟩ pure).run f.store = ⟨.ok ⟨#[0, 0, 7, 8, 0, 0, 0, 0]⟩, f.store, []⟩ := by
  intro e f
  have hb : ∀ u ∈ reusedRun ++ ⟨.ask (.createTemporary ⟨0⟩ 8), 0, some⟩ :: draftingRun,
      u.action.borrows = false := by decide
  have hr : e.result = .ok (.temporary ⟨1⟩ ⟨0, 0⟩) := by with_unfolding_all rfl
  have hwritten : (e.state.reports Command.run draftingRun).foldl (written ⟨1⟩) (Bytes.zeros 8) =
      ⟨#[0, 0, 7, 8, 0, 0, 0, 0]⟩ := by decide +kernel
  obtain ⟨-, w, -, hkept⟩ := temporary_contents reusedRun draftingRun hb rfl hr
  obtain ⟨-, hread, -⟩ := hkept
    (fun hmem => by simpa [draftingRun] using Engine.action_of_mem_reports hmem)
    (fun hmem => by simpa [draftingRun] using Engine.action_of_mem_reports hmem)
  rw [hwritten] at hread
  exact hread

end OffRow
