import OffRow.Proofs.Store.Creation
import OffRow.Proofs.Walks

namespace OffRow

abbrev Contents := HandleId → Option ByteArray

namespace Contents

def empty : Contents := fun _ => none

def next (m : Contents) : Request × Except Failure Answer → Contents
  | (.create _ size, .ok (.string h)) => Function.update m h (some (Bytes.zeros size))
  | (.createIn _ size, .ok (.string h)) => Function.update m h (some (Bytes.zeros size))
  | (.destroy h, .ok .done) => Function.update m h none
  | (.overwrite h start data, .ok .done) =>
    Function.update m h ((m h).map fun b => Bytes.overlay b start data)
  | _ => m

def replay (m : Contents) (reports : List (Request × Except Failure Answer)) : Contents :=
  reports.foldl next m

/-- Whether an answer is right for the map at the time of the request. -/
def Fits (m : Contents) : Request × Except Failure Answer → Prop
  | (.create _ _, .ok (.string h)) => m h = none
  | (.createIn _ _, .ok (.string h)) => m h = none
  | (.destroy h, .ok .done) => (m h).isSome
  | (.read h, result) => ∀ b, m h = some b → result = .ok (.bytes b)
  | (.write h, result) => ∀ b, m h = some b → result = .ok (.bytes b)
  | (.overwrite h _ _, result) => (m h).isSome → result = .ok .done
  | _ => True

variable {m : Contents} {report : Request × Except Failure Answer} {h : HandleId}

theorem next_isSome (hm : (m h).isSome) (hd : report ≠ (.destroy h, .ok .done)) :
    (next m report h).isSome := by
  unfold next
  split
  · rw [Function.update_apply]
    split
    · rfl
    · exact hm
  · rw [Function.update_apply]
    split
    · rfl
    · exact hm
  · next x =>
    rw [Function.update_of_ne ?_]
    · exact hm
    · rintro rfl
      exact hd rfl
  · rw [Function.update_apply]
    split
    · next he =>
      subst he
      rwa [Option.isSome_map]
    · exact hm
  · exact hm

theorem replay_isSome {reports : List (Request × Except Failure Answer)} (hm : (m h).isSome)
    (hd : (.destroy h, .ok .done) ∉ reports) : (replay m reports h).isSome := by
  induction reports generalizing m with
  | nil => exact hm
  | cons report reports ih =>
    rw [List.mem_cons, not_or] at hd
    exact ih (next_isSome hm fun he => hd.1 he.symm) hd.2

theorem next_eq_self (hm : (m h).isSome) (hfits : Fits m report)
    (hd : report ≠ (.destroy h, .ok .done))
    (hw : ∀ start data, report ≠ (.overwrite h start data, .ok .done)) : next m report h = m h := by
  have hnew : ∀ x, m x = none → x ≠ h := by
    rintro x hx rfl
    rw [hx] at hm
    cases hm
  unfold next
  split
  · exact Function.update_of_ne (hnew _ hfits).symm _ _
  · exact Function.update_of_ne (hnew _ hfits).symm _ _
  · refine Function.update_of_ne ?_ _ _
    rintro rfl
    exact hd rfl
  · refine Function.update_of_ne ?_ _ _
    rintro rfl
    exact hw _ _ rfl
  · rfl

end Contents

def Request.aim? : Request → Store → Option PoolId
  | .createIn p _, _ => some p
  | .create r size, s =>
    match SizeClass.forSize size with
    | .ok c => (s.registries.get? r).bind (·.pool? c)
    | .error _ => none
  | _, _ => none

/-- How many strings of pool `p` are lost to a request: one, if it was to create one in `p` and ended
in a fault. -/
def Request.losses (q : Request) (o : Outcome Engine Answer) (p : PoolId) : Nat :=
  match o.result with
  | .error (.fault _) => if q.aim? o.state.store = some p then 1 else 0
  | _ => 0

namespace Engine

structure Valid (e : Engine) : Prop where
  consistent : e.store.Consistent e.pools
  strings_iff : ∀ h, h ∈ e.strings ↔ (e.store.contents h).isSome
  nodup : e.strings.Nodup

structure Step (e : Engine) (q : Request) (o : Outcome Engine Answer) : Prop where
  valid : o.state.Valid
  contents_eq : o.state.store.contents = Contents.next e.store.contents (q, o.result)
  fits : Contents.Fits e.store.contents (q, o.result)
  orphans_eq : ∀ p, o.state.store.orphans p = e.store.orphans p + q.losses o p
  failed : ∀ failure, o.result = .error failure → o.state.pools = e.pools ∧
    ∀ p, o.state.store.handleReferences p = e.store.handleReferences p + q.losses o p

def Unmoved (e f : Engine) : Prop :=
  e.store.Calm e.pools f.store ∧ f.strings = e.strings ∧ f.pools = e.pools

variable {e f : Engine} {α : Type} {p : PoolId} {size : Nat} {h : HandleId}

theorem Valid.of_same (he : e.Valid) (hf : f.store.Consistent f.pools)
    (hc : f.store.contents = e.store.contents) (hs : f.strings = e.strings) : f.Valid where
  consistent := hf
  strings_iff h := by rw [hs, hc, he.strings_iff]
  nodup := hs ▸ he.nodup

theorem Valid.of_unmoved (he : e.Valid) (hf : e.Unmoved f) : f.Valid :=
  he.of_same (hf.2.2 ▸ hf.1.1) hf.1.2.contents_eq hf.2.1

theorem Valid.unmoved (he : e.Valid) : e.Unmoved e := ⟨.refl he.consistent, rfl, rfl⟩

theorem lifts_unmoved : Lifts (e.store.Calm e.pools) e.Unmoved :=
  ⟨fun hf => hf.1, fun hf hs => ⟨hs, hf.2⟩⟩

theorem perform_unmoved {q : Request} (hq : (q.isScratch || q.isAccess) = true) :
    Op.Keeps e.Unmoved q.perform := by
  rcases Bool.or_eq_true_iff.mp hq with hq | hq
  · exact lifts_unmoved.perform_scratch Store.calm_aloof hq
  · exact lifts_unmoved.perform_access (fun _ hf => hf) trivial Store.calm_readers hq

theorem access_answer (he : e.Valid) {b : ByteArray} (hc : e.store.contents h = some b)
    (exclusive : Bool) : ((access h exclusive).run e).result = .ok (.bytes b) := by
  obtain ⟨handle, p, cell, i, hh, -⟩ := he.consistent.exists_block hc
  have hbegin := onStore_run e (Store.beginAccess h)
  rw [Store.beginAccess_run hh] at hbegin
  have hb : (e.store.entered handle.pool).contents h = some b := by
    rw [(he.consistent.entered handle.pool).2.contents_eq, hc]
  have hbytes := onStore_run { e with
    store := e.store.entered handle.pool
    accesses := ⟨h, exclusive⟩ :: e.accesses } (Store.bytes h)
  rw [Store.bytes_run hb] at hbytes
  rw [access, Op.run_bind_silent hbegin, Op.run_modify_bind, Op.run_bind_silent hbytes, Op.run_pure]

theorem losses_eq_zero {q : Request} {o : Outcome Engine Answer} (hq : q.aim? o.state.store = none)
    (p : PoolId) : q.losses o p = 0 := by
  unfold Request.losses
  split
  · simp [hq]
  · rfl

theorem Step.of_unmoved {q : Request} {o : Outcome Engine Answer} (he : e.Valid)
    (hm : e.Unmoved o.state) (hq : q.aim? o.state.store = none)
    (hn : Contents.next e.store.contents (q, o.result) = e.store.contents)
    (hf : Contents.Fits e.store.contents (q, o.result)) : Step e q o where
  valid := he.of_unmoved hm
  contents_eq := by rw [hn, hm.1.2.contents_eq]
  fits := hf
  orphans_eq p := by rw [hm.1.2.orphans_eq, losses_eq_zero hq]; rfl
  failed _ _ := ⟨hm.2.2, fun p => by rw [hm.1.2.handleReferences_eq, losses_eq_zero hq]; rfl⟩

theorem hold_step {x : Op Store PoolId} {q : Request} (he : e.Valid)
    (hx : Op.Keeps (e.store.Calm e.pools) x)
    (hp : ∀ p t events, x.run e.store = ⟨.ok p, t, events⟩ → ∃ cell, t.pools.get? p = some cell)
    (hq : ∀ s, q.aim? s = none)
    (hn : ∀ result, Contents.next e.store.contents (q, result) = e.store.contents)
    (hf : ∀ result, Contents.Fits e.store.contents (q, result)) :
    Step e q ((hold x).run e) := by
  have hcalm := (hx e.store (.refl he.consistent)).state
  cases hr : x.run e.store with
  | mk result t events =>
    rw [hr] at hcalm
    cases result with
    | error failure =>
      have hrun := onStore_run e (do
        let p ← x
        Store.acquire p
        pure p)
      rw [Op.run_bind_error hr] at hrun
      rw [hold, Op.run_bind_error hrun]
      exact .of_unmoved he ⟨hcalm, rfl, rfl⟩ (hq _) (hn _) (hf _)
    | ok p =>
      obtain ⟨cell, hcell⟩ := hp p t events hr
      obtain ⟨ht, hsame⟩ := hcalm.1.acquired hcell
      have hrun := onStore_run e (do
        let p ← x
        Store.acquire p
        pure p)
      rw [Op.run_bind_ok hr, Op.run_bind_silent (Store.acquire_run hcell), Op.run_pure] at hrun
      rw [hold, Op.run_bind_ok hrun, Op.run_modify_bind, Op.run_pure]
      have hall := hcalm.2.trans hsame
      refine ⟨he.of_same ht hall.contents_eq rfl, ?_, hf _, fun r => ?_, nofun⟩
      · rw [hn]
        exact hall.contents_eq
      · rw [losses_eq_zero (hq _)]
        exact hall.orphans_eq r

theorem receive_step {x : Op Store HandleId} {q : Request} (he : e.Valid)
    (hc : Store.Creation e.store e.pools p size (x.run e.store).result (x.run e.store).state)
    (hq : q.aim? (x.run e.store).state = some p)
    (hok : ∀ h, Contents.next e.store.contents (q, .ok (.string h)) =
      Function.update e.store.contents h (some (Bytes.zeros size)))
    (hfresh : ∀ h, e.store.contents h = none →
      Contents.Fits e.store.contents (q, .ok (.string h)))
    (herror : ∀ failure, Contents.next e.store.contents (q, .error failure) = e.store.contents)
    (hfits : ∀ failure, Contents.Fits e.store.contents (q, .error failure)) :
    Step e q ((receive x).run e) := by
  have hrun := onStore_run e x
  generalize hr : (x.run e.store).result = result at hc hrun
  generalize (x.run e.store).state = t at hc hq hrun
  cases hc with
  | @done h t hnone ht hcontents horphans =>
    rw [receive, Op.run_bind_ok hrun, Op.run_modify_bind, Op.run_pure]
    have hnew : h ∉ e.strings := by
      rw [he.strings_iff, hnone]
      exact Bool.false_ne_true
    refine ⟨⟨ht, fun x => ?_, List.nodup_cons.mpr ⟨hnew, he.nodup⟩⟩, ?_, hfresh h hnone, horphans,
      nofun⟩
    · simp only [hcontents, List.mem_cons, Function.update_apply]
      split
      · next hx => simp [hx]
      · next hx => simp [hx, he.strings_iff]
    · exact hcontents.trans (hok h).symm
  | refused ht =>
    rw [receive, Op.run_bind_error hrun]
    refine ⟨he.of_same ht.1 ht.2.contents_eq rfl, ?_, hfits _, ht.2.orphans_eq,
      fun _ _ => ⟨rfl, ht.2.handleReferences_eq⟩⟩
    exact ht.2.contents_eq.trans (herror _).symm
  | faulted ht hcontents horphans hrefs =>
    rw [receive, Op.run_bind_error hrun]
    refine ⟨he.of_same ht hcontents rfl, ?_, hfits _, fun r => ?_, fun _ _ => ⟨rfl, fun r => ?_⟩⟩
    · exact hcontents.trans (herror _).symm
    · simp only [Request.losses, hq, Option.some.injEq]
      exact horphans r
    · simp only [Request.losses, hq, Option.some.injEq]
      exact hrefs r

theorem createIn_step (he : e.Valid) (hp : p ∈ e.pools) (size : Nat) :
    Step e (.createIn p size) ((Request.createIn p size).perform.run e) := by
  obtain ⟨cell, hcell⟩ := he.consistent.exists_of_held hp
  obtain ⟨hc, -⟩ := Store.createIn_creation he.consistent hcell size
  exact receive_step he hc rfl (fun _ => rfl) (fun _ => id) (fun _ => rfl) fun _ => trivial

theorem create_step {r : RegistryId} (he : e.Valid) (hr : (e.store.registries.get? r).isSome)
    (size : Nat) : Step e (.create r size) ((Request.create r size).perform.run e) := by
  obtain ⟨registry, hr⟩ := Option.isSome_iff_exists.mp hr
  rcases Store.create_creation he.consistent hr size with ⟨err, -, hresult, hstate⟩ | ⟨c, p, hsize, haim, hc⟩
  · have hrun := onStore_run e (Store.create r size)
    rw [hresult, hstate] at hrun
    rw [Request.perform, receive, Op.run_bind_error hrun]
    exact ⟨he, rfl, trivial, fun _ => rfl, fun _ _ => ⟨rfl, fun _ => rfl⟩⟩
  · have hq : (Request.create r size).aim? ((Store.create r size).run e.store).state = some p := by
      simp only [Request.aim?, hsize]
      exact haim
    exact receive_step he hc hq (fun _ => rfl) (fun _ => id) (fun _ => rfl) fun _ => trivial

theorem destroy_step (he : e.Valid) (hh : h ∈ e.strings) :
    Step e (.destroy h) ((Request.destroy h).perform.run e) := by
  have hsome := (he.strings_iff h).mp hh
  obtain ⟨b, hb⟩ := Option.isSome_iff_exists.mp hsome
  have hrun := onStore_run e (Store.destroy h)
  rcases Store.destroy_cases he.consistent hb with ⟨hresult, ht, hcontents, horphans⟩ | ⟨⟨f, hresult⟩, hcalm⟩
  · rw [hresult] at hrun
    rw [Request.perform, Op.run_bind_ok hrun, Op.run_modify_bind, Op.run_pure]
    refine ⟨⟨ht, fun x => ?_, he.nodup.erase h⟩, hcontents, hsome, fun r => horphans r, nofun⟩
    simp only [hcontents, he.nodup.mem_erase_iff, Function.update_apply]
    split
    · next hx => simp [hx]
    · next hx => simp [hx, he.strings_iff]
  · rw [hresult] at hrun
    rw [Request.perform, Op.run_bind_error hrun]
    exact .of_unmoved he ⟨hcalm, rfl, rfl⟩ rfl rfl trivial

theorem overwrite_step (he : e.Valid) (h : HandleId) (start : Nat) (data : ByteArray) :
    Step e (.overwrite h start data) ((Request.overwrite h start data).perform.run e) := by
  have hrun := onStore_run e (Store.overwrite h start data)
  cases hc : e.store.contents h with
  | some b =>
    obtain ⟨t, hw, ht, hcontents, horphans⟩ := Store.overwrite_run he.consistent hc start data
    rw [hw] at hrun
    rw [Request.perform, Op.run_bind_silent hrun, Op.run_pure]
    refine ⟨⟨ht, fun x => ?_, he.nodup⟩, ?_, fun _ => rfl, horphans, nofun⟩
    · simp only [hcontents, he.strings_iff, Function.update_apply]
      split
      · next hx => simp [hx, hc]
      · rfl
    · simp only [hcontents, Contents.next, hc, Option.map_some, Bytes.patch_eq_overlay]
  | none =>
    -- A temporary string, or one that is gone: the map has no entry for it to change.
    have hcalm := Store.overwrite_elsewhere he.consistent hc start data
    have hnext : ∀ result, Contents.next e.store.contents (.overwrite h start data, result) =
        e.store.contents := by
      intro result
      unfold Contents.next
      split
      · next heq => simp at heq
      · next heq => simp at heq
      · next heq => simp at heq
      · next heq =>
        simp only [Prod.mk.injEq, Request.overwrite.injEq] at heq
        rw [← heq.1.1, hc, Option.map_none, ← hc, Function.update_eq_self]
      · rfl
    have hfits : ∀ result, Contents.Fits e.store.contents (.overwrite h start data, result) := by
      intro result hsome
      rw [hc] at hsome
      cases hsome
    have hunmoved : e.Unmoved ((Request.overwrite h start data).perform.run e).state := by
      rw [Request.perform]
      cases hr : ((Store.overwrite h start data).run e.store).result with
      | ok _ =>
        rw [hr] at hrun
        rw [Op.run_bind_ok hrun]
        exact ⟨hcalm, rfl, rfl⟩
      | error failure =>
        rw [hr] at hrun
        rw [Op.run_bind_error hrun]
        exact ⟨hcalm, rfl, rfl⟩
    exact .of_unmoved he hunmoved rfl (hnext _) (hfits _)

theorem openPool_step (he : e.Valid) (c : SizeClass) (firstBytes : Nat) (policy : DropPolicy) :
    Step e (.openPool c firstBytes policy) ((Request.openPool c firstBytes policy).perform.run e) := by
  obtain ⟨ht, hsame⟩ := he.consistent.withPool c firstBytes policy
  exact ⟨he.of_same ht hsame.contents_eq rfl, hsame.contents_eq, trivial, hsame.orphans_eq, nofun⟩

theorem letGo_step (he : e.Valid) (hp : p ∈ e.pools) (unwinding : Bool) :
    Step e (.letGo p unwinding) ((Request.letGo p unwinding).perform.run e) := by
  have hs : e.store.Consistent (p :: e.pools.erase p) :=
    ⟨he.consistent.toPlaced, he.consistent.toCounted.perm (List.perm_cons_erase hp)⟩
  obtain ⟨ht, hsame⟩ := hs.released
  have hrun := onStore_run { e with pools := e.pools.erase p } (Store.release unwinding p)
  rw [Store.release_run hs] at hrun
  rw [Request.perform, Op.run_modify_bind, Op.run_bind_silent hrun, Op.run_pure]
  exact ⟨he.of_same ht hsame.contents_eq rfl, hsame.contents_eq, trivial, hsame.orphans_eq, nofun⟩

theorem poolForClass_exists (hs : e.store.Consistent e.pools) {r : RegistryId} {c : SizeClass}
    {t : Store} {events : List Event} (hrun : (Store.poolForClass r c).run e.store = ⟨.ok p, t, events⟩) :
    ∃ cell, t.pools.get? p = some cell := by
  cases hr : e.store.registries.get? r with
  | none =>
    rw [Store.poolForClass, Op.run_bind_error (Store.registry_run_none hr)] at hrun
    cases hrun
  | some registry =>
    obtain ⟨p, u, events, hu, -, -, hp, -⟩ := Store.poolForClass_run hs hr c
    rw [hu] at hrun
    cases hrun
    exact hp

theorem holdClass_step (he : e.Valid) (r : RegistryId) (c : SizeClass) :
    Step e (.holdClass r c) ((Request.holdClass r c).perform.run e) :=
  hold_step he (Store.poolForClass_calm r c) (fun _ _ _ => poolForClass_exists he.consistent)
    (fun _ => rfl) (fun _ => rfl) fun _ => trivial

theorem holdSize_step (he : e.Valid) (r : RegistryId) (size : Nat) :
    Step e (.holdSize r size) ((Request.holdSize r size).perform.run e) := by
  refine hold_step he (Store.poolForSize_calm r size) (fun p t events hrun => ?_) (fun _ => rfl)
    (fun _ => rfl) fun _ => trivial
  rw [Store.poolForSize] at hrun
  cases hc : SizeClass.forSize size with
  | error failure =>
    rw [hc, Op.run_ofExcept_error_bind] at hrun
    cases hrun
  | ok c =>
    rw [hc, Op.run_ofExcept_ok_bind] at hrun
    exact poolForClass_exists he.consistent hrun

theorem unmoved_step {q : Request} (he : e.Valid) (hk : Op.Keeps e.Unmoved q.perform)
    (hq : ∀ s, q.aim? s = none)
    (hn : ∀ result, Contents.next e.store.contents (q, result) = e.store.contents)
    (hf : Contents.Fits e.store.contents (q, (q.perform.run e).result)) :
    Step e q (q.perform.run e) := .of_unmoved he (hk e he.unmoved).state (hq _) (hn _) hf

theorem perform_step (he : e.Valid) {q : Request} (hq : e.allows q = true) :
    Step e q (q.perform.run e) := by
  cases q with
  | openRegistry n pos policy =>
    refine unmoved_step he ?_ (fun _ => rfl) (fun _ => rfl) trivial
    have hr : (Registry.new n pos policy).poolIds = [] := by
      simp [Registry.poolIds, Registry.new]
    exact lifts_unmoved.answer (Store.addRegistry_calm hr) _
  | dropRegistry r unwinding =>
    exact unmoved_step he (lifts_unmoved.answer (Store.dropRegistry_calm unwinding r) _)
      (fun _ => rfl) (fun _ => rfl) trivial
  | holdClass r c => exact holdClass_step he r c
  | holdSize r size => exact holdSize_step he r size
  | openPool c n policy => exact openPool_step he c n policy
  | letGo p unwinding => exact letGo_step he (of_decide_eq_true hq) unwinding
  | shrinkToFit p =>
    exact unmoved_step he (lifts_unmoved.answerUnused trivial trivial p (Store.shrinkToFit_calm p) _)
      (fun _ => rfl) (fun _ => rfl) trivial
  | check p =>
    exact unmoved_step he (lifts_unmoved.answer (Store.check_obeys (fun _ => trivial) p) _)
      (fun _ => rfl) (fun _ => rfl) trivial
  | create r size => exact create_step he hq size
  | createIn p size => exact createIn_step he (of_decide_eq_true hq) size
  | destroy h =>
    exact destroy_step he (of_decide_eq_true (Bool.and_eq_true_iff.mp hq).1)
  | intoRaw h =>
    exact unmoved_step he (lifts_unmoved.answer (Store.intoRaw_obeys trivial Store.calm_owned h) _)
      (fun _ => rfl) (fun _ => rfl) trivial
  | fromRaw h =>
    exact unmoved_step he (lifts_unmoved.answer (Store.fromRaw_obeys trivial Store.calm_owned trivial h) _)
      (fun _ => rfl) (fun _ => rfl) trivial
  | read h =>
    refine unmoved_step he (perform_unmoved rfl) (fun _ => rfl) (fun _ => rfl) ?_
    exact fun b hb => access_answer he hb false
  | write h =>
    refine unmoved_step he (perform_unmoved rfl) (fun _ => rfl) (fun _ => rfl) ?_
    exact fun b hb => access_answer he hb true
  | overwrite h start data => exact overwrite_step he h start data
  | endAccess => exact unmoved_step he (perform_unmoved rfl) (fun _ => rfl) (fun _ => rfl) trivial
  | openArena n pos => exact unmoved_step he (perform_unmoved rfl) (fun _ => rfl) (fun _ => rfl) trivial
  | allocate a size => exact unmoved_step he (perform_unmoved rfl) (fun _ => rfl) (fun _ => rfl) trivial
  | allocateLayout a layout => exact unmoved_step he (perform_unmoved rfl) (fun _ => rfl) (fun _ => rfl) trivial
  | createTemporary a size => exact unmoved_step he (perform_unmoved rfl) (fun _ => rfl) (fun _ => rfl) trivial
  | resetArena a => exact unmoved_step he (perform_unmoved rfl) (fun _ => rfl) (fun _ => rfl) trivial
  | dropArena a => exact unmoved_step he (perform_unmoved rfl) (fun _ => rfl) (fun _ => rfl) trivial

theorem Valid.prepared {κ : Type} (he : e.Valid) (t : Turn κ) : (e.prepared t).Valid :=
  he.of_same (he.consistent.congr rfl rfl rfl) (Store.SameStrings.congr rfl rfl).contents_eq rfl

theorem ask_run (e : Engine) (q : Request) :
    q.ask.run e = if e.allows q then q.perform.run e else ⟨.ok .barred, e, []⟩ := by
  rw [Request.ask, Op.run_get_bind]
  split <;> rfl

theorem prepared_allows (e : Engine) {κ : Type} (t : Turn κ) (q : Request) :
    (e.prepared t).allows q = e.allows q := by
  cases q <;> rfl

theorem turn_allowed {e : Engine} {t : Turn Request} (h : e.allows t.action = true) :
    e.turn Request.ask t = t.action.perform.run (e.prepared t) := by
  rw [turn, ask_run, prepared_allows, if_pos h]

theorem turn_barred {e : Engine} {t : Turn Request} (h : e.allows t.action = false) :
    e.turn Request.ask t = ⟨.ok .barred, e.prepared t, []⟩ := by
  rw [turn, ask_run, prepared_allows, h]
  rfl

theorem turn_step (he : e.Valid) (t : Turn Request) :
    let o := e.turn Request.ask t
    o.state.Valid ∧ o.state.store.contents = Contents.next e.store.contents (t.action, o.result) ∧
      (e.allows t.action → Contents.Fits e.store.contents (t.action, o.result)) ∧
      (∀ p, o.state.store.orphans p = e.store.orphans p + t.action.losses o p) ∧
      ∀ failure, o.result = .error failure → o.state.pools = e.pools ∧
        ∀ p, o.state.store.handleReferences p = e.store.handleReferences p + t.action.losses o p := by
  have hsame : Store.SameStrings e.store (e.prepared t).store := .congr rfl rfl
  simp only
  cases hq : e.allows t.action with
  | true =>
    rw [turn_allowed hq]
    have hstep := perform_step (he.prepared t) ((e.prepared_allows t t.action).trans hq)
    have hcontents := hstep.contents_eq
    have hfits := hstep.fits
    rw [hsame.contents_eq] at hcontents hfits
    exact ⟨hstep.valid, hcontents, fun _ => hfits, hstep.orphans_eq, hstep.failed⟩
  | false =>
    rw [turn_barred hq]
    refine ⟨he.prepared t, ?_, fun hfalse => absurd hfalse Bool.false_ne_true, fun p => rfl, nofun⟩
    rw [hsame.contents_eq]
    cases t.action <;> rfl

theorem start_valid : start.Valid where
  consistent := by
    refine ⟨⟨?_, ?_, ?_, ?_⟩, ⟨fun p => ?_, ?_⟩⟩
    · exact fun p cell hp => nomatch hp
    · exact fun hp => nomatch hp
    · exact fun hp => nomatch hp
    · exact fun hp => nomatch hp
    · rfl
    · exact fun hp => nomatch hp
  strings_iff h := by
    constructor
    · intro hh
      cases hh
    · intro hh
      cases hh
  nodup := List.nodup_nil

theorem after_valid (ts : List (Turn Request)) : (start.after Request.ask ts).Valid :=
  after_induction (I := Valid) (fun _ t he => (turn_step he t).1) start_valid ts

theorem contents_after (he : e.Valid) (ts : List (Turn Request)) :
    (e.after Request.ask ts).store.contents =
      Contents.replay e.store.contents (e.reports Request.ask ts) := by
  induction ts generalizing e with
  | nil => rfl
  | cons t ts ih =>
    obtain ⟨hvalid, hcontents, -⟩ := turn_step he t
    rw [after, ih hvalid, hcontents]
    rfl

end Engine

end OffRow
