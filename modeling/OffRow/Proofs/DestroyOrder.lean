import OffRow.Proofs.Deeds
import OffRow.Proofs.PoolTeardown
import OffRow.Proofs.Store.Clearing

namespace OffRow

namespace Engine

variable {e : Engine} {p : PoolId} {c : SharedPool}

theorem Guarded.destroyEach_perm (he : e.Guarded) (hc : e.store.pools.get? p = some c) (thread : ThreadId)
    (answers : Nat → Option Nat) {l m : List HandleId} (hperm : l.Perm m) (hn : l.Nodup)
    (hl : ∀ h ∈ l, h ∈ e.stringsIn p) :
    let s : Store := { e.store with thread, allocator := answers }
    let t := s.destroyEach l
    let u := s.destroyEach m
    t.contents = u.contents ∧ t.tenants p = u.tenants p ∧ t.occupied p = u.occupied p ∧
      t.tenants p = {h | h ∈ e.stringsIn p ∧ (t.contents h).isSome} ∧ t.occupied p = Set.Iio (t.liveIn p) ∧
      (∀ h ∉ l, t.contents h = s.contents h) ∧
      (¬e.InUse p → thread = c.pool.ownerThread →
        (∀ h ∈ l, t.contents h = none) ∧ t.liveIn p + l.length = c.pool.len) := by
  intro s t u
  have hs : s.Consistent e.pools := he.consistent.congr rfl rfl rfl
  have hp : s.pools.get? p = some c := hc
  have hmem : ∀ h, h ∈ s.tenants p ↔ h ∈ e.stringsIn p :=
    fun h => (Store.mem_tenants_iff hp).trans (he.owns_iff hc h).symm
  have hyields : s.Yields p ↔ ¬e.InUse p ∧ thread = c.pool.ownerThread := by
    rw [he.inUse_iff_readers hc, not_not]
    refine ⟨fun hy => hy c hp, fun hy d hd => ?_⟩
    cases hp.symm.trans hd
    exact hy
  have hlm : ∀ h ∈ m, h ∈ s.tenants p := fun h hh => (hmem h).mpr (hl h (hperm.mem_iff.mpr hh))
  have hll : ∀ h ∈ l, h ∈ s.tenants p := fun h hh => (hmem h).mpr (hl h hh)
  -- A pool gives back all of its blocks that are asked for or none, so `gone` is `l` or nothing.
  obtain ⟨gone, other, ht, hu, hcleared, hcleared', hsame, hsub, hall⟩ : ∃ gone other,
      t.WellFormed ∧ u.WellFormed ∧ s.Cleared t p gone ∧ s.Cleared u p other ∧ gone.Perm other ∧
        gone ⊆ l ∧ (s.Yields p → gone = l) := by
    by_cases hy : s.Yields p
    · obtain ⟨ht, hcleared⟩ := hs.destroyEach_yields hy hn hll
      obtain ⟨hu, hcleared'⟩ := hs.destroyEach_yields hy (hperm.nodup_iff.mp hn) hlm
      exact ⟨l, m, ht.wellFormed, hu.wellFormed, hcleared, hcleared', hperm, List.Subset.refl l,
        fun _ => rfl⟩
    · obtain ⟨ht, hcleared⟩ := hs.destroyEach_refused hy hll
      obtain ⟨hu, hcleared'⟩ := hs.destroyEach_refused hy hlm
      exact ⟨[], [], ht.wellFormed, hu.wellFormed, hcleared, hcleared', .nil, List.nil_subset l,
        fun hy' => absurd hy' hy⟩
  obtain ⟨hcontents, htenants, hlive⟩ := hcleared.agree hcleared' hsame
  refine ⟨hcontents, htenants, ?_, ?_, ht.occupied_eq p, fun h hh => ?_, fun hunused hthread => ?_⟩
  · rw [ht.occupied_eq, hu.occupied_eq, hlive]
  · ext h
    rw [hcleared.mem_tenants hs.toPlaced, hmem]
    rfl
  · rw [hcleared.contents_eq, if_neg fun hg => hh (hsub hg)]
  · obtain rfl := hall (hyields.mpr ⟨hunused, hthread⟩)
    refine ⟨fun h hh => ?_, ?_⟩
    · rw [hcleared.contents_eq, if_pos hh]
    · rw [hcleared.live_eq, Store.liveIn_of_get? hp]

end Engine

open Engine in
/-- Two pools that are opened alike, to which deeds of the same kinds are done, go through the same
lengths, capacities and numbers of chunks, and each deed ends in the same way, whichever strings are
destroyed and whatever else is asked in between. If some strings of a pool are destroyed, in whatever
order, the same ones are left with the same bytes, in the first slots; and unless a string of the pool is
being read or written or another thread asks, those that were destroyed are gone. -/
theorem destroy_order :
    (∀ (ts us : List (Turn Request)) p q k n grants vs ws,
      let e := start.after Request.ask ts
      let f := start.after Request.ask us
      e.Fresh p k n → f.Fresh q k n → Orderly p k grants e vs → Orderly q k grants f ws →
        e.deeds p vs = f.deeds q ws →
          e.record p vs = f.record q ws ∧ ∀ x ∈ e.record p vs, x.2.isSome) ∧
    ∀ (ts : List (Turn Request)) p cell thread answers (l m : List HandleId),
      let e := start.after Request.ask ts
      let s : Store := { e.store with thread, allocator := answers }
      let t := s.destroyEach l
      let u := s.destroyEach m
      e.store.pools.get? p = some cell → l.Perm m → l.Nodup → (∀ h ∈ l, h ∈ e.stringsIn p) →
        t.contents = u.contents ∧ t.tenants p = u.tenants p ∧ t.occupied p = u.occupied p ∧
        t.tenants p = {h | h ∈ e.stringsIn p ∧ (t.contents h).isSome} ∧
        t.occupied p = Set.Iio (t.liveIn p) ∧ (∀ h ∉ l, t.contents h = s.contents h) ∧
        (¬e.InUse p → thread = cell.pool.ownerThread →
          (∀ h ∈ l, t.contents h = none) ∧ t.liveIn p + l.length = cell.pool.len) := by
  constructor
  · intro ts us p q k n grants vs ws e f he hf hvs hws hdeeds
    have hrecord := (he.follows (start_guarded.after ts)).record_eq hvs
    have hrecord' := (hf.follows (start_guarded.after us)).record_eq hws
    rw [hrecord, hrecord', hdeeds]
    exact ⟨rfl, Fill.record_isSome⟩
  · intro ts p cell thread answers l m e s t u hc hperm hn hl
    exact (start_guarded.after ts).destroyEach_perm hc thread answers hperm hn hl

def narrowPool : Turn Request := ⟨.openPool ⟨6, by decide⟩ 24 .mayDropItems, 0, some⟩

def newString : Turn Request := ⟨.createIn ⟨0⟩ 8, 0, some⟩

def lostString (n : Nat) : Turn Request := ⟨.destroy ⟨n⟩, 0, some⟩

def glance (n : Nat) : List (Turn Request) := [⟨.read ⟨n⟩, 0, some⟩, ⟨.endAccess, 0, some⟩]

def threeStrings : List (Turn Request) := [narrowPool, newString, newString, newString]

open Engine in
theorem destroy_order_swapped :
    let e := start.after Request.ask [narrowPool]
    let s : Store := { (start.after Request.ask threeStrings).store with thread := 0, allocator := some }
    e.record ⟨0⟩ (newString :: newString :: glance 0 ++ [lostString 0]) =
        e.record ⟨0⟩ [newString, newString, lostString 1] ∧
      (s.destroyEach [⟨0⟩, ⟨1⟩]).contents = (s.destroyEach [⟨1⟩, ⟨0⟩]).contents ∧
      (s.destroyEach [⟨0⟩, ⟨1⟩]).occupied ⟨0⟩ = Set.Iio 1 := by
  intro e s
  obtain ⟨hruns, hperms⟩ := destroy_order
  have hproper : ∀ {f : Engine} {t : Turn Request}, f.accessesTo ⟨0⟩ = 0 ∧ (∀ n ∈ t.action.size?, n ≤ 64) ∧
      (∀ c ∈ f.store.pools.get? ⟨0⟩, t.thread = c.pool.ownerThread) ∧
      ((f.turn Request.ask t).state.store.pools.get? ⟨0⟩).isSome → t.answers = some →
      f.Proper ⟨0⟩ ⟨6, by decide⟩ (fun _ => true) t := by
    rintro f t ⟨hreaders, hfits, hown, hstays⟩ hanswers
    exact ⟨fun hu => inUse_iff.mp hu hreaders, hfits, hown, fun n => by rw [hanswers]; rfl, hstays⟩
  have hglance : Orderly ⟨0⟩ ⟨6, by decide⟩ (fun _ => true) e
      (newString :: newString :: glance 0 ++ [lostString 0]) :=
    ⟨fun _ => hproper (by decide +kernel) rfl, fun _ => hproper (by decide +kernel) rfl,
      fun hd => absurd hd (by decide +kernel), fun hd => absurd hd (by decide +kernel),
      fun _ => hproper (by decide +kernel) rfl, trivial⟩
  have hdirect : Orderly ⟨0⟩ ⟨6, by decide⟩ (fun _ => true) e [newString, newString, lostString 1] :=
    ⟨fun _ => hproper (by decide +kernel) rfl, fun _ => hproper (by decide +kernel) rfl,
      fun _ => hproper (by decide +kernel) rfl, trivial⟩
  have hfresh : e.Fresh ⟨0⟩ ⟨6, by decide⟩ 24 := ⟨.mayDropItems, 0, 1, rfl⟩
  have hrecord := hruns [narrowPool] [narrowPool] ⟨0⟩ ⟨0⟩ _ 24 _ _ _ hfresh hfresh hglance hdirect
    (by decide +kernel)
  have hpool : ((start.after Request.ask threeStrings).store.pools.get? ⟨0⟩).map (fun c =>
      (c.pool.ownerThread, c.pool.len)) = some (0, 3) := by decide +kernel
  obtain ⟨c, hc, heq⟩ := Option.map_eq_some_iff.mp hpool
  obtain ⟨hthread, hlen⟩ := Prod.mk.inj heq
  have hunused : ¬(start.after Request.ask threeStrings).InUse ⟨0⟩ := by
    rintro ⟨access, ha, -⟩
    have hnone : (start.after Request.ask threeStrings).accesses = [] := by decide +kernel
    rw [hnone] at ha
    cases ha
  obtain ⟨hcontents, -, -, -, hslots, -, hgone⟩ := hperms threeStrings ⟨0⟩ c 0 some [⟨0⟩, ⟨1⟩] [⟨1⟩, ⟨0⟩] hc
    (.swap _ _ _) (by decide) (by decide +kernel)
  obtain ⟨-, hlive⟩ := hgone hunused hthread.symm
  rw [hlen] at hlive
  have hone : (s.destroyEach [⟨0⟩, ⟨1⟩]).liveIn ⟨0⟩ = 1 := Nat.add_right_cancel (m := 2) hlive
  rw [hone] at hslots
  exact ⟨hrecord.1, hcontents, hslots⟩

end OffRow
