import OffRow.Proofs.Guards
import OffRow.Proofs.PoolAsVector
import OffRow.Proofs.Separation
import OffRow.Proofs.Store.Serving

namespace OffRow

namespace Store

variable {s t u : Store} {p q : PoolId} {c d : SharedPool} {h owner : HandleId} {i : Nat} {w : Place}
  {payload : Address} {takes : HandleId → Prop}

def Owns (s : Store) (h : HandleId) : Prop :=
  ∃ p c i, s.pools.get? p = some c ∧ c.pool.Owns i h

/-- How a store may come from `s` when only those that `takes` names are given blocks. -/
structure Inherits (takes : HandleId → Prop) (s t : Store) : Prop where
  owns : ∀ {h}, t.Owns h → s.Owns h ∨ takes h
  handles : ∀ {h a}, s.handles.get? h = some a →
    ∃ b, t.handles.get? h = some b ∧ b.temporary = a.temporary

namespace Inherits

theorem of_eq (hp : t.pools = s.pools) (hh : t.handles = s.handles) : Inherits takes s t where
  owns := by
    rintro h ⟨p, c, i, hc, hi⟩
    exact .inl ⟨p, c, i, hp ▸ hc, hi⟩
  handles ha := ⟨_, hh ▸ ha, rfl⟩

theorem refl (s : Store) : Inherits takes s s := of_eq rfl rfl

theorem setPool (hp : s.pools.get? p = some c) {pool : Pool}
    (ho : ∀ i h, pool.Owns i h → (∃ j, c.pool.Owns j h) ∨ takes h) :
    Inherits takes s (s.setPool p pool) where
  owns := by
    rintro h ⟨q, d, i, hd, hi⟩
    rw [get?_setPool_eq] at hd
    split at hd
    · next he =>
      rw [← he, hp] at hd
      cases hd
      exact (ho i h hi).imp_left fun ⟨j, hj⟩ => ⟨p, c, j, hp, hj⟩
    · exact .inl ⟨q, d, i, hd, hi⟩
  handles ha := ⟨_, ha, rfl⟩

theorem setLocation (ht : Inherits takes s t) (m : HandleId) (location : Address) :
    Inherits takes s (t.setLocation m location) where
  owns := ht.owns
  handles := by
    intro h a ha
    obtain ⟨b, hb, htemporary⟩ := ht.handles ha
    rw [get?_setLocation]
    split
    · refine ⟨{ b with location }, ?_, htemporary⟩
      rw [hb]
      rfl
    · exact ⟨b, hb, htemporary⟩

theorem addPool (s : Store) {c : SharedPool} (hc : c.pool.len = 0) :
    Inherits takes s { s with pools := s.pools.add c } where
  owns := by
    rintro h ⟨p, d, i, hd, hi⟩
    rw [Table.get?_add] at hd
    split at hd
    · cases hd
      exact absurd hi.1 (hc ▸ Nat.not_lt_zero i)
    · exact .inl ⟨p, d, i, hd, hi⟩
  handles ha := ⟨_, ha, rfl⟩

theorem addHandle (s : Store) (a : Handle) :
    Inherits takes s { s with handles := s.handles.add a } where
  owns := .inl
  handles := by
    intro h b hb
    rw [Table.get?_add, if_neg (get?_ne_next hb)]
    exact ⟨b, hb, rfl⟩

theorem owned (ht : Inherits takes s t) (hs : s.Owned)
    (htold : ∀ h, takes h → ∃ a, s.handles.get? h = some a ∧ a.temporary = false) : t.Owned := by
  intro p c i h hp hi
  obtain ⟨a, ha, htemporary⟩ : ∃ a, s.handles.get? h = some a ∧ a.temporary = false := by
    rcases ht.owns ⟨p, c, i, hp, hi⟩ with ⟨q, d, j, hq, hj⟩ | htaken
    · exact hs hq hj
    · exact htold h htaken
  obtain ⟨b, hb, he⟩ := ht.handles ha
  exact ⟨b, hb, he.trans htemporary⟩

end Inherits

theorem checkUnused_inherits {α : Type} {x : Op Store α}
    (hx : ∀ c, s.pools.get? p = some c → Inherits takes s (x.run s).state) :
    Inherits takes s ((checkUnused p >>= fun _ => x).run s).state := by
  rcases checkUnused_bind s p x with ⟨cause, -, hrun⟩ | ⟨c, hc, -, hrun⟩
  · rw [hrun]
    exact .refl s
  · rw [hrun]
    exact hx c hc

theorem allocateBlock_inherits (hp : s.pools.get? p = some c) (hw : c.pool.WellFormed)
    (ho : takes owner) : Inherits takes s ((allocateBlock p owner).run s).state := by
  rw [allocateBlock_run hp hw]
  split
  · exact .refl s
  · split
    · next hg =>
      apply Inherits.setPool hp
      intro i h hi
      rcases (Pool.owns_pushed hw hg).mp hi with hbefore | ⟨-, he⟩
      · exact .inl ⟨i, hbefore⟩
      · exact .inr (he ▸ ho)
    · exact .refl s

theorem freeBlock_inherits (hs : s.Owned) (hp : s.pools.get? p = some c) (hw : c.pool.WellFormed) :
    Inherits takes s ((freeBlock p payload owner).run s).state := by
  have hfreed : ∀ i < c.pool.len, Inherits takes s (s.setPool p (c.pool.freed i)) := by
    intro i hi
    apply Inherits.setPool hp
    intro j h hj
    exact .inl ⟨_, ((Pool.owns_freed hw hi).mp hj).2⟩
  have hfreeing := freeBlock_freeing hp hw payload owner
  generalize (freeBlock p payload owner).run s = o at hfreeing ⊢
  cases hfreeing with
  | refused _ => exact .refl s
  | last hi _ => exact hfreed _ hi.1
  | stuck _ hm htemporary _ =>
    obtain ⟨a, ha, hfalse⟩ := hs hp hm
    rw [htemporary a ha] at hfalse
    cases hfalse
  | moved hi _ _ => exact (hfreed _ hi.1).setLocation _ _

theorem shrinkToFit_inherits (hp : s.pools.get? p = some c) (hw : c.pool.WellFormed) :
    Inherits takes s ((shrinkToFit p).run s).state := by
  rw [shrinkToFit, onPool_run hp, Pool.shrinkToFit_run hw.toShaped]
  apply Inherits.setPool hp
  intro i h hi
  obtain ⟨payload, hholds⟩ := Pool.owns_iff.mp hi
  exact .inl ⟨i, ((Pool.holds_fitted hw).mp hholds).owns⟩

theorem updateLocation_inherits (location : Address) :
    Inherits takes s ((updateLocation h location).run s).state := by
  rw [updateLocation_run]
  split
  · exact .refl s
  · split
    · exact .refl s
    · exact (Inherits.refl s).setLocation h location

/-- Of all slots of all pools, live and vacant, `free` of `p` takes back the live ones of `p` from their
owners, and at any other leaves all as it is. -/
def FreesExactly (s : Store) (p : PoolId) (c : SharedPool) : Prop :=
  ∀ q d i w owner, s.pools.get? q = some d → d.pool.place i = .ok w →
    let o := (freeBlock p (.block q w) owner).run s
    (o.result = .ok () ↔ q = p ∧ ∃ b, c.pool.blocks[i]? = some (owner, b)) ∧
      (o.result = .ok () ∨ ∃ k, o = ⟨.error (.fault (.notLive k c.pool.blockSize)), s, []⟩)

theorem isLive_iff (hp : s.pools.get? p = some c) (hw : c.pool.WellFormed)
    (hq : s.pools.get? q = some d) (hd : d.pool.WellFormed) (hplace : d.pool.place i = .ok w) :
    (∃ k, IsLive c.pool p (.block q w) owner k) ↔
      q = p ∧ ∃ b, c.pool.blocks[i]? = some (owner, b) := by
  obtain ⟨-, rfl⟩ := hd.place_eq_ok.mp hplace
  simp only [Pool.getElem?_blocks hw, ← Pool.owns_iff]
  constructor
  · rintro ⟨k, hk, haddress⟩
    obtain ⟨rfl, hwhere⟩ := Address.block.inj haddress
    rw [hp] at hq
    cases hq
    exact ⟨rfl, Pool.placeOf_inj.mp hwhere ▸ hk⟩
  · rintro ⟨rfl, hi⟩
    rw [hp] at hq
    cases hq
    exact ⟨i, hi, rfl⟩

theorem Owned.freesExactly (hs : s.Owned) (hwell : s.WellFormed) (hp : s.pools.get? p = some c)
    (ht : s.thread = c.pool.ownerThread) : s.FreesExactly p c := by
  intro q d i w owner hq hplace
  have hw := hwell p c hp
  rw [← isLive_iff hp hw hq (hwell q d hq) hplace]
  by_cases hl : ∃ k, IsLive c.pool p (.block q w) owner k
  · have hok : ((freeBlock p (.block q w) owner).run s).result = .ok () := by
      obtain ⟨k, hl⟩ := hl
      obtain ⟨m, hm⟩ := hw.exists_owner (show c.pool.len - 1 < c.pool.len from Nat.pred_lt_of_lt hl.1.1)
      obtain ⟨_, hfreed, -⟩ := takes hs hp hw ht k owner m hl.1 hm
      rw [← hl.2] at hfreed
      exact hfreed
    exact ⟨iff_of_true hok hl, .inl hok⟩
  · rw [freeBlock_notLive hp hw ht hl]
    exact ⟨iff_of_false nofun hl, .inr ⟨_, rfl⟩⟩

def Refuses (s : Store) (p : PoolId) (c : SharedPool) (h : HandleId) : Prop :=
  ∀ q d i w, s.pools.get? q = some d → d.pool.place i = .ok w →
    ∃ k, (freeBlock p (.block q w) h).run s =
      ⟨.error (.fault (.notLive k c.pool.blockSize)), s, []⟩

theorem FreesExactly.refuses (hs : s.FreesExactly p c) (hp : s.pools.get? p = some c)
    (hw : c.pool.WellFormed) (hn : ¬s.Owns h) : s.Refuses p c h := by
  intro q d i w hq hplace
  obtain ⟨hiff, hrefused⟩ := hs q d i w h hq hplace
  refine hrefused.resolve_left fun hok => hn ?_
  obtain ⟨-, b, hb⟩ := hiff.mp hok
  exact ⟨p, c, i, hp, ((Pool.getElem?_blocks hw).mp hb).owns⟩

theorem freeBlock_owns_none (hp : s.pools.get? p = some c) (hw : c.pool.WellFormed)
    (hone : ∀ q d j, s.pools.get? q = some d → d.pool.Owns j h →
      payload = .block q (Pool.placeOf d.pool.firstSlots j))
    (hok : ((freeBlock p payload h).run s).result = .ok ()) :
    ¬((freeBlock p payload h).run s).state.Owns h := by
  -- Another block in the hole would be the one that lay last.
  have hfreed : ∀ i, c.pool.Owns i h → ¬(s.setPool p (c.pool.freed i)).Owns h := by
    rintro i hi ⟨q, d, j, hd, hj⟩
    have hthis := hone p c i hp hi
    rw [get?_setPool_eq] at hd
    split at hd
    · next he =>
      rw [← he, hp] at hd
      cases hd
      obtain ⟨hlt, hmoved⟩ := (Pool.owns_freed hw hi.1).mp hj
      obtain ⟨-, hwhere⟩ := Address.block.inj (hthis.symm.trans (hone p c _ hp hmoved))
      have hij := Pool.placeOf_inj.mp hwhere
      split at hij <;> omega
    · next hne =>
      exact hne (Address.block.inj (hthis.symm.trans (hone q d j hd hj))).1
  have hfreeing := freeBlock_freeing hp hw payload h
  generalize (freeBlock p payload h).run s = o at hfreeing hok ⊢
  cases hfreeing with
  | refused _ => cases hok
  | last hi _ => exact hfreed _ hi
  | stuck _ _ _ _ => cases hok
  | moved hi _ _ => exact hfreed _ hi

end Store

namespace Engine

open Store

variable {e : Engine} {h : HandleId} {takes : HandleId → Prop}

/-- What uses the pools and their blocks, and gives none to an owner that could not be told of a move. -/
def drives (e : Engine) : Command → Bool
  | .ask (.openPool ..) | .ask (.shrinkToFit _) | .openOwner _ | .freeBlock .. | .updateLocation .. => true
  | .allocateBlock _ owner => (e.store.handles.get? owner).map Handle.temporary = some false
  | _ => false

def driven (e : Engine) : List (Turn Command) → Bool
  | [] => true
  | t :: ts => e.drives t.action && (e.turn Command.run t).state.driven ts

theorem run_inherits (hw : e.store.WellFormed) (hs : e.store.Owned) {c : Command}
    (hc : e.drives c = true) (htakes : ∀ p owner, c = .allocateBlock p owner → takes owner) :
    Inherits takes e.store (c.run.run e).state.store := by
  cases c with
  | ask q =>
    rw [Command.run, ask_run]
    split
    · cases q with
      | openPool k n policy =>
        change Inherits takes e.store
          { e.store with pools := e.store.pools.add ⟨.new k n policy e.store.thread, 1, 0⟩ }
        exact .addPool e.store rfl
      | shrinkToFit p =>
        rw [Request.perform, onStore_bind, answer_store]
        exact checkUnused_inherits fun c hp => shrinkToFit_inherits hp (hw p c hp)
      | _ => cases hc
    · exact .refl e.store
  | openOwner size =>
    rw [Command.run, answer_store]
    exact .addHandle e.store _
  | allocateBlock p owner =>
    rw [Command.run, onStore_bind, answer_store]
    exact checkUnused_inherits fun c hp => allocateBlock_inherits hp (hw p c hp) (htakes p owner rfl)
  | freeBlock p payload owner =>
    rw [Command.run, onStore_bind, answer_store]
    exact checkUnused_inherits fun c hp => freeBlock_inherits hs hp (hw p c hp)
  | updateLocation h location =>
    rw [Command.run, answer_store]
    exact updateLocation_inherits location

theorem turn_inherits (hw : e.store.WellFormed) (hs : e.store.Owned) {t : Turn Command}
    (ht : e.drives t.action = true) :
    Inherits (fun h => ∃ p, t.action = .allocateBlock p h) e.store (e.turn Command.run t).state.store := by
  have hdrives : (e.prepared t).drives t.action = true := ht
  obtain ⟨howns, hhandles⟩ : Inherits (fun h => ∃ p, t.action = .allocateBlock p h) (e.prepared t).store
      (t.action.run.run (e.prepared t)).state.store := by
    apply run_inherits (e := e.prepared t) hw hs hdrives
    exact fun p _ ha => ⟨p, ha⟩
  exact ⟨howns, hhandles⟩

theorem turn_owned (hw : e.store.WellFormed) (hs : e.store.Owned) {t : Turn Command}
    (ht : e.drives t.action = true) : (e.turn Command.run t).state.store.Owned := by
  apply (turn_inherits hw hs ht).owned hs
  rintro h ⟨p, ha⟩
  rw [ha] at ht
  exact Option.map_eq_some_iff.mp (of_decide_eq_true ht)

theorem driven_after (hw : e.store.WellFormed) (hs : e.store.Owned) {ts : List (Turn Command)}
    (ht : e.driven ts = true) :
    (e.after Command.run ts).store.Owned ∧
      ∀ h, (∀ t ∈ ts, ∀ p, t.action ≠ .allocateBlock p h) → (e.after Command.run ts).store.Owns h →
        e.store.Owns h := by
  induction ts generalizing e with
  | nil => exact ⟨hs, fun _ _ => id⟩
  | cons t ts ih =>
    rw [driven, Bool.and_eq_true] at ht
    obtain ⟨ht, hts⟩ := ht
    obtain ⟨howned, hkept⟩ := ih (turn_wellFormed hw t) (turn_owned hw hs ht) hts
    refine ⟨howned, fun h hne hafter => ?_⟩
    -- What has a block at the end had it after the first turn, which gives blocks only to those it names.
    have hbefore := hkept h (fun u hu => hne u (List.mem_cons_of_mem t hu)) hafter
    refine ((turn_inherits hw hs ht).owns hbefore).resolve_right ?_
    rintro ⟨p, ha⟩
    exact hne t List.mem_cons_self p ha

theorem turn_owns_none (hw : e.store.WellFormed) {t : Turn Command} {p : PoolId} {payload : Address}
    (ht : t.action = .freeBlock p payload h)
    (hone : ∀ q d j, e.store.pools.get? q = some d → d.pool.Owns j h →
      payload = .block q (Pool.placeOf d.pool.firstSlots j))
    (hok : (e.turn Command.run t).result.isOk) : ¬(e.turn Command.run t).state.store.Owns h := by
  rw [turn, ht, Command.run, onStore_bind] at hok ⊢
  rw [answer_store]
  rw [onStore_result _ _ fun _ _ => rfl] at hok
  rcases checkUnused_bind (e.prepared t).store p (freeBlock p payload h) with
    ⟨cause, -, hrun⟩ | ⟨c, hc, -, hrun⟩
  · rw [hrun] at hok
    cases hok
  · rw [hrun] at hok ⊢
    apply freeBlock_owns_none hc (hw p c hc) hone
    cases hresult : ((freeBlock p payload h).run (e.prepared t).store).result with
    | ok => rfl
    | error failure =>
      rw [hresult] at hok
      cases hok

end Engine

/-- A pool takes back its own live blocks from their owners, and refuses without a trace every other
address of a slot, its own or another pool's. So once an owner has no block, in any pool, nothing is
taken back in its name, whatever others take and give back meanwhile. -/
theorem free_accepts_live_blocks (ts us : List (Turn Command))
    (hs : (Engine.start.after Command.run ts).store.Owned)
    (hd : (Engine.start.after Command.run ts).driven us = true) :
    let e := Engine.start.after Command.run (ts ++ us)
    (∀ p c answers, e.store.pools.get? p = some c →
        Store.FreesExactly { e.store with thread := c.pool.ownerThread, allocator := answers } p c) ∧
      (∀ h vs, ¬e.store.Owns h → e.driven vs = true →
        (∀ t ∈ vs, ∀ p, t.action ≠ .allocateBlock p h) →
          let f := e.after Command.run vs
          ∀ p c answers, f.store.pools.get? p = some c →
            Store.Refuses { f.store with thread := c.pool.ownerThread, allocator := answers } p c h) ∧
      ∀ t p payload h, t.action = .freeBlock p payload h →
        (∀ q d j, e.store.pools.get? q = some d → d.pool.Owns j h →
          payload = .block q (Pool.placeOf d.pool.firstSlots j)) →
        (e.turn Command.run t).result.isOk → ¬(e.turn Command.run t).state.store.Owns h := by
  intro e
  have hwell : e.store.WellFormed := Engine.wellFormed_after (ts ++ us)
  have howned : e.store.Owned := by
    change (Engine.start.after Command.run (ts ++ us)).store.Owned
    rw [Engine.after_append]
    exact (Engine.driven_after (Engine.wellFormed_after ts) hs hd).1
  refine ⟨?_, ?_, ?_⟩
  · intro p c answers hp
    exact Store.Owned.freesExactly howned hwell hp rfl
  · intro h vs hn hvs hne f p c answers hp
    obtain ⟨hfowned, hkept⟩ := Engine.driven_after hwell howned hvs
    have hfwell : f.store.WellFormed :=
      Engine.after_induction (I := fun e => e.store.WellFormed)
        (fun _ t he => Engine.turn_wellFormed he t) hwell vs
    have hexact := Store.Owned.freesExactly
      (s := { f.store with thread := c.pool.ownerThread, allocator := answers }) hfowned hfwell hp rfl
    exact hexact.refuses hp (hfwell p c hp) fun hf => hn (hkept h hne hf)
  · intro t p payload h ht hone hok
    exact Engine.turn_owns_none hwell ht hone hok

def handedBack : Turn Command := ⟨.freeBlock ⟨0⟩ (.block ⟨0⟩ ⟨0, 0⟩) ⟨0⟩, 0, some⟩

def takenAgain : List (Turn Command) := [⟨.allocateBlock ⟨0⟩ ⟨1⟩, 0, some⟩]

def handedOver : List (Turn Command) := neighbours ++ handedBack :: takenAgain

theorem neighbours_first {q : PoolId} {d : SharedPool} {j : Nat}
    (hq : (Engine.start.after Command.run neighbours).store.pools.get? q = some d)
    (hj : d.pool.Owns j ⟨0⟩) : q = ⟨0⟩ ∧ j = 0 := by
  obtain ⟨cell, hp, howners, -, -⟩ := neighbours_pool
  have hlt : q.number < 1 := by
    have hnext : (Engine.start.after Command.run neighbours).store.pools.next.number = 1 := by
      decide +kernel
    exact hnext ▸ Table.lt_next hq
  obtain rfl : q = ⟨0⟩ := (Table.number_eq q ⟨0⟩).mp (Nat.lt_one_iff.mp hlt)
  rw [hp] at hq
  cases hq
  have hget := (Pool.getElem?_owners (Engine.wellFormed_after neighbours ⟨0⟩ d hp)).mpr hj
  rw [howners] at hget
  match j, hget with
  | 0, _ => exact ⟨rfl, rfl⟩
  | 1, h => cases h
  | _ + 2, h => cases h

theorem free_accepts_live_blocks_twice :
    let s : Store := { (Engine.start.after Command.run handedOver).store with thread := 0, allocator := some }
    ((Engine.start.after Command.run neighbours).turn Command.run handedBack).result.isOk ∧
      ∃ k n, (Store.freeBlock ⟨0⟩ (.block ⟨0⟩ ⟨0, 0⟩) ⟨0⟩).run s = ⟨.error (.fault (.notLive k n)), s, []⟩ := by
  have hs : (Engine.start.after Command.run []).store.Owned := fun _ _ _ _ hp => nomatch hp
  have hone : ∀ q d j, (Engine.start.after Command.run neighbours).store.pools.get? q = some d →
      d.pool.Owns j ⟨0⟩ → Address.block ⟨0⟩ ⟨0, 0⟩ = .block q (Pool.placeOf d.pool.firstSlots j) := by
    intro q d j hq hj
    obtain ⟨rfl, rfl⟩ := neighbours_first hq hj
    rw [Pool.placeOf_zero]
  have hreturned : ¬(Engine.start.after Command.run (neighbours ++ [handedBack])).store.Owns ⟨0⟩ := by
    have hcase := (free_accepts_live_blocks [] neighbours hs (by decide +kernel)).2.2
      handedBack ⟨0⟩ _ ⟨0⟩ rfl
    rw [List.nil_append] at hcase
    rw [Engine.after_append]
    exact hcase hone (by decide +kernel)
  have hlater := (free_accepts_live_blocks [] (neighbours ++ [handedBack]) hs (by decide +kernel)).2.1
    ⟨0⟩ takenAgain
  rw [List.nil_append] at hlater
  have hrefuses := hlater hreturned (by decide +kernel) (by simp [takenAgain])
  have hrun : (Engine.start.after Command.run (neighbours ++ [handedBack])).after Command.run takenAgain =
      Engine.start.after Command.run handedOver := by
    rw [← Engine.after_append, List.append_assoc, List.singleton_append, handedOver]
  rw [hrun] at hrefuses
  have hpool : ((Engine.start.after Command.run handedOver).store.pools.get? ⟨0⟩).map (fun c =>
      (c.pool.len, c.pool.ownerThread)) = some (2, 0) := by decide +kernel
  obtain ⟨c, hc, hfacts⟩ := Option.map_eq_some_iff.mp hpool
  obtain ⟨hlen, hthread⟩ := Prod.mk.inj hfacts
  have hplace := Pool.place_zero (Engine.wellFormed_after handedOver ⟨0⟩ c hc) (by omega)
  obtain ⟨k, hk⟩ := hrefuses ⟨0⟩ c some hc ⟨0⟩ c 0 ⟨0, 0⟩ hc hplace
  rw [hthread] at hk
  exact ⟨by decide +kernel, k, _, hk⟩

end OffRow
