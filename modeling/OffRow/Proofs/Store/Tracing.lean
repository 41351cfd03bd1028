import OffRow.Proofs.SizeLadder
import OffRow.Proofs.Store.Creation
import OffRow.Proofs.Store.Telling

namespace OffRow

abbrev Outcome.Aside {σ α : Type} (I : σ → Prop) (o : Outcome σ α) : Prop :=
  o.Obeys I (·.traffic? = none) (fun _ => True)

theorem Outcome.Aside.silent {σ α : Type} {I : σ → Prop} {o : Outcome σ α} (hi : I o.state)
    (ho : o.events = []) : o.Aside I := by
  refine ⟨hi, fun event hm => ?_, fun _ _ => trivial⟩
  rw [ho] at hm
  cases hm

abbrev Op.Aside {σ α : Type} (I : σ → Prop) (x : Op σ α) : Prop :=
  Op.Obeys I (·.traffic? = none) (fun _ => True) x

namespace Store

def Framed (before : Table .pool SharedPool) (s : Store) : Prop :=
  ∀ p d, s.pools.get? p = some d → ∃ c, before.get? p = some c ∧ d.pool.frame = c.pool.frame

variable {before : Table .pool SharedPool} {s : Store} {p : PoolId} {α : Type}

theorem framed_self (s : Store) : s.Framed s.pools := fun _ _ hd => ⟨_, hd, rfl⟩

theorem Framed.modifyPool (h : s.Framed before) {f : SharedPool → SharedPool}
    (hf : ∀ c, s.pools.get? p = some c → (f c).pool.frame = c.pool.frame) :
    Framed before { s with pools := s.pools.modify p f } := by
  intro q d hd
  rw [Table.get?_modify] at hd
  split at hd
  · next hq =>
    subst hq
    obtain ⟨c, hc, rfl⟩ := Option.map_eq_some_iff.mp hd
    obtain ⟨b, hb, hframe⟩ := h p c hc
    exact ⟨b, hb, (hf c hc).trans hframe⟩
  · exact h q d hd

theorem Framed.erasePool (h : s.Framed before) (p : PoolId) :
    Framed before { s with pools := s.pools.erase p } :=
  fun q d hd => h q d (Table.get?_of_erase hd)

theorem framed_readers (p : PoolId) (f : Nat → Nat) (h : s.Framed before) :
    Framed before { s with pools := s.pools.modify p fun c => { c with readers := f c.readers } } :=
  h.modifyPool fun _ _ => rfl

theorem framed_custody : Custody (Framed before) (fun event => event.traffic? = none) (fun _ => True) where
  counted hf h := by
    refine h.modifyPool fun c hc => ?_
    obtain ⟨references, -, he⟩ := hf c hc
    rw [he]
  ended p h := h.erasePool p
  event {event} he := by
    cases event with
    | liveAtTeardown _ _ | poolLeaked _ _ => rfl
    | _ => cases he
  fault _ := trivial

theorem framed_aloof : Aloof (Framed before) (fun event => event.traffic? = none) (fun _ => True) where
  arenas _ h := h
  created _ _ _ h := h
  reclaimed _ h := h
  event {event} he := by
    cases event with
    | arenaGrown _ _ | arenaReset _ => rfl
    | _ => cases he
  failure _ := trivial

theorem overwrite_aside (h : HandleId) (start : Nat) (data : ByteArray) :
    Op.Aside (Framed before) (overwrite h start data) := by
  refine overwrite_obeys trivial (fun _ _ _ hs => hs) (fun _ _ hp hslot hs => ?_) h start data
  refine hs.modifyPool fun c hc => ?_
  obtain rfl := Option.some.inj (hp.symm.trans hc)
  refine Pool.frame_setSlot fun slot hfound => ?_
  obtain rfl := Option.some.inj (hslot.symm.trans hfound)
  rfl

theorem Framed.released (h : s.Framed before) (p : PoolId) : (s.released p).Framed before := by
  unfold Store.released
  split
  · exact h.erasePool p
  · exact h.modifyPool fun _ _ => rfl

theorem Framed.acquired (h : s.Framed before) (p : PoolId) : (s.acquired p).Framed before :=
  h.modifyPool fun _ _ => rfl

structure Discernible (pools : Table .pool SharedPool) : Prop where
  apart : ∀ {p q c d}, pools.get? p = some c → pools.get? q = some d →
    c.pool.sizeClass = d.pool.sizeClass → p = q
  distinct : ∀ {p c}, pools.get? p = some c → c.pool.Distinct

structure Traced (before : Table .pool SharedPool) (done : Prop) (events : List Event)
    (after : Table .pool SharedPool) : Prop where
  told : ∀ {p c}, before.get? p = some c → ∃ pool, c.pool.Tells events pool
  tells : ∀ {p c d}, before.get? p = some c → after.get? p = some d → c.pool.Tells events d.pool
  known : ∀ {p d}, after.get? p = some d → ∃ c, before.get? p = some c
  traffic : ∀ event ∈ events, ∀ b, event.traffic? = some b →
    done ∧ ∃ p c, before.get? p = some c ∧ c.pool.blockSize = b

theorem Traced.cons {before after : Table .pool SharedPool} {done : Prop} {event : Event}
    {events : List Event} (h : Traced before done events after) (hevent : event.traffic? = none) :
    Traced before done (event :: events) after := by
  have hfront : ∀ b, ∀ event' ∈ [event], event'.traffic? ≠ some b := by
    intro b event' hm
    rw [List.mem_singleton.mp hm, hevent]
    exact nofun
  refine ⟨fun hc => ?_, fun hc hd => (h.tells hc hd).after_untold (hfront _), h.known,
    fun event' hm b hb => ?_⟩
  · obtain ⟨pool, htells⟩ := h.told hc
    exact ⟨pool, htells.after_untold (hfront _)⟩
  · rcases List.mem_cons.mp hm with rfl | hm
    · rw [hevent] at hb
      cases hb
    · exact h.traffic event' hm b hb

theorem Traced.mono {before after : Table .pool SharedPool} {done done' : Prop} {events : List Event}
    (h : Traced before done events after) (hdone : done → done') : Traced before done' events after :=
  ⟨h.told, h.tells, h.known, fun event hm b hb => (h.traffic event hm b hb).imp_left hdone⟩

theorem traced_aside (hb : Discernible before) {done : Prop} {o : Outcome Store α}
    (ho : o.Aside (Framed before)) : Traced before done o.events o.state.pools := by
  have htold : ∀ {p c}, before.get? p = some c → c.pool.Tells o.events c.pool := by
    intro p c hc
    refine Pool.tells_untold (hb.distinct hc) fun event hm => ?_
    rw [ho.events event hm]
    exact nofun
  refine ⟨fun hc => ⟨_, htold hc⟩, fun hc hd => ?_, fun hd => ?_, fun event hm b hb => ?_⟩
  · obtain ⟨c', hc', hframe⟩ := ho.state _ _ hd
    obtain rfl := Option.some.inj (hc.symm.trans hc')
    exact (htold hc).frame hframe
  · obtain ⟨c, hc, -⟩ := ho.state _ _ hd
    exact ⟨c, hc⟩
  · rw [ho.events event hm] at hb
    cases hb

theorem traced_pool {t : Store} {cell : SharedPool} {pool : Pool} {done : Prop} {events : List Event}
    (hs : Discernible s.pools) (hp : s.pools.get? p = some cell) (htells : cell.pool.Tells events pool)
    (hevents : ∀ event ∈ events, event.traffic? = some cell.pool.blockSize)
    (ht : t.Framed (s.setPool p pool).pools) (hdone : done) : Traced s.pools done events t.pools := by
  have hother : ∀ {q c}, s.pools.get? q = some c → p ≠ q → c.pool.Tells events c.pool := by
    intro q c hc hq
    refine Pool.tells_untold (hs.distinct hc) fun event hm heq => ?_
    rw [hevents event hm, Option.some.injEq] at heq
    exact hq (hs.apart hp hc (SizeClass.blockSize_inj.mp heq))
  refine ⟨fun {q c} hc => ?_, fun {q c d} hc hd => ?_, fun {q d} hd => ?_, fun event hm b hb => ?_⟩
  · by_cases hq : p = q
    · subst hq
      obtain rfl := Option.some.inj (hp.symm.trans hc)
      exact ⟨pool, htells⟩
    · exact ⟨c.pool, hother hc hq⟩
  · obtain ⟨c', hc', hframe⟩ := ht _ _ hd
    rw [setPool, Table.get?_modify] at hc'
    split at hc'
    · next hq =>
      subst hq
      obtain rfl := Option.some.inj (hp.symm.trans hc)
      rw [hp] at hc'
      cases hc'
      exact htells.frame hframe
    · next hq =>
      obtain rfl := Option.some.inj (hc.symm.trans hc')
      exact (hother hc hq).frame hframe
  · obtain ⟨c', hc', -⟩ := ht _ _ hd
    rw [setPool, Table.get?_modify] at hc'
    split at hc'
    · obtain ⟨c, hc, -⟩ := Option.map_eq_some_iff.mp hc'
      exact ⟨c, hc⟩
    · exact ⟨c', hc'⟩
  · rw [hevents event hm] at hb
    cases hb
    exact ⟨hdone, p, cell, hp, rfl⟩

variable {cell : SharedPool} {held : List PoolId} {h : HandleId}

theorem Placed.nobody_next (hs : s.Placed) (hp : s.pools.get? p = some cell) (i : Nat) :
    ¬cell.pool.Owns i s.handles.next := by
  intro hi
  obtain ⟨a, ha, -⟩ := hs.settled hp hi
  rw [Table.get?_next] at ha
  cases ha

theorem createIn_traced (hs : s.Consistent held) (hd : Discernible s.pools)
    (hp : s.pools.get? p = some cell) (size : Nat) :
    let o := (createIn p size).run s
    Traced s.pools (∃ h, o.result = .ok h) o.events o.state.pools := by
  have hrun := createIn_run hp (hs.wellFormed p cell hp) (hs.positive hp) size
  have horphan : (s.withOrphan p size).Framed s.pools := s.framed_self.acquired p
  simp only at hrun ⊢
  rw [hrun]
  split_ifs with hr hsize hthread hg
  · exact traced_aside hd (.silent horphan rfl)
  · exact traced_aside hd (.silent horphan rfl)
  · exact traced_aside hd (.silent horphan rfl)
  · have htells := Pool.tells_pushed (hd.distinct hp) (hs.wellFormed p cell hp) hg (hs.nobody_next hp)
    refine traced_pool hd hp htells (fun event hm => ?_) (fun q d hq => ?_) ⟨_, rfl⟩
    · rcases List.mem_append.mp hm with hm | hm
      · exact Pool.traffic?_growthEvents hm
      · rw [List.mem_singleton.mp hm]
        rfl
    · let pool := cell.pool.roomy.pushed s.handles.next
      have hq : ((s.acquired p).setPool p pool).pools.get? q = some d := hq
      rw [setPool, acquired, Table.modify_modify, Table.get?_modify] at hq
      rw [setPool, Table.get?_modify]
      split at hq
      · next hpq =>
        obtain ⟨c, hc, rfl⟩ := Option.map_eq_some_iff.mp hq
        rw [if_pos hpq, hc]
        exact ⟨_, rfl, rfl⟩
      · next hpq =>
        rw [if_neg hpq]
        exact ⟨d, hq, rfl⟩
  · have habandoned : ((s.withOrphan p size).withoutHandle s.handles.next).Framed s.pools := horphan
    exact traced_aside hd (.silent (habandoned.released p) rfl)

theorem destroy_traced {b : ByteArray} (hs : s.Consistent held) (hd : Discernible s.pools)
    (hc : s.contents h = some b) :
    let o := (destroy h).run s
    Traced s.pools (∃ a, o.result = .ok a) o.events o.state.pools := by
  obtain ⟨handle, p, cell, i, hh, hp, hi, -, -⟩ := hs.exists_block hc
  have hw := hs.wellFormed p cell hp
  obtain ⟨m, hm⟩ := hw.exists_owner (show cell.pool.len - 1 < cell.pool.len by have := hi.1; omega)
  have hrun := destroy_run hs hh hp hi hm
  simp only at hrun ⊢
  rw [hrun]
  split_ifs
  · exact traced_aside hd (.silent s.framed_self rfl)
  · exact traced_aside hd (.silent s.framed_self rfl)
  · exact traced_pool hd hp (Pool.tells_freed (hd.distinct hp) hw hi.1)
      (fun event hm => Pool.traffic?_destroyEvents hm)
      ((framed_self (s.setPool p (cell.pool.freed i))).released p) ⟨_, rfl⟩

theorem shrinkToFit_traced (hs : s.Placed) (hd : Discernible s.pools) (hp : s.pools.get? p = some cell) :
    let o := (shrinkToFit p).run s
    Traced s.pools (∃ a, o.result = .ok a) o.events o.state.pools := by
  have hrun := shrinkToFit_run hs hp
  simp only
  rw [hrun]
  exact traced_pool hd hp (Pool.tells_fitted (hd.distinct hp) (hs.wellFormed p cell hp))
    (fun event hm => Pool.traffic?_releaseEvents hm) (framed_self _) ⟨_, rfl⟩

end Store

end OffRow
