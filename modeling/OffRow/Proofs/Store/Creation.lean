import OffRow.Proofs.Store.Calm

namespace OffRow.Store

variable {s t : Store} {p : PoolId} {cell : SharedPool} {h : HandleId} {held : List PoolId} {size : Nat}
  {b : ByteArray}

inductive Creation (s : Store) (held : List PoolId) (p : PoolId) (size : Nat) :
    Except Failure HandleId → Store → Prop
  | done {h : HandleId} {t : Store} : s.contents h = none → t.Consistent held →
      t.contents = Function.update s.contents h (some (Bytes.zeros size)) →
      (∀ q, t.orphans q = s.orphans q) → Creation s held p size (.ok h) t
  | refused {e : Error} {t : Store} : s.Calm held t → Creation s held p size (.error (.error e)) t
  | faulted {e : Fault} {t : Store} : t.Consistent held → t.contents = s.contents →
      (∀ q, t.orphans q = s.orphans q + if p = q then 1 else 0) →
      (∀ q, t.handleReferences q = s.handleReferences q + if p = q then 1 else 0) →
      Creation s held p size (.error (.fault e)) t

theorem Creation.of_calm {u : Store} {result : Except Failure HandleId} (ht : s.Calm held t)
    (hc : Creation t held p size result u) : Creation s held p size result u := by
  have hsame := ht.2
  cases hc with
  | done hn hu hcontents horphans =>
    rw [hsame.contents_eq] at hn hcontents
    exact .done hn hu hcontents fun q => (horphans q).trans (hsame.orphans_eq q)
  | refused hu => exact .refused (ht.step hu)
  | faulted hu hcontents horphans hrefs =>
    refine .faulted hu (hcontents.trans hsame.contents_eq) (fun q => ?_) fun q => ?_
    · rw [horphans, hsame.orphans_eq]
    · rw [hrefs, hsame.handleReferences_eq]

theorem contents_next (s : Store) : s.contents s.handles.next = none := by
  rw [contents, Table.get?_next]
  rfl

theorem createIn_creation (hs : s.Consistent held) (hp : s.pools.get? p = some cell) (size : Nat) :
    Creation s held p size ((createIn p size).run s).result ((createIn p size).run s).state ∧
      ((createIn p size).run s).state.registries = s.registries := by
  obtain ⟨ho, hcontents, horphans, hrefs⟩ := hs.withOrphan hp size
  have hlost : ∀ e, Creation s held p size (.error (.fault e)) (s.withOrphan p size) :=
    fun e => .faulted ho hcontents horphans hrefs
  have hrun := createIn_run hp (hs.wellFormed p cell hp) (hs.positive hp) size
  simp only at hrun
  rw [hrun]
  split
  · exact ⟨hlost _, rfl⟩
  · split
    · exact ⟨hlost _, rfl⟩
    · next hsize =>
      split
      · exact ⟨hlost _, rfl⟩
      · split
        · next hg =>
          obtain ⟨ht, hcontents, horphans⟩ := hs.created hp (Nat.le_of_not_lt hsize) hg
          exact ⟨.done s.contents_next ht hcontents horphans, rfl⟩
        · exact ⟨.refused (hs.abandoned hp size), rfl⟩

theorem create_creation {r : RegistryId} {registry : Registry} (hs : s.Consistent held)
    (hr : s.registries.get? r = some registry) (size : Nat) :
    let o := (create r size).run s
    (∃ e, SizeClass.forSize size = .error e ∧ o.result = .error (.error e) ∧ o.state = s) ∨
      ∃ c p, SizeClass.forSize size = .ok c ∧
        (o.state.registries.get? r).bind (·.pool? c) = some p ∧
        Creation s held p size o.result o.state := by
  simp only
  cases hc : SizeClass.forSize size with
  | error e =>
    refine .inl ⟨e, rfl, ?_⟩
    rw [create, poolForSize, hc]
    exact ⟨rfl, rfl⟩
  | ok c =>
    obtain ⟨p, t, events, ht, hconsistent, hsame, ⟨cell, hp⟩, hregistry⟩ := poolForClass_run hs hr c
    have hsize : (poolForSize r size).run s = ⟨.ok p, t, events⟩ := by
      rw [poolForSize, hc, Op.run_ofExcept_ok_bind, ht]
    obtain ⟨hcreation, hregistries⟩ := createIn_creation hconsistent hp size
    rw [create, Op.run_bind_ok hsize]
    refine .inr ⟨c, p, rfl, ?_, .of_calm ⟨hconsistent, hsame⟩ hcreation⟩
    simp only [hregistries]
    exact hregistry

theorem destroy_cases (hs : s.Consistent held) (hc : s.contents h = some b) :
    let o := (destroy h).run s
    (o.result = .ok () ∧ o.state.Consistent held ∧
        o.state.contents = Function.update s.contents h none ∧
        ∀ q, o.state.orphans q = s.orphans q) ∨
      (∃ e, o.result = .error (.fault e)) ∧ s.Calm held o.state := by
  obtain ⟨handle, p, cell, i, hh, hp, hi, -, -⟩ := hs.exists_block hc
  obtain ⟨m, hm⟩ := (hs.wellFormed p cell hp).exists_owner
    (show cell.pool.len - 1 < cell.pool.len by have := hi.1; omega)
  have hrun := destroy_run hs hh hp hi hm
  simp only at hrun ⊢
  rw [hrun]
  split
  · exact .inr ⟨⟨_, rfl⟩, hs.setOwned hh false⟩
  · split
    · exact .inr ⟨⟨_, rfl⟩, hs.setOwned hh false⟩
    · exact .inl ⟨rfl, hs.destroyed hh hp hi hm⟩

theorem createIn_inUse (hs : s.Consistent held) (hp : s.pools.get? p = some cell) (size : Nat) :
    ((createIn p size).run s).result = .error (.fault .poolInUse) ↔ cell.readers ≠ 0 := by
  have hrun := createIn_run hp (hs.wellFormed p cell hp) (hs.positive hp) size
  simp only at hrun
  rw [hrun]
  split
  · next hr => exact iff_of_true rfl hr
  · next hr =>
    refine iff_of_false ?_ hr
    split
    · exact nofun
    · split
      · exact nofun
      · split
        · exact nofun
        · exact nofun

theorem createIn_ok (hs : s.Consistent held) (hp : s.pools.get? p = some cell) (hr : cell.readers = 0)
    (ht : s.thread = cell.pool.ownerThread) (hsize : size ≤ cell.pool.blockSize)
    (hg : cell.pool.CanAllocate s.grants) :
    ((createIn p size).run s).result = .ok s.handles.next := by
  have hrun := createIn_run hp (hs.wellFormed p cell hp) (hs.positive hp) size
  simp only at hrun
  rw [hrun, if_neg (not_not.mpr hr), if_neg (Nat.not_lt_of_le hsize), if_neg (not_not.mpr ht), if_pos hg]

theorem create_known {r : RegistryId} {registry : Registry} {k : SizeClass}
    (hr : s.registries.get? r = some registry) (hk : SizeClass.forSize size = .ok k)
    (hp : registry.pool? k = some p) : (create r size).run s = (createIn p size).run s := by
  have hpool : (poolForSize r size).run s = ⟨.ok p, s, []⟩ := by
    rw [poolForSize, hk, Op.run_ofExcept_ok_bind, poolForClass_known hr hp]
  rw [create, Op.run_bind_silent hpool]

theorem create_fresh {r : RegistryId} {registry : Registry} {k : SizeClass}
    (hr : s.registries.get? r = some registry) (hk : SizeClass.forSize size = .ok k)
    (hp : registry.pool? k = none) :
    (create r size).run s =
      let o := (createIn s.pools.next size).run (s.opened r registry k)
      ⟨o.result, o.state, .poolCreated k.blockSize :: o.events⟩ := by
  have hpool : (poolForSize r size).run s =
      ⟨.ok s.pools.next, s.opened r registry k, [.poolCreated k.blockSize]⟩ := by
    rw [poolForSize, hk, Op.run_ofExcept_ok_bind, poolForClass_fresh hr hp]
  rw [create, Op.run_bind_ok hpool]
  rfl

theorem create_fresh_unused {r : RegistryId} {registry : Registry} {k : SizeClass}
    (hs : s.Consistent held) (hr : s.registries.get? r = some registry)
    (hk : SizeClass.forSize size = .ok k) (hp : registry.pool? k = none) :
    ((create r size).run s).result ≠ .error (.fault .poolInUse) := by
  have hnew := (get?_opened s r registry k s.pools.next).trans (if_pos rfl)
  rw [create_fresh hr hk hp]
  exact fun hu => (createIn_inUse (hs.opened hr hp).1 hnew size).mp hu rfl

theorem destroy_result {handle : Handle} {i : Nat} (hs : s.Consistent held)
    (hh : s.handles.get? h = some handle) (hp : s.pools.get? p = some cell) (hi : cell.pool.Owns i h) :
    ((destroy h).run s).result =
      if cell.readers ≠ 0 then .error (.fault .poolInUse)
      else if s.thread ≠ cell.pool.ownerThread then .error (.fault (.wrongThread cell.pool.blockSize))
      else .ok () := by
  obtain ⟨m, hm⟩ := (hs.wellFormed p cell hp).exists_owner
    (show cell.pool.len - 1 < cell.pool.len by have := hi.1; omega)
  have hrun := destroy_run hs hh hp hi hm
  simp only at hrun
  rw [hrun]
  split
  · rfl
  · split <;> rfl

end OffRow.Store
