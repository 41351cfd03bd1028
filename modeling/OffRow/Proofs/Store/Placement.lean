import OffRow.Store.Strings
import OffRow.Proofs.Pool.Holdings
import OffRow.Proofs.Store.Freeing
import Mathlib.Data.List.FinRange
/-!
Strings and their blocks. Every live block is where its owner says, and every handle that has a
block owns it; so a string is found through its handle wherever its block has been moved.
-/

namespace OffRow

structure Handle.Unplaced (h : Handle) : Prop where
  no_block : ∀ p w, h.location ≠ .block p w
  pooled : ∀ p, h.pool = some p → h.temporary = false ∧ ∀ a w, h.location ≠ .scratch a w

namespace Store

structure Placed (s : Store) : Prop where
  wellFormed : s.WellFormed
  settled : ∀ {p cell i h}, s.pools.get? p = some cell → cell.pool.Owns i h →
    ∃ handle, s.handles.get? h = some handle ∧ handle.pool = some p ∧
      handle.location = .block p (Pool.placeOf cell.pool.firstSlots i) ∧
      handle.size ≤ cell.pool.blockSize
  located : ∀ {h handle p w}, s.handles.get? h = some handle → handle.location = .block p w →
    ∃ cell i, s.pools.get? p = some cell ∧ cell.pool.Owns i h ∧
      w = Pool.placeOf cell.pool.firstSlots i
  pooled : ∀ {h handle p}, s.handles.get? h = some handle → handle.pool = some p →
    handle.temporary = false ∧ ∀ a w, handle.location ≠ .scratch a w

def contents (s : Store) (h : HandleId) : Option ByteArray :=
  (s.handles.get? h).bind fun handle =>
    match handle.location with
    | .block .. => s.bytes? handle
    | _ => none

def Block (s : Store) (p : PoolId) (i : Nat) (h : HandleId) (payload : ByteArray) : Prop :=
  ∃ cell, s.pools.get? p = some cell ∧ cell.pool.Holds i h payload

def Stores (s : Store) (h : HandleId) (b : ByteArray) : Prop :=
  ∃ p i payload handle, s.Block p i h payload ∧ s.handles.get? h = some handle ∧
    b = payload.extract 0 handle.size

variable {s t : Store} {p q : PoolId} {cell : SharedPool} {h owner m : HandleId} {i j : Nat}
  {handle : Handle} {b : ByteArray}

namespace Placed

theorem owns_inj (hs : s.Placed) {cell' : SharedPool} (hp : s.pools.get? p = some cell)
    (hq : s.pools.get? q = some cell') (hi : cell.pool.Owns i h) (hj : cell'.pool.Owns j h) :
    p = q ∧ i = j := by
  obtain ⟨a, ha, -, hl, -⟩ := hs.settled hp hi
  obtain ⟨a', ha', -, hl', -⟩ := hs.settled hq hj
  rw [ha] at ha'
  cases ha'
  rw [hl] at hl'
  simp only [Address.block.injEq] at hl'
  obtain ⟨rfl, hw⟩ := hl'
  rw [hp] at hq
  cases hq
  exact ⟨rfl, Pool.placeOf_inj.mp hw⟩

theorem length_owners (hs : s.Placed) (hp : s.pools.get? p = some cell) {l : List HandleId}
    (hn : l.Nodup) (hl : ∀ h, h ∈ l ↔ ∃ i, cell.pool.Owns i h) : l.length = cell.pool.len := by
  choose owner howner using fun i : Fin cell.pool.len =>
    (hs.wellFormed p cell hp).exists_owner i.isLt
  have hinj : Function.Injective owner := by
    intro i j he
    exact Fin.ext (hs.owns_inj hp hp (howner i) (he ▸ howner j)).2
  have hperm : l.Perm (List.ofFn owner) := by
    apply (List.perm_ext_iff_of_nodup hn (List.nodup_ofFn.mpr hinj)).mpr
    intro h
    rw [hl, List.mem_ofFn]
    constructor
    · rintro ⟨i, hi⟩
      exact ⟨⟨i, hi.1⟩, (howner ⟨i, hi.1⟩).owner_eq hi⟩
    · rintro ⟨i, rfl⟩
      exact ⟨i, howner i⟩
  rw [hperm.length_eq, List.length_ofFn]

theorem contents_eq_some (hs : s.Placed) : s.contents h = some b ↔ s.Stores h b := by
  constructor
  · intro hc
    obtain ⟨handle, hh, hc⟩ := Option.bind_eq_some_iff.mp hc
    cases hl : handle.location with
    | nowhere => simp [hl] at hc
    | scratch a w => simp [hl] at hc
    | block p w =>
      obtain ⟨cell, i, hp, ho, rfl⟩ := hs.located hh hl
      obtain ⟨payload, hi, hg⟩ := Pool.owns_iff.mp ho
      have hslot : cell.pool.slot? (Pool.placeOf cell.pool.firstSlots i) = some _ := hg
      simp only [hl, bytes?, hp, Option.bind_some, hslot, Option.map_some, Option.some.injEq] at hc
      exact ⟨p, i, payload, handle, ⟨cell, hp, hi, hg⟩, hh, hc.symm⟩
  · rintro ⟨p, i, payload, handle, ⟨cell, hp, ho⟩, hh, rfl⟩
    obtain ⟨handle', hh', -, hl, -⟩ := hs.settled hp ho.owns
    rw [hh] at hh'
    cases hh'
    have hslot : cell.pool.slot? (Pool.placeOf cell.pool.firstSlots i) = some _ := ho.2
    simp only [contents, hh, Option.bind_some, hl, bytes?, hp, hslot, Option.map_some]

theorem contents_isSome (hs : s.Placed) :
    (s.contents h).isSome ↔
      ∃ handle p w, s.handles.get? h = some handle ∧ handle.location = .block p w := by
  constructor
  · intro hc
    obtain ⟨b, hb⟩ := Option.isSome_iff_exists.mp hc
    obtain ⟨p, i, payload, handle, ⟨cell, hp, ho⟩, hh, -⟩ := hs.contents_eq_some.mp hb
    obtain ⟨handle', hh', -, hl, -⟩ := hs.settled hp ho.owns
    exact ⟨handle', p, _, hh', hl⟩
  · rintro ⟨handle, p, w, hh, hl⟩
    obtain ⟨cell, i, hp, ho, rfl⟩ := hs.located hh hl
    obtain ⟨payload, ho⟩ := Pool.owns_iff.mp ho
    rw [hs.contents_eq_some.mpr ⟨p, i, payload, handle, ⟨cell, hp, ho⟩, hh, rfl⟩]
    rfl

theorem contents_eq {f : HandleId → Option ByteArray} (hs : s.Placed)
    (hf : ∀ h b, s.Stores h b ↔ f h = some b) : s.contents = f := by
  funext x
  apply Option.ext
  intro b
  rw [hs.contents_eq_some, hf]

theorem contents_congr (hs : s.Placed) (ht : t.Placed) (h : ∀ h b, t.Stores h b ↔ s.Stores h b) :
    t.contents = s.contents := by
  apply ht.contents_eq
  intro x b
  rw [h, hs.contents_eq_some]

theorem congr (hs : s.Placed) (hp : t.pools = s.pools) (hh : t.handles = s.handles) :
    t.Placed where
  wellFormed p cell hc := hs.wellFormed p cell (hp ▸ hc)
  settled hc ho := by
    rw [hp] at hc
    rw [hh]
    exact hs.settled hc ho
  located hc hl := by
    rw [hh] at hc
    rw [hp]
    exact hs.located hc hl
  pooled hc hl := by
    rw [hh] at hc
    exact hs.pooled hc hl

theorem withHandles (hs : s.Placed) (handles : Table .handle Handle)
    (hold : ∀ h handle p w, s.handles.get? h = some handle → handle.location = .block p w →
      ∃ owned, handles.get? h = some { handle with owned })
    (hnew : ∀ h handle, handles.get? h = some handle →
      (∃ owned, s.handles.get? h = some { handle with owned }) ∨ handle.Unplaced) :
    Placed { s with handles } ∧ contents { s with handles } = s.contents := by
  have hp : Placed { s with handles } := by
    refine ⟨hs.wellFormed, ?_, ?_, ?_⟩
    · intro p cell i h hp ho
      obtain ⟨handle, hh, hpool, hl, hsize⟩ := hs.settled hp ho
      obtain ⟨owned, hh'⟩ := hold h handle p _ hh hl
      exact ⟨_, hh', hpool, hl, hsize⟩
    · intro h handle p w hh hl
      rcases hnew h handle hh with ⟨owned, hh'⟩ | hu
      · exact hs.located hh' hl
      · exact absurd hl (hu.no_block p w)
    · intro h handle p hh hpool
      rcases hnew h handle hh with ⟨owned, hh'⟩ | hu
      · have hp := hs.pooled hh' hpool
        exact hp
      · exact hu.pooled p hpool
  refine ⟨hp, hs.contents_congr hp ?_⟩
  intro h b
  constructor
  · rintro ⟨p, i, payload, handle, ⟨cell, hp, ho⟩, hh, rfl⟩
    obtain ⟨handle', hh', -, hl, -⟩ := hs.settled hp ho.owns
    obtain ⟨owned, hg⟩ := hold h handle' p _ hh' hl
    have he : handle = { handle' with owned } := Option.some.inj (hh.symm.trans hg)
    exact ⟨p, i, payload, handle', ⟨cell, hp, ho⟩, hh', by rw [he]⟩
  · rintro ⟨p, i, payload, handle, ⟨cell, hp, ho⟩, hh, rfl⟩
    obtain ⟨handle', hh', -, hl, -⟩ := hs.settled hp ho.owns
    rw [hh] at hh'
    cases hh'
    obtain ⟨owned, hg⟩ := hold h handle p _ hh hl
    exact ⟨p, i, payload, _, ⟨cell, hp, ho⟩, hg, rfl⟩

theorem withPools (hs : s.Placed) (pools : Table .pool SharedPool)
    (hold : ∀ p cell, s.pools.get? p = some cell → 0 < cell.pool.len →
      ∃ c, pools.get? p = some c ∧ c.pool = cell.pool)
    (hnew : ∀ p cell, pools.get? p = some cell →
      (∃ c, s.pools.get? p = some c ∧ c.pool = cell.pool) ∨
        cell.pool.WellFormed ∧ cell.pool.len = 0) :
    Placed { s with pools } ∧ contents { s with pools } = s.contents := by
  have hp : Placed { s with pools } := by
    refine ⟨?_, ?_, ?_, hs.pooled⟩
    · intro p cell hp
      rcases hnew p cell hp with ⟨c, hc, he⟩ | ⟨hw, -⟩
      · exact he ▸ hs.wellFormed p c hc
      · exact hw
    · intro p cell i h hp ho
      rcases hnew p cell hp with ⟨c, hc, he⟩ | ⟨-, hl⟩
      · exact he ▸ hs.settled hc (he ▸ ho)
      · exact absurd ho.1 (hl ▸ Nat.not_lt_zero i)
    · intro h handle p w hh hl
      obtain ⟨cell, i, hp, ho, rfl⟩ := hs.located hh hl
      obtain ⟨c, hc, he⟩ := hold p cell hp (Nat.zero_lt_of_lt ho.1)
      exact ⟨c, i, hc, he ▸ ho, by rw [he]⟩
  refine ⟨hp, hs.contents_congr hp ?_⟩
  intro h b
  constructor
  · rintro ⟨p, i, payload, handle, ⟨cell, hp, ho⟩, hh, rfl⟩
    rcases hnew p cell hp with ⟨c, hc, he⟩ | ⟨-, hl⟩
    · exact ⟨p, i, payload, handle, ⟨c, hc, he ▸ ho⟩, hh, rfl⟩
    · exact absurd ho.1 (hl ▸ Nat.not_lt_zero i)
  · rintro ⟨p, i, payload, handle, ⟨cell, hp, ho⟩, hh, rfl⟩
    obtain ⟨c, hc, he⟩ := hold p cell hp (Nat.zero_lt_of_lt ho.1)
    exact ⟨p, i, payload, handle, ⟨c, hc, he ▸ ho⟩, hh, rfl⟩

end Placed

theorem get?_setPool_eq (pool : Pool) :
    (s.setPool p pool).pools.get? q =
      if p = q then (s.pools.get? q).map fun cell => { cell with pool } else s.pools.get? q :=
  Table.get?_modify _ _ _ _

theorem get?_setLocation (location : Address) :
    (s.setLocation h location).handles.get? m =
      if h = m then (s.handles.get? m).map fun handle => { handle with location }
      else s.handles.get? m :=
  Table.get?_modify _ _ _ _

theorem block_setPool (hp : s.pools.get? p = some cell) (pool : Pool) :
    (s.setPool p pool).Block q i h b ↔ if p = q then pool.Holds i h b else s.Block q i h b := by
  unfold Block
  rw [get?_setPool_eq]
  split
  · next he =>
    subst he
    simp [hp]
  · rfl

namespace Placed

theorem located_cases (hs : s.Placed) (hp : s.pools.get? p = some cell) {w : Place}
    (hh : s.handles.get? h = some handle) (hl : handle.location = .block q w) :
    (q = p ∧ ∃ i, cell.pool.Owns i h ∧ w = Pool.placeOf cell.pool.firstSlots i) ∨ p ≠ q := by
  obtain ⟨c, i, hq, hi, rfl⟩ := hs.located hh hl
  by_cases he : p = q
  · subst he
    rw [hp] at hq
    cases hq
    exact .inl ⟨rfl, i, hi, rfl⟩
  · exact .inr he

theorem ofPool (hs : s.Placed) (hp : s.pools.get? p = some cell) {pool : Pool}
    {handles : Table .handle Handle} (hw : pool.WellFormed)
    (hf : pool.firstSlots = cell.pool.firstSlots) (hb : pool.blockSize = cell.pool.blockSize)
    (hsettled : ∀ {i x}, pool.Owns i x → ∃ a, handles.get? x = some a ∧ a.pool = some p ∧
      a.location = .block p (Pool.placeOf cell.pool.firstSlots i) ∧ a.size ≤ cell.pool.blockSize)
    (helse : ∀ {q c i x}, p ≠ q → s.pools.get? q = some c → c.pool.Owns i x →
      handles.get? x = s.handles.get? x)
    (hlocated : ∀ {x a q w}, handles.get? x = some a → a.location = .block q w →
      (q = p ∧ ∃ i, pool.Owns i x ∧ w = Pool.placeOf cell.pool.firstSlots i) ∨
        p ≠ q ∧ s.handles.get? x = some a)
    (hpooled : ∀ {x a q}, handles.get? x = some a → a.pool = some q →
      a.temporary = false ∧ ∀ b w, a.location ≠ .scratch b w) :
    Placed { s.setPool p pool with handles } := by
  refine ⟨hs.wellFormed.setPool hw, ?_, ?_, hpooled⟩
  · intro q c i x hq hi
    change (s.setPool p pool).pools.get? q = some c at hq
    change ∃ a, handles.get? x = some a ∧ _
    rw [get?_setPool_eq] at hq
    by_cases he : p = q
    · subst he
      rw [if_pos rfl, hp] at hq
      cases hq
      rw [hf, hb]
      exact hsettled hi
    · rw [if_neg he] at hq
      rw [helse he hq hi]
      exact hs.settled hq hi
  · intro x a q w hx hl
    rcases hlocated hx hl with ⟨rfl, i, hi, rfl⟩ | ⟨hne, hx⟩
    · exact ⟨_, i, get?_setPool hp pool, hi, by rw [hf]⟩
    · obtain ⟨c, i, hq, hi, rfl⟩ := hs.located hx hl
      refine ⟨c, i, ?_, hi, rfl⟩
      change (s.setPool p pool).pools.get? q = some c
      rw [get?_setPool_eq, if_neg hne]
      exact hq

theorem setPool (hs : s.Placed) (hp : s.pools.get? p = some cell) {pool : Pool}
    (hw : pool.WellFormed) (hf : pool.firstSlots = cell.pool.firstSlots)
    (hb : pool.blockSize = cell.pool.blockSize)
    (ho : ∀ i h, pool.Owns i h ↔ cell.pool.Owns i h) : (s.setPool p pool).Placed := by
  apply hs.ofPool hp hw hf hb
  · exact fun hi => hs.settled hp ((ho _ _).mp hi)
  · exact fun _ _ _ => rfl
  · intro x a q w hx hl
    rcases hs.located_cases hp hx hl with ⟨rfl, i, hi, rfl⟩ | hne
    · exact .inl ⟨rfl, i, (ho i x).mpr hi, rfl⟩
    · exact .inr ⟨hne, hx⟩
  · exact hs.pooled

theorem nowhere_owns (hs : s.Placed) (hh : s.handles.get? h = some handle)
    (hl : handle.location = .nowhere) (hp : s.pools.get? p = some cell) : ¬cell.pool.Owns i h := by
  intro ho
  obtain ⟨handle', hh', -, hl', -⟩ := hs.settled hp ho
  rw [hh] at hh'
  cases hh'
  rw [hl] at hl'
  cases hl'

end Placed

end Store

end OffRow
