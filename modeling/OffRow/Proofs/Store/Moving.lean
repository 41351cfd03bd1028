import OffRow.Proofs.Patching
import OffRow.Proofs.Store.Placement
import Mathlib.Logic.Function.Basic

namespace OffRow.Store

variable {s : Store} {p q : PoolId} {cell : SharedPool} {h m : HandleId} {i j : Nat}
  {handle : Handle}

def pushed (s : Store) (p : PoolId) (pool : Pool) (h : HandleId) : Store :=
  (s.setPool p (pool.roomy.pushed h)).setLocation h (.block p (Pool.placeOf pool.firstSlots pool.len))

theorem get?_pushed (hh : s.handles.get? h = some handle) (pool : Pool) :
    (s.pushed p pool h).handles.get? m =
      if h = m then
        some { handle with location := .block p (Pool.placeOf pool.firstSlots pool.len) }
      else s.handles.get? m := by
  rw [Store.pushed, get?_setLocation]
  split
  · next he =>
    subst he
    change (s.handles.get? h).map _ = _
    rw [hh]
    rfl
  · rfl

namespace Placed

variable {grants : Nat → Bool}

theorem pushed (hs : s.Placed) (hp : s.pools.get? p = some cell)
    (hh : s.handles.get? h = some handle) (hpool : handle.pool = some p)
    (hl : handle.location = .nowhere) (hsize : handle.size ≤ cell.pool.blockSize)
    (hg : cell.pool.CanAllocate grants) : (s.pushed p cell.pool h).Placed := by
  have hw := hs.wellFormed p cell hp
  have hother : ∀ {q c i x}, s.pools.get? q = some c → c.pool.Owns i x →
      (s.pushed p cell.pool h).handles.get? x = s.handles.get? x := by
    intro q c i x hq hi
    have hn : h ≠ x := fun e => hs.nowhere_owns hh hl hq (e ▸ hi)
    rw [get?_pushed hh, if_neg hn]
  apply hs.ofPool hp ((hw.roomy hg).pushed (Pool.len_lt_roomy hw)) Pool.roomy_firstSlots
    Pool.roomy_blockSize
  · intro i x hi
    rcases (Pool.owns_pushed hw hg).mp hi with hi | ⟨rfl, rfl⟩
    · obtain ⟨a, ha⟩ := hs.settled hp hi
      exact ⟨a, (hother hp hi).trans ha.1, ha.2⟩
    · exact ⟨_, (get?_pushed hh cell.pool).trans (if_pos rfl), hpool, rfl, hsize⟩
  · exact fun _ hq hi => hother hq hi
  · intro x a q w hx ha
    have hx := (get?_pushed hh cell.pool).symm.trans hx
    split at hx
    · next he =>
      cases hx
      cases ha
      exact .inl ⟨rfl, _, (Pool.owns_pushed hw hg).mpr (.inr ⟨rfl, he.symm⟩), rfl⟩
    · rcases hs.located_cases hp hx ha with ⟨rfl, i, hi, rfl⟩ | hne
      · exact .inl ⟨rfl, i, (Pool.owns_pushed hw hg).mpr (.inl hi), rfl⟩
      · exact .inr ⟨hne, hx⟩
  · intro x a q hx ha
    have hx := (get?_pushed hh cell.pool).symm.trans hx
    split at hx
    · cases hx
      exact ⟨(hs.pooled hh ha).1, fun _ _ => Address.noConfusion⟩
    · exact hs.pooled hx ha

end Placed

theorem block_pushed (hw : cell.pool.WellFormed) (hp : s.pools.get? p = some cell)
    {grants : Nat → Bool} (hg : cell.pool.CanAllocate grants) {b : ByteArray} :
    (s.pushed p cell.pool h).Block q i m b ↔
      s.Block q i m b ∨
        q = p ∧ i = cell.pool.len ∧ m = h ∧ b = Bytes.zeros cell.pool.blockSize := by
  change (s.setPool p _).Block q i m b ↔ _
  rw [block_setPool hp]
  split
  · next he =>
    subst he
    rw [Pool.holds_pushed hw hg]
    simp [Block, hp]
  · next he => simp [Ne.symm he]

theorem Placed.contents_pushed (hs : s.Placed) (hp : s.pools.get? p = some cell)
    (hh : s.handles.get? h = some handle) (hpool : handle.pool = some p)
    (hl : handle.location = .nowhere) (hsize : handle.size ≤ cell.pool.blockSize)
    {grants : Nat → Bool} (hg : cell.pool.CanAllocate grants) :
    (s.pushed p cell.pool h).contents =
      Function.update s.contents h (some (Bytes.zeros handle.size)) := by
  have hblock := fun q i m payload => block_pushed (q := q) (i := i) (h := h) (m := m)
    (b := payload) (hs.wellFormed p cell hp) hp hg
  have hnone : ∀ q i payload, ¬s.Block q i h payload := by
    rintro q i payload ⟨c, hc, ho⟩
    exact hs.nowhere_owns hh hl hc ho.owns
  apply (hs.pushed hp hh hpool hl hsize hg).contents_eq
  intro x b
  rw [Function.update_apply]
  by_cases hx : x = h
  · subst hx
    rw [if_pos rfl, Option.some.injEq]
    constructor
    · rintro ⟨q, i, payload, a, ho, ha, rfl⟩
      rw [get?_pushed hh, if_pos rfl, Option.some.injEq] at ha
      subst ha
      rcases (hblock _ _ _ _).mp ho with ho | ⟨-, -, -, rfl⟩
      · exact absurd ho (hnone q i payload)
      · exact (Bytes.extract_zeros _ hsize).symm
    · rintro rfl
      have ha := get?_pushed (m := x) (p := p) hh cell.pool
      rw [if_pos rfl] at ha
      exact ⟨p, cell.pool.len, _, _, (hblock _ _ _ _).mpr (.inr ⟨rfl, rfl, rfl, rfl⟩), ha,
        (Bytes.extract_zeros _ hsize).symm⟩
  · rw [if_neg hx, hs.contents_eq_some]
    apply exists_congr
    intro q
    apply exists_congr
    intro i
    apply exists_congr
    intro payload
    rw [hblock, get?_pushed hh, if_neg (Ne.symm hx)]
    simp [hx]

def pulled (s : Store) (p : PoolId) (pool : Pool) (i : Nat) (h m : HandleId) : Store :=
  let t := (s.setPool p (pool.freed i)).setLocation m (.block p (Pool.placeOf pool.firstSlots i))
  { t with handles := t.handles.erase h }

theorem get?_pulled (pool : Pool) {x : HandleId} :
    (s.pulled p pool i h m).handles.get? x =
      if h = x then none
      else if m = x then (s.handles.get? x).map fun handle =>
        { handle with location := .block p (Pool.placeOf pool.firstSlots i) }
      else s.handles.get? x := by
  rw [pulled]
  simp only [Table.get?_erase]
  split
  · rfl
  · exact get?_setLocation _

theorem block_pulled (hw : cell.pool.WellFormed) (hp : s.pools.get? p = some cell)
    (hi : i < cell.pool.len) {last b : ByteArray}
    (hm : cell.pool.Holds (cell.pool.len - 1) m last) {x : HandleId} :
    (s.pulled p cell.pool i h m).Block q j x b ↔
      if p = q then
        j < cell.pool.len - 1 ∧ if j = i then x = m ∧ b = last else cell.pool.Holds j x b
      else s.Block q j x b := by
  change (s.setPool p _).Block q j x b ↔ _
  rw [block_setPool hp]
  split
  · exact Pool.holds_freed hw hi hm
  · rfl

namespace Placed

variable {x : HandleId}

theorem owns_freed (hw : cell.pool.WellFormed) (hi : i < cell.pool.len)
    (hm : cell.pool.Owns (cell.pool.len - 1) m) :
    (cell.pool.freed i).Owns j x ↔
      j < cell.pool.len - 1 ∧ if j = i then x = m else cell.pool.Owns j x := by
  obtain ⟨last, hm⟩ := Pool.owns_iff.mp hm
  rw [Pool.owns_iff]
  simp only [Pool.holds_freed hw hi hm]
  split
  · simp
  · simp [Pool.owns_iff]

theorem get?_pulled_else (hs : s.Placed) (hp : s.pools.get? p = some cell) (hi : cell.pool.Owns i h)
    (hm : cell.pool.Owns (cell.pool.len - 1) m) {c : SharedPool} (hq : s.pools.get? q = some c)
    (hj : c.pool.Owns j x) (hji : ¬(p = q ∧ i = j)) (hlast : ¬(p = q ∧ cell.pool.len - 1 = j)) :
    (s.pulled p cell.pool i h m).handles.get? x = s.handles.get? x := by
  have hn : h ≠ x := fun e => hji (hs.owns_inj hp hq hi (e ▸ hj))
  have hmx : m ≠ x := fun e => hlast (hs.owns_inj hp hq hm (e ▸ hj))
  rw [get?_pulled, if_neg hn, if_neg hmx]

theorem settled_pulled (hs : s.Placed) (hp : s.pools.get? p = some cell) (hi : cell.pool.Owns i h)
    (hm : cell.pool.Owns (cell.pool.len - 1) m) (hj : (cell.pool.freed i).Owns j x) :
    ∃ a, (s.pulled p cell.pool i h m).handles.get? x = some a ∧ a.pool = some p ∧
      a.location = .block p (Pool.placeOf cell.pool.firstSlots j) ∧ a.size ≤ cell.pool.blockSize := by
  obtain ⟨hlt, ho⟩ := (owns_freed (hs.wellFormed p cell hp) hi.1 hm).mp hj
  split at ho
  -- Slot `i` now has the owner of the last block, the only one to be told a new place.
  · next hji =>
    subst hji
    subst ho
    have hn : h ≠ x := by
      rintro rfl
      have := (hs.owns_inj hp hp hi hm).2
      omega
    obtain ⟨a, ha, hpool, -, hsize⟩ := hs.settled hp hm
    refine ⟨{ a with location := .block p (Pool.placeOf cell.pool.firstSlots j) },
      (get?_pulled cell.pool).trans ?_, hpool, rfl, hsize⟩
    rw [if_neg hn, if_pos rfl, ha]
    rfl
  · next hji =>
    obtain ⟨a, ha, hrest⟩ := hs.settled hp ho
    exact ⟨a, (hs.get?_pulled_else hp hi hm hp ho (by omega) (by omega)).trans ha, hrest⟩

theorem located_pulled (hs : s.Placed) (hp : s.pools.get? p = some cell) (hi : cell.pool.Owns i h)
    (hm : cell.pool.Owns (cell.pool.len - 1) m) {a : Handle} {w : Place}
    (hx : (s.pulled p cell.pool i h m).handles.get? x = some a) (ha : a.location = .block q w) :
    (q = p ∧ ∃ j, (cell.pool.freed i).Owns j x ∧ w = Pool.placeOf cell.pool.firstSlots j) ∨
      p ≠ q ∧ s.handles.get? x = some a := by
  have hw := hs.wellFormed p cell hp
  rw [get?_pulled] at hx
  split at hx
  · cases hx
  · next hn =>
    split at hx
    · next hmx =>
      obtain ⟨_, -, rfl⟩ := Option.map_eq_some_iff.mp hx
      cases ha
      have hlast : i ≠ cell.pool.len - 1 := by
        rintro rfl
        exact hn (hi.owner_eq hm |>.trans hmx)
      have hlt := hi.1
      refine .inl ⟨rfl, i, (owns_freed hw hi.1 hm).mpr ⟨by omega, ?_⟩, rfl⟩
      rw [if_pos rfl, hmx]
    · next hmx =>
      rcases hs.located_cases hp hx ha with ⟨rfl, j, hj, rfl⟩ | hne
      · have hji : j ≠ i := by
          rintro rfl
          exact hn (hi.owner_eq hj)
        have hlast : j ≠ cell.pool.len - 1 := by
          rintro rfl
          exact hmx (hm.owner_eq hj)
        have hlt := hj.1
        refine .inl ⟨rfl, j, (owns_freed hw hi.1 hm).mpr ⟨by omega, ?_⟩, rfl⟩
        rw [if_neg hji]
        exact hj
      · exact .inr ⟨hne, hx⟩

theorem pulled (hs : s.Placed) (hp : s.pools.get? p = some cell) (hi : cell.pool.Owns i h)
    (hm : cell.pool.Owns (cell.pool.len - 1) m) : (s.pulled p cell.pool i h m).Placed := by
  have hw := hs.wellFormed p cell hp
  apply hs.ofPool hp (hw.freed hi.1) Pool.freed_firstSlots Pool.freed_blockSize
  · exact fun hj => hs.settled_pulled hp hi hm hj
  · exact fun hne hq hj =>
      hs.get?_pulled_else hp hi hm hq hj (fun e => hne e.1) fun e => hne e.1
  · exact fun hx ha => hs.located_pulled hp hi hm hx ha
  · intro x a q hx ha
    have hx := (get?_pulled cell.pool).symm.trans hx
    split at hx
    · cases hx
    · split at hx
      · obtain ⟨a', hx', rfl⟩ := Option.map_eq_some_iff.mp hx
        exact ⟨(hs.pooled hx' ha).1, fun _ _ => Address.noConfusion⟩
      · exact hs.pooled hx ha

theorem size_pulled (pool : Pool) {a : Handle} (ha : (s.pulled p pool i h m).handles.get? x = some a) :
    h ≠ x ∧ ∃ a', s.handles.get? x = some a' ∧ a.size = a'.size := by
  rw [get?_pulled] at ha
  split at ha
  · cases ha
  · next hn =>
    split at ha
    · obtain ⟨a', ha', rfl⟩ := Option.map_eq_some_iff.mp ha
      exact ⟨hn, a', ha', rfl⟩
    · exact ⟨hn, a, ha, rfl⟩

theorem exists_pulled (pool : Pool) {a : Handle} (ha : s.handles.get? x = some a) (hn : h ≠ x) :
    ∃ a', (s.pulled p pool i h m).handles.get? x = some a' ∧ a'.size = a.size := by
  rw [get?_pulled, if_neg hn, ha]
  split
  · exact ⟨_, rfl, rfl⟩
  · exact ⟨a, rfl, rfl⟩

theorem stores_of_pulled (hs : s.Placed) (hp : s.pools.get? p = some cell)
    (hi : cell.pool.Owns i h) (hm : cell.pool.Owns (cell.pool.len - 1) m) {b : ByteArray}
    (hb : (s.pulled p cell.pool i h m).Stores x b) : h ≠ x ∧ s.Stores x b := by
  obtain ⟨last, hlast⟩ := Pool.owns_iff.mp hm
  obtain ⟨q, j, payload, a, ho, ha, rfl⟩ := hb
  obtain ⟨hn, a', ha', hsize⟩ := size_pulled cell.pool ha
  refine ⟨hn, ?_⟩
  rw [hsize]
  rw [block_pulled (hs.wellFormed p cell hp) hp hi.1 hlast] at ho
  split at ho
  · obtain ⟨-, ho⟩ := ho
    split at ho
    · obtain ⟨rfl, rfl⟩ := ho
      exact ⟨p, _, _, a', ⟨cell, hp, hlast⟩, ha', rfl⟩
    · exact ⟨p, j, payload, a', ⟨cell, hp, ho⟩, ha', rfl⟩
  · exact ⟨q, j, payload, a', ho, ha', rfl⟩

theorem stores_pulled (hs : s.Placed) (hp : s.pools.get? p = some cell)
    (hi : cell.pool.Owns i h) (hm : cell.pool.Owns (cell.pool.len - 1) m) (hx : x ≠ h)
    {b : ByteArray} (hb : s.Stores x b) : (s.pulled p cell.pool i h m).Stores x b := by
  obtain ⟨last, hlast⟩ := Pool.owns_iff.mp hm
  obtain ⟨q, j, payload, a, ⟨c, hq, ho⟩, ha, rfl⟩ := hb
  obtain ⟨a', ha', hsize⟩ := exists_pulled (p := p) (i := i) (m := m) cell.pool ha (Ne.symm hx)
  have hblock := fun j => block_pulled (q := q) (j := j) (x := x) (h := h) (b := payload)
    (hs.wellFormed p cell hp) hp hi.1 hlast
  rw [← hsize]
  by_cases he : p = q
  · subst he
    rw [hp] at hq
    cases hq
    simp only [↓reduceIte] at hblock
    have hji : j ≠ i := by
      rintro rfl
      exact hx (ho.owns.owner_eq hi)
    by_cases hj : j = cell.pool.len - 1
    · -- The block that was last is found in slot `i`.
      subst hj
      have hxm : x = m := ho.owns.owner_eq hm
      subst hxm
      have hlt := hi.1
      refine ⟨p, i, payload, a', (hblock i).mpr ⟨by omega, ?_⟩, ha', rfl⟩
      rw [if_pos rfl]
      exact ⟨rfl, ho.payload_eq hlast⟩
    · have hlt := ho.1
      refine ⟨p, j, payload, a', (hblock j).mpr ⟨by omega, ?_⟩, ha', rfl⟩
      rw [if_neg hji]
      exact ho
  · refine ⟨q, j, payload, a', (hblock j).mpr ?_, ha', rfl⟩
    rw [if_neg he]
    exact ⟨c, hq, ho⟩

theorem contents_pulled (hs : s.Placed) (hp : s.pools.get? p = some cell)
    (hi : cell.pool.Owns i h) (hm : cell.pool.Owns (cell.pool.len - 1) m) :
    (s.pulled p cell.pool i h m).contents = Function.update s.contents h none := by
  apply (hs.pulled hp hi hm).contents_eq
  intro x b
  rw [Function.update_apply]
  by_cases hx : x = h
  · subst hx
    rw [if_pos rfl]
    constructor
    · exact fun hb => absurd rfl (hs.stores_of_pulled hp hi hm hb).1
    · intro hb
      cases hb
  · rw [if_neg hx, hs.contents_eq_some]
    exact ⟨fun hb => (hs.stores_of_pulled hp hi hm hb).2, hs.stores_pulled hp hi hm hx⟩

theorem fitted (hs : s.Placed) (hp : s.pools.get? p = some cell) :
    (s.setPool p cell.pool.fitted).Placed ∧ (s.setPool p cell.pool.fitted).contents = s.contents := by
  have hw := hs.wellFormed p cell hp
  have ht : (s.setPool p cell.pool.fitted).Placed := by
    apply hs.setPool hp hw.fitted rfl rfl
    exact fun i x => Pool.owns_fitted hw
  refine ⟨ht, hs.contents_congr ht fun x b => ?_⟩
  simp only [Stores, block_setPool hp, Pool.holds_fitted hw]
  have hblock : ∀ q i payload, (if p = q then cell.pool.Holds i x payload else s.Block q i x payload) ↔
      s.Block q i x payload := by
    intro q i payload
    split
    · next he => simp [Block, ← he, hp]
    · rfl
  simp only [hblock]
  rfl

theorem rewritten (hs : s.Placed) (hp : s.pools.get? p = some cell) {f : ByteArray → ByteArray}
    (hf : ∀ b, (f b).size = b.size) (i : Nat) : (s.setPool p (cell.pool.rewritten i f)).Placed := by
  apply hs.setPool hp ((hs.wellFormed p cell hp).rewritten hf) rfl rfl
  intro j x
  simp only [Pool.owns_iff, Pool.holds_rewritten]
  constructor
  · rintro ⟨_, a, ha, -⟩
    exact ⟨a, ha⟩
  · rintro ⟨a, ha⟩
    exact ⟨_, a, ha, rfl⟩

theorem block_rewritten_of_ne (hp : s.pools.get? p = some cell) (hi : cell.pool.Owns i h)
    (hx : x ≠ h) (f : ByteArray → ByteArray) {b : ByteArray} :
    (s.setPool p (cell.pool.rewritten i f)).Block q j x b ↔ s.Block q j x b := by
  rw [block_setPool hp]
  split
  · next he =>
    subst he
    have hij : ∀ a, cell.pool.Holds j x a → i ≠ j := by
      rintro a ha rfl
      exact hx (ha.owns.owner_eq hi)
    simp only [Block, hp, Option.some.injEq, exists_eq_left', Pool.holds_rewritten]
    constructor
    · rintro ⟨a, ha, rfl⟩
      rw [if_neg (hij a ha)]
      exact ha
    · intro ha
      exact ⟨b, ha, (if_neg (hij b ha)).symm⟩
  · rfl

theorem contents_rewritten (hs : s.Placed) (hp : s.pools.get? p = some cell) {payload : ByteArray}
    (ho : cell.pool.Holds i h payload) (hh : s.handles.get? h = some handle)
    {f : ByteArray → ByteArray} (hf : ∀ b, (f b).size = b.size) :
    (s.setPool p (cell.pool.rewritten i f)).contents =
      Function.update s.contents h (some ((f payload).extract 0 handle.size)) := by
  apply (hs.rewritten hp hf i).contents_eq
  intro x b
  rw [Function.update_apply]
  by_cases hx : x = h
  · subst hx
    rw [if_pos rfl, Option.some.injEq]
    constructor
    · rintro ⟨q, j, b', a, hb, ha, rfl⟩
      have ha : a = handle := Option.some.inj (ha.symm.trans hh)
      rw [block_setPool hp] at hb
      split at hb
      · obtain ⟨c, hc, rfl⟩ := Pool.holds_rewritten.mp hb
        have hij : i = j := (hs.owns_inj hp hp ho.owns hc.owns).2
        subst hij
        rw [ha, if_pos rfl, hc.payload_eq ho]
      · next hn =>
        obtain ⟨c, hq, hb⟩ := hb
        exact absurd (hs.owns_inj hp hq ho.owns hb.owns).1 hn
    · rintro rfl
      refine ⟨p, i, f payload, handle, (block_setPool hp _).mpr ?_, hh, rfl⟩
      rw [if_pos rfl, Pool.holds_rewritten]
      exact ⟨payload, ho, (if_pos rfl).symm⟩
  · rw [if_neg hx, hs.contents_eq_some]
    simp only [Stores, block_rewritten_of_ne hp ho.owns hx]
    rfl

theorem overwritten (hs : s.Placed) (hp : s.pools.get? p = some cell) (hi : cell.pool.Owns i h)
    (hh : s.handles.get? h = some handle) (start : Nat) (data : ByteArray) :
    let f := fun b => Bytes.patch b (min start handle.size)
      (data.extract 0 (handle.size - min start handle.size))
    (s.setPool p (cell.pool.rewritten i f)).Placed ∧
      (s.setPool p (cell.pool.rewritten i f)).contents =
        Function.update s.contents h ((s.contents h).map fun b => Bytes.patch b start data) := by
  intro f
  have hf : ∀ b, (f b).size = b.size := fun b => Bytes.size_patch b _ _
  obtain ⟨payload, ho⟩ := Pool.owns_iff.mp hi
  have hfit : handle.size ≤ payload.size := by
    obtain ⟨a, ha, -, -, hle⟩ := hs.settled hp hi
    rw [hh] at ha
    cases ha
    rw [ho.size_eq (hs.wellFormed p cell hp)]
    exact hle
  have hc : s.contents h = some (payload.extract 0 handle.size) :=
    hs.contents_eq_some.mpr ⟨p, i, payload, handle, ⟨cell, hp, ho⟩, hh, rfl⟩
  have hpatch : (f payload).extract 0 handle.size =
      Bytes.patch (payload.extract 0 handle.size) start data :=
    Bytes.extract_patch payload data start _ hfit
  refine ⟨hs.rewritten hp hf i, ?_⟩
  rw [hs.contents_rewritten hp ho hh hf, hpatch, hc, Option.map_some]

end Placed

end OffRow.Store
