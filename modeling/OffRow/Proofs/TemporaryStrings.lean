import OffRow.Store.Temporaries
import OffRow.Proofs.ArenaAllocation
import OffRow.Proofs.Tables

namespace OffRow.Store

variable {α : Type} {s : Store} {a : ArenaId} {arena : Arena}

def setArena (s : Store) (a : ArenaId) (arena : Arena) : Store :=
  { s with arenas := s.arenas.put a arena }

theorem onArena_run (ha : s.arenas.get? a = some arena) (x : Op Arena α) :
    (onArena a x).run s =
      ⟨(x.run arena).result, s.setArena a (x.run arena).state, (x.run arena).events⟩ :=
  Op.run_within s ha x

theorem setArena_self (ha : s.arenas.get? a = some arena) : s.setArena a arena = s := by
  have hp : s.arenas.put a arena = s.arenas := by
    apply Table.modify_eq_self
    intro b hb
    rw [ha] at hb
    exact Option.some.inj hb
  rw [setArena, hp]

theorem get?_setArena (ha : s.arenas.get? a = some arena) (b : Arena) :
    (s.setArena a b).arenas.get? a = some b := by
  rw [setArena, Table.get?_put, if_pos rfl, ha]
  rfl

theorem forSize_eq_ok {size : Nat} :
    (∃ c, SizeClass.forSize size = .ok c) ↔ 1 ≤ size ∧ size ≤ SizeClass.largestBlock := by
  unfold SizeClass.forSize
  constructor
  · rintro ⟨c, hc⟩
    split at hc
    · next h => exact h
    · cases hc
  · intro h
    rw [dif_pos h]
    split
    · exact ⟨_, rfl⟩
    · exact ⟨_, rfl⟩

section

variable {size : Nat} {payload : Layout}

theorem createTemporary_invalid (s : Store) (a : ArenaId)
    (hsize : ¬(1 ≤ size ∧ size ≤ SizeClass.largestBlock)) :
    ∃ failure, (createTemporary a size).run s = ⟨.error failure, s, []⟩ := by
  rw [← forSize_eq_ok] at hsize
  rw [createTemporary]
  cases hc : SizeClass.forSize size with
  | error cause => exact ⟨_, Op.run_ofExcept_error_bind s _ _⟩
  | ok c => exact absurd ⟨c, hc⟩ hsize

theorem createTemporary_noHandle (s : Store) (a : ArenaId) (size : Nat)
    (hg : ¬∃ arena, s.arenas.get? a = some arena ∧ arena.Grants s.allocator handleLayout) :
    ∃ failure, (createTemporary a size).run s = ⟨.error failure, s, []⟩ := by
  rw [createTemporary]
  cases SizeClass.forSize size with
  | error cause => exact ⟨_, Op.run_ofExcept_error_bind s _ _⟩
  | ok c =>
    rw [Op.run_ofExcept_ok_bind, Op.run_get_bind]
    cases ha : s.arenas.get? a with
    | none => exact ⟨_, Op.run_bind_error (Op.run_within_none s ha _)⟩
    | some arena =>
      obtain ⟨failure, hr⟩ := Arena.allocateLayout_refused fun h => hg ⟨arena, ha, h⟩
      have hrun := onArena_run ha (Arena.allocateLayout s.allocator handleLayout)
      rw [hr, setArena_self ha] at hrun
      exact ⟨failure, Op.run_bind_error hrun⟩

theorem allocate_eq (hp : Layout.words? size = some payload) (answers : Nat → Option Nat) :
    Arena.allocate answers size = Arena.allocateLayout answers payload := by
  rw [Arena.allocate, hp]

theorem allocateHandle_run (ha : s.arenas.get? a = some arena)
    (hg : arena.Grants s.allocator handleLayout) :
    ∃ home events, (onArena a (Arena.allocateLayout s.allocator handleLayout)).run s =
      ⟨.ok home, s.setArena a (arena.carved s.allocator handleLayout), events⟩ := by
  obtain ⟨home, events, hr⟩ := Arena.allocateLayout_granted (show handleLayout.size ≠ 0 by decide) hg
  refine ⟨home, events, ?_⟩
  rw [onArena_run ha, hr]

theorem createTemporary_done (ha : s.arenas.get? a = some arena) (hpos : 1 ≤ size)
    (hle : size ≤ SizeClass.largestBlock) (hp : Layout.words? size = some payload)
    (hg : arena.Grants s.allocator handleLayout)
    (hb : (arena.carved s.allocator handleLayout).Grants s.allocator payload) :
    ∃ made t events, (createTemporary a size).run s = ⟨.ok made, t, events⟩ := by
  obtain ⟨c, hc⟩ := forSize_eq_ok.mpr ⟨hpos, hle⟩
  obtain ⟨home, events, hhome⟩ := allocateHandle_run ha hg
  have hsize := (Layout.of_words? hp).1
  obtain ⟨w, more, hw⟩ := Arena.allocateLayout_granted (show payload.size ≠ 0 by omega) hb
  have ha' := get?_setArena ha (arena.carved s.allocator handleLayout)
  have hbytes := onArena_run ha' (Arena.allocateLayout s.allocator payload)
  rw [hw] at hbytes
  have hstore := onArena_run (get?_setArena ha' ((arena.carved s.allocator handleLayout).carved
    s.allocator payload)) (Op.modify (·.store w (Bytes.zeros size)))
  rw [Op.run_modify] at hstore
  rw [createTemporary, hc, Op.run_ofExcept_ok_bind, Op.run_get_bind, Op.run_bind_ok hhome,
    allocate_eq hp, Op.run_bind_ok hbytes, Op.run_bind_ok hstore]
  exact ⟨_, _, _, rfl⟩

theorem createTemporary_noBytes (ha : s.arenas.get? a = some arena) (hpos : 1 ≤ size)
    (hle : size ≤ SizeClass.largestBlock) (hp : Layout.words? size = some payload)
    (hg : arena.Grants s.allocator handleLayout)
    (hb : ¬(arena.carved s.allocator handleLayout).Grants s.allocator payload) :
    ∃ failure events, (createTemporary a size).run s =
      ⟨.error failure, s.setArena a (arena.carved s.allocator handleLayout), events⟩ := by
  obtain ⟨c, hc⟩ := forSize_eq_ok.mpr ⟨hpos, hle⟩
  obtain ⟨home, events, hhome⟩ := allocateHandle_run ha hg
  obtain ⟨failure, hw⟩ := Arena.allocateLayout_refused hb
  have ha' := get?_setArena ha (arena.carved s.allocator handleLayout)
  have hbytes := onArena_run ha' (Arena.allocateLayout s.allocator payload)
  rw [hw, setArena_self ha'] at hbytes
  rw [createTemporary, hc, Op.run_ofExcept_ok_bind, Op.run_get_bind, Op.run_bind_ok hhome,
    allocate_eq hp, Op.run_bind_error hbytes]
  exact ⟨_, _, rfl⟩

end

/-- A failure either leaves the store as it was or has taken the handle from the arena; the latter
if the size is valid and the handle is to be had, but the bytes are not. -/
theorem createTemporary_failure (s : Store) (a : ArenaId) (size : Nat) :
    let o := (createTemporary a size).run s
    (((∃ failure, o.result = .error failure) ∧
        (o.state.arenas.get? a).map Arena.extent ≠ (s.arenas.get? a).map Arena.extent) ↔
      ∃ arena payload, s.arenas.get? a = some arena ∧
        1 ≤ size ∧ size ≤ SizeClass.largestBlock ∧ Layout.words? size = some payload ∧
        arena.Grants s.allocator handleLayout ∧
        ¬(arena.carved s.allocator handleLayout).Grants s.allocator payload) ∧
    ∀ failure, o.result = .error failure →
      o.state = s ∨ ∃ arena, s.arenas.get? a = some arena ∧
        o.state = s.setArena a (arena.carved s.allocator handleLayout) := by
  intro o
  have hkept : ∀ failure, (createTemporary a size).run s = ⟨.error failure, s, []⟩ →
      (o.state.arenas.get? a).map Arena.extent = (s.arenas.get? a).map Arena.extent ∧ o.state = s := by
    intro failure hr
    have ho : o = ⟨.error failure, s, []⟩ := hr
    rw [ho]
    exact ⟨rfl, rfl⟩
  by_cases hsize : 1 ≤ size ∧ size ≤ SizeClass.largestBlock
  case neg =>
    obtain ⟨failure, hr⟩ := createTemporary_invalid s a hsize
    obtain ⟨hextent, hstate⟩ := hkept failure hr
    refine ⟨iff_of_false (fun h => h.2 hextent) ?_, fun _ _ => .inl hstate⟩
    rintro ⟨arena, payload, -, hpos, hle, -⟩
    exact hsize ⟨hpos, hle⟩
  by_cases hg : ∃ arena, s.arenas.get? a = some arena ∧ arena.Grants s.allocator handleLayout
  case neg =>
    obtain ⟨failure, hr⟩ := createTemporary_noHandle s a size hg
    obtain ⟨hextent, hstate⟩ := hkept failure hr
    refine ⟨iff_of_false (fun h => h.2 hextent) ?_, fun _ _ => .inl hstate⟩
    rintro ⟨arena, payload, ha, -, -, -, hgrants, -⟩
    exact hg ⟨arena, ha, hgrants⟩
  obtain ⟨arena, ha, hg⟩ := hg
  obtain ⟨hpos, hle⟩ := hsize
  have hlarge : size + 8 ≤ 0x8000000000000000 := Nat.le_trans (Nat.add_le_add_right hle 8) (by decide)
  obtain ⟨payload, hp⟩ := Option.isSome_iff_exists.mp ((Layout.words?_isSome size).mpr hlarge)
  by_cases hb : (arena.carved s.allocator handleLayout).Grants s.allocator payload
  · obtain ⟨made, t, events, hr⟩ := createTemporary_done ha hpos hle hp hg hb
    have ho : o = ⟨.ok made, t, events⟩ := hr
    have hok : ∀ failure, o.result ≠ .error failure := by
      rw [ho]
      exact fun _ => nofun
    refine ⟨iff_of_false (fun h => h.1.elim hok) ?_, fun failure hf => absurd hf (hok failure)⟩
    rintro ⟨arena', payload', ha', -, -, hp', -, hn⟩
    rw [ha] at ha'
    rw [hp] at hp'
    cases ha'
    cases hp'
    exact hn hb
  · obtain ⟨failure, events, hr⟩ := createTemporary_noBytes ha hpos hle hp hg hb
    have ho : o = ⟨.error failure, s.setArena a (arena.carved s.allocator handleLayout), events⟩ := hr
    have hextent := Arena.extent_carved (show handleLayout.size ≠ 0 by decide) hg
    refine ⟨iff_of_true ⟨⟨failure, by rw [ho]⟩, ?_⟩ ⟨arena, payload, ha, hpos, hle, hp, hg, hb⟩,
      fun _ _ => .inr ⟨arena, ha, by rw [ho]⟩⟩
    rw [ho]
    simp only [get?_setArena ha, ha, Option.map_some, ne_eq, Option.some.injEq]
    exact hextent

theorem createTemporary_failure_small :
    let s := ((addArena (.new 64 (by decide))).run
      (.new fun bytes => if bytes ≤ 4096 then some 0 else none)).state
    let o := (createTemporary ⟨0⟩ 5000).run s
    (∃ failure, o.result = .error failure) ∧
      (o.state.arenas.get? ⟨0⟩).map Arena.extent ≠ (s.arenas.get? ⟨0⟩).map Arena.extent := by
  intro s o
  have hgrants : Arena.Grants (.new 64 (by decide)) s.allocator handleLayout :=
    ⟨nofun, .inr (by decide +kernel)⟩
  apply (createTemporary_failure s ⟨0⟩ 5000).1.mpr
  refine ⟨_, _, rfl, by decide, by decide, rfl, hgrants, ?_⟩
  rintro ⟨-, htail | hfresh⟩
  · exact absurd htail (by decide +kernel)
  · exact absurd hfresh (by decide +kernel)

end OffRow.Store
