import OffRow.Proofs.ScratchBytes
import OffRow.Proofs.Store.Accesses
import OffRow.Proofs.Store.Separation
import OffRow.Proofs.TemporaryStrings

namespace OffRow.Store

def draft? (s : Store) (h : HandleId) : Option ByteArray :=
  match s.temporary? h with
  | some (n, .scratch a w) => (s.arenas.get? a).map (·.load w n)
  | _ => none

structure Drafted (s : Store) : Prop where
  straight : ∀ h, ¬s.Stray h
  inside : ∀ {a arena}, s.arenas.get? a = some arena → arena.Lays []
  kept : ∀ {h n a w}, s.temporary? h = some (n, .scratch a w) →
    ∃ arena, s.arenas.get? a = some arena ∧ arena.Lays [.string w n] ∧ arena.Written w n
  apart : ∀ {h k n m a w v}, h ≠ k → s.temporary? h = some (n, .scratch a w) →
    s.temporary? k = some (m, .scratch a v) → (Piece.string w n).Apart (.string v m)

structure Redrafted (s : Store) (lost : ArenaId → Prop) (change : HandleId → ByteArray → ByteArray)
    (t : Store) : Prop where
  drafted : t.Drafted
  temporary?_eq : ∀ {h n a w}, s.temporary? h = some (n, .scratch a w) → ¬lost a →
    t.temporary? h = some (n, .scratch a w)
  draft?_eq : ∀ {h n a w}, s.temporary? h = some (n, .scratch a w) → ¬lost a →
    t.draft? h = (s.draft? h).map (change h)

abbrev KeepsDrafts (s t : Store) : Prop := s.Redrafted (fun _ => False) (fun _ => id) t

variable {s t : Store} {a : ArenaId} {arena b : Arena} {h k : HandleId} {n : Nat} {w : Place}
  {x : Handle}

theorem extent?_eq_some {l : Address} :
    x.extent? = some (n, l) ↔ x.temporary = true ∧ x.pool = none ∧ x.size = n ∧ x.location = l := by
  simp [Handle.extent?, and_assoc]

theorem temporary?_eq_some {l : Address} :
    s.temporary? h = some (n, l) ↔
      ∃ x, s.handles.get? h = some x ∧ x.temporary = true ∧ x.pool = none ∧ x.size = n ∧ x.location = l := by
  simp only [temporary?, Option.bind_eq_some_iff, extent?_eq_some]

theorem draft?_of_temporary? (hh : s.temporary? h = some (n, .scratch a w)) :
    s.draft? h = (s.arenas.get? a).map (·.load w n) := by
  rw [draft?, hh]

theorem setArena_setArena (s : Store) (a : ArenaId) (arena b : Arena) :
    (s.setArena a arena).setArena a b = s.setArena a b := by
  simp only [setArena, Table.put, Table.modify_modify]
  rfl

theorem get?_setArena_of_ne {c : ArenaId} (hc : a ≠ c) :
    (s.setArena a b).arenas.get? c = s.arenas.get? c := by
  rw [setArena, Table.get?_put, if_neg hc]

theorem bytes?_of_draft {bytes : ByteArray} (hh : s.draft? h = some bytes) :
    ∃ x, s.handles.get? h = some x ∧ x.pool = none ∧ s.bytes? x = some bytes := by
  unfold draft? at hh
  split at hh
  · next n a w htemp =>
    obtain ⟨x, hx, -, hpool, hsize, hl⟩ := temporary?_eq_some.mp htemp
    obtain ⟨arena, ha, hload⟩ := Option.map_eq_some_iff.mp hh
    refine ⟨x, hx, hpool, ?_⟩
    simp only [bytes?, hl, ha, Option.map_some, hsize, hload]
  · cases hh

theorem read_draft {bytes : ByteArray} (hh : s.draft? h = some bytes) :
    (Store.read h pure).run s = ⟨.ok bytes, s, []⟩ := by
  obtain ⟨x, hx, hpool, hbytes⟩ := bytes?_of_draft hh
  have hbody : (Store.bytes h >>= pure).run (s.entered x.pool) = ⟨.ok bytes, s, []⟩ := by
    have hrun := bytes_outcome hx
    rw [hbytes] at hrun
    rw [hpool]
    exact Op.run_bind_silent hrun
  have hrun := guarded_run hx (Store.bytes h >>= pure)
  rw [hbody] at hrun
  rw [Store.read, hrun (by simp [hx]), hpool]
  rfl

def drafting (s : Store) (a : ArenaId) (b : Arena) (w : Place) (n : Nat) : Store :=
  { s.setArena a (b.store w (Bytes.zeros n)) with handles := s.handles.add (.temp n (.scratch a w)) }

theorem temporary?_drafting :
    (s.drafting a b w n).temporary? h =
      if h = s.handles.next then some (n, .scratch a w) else s.temporary? h := by
  unfold temporary? drafting
  simp only [Table.get?_add]
  split <;> rfl

theorem temporary?_filter {l : Address} :
    temporary? { s with handles := s.handles.filter fun x => !livesIn a x } h = some (n, l) ↔
      s.temporary? h = some (n, l) ∧ ∀ w, l ≠ .scratch a w := by
  simp only [temporary?_eq_some, Table.get?_filter, Option.filter_eq_some_iff]
  constructor
  · rintro ⟨x, ⟨hx, hlives⟩, htemp, hpool, hsize, rfl⟩
    refine ⟨⟨x, hx, htemp, hpool, hsize, rfl⟩, fun w hw => ?_⟩
    simp [livesIn, hw, htemp] at hlives
  · rintro ⟨⟨x, hx, htemp, hpool, hsize, rfl⟩, hne⟩
    refine ⟨x, ⟨hx, ?_⟩, htemp, hpool, hsize, rfl⟩
    cases hl : x.location with
    | scratch c w =>
      have hc : a ≠ c := fun hc => hne w (hc ▸ hl)
      simp [livesIn, hl, hc]
    | _ => simp [livesIn, hl]

theorem temporary?_next : s.temporary? s.handles.next = none := by
  rw [temporary?, Table.get?_next, Option.bind_none]

theorem temporary?_drafting_of_some {l : Address} {m : Nat} (hk : s.temporary? k = some (m, l)) :
    (s.drafting a b w n).temporary? k = some (m, l) := by
  have hne : k ≠ s.handles.next := by
    rintro rfl
    rw [temporary?_next] at hk
    cases hk
  rw [temporary?_drafting, if_neg hne, hk]

namespace Drafted

theorem temporary?_of_location (hs : s.Drafted) (hx : s.handles.get? h = some x)
    (hl : x.location = .scratch a w) : s.temporary? h = some (x.size, .scratch a w) := by
  rw [temporary?, hx, Option.bind_some]
  cases he : x.extent? with
  | none => exact absurd ⟨x, a, w, hx, hl, he⟩ (hs.straight h)
  | some extent =>
    obtain ⟨-, -, hsize, hloc⟩ := extent?_eq_some.mp he
    exact congrArg some (Prod.ext hsize.symm (hloc.symm.trans hl))

theorem congr (hs : s.Drafted) (ha : t.arenas = s.arenas) (hh : s.Spares t.handles) :
    s.KeepsDrafts t := by
  have ht : t.temporary? = s.temporary? := hh.1
  refine ⟨⟨fun h hstray => hs.straight h (hh.2 h hstray), ?inside, ?kept, ?apart⟩, ?place, ?draft⟩
  case inside =>
    rw [ha]
    exact hs.inside
  case kept =>
    rw [ha, ht]
    exact hs.kept
  case apart =>
    rw [ht]
    exact hs.apart
  case place => exact fun hk _ => (congrFun ht _).trans hk
  case draft =>
    intro h n a w _ _
    rw [draft?, draft?, ht, ha, Option.map_id]
    rfl

theorem setArena (hs : s.Drafted) (ha : s.arenas.get? a = some arena)
    (hl : ∀ {held}, arena.Lays held → b.Lays held)
    (hw : ∀ {w n}, arena.Written w n → b.Written w n) : (s.setArena a b).Drafted where
  straight := hs.straight
  inside {c d} hd := by
    by_cases hc : a = c
    · subst hc
      rw [get?_setArena ha] at hd
      cases hd
      exact hl (hs.inside ha)
    · rw [get?_setArena_of_ne hc] at hd
      exact hs.inside hd
  kept {h n c w} hh := by
    obtain ⟨d, hd, hlays, hwritten⟩ := hs.kept (h := h) hh
    by_cases hc : a = c
    · subst hc
      rw [ha] at hd
      cases hd
      exact ⟨b, get?_setArena ha b, hl hlays, hw hwritten⟩
    · exact ⟨d, by rw [get?_setArena_of_ne hc, hd], hlays, hwritten⟩
  apart hne hh hk := hs.apart hne hh hk

theorem retains (hs : s.Drafted) (ha : s.arenas.get? a = some arena) (hb : arena.Retains b) :
    s.KeepsDrafts (s.setArena a b) where
  drafted := hs.setArena ha hb.lays hb.written
  temporary?_eq hh _ := hh
  draft?_eq {h n c w} hh _ := by
    have hh' : (s.setArena a b).temporary? h = some (n, .scratch c w) := hh
    rw [draft?_of_temporary? hh', draft?_of_temporary? hh, Option.map_id, id]
    by_cases hc : a = c
    · subst hc
      obtain ⟨d, hd, -, hwritten⟩ := hs.kept hh
      rw [ha] at hd
      cases hd
      rw [get?_setArena ha, ha, Option.map_some, Option.map_some, hb.load_eq hwritten]
    · rw [get?_setArena_of_ne hc]

theorem overwrite (hs : s.Drafted) (hh : s.temporary? h = some (n, .scratch a w)) (start : Nat)
    (data : ByteArray) :
    ∃ t, (Store.overwrite h start data).run s = ⟨.ok (), t, []⟩ ∧
      s.Redrafted (fun _ => False) (fun k bytes => if k = h then Bytes.overlay bytes start data else bytes) t := by
  obtain ⟨x, hx, -, -, rfl, hl⟩ := temporary?_eq_some.mp hh
  obtain ⟨arena, ha, hlays, hwritten⟩ := hs.kept hh
  have hfits : min start x.size + (data.extract 0 (x.size - min start x.size)).size ≤ x.size := by
    rw [ByteArray.size_extract]
    omega
  let b := arena.store ⟨w.chunk, w.offset + min start x.size⟩
    (data.extract 0 (x.size - min start x.size))
  refine ⟨s.setArena a b, ?_, hs.setArena ha (fun hlays => hlays.of_shape (arena.shape_store _ _)) Arena.Written.store,
    fun hk _ => hk, ?_⟩
  · rw [Store.overwrite, Op.run_bind_silent (handle_run hx), hl]
    exact onArena_run ha _
  · intro k m c v hk _
    have hk' : (s.setArena a b).temporary? k = some (m, .scratch c v) := hk
    rw [draft?_of_temporary? hk', draft?_of_temporary? hk]
    by_cases hc : a = c
    · subst hc
      rw [get?_setArena ha, ha]
      simp only [Option.map_some, Option.some.injEq]
      split
      · next hkh =>
        subst hkh
        rw [hh] at hk
        cases hk
        rw [Arena.load_store_part hwritten]
        have hcut := Bytes.patch_cut (arena.load w x.size) data start
        rwa [hwritten.size_load] at hcut
      · next hne =>
        obtain ⟨d, hd, -, hwritten'⟩ := hs.kept hk
        rw [ha] at hd
        cases hd
        exact Arena.load_store_apart hwritten' hfits (hs.apart (Ne.symm hne) hh hk)
    · have hne : k ≠ h := by
        rintro rfl
        rw [hh] at hk
        cases hk
        exact hc rfl
      rw [get?_setArena_of_ne hc]
      simp only [hne, ↓reduceIte, Option.map_map]
      rfl

theorem overwrite_elsewhere (hs : s.Drafted) (hh : ∀ n a w, s.temporary? h ≠ some (n, .scratch a w))
    (start : Nat) (data : ByteArray) :
    s.KeepsDrafts ((Store.overwrite h start data).run s).state := by
  cases hx : s.handles.get? h with
  | none =>
    rw [Store.overwrite, Op.run_bind_error (handle_run_none hx)]
    exact hs.congr rfl (.refl s)
  | some x =>
    rw [Store.overwrite, Op.run_bind_silent (handle_run hx)]
    cases hl : x.location with
    | nowhere => exact hs.congr rfl (.refl s)
    | scratch a w => exact absurd (hs.temporary?_of_location hx hl) (hh _ a w)
    | block p w =>
      obtain ⟨ha, hh⟩ := ((poolBlind_scratch s).onPool p _ s ⟨rfl, .refl s⟩).state
      exact hs.congr ha hh

theorem apart_of_lays (hs : s.Drafted) (ha : s.arenas.get? a = some arena)
    (hl : ∀ {held}, arena.Lays held → b.Lays (.string w n :: held)) {m : Nat} {v : Place}
    (hk : s.temporary? k = some (m, .scratch a v)) : (Piece.string w n).Apart (.string v m) := by
  obtain ⟨d, hd, hlays, -⟩ := hs.kept hk
  rw [ha] at hd
  cases hd
  exact (List.pairwise_cons.mp (hl hlays).apart).1 _ List.mem_cons_self

theorem draft?_drafting_of_some (hs : s.Drafted) (ha : s.arenas.get? a = some arena)
    (hb : arena.Retains b) (hl : ∀ {held}, arena.Lays held → b.Lays (.string w n :: held)) {m : Nat}
    {e : ArenaId} {v : Place} (hk : s.temporary? k = some (m, .scratch e v)) :
    (s.drafting a b w n).draft? k = s.draft? k := by
  rw [draft?_of_temporary? (temporary?_drafting_of_some hk), draft?_of_temporary? hk]
  by_cases he : a = e
  · subst he
    obtain ⟨d, hd, -, hwritten⟩ := hs.kept hk
    rw [ha] at hd
    cases hd
    have hget : (s.drafting a b w n).arenas.get? a = some (b.store w (Bytes.zeros n)) :=
      get?_setArena ha _
    rw [hget, ha, Option.map_some, Option.map_some, ← hb.load_eq hwritten]
    have hzeros : 0 + (Bytes.zeros n).size ≤ n := by simp
    have hload : (b.store ⟨w.chunk, w.offset + 0⟩ (Bytes.zeros n)).load v m = b.load v m :=
      Arena.load_store_apart (hb.written hwritten) hzeros (hs.apart_of_lays ha hl hk)
    exact congrArg some hload
  · exact congrArg _ (get?_setArena_of_ne he)

theorem drafting (hs : s.Drafted) (ha : s.arenas.get? a = some arena) (hb : arena.Retains b)
    (hl : ∀ {held}, arena.Lays held → b.Lays (.string w n :: held)) :
    s.KeepsDrafts (s.drafting a b w n) ∧
      (s.drafting a b w n).draft? s.handles.next = some (Bytes.zeros n) := by
  let c := b.store w (Bytes.zeros n)
  have hshape : c.shape = b.shape := b.shape_store _ _
  have hnew : b.Lays [.string w n] := hl (hs.inside ha)
  obtain ⟨chunk, hchunk, -⟩ := hnew.holds _ List.mem_cons_self
  obtain ⟨hwritten, hload⟩ : c.Written w n ∧ c.load w n = Bytes.zeros n := Arena.zeros_stored hchunk
  have hget : (s.drafting a b w n).arenas.get? a = some c := get?_setArena ha c
  have hlater : (s.setArena a c).Drafted := by
    refine hs.setArena ha (fun h => ?_) fun h => ?_
    · exact (hb.lays h).of_shape hshape
    · exact (hb.written h).store
  refine ⟨⟨⟨?straight, hlater.inside, ?kept, ?apart⟩, fun hk _ => temporary?_drafting_of_some hk,
    fun hk _ => ?old⟩, ?new⟩
  case straight =>
    rintro k ⟨x, e, v, hx, hstray⟩
    change (s.handles.add _).get? k = some x at hx
    rw [Table.get?_add] at hx
    split at hx
    · cases hx
      cases hstray.2
    · exact hs.straight k ⟨x, e, v, hx, hstray⟩
  case kept =>
    intro k m e v hk
    rw [temporary?_drafting] at hk
    split at hk
    · cases hk
      exact ⟨c, hget, hnew.of_shape hshape, hwritten⟩
    · exact hlater.kept hk
  case apart =>
    intro k k' m m' e v v' hne hk hk'
    rw [temporary?_drafting] at hk hk'
    split at hk
    · next hnext =>
      rw [if_neg (hnext ▸ hne.symm)] at hk'
      cases hk
      exact hs.apart_of_lays ha hl hk'
    · split at hk'
      · cases hk'
        exact (hs.apart_of_lays ha hl hk).symm
      · exact hs.apart hne hk hk'
  case old =>
    rw [hs.draft?_drafting_of_some ha hb hl hk, Option.map_id]
    rfl
  case new =>
    have hnext := temporary?_drafting (s := s) (a := a) (b := b) (h := s.handles.next) (n := n) (w := w)
    rw [if_pos rfl] at hnext
    rw [draft?_of_temporary? hnext, hget, Option.map_some, hload]

theorem createTemporary (hs : s.Drafted) (ha : s.arenas.get? a = some arena) (n : Nat) :
    let o := (Store.createTemporary a n).run s
    s.KeepsDrafts o.state ∧ ∀ made, o.result = .ok made →
      o.state.draft? made.1 = some (Bytes.zeros n) ∧
        ∃ w, o.state.temporary? made.1 = some (n, .scratch a w) := by
  simp only
  rw [Store.createTemporary]
  cases SizeClass.forSize n with
  | error cause =>
    rw [Op.run_ofExcept_error_bind]
    exact ⟨hs.congr rfl (.refl s), fun _ hmade => by cases hmade⟩
  | ok size =>
    rw [Op.run_ofExcept_ok_bind, Op.run_get_bind]
    have hhome := onArena_run ha (Arena.allocateLayout s.allocator handleLayout)
    obtain ⟨hb, -⟩ := arena.allocateLayout_retains s.allocator handleLayout
    cases hr : (Arena.allocateLayout s.allocator handleLayout).run arena with
    | mk result b events =>
      rw [hr] at hhome hb
      cases result with
      | error failure =>
        rw [Op.run_bind_error hhome]
        exact ⟨hs.retains ha hb, fun _ hmade => by cases hmade⟩
      | ok home =>
        have hbytes := onArena_run (get?_setArena ha b) (Arena.allocate s.allocator n)
        obtain ⟨hc, hl⟩ := b.allocate_retains s.allocator n
        rw [setArena_setArena] at hbytes
        rw [Op.run_bind_ok hhome]
        cases hr' : (Arena.allocate s.allocator n).run b with
        | mk result c more =>
          rw [hr'] at hbytes hc hl
          cases result with
          | error failure =>
            rw [Op.run_bind_error hbytes]
            exact ⟨hs.retains ha (hb.trans hc), fun _ hmade => by cases hmade⟩
          | ok w =>
            have hstore := onArena_run (get?_setArena ha c) (Op.modify (·.store w (Bytes.zeros n)))
            rw [setArena_setArena, Op.run_modify] at hstore
            have hadd : (Store.addHandle (.temp n (.scratch a w))).run
                (s.setArena a (c.store w (Bytes.zeros n))) =
                ⟨.ok s.handles.next, s.drafting a c w n, []⟩ := rfl
            rw [Op.run_bind_ok hbytes, Op.run_bind_silent hstore, Op.run_bind_silent hadd, Op.run_pure]
            obtain ⟨hdrafts, hzeros⟩ :=
              hs.drafting ha (hb.trans hc) fun h => hl w rfl (hb.lays h)
            refine ⟨hdrafts, fun made hmade => ?_⟩
            cases hmade
            exact ⟨hzeros, w, temporary?_drafting.trans (if_pos rfl)⟩

theorem clears (hs : s.Drafted) (hh : t.handles = s.handles.filter fun x => !livesIn a x)
    (ha : ∀ {arena}, t.arenas.get? a = some arena → arena.Lays [])
    (he : ∀ {c}, a ≠ c → t.arenas.get? c = s.arenas.get? c) :
    s.Redrafted (a = ·) (fun _ => id) t := by
  have htemp : ∀ {k m l}, t.temporary? k = some (m, l) ↔
      s.temporary? k = some (m, l) ∧ ∀ w, l ≠ .scratch a w := by
    intro k m l
    rw [← temporary?_filter, temporary?, temporary?, hh]
  have hkept : ∀ {k m c w}, s.temporary? k = some (m, .scratch c w) → a ≠ c →
      t.temporary? k = some (m, .scratch c w) := by
    intro k m c w hk hc
    refine htemp.mpr ⟨hk, fun v hv => ?_⟩
    cases hv
    exact hc rfl
  have helse : ∀ {k m c w}, t.temporary? k = some (m, .scratch c w) →
      s.temporary? k = some (m, .scratch c w) ∧ a ≠ c := by
    intro k m c w hk
    obtain ⟨hk, hne⟩ := htemp.mp hk
    exact ⟨hk, fun hc => hne w (hc ▸ rfl)⟩
  refine ⟨⟨?straight, ?inside, ?kept, ?apart⟩, hkept, ?draft?_eq⟩
  case straight =>
    rintro k ⟨x, c, w, hx, hstray⟩
    rw [hh, Table.get?_filter] at hx
    exact hs.straight k ⟨x, c, w, (Option.filter_eq_some_iff.mp hx).1, hstray⟩
  case inside =>
    intro c d hd
    by_cases hc : a = c
    · subst hc
      exact ha hd
    · rw [he hc] at hd
      exact hs.inside hd
  case kept =>
    intro k m c w hk
    obtain ⟨hk, hc⟩ := helse hk
    rw [he hc]
    exact hs.kept hk
  case apart =>
    intro k k' m m' c w w' hne hk hk'
    exact hs.apart hne (helse hk).1 (helse hk').1
  case draft?_eq =>
    intro k m c w hk hc
    rw [draft?_of_temporary? (hkept hk hc), draft?_of_temporary? hk, he hc, Option.map_id, id]

theorem addArena (hs : s.Drafted) (ha : arena.Lays []) :
    s.KeepsDrafts { s with arenas := s.arenas.add arena } := by
  have hold : ∀ {k m c w}, s.temporary? k = some (m, .scratch c w) →
      (s.arenas.add arena).get? c = s.arenas.get? c := by
    intro k m c w hk
    obtain ⟨d, hd, -⟩ := hs.kept hk
    rw [Table.get?_add, if_neg]
    rintro rfl
    rw [Table.get?_next] at hd
    cases hd
  refine ⟨⟨hs.straight, ?inside, ?kept, hs.apart⟩, fun hk _ => hk, ?draft?_eq⟩
  case inside =>
    intro c d hd
    change (s.arenas.add arena).get? c = some d at hd
    rw [Table.get?_add] at hd
    split at hd
    · cases hd
      exact ha
    · exact hs.inside hd
  case kept =>
    intro k m c w hk
    obtain ⟨d, hd, hlays⟩ := hs.kept hk
    exact ⟨d, (hold hk).trans hd, hlays⟩
  case draft?_eq =>
    intro k m c w hk _
    have hk' : temporary? { s with arenas := s.arenas.add arena } k = some (m, .scratch c w) := hk
    rw [draft?_of_temporary? hk', draft?_of_temporary? hk, Option.map_id, id]
    exact congrArg _ (hold hk)

end Drafted

end OffRow.Store
