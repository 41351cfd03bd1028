import OffRow.Proofs.ArenaPieces
import OffRow.Proofs.Evolution
import OffRow.Proofs.TemporaryStrings

namespace OffRow

namespace Arena

theorem reset_run (a : Arena) :
    ∃ b events, reset.run a = ⟨.ok (), b, events⟩ ∧ b.Lays [] := by
  rw [reset, Op.run_get_bind]
  cases a.chunks.back? with
  | none => exact ⟨_, _, rfl, lays_nil fun _ _ => Nat.zero_le _⟩
  | some chunk => exact ⟨_, _, rfl, lays_nil fun _ _ => Nat.zero_le _⟩

end Arena

namespace Store

def Carves (s : Store) (a : ArenaId) (ps : List Piece) (t : Store) : Prop :=
  ∃ arena b, s.arenas.get? a = some arena ∧ t.arenas = s.arenas.put a b ∧ arena.Extends ps b

variable {s t u : Store} {a : ArenaId} {arena b : Arena} {ps qs : List Piece} {layout : Layout}

theorem carves_self (ha : s.arenas.get? a = some arena) (ht : t.arenas = s.arenas) :
    s.Carves a [] t := by
  refine ⟨arena, arena, ha, ?_, .of_shape rfl⟩
  rw [ht]
  exact congrArg Store.arenas (setArena_self ha).symm

theorem carves_setArena (ha : s.arenas.get? a = some arena) (hb : arena.Extends ps b) :
    s.Carves a ps (s.setArena a b) := ⟨arena, b, ha, rfl, hb⟩

theorem Carves.exists_arena (h : s.Carves a ps t) : ∃ b, t.arenas.get? a = some b := by
  obtain ⟨arena, b, ha, ht, -⟩ := h
  rw [ht]
  exact ⟨b, get?_setArena ha b⟩

theorem Carves.trans (hst : s.Carves a ps t) (htu : t.Carves a qs u) : s.Carves a (qs ++ ps) u := by
  obtain ⟨arena, b, ha, ht, hab⟩ := hst
  obtain ⟨b', c, hb', hu, hbc⟩ := htu
  have hb : t.arenas.get? a = some b := by
    rw [ht]
    exact get?_setArena ha b
  rw [hb] at hb'
  cases hb'
  refine ⟨arena, c, ha, ?_, hab.trans hbc⟩
  rw [hu, ht]
  exact Table.modify_modify s.arenas a _ _

theorem onArena_allocateLayout (ha : s.arenas.get? a = some arena) (layout : Layout) :
    (∃ failure, (onArena a (Arena.allocateLayout s.allocator layout)).run s =
        ⟨.error failure, s, []⟩) ∨
      ∃ t w events, (onArena a (Arena.allocateLayout s.allocator layout)).run s = ⟨.ok w, t, events⟩ ∧
        t.handles = s.handles ∧ t.allocator = s.allocator ∧
        s.Carves a [⟨w, layout.size, layout.align⟩] t := by
  rw [onArena_run ha]
  rcases arena.allocateLayout_cases s.allocator layout with ⟨failure, hr⟩ | ⟨hg, events, hr⟩
  · left
    rw [hr, setArena_self ha]
    exact ⟨failure, rfl⟩
  · right
    rw [hr]
    exact ⟨_, _, events, rfl, rfl, rfl, carves_setArena ha (Arena.extends_carved hg)⟩

theorem onArena_allocate (ha : s.arenas.get? a = some arena) (size : Nat) :
    (∃ failure, (onArena a (Arena.allocate s.allocator size)).run s = ⟨.error failure, s, []⟩) ∨
      ∃ t w events, (onArena a (Arena.allocate s.allocator size)).run s = ⟨.ok w, t, events⟩ ∧
        t.handles = s.handles ∧ t.allocator = s.allocator ∧
        s.Carves a [⟨w, size, Layout.wordAlign⟩] t := by
  cases hp : Layout.words? size with
  | none =>
    left
    rw [onArena_run ha, Arena.allocate, hp, Op.run_error, setArena_self ha]
    exact ⟨_, rfl⟩
  | some layout =>
    obtain ⟨hsize, halign⟩ := Layout.of_words? hp
    rw [allocate_eq hp, ← hsize, ← halign]
    exact onArena_allocateLayout ha layout

theorem onArena_store (ha : s.arenas.get? a = some arena) (w : Place) (data : ByteArray) :
    ∃ t, (onArena a (Op.modify (·.store w data))).run s = ⟨.ok (), t, []⟩ ∧ t.handles = s.handles ∧
      s.Carves a [] t := by
  rw [onArena_run ha]
  exact ⟨_, rfl, rfl, carves_setArena ha (.of_shape (arena.shape_store w data))⟩

def scratchPlace (s : Store) (h : HandleId) : Place :=
  match (s.handles.get? h).map Handle.location with
  | some (.scratch _ w) => w
  | _ => ⟨0, 0⟩

/-- What stays taken when no temporary string of `size` bytes could be made: its handle, if that was
granted. -/
def lostHandle (s : Store) (a : ArenaId) (size : Nat) : List Piece :=
  match SizeClass.forSize size, ((allocateScratchLayout a handleLayout).run s).result with
  | .ok _, .ok home => [⟨home, handleLayout.size, handleLayout.align⟩]
  | _, _ => []

theorem createTemporary_carves (ha : s.arenas.get? a = some arena) (size : Nat) :
    (∃ failure t events, (createTemporary a size).run s = ⟨.error failure, t, events⟩ ∧
        s.Carves a (s.lostHandle a size) t) ∨
      ∃ h home t events, (createTemporary a size).run s = ⟨.ok (h, home), t, events⟩ ∧
        s.Carves a [⟨t.scratchPlace h, size, Layout.wordAlign⟩,
          ⟨home, handleLayout.size, handleLayout.align⟩] t := by
  unfold lostHandle
  rw [createTemporary, allocateScratchLayout, Op.run_get_bind]
  cases SizeClass.forSize size with
  | error cause => exact .inl ⟨_, s, [], Op.run_ofExcept_error_bind s _ _, carves_self ha rfl⟩
  | ok c =>
    rw [Op.run_ofExcept_ok_bind, Op.run_get_bind]
    rcases onArena_allocateLayout ha handleLayout with
      ⟨failure, hr⟩ | ⟨t, home, events, hr, hhandles, hanswers, hst⟩
    · rw [hr]
      exact .inl ⟨failure, s, [], Op.run_bind_error hr, carves_self ha rfl⟩
    obtain ⟨b, hb⟩ := hst.exists_arena
    rw [hr]
    rw [← hanswers] at hr ⊢
    rcases onArena_allocate hb size with ⟨failure, hr'⟩ | ⟨u, w, more, hr', hhandles', -, htu⟩
    · exact .inl ⟨failure, t, _, (Op.run_bind_ok hr).trans (by rw [Op.run_bind_error hr']), hst⟩
    · obtain ⟨c, hc⟩ := htu.exists_arena
      obtain ⟨v, hr'', hhandles'', huv⟩ := onArena_store hc w (Bytes.zeros size)
      let made : Store := { v with handles := v.handles.add (.temp size (.scratch a w)) }
      have hadd : (addHandle (.temp size (.scratch a w))).run v = ⟨.ok v.handles.next, made, []⟩ := rfl
      have hplace : made.scratchPlace v.handles.next = w := by
        rw [scratchPlace, Table.get?_add, if_pos rfl]
        rfl
      refine .inr ⟨v.handles.next, home, made, _, (Op.run_bind_ok hr).trans (by
        rw [Op.run_bind_ok hr', Op.run_bind_silent hr'', Op.run_bind_silent hadd, Op.run_pure]), ?_⟩
      rw [hplace]
      exact (hst.trans htu).trans huv

end Store

def Command.arena? : Command → Option ArenaId
  | .ask (.allocate a _) | .ask (.allocateLayout a _) | .ask (.createTemporary a _) => some a
  | _ => none

/-- The storage that a command takes of a store. A temporary string takes its bytes and its handle, and
the handle also if it is refused its bytes. -/
def Command.handed (c : Command) (s : Store) (o : Outcome Engine Answer) : List Piece :=
  match c, o.result with
  | .ask (.allocate _ size), .ok (.place w) => [⟨w, size, Layout.wordAlign⟩]
  | .ask (.allocateLayout _ layout), .ok (.place w) => [⟨w, layout.size, layout.align⟩]
  | .ask (.createTemporary _ size), .ok (.temporary h home) =>
    [⟨o.state.store.scratchPlace h, size, Layout.wordAlign⟩,
      ⟨home, Store.handleLayout.size, Store.handleLayout.align⟩]
  | .ask (.createTemporary a size), .error _ => s.lostHandle a size
  | _, _ => []

def Command.clears (c : Command) (a : ArenaId) (o : Outcome Engine Answer) : Bool :=
  match c, o.result with
  | .ask (.resetArena b), .ok .done | .ask (.dropArena b), .ok .done => b = a
  | _, _ => false

theorem Command.handed_of_still {c : Command} (hc : c.isScratch = false) (s : Store)
    (o : Outcome Engine Answer) : c.handed s o = [] := by
  cases c with
  | ask q =>
    cases q with
    | allocate a size => cases hc
    | allocateLayout a layout => cases hc
    | createTemporary a size => cases hc
    | _ => rfl
  | _ => rfl

theorem Command.clears_of_still {c : Command} (hc : c.isScratch = false) (a : ArenaId)
    (o : Outcome Engine Answer) : c.clears a o = false := by
  cases c with
  | ask q =>
    cases q with
    | resetArena b => cases hc
    | dropArena b => cases hc
    | _ => rfl
  | _ => rfl

namespace Engine

inductive Handling (s : Store) (c : Command) (o : Outcome Engine Answer) : Prop
  | still : (∀ a, (o.state.store.arenas.get? a).map Arena.shape =
      (s.arenas.get? a).map Arena.shape) → c.handed s o = [] → (∀ a, c.clears a o = false) →
      Handling s c o
  | opened {n : Nat} {pos : 0 < n} : o.state.store.arenas = s.arenas.add (.new n pos) →
      c.arena? = none → (∀ a, c.clears a o = false) → Handling s c o
  | carved {b : ArenaId} : c.arena? = some b → s.Carves b (c.handed s o) o.state.store →
      (∀ a, c.clears a o = false) → Handling s c o
  | reset {b : ArenaId} {arena : Arena} : o.state.store.arenas = s.arenas.put b arena →
      arena.Lays [] → c.arena? = none → (∀ a, c.clears a o = decide (b = a)) → Handling s c o
  | dropped {b : ArenaId} : o.state.store.arenas = s.arenas.erase b → c.arena? = none →
      (∀ a, c.clears a o = decide (b = a)) → Handling s c o

def held (a : ArenaId) (s : Store) (c : Command) (o : Outcome Engine Answer) (before : List Piece) :
    List Piece :=
  if c.clears a o then [] else if c.arena? = some a then c.handed s o ++ before else before

/-- What has been handed out of arena `a` and not been taken back since. -/
def pieces (a : ArenaId) : Engine → List Piece → List (Turn Command) → List Piece
  | _, before, [] => before
  | e, before, t :: ts =>
    let o := e.turn Command.run t
    pieces a o.state (held a (e.prepared t).store t.action o before) ts

def Stored (s : Store) (a : ArenaId) (held : List Piece) : Prop :=
  match s.arenas.get? a with
  | some arena => arena.Lays held
  | none => held = []

variable {e : Engine} {s t : Store} {a b : ArenaId} {arena : Arena} {q : Request} {c : Command}
  {o : Outcome Engine Answer} {before : List Piece}

theorem place_carves {c : Command} {x : Op Store Place} {size align : Nat}
    (hb : e.store.arenas.get? b = some arena)
    (hx : (∃ failure, x.run e.store = ⟨.error failure, e.store, []⟩) ∨
      ∃ t w events, x.run e.store = ⟨.ok w, t, events⟩ ∧ t.handles = e.store.handles ∧
        t.allocator = e.store.allocator ∧ e.store.Carves b [⟨w, size, align⟩] t)
    (herror : ∀ failure f events, c.handed e.store ⟨.error failure, f, events⟩ = [])
    (hok : ∀ w f events, c.handed e.store ⟨.ok (.place w), f, events⟩ = [⟨w, size, align⟩]) :
    let o := (onStore x >>= fun w => pure (.place w)).run e
    e.store.Carves b (c.handed e.store o) o.state.store := by
  have hrun := onStore_run e x
  rcases hx with ⟨failure, hr⟩ | ⟨t, w, events, hr, -, -, hc⟩
  · rw [hr] at hrun
    rw [Op.run_bind_error hrun]
    simp only [herror]
    exact Store.carves_self hb rfl
  · rw [hr] at hrun
    rw [Op.run_bind_ok hrun, Op.run_pure]
    simp only [hok]
    exact hc

theorem perform_carves (hb : e.store.arenas.get? b = some arena)
    (hq : (Command.ask q).arena? = some b) :
    e.store.Carves b ((Command.ask q).handed e.store (q.perform.run e)) (q.perform.run e).state.store := by
  cases q with
  | allocate c size =>
    cases hq
    exact place_carves hb (Store.onArena_allocate hb size) (fun _ _ _ => rfl) fun _ _ _ => rfl
  | allocateLayout c layout =>
    cases hq
    exact place_carves hb (Store.onArena_allocateLayout hb layout) (fun _ _ _ => rfl) fun _ _ _ => rfl
  | createTemporary c size =>
    cases hq
    have hrun := onStore_run e (Store.createTemporary b size)
    rw [Request.perform]
    rcases Store.createTemporary_carves hb size with
      ⟨failure, t, events, hr, hc⟩ | ⟨h, home, t, events, hr, hc⟩
    · rw [hr] at hrun
      rw [Op.run_bind_error hrun]
      exact hc
    · rw [hr] at hrun
      rw [Op.run_bind_ok hrun]
      exact hc
  | _ => cases hq

theorem turn_view {β : Type} {view : Arena → β} (hview : ∀ a w data, view (a.store w data) = view a)
    (he : e.store.WellFormed) {t : Turn Command} (ht : t.action.isScratch = false) (a : ArenaId) :
    ((e.turn Command.run t).state.store.arenas.get? a).map view =
      (e.store.arenas.get? a).map view := by
  cases hacc : t.action.isAccess with
  | true => rw [(turn_accessed hacc).1.arenas_eq]
  | false =>
    refine (turn_evolves (P := fun arenas => (arenas.get? a).map view =
      (e.store.arenas.get? a).map view) he ?_ rfl hacc ?_).1.store.arenas
    · intro arenas b arena w data hb hs
      rw [Table.get?_put]
      split
      · next he =>
        subst he
        rw [hb] at hs
        rw [hb, ← hs]
        exact congrArg some (hview arena w data)
      · exact hs
    · intro hscratch
      rw [ht] at hscratch
      cases hscratch

theorem turn_shape (he : e.store.WellFormed) {t : Turn Command} (ht : t.action.isScratch = false)
    (a : ArenaId) :
    ((e.turn Command.run t).state.store.arenas.get? a).map Arena.shape =
      (e.store.arenas.get? a).map Arena.shape := turn_view Arena.shape_store he ht a

theorem resetArena_run (hb : e.store.arenas.get? b = some arena) :
    ∃ f events, (Request.resetArena b).perform.run e = ⟨.ok .done, f, events⟩ ∧
      f.store.arenas = e.store.arenas.put b (Arena.reset.run arena).state := by
  obtain ⟨c, events, hr, -⟩ := arena.reset_run
  have hreset := Store.onArena_run hb Arena.reset
  rw [hr] at hreset ⊢
  have hrun := onStore_run e (Store.resetArena b)
  rw [Store.resetArena, Op.run_bind_ok hreset] at hrun
  exact ⟨_, _, Op.run_bind_ok hrun, rfl⟩

theorem dropArena_run (hb : e.store.arenas.get? b = some arena) :
    ∃ f events, (Request.dropArena b).perform.run e = ⟨.ok .done, f, events⟩ ∧
      f.store.arenas = e.store.arenas.erase b := by
  have hget : (Store.arena b).run e.store = ⟨.ok arena, e.store, []⟩ := by
    rw [Store.arena, Op.run_get_bind, hb, Op.run_expect_some]
  have hrun := onStore_run e (Store.dropArena b)
  rw [Store.dropArena, Op.run_bind_silent hget] at hrun
  exact ⟨_, _, Op.run_bind_ok hrun, rfl⟩

theorem perform_handling {q : Request} (hq : q.isScratch = true) (ha : e.allows q = true) :
    Handling e.store (.ask q) (q.perform.run e) := by
  have hcarved : ∀ b, (Command.ask q).arena? = some b → (e.store.arenas.get? b).isSome →
      (∀ a, (Command.ask q).clears a (q.perform.run e) = false) →
      Handling e.store (.ask q) (q.perform.run e) := by
    intro b hb hsome hclears
    obtain ⟨arena, harena⟩ := Option.isSome_iff_exists.mp hsome
    exact .carved hb (perform_carves harena hb) hclears
  cases q with
  | openArena n pos => exact .opened rfl rfl fun _ => rfl
  | allocate b size => exact hcarved b rfl ha fun _ => rfl
  | allocateLayout b layout => exact hcarved b rfl ha fun _ => rfl
  | createTemporary b size => exact hcarved b rfl ha fun _ => rfl
  | resetArena b =>
    obtain ⟨arena, harena⟩ := Option.isSome_iff_exists.mp (Bool.and_eq_true_iff.mp ha).1
    obtain ⟨c, _, hreset, hc⟩ := arena.reset_run
    obtain ⟨f, events, hr, hf⟩ := resetArena_run harena
    rw [hreset] at hf
    rw [hr]
    exact .reset hf hc rfl fun _ => rfl
  | dropArena b =>
    obtain ⟨arena, harena⟩ := Option.isSome_iff_exists.mp (Bool.and_eq_true_iff.mp ha).1
    obtain ⟨f, events, hr, hf⟩ := dropArena_run harena
    rw [hr]
    exact .dropped hf rfl fun _ => rfl
  | _ => cases hq

theorem turn_ask {t : Turn Command} (ht : t.action = .ask q) :
    e.turn Command.run t =
      if e.allows q then q.perform.run (e.prepared t) else ⟨.ok .barred, e.prepared t, []⟩ := by
  rw [turn, ht, Command.run, ask_run, prepared_allows]

theorem turn_handling (he : e.store.WellFormed) (t : Turn Command) :
    Handling (e.prepared t).store t.action (e.turn Command.run t) := by
  cases hs : t.action.isScratch with
  | false =>
    exact .still (turn_shape he hs) (Command.handed_of_still hs _ _) fun a => Command.clears_of_still hs a _
  | true =>
    cases hact : t.action with
    | ask q =>
      rw [hact] at hs
      rw [turn_ask hact]
      split
      · next hallows =>
        rw [← prepared_allows e t] at hallows
        exact perform_handling hs hallows
      · refine .still (fun _ => rfl) ?_ fun a => ?_
        · cases q <;> rfl
        · cases q <;> rfl
    | _ =>
      rw [hact] at hs
      cases hs

theorem Stored.of_shape (hs : Stored s a before)
    (h : (t.arenas.get? a).map Arena.shape = (s.arenas.get? a).map Arena.shape) : Stored t a before := by
  unfold Stored at hs ⊢
  cases ha : s.arenas.get? a with
  | none =>
    rw [ha] at hs h
    rw [Option.map_eq_none_iff.mp h]
    exact hs
  | some arena =>
    rw [ha] at hs h
    obtain ⟨c, hc, hshape⟩ := Option.map_eq_some_iff.mp h
    rw [hc]
    exact Arena.Lays.of_shape hs hshape

theorem held_of_still (hc : c.clears a o = false) (ha : c.arena? ≠ some a) :
    held a s c o before = before := by
  rw [held, if_neg (Bool.eq_false_iff.mp hc), if_neg ha]

theorem Handling.stored (h : Handling s c o) (hs : Stored s a before) :
    Stored o.state.store a (held a s c o before) := by
  have hsame : ∀ {t : Store}, t.arenas.get? a = s.arenas.get? a → Stored t a before :=
    fun h => hs.of_shape (congrArg _ h)
  -- In each case the arena that is meant is `a` itself or another one, and then `a` is as it was.
  cases h with
  | still h hhanded hclears =>
    rw [held, if_neg (Bool.eq_false_iff.mp (hclears a)), hhanded, List.nil_append, ite_self]
    exact hs.of_shape (h a)
  | opened h harena hclears =>
    rw [held_of_still (hclears a) (by rw [harena]; nofun)]
    by_cases hnext : a = s.arenas.next
    · unfold Stored at hs ⊢
      rw [hnext, Table.get?_next] at hs
      rw [h, Table.get?_add, if_pos hnext, hs]
      exact Arena.lays_new _ _
    · apply hsame
      rw [h, Table.get?_add, if_neg hnext]
  | @carved b harena hcarves hclears =>
    obtain ⟨arena, c, hb, ht, hext⟩ := hcarves
    by_cases hba : b = a
    · subst hba
      rw [held, if_neg (Bool.eq_false_iff.mp (hclears b)), if_pos harena]
      unfold Stored at hs ⊢
      rw [hb] at hs
      rw [ht, Table.get?_put, if_pos rfl, hb]
      exact hext.lays hs
    · rw [held_of_still (hclears a) (by rw [harena]; exact fun h => hba (Option.some.inj h))]
      apply hsame
      rw [ht, Table.get?_put, if_neg hba]
  | @reset b arena h hlays harena hclears =>
    by_cases hba : b = a
    · rw [held, if_pos (by rw [hclears, decide_eq_true hba])]
      unfold Stored
      rw [h, Table.get?_put, if_pos hba]
      cases s.arenas.get? a with
      | none => rfl
      | some _ => exact hlays
    · rw [held_of_still (by rw [hclears, decide_eq_false hba])
        (by rw [harena]; nofun)]
      apply hsame
      rw [h, Table.get?_put, if_neg hba]
  | @dropped b h harena hclears =>
    by_cases hba : b = a
    · rw [held, if_pos (by rw [hclears, decide_eq_true hba])]
      unfold Stored
      rw [h, Table.get?_erase, if_pos hba]
    · rw [held_of_still (by rw [hclears, decide_eq_false hba])
        (by rw [harena]; nofun)]
      apply hsame
      rw [h, Table.get?_erase, if_neg hba]

theorem pieces_stored (he : e.store.WellFormed) (hs : Stored e.store a before)
    (ts : List (Turn Command)) : Stored (e.after Command.run ts).store a (pieces a e before ts) := by
  induction ts generalizing e before with
  | nil => exact hs
  | cons t ts ih =>
    have hprepared : Stored (e.prepared t).store a before := hs
    exact ih (turn_wellFormed he t) ((turn_handling he t).stored hprepared)

theorem Handling.spans (h : Handling s c o) (ha : s.arenas.get? a = some arena)
    (hclears : c.clears a o = false) :
    ∃ b, o.state.store.arenas.get? a = some b ∧ arena.spans <+: b.spans := by
  cases h with
  | still h _ _ =>
    have hshape := h a
    rw [ha] at hshape
    obtain ⟨c, hc, hshape⟩ := Option.map_eq_some_iff.mp hshape
    exact ⟨c, hc, (Prod.mk.inj hshape).1 ▸ List.prefix_rfl⟩
  | opened h _ _ =>
    have hnext : a ≠ s.arenas.next := by
      rintro rfl
      rw [Table.get?_next] at ha
      cases ha
    exact ⟨arena, by rw [h, Table.get?_add, if_neg hnext, ha], List.prefix_rfl⟩
  | @carved b _ hcarves _ =>
    obtain ⟨d, c, hb, ht, hext⟩ := hcarves
    rw [ht]
    simp only [Table.get?_put]
    by_cases hba : b = a
    · subst hba
      rw [ha] at hb
      cases hb
      exact ⟨c, by rw [if_pos rfl, ha]; rfl, hext.spans_prefix⟩
    · exact ⟨arena, by rw [if_neg hba, ha], List.prefix_rfl⟩
  | @reset b c h _ _ hc =>
    have hba : b ≠ a := of_decide_eq_false ((hc a).symm.trans hclears)
    exact ⟨arena, by rw [h, Table.get?_put, if_neg hba, ha], List.prefix_rfl⟩
  | @dropped b h _ hc =>
    have hba : b ≠ a := of_decide_eq_false ((hc a).symm.trans hclears)
    exact ⟨arena, by rw [h, Table.get?_erase, if_neg hba, ha], List.prefix_rfl⟩

end Engine

def Command.endsArena (c : Command) (a : ArenaId) : Bool :=
  match c with
  | .ask (.resetArena b) | .ask (.dropArena b) => b = a
  | _ => false

theorem Command.clears_eq_false {c : Command} {a : ArenaId} (hc : c.endsArena a = false)
    (o : Outcome Engine Answer) : c.clears a o = false := by
  unfold clears
  split
  · exact hc
  · exact hc
  · rfl

theorem Engine.spans_after {e : Engine} {a : ArenaId} {arena : Arena} (he : e.store.WellFormed)
    (ha : e.store.arenas.get? a = some arena) (ts : List (Turn Command))
    (hts : ∀ t ∈ ts, t.action.endsArena a = false) :
    ∃ c, (e.after Command.run ts).store.arenas.get? a = some c ∧ arena.spans <+: c.spans := by
  induction ts generalizing e arena with
  | nil => exact ⟨arena, ha, List.prefix_rfl⟩
  | cons t ts ih =>
    have hprepared : (e.prepared t).store.arenas.get? a = some arena := ha
    obtain ⟨c, hc, hprefix⟩ := (turn_handling he t).spans hprepared
      (Command.clears_eq_false (hts t List.mem_cons_self) _)
    obtain ⟨d, hd, hprefix'⟩ :=
      ih (turn_wellFormed he t) hc fun t ht => hts t (List.mem_cons_of_mem _ ht)
    exact ⟨d, hd, hprefix.trans hprefix'⟩

/-- Whatever is asked and wherever chunks lie, the pieces that an arena has handed out since it was
made or reset lie apart from each other, each aligned and inside one of its chunks, and the chunks
stay where they are until the arena is reset or dropped. The handle of a temporary string that was then
refused its bytes is one of the pieces. -/
theorem arena_storage (ts : List (Turn Command)) (a : ArenaId) (arena : Arena)
    (ha : (Engine.start.after Command.run ts).store.arenas.get? a = some arena) :
    let pieces := Engine.pieces a Engine.start [] ts
    pieces.Pairwise Piece.Apart ∧
      (∀ q ∈ pieces, ∃ chunk, arena.chunks[q.place.chunk]? = some chunk ∧
        q.place.offset + q.size ≤ chunk.size ∧ (chunk.base + q.place.offset) % q.align = 0) ∧
      ((arena.spans.Pairwise fun c d => c.1 + c.2 ≤ d.1 ∨ d.1 + d.2 ≤ c.1) →
        pieces.Pairwise fun q r => ∀ x y, arena.address? q = some x → arena.address? r = some y →
          x + q.size ≤ y ∨ y + r.size ≤ x) ∧
      ∀ ts' : List (Turn Command), (∀ t ∈ ts', t.action.endsArena a = false) →
        ∃ c, ((Engine.start.after Command.run ts).after Command.run ts').store.arenas.get? a = some c ∧
          arena.spans <+: c.spans := by
  intro pieces
  have hlays : arena.Lays pieces := by
    have hnone : Engine.Stored Engine.start.store a [] := rfl
    have hs : Engine.Stored (Engine.start.after Command.run ts).store a pieces :=
      Engine.pieces_stored Engine.start_wellFormed hnone ts
    unfold Engine.Stored at hs
    rw [ha] at hs
    exact hs
  refine ⟨hlays.apart, hlays.holds, hlays.apart_in_memory, fun ts' hts => ?_⟩
  exact Engine.spans_after (Engine.wellFormed_after ts) ha ts' hts

def scratchRun : List (Turn Command) :=
  [⟨.ask (.openArena 96 (by decide)), 0, some⟩, ⟨.ask (.allocate ⟨0⟩ 10), 0, some⟩,
    ⟨.ask (.createTemporary ⟨0⟩ 100), 0, some⟩, ⟨.ask (.createTemporary ⟨0⟩ 5000), 0, fun _ => none⟩]

theorem arena_storage_small :
    (Engine.pieces ⟨0⟩ Engine.start [] scratchRun).map Piece.place =
        [⟨1, 104⟩, ⟨1, 0⟩, ⟨0, 16⟩, ⟨0, 0⟩] ∧
      (Engine.pieces ⟨0⟩ Engine.start [] scratchRun).Pairwise Piece.Apart := by
  have hsome : ((Engine.start.after Command.run scratchRun).store.arenas.get? ⟨0⟩).isSome := by
    decide +kernel
  obtain ⟨arena, ha⟩ := Option.isSome_iff_exists.mp hsome
  exact ⟨by decide +kernel, (arena_storage scratchRun ⟨0⟩ arena ha).1⟩

end OffRow
