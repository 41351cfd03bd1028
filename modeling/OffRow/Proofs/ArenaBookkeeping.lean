import OffRow.Proofs.ArenaBooks
import OffRow.Proofs.ArenaStorage
import OffRow.Proofs.Guards
import OffRow.Proofs.Separation

namespace OffRow

namespace Store

def Books {α : Type} (s : Store) (a : ArenaId) (granted : List Nat) (o : Outcome Store α) : Prop :=
  (∃ b, o.state.arenas = s.arenas.put a b ∧ b.Booked granted) ∧ ∀ fault, o.result ≠ .error (.fault fault)

variable {α : Type} {s : Store} {a : ArenaId} {arena : Arena} {granted : List Nat}

theorem Books.of_setArena {o : Outcome Store α} (b : Arena) (h : (s.setArena a b).Books a granted o) :
    s.Books a granted o := by
  obtain ⟨⟨b, hb, hbooked⟩, hresult⟩ := h
  exact ⟨⟨b, hb.trans (Table.modify_modify s.arenas a _ _), hbooked⟩, hresult⟩

theorem books_self (ha : s.arenas.get? a = some arena) (h : arena.Booked granted) {cause : Error}
    {events : List Event} : s.Books a granted (⟨.error (.error cause), s, events⟩ : Outcome Store α) := by
  refine ⟨⟨arena, ?_, h⟩, fun _ => nofun⟩
  exact congrArg Store.arenas (setArena_self ha).symm

theorem onArena_allocateLayout_books (ha : s.arenas.get? a = some arena) (h : arena.Booked granted)
    (layout : Layout) :
    s.Books a (granted ++ arena.grantedOf s.allocator [layout])
      ((onArena a (Arena.allocateLayout s.allocator layout)).run s) := by
  rw [onArena_run ha]
  rcases Arena.allocateLayout_outcome h.cursorInside s.allocator layout with
    ⟨cause, hr⟩ | ⟨hg, events, hr⟩
  · rw [Arena.grantedOf_error _ hr, List.append_nil, hr, setArena_self ha]
    exact books_self ha h
  · rw [Arena.grantedOf_ok _ hr, hr]
    exact ⟨⟨_, rfl, h.carved hg⟩, fun _ => nofun⟩

theorem onArena_allocate_books (ha : s.arenas.get? a = some arena) (h : arena.Booked granted)
    (size : Nat) :
    s.Books a (granted ++ arena.grantedOf s.allocator (Layout.words? size).toList)
      ((onArena a (Arena.allocate s.allocator size)).run s) := by
  cases hp : Layout.words? size with
  | none =>
    rw [onArena_run ha, Arena.allocate, hp, Op.run_error, setArena_self ha]
    simp only [Option.toList_none, Arena.grantedOf, List.append_nil]
    exact books_self ha h
  | some layout =>
    rw [allocate_eq hp]
    exact onArena_allocateLayout_books ha h layout

theorem createTemporary_books (ha : s.arenas.get? a = some arena) (h : arena.Booked granted)
    {size : Nat} {c : SizeClass} (hsize : SizeClass.forSize size = .ok c) :
    s.Books a (granted ++ arena.grantedOf s.allocator (handleLayout :: (Layout.words? size).toList))
      ((createTemporary a size).run s) := by
  rw [createTemporary, hsize, Op.run_ofExcept_ok_bind, Op.run_get_bind]
  have hhome := onArena_run ha (Arena.allocateLayout s.allocator handleLayout)
  rcases Arena.allocateLayout_outcome h.cursorInside s.allocator handleLayout with
    ⟨cause, hr⟩ | ⟨hg, events, hr⟩
  · rw [hr, setArena_self ha] at hhome
    rw [Arena.grantedOf_error _ hr, List.append_nil, Op.run_bind_error hhome]
    exact books_self ha h
  rw [hr] at hhome
  rw [Arena.grantedOf_ok _ hr, Op.run_bind_ok hhome]
  have ha' := get?_setArena ha (arena.carved s.allocator handleLayout)
  have hbytes := onArena_allocate_books ha' (h.carved hg) size
  rw [List.append_assoc] at hbytes
  apply Books.of_setArena (arena.carved s.allocator handleLayout)
  cases hx : (onArena a (Arena.allocate s.allocator size)).run
      (s.setArena a (arena.carved s.allocator handleLayout)) with
  | mk result t more =>
    change (s.setArena a (arena.carved s.allocator handleLayout)).Books a _
      ((onArena a (Arena.allocate s.allocator size)).run _) at hbytes
    rw [hx] at hbytes
    obtain ⟨⟨b, ht, hb⟩, hresult⟩ := hbytes
    cases result with
    | error failure =>
      rw [Op.run_bind_error hx]
      refine ⟨⟨b, ht, hb⟩, fun fault hf => hresult fault ?_⟩
      cases hf
      rfl
    | ok w =>
      have hget : t.arenas.get? a = some b := by
        rw [ht]
        exact get?_setArena ha' b
      have hstore := onArena_run hget (Op.modify (·.store w (Bytes.zeros size)))
      rw [Op.run_bind_ok hx, Op.run_bind_ok hstore]
      constructor
      · refine ⟨b.store w (Bytes.zeros size), ?_, hb.of_extent (b.extent_store w _)⟩
        change t.arenas.put a _ = _
        rw [ht]
        exact Table.modify_modify _ a _ _
      · intro _ hf
        cases hf

end Store

def Command.layouts : Command → List Layout
  | .ask (.allocate _ size) => (Layout.words? size).toList
  | .ask (.allocateLayout _ layout) => [layout]
  | .ask (.createTemporary _ size) =>
    match SizeClass.forSize size with
    | .ok _ => Store.handleLayout :: (Layout.words? size).toList
    | .error _ => []
  | _ => []

theorem Command.arena?_of_still {c : Command} (hc : c.isScratch = false) : c.arena? = none := by
  cases c with
  | ask q =>
    cases q with
    | allocate a size => cases hc
    | allocateLayout a layout => cases hc
    | createTemporary a size => cases hc
    | _ => rfl
  | _ => rfl

namespace Engine

def grantedBy (a : ArenaId) (e : Engine) (answers : Nat → Option Nat) (c : Command) : List Nat :=
  match e.store.arenas.get? a with
  | some arena => if c.arena? = some a then arena.grantedOf answers c.layouts else []
  | none => []

/-- The sizes that arena `a` has granted since it was made or reset. -/
def granted (a : ArenaId) : Engine → List Nat → List (Turn Command) → List Nat
  | _, before, [] => before
  | e, before, t :: ts =>
    let o := e.turn Command.run t
    granted a o.state
      (if t.action.clears a o then [] else before ++ e.grantedBy a t.answers t.action) ts

def Booked (e : Engine) (a : ArenaId) (granted : List Nat) : Prop :=
  match e.store.arenas.get? a with
  | some arena => arena.Booked granted
  | none => granted = []

variable {e f : Engine} {a b : ArenaId} {arena : Arena} {q : Request} {granted : List Nat}

theorem Booked.arena_booked (h : e.Booked a granted) (ha : e.store.arenas.get? a = some arena) :
    arena.Booked granted := by
  unfold Booked at h
  rw [ha] at h
  exact h

theorem Booked.of_extent (h : e.Booked a granted)
    (he : (f.store.arenas.get? a).map Arena.extent = (e.store.arenas.get? a).map Arena.extent) :
    f.Booked a granted := by
  cases ha : e.store.arenas.get? a with
  | none =>
    unfold Booked at h ⊢
    rw [ha] at h he
    rw [Option.map_eq_none_iff.mp he]
    exact h
  | some arena =>
    rw [ha] at he
    obtain ⟨c, hc, hextent⟩ := Option.map_eq_some_iff.mp he
    unfold Booked
    rw [hc]
    exact (h.arena_booked ha).of_extent hextent

theorem answer_books {α : Type} {x : Op Store α} {answer : α → Answer}
    (h : e.store.Books a granted (x.run e.store)) :
    let o := (onStore x >>= fun r => pure (answer r)).run e
    (∃ b, o.state.store.arenas = e.store.arenas.put a b ∧ b.Booked granted) ∧
      ∀ fault, o.result ≠ .error (.fault fault) := by
  intro o
  obtain ⟨⟨b, hb, hbooked⟩, hresult⟩ := h
  refine ⟨⟨b, ?_, hbooked⟩, fun fault hf => ?_⟩
  · rw [← hb]
    exact congrArg Store.arenas (answer_store answer)
  · have hmap : o.result = (x.run e.store).result.map answer := onStore_result e x fun _ _ => rfl
    rw [hmap] at hf
    exact hresult fault (map_eq_fault.mp hf)

theorem perform_books (ha : e.store.arenas.get? a = some arena) (h : arena.Booked granted)
    (hq : (Command.ask q).arena? = some a) :
    let o := q.perform.run e
    (∃ b, o.state.store.arenas = e.store.arenas.put a b ∧
        b.Booked (granted ++ arena.grantedOf e.store.allocator (Command.ask q).layouts)) ∧
      ∀ fault, o.result ≠ .error (.fault fault) := by
  cases q with
  | allocate c size =>
    cases hq
    exact answer_books (Store.onArena_allocate_books ha h size)
  | allocateLayout c layout =>
    cases hq
    exact answer_books (Store.onArena_allocateLayout_books ha h layout)
  | createTemporary c size =>
    cases hq
    rw [Command.layouts]
    cases hsize : SizeClass.forSize size with
    | error cause =>
      have hrun : (Store.createTemporary a size).run e.store = ⟨.error (.error cause), e.store, []⟩ := by
        rw [Store.createTemporary, hsize, Op.run_ofExcept_error_bind]
      simp only [Arena.grantedOf, List.append_nil]
      apply answer_books
      rw [hrun]
      exact Store.books_self ha h
    | ok c => exact answer_books (Store.createTemporary_books ha h hsize)
  | _ => cases hq

theorem grantedBy_of_ne {c : Command} (hc : c.arena? ≠ some a) (answers : Nat → Option Nat) :
    e.grantedBy a answers c = [] := by
  unfold grantedBy
  split
  · exact if_neg hc
  · rfl

theorem Booked.of_get? (h : e.Booked a granted)
    (hf : f.store.arenas.get? a = e.store.arenas.get? a) : f.Booked a granted :=
  h.of_extent (congrArg _ hf)

theorem Booked.of_put_ne (h : e.Booked a granted) (hba : b ≠ a)
    (hf : f.store.arenas = e.store.arenas.put b arena) : f.Booked a granted := by
  apply h.of_get?
  rw [hf, Table.get?_put, if_neg hba]

theorem booked_put (ha : (e.store.arenas.get? a).isSome)
    (hf : f.store.arenas = e.store.arenas.put a arena) (h : arena.Booked granted) :
    f.Booked a granted := by
  obtain ⟨before, hbefore⟩ := Option.isSome_iff_exists.mp ha
  unfold Booked
  rw [hf, Table.get?_put, if_pos rfl, hbefore]
  exact h

theorem carved_booked (h : e.Booked a granted) (hb : (Command.ask q).arena? = some b)
    (hsome : (e.store.arenas.get? b).isSome) :
    (q.perform.run e).state.Booked a (granted ++ e.grantedBy a e.store.allocator (.ask q)) := by
  obtain ⟨arena, hget⟩ := Option.isSome_iff_exists.mp hsome
  by_cases hba : b = a
  · subst hba
    obtain ⟨⟨c, hc, hbooked⟩, -⟩ := perform_books hget (h.arena_booked hget) hb
    have hgranted : e.grantedBy b e.store.allocator (.ask q) =
        arena.grantedOf e.store.allocator (Command.ask q).layouts := by
      rw [grantedBy, hget]
      exact if_pos hb
    rw [hgranted]
    exact booked_put hsome hc hbooked
  · obtain ⟨_, c, -, hc, -⟩ := perform_carves hget hb
    have hne : (Command.ask q).arena? ≠ some a := by
      rw [hb]
      exact fun h => hba (Option.some.inj h)
    rw [grantedBy_of_ne hne, List.append_nil]
    exact h.of_put_ne hba hc

theorem perform_booked (h : e.Booked a granted) (hq : q.isScratch = true) (ha : e.allows q = true) :
    let o := q.perform.run e
    o.state.Booked a (if (Command.ask q).clears a o then [] else
      granted ++ e.grantedBy a e.store.allocator (.ask q)) := by
  have hkept : (Command.ask q).arena? = none →
      granted ++ e.grantedBy a e.store.allocator (.ask q) = granted := by
    intro hnone
    rw [grantedBy_of_ne (by rw [hnone]; nofun), List.append_nil]
  cases q with
  | openArena n pos =>
    change Booked _ a (granted ++ _)
    rw [hkept rfl]
    by_cases hnext : a = e.store.arenas.next
    · unfold Booked at h ⊢
      rw [hnext, Table.get?_next] at h
      change match (e.store.arenas.add (.new n pos)).get? a with | some _ => _ | none => _
      rw [Table.get?_add, if_pos hnext, h]
      exact .new n pos
    · apply h.of_get?
      exact (Table.get?_add _ _ _).trans (if_neg hnext)
  | allocate b size => exact carved_booked h rfl ha
  | allocateLayout b layout => exact carved_booked h rfl ha
  | createTemporary b size => exact carved_booked h rfl ha
  | resetArena b =>
    obtain ⟨arena, harena⟩ := Option.isSome_iff_exists.mp (Bool.and_eq_true_iff.mp ha).1
    obtain ⟨f, events, hr, hf⟩ := resetArena_run harena
    rw [hr]
    change Booked _ a (if decide (b = a) = true then _ else _)
    rw [hkept rfl]
    by_cases hba : b = a
    · subst hba
      rw [decide_eq_true rfl, if_pos rfl]
      exact booked_put (by rw [harena]; rfl) hf (h.arena_booked harena).reset
    · rw [decide_eq_false hba, if_neg Bool.false_ne_true]
      exact h.of_put_ne hba hf
  | dropArena b =>
    obtain ⟨arena, harena⟩ := Option.isSome_iff_exists.mp (Bool.and_eq_true_iff.mp ha).1
    obtain ⟨f, events, hr, hf⟩ := dropArena_run harena
    rw [hr]
    change Booked _ a (if decide (b = a) = true then _ else _)
    rw [hkept rfl]
    by_cases hba : b = a
    · rw [decide_eq_true hba, if_pos rfl]
      unfold Booked
      rw [hf, Table.get?_erase, if_pos hba]
    · rw [decide_eq_false hba, if_neg Bool.false_ne_true]
      apply h.of_get?
      rw [hf, Table.get?_erase, if_neg hba]
  | _ => cases hq

theorem allows_of_arena (hq : (Command.ask q).arena? = some a) (ha : (e.store.arenas.get? a).isSome) :
    e.allows q = true := by
  cases q with
  | allocate b size =>
    cases hq
    exact ha
  | allocateLayout b layout =>
    cases hq
    exact ha
  | createTemporary b size =>
    cases hq
    exact ha
  | _ => cases hq

theorem turn_booked (he : e.store.WellFormed) (h : e.Booked a granted) (t : Turn Command) :
    let o := e.turn Command.run t
    o.state.Booked a
      (if t.action.clears a o then [] else granted ++ e.grantedBy a t.answers t.action) := by
  intro o
  cases hs : t.action.isScratch with
  | false =>
    rw [Command.clears_of_still hs, if_neg Bool.false_ne_true,
      grantedBy_of_ne (by rw [Command.arena?_of_still hs]; nofun), List.append_nil]
    exact h.of_extent (turn_view Arena.extent_store he hs a)
  | true =>
    cases hact : t.action with
    | ask q =>
      have ho := turn_ask (e := e) hact
      by_cases hallows : e.allows q
      · rw [if_pos hallows] at ho
        rw [← prepared_allows e t] at hallows
        rw [hact] at hs
        have hperform := perform_booked (e := e.prepared t) (show Booked _ a granted from h) hs hallows
        rw [← ho] at hperform
        exact hperform
      · rw [if_neg hallows] at ho
        have hclears : (Command.ask q).clears a o = false := by
          rw [show o = _ from ho]
          cases q <;> rfl
        have hnone : e.grantedBy a t.answers (.ask q) = [] := by
          unfold grantedBy
          split
          · next arena ha =>
            apply if_neg
            intro harena
            exact hallows (allows_of_arena harena (by rw [ha]; rfl))
          · rfl
        rw [hclears, if_neg Bool.false_ne_true, hnone, List.append_nil, show o = _ from ho]
        exact h
    | _ =>
      rw [hact] at hs
      cases hs

theorem booked_after (he : e.store.WellFormed) (h : e.Booked a granted) (ts : List (Turn Command)) :
    (e.after Command.run ts).Booked a (Engine.granted a e granted ts) := by
  induction ts generalizing e granted with
  | nil => exact h
  | cons t ts ih => exact ih (turn_wellFormed he t) (turn_booked he h t)

theorem booked_of_start (ts : List (Turn Command))
    (ha : (start.after Command.run ts).store.arenas.get? a = some arena) :
    arena.Booked (Engine.granted a start [] ts) :=
  (booked_after start_wellFormed (show start.Booked a [] from rfl) ts).arena_booked ha

theorem turn_ne_fault (h : e.Booked a granted) (ha : e.store.arenas.get? a = some arena)
    {t : Turn Command} (ht : t.action.arena? = some a) (fault : Fault) :
    (e.turn Command.run t).result ≠ .error (.fault fault) := by
  cases hact : t.action with
  | ask q =>
    rw [hact] at ht
    have hallows : e.allows q = true := allows_of_arena ht (by rw [ha]; rfl)
    rw [turn_ask hact, if_pos hallows]
    exact (perform_books (e := e.prepared t) ha (h.arena_booked ha) ht).2 fault
  | _ =>
    rw [hact] at ht
    cases ht

end Engine

/-- Whatever is asked of an arena and whichever chunks are granted, its chunks at least double, the
cursor stays in the last of them, and the bytes counted are those granted since the last reset. -/
theorem arena_bookkeeping (ts : List (Turn Command)) (a : ArenaId) (arena : Arena)
    (ha : (Engine.start.after Command.run ts).store.arenas.get? a = some arena) :
    (arena.chunkSizes.IsChain fun m n => 2 * m ≤ n) ∧
      (∀ front last, arena.chunks.toList = front ++ [last] → ∀ chunk ∈ front, chunk.size < last.size) ∧
      arena.cursor ≤ arena.chunkSizes.getLastD 0 ∧
      (∀ t : Turn Command, t.action.arena? = some a → ∀ fault,
        ((Engine.start.after Command.run ts).turn Command.run t).result ≠ .error (.fault fault)) ∧
      arena.allocatedBytes = (Engine.granted a Engine.start [] ts).sum ∧
      arena.allocatedBytes ≤ arena.chunkSizes.sum ∧ arena.allocatedBytes < Word.largest ∧
      (Arena.reset.run arena).result = .ok () ∧
      (Arena.reset.run arena).state =
        { arena with
          chunks := (arena.chunks.toList.argmax ArenaChunk.size).toArray, cursor := 0
          allocatedBytes := 0 } := by
  have h := Engine.booked_of_start ts ha
  refine ⟨h.doubling, fun _ _ hc => h.lt_last hc, h.cursor_le, ?_, h.allocatedBytes_eq,
    h.allocatedBytes_le_sum, ?_, h.reset_run⟩
  · intro t ht fault
    have hbooked := Engine.booked_after Engine.start_wellFormed
      (show Engine.start.Booked a [] from rfl) ts
    exact Engine.turn_ne_fault hbooked ha ht fault
  · exact h.allocatedBytes_le_sum.trans_lt (h.doubling.sum_lt h.valid)

def bookedRun : List (Turn Command) :=
  [⟨.ask (.openArena 104 (by decide)), 0, some⟩, ⟨.ask (.allocate ⟨0⟩ 10), 0, some⟩,
    ⟨.ask (.allocate ⟨0⟩ 1000), 0, some⟩, ⟨.ask (.resetArena ⟨0⟩), 0, some⟩,
    ⟨.ask (.allocate ⟨0⟩ 0), 0, some⟩,
    ⟨.ask (.createTemporary ⟨0⟩ 5000), 0, fun size => if size ≤ 4096 then some 0 else none⟩,
    ⟨.ask (.createTemporary ⟨0⟩ 2000), 0, some⟩]

theorem arena_bookkeeping_refused :
    Engine.granted ⟨0⟩ Engine.start [] bookedRun = [32, 32, 2000] ∧
      ∃ arena, (Engine.start.after Command.run bookedRun).store.arenas.get? ⟨0⟩ = some arena ∧
        arena.allocatedBytes = 2064 ∧ arena.chunkSizes = [1008, 2016] := by
  have hgranted : Engine.granted ⟨0⟩ Engine.start [] bookedRun = [32, 32, 2000] := by decide +kernel
  have hextent : ((Engine.start.after Command.run bookedRun).store.arenas.get? ⟨0⟩).map Arena.chunkSizes =
      some [1008, 2016] := by decide +kernel
  obtain ⟨arena, ha, hsizes⟩ := Option.map_eq_some_iff.mp hextent
  have hcount := (arena_bookkeeping bookedRun ⟨0⟩ arena ha).2.2.2.2.1
  rw [hgranted] at hcount
  exact ⟨hgranted, arena, ha, hcount, hsizes⟩

end OffRow
