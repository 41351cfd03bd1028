import OffRow.Proofs.Pool.Fill
import OffRow.Proofs.Store.Separation
import OffRow.Proofs.Store.Sharing

namespace OffRow.Store

/-- A property that outlives every operation, as long as only `loose` pools are filled or emptied and
only first chunks of a size for which `opens` holds are asked for. -/
structure Rigid (loose : PoolId → Prop) (opens : Nat → Prop) (I : Store → Prop) : Prop where
  world : ∀ {s : Store} thread allocator, I s → I { s with thread, allocator }
  handles : ∀ {s : Store} handles, I s → I { s with handles }
  arenas : ∀ {s : Store} arenas, I s → I { s with arenas }
  modify : ∀ {s : Store} {p : PoolId} {f : SharedPool → SharedPool},
    (∀ c, s.pools.get? p = some c → (f c).pool.firstSlots = c.pool.firstSlots ∧
      (loose p ∨ (f c).pool.fill = c.pool.fill)) → I s → I { s with pools := s.pools.modify p f }
  erase : ∀ {s : Store} p, I s → I { s with pools := s.pools.erase p }
  withPool : ∀ {s : Store} c {n} policy, opens n → I s → I (s.withPool c n policy)
  opened : ∀ {s : Store} {r registry} c, s.registries.get? r = some registry → I s →
    I (s.opened r registry c)
  addRegistry : ∀ {s : Store} {n} pos policy, opens n → I s →
    I { s with registries := s.registries.add (.new n pos policy) }
  eraseRegistry : ∀ {s : Store} r, I s → I { s with registries := s.registries.erase r }

namespace Rigid

variable {α : Type} {loose : PoolId → Prop} {opens : Nat → Prop} {I : Store → Prop} {p : PoolId}
  (hI : Rigid loose opens I)

include hI

theorem onPool {x : Op Pool α} (hx : ∀ n, Op.Keeps (fun q => q.firstSlots = n) x)
    (hp : loose p ∨ ∀ f, Op.Keeps (fun q => q.fill = f) x) : Op.Keeps I (onPool p x) := by
  refine .of_state fun s hs => ?_
  cases hc : s.pools.get? p with
  | none =>
    rw [onPool_run_none hc]
    exact hs
  | some c =>
    rw [onPool_run hc]
    refine hI.modify (fun d hd => ?_) hs
    cases hc.symm.trans hd
    exact ⟨(hx _ c.pool rfl).state, hp.imp_right fun hx => (hx _ c.pool rfl).state⟩

theorem custody : Custody I (fun _ => True) (fun _ => True) where
  counted hf hs := by
    refine hI.modify (fun c hc => ?_) hs
    obtain ⟨references, -, he⟩ := hf c hc
    rw [he]
    exact ⟨rfl, .inr rfl⟩
  ended p hs := hI.erase p hs
  event _ := trivial
  fault _ := trivial

theorem aloof : Aloof I (fun _ => True) (fun _ => True) :=
  aloof_of_all (fun _ hs => hI.arenas _ hs) fun _ hs => hI.handles _ hs

theorem readers {s : Store} (p : PoolId) (f : Nat → Nat) (hs : I s) :
    I { s with pools := s.pools.modify p fun c => { c with readers := f c.readers } } :=
  hI.modify (fun _ _ => ⟨rfl, .inr rfl⟩) hs

theorem modifyHandle (h : HandleId) (f : Handle → Handle) : Op.Keeps I (modifyHandle h f) :=
  .modify fun _ hs => hI.handles _ hs

theorem eraseHandle (h : HandleId) : Op.Keeps I (eraseHandle h) := .modify fun _ hs => hI.handles _ hs

theorem addHandle (a : Handle) : Op.Keeps I (addHandle a) :=
  .bind .get fun _ => .bind (.modify fun _ hs => hI.handles _ hs) fun _ => .pure _

theorem updateLocation (h : HandleId) (location : Address) : Op.Keeps I (updateLocation h location) :=
  .bind (handle_obeys trivial h) fun _ => .bind (.ensure _ _) fun _ => hI.modifyHandle h _

theorem createPool (c : SizeClass) {firstBytes : Nat} (hn : opens firstBytes) (policy : DropPolicy) :
    Op.Keeps I (createPool c firstBytes policy) := createPool_obeys fun hs => hI.withPool c policy hn hs

theorem poolForClass (r : RegistryId) (c : SizeClass) : Op.Keeps I (poolForClass r c) :=
  poolForClass_obeys trivial (fun _ => trivial) (fun hr _ hs => hI.opened _ hr hs) r c

theorem poolForSize (r : RegistryId) (size : Nat) : Op.Keeps I (poolForSize r size) :=
  .bind (.ofExcept _) fun c => hI.poolForClass r c

theorem allocateBlock (hp : loose p) (owner : HandleId) : Op.Keeps I (allocateBlock p owner) :=
  .bind .get fun _ => hI.onPool (fun _ => Pool.allocate_keeps _ _) (.inl hp)

theorem freeBlock (hp : loose p) (payload : Address) (owner : HandleId) :
    Op.Keeps I (freeBlock p payload owner) :=
  freeBlock_keeps (fun _ => hI.onPool (fun _ => Pool.checkThread_keeps _) (.inl hp))
    (fun _ _ => hI.onPool (fun _ => Pool.copyBlock_keeps _ _) (.inl hp))
    (fun _ => hI.onPool (fun _ => Pool.vacate_keeps _) (.inl hp))
    (fun _ _ => hI.updateLocation _ _) payload owner

theorem shrinkToFit (hp : loose p) : Op.Keeps I (shrinkToFit p) :=
  hI.onPool (fun _ => Pool.shrinkToFit_keeps) (.inl hp)

theorem createIn (hp : loose p) (size : Nat) : Op.Keeps I (createIn p size) := by
  refine .bind (hI.custody.acquire p) fun _ => .bind (hI.addHandle _) fun h => ?_
  refine .bind (checkUnused_obeys trivial trivial p) fun _ => .bind (shared_obeys trivial p) fun _ => ?_
  refine .bind (.ensure _ _) fun _ => .bind (.recover (hI.allocateBlock hp h) fun failure => ?_) fun w => ?_
  · cases failure with
    | error e => exact .bind (hI.eraseHandle h) fun _ => .bind (hI.custody.release false p) fun _ => .fail _
    | fault e => exact .fail _
  · exact .bind (hI.updateLocation h _) fun _ => .bind (hI.modifyHandle h _) fun _ => .pure _

theorem create (hl : ∀ p, loose p) (r : RegistryId) (size : Nat) : Op.Keeps I (create r size) :=
  .bind (hI.poolForSize r size) fun p => hI.createIn (hl p) size

theorem destroy {s : Store} (hs : I s) (h : HandleId)
    (hl : ∀ a p, s.handles.get? h = some a → a.pool = some p → loose p) :
    I ((Store.destroy h).run s).state := by
  cases hh : s.handles.get? h with
  | none =>
    rw [Store.destroy, Op.run_bind_error (handle_run_none hh)]
    exact hs
  | some a =>
    rw [Store.destroy, Op.run_bind_silent (handle_run hh)]
    refine Op.Keeps.state_bind (hI.modifyHandle h _ s hs).state fun _ => ?_
    cases hpool : a.pool with
    | none => exact .fail _
    | some p =>
      have hfree := hI.freeBlock (hl a p hh hpool) a.location h
      refine .of_state fun t ht => ?_
      rw [Op.run_expect_some_bind]
      exact (Op.Keeps.bind (checkUnused_obeys trivial trivial p) (fun _ => .bind hfree fun _ =>
        .bind (hI.eraseHandle h) fun _ => hI.custody.release false p) t ht).state

theorem overwrite (h : HandleId) (start : Nat) (data : ByteArray) :
    Op.Keeps I (overwrite h start data) := by
  refine overwrite_obeys trivial (fun _ _ _ hs => hI.arenas _ hs) (fun _ _ hp _ hs => ?_) h start data
  refine hI.modify (fun c hc => ?_) hs
  obtain rfl := Option.some.inj (hp.symm.trans hc)
  exact ⟨rfl, .inr Pool.fill_setSlot⟩

end Rigid

structure View (p : PoolId) (J : Pool → Prop) (s : Store) : Prop where
  known : p.number < s.pools.next.number
  holds : ∀ {c}, s.pools.get? p = some c → J c.pool

theorem View.congr {p : PoolId} {J : Pool → Prop} {s t : Store} (hs : View p J s)
    (ht : t.pools = s.pools) : View p J t := ⟨ht ▸ hs.known, fun hc => hs.holds (ht ▸ hc)⟩

theorem View.withPool {p : PoolId} {J : Pool → Prop} {s : Store} (hs : View p J s) (c : SizeClass)
    (n : Nat) (policy : DropPolicy) : View p J (s.withPool c n policy) where
  known := by
    rw [Store.withPool, Table.next_add]
    exact Nat.lt_succ_of_lt hs.known
  holds := by
    intro d hd
    have hne : p ≠ s.pools.next := by
      rintro rfl
      exact absurd hs.known (Nat.lt_irrefl _)
    rw [Store.withPool, Table.get?_add, if_neg hne] at hd
    exact hs.holds hd

theorem rigid_view {loose : PoolId → Prop} {p : PoolId} {J : Pool → Prop}
    (hJ : ∀ {q q' : Pool}, (loose p ∨ q'.fill = q.fill) → J q → J q') :
    Rigid loose (fun _ => True) (View p J) where
  world _ _ hs := hs.congr rfl
  handles _ hs := hs.congr rfl
  arenas _ hs := hs.congr rfl
  modify := by
    intro s q f hf hs
    refine ⟨by rw [Table.next_modify]; exact hs.known, fun {d} hd => ?_⟩
    rw [Table.get?_modify] at hd
    split at hd
    · next hq =>
      subst hq
      obtain ⟨c, hc, rfl⟩ := Option.map_eq_some_iff.mp hd
      exact hJ (hf c hc).2 (hs.holds hc)
    · exact hs.holds hd
  erase _ hs :=
    ⟨by rw [Table.next_erase]; exact hs.known, fun hd => hs.holds (Table.get?_of_erase hd)⟩
  withPool c n policy _ hs := hs.withPool c n policy
  opened c _ hs := (hs.withPool c _ _).congr rfl
  addRegistry _ _ _ hs := hs.congr rfl
  eraseRegistry _ hs := hs.congr rfl

structure Words (s : Store) : Prop where
  registries : ∀ {r registry}, s.registries.get? r = some registry →
    registry.firstChunkBytes ≤ Word.largest
  pools : ∀ {p c}, s.pools.get? p = some c → c.pool.firstSlots ≤ Word.largest

theorem firstSlots_new_le {n : Nat} (hn : n ≤ Word.largest) (c : SizeClass) (policy : DropPolicy)
    (thread : ThreadId) : (Pool.new c n policy thread).firstSlots ≤ Word.largest := by
  have hd : n / Pool.stride c ≤ n := Nat.div_le_self _ _
  change max 1 (n / Pool.stride c) ≤ Word.largest
  exact max_le (by decide) (hd.trans hn)

theorem Words.withPool {s : Store} (hs : s.Words) (c : SizeClass) {n : Nat} (hn : n ≤ Word.largest)
    (policy : DropPolicy) : (s.withPool c n policy).Words where
  registries := hs.registries
  pools := by
    intro p d hd
    rw [Store.withPool, Table.get?_add] at hd
    split at hd
    · cases hd
      exact firstSlots_new_le hn c policy s.thread
    · exact hs.pools hd

theorem rigid_words : Rigid (fun _ => True) (· ≤ Word.largest) Words where
  world _ _ hs := ⟨hs.registries, hs.pools⟩
  handles _ hs := ⟨hs.registries, hs.pools⟩
  arenas _ hs := ⟨hs.registries, hs.pools⟩
  modify := by
    intro s q f hf hs
    refine ⟨hs.registries, fun {p d} hd => ?_⟩
    rw [Table.get?_modify] at hd
    split at hd
    · next hq =>
      subst hq
      obtain ⟨c, hc, rfl⟩ := Option.map_eq_some_iff.mp hd
      exact (hf c hc).1 ▸ hs.pools hc
    · exact hs.pools hd
  erase _ hs := ⟨hs.registries, fun hd => hs.pools (Table.get?_of_erase hd)⟩
  withPool c _ policy hn hs := hs.withPool c hn policy
  opened := by
    intro s r registry c hr hs
    refine ⟨fun {x found} hx => ?_, (hs.withPool c (hs.registries hr) registry.policy).pools⟩
    have hx' : (s.registries.modify r (·.setPool c s.pools.next)).get? x = some found := hx
    rw [Table.get?_modify] at hx'
    split at hx'
    · obtain ⟨old, hold, rfl⟩ := Option.map_eq_some_iff.mp hx'
      have hle : old.firstChunkBytes ≤ Word.largest := hs.registries hold
      exact hle
    · exact hs.registries hx'
  addRegistry := by
    intro s n pos policy hn hs
    refine ⟨fun {x found} hx => ?_, hs.pools⟩
    rw [Table.get?_add] at hx
    split at hx
    · cases hx
      exact hn
    · exact hs.registries hx
  eraseRegistry _ hs := ⟨fun hx => hs.registries (Table.get?_of_erase hx), hs.pools⟩

end OffRow.Store
