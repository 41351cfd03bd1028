import OffRow.Proofs.Store.Custody
import OffRow.Proofs.Store.Scratch
import Mathlib.Logic.Relation
/-!
What an operation may do to a store, whatever it is and whether it succeeds. Pools change step by step
in a few ways, most of them only while none of their blocks is being accessed; handles change owners
and places; and of itself no pool ever has a complaint.
-/

namespace OffRow

inductive SharedPool.Change (c : SharedPool) : SharedPool → Prop
  | counted {n : Nat} : 0 < n → Change c { c with references := n }
  | allocated {grants : Nat → Bool} (owner : HandleId) : c.readers = 0 →
      c.pool.CanAllocate grants → Change c { c with pool := c.pool.roomy.pushed owner }
  | copied {i : Nat} : c.readers = 0 → i < c.pool.len →
      Change c { c with pool := c.pool.copied (c.pool.len - 1) i }
  | freed {i : Nat} : c.readers = 0 → i < c.pool.len → Change c { c with pool := c.pool.freed i }
  | fitted : c.readers = 0 → Change c { c with pool := c.pool.fitted }
  | rewritten (i : Nat) {f : ByteArray → ByteArray} : (∀ b, (f b).size = b.size) →
      Change c { c with pool := c.pool.rewritten i f }

abbrev SharedPool.Evolves : SharedPool → SharedPool → Prop := Relation.ReflTransGen SharedPool.Change

namespace SharedPool

variable {c d : SharedPool}

theorem Change.wellFormed (h : c.Change d) (hc : c.pool.WellFormed) : d.pool.WellFormed := by
  cases h with
  | counted _ => exact hc
  | allocated _ _ hg => exact (hc.roomy hg).pushed (Pool.len_lt_roomy hc)
  | copied _ hi => exact hc.copied (by omega) hi
  | freed _ hi => exact hc.freed hi
  | fitted _ => exact hc.fitted
  | rewritten _ hf => exact hc.rewritten hf

theorem Change.readers_eq (h : c.Change d) : d.readers = c.readers := by
  cases h <;> rfl

theorem Evolves.invariant {I : SharedPool → Prop} (hI : ∀ {c d}, c.Change d → I c → I d)
    (h : c.Evolves d) (hc : I c) : I d := by
  induction h with
  | refl => exact hc
  | tail _ hd ih => exact hI hd ih

theorem Evolves.readers_eq (h : c.Evolves d) : d.readers = c.readers :=
  h.invariant (I := fun d => d.readers = c.readers) (fun hd hc => hd.readers_eq.trans hc) rfl

end SharedPool

def Fault.isPoolDefect : Fault → Bool
  | .ownerMissing | .slotOutOfBounds .. | .indexOverflow | .chunkMissing | .slotOutsideChunk
  | .lenOverflow | .lenUnderflow | .capacityOverflow | .capacityUnderflow | .nothingToRelease
  | .liveChunkReleased | .capacityMismatch .. | .lenExceedsCapacity .. | .vacantSlotOwned ..
  | .wrongIndex .. | .slotUnowned .. => true
  | _ => false

def Failure.Outward : Failure → Prop
  | .error _ => True
  | .fault cause => cause.isPoolDefect = false

theorem outward_dangling : Failure.Outward (.fault .dangling) := rfl

namespace Store

/-- How a store may come from `s`: by steps of its pools, new pools and new handles, and handles that
change owners or places. Of the arenas it has what is asked of them. -/
structure Evolves (scratch : Table .arena Arena → Prop) (s t : Store) : Prop where
  pools : ∀ {p d}, t.pools.get? p = some d →
    (∃ c, s.pools.get? p = some c ∧ c.Evolves d) ∨
      s.pools.next.number ≤ p.number ∧ ∃ c firstBytes policy thread,
        SharedPool.Evolves ⟨.new c firstBytes policy thread, 1, 0⟩ d
  handles : ∀ {h b}, t.handles.get? h = some b →
    (∃ a, s.handles.get? h = some a ∧
      b.size = a.size ∧ b.temporary = a.temporary ∧ b.pool = a.pool) ∨
      s.handles.next.number ≤ h.number
  pools_le : s.pools.next.number ≤ t.pools.next.number
  handles_le : s.handles.next.number ≤ t.handles.next.number
  arenas : scratch t.arenas

def Unused (s : Store) (p : PoolId) : Prop := ∀ c, s.pools.get? p = some c → c.readers = 0

variable {α : Type} {scratch : Table .arena Arena → Prop} {s t : Store} {p : PoolId}
  {h owner : HandleId}

namespace Evolves

theorem refl (hs : scratch s.arenas) : Evolves scratch s s where
  pools hp := .inl ⟨_, hp, .refl⟩
  handles hh := .inl ⟨_, hh, rfl, rfl, rfl⟩
  pools_le := Nat.le_refl _
  handles_le := Nat.le_refl _
  arenas := hs

theorem congr {u : Store} (ht : Evolves scratch s t) (hp : u.pools = t.pools)
    (hh : u.handles = t.handles) (ha : scratch u.arenas) : Evolves scratch s u where
  pools h := ht.pools (hp ▸ h)
  handles h := ht.handles (hh ▸ h)
  pools_le := hp ▸ ht.pools_le
  handles_le := hh ▸ ht.handles_le
  arenas := ha

theorem modifyPool {f : SharedPool → SharedPool} (ht : Evolves scratch s t)
    (hf : ∀ c, t.pools.get? p = some c → c.Evolves (f c)) :
    Evolves scratch s { t with pools := t.pools.modify p f } where
  pools := by
    intro q d hq
    rw [Table.get?_modify] at hq
    split at hq
    · next he =>
      subst he
      obtain ⟨c, hc, rfl⟩ := Option.map_eq_some_iff.mp hq
      rcases ht.pools hc with ⟨b, hb, hbc⟩ | ⟨hle, k, n, policy, thread, hbc⟩
      · exact .inl ⟨b, hb, hbc.trans (hf c hc)⟩
      · exact .inr ⟨hle, k, n, policy, thread, hbc.trans (hf c hc)⟩
    · exact ht.pools hq
  handles := ht.handles
  pools_le := by simpa using ht.pools_le
  handles_le := ht.handles_le
  arenas := ht.arenas

theorem addPool (ht : Evolves scratch s t) (c : SizeClass) (firstBytes : Nat) (policy : DropPolicy)
    (thread : ThreadId) :
    Evolves scratch s { t with pools := t.pools.add ⟨.new c firstBytes policy thread, 1, 0⟩ } where
  pools := by
    intro q d hq
    rw [Table.get?_add] at hq
    split at hq
    · next he =>
      cases hq
      exact .inr ⟨he ▸ ht.pools_le, c, firstBytes, policy, thread, .refl⟩
    · exact ht.pools hq
  handles := ht.handles
  pools_le := by
    rw [Table.next_add]
    exact Nat.le_succ_of_le ht.pools_le
  handles_le := ht.handles_le
  arenas := ht.arenas

theorem erasePool (ht : Evolves scratch s t) : Evolves scratch s { t with pools := t.pools.erase p } where
  pools := by
    intro q d hq
    exact ht.pools (Table.get?_of_erase hq)
  handles := ht.handles
  pools_le := by simpa using ht.pools_le
  handles_le := ht.handles_le
  arenas := ht.arenas

theorem addHandle (ht : Evolves scratch s t) (a : Handle) :
    Evolves scratch s { t with handles := t.handles.add a } where
  pools := ht.pools
  handles := by
    intro x b hx
    rw [Table.get?_add] at hx
    split at hx
    · next he => exact .inr (he ▸ ht.handles_le)
    · exact ht.handles hx
  pools_le := ht.pools_le
  handles_le := by
    rw [Table.next_add]
    exact Nat.le_succ_of_le ht.handles_le
  arenas := ht.arenas

theorem modifyHandle (ht : Evolves scratch s t) {f : Handle → Handle}
    (hf : ∀ a, (f a).size = a.size ∧ (f a).temporary = a.temporary ∧ (f a).pool = a.pool) :
    Evolves scratch s { t with handles := t.handles.modify h f } where
  pools := ht.pools
  handles := by
    intro x b hx
    rw [Table.get?_modify] at hx
    split at hx
    · obtain ⟨a, ha, rfl⟩ := Option.map_eq_some_iff.mp hx
      obtain ⟨hsize, htemp, hpool⟩ := hf a
      rcases ht.handles ha with ⟨a', ha', hs, ht, hp⟩ | hle
      · exact .inl ⟨a', ha', hsize.trans hs, htemp.trans ht, hpool.trans hp⟩
      · exact .inr hle
    · exact ht.handles hx
  pools_le := ht.pools_le
  handles_le := by simpa using ht.handles_le
  arenas := ht.arenas

theorem eraseHandle (ht : Evolves scratch s t) : Evolves scratch s { t with handles := t.handles.erase h } where
  pools := ht.pools
  handles := by
    intro x b hx
    exact ht.handles (Table.get?_of_erase hx)
  pools_le := ht.pools_le
  handles_le := by simpa using ht.handles_le
  arenas := ht.arenas

theorem filterHandles (ht : Evolves scratch s t) (pass : Handle → Bool) :
    Evolves scratch s { t with handles := t.handles.filter pass } where
  pools := ht.pools
  handles := by
    intro x b hx
    rw [Table.get?_filter, Option.filter_eq_some_iff] at hx
    exact ht.handles hx.1
  pools_le := ht.pools_le
  handles_le := by simpa using ht.handles_le
  arenas := ht.arenas

theorem invariant {I : SharedPool → Prop} (hI : ∀ {c d}, c.Change d → I c → I d)
    (hnew : ∀ c firstBytes policy thread, I ⟨.new c firstBytes policy thread, 1, 0⟩)
    (ht : Evolves scratch s t) (hs : ∀ p c, s.pools.get? p = some c → I c) :
    ∀ p d, t.pools.get? p = some d → I d := by
  intro p d hp
  rcases ht.pools hp with ⟨c, hc, hd⟩ | ⟨-, c, n, policy, thread, hd⟩
  · exact hd.invariant hI (hs p c hc)
  · exact hd.invariant hI (hnew c n policy thread)

theorem wellFormed (ht : Evolves scratch s t) (hs : s.WellFormed) : t.WellFormed :=
  ht.invariant (I := fun c => c.pool.WellFormed) SharedPool.Change.wellFormed Pool.new_wellFormed hs

theorem unused (ht : Evolves scratch s t) (hs : s.Unused p) : t.Unused p := by
  intro d hd
  rcases ht.pools hd with ⟨c, hc, hcd⟩ | ⟨-, c, n, policy, thread, hcd⟩
  · exact hcd.readers_eq.trans (hs c hc)
  · exact hcd.readers_eq

theorem pool {c d : SharedPool} (ht : Evolves scratch s t) (hc : s.pools.get? p = some c)
    (hd : t.pools.get? p = some d) : c.Evolves d := by
  rcases ht.pools hd with ⟨c', hc', hcd⟩ | ⟨hle, -⟩
  · cases hc.symm.trans hc'
    exact hcd
  · exact absurd (Table.lt_next hc) (Nat.not_lt_of_le hle)

theorem unused_of {d : SharedPool} (ht : Evolves scratch s t) (hd : t.pools.get? p = some d)
    (hr : d.readers = 0) : s.Unused p :=
  fun _ hc => (ht.pool hc hd).readers_eq.symm.trans hr

end Evolves

abbrev Evolving (scratch : Table .arena Arena → Prop) (s : Store) (x : Op Store α) : Prop :=
  Op.Safe (Evolves scratch s) Failure.Outward x

theorem addHandle_evolves (a : Handle) : Evolving scratch s (addHandle a) :=
  .bind .get fun _ => .bind (.modify fun _ ht => ht.addHandle a) fun _ => .pure _

theorem modifyHandle_evolves (h : HandleId) {f : Handle → Handle}
    (hf : ∀ a, (f a).size = a.size ∧ (f a).temporary = a.temporary ∧ (f a).pool = a.pool) :
    Evolving scratch s (modifyHandle h f) := .modify fun _ ht => ht.modifyHandle hf

theorem eraseHandle_evolves (h : HandleId) : Evolving scratch s (eraseHandle h) :=
  .modify fun _ ht => ht.eraseHandle

theorem updateLocation_evolves (h : HandleId) (location : Address) :
    Evolving scratch s (updateLocation h location) := by
  refine .bind (handle_obeys outward_dangling h) fun _ => .bind (.ensure _ rfl) fun _ => ?_
  exact modifyHandle_evolves h fun _ => ⟨rfl, rfl, rfl⟩

def IgnoresBytes (scratch : Table .arena Arena → Prop) : Prop :=
  ∀ arenas a arena w data, arenas.get? a = some arena → scratch arenas →
    scratch (arenas.put a (arena.store w data))

theorem evolves_custody : Custody (Evolves scratch s) (fun _ => True) Failure.Outward where
  counted hf ht := by
    refine ht.modifyPool fun c hc => ?_
    obtain ⟨references, hpos, he⟩ := hf c hc
    rw [he]
    exact .single (.counted hpos)
  ended _ ht := ht.erasePool
  event _ := trivial
  fault {cause} hc := by
    cases cause with
    | dangling | poolDropped _ _ | registryDropped _ => rfl
    | _ => cases hc

theorem evolves_aloof (hall : ∀ arenas, scratch arenas) :
    Aloof (Evolves scratch s) (fun _ => True) Failure.Outward where
  arenas _ ht := ht.congr rfl rfl (hall _)
  created _ _ _ ht := ht.addHandle _
  reclaimed _ ht := ht.filterHandles _
  event _ := trivial
  failure {cause} hc := by
    cases cause with
    | error _ => trivial
    | fault cause =>
      cases cause with
      | cursorOutsideChunk | freshChunkTooSmall | dangling => rfl
      | _ => cases hc

theorem evolves_owned (h : HandleId) (owned : Bool) (ht : Evolves scratch s t) :
    Evolves scratch s { t with handles := t.handles.modify h fun a => { a with owned } } :=
  ht.modifyHandle fun _ => ⟨rfl, rfl, rfl⟩

theorem createPool_evolves (c : SizeClass) (firstBytes : Nat) (policy : DropPolicy) :
    Evolving scratch s (createPool c firstBytes policy) :=
  createPool_obeys fun ht => ht.addPool c firstBytes policy _

theorem Evolves.opened (ht : Evolves scratch s t) (r : RegistryId) (registry : Registry) (c : SizeClass) :
    Evolves scratch s (t.opened r registry c) :=
  (ht.addPool c _ _ _).congr rfl rfl ht.arenas

theorem poolForClass_evolves (r : RegistryId) (c : SizeClass) : Evolving scratch s (poolForClass r c) := by
  apply poolForClass_obeys outward_dangling fun _ => trivial
  intro t r registry c _ _ ht
  exact ht.opened r registry c

theorem poolForSize_evolves (r : RegistryId) (size : Nat) : Evolving scratch s (poolForSize r size) :=
  .bind (.ofExcept _ fun _ _ => trivial) fun c => poolForClass_evolves r c

theorem checkUnused_evolves {x : Op Store α} (hx : s.Unused p → Evolving scratch s x) :
    Evolving scratch s (checkUnused p >>= fun _ => x) := by
  intro t ht
  rcases checkUnused_bind t p x with ⟨cause, hcause, hrun⟩ | ⟨c, hp, hr, hrun⟩
  · rw [hrun]
    rcases hcause with rfl | ⟨-, rfl⟩
    · exact Outcome.Safe.failed ht rfl
    · exact Outcome.Safe.failed ht rfl
  · rw [hrun]
    exact hx (ht.unused_of hp hr) t ht

theorem setPool_evolves {c : SharedPool} (ht : Evolves scratch s t) (hp : t.pools.get? p = some c)
    {pool : Pool} (hc : c.Evolves { c with pool }) : Evolves scratch s (t.setPool p pool) := by
  apply ht.modifyPool
  intro d hd
  rw [hp] at hd
  cases hd
  exact hc

section

variable (hs : s.WellFormed)

include hs

theorem allocateBlock_evolves (hu : s.Unused p) (owner : HandleId) :
    Evolving scratch s (allocateBlock p owner) := by
  intro t ht
  cases hp : t.pools.get? p with
  | none =>
    rw [allocateBlock, Op.run_get_bind, onPool_run_none hp]
    exact Outcome.Safe.failed ht rfl
  | some c =>
    rw [allocateBlock_run hp (ht.wellFormed hs p c hp)]
    split
    · exact Outcome.Safe.failed ht rfl
    · split
      · next hg =>
        exact Outcome.Safe.done (setPool_evolves ht hp (.single (.allocated owner (ht.unused hu c hp) hg)))
      · exact Outcome.Safe.failed ht trivial

theorem freeBlock_evolves (hu : s.Unused p) (payload : Address) (owner : HandleId) :
    Evolving scratch s (freeBlock p payload owner) := by
  intro t ht
  cases hp : t.pools.get? p with
  | none =>
    rw [freeBlock, Op.run_get_bind, Op.run_bind_error (onPool_run_none hp _)]
    exact Outcome.Safe.failed ht rfl
  | some c =>
    have hr := ht.unused hu c hp
    have hfreeing := freeBlock_freeing hp (ht.wellFormed hs p c hp) payload owner
    generalize (freeBlock p payload owner).run t = o at hfreeing
    cases hfreeing with
    | refused hcause => rcases hcause with rfl | ⟨_, rfl⟩ <;> exact Outcome.Safe.failed ht rfl
    | last hi _ => exact Outcome.Safe.done (setPool_evolves ht hp (.single (.freed hr hi.1)))
    | stuck hi _ _ hcause =>
      have hcopied := setPool_evolves ht hp (.single (.copied hr hi.1))
      rcases hcause with rfl | rfl <;> exact Outcome.Safe.failed hcopied rfl
    | moved hi _ _ =>
      have hfreed := setPool_evolves ht hp (.single (.freed hr hi.1))
      exact Outcome.Safe.done (hfreed.modifyHandle fun _ => ⟨rfl, rfl, rfl⟩)

theorem shrinkToFit_evolves (hu : s.Unused p) : Evolving scratch s (shrinkToFit p) := by
  intro t ht
  cases hp : t.pools.get? p with
  | none =>
    rw [shrinkToFit, onPool_run_none hp]
    exact Outcome.Safe.failed ht rfl
  | some c =>
    rw [shrinkToFit, onPool_run hp, Pool.shrinkToFit_run (ht.wellFormed hs p c hp).toShaped]
    exact Outcome.Safe.done (setPool_evolves ht hp (.single (.fitted (ht.unused hu c hp))))

theorem check_evolves (p : PoolId) : Evolving scratch s (check p) := by
  intro t ht
  cases hp : t.pools.get? p with
  | none =>
    rw [check, Op.run_bind_error (shared_run_none hp)]
    exact Outcome.Safe.failed ht rfl
  | some c =>
    rw [check, Op.run_bind_silent (shared_run hp), Op.run_get_bind]
    refine Op.Obeys.ofFault (F := Failure.Outward) _ (fun e he => ?_) t ht
    obtain ⟨i, h, -, hc⟩ := complaint_of_integrityCheck (ht.wellFormed hs p c hp) he
    cases hc <;> rfl

theorem overwrite_evolves (hbytes : IgnoresBytes scratch) (h : HandleId) (start : Nat)
    (data : ByteArray) : Evolving scratch s (overwrite h start data) := by
  refine overwrite_obeys outward_dangling (fun w data ha ht => ?_) (fun start data hp hslot ht => ?_) h
    start data
  · exact ht.congr rfl rfl (hbytes _ _ _ w data ha ht.arenas)
  · obtain ⟨i, -, -, he⟩ := Pool.setSlot_eq_rewritten (ht.wellFormed hs _ _ hp).toShaped hslot fun b =>
      Bytes.patch b start data
    rw [he]
    exact setPool_evolves ht hp (.single (.rewritten i fun b => Bytes.size_patch b _ _))

theorem createIn_evolves (p : PoolId) (size : Nat) : Evolving scratch s (createIn p size) := by
  refine .bind (evolves_custody.acquire p) fun _ => .bind (addHandle_evolves _) fun h => ?_
  refine checkUnused_evolves fun hu => .bind (shared_obeys outward_dangling p) fun _ => .bind (.ensure _ rfl) fun _ => ?_
  refine .bind (.recover (allocateBlock_evolves hs hu h) ?_) fun w => ?_
  · intro failure hf
    cases failure with
    | error e =>
      exact .bind (eraseHandle_evolves h) fun _ => .bind (evolves_custody.release false p) fun _ => .fail trivial
    | fault e => exact .fail hf
  · refine .bind (updateLocation_evolves h _) fun _ => ?_
    exact .bind (modifyHandle_evolves h fun _ => ⟨rfl, rfl, rfl⟩) fun _ => .pure _

theorem destroy_evolves (h : HandleId) : Evolving scratch s (destroy h) := by
  refine .bind (handle_obeys outward_dangling h) fun handle => ?_
  refine .bind (modifyHandle_evolves h fun _ => ⟨rfl, rfl, rfl⟩) fun _ => ?_
  refine .bind (.expect _ rfl) fun p => checkUnused_evolves fun hu => ?_
  refine .bind (freeBlock_evolves hs hu _ h) fun _ => ?_
  exact .bind (eraseHandle_evolves h) fun _ => evolves_custody.release false p

theorem create_evolves (r : RegistryId) (size : Nat) : Evolving scratch s (create r size) :=
  .bind (poolForSize_evolves r size) fun p => createIn_evolves hs p size

end

end Store

end OffRow
