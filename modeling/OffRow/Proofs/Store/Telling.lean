import OffRow.Proofs.Pool.Frames
import OffRow.Proofs.Pool.Thrift
import OffRow.Proofs.Store.Lifetimes
/-!
What the trace tells of a pool: the chunks that it reserved and released, the slots that it gave to
new blocks, and those between which it moved blocks. Each change of a pool is told once.
-/

namespace OffRow

namespace Event

def traffic? : Event → Option Nat
  | .chunkReserved block .. | .chunkReleased block .. | .blockAllocated block _
  | .blockRelocated block .. => some block
  | _ => none

variable (b : Nat) (event : Event)

def reserved? : Option Nat :=
  match event with
  | .chunkReserved block _ slots _ => if block = b then some slots else none
  | _ => none

def released? : Option Nat :=
  match event with
  | .chunkReleased block slots _ => if block = b then some slots else none
  | _ => none

def capacity? : Option Nat :=
  match event with
  | .chunkReserved block _ _ capacity | .chunkReleased block _ capacity =>
    if block = b then some capacity else none
  | _ => none

def allocated? : Option Nat :=
  match event with
  | .blockAllocated block index => if block = b then some index else none
  | _ => none

def relocated? : Option (Nat × Nat) :=
  match event with
  | .blockRelocated block source target => if block = b then some (source, target) else none
  | _ => none

variable {b event}

theorem untold (h : event.traffic? ≠ some b) :
    event.reserved? b = none ∧ event.released? b = none ∧ event.capacity? b = none ∧
      event.allocated? b = none ∧ event.relocated? b = none := by
  cases event <;> simp_all [traffic?, reserved?, released?, capacity?, allocated?, relocated?]

end Event

namespace Trace

variable (b : Nat) (log : List Event)

def reserved : List Nat := log.filterMap (Event.reserved? b)

def released : List Nat := log.filterMap (Event.released? b)

def allocated : List Nat := log.filterMap (Event.allocated? b)

def relocated : List (Nat × Nat) := log.filterMap (Event.relocated? b)

def follow (i : Nat) : Nat :=
  (relocated b log).foldl (fun i move => if move.1 = i then move.2 else i) i

/-- Each event that tells a capacity tells that which follows from `start` and from the events up to
itself. -/
def Running (start : Nat) (log : List Event) : Prop :=
  ∀ before event rest, log = before ++ event :: rest → ∀ n ∈ event.capacity? b,
    n + (released b (before ++ [event])).sum = start + (reserved b (before ++ [event])).sum

variable {b log} {event : Event} {start m i : Nat} {more : List Event}

@[simp] theorem reserved_append : reserved b (log ++ more) = reserved b log ++ reserved b more :=
  List.filterMap_append

@[simp] theorem released_append : released b (log ++ more) = released b log ++ released b more :=
  List.filterMap_append

@[simp] theorem allocated_append : allocated b (log ++ more) = allocated b log ++ allocated b more :=
  List.filterMap_append

@[simp] theorem relocated_append : relocated b (log ++ more) = relocated b log ++ relocated b more :=
  List.filterMap_append

theorem follow_append : follow b (log ++ more) i = follow b more (follow b log i) := by
  rw [follow, relocated_append, List.foldl_append]
  rfl

theorem untold (h : ∀ event ∈ log, event.traffic? ≠ some b) :
    reserved b log = [] ∧ released b log = [] ∧ allocated b log = [] ∧ relocated b log = [] := by
  have huntold := fun event hm => Event.untold (h event hm)
  simp only [reserved, released, allocated, relocated, List.filterMap_eq_nil_iff]
  exact ⟨fun event hm => (huntold event hm).1, fun event hm => (huntold event hm).2.1,
    fun event hm => (huntold event hm).2.2.2.1, fun event hm => (huntold event hm).2.2.2.2⟩

theorem running_untold (h : ∀ event ∈ log, event.traffic? ≠ some b) : Running b start log := by
  rintro before event rest rfl n hn
  have hm : event ∈ before ++ event :: rest := List.mem_append_right _ List.mem_cons_self
  rw [(Event.untold (h event hm)).2.2.1] at hn
  cases hn

theorem running_nil : Running b start [] := running_untold fun _ hm => absurd hm List.not_mem_nil

theorem running_singleton
    (h : ∀ n ∈ event.capacity? b, n + (released b [event]).sum = start + (reserved b [event]).sum) :
    Running b start [event] := by
  intro before event' rest heq n hn
  obtain ⟨rfl, rfl, -⟩ : before = [] ∧ event = event' ∧ rest = [] := by
    cases before with
    | nil => simpa using heq
    | cons x xs => simp at heq
  exact h n hn

theorem running_moot (h : event.capacity? b = none) : Running b start [event] :=
  running_singleton fun n hn => by
    rw [h] at hn
    cases hn

theorem append_eq_append_cons {before rest : List Event} (h : log ++ more = before ++ event :: rest) :
    (∃ front, before = log ++ front ∧ more = front ++ event :: rest) ∨
      ∃ tail, log = before ++ event :: tail ∧ rest = tail ++ more := by
  rcases List.append_eq_append_iff.mp h with ⟨front, hbefore, hmore⟩ | ⟨tail, hlog, hrest⟩
  · exact .inl ⟨front, hbefore, hmore⟩
  · cases tail with
    | nil => exact .inl ⟨[], by rw [hlog, List.append_nil, List.append_nil], hrest.symm⟩
    | cons x tail =>
      cases hrest
      exact .inr ⟨tail, hlog, rfl⟩

theorem Running.append (hl : Running b start log)
    (hmiddle : m + (released b log).sum = start + (reserved b log).sum)
    (hm : Running b m more) : Running b start (log ++ more) := by
  intro before event rest heq n hn
  rcases append_eq_append_cons heq with ⟨front, rfl, hmore⟩ | ⟨tail, hlog, -⟩
  · have hrun := hm front event rest hmore n hn
    simp only [List.append_assoc, released_append, reserved_append, List.sum_append] at hrun hmiddle ⊢
    omega
  · exact hl before event tail hlog n hn

theorem Running.append_untold (hl : Running b start log)
    (hm : ∀ event ∈ more, event.traffic? ≠ some b) : Running b start (log ++ more) := by
  intro before event rest heq n hn
  rcases append_eq_append_cons heq with ⟨front, -, rfl⟩ | ⟨tail, hlog, -⟩
  · rw [(Event.untold (hm event (List.mem_append_right _ List.mem_cons_self))).2.2.1] at hn
    cases hn
  · exact hl before event tail hlog n hn

end Trace

namespace Pool

variable {p q : Pool} {b i j k : Nat} {owner : HandleId} {grants : Nat → Bool} {told : List Event}
  {idle : Nat → Bool}

open Trace

def Distinct (p : Pool) : Prop := ∀ {i j h}, p.Owns i h → p.Owns j h → i = j

/-- The events `told` tell how pool `q` comes from pool `p`: each chunk that comes or goes, each block
that is new and each block that has another slot, once. -/
structure Tells (p : Pool) (told : List Event) (q : Pool) : Prop where
  sizeClass_eq : q.sizeClass = p.sizeClass
  reserved_length : (reserved p.blockSize told).length = q.chunks.size - p.chunks.size
  released_length : (released p.blockSize told).length = p.chunks.size - q.chunks.size
  capacity_eq : q.capacity + (released p.blockSize told).sum = p.capacity + (reserved p.blockSize told).sum
  running : Running p.blockSize p.capacity told
  allocated_length : (allocated p.blockSize told).length ≤ 1
  mem_allocated : ∀ i, i ∈ allocated p.blockSize told ↔ ∃ h, q.Owns i h ∧ ∀ j, ¬p.Owns j h
  relocated_length : (relocated p.blockSize told).length ≤ 1
  mem_relocated : ∀ i j, (i, j) ∈ relocated p.blockSize told ↔ i ≠ j ∧ ∃ h, p.Owns i h ∧ q.Owns j h

theorem Tells.blockSize_eq (h : p.Tells told q) : q.blockSize = p.blockSize :=
  congrArg SizeClass.blockSize h.sizeClass_eq

theorem Tells.follow_eq (h : p.Tells told q) (hq : q.Distinct) {m : HandleId} (hi : p.Owns i m)
    (hj : q.Owns j m) : follow p.blockSize told i = j := by
  have hmem := h.mem_relocated
  have hlength := h.relocated_length
  rw [follow]
  match hr : relocated p.blockSize told with
  | [] =>
    by_contra hne
    have hmove := (hmem i j).mpr ⟨hne, m, hi, hj⟩
    rw [hr] at hmove
    cases hmove
  | [(source, target)] =>
    rw [hr] at hmem
    obtain ⟨hst, n, hsource, htarget⟩ := (hmem source target).mp List.mem_cons_self
    simp only [List.foldl_cons, List.foldl_nil]
    split
    · next he =>
      subst he
      obtain rfl := hsource.owner_eq hi
      exact hq htarget hj
    · next hne =>
      by_contra hij
      have hmove := (hmem i j).mpr ⟨hij, m, hi, hj⟩
      cases List.mem_singleton.mp hmove
      exact hne rfl
  | _ :: _ :: _ =>
    rw [hr] at hlength
    simp at hlength

theorem Tells.after_untold {front : List Event} (h : p.Tells told q)
    (hfront : ∀ event ∈ front, event.traffic? ≠ some p.blockSize) : p.Tells (front ++ told) q := by
  obtain ⟨hreserved, hreleased, hallocated, hrelocated⟩ := Trace.untold hfront
  refine ⟨h.sizeClass_eq, ?_, ?_, ?_, ?_, ?_, ?_, ?_, ?_⟩
  · rw [reserved_append, hreserved]
    exact h.reserved_length
  · rw [released_append, hreleased]
    exact h.released_length
  · rw [reserved_append, released_append, hreserved, hreleased]
    exact h.capacity_eq
  · refine (running_untold hfront).append ?_ h.running
    rw [hreserved, hreleased]
  · rw [allocated_append, hallocated]
    exact h.allocated_length
  · rw [allocated_append, hallocated]
    exact h.mem_allocated
  · rw [relocated_append, hrelocated]
    exact h.relocated_length
  · rw [relocated_append, hrelocated]
    exact h.mem_relocated

theorem tells_untold (hp : p.Distinct) (h : ∀ event ∈ told, event.traffic? ≠ some p.blockSize) :
    p.Tells told p := by
  obtain ⟨hreserved, hreleased, hallocated, hrelocated⟩ := Trace.untold h
  refine ⟨rfl, ?_, ?_, ?_, running_untold h, ?_, fun i => ?_, ?_, fun i j => ?_⟩
  · rw [hreserved, Nat.sub_self]
    rfl
  · rw [hreleased, Nat.sub_self]
    rfl
  · rw [hreserved, hreleased]
  · rw [hallocated]
    exact Nat.zero_le _
  · rw [hallocated]
    refine iff_of_false List.not_mem_nil ?_
    rintro ⟨m, hi, hn⟩
    exact hn i hi
  · rw [hrelocated]
    exact Nat.zero_le _
  · rw [hrelocated]
    refine iff_of_false List.not_mem_nil ?_
    rintro ⟨hne, m, hi, hj⟩
    exact hne (hp hi hj)

theorem Tells.frame (h : p.Tells told q) {r : Pool} (hf : r.frame = q.frame) : p.Tells told r := by
  have hsize : r.chunks.size = q.chunks.size := by
    have hsize := congrArg (fun r : Pool => r.chunks.size) hf
    simpa only [Pool.frame, Array.size_map] using hsize
  have hcapacity : r.capacity = q.capacity := by
    have hcapacity : r.frame.capacity = q.frame.capacity := congrArg Pool.capacity hf
    exact hcapacity
  have hclass : r.sizeClass = q.sizeClass := by
    have hclass : r.frame.sizeClass = q.frame.sizeClass := congrArg Pool.sizeClass hf
    exact hclass
  refine ⟨hclass.trans h.sizeClass_eq, ?_, ?_, ?_, h.running, h.allocated_length, fun i => ?_,
    h.relocated_length, fun i j => ?_⟩
  · rw [hsize]
    exact h.reserved_length
  · rw [hsize]
    exact h.released_length
  · rw [hcapacity]
    exact h.capacity_eq
  · simp only [owns_of_frame_eq hf]
    exact h.mem_allocated i
  · simp only [owns_of_frame_eq hf]
    exact h.mem_relocated i j

theorem tells_growth (hs : p.Shaped) :
    (reserved p.blockSize p.growthEvents).length = p.roomy.chunks.size - p.chunks.size ∧
      released p.blockSize p.growthEvents = [] ∧
      p.roomy.capacity = p.capacity + (reserved p.blockSize p.growthEvents).sum ∧
      allocated p.blockSize p.growthEvents = [] ∧
      relocated p.blockSize p.growthEvents = [] ∧
      Running p.blockSize p.capacity p.growthEvents := by
  have hextended := extended_capacity hs
  rw [chunks_size_roomy, growthEvents, roomy]
  split
  · have hone : ∀ capacity,
        let event := Event.chunkReserved p.blockSize p.chunks.size (p.firstSlots * 2 ^ p.chunks.size) capacity
        reserved p.blockSize [event] = [p.firstSlots * 2 ^ p.chunks.size] ∧
          released p.blockSize [event] = [] := by
      simp [reserved, released, List.filterMap_cons, Event.reserved?, Event.released?]
    obtain ⟨hreserved, hreleased⟩ := hone p.extended.capacity
    refine ⟨?_, hreleased, ?_, rfl, rfl, running_singleton ?_⟩
    · rw [hreserved, Nat.add_sub_cancel_left, List.length_singleton]
    · rw [hreserved, hextended, List.sum_singleton]
    · rw [hreserved, hreleased]
      simp [Event.capacity?, hextended]
  · exact ⟨(Nat.sub_self _).symm, rfl, rfl, rfl, rfl, running_nil⟩

theorem tells_pushed (hp : p.Distinct) (hw : p.WellFormed) (hg : p.CanAllocate grants)
    (hn : ∀ i, ¬p.Owns i owner) :
    p.Tells (p.growthEvents ++ [.blockAllocated p.blockSize p.len]) (p.roomy.pushed owner) := by
  have howns : ∀ i m, (p.roomy.pushed owner).Owns i m ↔ _ := fun i m => owns_pushed hw hg
  have hsize : (p.roomy.pushed owner).chunks.size = p.roomy.chunks.size := setAt_chunks_size
  have hcapacity : (p.roomy.pushed owner).capacity = p.roomy.capacity := rfl
  obtain ⟨hreserved, hreleased, hroomy, hallocated, hrelocated, hgrowth⟩ := tells_growth hw.toShaped
  obtain ⟨hreserved', hreleased', hallocated', hrelocated'⟩ :
      reserved p.blockSize [.blockAllocated p.blockSize p.len] = [] ∧
        released p.blockSize [.blockAllocated p.blockSize p.len] = [] ∧
        allocated p.blockSize [.blockAllocated p.blockSize p.len] = [p.len] ∧
        relocated p.blockSize [.blockAllocated p.blockSize p.len] = [] := by
    simp [reserved, released, allocated, relocated, Event.reserved?, Event.released?, Event.allocated?,
      Event.relocated?]
  refine ⟨roomy_sizeClass, ?_, ?_, ?_, ?_, ?_, fun i => ?_, ?_, fun i j => ?_⟩
  · rw [reserved_append, hreserved', List.append_nil, hsize]
    exact hreserved
  · rw [released_append, hreleased, hreleased', hsize, chunks_size_roomy, Nat.sub_eq_zero_of_le]
    · rfl
    · exact Nat.le_add_right _ _
  · rw [reserved_append, released_append, hreleased, hreserved', hreleased', hcapacity, hroomy]
    simp
  · refine hgrowth.append (m := p.roomy.capacity) ?_ (running_moot rfl)
    rw [hreleased, ← hroomy]
    rfl
  · rw [allocated_append, hallocated, hallocated']
    simp
  · rw [allocated_append, hallocated, hallocated', List.nil_append, List.mem_singleton]
    constructor
    · rintro rfl
      exact ⟨owner, (howns _ _).mpr (.inr ⟨rfl, rfl⟩), hn⟩
    · rintro ⟨m, hm, hnew⟩
      rcases (howns i m).mp hm with hold | ⟨hi, -⟩
      · exact absurd hold (hnew i)
      · exact hi
  · rw [relocated_append, hrelocated, hrelocated']
    exact Nat.zero_le _
  · rw [relocated_append, hrelocated, hrelocated']
    refine iff_of_false List.not_mem_nil ?_
    rintro ⟨hne, m, hi, hj⟩
    rcases (howns j m).mp hj with hj | ⟨-, rfl⟩
    · exact hne (hp hi hj)
    · exact hn i hi

theorem tells_release (p : Pool) (idle : Nat → Bool) (k : Nat) :
    reserved p.blockSize (releaseEvents p idle k) = [] ∧
      (released p.blockSize (releaseEvents p idle k)).length = k - settle idle k ∧
      total p.firstSlots (settle idle k) + (released p.blockSize (releaseEvents p idle k)).sum =
        total p.firstSlots k ∧
      allocated p.blockSize (releaseEvents p idle k) = [] ∧
      relocated p.blockSize (releaseEvents p idle k) = [] ∧
      Running p.blockSize (total p.firstSlots k) (releaseEvents p idle k) := by
  induction k with
  | zero => exact ⟨rfl, rfl, rfl, rfl, rfl, running_nil⟩
  | succ k ih =>
    obtain ⟨hreserved, hlength, hsum, hallocated, hrelocated, hrunning⟩ := ih
    have hle := settle_le idle k
    have htotal := total_succ p.firstSlots k
    rw [releaseEvents, settle]
    split
    · let event := Event.chunkReleased p.blockSize (p.firstSlots * 2 ^ k) (total p.firstSlots k)
      have hone : reserved p.blockSize [event] = [] ∧ released p.blockSize [event] = [p.firstSlots * 2 ^ k] := by
        simp [event, reserved, released, List.filterMap_cons, Event.reserved?, Event.released?]
      rw [← List.singleton_append, reserved_append, released_append, allocated_append, relocated_append,
        hone.1, hone.2, hreserved, hallocated, hrelocated]
      have htold : Running p.blockSize (total p.firstSlots (k + 1)) [event] := by
        refine running_singleton ?_
        rw [hone.1, hone.2]
        simp [event, Event.capacity?, htotal]
      refine ⟨rfl, ?_, ?_, rfl, rfl, htold.append (m := total p.firstSlots k) ?_ hrunning⟩
      · simp only [List.length_append, List.length_singleton, hlength]
        omega
      · simp only [List.sum_append, List.sum_singleton]
        omega
      · rw [hone.1, hone.2]
        simp [htotal]
    · exact ⟨rfl, by simp [released], by simp [released], rfl, rfl, running_nil⟩

theorem tells_kept {front : List Event} (hs : p.Shaped) (hclass : q.sizeClass = p.sizeClass)
    (hfirst : q.firstSlots = p.firstSlots) (hsize : q.chunks.size = p.chunks.size)
    (hfront : front = [] ∨ ∃ i j, front = [.blockRelocated p.blockSize i j])
    (hold : ∀ i h, (q.keep (settle idle q.chunks.size)).Owns i h → ∃ j, p.Owns j h)
    (hmoved : ∀ i j, (i, j) ∈ relocated p.blockSize front ↔
      i ≠ j ∧ ∃ h, p.Owns i h ∧ (q.keep (settle idle q.chunks.size)).Owns j h) :
    p.Tells (front ++ releaseEvents q idle q.chunks.size) (q.keep (settle idle q.chunks.size)) := by
  have hblock : q.blockSize = p.blockSize := congrArg SizeClass.blockSize hclass
  have hcapacity : p.capacity = total q.firstSlots q.chunks.size := by rw [hs.capacity_eq, hfirst, hsize]
  have hkept : (q.keep (settle idle q.chunks.size)).chunks.size = settle idle q.chunks.size :=
    keep_chunks_size (settle_le _ _)
  obtain ⟨hreserved, hlength, hsum, hallocated, hrelocated, hrunning⟩ :=
    tells_release q idle q.chunks.size
  rw [hblock] at hreserved hlength hsum hallocated hrelocated hrunning
  obtain ⟨hreserved', hreleased', hallocated', hrunning', hone⟩ :
      reserved p.blockSize front = [] ∧ released p.blockSize front = [] ∧
        allocated p.blockSize front = [] ∧ Running p.blockSize p.capacity front ∧
        (relocated p.blockSize front).length ≤ 1 := by
    rcases hfront with rfl | ⟨i, j, rfl⟩
    · exact ⟨rfl, rfl, rfl, running_nil, Nat.zero_le _⟩
    · exact ⟨rfl, rfl, rfl, running_moot rfl, List.length_filterMap_le _ _⟩
  refine ⟨hclass, ?_, ?_, ?_, ?_, ?_, fun i => ?_, ?_, ?_⟩
  · have hle := settle_le idle q.chunks.size
    rw [reserved_append, hreserved, hreserved', hkept, ← hsize]
    simp [hle]
  · rw [released_append, hreleased', hkept, ← hsize]
    exact hlength
  · rw [reserved_append, released_append, hreserved, hreserved', hreleased', hcapacity]
    exact hsum
  · refine hrunning'.append (m := p.capacity) ?_ (hcapacity ▸ hrunning)
    rw [hreserved', hreleased']
  · rw [allocated_append, hallocated, hallocated']
    exact Nat.zero_le _
  · rw [allocated_append, hallocated, hallocated']
    refine iff_of_false List.not_mem_nil ?_
    rintro ⟨h, hi, hn⟩
    obtain ⟨j, hj⟩ := hold i h hi
    exact hn j hj
  · rw [relocated_append, hrelocated, List.append_nil]
    exact hone
  · rw [relocated_append, hrelocated, List.append_nil]
    exact hmoved

theorem tells_fitted (hp : p.Distinct) (hw : p.WellFormed) :
    p.Tells (releaseEvents p p.isSpare p.chunks.size) p.fitted := by
  have howns : ∀ i h, p.fitted.Owns i h ↔ p.Owns i h := fun i h => owns_fitted hw
  refine tells_kept hw.toShaped rfl rfl rfl (.inl rfl) (fun i h hi => ⟨i, (howns i h).mp hi⟩)
    fun i j => iff_of_false List.not_mem_nil ?_
  rintro ⟨hne, h, hi, hj⟩
  exact hne (hp hi ((howns j h).mp hj))

theorem tells_freed (hp : p.Distinct) (hw : p.WellFormed) (hi : i < p.len) :
    p.Tells (Store.destroyEvents p i) (p.freed i) := by
  have howns : ∀ j h, (p.freed i).Owns j h ↔ _ := fun j h => owns_freed hw hi
  have hclass : (p.compacted i).sizeClass = p.sizeClass := by
    unfold compacted
    split <;> rfl
  refine tells_kept hw.toShaped hclass firstSlots_compacted chunks_size_compacted ?_
    (fun j h hj => ⟨_, ((howns j h).mp hj).2⟩) fun k j => ?_
  · split
    · exact .inl rfl
    · exact .inr ⟨_, _, rfl⟩
  -- Only the block that lay last has another slot now, unless it is the one that was freed.
  · change _ ↔ k ≠ j ∧ ∃ h, p.Owns k h ∧ (p.freed i).Owns j h
    have hback : k ≠ j → ∀ h, p.Owns k h → (p.freed i).Owns j h → j = i ∧ k = p.len - 1 := by
      intro hne h hk hj
      obtain ⟨-, hj⟩ := (howns j h).mp hj
      split at hj
      · next hji => exact ⟨hji, hp hk hj⟩
      · exact absurd (hp hk hj) hne
    split
    · next hlast =>
      refine iff_of_false List.not_mem_nil ?_
      rintro ⟨hne, h, hk, hj⟩
      have hlt := ((howns j h).mp hj).1
      have hji := (hback hne h hk hj).1
      omega
    · next hlast =>
      have hmem : (k, j) ∈ relocated p.blockSize [.blockRelocated p.blockSize (p.len - 1) i] ↔
          k = p.len - 1 ∧ j = i := by
        simp [relocated, Event.relocated?]
      rw [hmem]
      constructor
      · rintro ⟨rfl, rfl⟩
        obtain ⟨m, hm⟩ := hw.exists_owner (show p.len - 1 < p.len by omega)
        refine ⟨Ne.symm hlast, m, hm, (howns j m).mpr ⟨by omega, ?_⟩⟩
        rwa [if_pos rfl]
      · rintro ⟨hne, h, hk, hj⟩
        exact (hback hne h hk hj).symm

theorem traffic?_growthEvents {event : Event} (h : event ∈ p.growthEvents) :
    event.traffic? = some p.blockSize := by
  unfold growthEvents at h
  split at h
  · rw [List.mem_singleton.mp h]
    rfl
  · cases h

theorem traffic?_releaseEvents {event : Event} (h : event ∈ releaseEvents p idle k) :
    event.traffic? = some p.blockSize := by
  induction k with
  | zero => cases h
  | succ k ih =>
    rw [releaseEvents] at h
    split at h
    · rcases List.mem_cons.mp h with rfl | h
      · rfl
      · exact ih h
    · cases h

theorem traffic?_destroyEvents {event : Event} (h : event ∈ Store.destroyEvents p i) :
    event.traffic? = some p.blockSize := by
  have hblock : (p.compacted i).blockSize = p.blockSize := by
    unfold compacted
    split <;> rfl
  rcases List.mem_append.mp h with h | h
  · split at h
    · cases h
    · rw [List.mem_singleton.mp h]
      rfl
  · exact (traffic?_releaseEvents h).trans (congrArg some hblock)

end Pool

end OffRow
