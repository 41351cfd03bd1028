import OffRow.Proofs.Fills

namespace OffRow

namespace Pool

theorem idle_settle_succ {idle : Nat → Bool} {k : Nat} (h : settle idle k < k) :
    idle (settle idle k + 1) = true := by
  induction k with
  | zero => exact absurd h (Nat.lt_irrefl 0)
  | succ k ih =>
    unfold settle at h ⊢
    split
    · next hi =>
      rw [if_pos hi] at h
      rcases Nat.lt_or_eq_of_le (settle_le idle k) with hlt | heq
      · exact ih hlt
      · rwa [heq]
    · next hi =>
      rw [if_neg hi] at h
      exact absurd h (Nat.lt_irrefl _)

end Pool

namespace Fill

variable {f : Fill} {m : Move} {ms : List Move}

theorem first_le (h : 1 ≤ f.chunks) : f.first ≤ f.capacity := by
  have hmono := Pool.total_mono f.first h
  rw [Pool.total_succ, Pool.total_zero] at hmono
  unfold capacity
  omega

theorem len_foldl_le (ms : List Move) (f : Fill) :
    (ms.foldl moved f).len ≤ f.len + ms.count .take := by
  induction ms generalizing f with
  | nil => exact Nat.le_refl _
  | cons m ms ih =>
    have hrest : (ms.foldl moved (f.moved m)).len ≤ _ := ih (f.moved m)
    have hstep : (f.moved m).len ≤ f.len + if m = .take then 1 else 0 := by
      cases m with
      | stay => exact Nat.le_refl _
      | take => exact Nat.le_refl _
      | give => exact Nat.sub_le _ _
      | fit => exact Nat.le_refl _
    simp only [List.foldl_cons, List.count_cons, beq_iff_eq]
    omega

theorem le_len_foldl (ms : List Move) (f : Fill) :
    f.len ≤ (ms.foldl moved f).len + ms.count .give := by
  induction ms generalizing f with
  | nil => exact Nat.le_refl _
  | cons m ms ih =>
    have hrest : _ ≤ (ms.foldl moved (f.moved m)).len + _ := ih (f.moved m)
    have hstep : f.len ≤ (f.moved m).len + if m = .give then 1 else 0 := by
      cases m with
      | stay => exact Nat.le_refl _
      | take => exact Nat.le_succ _
      | give => exact Nat.le_add_of_sub_le (Nat.le_refl _)
      | fit => exact Nat.le_refl _
    simp only [List.foldl_cons, List.count_cons, beq_iff_eq]
    omega

theorem sparse_of_given (h : f.given.chunks < f.chunks) :
    1 ≤ f.given.chunks ∧ 4 * (f.len - 1) < Pool.total f.first (f.given.chunks + 1) := by
  have hidle := Pool.idle_settle_succ h
  simp only [Bool.and_eq_true, decide_eq_true_iff] at hidle
  exact ⟨Nat.le_of_lt_succ hidle.1, hidle.2⟩

theorem given_chunks_pos (h : 1 ≤ f.chunks) : 1 ≤ f.given.chunks := by
  rcases Nat.lt_or_eq_of_le (Pool.settle_le _ f.chunks) with hlt | heq
  · exact (sparse_of_given hlt).1
  · exact h.trans_eq heq.symm

theorem chunks_foldl_pos (h : 1 ≤ f.chunks) (hms : .fit ∉ ms) : 1 ≤ (ms.foldl moved f).chunks := by
  induction ms generalizing f with
  | nil => exact h
  | cons m ms ih =>
    rw [List.mem_cons, not_or] at hms
    refine ih ?_ hms.2
    cases m with
    | stay => exact h
    | take => exact Nat.le_add_right_of_le h
    | give => exact given_chunks_pos h
    | fit => exact absurd rfl hms.1

theorem full_of_reserved (h : f.chunks < (f.moved m).chunks) : f.len = f.capacity := by
  cases m with
  | stay => exact absurd h (Nat.lt_irrefl _)
  | take =>
    by_contra hfull
    simp [moved, taken, hfull] at h
  | give => exact absurd (Pool.settle_le _ f.chunks) (Nat.not_le_of_lt h)
  | fit => exact absurd (Pool.settle_le _ f.chunks) (Nat.not_le_of_lt h)

theorem give_of_released (h : (f.moved m).chunks < f.chunks) (hm : m ≠ .fit) : m = .give := by
  cases m with
  | stay => exact absurd h (Nat.lt_irrefl _)
  | take => exact absurd h (Nat.not_lt_of_le (Nat.le_add_right _ _))
  | give => rfl
  | fit => exact absurd rfl hm

theorem takes_of_reserved (hrel : f.given.chunks < f.chunks)
    (hcap : (ms.foldl moved f.given).capacity = f.given.capacity)
    (hfull : (ms.foldl moved f.given).len = (ms.foldl moved f.given).capacity) :
    f.given.capacity < 4 * ms.count .take := by
  obtain ⟨hpos, hsparse⟩ := sparse_of_given hrel
  have hfirst : f.first ≤ f.given.capacity := first_le hpos
  have hlen : (ms.foldl moved f.given).len ≤ f.len - 1 + ms.count .take := len_foldl_le ms f.given
  have hcapacity : f.given.capacity = Pool.total f.first f.given.chunks := rfl
  have hsum := Pool.total_eq_sum f.first f.given.chunks
  -- With `hsum`, one chunk more would be all slots that are left and a first chunk besides.
  rw [Pool.total_succ] at hsparse
  omega

theorem gives_of_released (hpos : 1 ≤ f.chunks) (hres : f.chunks < f.taken.chunks)
    (hcap : (ms.foldl moved f.taken).capacity = f.taken.capacity)
    (hrel : (ms.foldl moved f.taken).given.chunks < (ms.foldl moved f.taken).chunks) :
    f.taken.capacity < 12 * ms.count .give := by
  let g := ms.foldl moved f.taken
  have hcap : g.capacity = f.taken.capacity := hcap
  have hfull : f.len = f.capacity := full_of_reserved (m := .take) hres
  have hfirst : f.first ≤ f.capacity := first_le hpos
  have hlen : f.len + 1 ≤ g.len + ms.count .give := le_len_foldl ms f.taken
  have hsparse : 4 * (g.len - 1) < Pool.total g.first (g.given.chunks + 1) := (sparse_of_given hrel).2
  have hle : Pool.total g.first (g.given.chunks + 1) ≤ g.capacity := Pool.total_mono g.first hrel
  have hcapacity : f.taken.capacity = f.capacity + f.first * 2 ^ f.chunks := by
    have hchunks : f.taken.chunks = f.chunks + 1 := by simp [taken, hfull]
    rw [capacity, hchunks]
    exact Pool.total_succ f.first f.chunks
  have hsum : f.capacity + f.first = f.first * 2 ^ f.chunks := Pool.total_eq_sum f.first f.chunks
  -- The pool was full before the new chunk, which at most trebles the slots (`hfirst`).
  omega

end Fill

/-- After a block that was given back has released a chunk, more than a quarter of the slots that are
left have to be taken before the next chunk is reserved; after one that was taken has reserved a chunk
beyond the first, more than a twelfth of the slots have to be given back before one is released. The
first chunk stays. -/
theorem growth_pacing (ts us : List (Turn Command)) (t v : Turn Command) (p : PoolId)
    {b c d x : SharedPool}
    (hb : (Engine.start.after Command.run ts).store.pools.get? p = some b)
    (hc : (Engine.start.after Command.run (ts ++ [t])).store.pools.get? p = some c)
    (hd : (Engine.start.after Command.run (ts ++ t :: us)).store.pools.get? p = some d)
    (hx : (Engine.start.after Command.run (ts ++ t :: us ++ [v])).store.pools.get? p = some x) :
    let e := Engine.start.after Command.run ts
    let f := Engine.start.after Command.run (ts ++ [t])
    let g := Engine.start.after Command.run (ts ++ t :: us)
    (e.move p t = .give → c.pool.chunks.size < b.pool.chunks.size →
        d.pool.capacity = c.pool.capacity → d.pool.chunks.size < x.pool.chunks.size →
        c.pool.capacity < 4 * (f.moves p us).count .take) ∧
      (e.move p t = .take → 1 ≤ b.pool.chunks.size → b.pool.chunks.size < c.pool.chunks.size →
        d.pool.capacity = c.pool.capacity → x.pool.chunks.size < d.pool.chunks.size →
        g.move p v ≠ .fit → c.pool.capacity < 12 * (f.moves p us).count .give) ∧
      (1 ≤ b.pool.chunks.size → .fit ∉ e.moves p (t :: us) → 1 ≤ d.pool.chunks.size) := by
  intro e f g
  have hs : ∀ ts, (Engine.start.after Command.run ts).store.Sound := Engine.after_sound Engine.start_sound
  have hf : (Engine.start.after Command.run (ts ++ [t])) = (e.turn Command.run t).state :=
    Engine.after_append Command.run Engine.start ts [t]
  have hg : (Engine.start.after Command.run (ts ++ t :: us)) = f.after Command.run us := by
    rw [Engine.after_append, show f = _ from hf]
    rfl
  have hc' : c.pool.fill = b.pool.fill.moved (e.move p t) := by
    have hfilled := Engine.turn_filled (hs ts) (Store.filled_of_get? hb) t
    exact hfilled.holds (hf ▸ hc)
  have hd' : d.pool.fill = (f.moves p us).foldl Fill.moved c.pool.fill := by
    have hfilled := Engine.after_filled (hs (ts ++ [t])) (Store.filled_of_get? hc) us
    exact hfilled.holds (hg ▸ hd)
  have hx' : x.pool.fill = d.pool.fill.moved (g.move p v) := by
    have hfilled := Engine.turn_filled (hs (ts ++ t :: us)) (Store.filled_of_get? hd) v
    rw [Engine.after_append] at hx
    exact hfilled.holds hx
  have hcapacity : ∀ {ts c}, (Engine.start.after Command.run ts).store.pools.get? p = some c →
      c.pool.capacity = c.pool.fill.capacity :=
    fun hc => (hs _ p _ hc).1.capacity_fill.symm
  rw [hcapacity hc, hcapacity hd]
  refine ⟨fun hm hrel hsame hres => ?_, fun hm hpos hres hsame hrel hv => ?_, fun hpos hfit => ?_⟩
  · have hrel : c.pool.fill.chunks < b.pool.fill.chunks := hrel
    have hres : d.pool.fill.chunks < x.pool.fill.chunks := hres
    rw [hx'] at hres
    have hfull : d.pool.fill.len = d.pool.fill.capacity := Fill.full_of_reserved hres
    rw [hd'] at hsame hfull
    rw [hc', hm] at hrel hsame hfull ⊢
    exact Fill.takes_of_reserved hrel hsame hfull
  · have hres : b.pool.fill.chunks < c.pool.fill.chunks := hres
    have hrel : x.pool.fill.chunks < d.pool.fill.chunks := hrel
    rw [hx'] at hrel
    rw [Fill.give_of_released hrel hv, hd'] at hrel
    rw [hd'] at hsame
    rw [hc', hm] at hres hsame hrel ⊢
    exact Fill.gives_of_released hpos hres hsame hrel
  · have hd'' : d.pool.fill = (e.moves p (t :: us)).foldl Fill.moved b.pool.fill := by
      rw [Engine.moves, List.foldl_cons, ← hc', hd', show f = _ from hf]
    have hchunks : 1 ≤ d.pool.fill.chunks := hd'' ▸ Fill.chunks_foldl_pos hpos hfit
    exact hchunks

def ebbing : List (Turn Command) :=
  ⟨.ask (.openPool ⟨2, by decide⟩ 24 .mayDropItems), 0, some⟩ ::
    (List.replicate 4 ⟨.openOwner 8, 0, some⟩ ++
      [⟨.allocateBlock ⟨0⟩ ⟨0⟩, 0, some⟩, ⟨.allocateBlock ⟨0⟩ ⟨1⟩, 0, some⟩,
        ⟨.allocateBlock ⟨0⟩ ⟨2⟩, 0, some⟩, ⟨.allocateBlock ⟨0⟩ ⟨3⟩, 0, some⟩,
        ⟨.freeBlock ⟨0⟩ (.block ⟨0⟩ ⟨2, 0⟩) ⟨3⟩, 0, some⟩,
        ⟨.freeBlock ⟨0⟩ (.block ⟨0⟩ ⟨1, 1⟩) ⟨2⟩, 0, some⟩])

def lastEbb : Turn Command := ⟨.freeBlock ⟨0⟩ (.block ⟨0⟩ ⟨1, 0⟩) ⟨1⟩, 0, some⟩

def flood (n : Nat) : Turn Command := ⟨.allocateBlock ⟨0⟩ ⟨n⟩, 0, some⟩

theorem growth_pacing_ebb :
    (Engine.start.after Command.run ebbing).move ⟨0⟩ lastEbb = .give ∧
      3 < 4 * ((Engine.start.after Command.run (ebbing ++ [lastEbb])).moves ⟨0⟩
        [flood 1, flood 2]).count .take := by
  have hmove : (Engine.start.after Command.run ebbing).move ⟨0⟩ lastEbb = .give := by decide +kernel
  have hchunks : ∀ ts n capacity,
      ((Engine.start.after Command.run ts).store.pools.get? ⟨0⟩).map (fun c =>
        (c.pool.chunks.size, c.pool.capacity)) = some (n, capacity) →
      ∃ c, (Engine.start.after Command.run ts).store.pools.get? ⟨0⟩ = some c ∧
        c.pool.chunks.size = n ∧ c.pool.capacity = capacity := by
    intro ts n capacity hc
    obtain ⟨c, hc, heq⟩ := Option.map_eq_some_iff.mp hc
    exact ⟨c, hc, Prod.mk.inj heq⟩
  obtain ⟨b, hb, hb3, -⟩ := hchunks ebbing 3 7 (by decide +kernel)
  obtain ⟨c, hc, hc2, hcap⟩ := hchunks (ebbing ++ [lastEbb]) 2 3 (by decide +kernel)
  obtain ⟨d, hd, hd2, hfull⟩ := hchunks (ebbing ++ lastEbb :: [flood 1, flood 2]) 2 3 (by decide +kernel)
  obtain ⟨x, hx, hx3, -⟩ := hchunks (ebbing ++ lastEbb :: [flood 1, flood 2] ++ [flood 3]) 3 7
    (by decide +kernel)
  have hpaced := (growth_pacing ebbing [flood 1, flood 2] lastEbb (flood 3) ⟨0⟩ hb hc hd hx).1
    hmove (by omega) (hfull.trans hcap.symm) (by omega)
  rw [hcap] at hpaced
  exact ⟨hmove, hpaced⟩

end OffRow
