import OffRow.Proofs.Store.Evolution
import OffRow.Proofs.Turns

namespace OffRow

def Command.isAccess : Command → Bool
  | .ask q => q.isAccess
  | _ => false

def Command.isScratch : Command → Bool
  | .ask q => q.isScratch
  | _ => false

def Turn.asked (t : Turn Request) : Turn Command := ⟨.ask t.action, t.thread, t.answers⟩

namespace Engine

structure Evolves (scratch : Table .arena Arena → Prop) (e f : Engine) : Prop where
  store : e.store.Evolves scratch f.store
  accesses_eq : f.accesses = e.accesses

def Evolving {α : Type} (scratch : Table .arena Arena → Prop) (e : Engine) (x : Op Engine α) : Prop :=
  Op.Safe (Evolves scratch e) Failure.Outward x

variable {α β γ : Type} {scratch : Table .arena Arena → Prop} {e f : Engine}

theorem onStore_bind (x : Op Store α) (f : α → Op Store β) (g : β → Op Engine γ) :
    (onStore x >>= fun a => onStore (f a) >>= g) = onStore (x >>= f) >>= g := by
  funext e
  change Op.run _ e = Op.run _ e
  have hx := onStore_run e x
  cases hr : x.run e.store with
  | mk result t before =>
    rw [hr] at hx
    have hxf := onStore_run e (x >>= f)
    cases result with
    | error failure =>
      rw [Op.run_bind_error hr] at hxf
      rw [Op.run_bind_error hx, Op.run_bind_error hxf]
    | ok a =>
      rw [Op.run_bind_ok hr] at hxf
      rw [Op.run_bind_ok hx]
      have hf := onStore_run { e with store := t } (f a)
      cases hr' : (f a).run t with
      | mk result' u more =>
        rw [hr'] at hf hxf
        cases result' with
        | error failure => rw [Op.run_bind_error hf, Op.run_bind_error hxf]
        | ok b => rw [Op.run_bind_ok hf, Op.run_bind_ok hxf, List.append_assoc]

theorem evolves_lifts : Lifts (Store.Evolves scratch e.store) (Evolves scratch e) :=
  ⟨Evolves.store, fun hf hs => ⟨hs, hf.accesses_eq⟩⟩

theorem evolves_strings (strings : List HandleId) (hf : Evolves scratch e f) :
    Evolves scratch e { f with strings } := ⟨hf.store, hf.accesses_eq⟩

theorem evolves_pools (pools : List PoolId) (hf : Evolves scratch e f) :
    Evolves scratch e { f with pools } := ⟨hf.store, hf.accesses_eq⟩

end Engine

open Engine Store

section

variable {scratch : Table .arena Arena → Prop} {e : Engine} (he : e.store.WellFormed)
  (hbytes : IgnoresBytes scratch)

include he hbytes

theorem Request.perform_evolves {q : Request} (hq : q.isAccess = false)
    (hall : q.isScratch = true → ∀ arenas, scratch arenas) : Engine.Evolving scratch e q.perform := by
  have hlift : Lifts (Store.Evolves scratch e.store) (Engine.Evolves scratch e) := evolves_lifts
  have hcustody : Custody (Store.Evolves scratch e.store) (fun _ => True) Failure.Outward := evolves_custody
  cases q with
  | openRegistry n pos policy => exact hlift.answer (addRegistry_obeys fun ht => ht.congr rfl rfl ht.arenas) _
  | dropRegistry r unwinding =>
    exact hlift.answer (hcustody.dropRegistry (fun _ ht => ht.congr rfl rfl ht.arenas) unwinding r) _
  | holdClass r c => exact hlift.hold evolves_pools hcustody.acquire (poolForClass_evolves r c)
  | holdSize r size => exact hlift.hold evolves_pools hcustody.acquire (poolForSize_evolves r size)
  | openPool c n policy => exact hlift.openPool evolves_pools (createPool_evolves c n policy)
  | letGo p unwinding => exact hlift.letGo evolves_pools (hcustody.release unwinding p)
  | shrinkToFit p =>
    rw [Request.perform, onStore_bind]
    exact hlift.answer (checkUnused_evolves (shrinkToFit_evolves he)) _
  | check p => exact hlift.answer (check_evolves he p) _
  | create r size => exact hlift.receive evolves_strings (create_evolves he r size)
  | createIn p size => exact hlift.receive evolves_strings (createIn_evolves he p size)
  | destroy h => exact hlift.destroy evolves_strings (destroy_evolves he h)
  | intoRaw h => exact hlift.answer (intoRaw_obeys outward_dangling evolves_owned h) _
  | fromRaw h => exact hlift.answer (fromRaw_obeys outward_dangling evolves_owned rfl h) _
  | overwrite h start data => exact hlift.answer (overwrite_evolves he hbytes h start data) _
  | read h | write h | endAccess => cases hq
  | _ => exact hlift.perform_scratch (evolves_aloof (hall rfl)) rfl

theorem Command.run_evolves {c : Command} (hc : c.isAccess = false)
    (hall : c.isScratch = true → ∀ arenas, scratch arenas) : Engine.Evolving scratch e c.run := by
  have hlift : Lifts (Store.Evolves scratch e.store) (Engine.Evolves scratch e) := evolves_lifts
  cases c with
  | ask q =>
    refine .bind .get fun f => ?_
    split
    · exact q.perform_evolves he hbytes hc hall
    · exact .pure _
  | openOwner size => exact hlift.answer (addHandle_evolves _) _
  | allocateBlock p owner =>
    rw [Command.run, onStore_bind]
    exact hlift.answer (checkUnused_evolves fun hu => allocateBlock_evolves he hu owner) _
  | freeBlock p payload owner =>
    rw [Command.run, onStore_bind]
    exact hlift.answer (checkUnused_evolves fun hu => freeBlock_evolves he hu payload owner) _
  | updateLocation h location => exact hlift.answer (updateLocation_evolves h location) _

end

namespace Engine

def entered (e : Engine) (access : Access) (pool : Option PoolId) : Engine :=
  { e with store := e.store.entered pool, accesses := access :: e.accesses }

def left (e : Engine) (rest : List Access) (pool : Option PoolId) : Engine :=
  { e with store := e.store.left pool, accesses := rest }

variable {e : Engine} {p : PoolId} {c : SharedPool} {I : SharedPool → Prop}

theorem access_run (e : Engine) (h : HandleId) (exclusive : Bool) :
    (access h exclusive).run e =
      match e.store.handles.get? h with
      | none => ⟨.error (.fault .dangling), e, []⟩
      | some a =>
        match (e.store.entered a.pool).bytes? a with
        | some b => ⟨.ok (.bytes b), e.entered ⟨h, exclusive⟩ a.pool, []⟩
        | none => ⟨.error (.fault .dangling), e.entered ⟨h, exclusive⟩ a.pool, []⟩ := by
  have hbegin := onStore_run e (beginAccess h)
  cases hh : e.store.handles.get? h with
  | none =>
    rw [beginAccess, Op.run_bind_error (handle_run_none hh)] at hbegin
    exact Op.run_bind_error hbegin
  | some a =>
    have hh' : (e.store.entered a.pool).handles.get? h = some a := by
      cases a.pool <;> exact hh
    have hbytes := onStore_run (e.entered ⟨h, exclusive⟩ a.pool) (bytes h)
    rw [show (e.entered ⟨h, exclusive⟩ a.pool).store = e.store.entered a.pool from rfl,
      bytes_outcome hh'] at hbytes
    rw [beginAccess_run hh] at hbegin
    rw [access, Op.run_bind_silent hbegin, Op.run_modify_bind]
    cases hb : (e.store.entered a.pool).bytes? a with
    | some b =>
      rw [hb] at hbytes
      simp only [hb]
      exact Op.run_bind_silent hbytes
    | none =>
      rw [hb] at hbytes
      simp only [hb]
      exact Op.run_bind_error hbytes

theorem endAccess_run (e : Engine) :
    endAccess.run e =
      match e.accesses with
      | [] => ⟨.ok .barred, e, []⟩
      | access :: rest =>
        match e.store.handles.get? access.handle with
        | none => ⟨.error (.fault .dangling), { e with accesses := rest }, []⟩
        | some a => ⟨.ok .done, e.left rest a.pool, []⟩ := by
  rw [endAccess, Op.run_get_bind]
  cases e.accesses with
  | nil => rfl
  | cons access rest =>
    simp only
    rw [Op.run_modify_bind]
    have hend := onStore_run { e with accesses := rest } (Store.endAccess access.handle)
    cases hh : e.store.handles.get? access.handle with
    | none =>
      rw [Store.endAccess, Op.run_bind_error (handle_run_none hh)] at hend
      exact Op.run_bind_error hend
    | some a =>
      rw [Store.endAccess_run hh] at hend
      exact Op.run_bind_silent hend

structure Accessed (e f : Engine) : Prop where
  pools : ∀ {p c}, f.store.pools.get? p = some c →
    ∃ readers, e.store.pools.get? p = some { c with readers }
  handles_eq : f.store.handles = e.store.handles
  arenas_eq : f.store.arenas = e.store.arenas

theorem accessed_modify {f : Engine} {q : PoolId} {g : SharedPool → SharedPool}
    (hp : f.store.pools = e.store.pools.modify q g) (hh : f.store.handles = e.store.handles)
    (ha : f.store.arenas = e.store.arenas)
    (hg : ∀ c, ∃ readers, c = { g c with readers }) : e.Accessed f where
  pools := by
    intro p c hc
    rw [hp, Table.get?_modify] at hc
    split at hc
    · obtain ⟨d, hd, rfl⟩ := Option.map_eq_some_iff.mp hc
      obtain ⟨readers, he⟩ := hg d
      exact ⟨readers, he ▸ hd⟩
    · exact ⟨c.readers, hc⟩
  handles_eq := hh
  arenas_eq := ha

theorem Accessed.of_eq {f : Engine} (hp : f.store.pools = e.store.pools)
    (hh : f.store.handles = e.store.handles) (ha : f.store.arenas = e.store.arenas) :
    e.Accessed f where
  pools hc := ⟨_, hp ▸ hc⟩
  handles_eq := hh
  arenas_eq := ha

theorem access_accessed (e : Engine) (h : HandleId) (exclusive : Bool) :
    ((access h exclusive).run e).Safe e.Accessed Failure.Outward := by
  rw [access_run]
  split
  · exact .failed (.of_eq rfl rfl rfl) rfl
  · next a hh =>
    have hentered : e.Accessed (e.entered ⟨h, exclusive⟩ a.pool) := by
      cases a.pool with
      | none => exact .of_eq rfl rfl rfl
      | some q => exact accessed_modify rfl rfl rfl fun c => ⟨c.readers, rfl⟩
    split
    · exact .done hentered
    · exact .failed hentered rfl

theorem endAccess_accessed (e : Engine) : (endAccess.run e).Safe e.Accessed Failure.Outward := by
  rw [endAccess_run]
  split
  · exact .done (.of_eq rfl rfl rfl)
  · next access rest heq =>
    split
    · exact .failed (.of_eq rfl rfl rfl) rfl
    · next a hh =>
      apply Outcome.Safe.done
      cases a.pool with
      | none => exact .of_eq rfl rfl rfl
      | some q => exact accessed_modify rfl rfl rfl fun c => ⟨c.readers, rfl⟩

theorem turn_evolves {P : Table .arena Arena → Prop} (he : e.store.WellFormed)
    (hbytes : IgnoresBytes P) (hs : P e.store.arenas) {t : Turn Command}
    (ht : t.action.isAccess = false)
    (hall : t.action.isScratch = true → ∀ arenas, P arenas) :
    (e.turn Command.run t).Safe (e.Evolves P) Failure.Outward := by
  have hself : Store.Evolves P e.store (e.prepared t).store :=
    (Store.Evolves.refl hs).congr rfl rfl hs
  exact Command.run_evolves he hbytes ht hall (e.prepared t) ⟨hself, rfl⟩

theorem turn_accessed {t : Turn Command} (ht : t.action.isAccess = true) :
    (e.turn Command.run t).Safe e.Accessed Failure.Outward := by
  obtain ⟨action, thread, answers⟩ := t
  have hask : ∀ {q : Request}, ((q.perform).run (e.prepared ⟨action, thread, answers⟩)).Safe
      (e.prepared ⟨action, thread, answers⟩).Accessed Failure.Outward →
      (q.ask.run (e.prepared ⟨action, thread, answers⟩)).Safe e.Accessed Failure.Outward := by
    intro q ho
    rw [Request.ask, Op.run_get_bind]
    split
    · have hf := ho.state
      exact ⟨⟨hf.pools, hf.handles_eq, hf.arenas_eq⟩, ho.events, ho.failure⟩
    · exact .done (.of_eq rfl rfl rfl)
  cases action with
  | ask q =>
    cases q with
    | read h => exact hask (access_accessed _ h false)
    | write h => exact hask (access_accessed _ h true)
    | endAccess => exact hask (endAccess_accessed _)
    | _ => cases ht
  | _ => cases ht

theorem turn_safe (he : e.store.WellFormed) (t : Turn Command) :
    (e.turn Command.run t).Safe (fun f => e.Evolves (fun _ => True) f ∨ e.Accessed f)
      Failure.Outward := by
  cases ht : t.action.isAccess with
  | false =>
    have hstep : (e.turn Command.run t).Safe (e.Evolves fun _ => True) Failure.Outward :=
      turn_evolves he (fun _ _ _ _ _ _ _ => trivial) trivial ht fun _ _ => trivial
    exact ⟨.inl hstep.state, hstep.events, hstep.failure⟩
  | true =>
    have hstep := turn_accessed (e := e) ht
    exact ⟨.inr hstep.state, hstep.events, hstep.failure⟩

structure Lasting (I : SharedPool → Prop) : Prop where
  new : ∀ c firstBytes policy thread, I ⟨.new c firstBytes policy thread, 1, 0⟩
  change : ∀ {c d : SharedPool}, c.Change d → c.pool.WellFormed → I c → I d
  access : ∀ {c : SharedPool} {readers : Nat}, I { c with readers } → I c

theorem Lasting.turn (hI : Lasting I)
    (he : ∀ p c, e.store.pools.get? p = some c → c.pool.WellFormed ∧ I c) (t : Turn Command) :
    ∀ p c, (e.turn Command.run t).state.store.pools.get? p = some c → c.pool.WellFormed ∧ I c := by
  rcases (turn_safe (fun p c hc => (he p c hc).1) t).state with hf | hf
  · apply hf.store.invariant (I := fun c => c.pool.WellFormed ∧ I c) ?_ ?_ he
    · exact fun hd hc => ⟨hd.wellFormed hc.1, hI.change hd hc.1 hc.2⟩
    · exact fun c n policy thread => ⟨Pool.new_wellFormed c n policy thread, hI.new c n policy thread⟩
  · intro p c hc
    obtain ⟨readers, hp⟩ := hf.pools hc
    obtain ⟨hw, hi⟩ := he p _ hp
    exact ⟨hw, hI.access hi⟩

theorem Lasting.after (hI : Lasting I) (ts : List (Turn Command)) {p : PoolId} {c : SharedPool}
    (hc : (start.after Command.run ts).store.pools.get? p = some c) : I c := by
  -- Well-formedness goes with the induction, since a change may rely on it.
  have hall : ∀ p c, (start.after Command.run ts).store.pools.get? p = some c →
      c.pool.WellFormed ∧ I c :=
    after_induction (I := fun e => ∀ p c, e.store.pools.get? p = some c → c.pool.WellFormed ∧ I c)
      (fun _ t he => hI.turn he t) (e := start) (fun _ _ hp => nomatch hp) ts
  exact (hall p c hc).2

theorem turn_wellFormed (he : e.store.WellFormed) (t : Turn Command) :
    (e.turn Command.run t).state.store.WellFormed := by
  have hI : Lasting fun _ => True := ⟨fun _ _ _ _ => trivial, fun _ _ _ => trivial, fun _ => trivial⟩
  exact fun p c hc => (hI.turn (fun p c hc => ⟨he p c hc, trivial⟩) t p c hc).1

theorem start_wellFormed : start.store.WellFormed := fun _ _ hp => nomatch hp

theorem wellFormed_after (ts : List (Turn Command)) :
    (start.after Command.run ts).store.WellFormed :=
  after_induction (I := fun e => e.store.WellFormed) (fun _ t he => turn_wellFormed he t)
    start_wellFormed ts

theorem lasting_referenced : Lasting fun c => 0 < c.references := by
  refine ⟨fun _ _ _ _ => Nat.one_pos, fun hd _ hc => ?_, id⟩
  cases hd with
  | counted hn => exact hn
  | _ => exact hc

theorem referenced_after (ts : List (Turn Command)) {p : PoolId} {c : SharedPool}
    (hc : (start.after Command.run ts).store.pools.get? p = some c) : 0 < c.references :=
  lasting_referenced.after ts hc

end Engine

end OffRow
