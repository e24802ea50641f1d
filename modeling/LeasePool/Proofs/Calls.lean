import Mathlib.Data.List.Perm.Subperm
import LeasePool.Proofs.Respond

/-!
# Calls in progress

Every call in progress is in exactly one place: it holds the lock, it is queued for it, it
sleeps, it has been roused, or it runs an errand. So a call that holds the lock is nowhere else,
and a call that is over is nowhere at all, as numbers are never given twice.

* `Pool.follows_of_responds`: a turn adds at most one call, with a new number;
* `Pool.CallsOnce.respond`: a turn keeps every call in a single place.
-/

namespace LeasePool

open scoped List

/-- What is there once is there at most once when there is less of it. -/
theorem nodup_of_subperm {α : Type} {l l' : List α} (sub : l <+~ l') (h : l'.Nodup) :
    l.Nodup := by
  obtain ⟨k, hk, hs⟩ := sub
  exact hk.nodup_iff.1 (h.sublist hs)

namespace Pool

variable {p : Pool} {id : CallId} {w : Work} {x : Ending}

/-- The calls in progress, place by place. -/
def calls (p : Pool) : List CallId :=
  (p.holder.map Prod.fst).toList ++ p.queue.map Prod.fst ++ p.sleepers.map Sleeper.id ++
    p.roused.map Sleeper.id ++ p.errands.map Prod.fst

/-- Every call in progress is in a single place, and has a number that has been given. -/
structure CallsOnce (p : Pool) : Prop where
  once : p.calls.Nodup
  numbered : ∀ i ∈ p.calls, i < p.nextCall

theorem mem_calls_of_holder (h : p.holder = some (id, w)) : id ∈ p.calls := by
  simp [calls, h]

/-! ## The holder of the lock -/

/-- The call that gives the lock back is in no place any more. -/
theorem calls_passLock (h : p.holder = some (id, w)) : p.calls = id :: p.passLock.calls := by
  cases hq : p.queue <;> simp [calls, passLock, h, hq]

theorem calls_rouseAll : p.rouseAll.calls ~ p.calls := by
  refine List.perm_iff_count.2 fun i => ?_
  simp [calls, rouseAll]
  omega

/-- At the end of its turn, the holder of the lock is in one place at most. -/
theorem calls_ended (h : p.holder = some (id, w)) : (p.ended id x).calls <+~ p.calls := by
  cases x with
  | work w' =>
    have same : (p.ended id (.work w')).calls = p.calls := by simp [ended, calls, h]
    rw [same]
  | finished o =>
    rw [calls_passLock h]
    exact List.Subperm.cons_self
  | freed o =>
    rw [calls_passLock h]
    exact calls_rouseAll.subperm.trans List.Subperm.cons_self
  | asleep a since limit =>
    -- The call leaves the lock for the place that it has got among the sleepers.
    let q : Pool := { p with
      sleepers := p.sleepers ++ [⟨id, a, since, limit⟩], waiting := p.waiting + 1 }
    have added : q.calls ~ id :: p.calls := by
      refine List.perm_iff_count.2 fun i => ?_
      simp [q, calls, List.count_cons]
      omega
    have left : q.calls = id :: q.passLock.calls := calls_passLock h
    rw [left] at added
    exact (List.Perm.cons_inv added).subperm

/-- A call that is over is in no place. -/
theorem not_mem_calls_ended (h : p.holder = some (id, w)) (once : p.calls.Nodup)
    (ended : x.outcome?.isSome) : id ∉ (p.ended id x).calls := by
  rw [calls_passLock h, List.nodup_cons] at once
  cases x with
  | work w' => cases ended
  | finished o => exact once.1
  | freed o => exact fun hm => once.1 (calls_rouseAll.subset hm)
  | asleep a since limit => cases ended

/-! ## All turns -/

/-- From `p` to `q`, at most one call has begun, and no other has come into a further place. -/
def Follows (p q : Pool) : Prop :=
  q.calls <+~ p.calls ∧ q.nextCall = p.nextCall ∨
    q.calls <+~ p.nextCall :: p.calls ∧ q.nextCall = p.nextCall + 1

/-- If at most one call has begun and no other has come into a further place, each has one place. -/
theorem CallsOnce.follows {q : Pool} (h : p.CallsOnce) (hf : p.Follows q) : q.CallsOnce := by
  rcases hf with ⟨sub, next⟩ | ⟨sub, next⟩
  · exact ⟨nodup_of_subperm sub h.once, fun i hi => next ▸ h.numbered i (sub.subset hi)⟩
  · have new : p.nextCall ∉ p.calls := fun hm => Nat.lt_irrefl _ (h.numbered _ hm)
    refine ⟨nodup_of_subperm sub (List.nodup_cons.2 ⟨new, h.once⟩), fun i hi => ?_⟩
    rw [next]
    rcases List.mem_cons.1 (sub.subset hi) with rfl | hi
    · exact Nat.lt_succ_self _
    · exact Nat.lt_succ_of_lt (h.numbered i hi)

theorem Follows.nextCall_le {q : Pool} (hf : p.Follows q) : p.nextCall ≤ q.nextCall := by
  rcases hf with ⟨-, next⟩ | ⟨-, next⟩
  · exact Nat.le_of_eq next.symm
  · exact next ▸ Nat.le_succ _

/-- A call that is in progress is not a new one, if its number had been given before. -/
theorem Follows.mem_calls {q : Pool} (hf : p.Follows q) {i : CallId} (hi : i ∈ q.calls)
    (given : i < p.nextCall) : i ∈ p.calls := by
  rcases hf with ⟨sub, -⟩ | ⟨sub, -⟩
  · exact sub.subset hi
  · rcases List.mem_cons.1 (sub.subset hi) with rfl | hi
    · exact absurd given (Nat.lt_irrefl _)
    · exact hi

theorem calls_lock (t : Turn) (intent : Intent) :
    (t.lock id intent).pool.calls ~ id :: t.pool.calls := by
  refine List.perm_iff_count.2 fun i => ?_
  cases h : t.pool.holder <;> simp [Turn.lock, Turn.work, calls, h, List.count_cons]
  omega

theorem nextCall_lock (t : Turn) (id : CallId) (intent : Intent) :
    (t.lock id intent).pool.nextCall = t.pool.nextCall := by
  cases h : t.pool.holder <;> simp [Turn.lock, Turn.work, h]

/-- Where a call is found, it is there still when all of that number have been taken out and it
    has been put back. -/
theorem cons_filter_subperm {α : Type} {f : α → CallId} {l : List α} (h : id ∈ l.map f) :
    id :: (l.filter fun a => f a != id).map f <+~ l.map f := by
  refine List.cons_subperm_of_not_mem_of_mem ?_ h (List.filter_sublist.map f).subperm
  simp

theorem mem_map_of_find? {l : List Sleeper} {s : Sleeper}
    (h : l.find? (fun s => s.id == id) = some s) : s.id = id ∧ id ∈ l.map Sleeper.id := by
  have same : s.id = id := by simpa using List.find?_some h
  exact ⟨same, same ▸ List.mem_map_of_mem (List.mem_of_find?_eq_some h)⟩

theorem calls_relock {p' : Pool} {s : Sleeper} (same : s.id = id)
    (sub : id :: p'.calls <+~ p.calls) : (Turn.relock p'.turn s).pool.calls <+~ p.calls := by
  refine (calls_lock p'.turn (.awaken s.acquisition s.asleepSince)).subperm.trans ?_
  rw [same]
  exact sub

theorem calls_greet (w : Work) : (p.turn.greet w).pool.calls = p.calls := by
  unfold Turn.greet
  split <;> rfl

theorem nextCall_greet (w : Work) : (p.turn.greet w).pool.nextCall = p.nextCall := by
  unfold Turn.greet
  split <;> rfl

theorem holder_greet (w : Work) : (p.turn.greet w).pool.holder = p.holder := by
  unfold Turn.greet
  split <;> rfl

theorem nextCall_passLock (p : Pool) : p.passLock.nextCall = p.nextCall := by
  cases h : p.queue <;> simp only [passLock, h]

theorem nextCall_ended : (p.ended id x).nextCall = p.nextCall := by
  cases x with
  | work w => rfl
  | finished o => exact nextCall_passLock p
  | freed o => exact nextCall_passLock p
  | asleep a since limit => exact nextCall_passLock _

theorem mem_map_of_lookup {α : Type} {l : List (CallId × α)} {a : α} (h : l.lookup id = some a) :
    id ∈ l.map Prod.fst := by
  obtain ⟨before, later, rfl, -⟩ := List.lookup_eq_some_iff.1 h
  simp

theorem calls_unlock {t : Turn} (h : t.pool.holder = some (id, w)) :
    t.unlock.pool.calls <+~ t.pool.calls := by
  rw [Turn.pool_unlock, calls_passLock h]
  exact List.Subperm.cons_self

theorem nextCall_unlock (t : Turn) : t.unlock.pool.nextCall = t.pool.nextCall := by
  rw [Turn.pool_unlock, nextCall_passLock]

/-- The holder of the lock is dropped; a call of its own may begin to close its candidate. -/
theorem follows_of_dropWork (holds : p.holder = some (id, w)) :
    p.Follows (p.turn.dropWork w).pool := by
  have unlock : p.Follows p.turn.unlock.pool :=
    .inl ⟨calls_unlock holds, nextCall_unlock _⟩
  -- The errand that closes the candidate is the call that begins.
  have abandon : ∀ e, p.Follows (p.turn.abandon e).pool := by
    intro e
    refine .inr ⟨(calls_unlock holds).trans (List.subperm_ext_iff.2 fun i _ => ?_),
      nextCall_unlock _⟩
    simp [Turn.discardLater, Turn.tell, Turn.advance, turn, calls, List.count_cons]
    omega
  cases w with
  | begin intent =>
    cases intent with
    | awaken a since => exact .inl ⟨calls_unlock (t := p.turn.stopWaiting) holds, nextCall_unlock _⟩
    | _ => exact unlock
  | reclaim a e lookedAt => exact abandon e
  | examine a e checkup => exact abandon e
  | prepare a e => exact abandon e
  | _ => exact unlock

/-- An errand goes on or ends. -/
theorem follows_of_advanceErrand {e : Errand} {s : Signal} {t : Turn}
    (found : p.errands.lookup id = some e) (h : p.turn.advanceErrand id e s = some t) :
    p.Follows t.pool := by
  have le := fun i => (cons_filter_subperm (mem_map_of_lookup found)).count_le i
  refine .inl ⟨List.subperm_ext_iff.2 fun i _ => ?_, ?_⟩
  · have le := le i
    unfold Turn.advanceErrand at h
    split at h <;> cases h <;>
      simp only [calls, turn, Turn.errand, Turn.finish, List.count_append, List.count_cons,
        List.map_append, List.map_cons, List.map_nil, List.count_nil] at le ⊢ <;>
      omega
  · unfold Turn.advanceErrand at h
    split at h <;> cases h <;> rfl

/-- At most one call begins in a turn, and no other comes into a further place. -/
theorem follows_of_responds {e : Event} {t : Turn} (h : p.Responds e t) : p.Follows t.pool := by
  cases h with
  | enter ns intent =>
    exact .inr ⟨(calls_lock _ intent).subperm, nextCall_lock _ _ intent⟩
  | decline ns e => exact .inr ⟨List.Subperm.cons_self, rfl⟩
  | send request =>
    refine .inr ⟨List.subperm_ext_iff.2 fun i _ => ?_, rfl⟩
    have le := ((List.filter_sublist (p := fun q : CallId × Errand => q.1 != p.nextCall)
      (l := p.errands)).map Prod.fst).count_le i
    simp [Turn.errand, numbered, turn, calls, List.count_cons]
    omega
  | @goOn id w s m t holds h =>
    -- Deeds leave all calls where they are, so only the ending counts.
    obtain ⟨ds, x, c, hd⟩ := Turn.advanceWork_acts p.turn id m h
    refine .inl ⟨?_, ?_⟩
    · rw [hd.pool, ← calls_greet (p := p) w]
      exact calls_ended (w := w) ((holder_greet w).trans holds)
    · rw [hd.pool, nextCall_ended]
      exact nextCall_greet w
  | @relock id m s elsewhere found =>
    -- The call leaves the roused callers before it asks for the lock.
    obtain ⟨same, mem⟩ := mem_map_of_find? found
    refine .inl ⟨calls_relock same (List.subperm_ext_iff.2 fun i _ => ?_), nextCall_lock _ _ _⟩
    have le := (cons_filter_subperm mem).count_le i
    simp only [calls, List.count_append, List.count_cons] at le ⊢
    omega
  | @getUp id m s elsewhere found due =>
    obtain ⟨same, mem⟩ := mem_map_of_find? found
    refine .inl ⟨calls_relock same (List.subperm_ext_iff.2 fun i _ => ?_), nextCall_lock _ _ _⟩
    have le := (cons_filter_subperm mem).count_le i
    simp only [calls, List.count_append, List.count_cons] at le ⊢
    omega
  | errand elsewhere found h => exact follows_of_advanceErrand found h
  | cut holds => exact follows_of_dropWork holds
  | @withdraw id intent elsewhere found =>
    have same : (p.turn.dropQueued id intent).pool.calls <+ p.calls := by
      cases intent <;>
        exact ((((List.Sublist.refl _).append (List.filter_sublist.map _)).append
          (List.Sublist.refl _)).append (List.Sublist.refl _)).append (List.Sublist.refl _)
    exact .inl ⟨same.subperm, by cases intent <;> rfl⟩
  | desert elsewhere found =>
    refine .inl ⟨List.Sublist.subperm ?_, rfl⟩
    exact (((List.Sublist.refl _).append (List.filter_sublist.map _)).append
      (List.filter_sublist.map _)).append (List.Sublist.refl _)
  | forget elsewhere found =>
    refine .inl ⟨List.Sublist.subperm ?_, rfl⟩
    exact (List.Sublist.refl _).append (List.filter_sublist.map _)

/-- The call whose turn it is has been in progress, or it has just begun. -/
theorem caller_of_responds {e : Event} {t : Turn} (h : p.Responds e t) :
    Move.caller ⟨p, e, t⟩ = p.nextCall ∧ t.pool.nextCall = p.nextCall + 1 ∨
      Move.caller ⟨p, e, t⟩ ∈ p.calls := by
  cases h with
  | enter ns intent => exact .inl ⟨rfl, nextCall_lock _ _ intent⟩
  | decline ns e => exact .inl ⟨rfl, rfl⟩
  | send request => exact .inl ⟨rfl, rfl⟩
  | goOn holds h => exact .inr (mem_calls_of_holder holds)
  | relock elsewhere found => exact .inr (by simp [calls, Move.caller, (mem_map_of_find? found).2])
  | getUp elsewhere found due =>
    exact .inr (by simp [calls, Move.caller, (mem_map_of_find? found).2])
  | errand elsewhere found h => exact .inr (by simp [calls, Move.caller, mem_map_of_lookup found])
  | cut holds => exact .inr (mem_calls_of_holder holds)
  | withdraw elsewhere found => exact .inr (by simp [calls, Move.caller, mem_map_of_lookup found])
  | desert elsewhere found =>
    obtain ⟨s, hs, same⟩ := List.any_eq_true.1 found
    obtain rfl := beq_iff_eq.1 same
    have asleep := List.mem_map_of_mem (f := Sleeper.id) hs
    rw [List.map_append] at asleep
    refine .inr (List.mem_append_left _ ?_)
    rw [List.append_assoc]
    exact List.mem_append_right _ asleep
  | forget elsewhere found => exact .inr (by simp [calls, Move.caller, mem_map_of_lookup found])

/-- A call that is in no place has no more turns. -/
theorem Responds.gone {e : Event} {t : Turn} (h : p.Responds e t) {i : CallId}
    (gone : i ∉ p.calls) (given : i < p.nextCall) :
    Move.caller ⟨p, e, t⟩ ≠ i ∧ i ∉ t.pool.calls ∧ i < t.pool.nextCall := by
  have follows := follows_of_responds h
  refine ⟨?_, fun there => gone (follows.mem_calls there given),
    Nat.lt_of_lt_of_le given follows.nextCall_le⟩
  rintro rfl
  obtain ⟨new, -⟩ | there := caller_of_responds h
  · exact Nat.ne_of_lt given new
  · exact gone there

theorem callsOnce_opened (id : PoolId) (source : DataSource) (policy : Policy) :
    (opened id source policy).CallsOnce where
  once := List.nodup_nil
  numbered _ hi := absurd hi List.not_mem_nil

end Pool

/-- A turn keeps every call in a single place. -/
theorem Pool.CallsOnce.respond {p : Pool} {e : Event} {t : Turn} (h : p.CallsOnce)
    (ht : p.respond e = some t) : t.pool.CallsOnce :=
  h.follows (follows_of_responds (responds_of_respond ht))

end LeasePool
