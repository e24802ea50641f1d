import LeasePool.Proofs.Holder
import LeasePool.Proofs.Logins
import LeasePool.Proofs.Wakeups

/-!
# How acquisitions end

An acquisition in progress is nowhere forgotten: while it is queued for the lock it gets nearer to
it, while it sleeps it is among the sleepers, and a turn in which it has the lock leads to the next
piece of its work. It ends only in a turn of its own, and only in one of three ways: it hands out a
connection, it fails, or it is dropped.

* `Pool.Responds.queued`, `Pool.Responds.sleeping`: what becomes of a call that waits;
* `Pool.Seeks.respond`: what becomes of an acquisition in a turn;
* `Run.Of.ended_or_seeks`: an acquisition that has begun is in progress, or it has ended.
-/

namespace LeasePool

namespace Acquisition

variable {m : Moment} {a : Acquisition} {e : Entry} {b b' : Books} {g : Generations} {x : Ending}

/-- How an acquisition ends that ends in a turn: with a connection, or with an error. -/
def Concludes (x : Ending) : Prop :=
  ∀ o, x.outcome? = some o → o.handle?.isSome ∨ ∃ cause, o = .failed cause

theorem Retries.concludes (h : a.Retries b x) : Concludes x := by
  cases h with
  | again tolerated => exact fun o ended => by cases ended
  | giveUp exceeded => exact fun o ended => by cases ended; exact .inr ⟨_, rfl⟩

theorem Refuses.concludes (h : a.Refuses m e b b' x) : Concludes x := by
  cases h with
  | gone closed retries => exact retries.concludes
  | discard is_open => exact fun o ended => by cases ended

theorem Accepts.concludes (h : a.Accepts m e b b' x) : Concludes x := by
  cases h with
  | lease pool commits => exact fun o ended => by cases ended; exact .inl rfl
  | prepare uncommitted => exact fun o ended => by cases ended

theorem Examines.concludes (h : a.Examines m e b g b' x) : Concludes x := by
  cases h with
  | test query => exact fun o ended => by cases ended
  | accept accepts => exact accepts.concludes
  | refuse bad refuses => exact refuses.concludes

theorem Looks.concludes (h : a.Looks m b g b' x) : Concludes x := by
  cases h with
  | take found examines => exact examines.concludes
  | claim none_idle full overdue commits examines => exact examines.concludes
  | timeOut none_idle full none_overdue elapsed =>
    exact fun o ended => by cases ended; exact .inr ⟨_, rfl⟩
  | _ => exact fun o ended => by cases ended

end Acquisition

namespace Pool

open Acquisition

variable {p : Pool} {m : Moment} {w : Work} {s : Signal} {b : Books} {x : Ending} {e : Event}
  {t : Turn} {i id : CallId} {l : Login} {intent : Intent} {c : Sleeper}

/-- An acquisition that is over has handed out a connection, or it has failed. -/
theorem Sequel.concludes (h : p.Sequel m w s b x) (acquires : w.login? = some l) :
    Concludes x := by
  cases h with
  | look looks => exact looks.concludes
  | awaken looks => exact looks.concludes
  | opened examines => exact examines.concludes
  | openFailed => exact fun o ended => by cases ended; exact .inr ⟨_, rfl⟩
  | reclaimed examines => exact examines.concludes
  | probed | failing => exact fun o ended => by cases ended
  | passed phase accepts => exact accepts.concludes
  | failed phase refuses => exact refuses.concludes
  | prepared pool => exact fun o ended => by cases ended; exact .inl rfl
  | unprepared refuses => exact refuses.concludes
  | discarded retries => exact retries.concludes
  | _ => cases acquires

/-! ## Calls that wait -/

theorem mem_calls_of_sleeping (asleep : c ∈ p.sleeping) : c.id ∈ p.calls := by
  have there := List.mem_map_of_mem (f := Sleeper.id) asleep
  rw [sleeping, List.map_append, List.mem_append] at there
  simp only [calls, List.mem_append]
  tauto

namespace CallsOnce

/-- The holder of the lock does not sleep. -/
theorem not_sleeping (once : p.CallsOnce) (holds : p.holder = some (i, w))
    (asleep : c ∈ p.sleeping) : c.id ≠ i := by
  rintro rfl
  have calls := once.once
  rw [calls_passLock holds, List.nodup_cons] at calls
  exact calls.1 (mem_calls_of_sleeping (sleeping_passLock p ▸ asleep))

/-- A caller sleeps once. -/
theorem sleeper_unique (once : p.CallsOnce) {c' : Sleeper} (asleep : c ∈ p.sleeping)
    (asleep' : c' ∈ p.sleeping) (same : c.id = c'.id) : c = c' := by
  have split : p.calls = (p.holder.map Prod.fst).toList ++ p.queue.map Prod.fst ++
      (p.sleeping.map Sleeper.id ++ p.errands.map Prod.fst) := by
    simp only [calls, sleeping, List.map_append, List.append_assoc]
  have sub : (p.sleeping.map Sleeper.id).Sublist p.calls := by
    rw [split]
    exact (List.sublist_append_left _ _).trans (List.sublist_append_right _ _)
  exact List.inj_on_of_nodup_map (once.once.sublist sub) asleep asleep' same

end CallsOnce

/-- Whoever asks for the lock has it, or is queued for it. -/
theorem doing_lock (t : Turn) (id : CallId) (intent : Intent) :
    (t.lock id intent).pool.Doing id (.begin intent) := by
  cases free : t.pool.holder with
  | none =>
    rw [Turn.lock, free]
    exact .holds rfl
  | some held =>
    rw [Turn.lock, free]
    exact .queued (List.mem_append_right _ (List.mem_singleton_self _))

namespace Doing

/-- A call that is queued for the lock remains so when another one asks for it. -/
theorem lock {t : Turn} (queued : (i, intent) ∈ t.pool.queue) {intent' : Intent} :
    (t.lock id intent').pool.Doing i (.begin intent) := by
  cases free : t.pool.holder with
  | none =>
    rw [Turn.lock, free]
    exact .queued queued
  | some held =>
    rw [Turn.lock, free]
    exact .queued (List.mem_append_left _ queued)

/-- It remains so at the end of the turn of the holder of the lock, or it gets the lock. -/
theorem ended (queued : (i, intent) ∈ p.queue) : (p.ended id x).Doing i (.begin intent) := by
  cases x with
  | work w => exact .queued queued
  | finished o => exact passLock queued
  | freed o => exact (passLock queued).of_same rfl rfl
  | asleep a since limit => exact passLock queued

end Doing

/-- A call that is queued for the lock remains so, or it gets it, unless it is dropped. -/
theorem Responds.queued (h : p.Responds e t) (queued : (i, intent) ∈ p.queue) :
    t.pool.Doing i (.begin intent) ∨ Move.caller ⟨p, e, t⟩ = i ∧ e.isDrop = true := by
  cases h with
  | enter ns intent => exact .inl (.lock queued)
  | decline ns e => exact .inl (.queued queued)
  | send request => exact .inl (.queued queued)
  | @goOn j w s m t holds h =>
    obtain ⟨x, goes⟩ := Move.exists_continues holds h
    obtain ⟨q, same, after⟩ := goes.after
    change (Move.after ⟨p, .resume j s m, t⟩).Doing i (.begin intent) ∨ _
    rw [after]
    exact .inl (.ended (same.queue ▸ queued))
  | relock elsewhere found => exact .inl (.lock queued)
  | getUp elsewhere found due => exact .inl (.lock queued)
  | errand elsewhere found h =>
    unfold Turn.advanceErrand at h
    split at h <;> cases h <;> exact .inl (.queued queued)
  | @cut j w holds =>
    obtain ⟨q, dropped, -, queue, -⟩ := p.exists_dropWork w
    rw [dropped]
    exact .inl (.passLock (queue ▸ queued))
  | @withdraw j intent' elsewhere found =>
    by_cases same : i = j
    · exact .inr ⟨same.symm, rfl⟩
    · have kept : (i, intent) ∈ p.queue.filter fun q => q.1 != j :=
        List.mem_filter.2 ⟨queued, by simpa using same⟩
      cases intent' <;> exact .inl (.queued kept)
  | desert elsewhere found => exact .inl (.queued queued)
  | forget elsewhere found => exact .inl (.queued queued)

/-- Whoever sleeps is still asleep at the end of a turn, though it may be roused. -/
theorem mem_sleeping_ended (asleep : c ∈ p.sleeping) : c ∈ (p.ended id x).sleeping := by
  cases x with
  | work w => exact asleep
  | finished o =>
    rw [ended, sleeping_passLock]
    exact asleep
  | freed o =>
    rw [ended, ← passLock_rouseAll, sleeping_passLock]
    change c ∈ p.roused ++ p.sleepers
    rwa [List.mem_append, or_comm, ← List.mem_append]
  | asleep a since limit =>
    rw [ended, sleeping_passLock]
    exact ((List.sublist_append_left _ _).append (List.Sublist.refl _)).subset asleep

/-- A caller that sleeps goes on sleeping, or asks for the lock, unless it is dropped. -/
theorem Responds.sleeping (h : p.Responds e t) (once : p.CallsOnce) (asleep : c ∈ p.sleeping) :
    c ∈ t.pool.sleeping ∨
      t.pool.Doing c.id (.begin (.awaken c.acquisition c.asleepSince)) ∨
      Move.caller ⟨p, e, t⟩ = c.id ∧ e.isDrop = true := by
  -- A caller that is not the one that is taken out remains where it is.
  have kept {j : CallId} {cs : List Sleeper} (other : c.id ≠ j) (there : c ∈ cs) :
      c ∈ cs.filter fun s => s.id != j := List.mem_filter.2 ⟨there, by simpa using other⟩
  cases h with
  | enter ns intent =>
    rw [sleeping_lock]
    exact .inl asleep
  | decline ns e => exact .inl asleep
  | send request => exact .inl asleep
  | @goOn j w s m t holds h =>
    obtain ⟨x, goes⟩ := Move.exists_continues holds h
    obtain ⟨q, same, after⟩ := goes.after
    change c ∈ (Move.after ⟨p, .resume j s m, t⟩).sleeping ∨ _
    rw [after]
    refine .inl (mem_sleeping_ended ?_)
    rwa [Pool.sleeping, same.sleepers, same.roused, ← Pool.sleeping]
  | @relock j m s elsewhere found =>
    by_cases same : c.id = j
    · obtain ⟨rfl, -⟩ := mem_map_of_find? found
      have there := List.mem_append_right p.sleepers (List.mem_of_find?_eq_some found)
      obtain rfl := once.sleeper_unique asleep there same
      exact .inr (.inl (doing_lock _ _ _))
    · rw [Turn.relock, sleeping_lock]
      exact .inl (List.mem_append.2 ((List.mem_append.1 asleep).imp_right (kept same)))
  | @getUp j m s elsewhere found due =>
    by_cases same : c.id = j
    · obtain ⟨rfl, -⟩ := mem_map_of_find? found
      have there := List.mem_append_left p.roused (List.mem_of_find?_eq_some found)
      obtain rfl := once.sleeper_unique asleep there same
      exact .inr (.inl (doing_lock _ _ _))
    · rw [Turn.relock, sleeping_lock]
      exact .inl (List.mem_append.2 ((List.mem_append.1 asleep).imp_left (kept same)))
  | errand elsewhere found h =>
    unfold Turn.advanceErrand at h
    split at h <;> cases h <;> exact .inl asleep
  | @cut j w holds =>
    obtain ⟨q, dropped, -, -, sleepers, roused, -⟩ := p.exists_dropWork w
    rw [dropped, sleeping_passLock, Pool.sleeping, sleepers, roused]
    exact .inl asleep
  | @withdraw j intent elsewhere found => cases intent <;> exact .inl asleep
  | @desert j elsewhere found =>
    by_cases same : c.id = j
    · exact .inr (.inr ⟨same.symm, rfl⟩)
    · exact .inl (List.mem_append.2 ((List.mem_append.1 asleep).imp (kept same) (kept same)))
  | forget elsewhere found => exact .inl asleep

end Pool

/-! ## Acquisitions in progress -/

/-- How an acquisition ends in a turn of its own. -/
inductive Move.EndsAcquiring (v : Move) : Prop
  /-- It hands out a connection. -/
  | succeeds {y : Handle} (issued : v.issued? = some y) : EndsAcquiring v
  /-- It fails. -/
  | fails {cause : PoolError} (failed : v.turn.outcome = some (.failed cause)) : EndsAcquiring v
  /-- It is dropped. -/
  | dropped (dropped : v.event.isDrop = true) : EndsAcquiring v

namespace Pool

variable {p : Pool} {e : Event} {t : Turn} {i : CallId} {l : Login}

theorem Seeks.mem_calls (h : p.Seeks i l) : i ∈ p.calls := by
  cases h with
  | works doing login => exact doing.mem_calls
  | sleeps asleep caller login => exact caller ▸ mem_calls_of_sleeping asleep

/-- An acquisition in progress remains so until it ends in a turn of its own. -/
theorem Seeks.respond (h : p.Seeks i l) (ht : p.respond e = some t) (once : p.CallsOnce) :
    t.pool.Seeks i l ∨ Move.caller ⟨p, e, t⟩ = i ∧ Move.EndsAcquiring ⟨p, e, t⟩ := by
  have responds := responds_of_respond ht
  cases h with
  | @works w doing login =>
    cases doing with
    | holds held =>
      cases responds.affects once with
      | @goesOn m w' s x goes =>
        obtain ⟨rfl, rfl⟩ := holder_unique goes.holds held
        have concluded {o : Outcome} (ended : x.outcome? = some o) :
            Move.EndsAcquiring ⟨p, e, t⟩ := by
          have outcome : t.outcome = some o := goes.outcome.trans ended
          obtain issued | ⟨cause, rfl⟩ := goes.sequel.concludes login o ended
          · obtain ⟨y, hy⟩ := Option.isSome_iff_exists.1 issued
            exact .succeeds (y := y) (by rw [Move.issued?, outcome, Option.bind_some, hy])
          · exact .fails outcome
        cases x with
        | work w' =>
          exact .inl (.works (.holds goes.holder_work)
            ((goes.sequel.remains.login rfl).trans login))
        | asleep a since limit =>
          have same := (goes.sequel.remains.login rfl).trans login
          refine .inl (.sleeps (c := ⟨_, a, since, limit⟩) (List.mem_append_left _ ?_) rfl
            (Option.some.inj same))
          change _ ∈ (Move.after ⟨p, e, t⟩).sleepers
          rw [goes.sleepers_eq]
          exact List.mem_append_right _ (List.mem_singleton_self _)
        | finished o => exact .inr ⟨rfl, concluded rfl⟩
        | freed o => exact .inr ⟨rfl, concluded rfl⟩
      | dropped event held' turn =>
        obtain ⟨rfl, -⟩ := holder_unique held' held
        subst event
        exact .inr ⟨rfl, .dropped rfl⟩
      | aside other custody holder sleepers =>
        exact .inl (.works (.holds (holder _ _ held)) login)
    | queued queued =>
      obtain doing | ⟨caller, dropped⟩ := responds.queued queued
      · exact .inl (.works doing login)
      · exact .inr ⟨caller, .dropped dropped⟩
  | sleeps asleep caller login =>
    subst caller login
    obtain asleep | doing | ⟨caller, dropped⟩ := responds.sleeping once asleep
    · exact .inl (.sleeps asleep rfl rfl)
    · exact .inl (.works doing rfl)
    · exact .inr ⟨caller, .dropped dropped⟩

end Pool

/-! ## Runs -/

namespace Run

variable {id : PoolId} {source : DataSource} {policy : Policy} {r : Run} {i : CallId} {l : Login}

/-- An acquisition that has begun is in progress, or it has ended. -/
theorem Of.ended_or_seeks (h : Of (.opened id source policy) r) (acquires : r.Acquires i l) :
    r.pool.Seeks i l ∨ ∃ v ∈ r.moves, v.caller = i ∧ v.EndsAcquiring := by
  induction h with
  | start =>
    obtain ⟨v, hv, -⟩ := acquires
    cases hv
  | @move r e t h ht ih =>
    obtain ⟨v, hv, caller, timeout, m, event⟩ := acquires
    rcases List.mem_cons.1 hv with rfl | hv
    · subst caller
      obtain rfl : e = .start (.acquire l timeout) m := event
      cases ht
      exact .inl (.works (Pool.doing_lock _ _ _) rfl)
    · obtain seeks | ⟨u, hu, caller, ends⟩ := ih ⟨v, hv, caller, timeout, m, event⟩
      · refine (seeks.respond ht h.callsOnce).imp_right fun ⟨caller, ends⟩ => ?_
        exact ⟨_, List.mem_cons_self, caller, ends⟩
      · exact .inr ⟨u, List.mem_cons_of_mem _ hu, caller, ends⟩

end Run

end LeasePool
