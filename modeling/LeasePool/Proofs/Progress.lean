import LeasePool.Proofs.Requests

/-!
# What calls in progress do

A call that does not sleep holds the lock, or it is queued for it with what it is going to do
(`Pool.Doing`). In a turn of another call it remains at what it does; in its own turn it comes to
the next work, it begins, or it asks for the lock again after its sleep (`Pool.Comes`).

* `Pool.comes_of_respond`: how a call has come to what it does after a turn;
* `Pool.mem_sleeping_of_respond`: how a caller has come to sleep.
-/

namespace LeasePool

/-- What a call intends that asks for the lock as soon as it begins, if it does. -/
def Op.intent? (m : Moment) : Op → Option Intent
  | acquire login timeout =>
    some (.acquire { login := login, deadline := timeout.map m.now.after, startedAt := m.now })
  | release h => some (.release h)
  | reset r => some (.reset r)
  | inquire q => some (.inquire q)
  | probe _ _ | rollback _ => none

namespace Pool

/-- A call holds the lock and does some work, or it is queued for the lock and is going to begin. -/
inductive Doing (p : Pool) (i : CallId) : Work → Prop
  | holds {w : Work} (holds : p.holder = some (i, w)) : Doing p i w
  | queued {intent : Intent} (queued : (i, intent) ∈ p.queue) : Doing p i (.begin intent)

variable {p q : Pool} {i id : CallId} {w : Work}

namespace Doing

theorem mem_calls (h : p.Doing i w) : i ∈ p.calls := by
  cases h with
  | holds holds => exact mem_calls_of_holder holds
  | queued queued => simp [calls, List.mem_map_of_mem (f := Prod.fst) queued]

theorem mono (h : q.Doing i w) (holder : ∀ w, q.holder = some (i, w) → p.holder = some (i, w))
    (queue : q.queue ⊆ p.queue) : p.Doing i w := by
  cases h with
  | holds holds => exact .holds (holder _ holds)
  | queued queued => exact .queued (queue queued)

theorem of_same (h : q.Doing i w) (holder : q.holder = p.holder) (queue : q.queue = p.queue) :
    p.Doing i w :=
  h.mono (fun _ holds => holder ▸ holds) (queue ▸ List.Subset.refl _)

/-- The call that is given the lock has been queued for it. -/
theorem of_passLock (h : p.passLock.Doing i w) : Doing { p with holder := none } i w := by
  cases queue : p.queue with
  | nil =>
    rw [passLock, queue] at h
    exact h
  | cons c rest =>
    rw [passLock, queue] at h
    cases h with
    | holds holds =>
      cases holds
      exact .queued List.mem_cons_self
    | queued queued => exact .queued (List.mem_cons_of_mem _ queued)

/-- A call that is queued for the lock remains so when the lock is given on, or it gets it. -/
theorem passLock {intent : Intent} (queued : (i, intent) ∈ p.queue) :
    p.passLock.Doing i (.begin intent) := by
  cases queue : p.queue with
  | nil =>
    rw [queue] at queued
    cases queued
  | cons next rest =>
    rw [queue] at queued
    rw [Pool.passLock, queue]
    rcases List.mem_cons.1 queued with rfl | queued
    · exact .holds rfl
    · exact .queued queued

/-- The holder of the lock is not queued for it. -/
theorem not_queued (once : p.calls.Nodup) (holds : p.holder = some (i, w)) (intent : Intent) :
    (i, intent) ∉ p.queue := by
  intro queued
  rw [calls_passLock holds, List.nodup_cons] at once
  exact once.1 (passLock queued).mem_calls

/-- A call that does not hold the lock has been queued for it. -/
theorem of_free (h : Doing { p with holder := none } i w) : p.Doing i w :=
  h.mono (fun _ holds => by cases holds) (List.Subset.refl _)

/-- A call that asks for the lock is going to do what it intends. -/
theorem of_lock {t : Turn} {intent : Intent} (h : (t.lock id intent).pool.Doing i w) :
    t.pool.Doing i w ∨ i = id ∧ w = .begin intent := by
  cases free : t.pool.holder with
  | none =>
    rw [Turn.lock, free] at h
    cases h with
    | holds holds =>
      cases holds
      exact .inr ⟨rfl, rfl⟩
    | queued queued => exact .inl (.queued queued)
  | some c =>
    rw [Turn.lock, free] at h
    cases h with
    | holds holds => exact .inl (.holds holds)
    | queued queued =>
      rcases List.mem_append.1 queued with queued | queued
      · exact .inl (.queued queued)
      · cases List.mem_singleton.1 queued
        exact .inr ⟨rfl, rfl⟩

/-- When the holder of the lock has had its turn, the others remain at what they do. -/
theorem of_ended {x : Ending} {w₀ : Work} (h : (p.ended id x).Doing i w)
    (holds : p.holder = some (id, w₀)) (once : p.calls.Nodup) :
    i ≠ id ∧ p.Doing i w ∨ i = id ∧ x = .work w := by
  have queued {intent : Intent} (queued : (i, intent) ∈ p.queue) : i ≠ id := by
    rintro rfl
    exact not_queued once holds intent queued
  have passed (h : Doing { p with holder := none } i w) : i ≠ id ∧ p.Doing i w := by
    cases h with
    | holds holds => cases holds
    | queued hq => exact ⟨queued hq, .queued hq⟩
  cases x with
  | work w' =>
    cases h with
    | holds holds =>
      cases holds
      exact .inr ⟨rfl, rfl⟩
    | queued hq => exact .inl ⟨queued hq, .queued hq⟩
  | finished o => exact .inl (passed h.of_passLock)
  | freed o => exact .inl (passed (of_passLock (h.of_same rfl rfl)))
  | asleep a since limit => exact .inl (passed (h.of_passLock.of_same rfl rfl))

end Doing

/-- The callers that sleep, or have been roused from their sleep. -/
def sleeping (p : Pool) : List Sleeper := p.sleepers ++ p.roused

/-- How a call has come to what it does after a turn. -/
inductive Comes (p : Pool) (e : Event) (t : Turn) (i : CallId) : Work → Prop
  /-- It has been at it before, and another call has had its turn. -/
  | stays {w : Work} (doing : p.Doing i w)
      (other : ∀ m w s x, Move.Continues ⟨p, e, t⟩ m w s x → Move.caller ⟨p, e, t⟩ ≠ i) :
      Comes p e t i w
  /-- It has gone on. -/
  | goesOn {m : Moment} {w₀ w : Work} {s : Signal}
      (continues : Move.Continues ⟨p, e, t⟩ m w₀ s (.work w))
      (caller : Move.caller ⟨p, e, t⟩ = i) : Comes p e t i w
  /-- It has begun. A release is one of a handle of this pool. -/
  | starts {op : Op} {m : Moment} {intent : Intent} (event : e = .start op m)
      (new : i = p.nextCall) (intends : op.intent? m = some intent)
      (own : ∀ h, intent = .release h → h.pool = p.id) : Comes p e t i (.begin intent)
  /-- It has slept. -/
  | wakes {s : Sleeper} (asleep : s ∈ p.sleeping) (caller : s.id = i) :
      Comes p e t i (.begin (.awaken s.acquisition s.asleepSince))

/-- A call that begins is going to do what it intends. -/
theorem doing_start {op : Op} {m : Moment} (h : (p.start op m).2.pool.Doing i w) :
    p.Doing i w ∨ i = p.nextCall ∧ ∃ intent, op.intent? m = some intent ∧ w = .begin intent ∧
      ∀ h, intent = .release h → h.pool = p.id := by
  -- A call asks for the lock with its intent, or it sends one request without the lock.
  have locks {t : Turn} {intent : Intent} (h : (t.lock p.nextCall intent).pool.Doing i w)
      (holder : t.pool.holder = p.holder) (queue : t.pool.queue = p.queue)
      (intends : op.intent? m = some intent) (own : ∀ h, intent = .release h → h.pool = p.id) :
      p.Doing i w ∨ i = p.nextCall ∧ ∃ intent, op.intent? m = some intent ∧ w = .begin intent ∧
        ∀ h, intent = .release h → h.pool = p.id :=
    h.of_lock.imp (fun h => h.of_same holder queue) fun h => ⟨h.1, intent, intends, h.2, own⟩
  have sends {x : Handle} {r : Request}
      (h : (p.numbered.startErrand p.nextCall x r).pool.Doing i w) : p.Doing i w := by
    unfold startErrand at h
    split at h <;> exact h.of_same rfl rfl
  cases op with
  | acquire login timeout => exact locks h rfl rfl rfl fun _ same => by cases same
  | release x =>
    rw [start] at h
    dsimp only at h
    split at h
    · next own => exact locks h rfl rfl rfl fun _ same => by cases same; exact own
    · exact .inl (h.of_same rfl rfl)
  | reset r =>
    cases r with
    | replace policy =>
      rw [start] at h
      dsimp only [startReset] at h
      split at h
      · exact locks h rfl rfl rfl fun _ same => by cases same
      · exact .inl (h.of_same rfl rfl)
    | _ => exact locks h rfl rfl rfl fun _ same => by cases same
  | inquire q => exact locks h rfl rfl rfl fun _ same => by cases same
  | probe x query => exact .inl (sends h)
  | rollback x => exact .inl (sends h)

/-- How a call has come to what it does after a turn. -/
theorem comes_of_respond {e : Event} {t : Turn} (ht : p.respond e = some t) (once : p.CallsOnce)
    (hd : t.pool.Doing i w) : p.Comes e t i w := by
  have begun {op : Op} {m : Moment} (same : e = .start op m) : p.Comes e t i w := by
    have started : (p.start op m).2.pool.Doing i w := by
      rw [same] at ht
      rwa [Option.some.inj ht]
    obtain doing | ⟨new, intent, intends, rfl, own⟩ := doing_start started
    · exact .stays doing fun m w s x h => by cases same.symm.trans h.event
    · exact .starts same new intends own
  -- In a turn in which nobody goes on, all remain at what they do.
  have stays {e : Event} {t : Turn} (doing : p.Doing i w)
      (idle : ∀ w, p.holder ≠ some (Move.caller ⟨p, e, t⟩, w)) : p.Comes e t i w :=
    .stays doing fun m w s x h => absurd h.holds (idle w)
  cases responds_of_respond ht with
  | enter ns intent => exact begun rfl
  | decline ns e => exact begun rfl
  | send request => exact begun rfl
  | @goOn id w₀ s m t holds h =>
    obtain ⟨x, hx⟩ := Move.exists_continues holds h
    obtain ⟨q, same, after⟩ := hx.after
    change (Move.after ⟨p, .resume id s m, t⟩).Doing i w at hd
    rw [after] at hd
    obtain ⟨other, doing⟩ | ⟨caller, rfl⟩ := hd.of_ended (same.holder.trans holds)
      (same.calls ▸ once.once)
    · exact .stays (doing.of_same same.holder same.queue) fun _ _ _ _ _ caller => other caller.symm
    · exact .goesOn hx caller.symm
  | @relock id m s elsewhere found =>
    obtain doing | ⟨rfl, rfl⟩ := hd.of_lock
    · exact stays (doing.of_same rfl rfl) elsewhere
    · exact .wakes (List.mem_append_right _ (List.mem_of_find?_eq_some found)) rfl
  | @getUp id m s elsewhere found due =>
    obtain doing | ⟨rfl, rfl⟩ := hd.of_lock
    · exact stays (doing.of_same rfl rfl) elsewhere
    · exact .wakes (List.mem_append_left _ (List.mem_of_find?_eq_some found)) rfl
  | @errand id s m x t elsewhere found h =>
    refine stays ?_ elsewhere
    unfold Turn.advanceErrand at h
    split at h <;> cases h <;> exact hd.of_same rfl rfl
  | @cut id w₀ holds =>
    obtain ⟨q, dropped, -, queue, -⟩ := p.exists_dropWork w₀
    rw [dropped] at hd
    refine .stays (Doing.of_free (hd.of_passLock.of_same rfl queue)) fun m w s x h => ?_
    cases h.event
  | @withdraw id intent elsewhere found =>
    refine stays ?_ elsewhere
    cases intent <;> exact hd.mono (fun _ holds => holds) fun _ hc => List.mem_of_mem_filter hc
  | desert elsewhere found => exact stays (hd.of_same rfl rfl) elsewhere
  | forget elsewhere found => exact stays (hd.of_same rfl rfl) elsewhere

theorem sleeping_passLock (p : Pool) : p.passLock.sleeping = p.sleeping := by
  cases h : p.queue <;> simp only [passLock, h, sleeping]

theorem sleeping_lock (t : Turn) (intent : Intent) :
    (t.lock id intent).pool.sleeping = t.pool.sleeping := by
  cases h : t.pool.holder <;> simp only [Turn.lock, h, Turn.work, sleeping]

/-- Nobody falls asleep but the holder of the lock, in its turn. -/
theorem mem_sleeping_of_respond {e : Event} {t : Turn} (ht : p.respond e = some t) {c : Sleeper}
    (hc : c ∈ t.pool.sleeping) : c ∈ p.sleeping ∨ c.id = Move.caller ⟨p, e, t⟩ ∧
      ∃ m w s, Move.Continues ⟨p, e, t⟩ m w s (.asleep c.acquisition c.asleepSince c.limit) := by
  have remains {q : Pool} (hc : c ∈ q.sleeping) (same : q.sleeping = p.sleeping) :
      c ∈ p.sleeping := same ▸ hc
  cases responds_of_respond ht with
  | enter ns intent => exact .inl (remains hc (sleeping_lock _ intent))
  | decline ns e => exact .inl hc
  | send request => exact .inl hc
  | @goOn id w s m t holds h =>
    obtain ⟨x, hx⟩ := Move.exists_continues holds h
    obtain ⟨q, same, after⟩ := hx.after
    change c ∈ (Move.after ⟨p, .resume id s m, t⟩).sleeping at hc
    have before : q.sleeping = p.sleeping := by rw [sleeping, same.sleepers, same.roused, sleeping]
    rw [after] at hc
    cases x with
    | work w' => exact .inl (before ▸ hc)
    | finished o =>
      rw [ended, sleeping_passLock] at hc
      exact .inl (before ▸ hc)
    -- Sleepers that are roused still sleep until they have their turn.
    | freed o =>
      rw [ended, ← passLock_rouseAll, sleeping_passLock] at hc
      have hc : c ∈ q.roused ++ q.sleepers := hc
      rw [List.mem_append, or_comm, ← List.mem_append] at hc
      exact .inl (before ▸ hc)
    -- The one case in which a sleeper is added, the holder itself.
    | asleep a since limit =>
      rw [ended, sleeping_passLock] at hc
      rcases List.mem_append.1 hc with asleep | roused
      · rcases List.mem_append.1 asleep with old | new
        · exact .inl (before ▸ List.mem_append_left _ old)
        · obtain rfl := List.mem_singleton.1 new
          exact .inr ⟨rfl, m, w, s, hx⟩
      · exact .inl (before ▸ List.mem_append_right _ roused)
  | relock elsewhere found =>
    rw [Turn.relock, sleeping_lock] at hc
    exact .inl ((((List.Sublist.refl _).append List.filter_sublist).subset hc))
  | getUp elsewhere found due =>
    rw [Turn.relock, sleeping_lock] at hc
    exact .inl ((List.filter_sublist.append (List.Sublist.refl _)).subset hc)
  | errand elsewhere found h =>
    unfold Turn.advanceErrand at h
    split at h <;> cases h <;> exact .inl hc
  | @cut id w holds =>
    obtain ⟨q, dropped, -, -, sleepers, roused, -⟩ := p.exists_dropWork w
    rw [dropped, sleeping_passLock] at hc
    exact .inl (remains hc (by rw [sleeping, sleepers, roused, sleeping]))
  | @withdraw id intent elsewhere found => cases intent <;> exact .inl hc
  | desert elsewhere found =>
    exact .inl ((List.filter_sublist.append List.filter_sublist).subset hc)
  | forget elsewhere found => exact .inl hc

end Pool

end LeasePool
