import LeasePool.Proofs.Pursuits

/-!
# How acquisitions fail and wait

In its turn an acquisition fails for one of three reasons (`Pool.Fails`): the factory has refused to
open a connection; it has rejected more candidates than it may; or it has looked at the books when
its deadline has passed, and no connection is to be had. If none is to be had before its deadline,
or if it has none, the caller falls asleep, for no longer than until then (`Pool.Naps`). It is
counted among those that had to wait before either of these, unless it has been counted before.

* `Pool.Sequel.fails`, `Pool.Sequel.naps`: these are all ways to fail and to fall asleep;
* `Run.Of.terms_of_start`: in its turns, an acquisition has the terms with which it has begun;
* `Run.Of.refusals`: as long as it is in progress, the factory has not refused to open a connection.
-/

namespace LeasePool

open scoped List

/-! ## A single turn -/

theorem Intent.exists_acquisition {intent : Intent} (h : intent.purpose = .acquire) :
    ∃ a, intent.acquisition? = some a := by
  cases intent with
  | acquire a | awaken a since => exact ⟨a, rfl⟩
  | _ => cases h

/-- The error with which the factory refuses to open a connection, if a call learns of it. -/
def Signal.refusal? : Signal → Option PoolError
  | .connected (.error cause) => some cause
  | _ => none

/-- The error with which the factory refuses to open a connection, if a call learns of it in its
    turn. -/
def Move.refusal? (v : Move) : Option PoolError :=
  match v.event with
  | .resume _ s _ => s.refusal?
  | _ => none

namespace Pool

/-- Why an acquisition fails in a turn. -/
inductive Fails (p : Pool) (m : Moment) (a : Acquisition) : Work → Signal → PoolError → Prop
  /-- The factory has refused to open a connection. -/
  | refused {lookedAt : Instant} {cause : PoolError} :
      Fails p m a (.connect a lookedAt) (.connected (.error cause)) cause
  /-- It has rejected more candidates than it may. -/
  | exhausted {w : Work} {s : Signal} (kept : s.refusal? = none) :
      Fails p m a w s .noGoodConnection
  /-- No connection is to be had, and its deadline has passed. -/
  | late {intent : Intent} (acquires : intent.acquisition? = some a)
      (exhausted : p.books.Exhausted m.now)
      (elapsed : (a.remaining m.now).any Duration.isZero = true) :
      Fails p m a (.begin intent) .proceed (.noConnectionInTime p.books.active.length)

/-- An acquisition falls asleep in a turn: no connection is to be had, and its deadline, if there is
    one, is still to come. -/
structure Naps (p : Pool) (m : Moment) (a : Acquisition) (w : Work) (a' : Acquisition)
    (since : Instant) (limit : Option Duration) : Prop where
  begun : ∃ intent, w = .begin intent ∧ intent.acquisition? = some a
  waited : a' = a.waited
  since : since = m.now
  exhausted : p.books.Exhausted m.now
  time : (a.remaining m.now).any Duration.isZero = false
  limit : limit = Acquisition.sleepLimit p.books.policy.maxWait (a.remaining m.now)

end Pool

namespace Acquisition

variable {m : Moment} {a a' : Acquisition} {e : Entry} {b b' : Books} {g : Generations} {x : Ending}
  {cause : PoolError}

theorem Retries.fails (h : a.Retries b x) (failed : x.outcome? = some (.failed cause)) :
    cause = .noGoodConnection := by
  cases h <;> cases failed
  rfl

theorem Refuses.fails (h : a.Refuses m e b b' x) (failed : x.outcome? = some (.failed cause)) :
    cause = .noGoodConnection := by
  cases h with
  | gone closed retries => exact retries.fails failed
  | discard is_open => cases failed

theorem Accepts.not_fails (h : a.Accepts m e b b' x) : x.outcome? ≠ some (.failed cause) := by
  cases h <;> nofun

theorem Examines.fails (h : a.Examines m e b g b' x) (failed : x.outcome? = some (.failed cause)) :
    cause = .noGoodConnection := by
  cases h with
  | test query => cases failed
  | accept accepts => exact absurd failed accepts.not_fails
  | refuse bad refuses => exact refuses.fails failed

/-- An acquisition that looks at the books fails if it rejects too many candidates, or if none is to
    be had and its deadline has passed. -/
theorem Looks.fails (h : a.Looks m b g b' x) (failed : x.outcome? = some (.failed cause)) :
    cause = .noGoodConnection ∨ cause = .noConnectionInTime b.active.length ∧
      b.Exhausted m.now ∧ (a.remaining m.now).any Duration.isZero = true := by
  cases h with
  | take found examines => exact .inl (examines.fails failed)
  | claim none_idle full overdue commits examines => exact .inl (examines.fails failed)
  | timeOut none_idle full none_overdue elapsed =>
    cases failed
    exact .inr ⟨rfl, ⟨Books.takeIdle?_eq_none.1 none_idle, Books.canOpen_eq_false.1 full,
      none_overdue⟩, elapsed⟩
  | _ => cases failed

theorem Looks.naps {since : Instant} {limit : Option Duration}
    (h : a.Looks m b g b' (.asleep a' since limit)) :
    a' = a.waited ∧ (a.remaining m.now).any Duration.isZero = false ∧
      limit = sleepLimit b.policy.maxWait (a.remaining m.now) := by
  cases h with
  | take found examines => exact examines.not_asleep.elim
  | claim none_idle full overdue commits examines => exact examines.not_asleep.elim
  | sleep none_idle full none_overdue time => exact ⟨rfl, time, rfl⟩

/-- Whoever has no time left has a deadline, and it has passed. -/
theorem elapsed_iff {now : Instant} : (a.remaining now).any Duration.isZero = true ↔
    ∃ deadline, a.deadline = some deadline ∧ deadline ≤ now := by
  rw [remaining]
  cases a.deadline with
  | none => simp
  | some deadline =>
    simp only [Option.map_some, Option.any_some, Duration.isZero, beq_iff_eq, Instant.nanos_since,
      Option.some.injEq, exists_eq_left', Instant.le_iff]
    omega

end Acquisition

namespace Pool

variable {p : Pool} {m : Moment} {w : Work} {s : Signal} {b : Books} {x : Ending} {a : Acquisition}
  {cause : PoolError}

/-- An acquisition fails for one of the three reasons. -/
theorem Sequel.fails (h : p.Sequel m w s b x) (acquires : w.acquisition? = some a)
    (failed : x.outcome? = some (.failed cause)) : p.Fails m a w s cause := by
  have exhausted (kept : s.refusal? = none) (same : cause = .noGoodConnection) :
      p.Fails m a w s cause := by
    subst same
    exact .exhausted kept
  -- The factory refuses, the deadline has passed when nothing is to be had, or too many candidates
  -- have been rejected.
  cases h with
  | look looks =>
    have begun : Intent.acquisition? (.acquire _) = some a := acquires
    cases acquires
    obtain same | ⟨rfl, none_left, elapsed⟩ := looks.fails failed
    · exact exhausted rfl same
    · exact .late begun none_left elapsed
  | @awaken _ since _ _ looks =>
    have begun : Intent.acquisition? (.awaken _ since) = some a := acquires
    cases acquires
    obtain same | ⟨rfl, none_left, elapsed⟩ := looks.fails failed
    · exact exhausted rfl same
    · exact .late begun ⟨none_left.none_idle, none_left.full,
        Books.claimOverdue?_addWaitTime none_left.none_overdue⟩ elapsed
  | opened examines => exact exhausted rfl (examines.fails failed)
  | openFailed =>
    cases acquires
    cases failed
    exact .refused
  | reclaimed examines => exact exhausted rfl (examines.fails failed)
  | passed phase accepts => exact absurd failed accepts.not_fails
  | failed phase refuses => exact exhausted rfl (refuses.fails failed)
  | unprepared refuses => exact exhausted rfl (refuses.fails failed)
  | discarded retries => exact exhausted rfl (retries.fails failed)
  | probed | failing | prepared => cases failed
  | _ => cases acquires

/-- A caller falls asleep only in this way. -/
theorem Sequel.naps {a' : Acquisition} {since : Instant} {limit : Option Duration}
    (h : p.Sequel m w s b (.asleep a' since limit)) : ∃ a, p.Naps m a w a' since limit := by
  obtain ⟨intent, rfl, acquires, rfl, exhausted, -⟩ := h.exhausted
  cases h with
  | look looks =>
    obtain ⟨waited, time, limit⟩ := looks.naps
    exact ⟨_, ⟨_, rfl, rfl⟩, waited, rfl, exhausted, time, limit⟩
  | awaken looks =>
    obtain ⟨waited, time, limit⟩ := looks.naps
    exact ⟨_, ⟨_, rfl, rfl⟩, waited, rfl, exhausted, time, limit⟩
  | takeBack | reset => cases acquires

end Pool

namespace Move

variable {v : Move} {m : Moment} {w : Work} {s : Signal} {x : Ending}

theorem Continues.refusal?_eq (h : v.Continues m w s x) : v.refusal? = s.refusal? := by
  simp only [refusal?, h.event]

/-- Whoever learns that the factory has refused to open a connection is over. -/
theorem Continues.refusal?_eq_none (h : v.Continues m w s x) (on : x.outcome? = none) :
    v.refusal? = none := by
  rw [h.refusal?_eq]
  have sequel := h.sequel
  generalize v.after.books = b at sequel
  cases sequel with
  | openFailed => cases on
  | _ => rfl

/-- Nobody learns of it without having the lock. -/
theorem refusal?_of_idle {p : Pool} {e : Event} {t : Turn} (h : p.Responds e t)
    (idle : ∀ w, p.holder ≠ some (caller ⟨p, e, t⟩, w)) : refusal? ⟨p, e, t⟩ = none := by
  cases h with
  | goOn holds h => exact absurd holds (idle _)
  | @errand j s m q t elsewhere found h =>
    unfold Turn.advanceErrand at h
    split at h <;> first | rfl | cases h
  | _ => rfl

end Move

/-! ## Runs -/

namespace Run

variable {id : PoolId} {source : DataSource} {policy : Policy} {r : Run} {e : Event} {t : Turn}
  {i : CallId} {m : Moment} {w : Work} {s : Signal} {x : Ending} {a : Acquisition}

/-- The last turn of a run, with those before it. -/
theorem split_last : (r.move e t).moves = [] ++ ⟨r.pool, e, t⟩ :: r.moves := rfl

/-- In one of the moves a call begins as an acquisition, with a timeout or with none. -/
def BeginsAcquiring (moves : List Move) (i : CallId) (timeout : Option Duration)
    (since : Instant) : Prop :=
  ∃ u ∈ moves, u.caller = i ∧
    ∃ login m, u.event = .start (.acquire login timeout) m ∧ m.now = since

namespace Of

/-- In its turns, a call that has begun as an acquisition is one, on the terms with which it has
    begun. -/
theorem terms_of_start (h : Of (.opened id source policy) r) {later before : List Move}
    {u v : Move} (split : r.moves = later ++ v :: before) (hu : u ∈ r.moves) {login : Login}
    {timeout : Option Duration} {m₀ : Moment} (event : u.event = .start (.acquire login timeout) m₀)
    (same : u.caller = v.caller) (goes : v.Continues m w s x) :
    ∃ a, w.acquisition? = some a ∧ a.terms = (login, timeout.map m₀.now.after, m₀.now) := by
  obtain ⟨r₀, h₀, rfl, pool, -⟩ := h.cut split
  have doing : r₀.pool.Doing v.caller w := .holds (pool ▸ goes.holds)
  have known {u' : Move} (hu' : u' ∈ r₀.moves) : u' ∈ r.moves := by
    rw [split]
    exact List.mem_append_right _ (List.mem_cons_of_mem _ hu')
  obtain ⟨u', hu', caller, op, m', intent, event', intends, login'⟩ := h₀.exists_start doing
  obtain rfl := h.start_unique hu (known hu') event event' (same.trans caller.symm)
  cases event.symm.trans event'
  cases intends
  rw [Work.login?_eq] at login'
  obtain ⟨a, acquires, -⟩ := Option.map_eq_some_iff.1 login'.symm
  refine ⟨a, acquires, ?_⟩
  obtain ⟨u'', hu'', caller', timeout', m'', event'', deadline, startedAt⟩ :=
    h₀.terms (.works doing acquires) acquires
  obtain rfl := h.start_unique hu (known hu'') event event'' (same.trans caller'.symm)
  cases event.symm.trans event''
  rw [Acquisition.terms, deadline, startedAt]

/-- What an acquisition goes on with in one of its turns has the deadline with which it has begun. -/
theorem acquires_of_begins (h : Of (.opened id source policy) r) {moves : List Move}
    {timeout : Option Duration} {since : Instant} (begins : BeginsAcquiring moves i timeout since)
    (known : ∀ u ∈ moves, u ∈ r.moves) {later before : List Move} {v : Move}
    (split : r.moves = later ++ v :: before) (same : v.caller = i) (goes : v.Continues m w s x) :
    ∃ a, w.acquisition? = some a ∧ a.deadline = timeout.map since.after := by
  obtain ⟨u, hu, caller, login, m₀, event, rfl⟩ := begins
  obtain ⟨a, acquires, terms⟩ :=
    h.terms_of_start split (known u hu) event (caller.trans same.symm) goes
  exact ⟨a, acquires, congrArg (fun t => t.2.1) terms⟩

/-- A call that has begun as an acquisition ends in a turn in which it has the lock. -/
theorem continues_of_begins (h : Of (.opened id source policy) r) (ht : r.pool.respond e = some t)
    {timeout : Option Duration} {since : Instant}
    (begins : BeginsAcquiring r.moves (Move.caller ⟨r.pool, e, t⟩) timeout since)
    (ended : t.outcome.isSome) : ∃ m w s x a, Move.Continues ⟨r.pool, e, t⟩ m w s x ∧
      w.acquisition? = some a ∧ a.deadline = timeout.map since.after := by
  have started := begins
  obtain ⟨u, hu, caller, login, m₀, event, -⟩ := started
  obtain ⟨m, w, s, x, goes, -, -⟩ := h.continues_of_outcome ht hu event rfl caller ended
  obtain ⟨a, acquires, deadline⟩ := (h.move ht).acquires_of_begins begins
    (fun _ => List.mem_cons_of_mem _) split_last rfl goes
  exact ⟨m, w, s, x, a, goes, acquires, deadline⟩

/-- As long as an acquisition is in progress, the factory has not refused it a connection. -/
theorem refusals (h : Of (.opened id source policy) r) (pursues : r.pool.Pursues i w) :
    told Move.refusal? i r.moves = [] := by
  have none_refused : Pursuit id source policy fun r i _ => told Move.refusal? i r.moves = [] :=
    { begins := fun {r t login timeout m} h ht => told_eq_nil fun v hv own => by
        rcases List.mem_cons.1 hv with rfl | hv
        · rfl
        · exact absurd (h.caller_lt hv) (by rw [own]; exact Nat.lt_irrefl _)
      goesOn := fun {r e t m w w' s x a} h ht goes _ next before => by
        rw [moves_move, told_cons_self rfl, before,
          goes.refusal?_eq_none (Ending.outcome?_of_next? next)]
        rfl
      aside := fun {r e t i w} h ht _ idle before => by
        rw [moves_move]
        by_cases own : Move.caller ⟨r.pool, e, t⟩ = i
        · rw [told_cons_self own, before,
            Move.refusal?_of_idle (Pool.responds_of_respond ht) (own ▸ idle own)]
          rfl
        · rw [told_cons_of_ne own, before] }
  exact none_refused.holds h pursues

/-- Whoever falls asleep in a turn has had the lock, and no connection was to be had. -/
theorem naps_of_fellAsleep (h : Of (.opened id source policy) r) (ht : r.pool.respond e = some t)
    (fell : (Move.fellAsleep? ⟨r.pool, e, t⟩).isSome = true) : ∃ m w s a a' since limit,
      Move.Continues ⟨r.pool, e, t⟩ m w s (.asleep a' since limit) ∧
        r.pool.Naps m a w a' since limit := by
  have responds := Pool.responds_of_respond ht
  cases responds.affects h.callsOnce with
  | @goesOn m w s x goes =>
    rw [goes.isSome_fellAsleep? (h.move ht).callsOnce h.callsOnce] at fell
    cases x with
    | asleep a' since limit =>
      obtain ⟨a, naps⟩ := goes.sequel.naps
      exact ⟨m, w, s, a, a', since, limit, goes, naps⟩
    | _ => cases fell
  | dropped event held turn =>
    subst event
    rw [Move.fellAsleep?_of_dropped rfl] at fell
    cases fell
  | aside other custody holder sleepers =>
    rw [Move.fellAsleep?_of_idle responds h.callsOnce other] at fell
    cases fell

end Of

theorem slept_of_asleepSince? {moves : List Move} {since : Instant}
    (asleep : asleepSince? i moves = some since) : slept i moves = true := by
  obtain ⟨u, found, fell⟩ := Option.bind_eq_some_iff.1 asleep
  have own := List.find?_some found
  rw [Bool.and_eq_true] at own
  rw [slept, List.any_eq_true]
  exact ⟨u, List.mem_of_find?_eq_some found, by rw [own.1, fell]; rfl⟩

/-- Whoever looks again has slept. -/
theorem Of.slept_of_awaken (h : Of (.opened id source policy) r) {since : Instant}
    (doing : r.pool.Doing i (.begin (.awaken a since))) : slept i r.moves = true :=
  slept_of_asleepSince? (h.remembers.works i _ doing).1

end Run

end LeasePool
