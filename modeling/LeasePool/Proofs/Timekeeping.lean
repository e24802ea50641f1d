import Mathlib.Algebra.BigOperators.Group.Finset.Piecewise
import Mathlib.Algebra.Order.BigOperators.Group.Finset
import LeasePool.Proofs.Spans

/-!
# Times are accounted for once

The waits of a call lie apart from each other, and all of them lie between the turn in which the
call begins and that in which it hands out a connection. So an acquisition that succeeds has not
waited for longer than it has taken, and if all acquisitions of a run have succeeded, this holds of
the sums as well. All of this supposes that the clock does not go back (`Run.Steady`).

* `Run.Of.hasTime`: the waits of a call lie apart, and after its beginning;
* `Run.Of.waited_le_took`: an acquisition that succeeds has waited within its time;
* `Pool.accounts_times`: the sums of times of a run are accounted for, each time once.
-/

namespace LeasePool

open scoped List

namespace Run

/-- The clock does not go back in a run. -/
def Steady (r : Run) : Prop :=
  (r.moves.filterMap Move.moment?).Pairwise fun m m' => m'.now ≤ m.now

/-- The latest moment, after some moves. -/
def clock (moves : List Move) : Instant :=
  ((moves.findSome? Move.moment?).map Moment.now).getD ⟨0⟩

/-- The sum of the spans of a call. -/
def callTime (f : Move → List Move → Option Span) (i : CallId) (moves : List Move) : Duration :=
  .total (((spans f moves).filter fun s => s.call == i).map Span.time)

/-! ## The clock -/

section Clock

variable {r : Run} {e : Event} {t : Turn} {m : Moment} {v : Move} {moves : List Move}

theorem clock_cons_of_some (h : v.moment? = some m) : clock (v :: moves) = m.now := by
  simp [clock, h]

theorem clock_cons_of_none (h : v.moment? = none) : clock (v :: moves) = clock moves := by
  simp [clock, h]

theorem steady_of_move (h : (r.move e t).Steady) : r.Steady := by
  rw [Steady, moves_move, List.filterMap_cons] at h
  split at h
  · exact h
  · exact (List.pairwise_cons.1 h).2

/-- What has happened before a turn has happened no later. -/
theorem le_of_steady {later before : List Move} {u : Move} {m' : Moment} (h : r.Steady)
    (split : r.moves = later ++ v :: before) (hu : u ∈ before) (moment : v.moment? = some m)
    (moment' : u.moment? = some m') : m'.now ≤ m.now := by
  rw [Steady, split, List.filterMap_append, List.pairwise_append, List.filterMap_cons, moment,
    List.pairwise_cons] at h
  exact h.2.1.1 m' (List.mem_filterMap.2 ⟨u, hu, moment'⟩)

/-- The clock stands at or before the moment of the next turn. -/
theorem clock_le (h : (r.move e t).Steady) (moment : Move.moment? ⟨r.pool, e, t⟩ = some m) :
    clock r.moves ≤ m.now := by
  rw [clock]
  cases latest : r.moves.findSome? Move.moment? with
  | none => exact Nat.zero_le _
  | some m' =>
    obtain ⟨u, hu, moment'⟩ := List.exists_of_findSome?_eq_some latest
    have split : (r.move e t).moves = [] ++ ⟨r.pool, e, t⟩ :: r.moves := rfl
    exact le_of_steady h split hu moment moment'

/-- A turn does not put the clock back. -/
theorem clock_le_clock (h : (r.move e t).Steady) : clock r.moves ≤ clock (r.move e t).moves := by
  rw [moves_move]
  cases moment : Move.moment? ⟨r.pool, e, t⟩ with
  | none =>
    rw [clock_cons_of_none moment]
    exact Nat.le_refl _
  | some m =>
    rw [clock_cons_of_some moment]
    exact clock_le h moment

end Clock

/-! ## The spans of a call -/

section CallTime

variable {v : Move} {before moves : List Move} {s : Span} {i : CallId}
  {f g : Move → List Move → Option Span}

theorem call_of_wait? (h : v.wait? before = some s) : s.call = v.caller := by
  unfold Move.wait? at h
  split at h <;> cases h
  rfl

theorem call_of_checkout? (h : v.checkout? before = some s) : s.call = v.caller := by
  unfold Move.checkout? at h
  split at h <;> cases h
  rfl

theorem callTime_cons_of_none (h : f v before = none) :
    callTime f i (v :: before) = callTime f i before := by
  rw [callTime, spans, h]
  rfl

/-- The turn of another call ends no span of this one. -/
theorem callTime_cons_of_ne (own : ∀ s, f v before = some s → s.call = v.caller)
    (h : v.caller ≠ i) : callTime f i (v :: before) = callTime f i before := by
  cases span : f v before with
  | none => exact callTime_cons_of_none span
  | some s =>
    have other : s.call ≠ i := own s span ▸ h
    rw [callTime, spans, span, Option.toList_some, List.singleton_append,
      List.filter_cons_of_neg (by simpa using other)]
    rfl

theorem nanos_callTime_cons (own : s.call = i) (h : f v before = some s) :
    (callTime f i (v :: before)).nanos = s.time.nanos + (callTime f i before).nanos := by
  rw [callTime, spans, h, Option.toList_some, List.singleton_append,
    List.filter_cons_of_pos (by simpa using own), List.map_cons, Duration.total,
    Duration.nanos_add]
  rfl

theorem callTime_of_new (own : ∀ v before s, f v before = some s → s.call = v.caller)
    (h : ∀ u ∈ moves, u.caller ≠ i) : callTime f i moves = .zero := by
  induction moves with
  | nil => rfl
  | cons v before ih =>
    rw [List.forall_mem_cons] at h
    rw [callTime_cons_of_ne (own v before) h.1, ih h.2]

/-- The sum of all spans is that of the sums of the calls. -/
theorem nanos_total_spans (own : ∀ v before s, f v before = some s → s.call = v.caller) {n : Nat}
    (h : ∀ u ∈ moves, u.caller < n) :
    (Duration.total ((spans f moves).map Span.time)).nanos =
      ∑ i ∈ Finset.range n, (callTime f i moves).nanos := by
  induction moves with
  | nil => simp [spans, callTime, Duration.total, Duration.nanos_zero]
  | cons v before ih =>
    rw [List.forall_mem_cons] at h
    rw [spans, List.map_append, Duration.total_append, Duration.nanos_add, ih h.2]
    cases span : f v before with
    | none => simp [callTime_cons_of_none span, Duration.total, Duration.nanos_zero]
    | some s =>
      have here := own v before s span
      have each (i : CallId) : (callTime f i (v :: before)).nanos =
          (if i = v.caller then s.time.nanos else 0) + (callTime f i before).nanos := by
        split
        · next same => exact nanos_callTime_cons (here.trans same.symm) span
        · next other => rw [callTime_cons_of_ne (own v before) (Ne.symm other), Nat.zero_add]
      simp only [each, Finset.sum_add_distrib, Finset.sum_ite_eq', Finset.mem_range, h.1, if_true]
      simp [Duration.total]

end CallTime

/-! ## Waits lie apart -/

variable {id : PoolId} {source : DataSource} {policy : Policy} {r : Run} {e : Event} {t : Turn}
  {i : CallId} {l : Login} {start : Instant}

/-- From its beginning on, a call has had time for all its waits, one after the other: until it has
    gone to sleep again, if it sleeps, and until now otherwise. -/
structure HasTime (i : CallId) (start : Instant) (moves : List Move) : Prop where
  waited : (callTime Move.wait? i moves).nanos + start.nanos ≤
    ((asleepSince? i moves).getD (clock moves)).nanos
  since : (asleepSince? i moves).getD (clock moves) ≤ clock moves

namespace HasTime

/-- A call that does not have the lock waits for nothing, or it goes on waiting. -/
theorem aside (h : HasTime i start r.moves) (steady : (r.move e t).Steady)
    (other : Move.caller ⟨r.pool, e, t⟩ = i → Move.holds ⟨r.pool, e, t⟩ = false)
    (waits : callTime Move.wait? i (r.move e t).moves = callTime Move.wait? i r.moves) :
    HasTime i start (r.move e t).moves := by
  have later := clock_le_clock steady
  obtain ⟨waited, since⟩ := h
  have asleep : asleepSince? i (r.move e t).moves = asleepSince? i r.moves :=
    asleepSince?_cons_of_ne other
  cases slept : asleepSince? i r.moves with
  | none =>
    rw [slept] at waited asleep
    refine ⟨?_, by rw [asleep]; exact Nat.le_refl _⟩
    rw [waits, asleep]
    exact Nat.le_trans waited later
  | some moment =>
    rw [slept] at waited since asleep
    refine ⟨by rwa [waits, asleep], ?_⟩
    rw [asleep]
    exact Nat.le_trans since later

/-- A call that begins has waited for nothing. -/
theorem starts (h : Of (.opened id source policy) r)
    (began : Move.began? ⟨r.pool, e, t⟩ = some start) :
    HasTime (Move.caller ⟨r.pool, e, t⟩) start (r.move e t).moves := by
  obtain ⟨new, m, moment, rfl⟩ := Move.exists_of_began? began
  have none_earlier : ∀ u ∈ r.moves, u.caller ≠ Move.caller ⟨r.pool, e, t⟩ := fun u hu =>
    new ▸ Nat.ne_of_lt (h.caller_lt hu)
  have away : Move.holds ⟨r.pool, e, t⟩ = false := Move.holds_of_new h.callsOnce new
  have waits : callTime Move.wait? (Move.caller ⟨r.pool, e, t⟩) (r.move e t).moves = .zero := by
    rw [moves_move, callTime_cons_of_none (Move.wait?_of_away away),
      callTime_of_new (fun _ _ _ => call_of_wait?) none_earlier]
  have awake : asleepSince? (Move.caller ⟨r.pool, e, t⟩) (r.move e t).moves = none := by
    rw [moves_move, asleepSince?_cons_of_ne fun _ => away, asleepSince?_of_new none_earlier]
  have now : clock (r.move e t).moves = m.now := clock_cons_of_some moment
  refine ⟨?_, ?_⟩
  · rw [waits, awake, now]
    exact Nat.le_of_eq (Nat.zero_add _)
  · rw [awake]
    exact Nat.le_refl _

/-- A call that has the lock when it is dropped does not wait any more. -/
theorem dropped (h : HasTime (Move.caller ⟨r.pool, e, t⟩) start r.moves)
    (holds : Move.holds ⟨r.pool, e, t⟩ = true) (drop : Move.moment? ⟨r.pool, e, t⟩ = none) :
    HasTime (Move.caller ⟨r.pool, e, t⟩) start (r.move e t).moves := by
  have awake : asleepSince? (Move.caller ⟨r.pool, e, t⟩) (r.move e t).moves = none := by
    rw [moves_move, asleepSince?_cons_self holds, Move.fellAsleep?_of_dropped drop]
  have now : clock (r.move e t).moves = clock r.moves := clock_cons_of_none drop
  have waits : callTime Move.wait? (Move.caller ⟨r.pool, e, t⟩) (r.move e t).moves =
      callTime Move.wait? (Move.caller ⟨r.pool, e, t⟩) r.moves :=
    callTime_cons_of_none (Move.wait?_of_dropped drop)
  refine ⟨?_, ?_⟩
  · rw [waits, awake, now]
    exact Nat.le_trans h.waited h.since
  · rw [awake]
    exact Nat.le_refl _

/-- A call that has the lock has waited since it fell asleep, and before that it had already
    waited. -/
theorem wakes (h : HasTime (Move.caller ⟨r.pool, e, t⟩) start r.moves)
    (steady : (r.move e t).Steady) (holds : Move.holds ⟨r.pool, e, t⟩ = true) {m : Moment}
    (moment : Move.moment? ⟨r.pool, e, t⟩ = some m) :
    HasTime (Move.caller ⟨r.pool, e, t⟩) start (r.move e t).moves := by
  obtain ⟨waited, since⟩ := h
  have now : clock r.moves ≤ m.now := clock_le steady moment
  have asleep : (asleepSince? (Move.caller ⟨r.pool, e, t⟩) (r.move e t).moves).getD
      (clock (r.move e t).moves) = m.now := by
    rw [moves_move, asleepSince?_cons_self holds, clock_cons_of_some moment,
      Move.getD_fellAsleep? moment]
  have next : clock (r.move e t).moves = m.now := clock_cons_of_some moment
  refine ⟨?_, by rw [asleep, next]; exact Nat.le_refl _⟩
  rw [asleep, moves_move]
  -- If it was asleep, this turn ends a wait that began after all earlier ones had ended.
  cases slept : asleepSince? (Move.caller ⟨r.pool, e, t⟩) r.moves with
  | none =>
    rw [slept] at waited
    have none_waited : Move.wait? ⟨r.pool, e, t⟩ r.moves = none := by
      simp only [Move.wait?, holds, slept]
    rw [callTime_cons_of_none none_waited]
    exact Nat.le_trans waited now
  | some fell =>
    rw [slept] at waited since
    have wait : Move.wait? ⟨r.pool, e, t⟩ r.moves =
        some ⟨Move.caller ⟨r.pool, e, t⟩, fell, m.now⟩ := by
      simp only [Move.wait?, holds, slept, moment]
    rw [nanos_callTime_cons rfl wait]
    simp only [Option.getD_some, Span.time, Instant.nanos_since, Instant.le_iff] at *
    omega

end HasTime

namespace Of

/-- The waits of a call lie apart, after its beginning and before it has gone to sleep again. -/
theorem hasTime (h : Of (.opened id source policy) r) (steady : r.Steady)
    (began : beganAt? i r.moves = some start) : HasTime i start r.moves := by
  induction h generalizing start with
  | start => cases began
  | @move r e t h ht ih =>
    have before {start : Instant} : beganAt? i r.moves = some start → HasTime i start r.moves :=
      ih (steady_of_move steady)
    rw [moves_move] at began
    by_cases own : Move.caller ⟨r.pool, e, t⟩ = i
    · subst own
      cases starts : Move.began? ⟨r.pool, e, t⟩ with
      | some now =>
        obtain rfl := Option.some.inj ((beganAt?_cons_self starts).symm.trans began)
        exact .starts h starts
      | none =>
        have before := before (beganAt?_cons_of_none starts ▸ began)
        cases holds : Move.holds ⟨r.pool, e, t⟩ with
        | false =>
          exact before.aside steady (fun _ => holds)
            (callTime_cons_of_none (Move.wait?_of_away holds))
        | true =>
          cases moment : Move.moment? ⟨r.pool, e, t⟩ with
          | none => exact before.dropped holds moment
          | some m => exact before.wakes steady holds moment
    · exact (before (beganAt?_cons_of_ne own ▸ began)).aside steady (fun same => absurd same own)
        (callTime_cons_of_ne (fun _ => call_of_wait?) own)

/-- An acquisition that has handed out a connection has waited within its time, and it is over. -/
theorem waited_le_took (h : Of (.opened id source policy) r) (steady : r.Steady) {v : Move}
    (hv : v ∈ r.moves) {y : Handle} (issued : v.issued? = some y) :
    (callTime Move.wait? v.caller r.moves).nanos ≤
        (callTime Move.checkout? v.caller r.moves).nanos ∧ v.caller ∉ r.pool.calls := by
  induction h with
  | start => cases hv
  | @move r e t h ht ih =>
    have responds := Pool.responds_of_respond ht
    rcases List.mem_cons.1 hv with rfl | hv
    · obtain ⟨m, w, s, x, a, goes, acquires⟩ := exists_acquisition ht issued
      have began : beganAt? (Move.caller ⟨r.pool, e, t⟩) (r.move e t).moves = some a.startedAt := by
        rw [moves_move, beganAt?_cons_of_none goes.began?_eq]
        exact (h.remembers.works _ w (.holds goes.holds)).2 a acquires
      obtain ⟨waited, since⟩ := (h.move ht).hasTime steady began
      have waited := Nat.le_trans waited since
      have ended : x.outcome?.isSome := by
        obtain ⟨o, outcome, -⟩ := Option.bind_eq_some_iff.1 issued
        rw [← goes.outcome, outcome, Option.isSome_some]
      refine ⟨?_, goes.not_mem_calls h.callsOnce ended⟩
      rw [moves_move] at waited ⊢
      rw [clock_cons_of_some goes.moment?_eq] at waited
      rw [nanos_callTime_cons rfl (h.checkout?_of_issued goes acquires issued)]
      simp only [Span.time, Instant.nanos_since]
      omega
    · obtain ⟨waited, gone⟩ := ih (steady_of_move steady) hv
      have given := h.caller_lt hv
      -- A call that is over has no turn any more.
      have other : Move.caller ⟨r.pool, e, t⟩ ≠ v.caller := by
        intro same
        obtain ⟨new, -⟩ | active := Pool.caller_of_responds responds
        · exact Nat.ne_of_lt given (same.symm.trans new)
        · exact gone (same ▸ active)
      rw [moves_move, callTime_cons_of_ne (fun _ => call_of_wait?) other,
        callTime_cons_of_ne (fun _ => call_of_checkout?) other]
      exact ⟨waited, fun active =>
        gone ((Pool.follows_of_responds responds).mem_calls active given)⟩

/-- Whoever has waited for a connection has begun as an acquisition. -/
theorem acquires_of_waited (h : Of (.opened id source policy) r)
    (waited : callTime Move.wait? i r.moves ≠ .zero) : ∃ l, r.Acquires i l := by
  induction h with
  | start => exact absurd rfl waited
  | @move r e t h ht ih =>
    have earlier (before : ∃ l, r.Acquires i l) : ∃ l, (r.move e t).Acquires i l := by
      obtain ⟨l, u, hu, began⟩ := before
      exact ⟨l, u, List.mem_cons_of_mem _ hu, began⟩
    rw [moves_move] at waited
    by_cases own : Move.caller ⟨r.pool, e, t⟩ = i
    · -- A turn that ends a wait is one of the holder of the lock, whose work tells since when it
      -- slept.
      cases wait : Move.wait? ⟨r.pool, e, t⟩ r.moves with
      | none => exact earlier (ih (callTime_cons_of_none wait ▸ waited))
      | some s =>
        by_cases going : ∃ m w s x, Move.Continues ⟨r.pool, e, t⟩ m w s x
        · obtain ⟨m, w, s, x, goes⟩ := going
          rw [h.wait?_of_continues goes] at wait
          obtain ⟨since, slept, -⟩ := Option.map_eq_some_iff.1 wait
          obtain ⟨a, acquires⟩ := Work.exists_of_asleepSince? slept
          refine earlier ⟨a.login, h.acquires (.works (.holds (own ▸ goes.holds)) ?_)⟩
          rw [Work.login?_eq, acquires, Option.map_some]
        · push Not at going
          cases wait.symm.trans (h.no_span ht going).2
    · exact earlier (ih (callTime_cons_of_ne (fun _ => call_of_wait?) own ▸ waited))

/-- If all acquisitions have succeeded, they have not waited for longer than they have taken. -/
theorem waitTime_le (h : Of (.opened id source policy) r) (steady : r.Steady)
    (succeeded : ∀ v ∈ r.moves, ∀ l, r.Acquires v.caller l →
      v.event.isDrop = false ∧ ∀ cause, v.turn.outcome ≠ some (.failed cause))
    (concluded : ∀ i l, r.Acquires i l → i ∉ r.pool.calls) :
    r.pool.books.counters.waitTime ≤ r.pool.books.counters.requestTime := by
  have below : ∀ u ∈ r.moves, u.caller < r.pool.nextCall := fun u hu => h.caller_lt hu
  rw [h.spanTimes.1, h.spanTimes.2, Duration.le_iff,
    nanos_total_spans (fun _ _ _ => call_of_wait?) below,
    nanos_total_spans (fun _ _ _ => call_of_checkout?) below]
  -- Call by call: one that has waited is an acquisition, and it has succeeded, so its wait lies
  -- within its time.
  refine Finset.sum_le_sum fun i _ => ?_
  by_cases waited : callTime Move.wait? i r.moves = .zero
  · rw [waited]
    exact Nat.zero_le _
  · obtain ⟨l, acquires⟩ := h.acquires_of_waited waited
    obtain seeks | ⟨v, hv, rfl, ends⟩ := h.ended_or_seeks acquires
    · exact absurd seeks.mem_calls (concluded i l acquires)
    · obtain ⟨kept, sound⟩ := succeeded v hv l acquires
      cases ends with
      | succeeds issued => exact (h.waited_le_took steady hv issued).1
      | fails failed => exact absurd failed (sound _)
      | dropped dropped => cases kept.symm.trans dropped

end Of

/-- The sums of times of a run are accounted for, each time once. -/
structure AccountsTimes (r : Run) : Prop where
  /-- The checkout time is that of the leases that have been taken away, or back with an open
      connection. -/
  checkoutTime : r.pool.books.counters.checkoutTime =
    .total (r.reclaimed.map PastLease.time) + .total (r.takenBack.map PastLease.time)
  /-- The overdue time is the part of it that comes from the leases that have been taken away. -/
  overdueTime : r.pool.books.counters.overdueTime = .total (r.reclaimed.map PastLease.time)
  overdue_le : r.pool.books.counters.overdueTime ≤ r.pool.books.counters.checkoutTime
  /-- Each of these has been longer than a lease could last when it was taken away. -/
  late : ∀ v ∈ r.moves, ∀ l ∈ v.reclaimed, v.before.books.policy.maxCheckout < l.time
  /-- The time of a lease is that from the turn in which it was handed out to the turn in which it
      was taken out of the books. -/
  handed : ∀ later v before, r.moves = later ++ v :: before → ∀ l ∈ v.reclaimed ++ v.takenBack,
    l.entry ∈ v.takenOut ∧ (∃ m, v.moment? = some m ∧ l.endedAt = m.now) ∧
      (∃ u ∈ before, ∃ y m, u.issued? = some y ∧ y.toEntry = l.entry ∧ u.moment? = some m ∧
        l.entry.checkoutAt = m.now) ∧ l.entry.checkoutAt ≤ l.endedAt
  /-- Each lease that was ever given is in the books or has been taken out, and none has been so
      twice. -/
  leases : r.issued.map Handle.toEntry ~ r.pool.books.active ++ r.moves.flatMap Move.takenOut
  once : (r.moves.flatMap Move.takenOut).Nodup
  /-- The request time is made up of the times from the beginning of an acquisition to its
      hand-out. -/
  requestTime : r.pool.books.counters.requestTime =
    .total ((spans Move.checkout? r.moves).map Span.time)
  /-- Every hand-out has its time, and the acquisition has begun before it. -/
  served : ∀ later v before, r.moves = later ++ v :: before → ∀ y, v.issued? = some y →
    ∃ s, v.checkout? before = some s ∧ s.start ≤ s.stop
  /-- The wait time is made up of the times from when a caller gives up the lock to sleep to when it
      has it again. -/
  waitTime : r.pool.books.counters.waitTime = .total ((spans Move.wait? r.moves).map Span.time)
  waited : ∀ later v before, r.moves = later ++ v :: before → ∀ s, v.wait? before = some s →
    s.start ≤ s.stop
  /-- If no acquisition has failed or been dropped, and none is in progress, they have not waited
      for longer than they have taken. -/
  wait_le : (∀ v ∈ r.moves, ∀ l, r.Acquires v.caller l →
      v.event.isDrop = false ∧ ∀ cause, v.turn.outcome ≠ some (.failed cause)) →
    (∀ i l, r.Acquires i l → i ∉ r.pool.calls) →
      r.pool.books.counters.waitTime ≤ r.pool.books.counters.requestTime

end Run

/-- If the clock does not go back, the sums of times are accounted for, in every run. -/
theorem Pool.accounts_times (id : PoolId) (source : DataSource) (policy : Policy)
    (events : List Event) (steady : ((opened id source policy).run events).Steady) :
    ((opened id source policy).run events).AccountsTimes := by
  have h := (opened id source policy).of_run events
  generalize (opened id source policy).run events = r at h steady
  obtain ⟨checkoutTime, overdueTime⟩ := h.checkoutTimes
  obtain ⟨requestTime, waitTime⟩ := h.spanTimes
  refine ⟨checkoutTime, overdueTime, ?_, ?_, ?_, h.leases, h.takenOut_nodup, requestTime, ?_,
    waitTime, ?_, h.waitTime_le steady⟩
  · rw [checkoutTime, overdueTime]
    exact Nat.le_add_right _ _
  · rintro ⟨p, e, t⟩ hv l hl
    obtain ⟨r₀, h₀, rfl, ht⟩ := h.exists_before hv
    exact h₀.late ht hl
  · intro later v before split l hl
    obtain ⟨out, m, moment, ended⟩ := Move.exists_of_posted hl
    obtain ⟨r₀, h₀, rfl, pool, ht⟩ := h.cut split
    have leased : l.entry ∈ r₀.pool.books.active := pool ▸ List.mem_of_mem_filter out
    obtain ⟨u, hu, y, m', issued, same, moment', handed⟩ := h₀.handed leased
    refine ⟨out, ⟨m, moment, ended⟩, ⟨u, hu, y, m', issued, same, moment', handed⟩, ?_⟩
    rw [handed, ended]
    exact Run.le_of_steady steady split hu moment moment'
  · intro later v before split y issued
    obtain ⟨r₀, h₀, rfl, pool, ht⟩ := h.cut split
    obtain ⟨p, e, t⟩ := v
    subst pool
    obtain ⟨m, w, s, x, a, goes, acquires⟩ := Run.Of.exists_acquisition ht issued
    have began := (h₀.remembers.works _ w (.holds goes.holds)).2 a acquires
    obtain ⟨u, hu, starts⟩ := Run.exists_of_beganAt? began
    obtain ⟨-, m', moment', at_moment⟩ := Move.exists_of_began? starts
    refine ⟨_, h₀.checkout?_of_issued goes acquires issued, ?_⟩
    rw [← at_moment]
    exact Run.le_of_steady steady split hu goes.moment?_eq moment'
  · intro later v before split s wait
    obtain ⟨start, m, asleep, moment, rfl⟩ := Move.exists_of_wait? wait
    obtain ⟨u, hu, m', moment', rfl⟩ := Run.exists_of_asleepSince? asleep
    exact Run.le_of_steady steady split hu moment moment'

/-! ## A caller that waits -/

/-- The first call is handed out a connection at once. The second one begins three milliseconds
    later and waits for ten; then it takes the lease of the first away, which is overdue, and is handed
    out the connection after fifteen milliseconds. -/
def Event.waiting : List Event :=
  firstLease ++ [.start (.acquire .dataSource (some (.ofMillis 10))) (.plain 3 false),
    .resume 1 .proceed (.plain 3 false), .resume 1 .timeUp (.plain 13 false),
    .resume 1 .proceed (.plain 13 false), .resume 1 (.answered (.ok ())) (.plain 14 false),
    .resume 1 (.answered (.ok ())) (.plain 15 false)]

/-- Both acquisitions have succeeded, and the second one has waited for ten of the twelve
    milliseconds that it has taken. -/
theorem Pool.accounts_times_waiting :
    let r := (opened 0 {} .single).run Event.waiting
    r.Steady ∧ r.AccountsTimes ∧ r.issued.map (fun y => y.id) = [1, 1] ∧
      r.pool.books.counters.waitTime = .ofMillis 10 ∧
      r.pool.books.counters.requestTime = .ofMillis 12 ∧
      r.pool.books.counters.checkoutTime = .ofMillis 13 ∧
      r.pool.books.counters.overdueTime = .ofMillis 13 := by
  have steady : ((opened 0 {} .single).run Event.waiting).Steady := by
    unfold Run.Steady
    decide
  exact ⟨steady, accounts_times 0 {} .single Event.waiting steady, by decide, by decide, by decide,
    by decide, by decide⟩

end LeasePool
