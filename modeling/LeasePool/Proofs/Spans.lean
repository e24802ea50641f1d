import LeasePool.Proofs.Acquisitions
import LeasePool.Proofs.Times

/-!
# Spans of calls

The time that an acquisition takes is a span of a run: it begins with the turn in which the call
begins, and ends with that in which the connection is handed out. So is the time for which a caller
sleeps, from the turn in which it gives up the lock to that in which it has the lock again. Where
these spans begin is read off the moves of the run. The pool, on the other hand, has noted it with
the call, and what a call in progress knows of its past in this way is what has happened
(`Run.Remembers`).

* `Run.Of.remembers`: a call in progress knows since when it has been, and since when it has slept;
* `Run.Of.spanTimes`: the request time and the wait time are those of the spans of a run.
-/

namespace LeasePool

open scoped List

/-! ## Spans -/

/-- A span of time in the life of a call. -/
structure Span where
  call : CallId
  start : Instant
  stop : Instant

/-- How long a span is. -/
def Span.time (s : Span) : Duration := s.stop.since s.start

namespace Move

/-- The moment in which an acquisition begins, if one begins in a turn. -/
def began? (v : Move) : Option Instant :=
  match v.event with
  | .start (.acquire _ _) m => some m.now
  | _ => none

/-- Whether a turn is one of the call that holds the lock. -/
def holds (v : Move) : Bool := v.before.holder.any fun h => h.1 == v.caller

/-- The moment in which the caller has fallen asleep in a turn, if it has. -/
def fellAsleep? (v : Move) : Option Instant :=
  if v.after.sleepers.any fun s => s.id == v.caller then v.moment?.map Moment.now else none

end Move

namespace Run

/-- Since when a call has been an acquisition, after some moves. -/
def beganAt? (i : CallId) (moves : List Move) : Option Instant :=
  (moves.find? fun v => v.caller == i && v.began?.isSome).bind Move.began?

/-- Since when a call has given up the lock to sleep, if it has done so when it had the lock
    last. -/
def asleepSince? (i : CallId) (moves : List Move) : Option Instant :=
  (moves.find? fun v => v.caller == i && v.holds).bind Move.fellAsleep?

/-- The spans that end with the moves of a run. -/
def spans (f : Move → List Move → Option Span) : List Move → List Span
  | [] => []
  | v :: before => (f v before).toList ++ spans f before

end Run

namespace Move

open Run

/-- The time from the beginning of an acquisition to a turn in which it hands out a connection. -/
def checkout? (v : Move) (before : List Move) : Option Span :=
  match v.issued?, beganAt? v.caller before, v.moment? with
  | some _, some start, some m => some ⟨v.caller, start, m.now⟩
  | _, _, _ => none

/-- The time from when a caller gave up the lock to sleep to the turn in which it has the lock
    again. -/
def wait? (v : Move) (before : List Move) : Option Span :=
  match v.holds, asleepSince? v.caller before, v.moment? with
  | true, some start, some m => some ⟨v.caller, start, m.now⟩
  | _, _, _ => none

end Move

/-! ## What calls know of their past -/

namespace Move

variable {v : Move} {m : Moment} {w : Work} {s : Signal} {x : Ending}

theorem holds_iff : v.holds = true ↔ ∃ w, v.before.holder = some (v.caller, w) := by
  rw [holds, Option.any_eq_true]
  constructor
  · rintro ⟨⟨i, w⟩, held, same⟩
    obtain rfl : i = v.caller := beq_iff_eq.1 same
    exact ⟨w, held⟩
  · rintro ⟨w, held⟩
    exact ⟨_, held, beq_self_eq_true _⟩

theorem holds_eq_false (h : ∀ w, v.before.holder ≠ some (v.caller, w)) : v.holds = false := by
  rw [← Bool.not_eq_true, holds_iff]
  rintro ⟨w, held⟩
  exact h w held

/-- A call that begins does not have the lock. -/
theorem holds_of_new (once : v.before.CallsOnce) (new : v.caller = v.before.nextCall) :
    v.holds = false := by
  refine holds_eq_false fun w held => ?_
  have given := once.numbered _ (Pool.mem_calls_of_holder held)
  exact Nat.lt_irrefl _ (new ▸ given)

theorem Continues.holds_eq (h : v.Continues m w s x) : v.holds = true := holds_iff.2 ⟨w, h.holds⟩

/-- Whoever goes to sleep in a turn has fallen asleep in it. -/
theorem Continues.fellAsleep?_eq {a : Acquisition} {since : Instant} {limit : Option Duration}
    (h : v.Continues m w s (.asleep a since limit)) : v.fellAsleep? = some m.now := by
  have there : (⟨v.caller, a, since, limit⟩ : Sleeper) ∈ v.after.sleepers := by
    rw [h.sleepers_eq]
    exact List.mem_append_right _ (List.mem_singleton_self _)
  have asleep : (v.after.sleepers.any fun s => s.id == v.caller) = true :=
    List.any_eq_true.2 ⟨_, there, beq_self_eq_true v.caller⟩
  rw [fellAsleep?, if_pos asleep, h.moment?_eq, Option.map_some]

theorem Continues.began?_eq (h : v.Continues m w s x) : v.began? = none := by
  simp only [began?, h.event]

theorem exists_of_began? {start : Instant} (h : v.began? = some start) :
    v.caller = v.before.nextCall ∧ ∃ m, v.moment? = some m ∧ m.now = start := by
  unfold began? at h
  split at h
  · next m event =>
    refine ⟨by simp only [caller, event], m, by simp only [moment?, event], Option.some.inj h⟩
  · cases h

variable {before : List Move}

theorem exists_of_wait? {span : Span} (h : v.wait? before = some span) :
    ∃ start m, Run.asleepSince? v.caller before = some start ∧ v.moment? = some m ∧
      span = ⟨v.caller, start, m.now⟩ := by
  unfold wait? at h
  split at h
  · next start m held asleep moment => exact ⟨start, m, asleep, moment, (Option.some.inj h).symm⟩
  · cases h

theorem wait?_of_away (h : v.holds = false) : v.wait? before = none := by
  simp only [wait?, h]

theorem wait?_of_dropped (h : v.moment? = none) : v.wait? before = none := by
  unfold wait?
  split
  · next moment => cases h.symm.trans moment
  · rfl

theorem fellAsleep?_of_dropped (h : v.moment? = none) : v.fellAsleep? = none := by
  rw [fellAsleep?, h, Option.map_none, ite_self]

/-- Whoever falls asleep in a turn does so at its moment. -/
theorem getD_fellAsleep? (h : v.moment? = some m) : v.fellAsleep?.getD m.now = m.now := by
  rw [fellAsleep?, h]
  split <;> rfl

end Move

namespace Run

variable {i : CallId} {v : Move} {moves : List Move}

theorem exists_of_beganAt? {start : Instant} (h : beganAt? i moves = some start) :
    ∃ u ∈ moves, u.began? = some start := by
  obtain ⟨u, found, began⟩ := Option.bind_eq_some_iff.1 h
  exact ⟨u, List.mem_of_find?_eq_some found, began⟩

theorem exists_of_asleepSince? {start : Instant} (h : asleepSince? i moves = some start) :
    ∃ u ∈ moves, ∃ m, u.moment? = some m ∧ m.now = start := by
  obtain ⟨u, found, fell⟩ := Option.bind_eq_some_iff.1 h
  unfold Move.fellAsleep? at fell
  split at fell
  · exact ⟨u, List.mem_of_find?_eq_some found, Option.map_eq_some_iff.1 fell⟩
  · cases fell

theorem beganAt?_cons_of_none (h : v.began? = none) :
    beganAt? i (v :: moves) = beganAt? i moves := by
  rw [beganAt?, List.find?_cons_of_neg (by simp [h])]
  rfl

theorem beganAt?_cons_of_ne (h : v.caller ≠ i) : beganAt? i (v :: moves) = beganAt? i moves := by
  rw [beganAt?, List.find?_cons_of_neg (by simp [h])]
  rfl

theorem beganAt?_cons_self {start : Instant} (h : v.began? = some start) :
    beganAt? v.caller (v :: moves) = some start := by
  rw [beganAt?, List.find?_cons_of_pos (by simp [h]), Option.bind_some, h]

/-- A call in progress does not begin. -/
theorem beganAt?_cons_of_lt (h : i < v.before.nextCall) :
    beganAt? i (v :: moves) = beganAt? i moves := by
  cases began : v.began? with
  | none => exact beganAt?_cons_of_none began
  | some start =>
    exact beganAt?_cons_of_ne fun same =>
      Nat.ne_of_lt h (same.symm.trans (Move.exists_of_began? began).1)

theorem asleepSince?_of_new (h : ∀ u ∈ moves, u.caller ≠ i) : asleepSince? i moves = none := by
  rw [asleepSince?, List.find?_eq_none.2 fun u hu => by simp [h u hu], Option.bind_none]

theorem asleepSince?_cons_of_ne (h : v.caller = i → v.holds = false) :
    asleepSince? i (v :: moves) = asleepSince? i moves := by
  rw [asleepSince?, List.find?_cons_of_neg (by simpa using h)]
  rfl

theorem asleepSince?_cons_self (h : v.holds = true) :
    asleepSince? v.caller (v :: moves) = v.fellAsleep? := by
  rw [asleepSince?, List.find?_cons_of_pos (by simp [h]), Option.bind_some]

end Run

/-- Only an acquisition has slept. -/
theorem Work.exists_of_asleepSince? {w : Work} {since : Instant} (h : w.asleepSince? = some since) :
    ∃ a, w.acquisition? = some a := by
  cases w with
  | begin intent =>
    cases intent with
    | awaken a since => exact ⟨a, rfl⟩
    | _ => cases h
  | _ => cases h

/-- Since when a call has slept that goes to sleep or is going to look again. -/
def Ending.asleepSince? : Ending → Option Instant
  | .work w => w.asleepSince?
  | .asleep _ since _ => some since
  | _ => none

namespace Acquisition

variable {m : Moment} {a : Acquisition} {e : Entry} {b b' : Books} {g : Generations} {x : Ending}

theorem Retries.awake (h : a.Retries b x) : x.asleepSince? = none := by
  cases h <;> rfl

theorem Refuses.awake (h : a.Refuses m e b b' x) : x.asleepSince? = none := by
  cases h with
  | gone closed retries => exact retries.awake
  | discard is_open => rfl

theorem Accepts.awake (h : a.Accepts m e b b' x) : x.asleepSince? = none := by
  cases h <;> rfl

theorem Examines.awake (h : a.Examines m e b g b' x) : x.asleepSince? = none := by
  cases h with
  | test query => rfl
  | accept accepts => exact accepts.awake
  | refuse bad refuses => exact refuses.awake

theorem Looks.awake (h : a.Looks m b g b' x) :
    x.asleepSince? = none ∨ ∃ a limit, x = .asleep a m.now limit := by
  cases h with
  | take found examines => exact .inl examines.awake
  | claim none_idle full overdue commits examines => exact .inl examines.awake
  | sleep none_idle full none_overdue time => exact .inr ⟨_, _, rfl⟩
  | _ => exact .inl rfl

end Acquisition

namespace Pool

variable {p : Pool} {m : Moment} {w : Work} {s : Signal} {b : Books} {x : Ending}

/-- Whoever falls asleep does so at the moment of its turn, and all others are awake. -/
theorem Sequel.awake (h : p.Sequel m w s b x) :
    x.asleepSince? = none ∨ ∃ a limit, x = .asleep a m.now limit := by
  have undone {e : Entry} {b₀ : Books} {keep : Bool} {returnedAt : Instant}
      {result : Except PoolError Unit} (h : e.Undone b₀ keep returnedAt result b x) :
      x.asleepSince? = none := by
    cases h <;> rfl
  have cleared {rest : List Entry} (h : Reset.Clears m rest x) : x.asleepSince? = none := by
    cases h <;> rfl
  cases h with
  | look looks => exact looks.awake
  | awaken looks => exact looks.awake
  | takeBack found current returned =>
    cases returned with
    | commit is_open commits h => exact .inl (undone h)
    | _ => exact .inl rfl
  | reset accepted clears => exact .inl (cleared clears)
  | opened examines => exact .inl examines.awake
  | reclaimed examines => exact .inl examines.awake
  | passed phase accepts => exact .inl accepts.awake
  | failed phase refuses => exact .inl refuses.awake
  | unprepared refuses => exact .inl refuses.awake
  | discarded retries => exact .inl retries.awake
  | undone h => exact .inl (undone h)
  | resetClosed clears => exact .inl (cleared clears)
  | _ => exact .inl rfl

end Pool

namespace Run

variable {id : PoolId} {source : DataSource} {policy : Policy} {r : Run} {e : Event} {t : Turn}
  {i : CallId}

/-- What a call in progress knows of its past is what has happened: since when it has been an
    acquisition, and since when it has slept. -/
structure Remembers (r : Run) : Prop where
  works : ∀ i w, r.pool.Doing i w → asleepSince? i r.moves = w.asleepSince? ∧
    ∀ a, w.acquisition? = some a → beganAt? i r.moves = some a.startedAt
  sleeps : ∀ c ∈ r.pool.sleeping, asleepSince? c.id r.moves = some c.asleepSince ∧
    beganAt? c.id r.moves = some c.acquisition.startedAt

namespace Remembers

variable {m : Moment} {w : Work} {s : Signal} {x : Ending} {c : Sleeper}

/-- To a call in progress whose turn it is not, or that does not have the lock, nothing happens that
    it has to remember. -/
theorem aside (once : r.pool.CallsOnce) (active : i ∈ r.pool.calls)
    (other : Move.caller ⟨r.pool, e, t⟩ = i → ∀ w, r.pool.holder ≠ some (i, w)) :
    asleepSince? i (r.move e t).moves = asleepSince? i r.moves ∧
      beganAt? i (r.move e t).moves = beganAt? i r.moves := by
  refine ⟨asleepSince?_cons_of_ne fun same => ?_, beganAt?_cons_of_lt (once.numbered i active)⟩
  exact Move.holds_eq_false fun w held => other same w (same ▸ held)

/-- So it is with a caller that sleeps, which remembers what it knew. -/
theorem resting (h : r.Remembers) (once : r.pool.CallsOnce) (asleep : c ∈ r.pool.sleeping) :
    asleepSince? c.id (r.move e t).moves = some c.asleepSince ∧
      beganAt? c.id (r.move e t).moves = some c.acquisition.startedAt := by
  obtain ⟨since, began⟩ := aside (e := e) (t := t) once (Pool.mem_calls_of_sleeping asleep)
    fun _ w held => once.not_sleeping held asleep rfl
  rw [since, began]
  exact h.sleeps c asleep

/-- A call that has had the lock has been an acquisition for as long as it was before. -/
theorem began (h : r.Remembers) (goes : Move.Continues ⟨r.pool, e, t⟩ m w s x)
    (on : x.outcome? = none) {a : Acquisition} (acquires : x.acquisition? = some a) :
    beganAt? (Move.caller ⟨r.pool, e, t⟩) (r.move e t).moves = some a.startedAt := by
  have same := goes.sequel.remains.startedAt on
  rw [acquires, Option.map_some] at same
  obtain ⟨a₀, acquires₀, startedAt⟩ := Option.map_eq_some_iff.1 same.symm
  rw [moves_move, beganAt?_cons_of_none goes.began?_eq, ← startedAt]
  exact (h.works _ w (.holds goes.holds)).2 a₀ acquires₀

/-- A call that keeps its work, and has not been dropped, does not have the lock in its turn. -/
theorem not_holder (ht : r.pool.respond e = some t) (once : r.pool.CallsOnce)
    (doing : t.pool.Doing i w)
    (others : ∀ m w s x, Move.Continues ⟨r.pool, e, t⟩ m w s x → Move.caller ⟨r.pool, e, t⟩ ≠ i)
    (same : Move.caller ⟨r.pool, e, t⟩ = i) (w₀ : Work) : r.pool.holder ≠ some (i, w₀) := by
  intro held
  cases (Pool.responds_of_respond ht).affects once with
  | goesOn goes => exact others _ _ _ _ goes same
  | @dropped j w₁ event held' turn =>
    obtain ⟨q, dropped, -, queue, -⟩ := r.pool.exists_dropWork w₁
    rw [turn, dropped] at doing
    cases doing.of_passLock with
    | holds holds => cases holds
    | queued queued => exact Pool.Doing.not_queued once.once held _ (queue ▸ queued)
  | aside other custody holder sleepers => exact other w₀ (same ▸ held)

/-- A call that has just begun has not slept. -/
theorem starts (h : Of (.opened id source policy) r) {op : Op} {intent : Intent}
    (intends : op.intent? m = some intent) :
    asleepSince? r.pool.nextCall (r.move (.start op m) t).moves = (Work.begin intent).asleepSince? ∧
      ∀ a, (Work.begin intent).acquisition? = some a →
        beganAt? r.pool.nextCall (r.move (.start op m) t).moves = some a.startedAt := by
  have none_since : asleepSince? r.pool.nextCall r.moves = none :=
    asleepSince?_of_new fun u hu => Nat.ne_of_lt (h.caller_lt hu)
  have idle : Move.holds ⟨r.pool, .start op m, t⟩ = false := Move.holds_of_new h.callsOnce rfl
  rw [moves_move, asleepSince?_cons_of_ne fun _ => idle, none_since]
  cases op with
  | acquire login timeout =>
    cases intends
    refine ⟨rfl, fun a acquires => ?_⟩
    cases acquires
    exact beganAt?_cons_self rfl
  | release | reset | inquire =>
    cases intends
    exact ⟨rfl, fun a acquires => by cases acquires⟩
  | probe | rollback => cases intends

/-- A call that goes on with some work has not fallen asleep. -/
theorem goesOn (h : Of (.opened id source policy) r) (ht : r.pool.respond e = some t)
    (goes : Move.Continues ⟨r.pool, e, t⟩ m w s (.work w')) :
    asleepSince? (Move.caller ⟨r.pool, e, t⟩) (r.move e t).moves = w'.asleepSince? := by
  have awake : w'.asleepSince? = none := by
    obtain awake | ⟨a, limit, asleep⟩ := goes.sequel.awake
    · exact awake
    · cases asleep
  rw [moves_move, asleepSince?_cons_self goes.holds_eq, awake, Move.fellAsleep?, if_neg]
  rw [List.any_eq_true]
  rintro ⟨c, asleep, same⟩
  exact (h.callsOnce.respond ht).not_sleeping goes.holder_work (List.mem_append_left _ asleep)
    (beq_iff_eq.1 same)

/-- The calls know when they have begun and since when they have slept, after every turn. -/
theorem move (h : Of (.opened id source policy) r) (ht : r.pool.respond e = some t)
    (before : r.Remembers) : (r.move e t).Remembers := by
  have once := h.callsOnce
  -- What is remembered is carried by the work or by the sleeper. Only the turns of a call itself
  -- can change it.
  refine ⟨fun i w doing => ?_, fun c asleep => ?_⟩
  · cases Pool.comes_of_respond ht once doing with
    | stays was others =>
      obtain ⟨since, began⟩ := aside once was.mem_calls (not_holder ht once doing others)
      rw [since, began]
      exact before.works i w was
    | goesOn goes caller =>
      subst caller
      exact ⟨goesOn h ht goes, fun a acquires => before.began goes rfl acquires⟩
    | @starts op m intent event new intends own =>
      subst new event
      exact starts h intends
    | wakes asleep caller =>
      subst caller
      obtain ⟨since, began⟩ := before.resting once asleep
      refine ⟨since, fun a acquires => ?_⟩
      cases acquires
      exact began
  · obtain old | ⟨new, m, w, s, goes⟩ := Pool.mem_sleeping_of_respond ht asleep
    · exact before.resting once old
    · rw [new]
      refine ⟨?_, before.began goes rfl rfl⟩
      obtain awake | ⟨a, limit, falls⟩ := goes.sequel.awake
      · cases awake
      injection falls with _ since _
      rw [moves_move, asleepSince?_cons_self goes.holds_eq, goes.fellAsleep?_eq, since]

end Remembers

namespace Of

theorem remembers (h : Of (.opened id source policy) r) : r.Remembers := by
  induction h with
  | start =>
    refine ⟨fun i w doing => ?_, fun c asleep => absurd asleep List.not_mem_nil⟩
    cases doing.mem_calls
  | move h ht ih => exact ih.move h ht

/-- Every hand-out is that of an acquisition that has begun. -/
theorem exists_acquisition (ht : r.pool.respond e = some t) {y : Handle}
    (issued : Move.issued? ⟨r.pool, e, t⟩ = some y) : ∃ m w s x a,
      Move.Continues ⟨r.pool, e, t⟩ m w s x ∧ w.acquisition? = some a := by
  obtain ⟨m, w, s, x, goes, lends⟩ := (Pool.responds_of_respond ht).lends issued
  generalize t.pool.books = b at lends
  cases lends with
  | prepared same => exact ⟨m, _, _, x, _, goes, rfl⟩
  | commits acquires same commits => exact ⟨m, _, _, x, _, goes, acquires⟩

/-- A hand-out ends the span that has begun with its acquisition. -/
theorem checkout?_of_issued (h : Of (.opened id source policy) r)
    {m : Moment} {w : Work} {s : Signal} {x : Ending} {a : Acquisition} {y : Handle}
    (goes : Move.Continues ⟨r.pool, e, t⟩ m w s x) (acquires : w.acquisition? = some a)
    (issued : Move.issued? ⟨r.pool, e, t⟩ = some y) :
    Move.checkout? ⟨r.pool, e, t⟩ r.moves =
      some ⟨Move.caller ⟨r.pool, e, t⟩, a.startedAt, m.now⟩ := by
  have began := (h.remembers.works _ w (.holds goes.holds)).2 a acquires
  simp only [Move.checkout?, issued, began, goes.moment?_eq]

/-- The holder of the lock ends the span in which it has slept, if it has. -/
theorem wait?_of_continues (h : Of (.opened id source policy) r) {m : Moment} {w : Work}
    {s : Signal} {x : Ending} (goes : Move.Continues ⟨r.pool, e, t⟩ m w s x) :
    Move.wait? ⟨r.pool, e, t⟩ r.moves =
      w.asleepSince?.map fun since => ⟨Move.caller ⟨r.pool, e, t⟩, since, m.now⟩ := by
  have since := (h.remembers.works _ w (.holds goes.holds)).1
  simp only [Move.wait?, goes.holds_eq, goes.moment?_eq, since]
  cases w.asleepSince? <;> rfl

/-- In a turn in which the holder of the lock does not go on, no span ends. -/
theorem no_span (h : Of (.opened id source policy) r) (ht : r.pool.respond e = some t)
    (idle : ∀ m w s x, ¬ Move.Continues ⟨r.pool, e, t⟩ m w s x) :
    Move.checkout? ⟨r.pool, e, t⟩ r.moves = none ∧ Move.wait? ⟨r.pool, e, t⟩ r.moves = none := by
  have silent := (h.idle_move ht idle).2.2.2.2
  refine ⟨by simp only [Move.checkout?, silent], ?_⟩
  cases (Pool.responds_of_respond ht).affects h.callsOnce with
  | goesOn goes => exact absurd goes (idle _ _ _ _)
  | dropped event holds turn =>
    subst event
    exact Move.wait?_of_dropped rfl
  | aside other custody holder sleepers => exact Move.wait?_of_away (Move.holds_eq_false other)

/-- The request time is made up of the times from the beginning of an acquisition to its hand-out,
    and the wait time of the times for which callers have slept. -/
theorem spanTimes (h : Of (.opened id source policy) r) :
    r.pool.books.counters.requestTime = .total ((spans Move.checkout? r.moves).map Span.time) ∧
      r.pool.books.counters.waitTime = .total ((spans Move.wait? r.moves).map Span.time) := by
  induction h with
  | start => exact ⟨rfl, rfl⟩
  | @move r e t h ht ih =>
    rw [pool_move, moves_move, spans, spans, List.map_append, List.map_append,
      Duration.total_append, Duration.total_append]
    by_cases going : ∃ m w s x, Move.Continues ⟨r.pool, e, t⟩ m w s x
    · obtain ⟨m, w, s, x, goes⟩ := going
      have adds := h.adds_move ht goes
      have took : (Move.checkout? ⟨r.pool, e, t⟩ r.moves).toList.map Span.time = w.took m x := by
        rw [Work.took, goes.leased_eq]
        cases issued : Move.issued? ⟨r.pool, e, t⟩ with
        | none => simp [Move.checkout?, issued]
        | some y =>
          obtain ⟨m', w', s', x', a, goes', acquires⟩ := exists_acquisition ht issued
          obtain ⟨-, rfl⟩ := Pool.holder_unique goes.holds goes'.holds
          rw [h.checkout?_of_issued goes acquires issued, acquires]
          rfl
      have slept : (Move.wait? ⟨r.pool, e, t⟩ r.moves).toList.map Span.time =
          w.asleepSince?.toList.map m.now.since := by
        rw [h.wait?_of_continues goes]
        cases w.asleepSince? <;> rfl
      rw [adds.requestTime, adds.waitTime, took, slept, ih.1, ih.2]
      exact ⟨Duration.add_comm .., Duration.add_comm ..⟩
    · push Not at going
      obtain ⟨none_out, none_awake⟩ := h.no_span ht going
      rw [none_out, none_awake, (h.idle_move ht going).1, Option.toList_none, List.map_nil,
        Duration.total, Duration.zero_add, Duration.zero_add]
      exact ih

end Of

end Run

end LeasePool
