import LeasePool.Proofs.Outcomes

/-!
# Deadlines

An acquisition with a timeout gives up when it looks at the books after its deadline and no
connection is to be had, and at no other time. Until then it sleeps, but never beyond its deadline,
and never for longer than the policy lets it. Its deadline does not matter to a connection that is to
be had: what it finds it takes, and it hands that out unless it has a reason to reject it.

An acquisition without a timeout never gives up in this way. It sleeps for as long as the policy
lets it, and until it is roused if that sets no limit.

* `Acquisition.Looks.takes`: what an acquisition does if a connection is to be had;
* `Run.Of.sleepsInTime`: for how long a caller falls asleep;
* `Pool.respects_deadlines`: the deadlines are respected in every run.
-/

namespace LeasePool

open scoped List

namespace Acquisition

/-! ## For how long a caller sleeps -/

variable {maxWait d : Duration} {remaining : Option Duration}

theorem sleepLimit_le_remaining (maxWait d : Duration) :
    ∃ l, sleepLimit maxWait (some d) = some l ∧ l ≤ d := by
  unfold sleepLimit
  split
  · exact ⟨d, rfl, Nat.le_refl _⟩
  · exact ⟨_, rfl, Nat.min_le_right _ _⟩

theorem sleepLimit_le_maxWait (remaining : Option Duration) (h : maxWait ≠ .zero) :
    ∃ l, sleepLimit maxWait remaining = some l ∧ l ≤ maxWait := by
  have some_wait : maxWait.isZero ≠ true := fun zero => h (congrArg Duration.mk (beq_iff_eq.1 zero))
  unfold sleepLimit
  rw [if_neg some_wait]
  cases remaining with
  | none => exact ⟨_, rfl, Nat.le_refl _⟩
  | some d => exact ⟨_, rfl, Nat.min_le_left _ _⟩

theorem sleepLimit_eq_none_iff : sleepLimit maxWait none = none ↔ maxWait = .zero := by
  constructor
  · intro unlimited
    by_contra some_wait
    obtain ⟨l, limited, -⟩ := sleepLimit_le_maxWait none some_wait
    cases unlimited.symm.trans limited
  · rintro rfl
    rfl

/-! ## What it does if a connection is to be had -/

variable {a : Acquisition} {m : Moment} {b b' : Books} {g : Generations} {x : Ending}

/-- An acquisition that looks at the books when a connection is to be had finds a candidate, or it
    opens a connection. -/
theorem Looks.takes (h : a.Looks m b g b' x) (available : ¬ b.Exhausted m.now) :
    (∃ e, e ∈ b.candidates m.now) ∨ x = .work (.connect a m.now) := by
  have exhausted (none_idle : b.takeIdle? = none) (full : b.canOpen = false)
      (none_overdue : b.claimOverdue? m.now = none) : b.Exhausted m.now :=
    ⟨Books.takeIdle?_eq_none.1 none_idle, Books.canOpen_eq_false.1 full, none_overdue⟩
  cases h with
  | take found examines => exact .inl ⟨_, Books.mem_candidates_of_takeIdle? found⟩
  | connect none_idle room => exact .inr rfl
  | reclaim none_idle full overdue uncommitted =>
    exact .inl ⟨_, Books.mem_candidates_of_claimOverdue? none_idle full overdue⟩
  | claim none_idle full overdue commits examines =>
    exact .inl ⟨_, Books.mem_candidates_of_claimOverdue? none_idle full overdue⟩
  | timeOut none_idle full none_overdue elapsed =>
    exact absurd (exhausted none_idle full none_overdue) available
  | sleep none_idle full none_overdue time =>
    exact absurd (exhausted none_idle full none_overdue) available

end Acquisition

/-- In a turn an acquisition takes a candidate out of the books: it rejects it, hands it out, or has
    it in hand. -/
def Move.TakesUp (v : Move) (e : Entry) : Prop :=
  e.name ∈ v.rejected ∨ (∃ y, v.issued? = some y ∧ y.name = e.name) ∨
    ∃ c ∈ v.after.hand.held, c.name = e.name

/-- An acquisition that looks at the books finds their candidates. -/
theorem Intent.found_eq {intent : Intent} {a : Acquisition} (h : intent.acquisition? = some a)
    (b : Books) (now : Instant) : (Work.begin intent).found b now = b.candidates now := by
  cases intent with
  | acquire | awaken => rfl
  | _ => cases h

namespace Pool

variable {p : Pool} {m : Moment} {intent : Intent} {s : Signal} {b : Books} {x : Ending}
  {a : Acquisition}

/-- If a connection is to be had, there is a candidate, or one is asked for. -/
theorem Sequel.takes (h : p.Sequel m (.begin intent) s b x)
    (acquires : intent.acquisition? = some a) (available : ¬ p.books.Exhausted m.now) :
    (∃ e, e ∈ p.books.candidates m.now) ∨ x = .work (.connect a m.now) := by
  cases h with
  | look looks =>
    cases acquires
    exact looks.takes available
  | awaken looks =>
    cases acquires
    refine looks.takes fun exhausted => available ?_
    exact ⟨exhausted.none_idle, exhausted.full,
      Books.claimOverdue?_addWaitTime exhausted.none_overdue⟩
  | _ => cases acquires

end Pool

/-! ## Runs -/

namespace Run

variable {id : PoolId} {source : DataSource} {policy : Policy} {r : Run} {e : Event} {t : Turn}
  {i : CallId} {m : Moment} {w : Work} {s : Signal} {x : Ending} {a : Acquisition}
  {timeout : Option Duration} {since : Instant}

/-- In the turn `v`, the acquisition that has begun at `since`, with a timeout or none, falls asleep
    when no connection is to be had, and it does not sleep for too long. -/
structure SleepsInTime (v : Move) (timeout : Option Duration) (since : Instant) (c : Sleeper) :
    Prop where
  falls : v.FallsAsleep c
  /-- Its deadline is still to come, and it sleeps until then at most. -/
  limited : ∀ d, timeout = some d → ¬ since.after d ≤ c.asleepSince ∧
    ∃ l, c.limit = some l ∧ c.asleepSince.after l ≤ since.after d
  /-- If the policy limits how long it sleeps, it sleeps no longer. -/
  patient : v.before.books.policy.maxWait ≠ .zero →
    ∃ l, c.limit = some l ∧ l ≤ v.before.books.policy.maxWait
  /-- Without a timeout, nothing else limits how long it sleeps. -/
  unlimited : timeout = none → (c.limit = none ↔ v.before.books.policy.maxWait = .zero)

/-- The acquisitions of a run respect their deadlines. -/
structure RespectsDeadlines (r : Run) : Prop where
  /-- An acquisition times out only if it looks at the books after its deadline, and no connection
      is to be had; unless the factory itself has refused it a connection with such an error, which
      it passes on. -/
  timesOut : ∀ later v before timeout since text, r.moves = later ++ v :: before →
    BeginsAcquiring before v.caller timeout since →
    v.turn.outcome = some (.failed (.timeout text)) →
    v.refusal? = some (.timeout text) ∨ ∃ d intent m, timeout = some d ∧
      v.begun? = some (intent, m) ∧ since.after d ≤ m.now ∧ v.before.books.Exhausted m.now
  /-- When no connection is to be had, no lease at all is overdue. -/
  none_overdue : r.Steady → ∀ v ∈ r.moves, ∀ m, v.moment? = some m →
    v.before.books.Exhausted m.now →
    ∀ e ∈ v.before.books.active, e.checkoutTime m.now ≤ v.before.books.policy.maxCheckout
  /-- Whoever falls asleep does not sleep for too long. -/
  sleeps : ∀ later v before timeout since c, r.moves = later ++ v :: before →
    c ∈ v.after.sleepers → c ∉ v.before.sleepers → BeginsAcquiring before c.id timeout since →
    SleepsInTime v timeout since c
  /-- If a connection is to be had, an acquisition that looks at the books neither falls asleep nor
      times out, whatever its deadline is: it takes a candidate, or it opens a connection. -/
  takes : ∀ v ∈ r.moves, ∀ intent m, v.begun? = some (intent, m) → intent.purpose = .acquire →
    ¬ v.before.books.Exhausted m.now →
    v.fellAsleep? = none ∧ (∀ text, v.turn.outcome ≠ some (.failed (.timeout text))) ∧
      ((∃ e ∈ v.before.books.candidates m.now, v.TakesUp e) ∨
        v.asked? = some (.connect v.after.books.source))
  /-- When an acquisition is over, it has handed out every candidate that it has not rejected. -/
  handsOut : ∀ later v before timeout since, r.moves = later ++ v :: before →
    BeginsAcquiring before v.caller timeout since → v.turn.outcome.isSome →
    (turnsOf v.caller (v :: before)).flatMap Move.candidates ~
      (turnsOf v.caller (v :: before)).flatMap Move.rejected ++
        (v.issued?.map fun y => y.name).toList
  /-- It has rejected none without a reason. -/
  refuted : ∀ v ∈ r.moves, ∀ o ∈ v.rejected, v.Refutes o.2

namespace Of

/-- An acquisition times out only after its deadline. -/
theorem timesOut (h : Of (.opened id source policy) r) (ht : r.pool.respond e = some t)
    (begins : BeginsAcquiring r.moves (Move.caller ⟨r.pool, e, t⟩) timeout since) {text : String}
    (failed : t.outcome = some (.failed (.timeout text))) :
    let v : Move := ⟨r.pool, e, t⟩
    v.refusal? = some (.timeout text) ∨ ∃ d intent m, timeout = some d ∧
      v.begun? = some (intent, m) ∧ since.after d ≤ m.now ∧ r.pool.books.Exhausted m.now := by
  intro v
  obtain ⟨m, w, s, x, a, goes, acquires, deadline⟩ :=
    h.continues_of_begins ht begins (by rw [failed]; rfl)
  have fails := goes.sequel.fails acquires (goes.outcome.symm.trans failed)
  -- The error is what the factory has said, the limit on bad connections, or the deadline, and of
  -- these only the first and the last can be a timeout.
  generalize cause : PoolError.timeout text = c at fails
  cases fails with
  | refused =>
    subst cause
    exact .inl goes.refusal?_eq
  | exhausted kept => cases cause
  | @late intent same exhausted elapsed =>
    obtain ⟨time, is_deadline, passed⟩ := Acquisition.elapsed_iff.1 elapsed
    obtain ⟨d, limited, rfl⟩ := Option.map_eq_some_iff.1 (deadline.symm.trans is_deadline)
    exact .inr ⟨d, intent, m, limited, goes.begun?_eq, passed, exhausted⟩

/-- Whoever falls asleep has time left, and sleeps until its deadline at most. -/
theorem sleepsInTime (h : Of (.opened id source policy) r) (ht : r.pool.respond e = some t)
    {c : Sleeper} (asleep : c ∈ t.pool.sleepers) (awake : c ∉ r.pool.sleepers)
    (begins : BeginsAcquiring r.moves c.id timeout since) :
    SleepsInTime ⟨r.pool, e, t⟩ timeout since c := by
  have falls := ((Pool.responds_of_respond ht).fallsAsleep h.callsOnce asleep).resolve_left awake
  -- It has fallen asleep in this very turn, and the turn knows the deadline and the limit.
  have fell : (Move.fellAsleep? ⟨r.pool, e, t⟩).isSome = true := by
    obtain ⟨intent, m, begun, -, -⟩ := falls.begun
    obtain ⟨x, goes⟩ := (Pool.responds_of_respond ht).begins begun
    have there : ((Move.after ⟨r.pool, e, t⟩).sleepers.any
        fun s => s.id == Move.caller ⟨r.pool, e, t⟩) = true :=
      List.any_eq_true.2 ⟨c, asleep, beq_iff_eq.2 falls.caller.symm⟩
    rw [Move.fellAsleep?, if_pos there, goes.moment?_eq]
    rfl
  obtain ⟨m, w, s, a, a', since', limit, goes, naps⟩ := h.naps_of_fellAsleep ht fell
  have sleepers := goes.sleepers_eq
  rw [Move.after] at sleepers
  rw [sleepers] at asleep
  obtain rfl := List.mem_singleton.1 ((List.mem_append.1 asleep).resolve_left awake)
  obtain ⟨a₁, acquires, deadline⟩ := (h.move ht).acquires_of_begins begins
    (fun _ => List.mem_cons_of_mem _) split_last falls.caller goes
  obtain ⟨intent, rfl, same⟩ := naps.begun
  obtain rfl : a = a₁ := Option.some.inj (same.symm.trans acquires)
  obtain ⟨-, -, rfl, -, time, rfl⟩ := naps
  refine ⟨falls, ?_, fun some_wait => Acquisition.sleepLimit_le_maxWait _ some_wait, ?_⟩
  · rintro d rfl
    have remaining : a.remaining m.now = some ((since.after d).since m.now) := by
      rw [Acquisition.remaining, deadline]
      rfl
    -- Had the deadline passed, it would have timed out instead.
    have to_come : ¬ since.after d ≤ m.now := by
      intro passed
      cases time.symm.trans (Acquisition.elapsed_iff.2 ⟨_, deadline, passed⟩)
    obtain ⟨l, limit, le⟩ :=
      Acquisition.sleepLimit_le_remaining r.pool.books.policy.maxWait ((since.after d).since m.now)
    refine ⟨to_come, l, by rw [remaining, limit], ?_⟩
    simp only [Instant.le_iff, Duration.le_iff, Instant.nanos_after, Instant.nanos_since] at *
    omega
  · rintro rfl
    have remaining : a.remaining m.now = none := by
      rw [Acquisition.remaining, deadline]
      rfl
    change Acquisition.sleepLimit _ (a.remaining m.now) = none ↔ _
    rw [remaining]
    exact Acquisition.sleepLimit_eq_none_iff

/-- If a connection is to be had, an acquisition that looks at the books gets on. -/
theorem takes (h : Of (.opened id source policy) r) (ht : r.pool.respond e = some t)
    {intent : Intent} (begun : Move.begun? ⟨r.pool, e, t⟩ = some (intent, m))
    (acquire : intent.purpose = .acquire) (available : ¬ r.pool.books.Exhausted m.now) :
    let v : Move := ⟨r.pool, e, t⟩
    v.fellAsleep? = none ∧ (∀ text, t.outcome ≠ some (.failed (.timeout text))) ∧
      ((∃ e ∈ r.pool.books.candidates m.now, v.TakesUp e) ∨
        v.asked? = some (.connect t.pool.books.source)) := by
  intro v
  obtain ⟨x, goes⟩ := (Pool.responds_of_respond ht).begins begun
  obtain ⟨a, acquires⟩ := intent.exists_acquisition acquire
  refine ⟨?_, fun text failed => ?_, ?_⟩
  · rw [← Option.not_isSome_iff_eq_none]
    intro fell
    obtain ⟨m', w', s', a₁, a', since', limit, goes', naps⟩ := h.naps_of_fellAsleep ht fell
    obtain rfl : m = m' := Option.some.inj (goes.moment?_eq.symm.trans goes'.moment?_eq)
    exact available naps.exhausted
  · have fails := goes.sequel.fails acquires (goes.outcome.symm.trans failed)
    generalize cause : PoolError.timeout text = c at fails
    cases fails with
    | exhausted kept => cases cause
    | late same exhausted elapsed => exact available exhausted
  · obtain ⟨c, found⟩ | rfl := goes.sequel.takes acquires available
    · have accounts := h.accounts ht goes acquires
      have candidates : v.candidates = (r.pool.books.candidates m.now).map Entry.name := by
        rw [goes.candidates_eq, Pool.candidates_eq (w := .begin intent) acquires,
          Intent.found_eq acquires]
        rfl
      have hand : v.after.hand = x.hand := goes.hand_eq
      have there : c.name ∈ v.candidates ++ (Work.begin intent).hand.held.map Entry.name := by
        rw [candidates]
        exact List.mem_append_left _ (List.mem_map_of_mem found)
      -- The candidate is accounted for: it is rejected, in hand, or handed out.
      have there := accounts.subset there
      rw [goes.leased_eq, List.map_append, List.mem_append, List.mem_append, List.mem_map,
        List.mem_map] at there
      refine .inl ⟨c, found, there.imp_right fun kept => ?_⟩
      obtain ⟨d, held, same⟩ | ⟨d, leased, same⟩ := kept
      · exact .inr ⟨d, by rwa [hand], same⟩
      · obtain ⟨y, issued, rfl⟩ := Option.map_eq_some_iff.1 (Option.mem_toList.1 leased)
        exact .inl ⟨y, issued, same⟩
    · exact .inr goes.asked?_work

/-- When an acquisition is over, it has handed out every candidate that it has not rejected. -/
theorem handsOut (h : Of (.opened id source policy) r) (ht : r.pool.respond e = some t)
    (begins : BeginsAcquiring r.moves (Move.caller ⟨r.pool, e, t⟩) timeout since)
    (ended : t.outcome.isSome) :
    let v : Move := ⟨r.pool, e, t⟩
    (turnsOf v.caller (r.move e t).moves).flatMap Move.candidates ~
      (turnsOf v.caller (r.move e t).moves).flatMap Move.rejected ++
        (v.issued?.map fun y => y.name).toList := by
  intro v
  obtain ⟨m, w, s, x, a, goes, acquires, -⟩ := h.continues_of_begins ht begins ended
  have settled := h.candidates_perm_of_turn ht goes acquires
    (h.candidates_perm (.works (.holds goes.holds) acquires))
  have empty : x.hand.held = [] := by
    have finished : x.outcome?.isSome := goes.outcome ▸ ended
    cases x with
    | work w' => cases finished
    | _ => rfl
  dsimp only at settled
  rw [empty, List.nil_append, goes.leased_eq] at settled
  refine settled.trans (.of_eq (congrArg _ ?_))
  cases v.issued? <;> rfl

end Of

end Run

/-- Deadlines are respected. -/
theorem Pool.respects_deadlines (id : PoolId) (source : DataSource) (policy : Policy)
    (events : List Event) : ((opened id source policy).run events).RespectsDeadlines := by
  have h := (opened id source policy).of_run events
  generalize (opened id source policy).run events = r at h
  refine ⟨fun later v before timeout since text split begins failed => ?_,
    fun steady v hv m moment exhausted => ?_,
    fun later v before timeout since c split asleep awake begins => ?_,
    fun v hv intent m begun acquire available => ?_,
    fun later v before timeout since split begins ended => ?_, fun v hv o ho => ?_⟩
  · obtain ⟨p, e, t⟩ := v
    obtain ⟨r₀, h₀, rfl, rfl, ht⟩ := h.cut split
    exact h₀.timesOut ht begins failed
  · obtain ⟨later, before, split⟩ := List.append_of_mem hv
    obtain ⟨r₀, h₀, rfl, pool, -⟩ := h.cut split
    have inOrder := (h₀.aged (Run.steady_of_split steady split)).inOrder
    rw [pool] at inOrder
    exact inOrder.claimOverdue?_eq_none_iff.1 exhausted.none_overdue
  · obtain ⟨p, e, t⟩ := v
    obtain ⟨r₀, h₀, rfl, rfl, ht⟩ := h.cut split
    exact h₀.sleepsInTime ht asleep awake begins
  · obtain ⟨p, e, t⟩ := v
    obtain ⟨r₀, h₀, rfl, ht⟩ := h.exists_before hv
    exact h₀.takes ht begun acquire available
  · obtain ⟨p, e, t⟩ := v
    obtain ⟨r₀, h₀, rfl, rfl, ht⟩ := h.cut split
    exact h₀.handsOut ht begins ended
  · obtain ⟨p, e, t⟩ := v
    obtain ⟨r₀, h₀, rfl, ht⟩ := h.exists_before hv
    exact h₀.refutes ht ho

end LeasePool
