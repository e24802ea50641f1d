import LeasePool.Proofs.Holder

/-!
# Sleepers that are roused

A release that has taken a lease out of the books, and a reset that has emptied them, rouse all
sleepers when they are done, whatever becomes of the connections in the meantime (`Work.frees`). A
caller falls asleep in a turn in which it holds the lock and has looked at the books
(`Move.FallsAsleep`), so that nobody can change them before it is among the sleepers.

* `Pool.Sequel.frees`: a call that is going to rouse the sleepers does so, or it goes on;
* `Run.Of.frees`: as long as it is in progress, it holds the lock;
* `Pool.misses_no_waiter`: no sleeper is missed.
-/

namespace LeasePool

/-! ## Calls that rouse the sleepers -/

/-- The work of a call that is going to rouse the sleepers. -/
def Work.frees : Work → Bool
  | .undo _ _ _ | .close _ _ | .resetUndo _ _ | .resetClose _ _ => true
  | _ => false

/-- At the end of a turn, the sleepers are roused, or they are going to be. -/
inductive Ending.Frees : Ending → Prop
  | done {o : Outcome} : Frees (.freed o)
  | goesOn {w : Work} (frees : w.frees = true) : Frees (.work w)

/-- A release takes the lease of its handle out of the books in a turn, or a reset empties them. -/
inductive Move.Vacates (v : Move) : Prop
  | release {y : Handle} {m : Moment} {e : Entry} {b : Books}
      (begun : v.begun? = some (.release y, m))
      (found : v.before.books.removeActive? y.id y.generation = some (e, b)) : Vacates v
  | reset {r : Reset} {m : Moment} {b : Books} (begun : v.begun? = some (.reset r, m))
      (accepted : r.apply v.before.books = .ok b) : Vacates v

theorem Entry.Undone.frees {e : Entry} {b b' : Books} {keep : Bool} {returnedAt : Instant}
    {result : Except PoolError Unit} {x : Ending} (h : e.Undone b keep returnedAt result b' x) :
    x.Frees := by
  cases h with
  | fail cause => exact .goesOn rfl
  | keep kept => exact .done
  | giveUp left => exact .goesOn rfl

theorem Entry.Returned.frees {m : Moment} {e : Entry} {b b' : Books} {x : Ending}
    (h : e.Returned m b b' x) : x.Frees := by
  cases h with
  | gone closed => exact .done
  | undo is_open uncommitted => exact .goesOn rfl
  | commit is_open commits undone => exact undone.frees

theorem Reset.Clears.frees {m : Moment} {rest : List Entry} {x : Ending}
    (h : Reset.Clears m rest x) : x.Frees := by
  cases h with
  | done => exact .done
  | undo uncommitted => exact .goesOn rfl
  | close commits => exact .goesOn rfl

namespace Pool

variable {p : Pool} {m : Moment} {w : Work} {s : Signal} {b : Books} {x : Ending} {e : Event}
  {t : Turn}

/-- A call that is going to rouse the sleepers does so, or it goes on. -/
theorem Sequel.frees (h : p.Sequel m w s b x) (frees : w.frees = true) : x.Frees := by
  cases h with
  | undone undone => exact undone.frees
  | closed | closedAfter => exact .done
  | resetUndone => exact .goesOn rfl
  | resetClosed clears => exact clears.frees
  | _ => cases frees

/-- A release that finds its lease rouses the sleepers in the end. -/
theorem Sequel.frees_of_release {y : Handle} {e : Entry} {b' : Books}
    (h : p.Sequel m (.begin (.release y)) s b x)
    (found : p.books.removeActive? y.id y.generation = some (e, b'))
    (current : e.isCurrent p.generations = true) : x.Frees := by
  cases h with
  | missing none_found => cases none_found.symm.trans found
  | misplaced found' old =>
    cases found'.symm.trans found
    cases old.symm.trans current
  | takeBack found current returned => exact returned.frees

theorem Sequel.frees_of_reset {r : Reset} {b' : Books} (h : p.Sequel m (.begin (.reset r)) s b x)
    (accepted : r.apply p.books = .ok b') : x.Frees := by
  cases h with
  | refused refuses => cases refuses.symm.trans accepted
  | reset accepted clears => exact clears.frees

/-- Whoever has taken leases out of the books rouses the sleepers at once, or it is going to. -/
theorem Responds.frees (h : p.Responds e t) {hs : List Handle}
    {os : List (ConnectionId × Physical)} (sound : Custody.Sound hs os p.custody)
    (vacates : Move.Vacates ⟨p, e, t⟩) :
    ∃ m w s x, Move.Continues ⟨p, e, t⟩ m w s x ∧ x.Frees := by
  cases vacates with
  | release begun found =>
    obtain ⟨x, continues⟩ := h.begins begun
    have current := sound.current_of_removeActive? found
    exact ⟨_, _, _, x, continues, continues.sequel.frees_of_release found current⟩
  | reset begun accepted =>
    obtain ⟨x, continues⟩ := h.begins begun
    exact ⟨_, _, _, x, continues, continues.sequel.frees_of_reset accepted⟩

end Pool

namespace Move.Continues

variable {v : Move} {m : Moment} {w : Work} {s : Signal} {x : Ending}

/-- The sleepers after a turn of the holder of the lock. -/
theorem sleepers_eq (h : v.Continues m w s x) : v.after.sleepers =
    match x with
    | .freed _ => []
    | .asleep a since limit => v.before.sleepers ++ [⟨v.caller, a, since, limit⟩]
    | _ => v.before.sleepers := by
  obtain ⟨q, same, after⟩ := h.after
  rw [after, ← same.sleepers]
  cases x with
  | work w => rfl
  | freed o => rfl
  | finished o => exact Pool.sleepers_passLock q
  | asleep a since limit => exact Pool.sleepers_passLock _

/-- A call that has ended has roused the sleepers, if it had to. -/
theorem sleepers_eq_nil (h : v.Continues m w s x) (frees : x.Frees)
    (ended : v.turn.outcome.isSome) : v.after.sleepers = [] := by
  cases frees with
  | done => exact h.sleepers_eq
  | goesOn frees =>
    rw [h.outcome] at ended
    cases ended

end Move.Continues

/-! ## Callers that fall asleep -/

/-- No connection is to be had: none is idle, none may be opened, and the oldest lease is not
    overdue. -/
structure Books.Exhausted (b : Books) (now : Instant) : Prop where
  none_idle : b.idle = []
  full : b.policy.maxActive.toNat ≤ b.active.length
  none_overdue : b.claimOverdue? now = none

/-- In a turn, an acquisition that has the lock looks at the books, finds that no connection is to
    be had, and falls asleep, while the connections remain where they are. -/
structure Move.FallsAsleep (v : Move) (s : Sleeper) : Prop where
  caller : v.caller = s.id
  begun : ∃ intent m, v.begun? = some (intent, m) ∧ intent.purpose = .acquire ∧
    m.now = s.asleepSince
  exhausted : v.before.books.Exhausted s.asleepSince
  idle : v.after.books.idle = v.before.books.idle
  active : v.after.books.active = v.before.books.active

theorem Books.claimOverdue?_addWaitTime {b : Books} {d : Duration} {now : Instant}
    (h : (b.addWaitTime d).claimOverdue? now = none) : b.claimOverdue? now = none := by
  cases hb : b.active <;> simp_all [claimOverdue?, addWaitTime]

namespace Acquisition

variable {m : Moment} {a a' : Acquisition} {e : Entry} {b b' : Books} {g : Generations}
  {since : Instant} {limit : Option Duration}

theorem Refuses.not_asleep : ¬ a.Refuses m e b b' (.asleep a' since limit) := by
  rintro (⟨closed, retries⟩)
  cases retries

theorem Examines.not_asleep : ¬ a.Examines m e b g b' (.asleep a' since limit) := by
  intro h
  cases h with
  | accept accepts => cases accepts
  | refuse bad refuses => exact refuses.not_asleep

/-- An acquisition falls asleep only if no connection is to be had. -/
theorem Looks.exhausted (h : a.Looks m b g b' (.asleep a' since limit)) :
    since = m.now ∧ b.Exhausted m.now ∧ b'.idle = b.idle ∧ b'.active = b.active := by
  cases h with
  | take found examines => exact (examines.not_asleep).elim
  | claim none_idle full overdue commits examines => exact (examines.not_asleep).elim
  | sleep none_idle full none_overdue time =>
    refine ⟨rfl, ⟨Books.takeIdle?_eq_none.1 none_idle, Books.canOpen_eq_false.1 full,
      none_overdue⟩, ?_⟩
    by_cases hw : a.hasWaited <;> simp only [Books.countWaitOf, hw] <;> exact ⟨rfl, rfl⟩

end Acquisition

namespace Pool

variable {p : Pool} {m : Moment} {w : Work} {s : Signal} {b : Books} {e : Event} {t : Turn}

/-- Whoever falls asleep has looked at the books in the same turn. -/
theorem Sequel.exhausted {a : Acquisition} {since : Instant} {limit : Option Duration}
    (h : p.Sequel m w s b (.asleep a since limit)) :
    ∃ intent, w = .begin intent ∧ intent.purpose = .acquire ∧ since = m.now ∧
      p.books.Exhausted m.now ∧ b.idle = p.books.idle ∧ b.active = p.books.active := by
  cases h with
  | look looks => exact ⟨_, rfl, rfl, looks.exhausted⟩
  -- The time of the last sleep is counted first, which takes nothing from the books and adds
  -- nothing.
  | awaken looks =>
    obtain ⟨same, exhausted, kept⟩ := looks.exhausted
    refine ⟨_, rfl, rfl, same, ⟨exhausted.none_idle, exhausted.full, ?_⟩, kept⟩
    exact Books.claimOverdue?_addWaitTime exhausted.none_overdue
  | takeBack found current returned => cases returned.frees
  | @reset r b' _ accepted clears => cases clears.frees
  | opened examines => exact examines.not_asleep.elim
  | reclaimed examines => exact examines.not_asleep.elim
  | passed phase accepts => cases accepts
  | failed phase refuses => exact refuses.not_asleep.elim
  | unprepared refuses => exact refuses.not_asleep.elim
  | discarded retries => cases retries
  | undone undone => cases undone.frees
  | resetClosed clears => cases clears.frees

/-- Whoever is asleep after a turn has been asleep, or has fallen asleep in it. -/
theorem Responds.fallsAsleep (h : p.Responds e t) (once : p.CallsOnce) {c : Sleeper}
    (asleep : c ∈ t.pool.sleepers) : c ∈ p.sleepers ∨ Move.FallsAsleep ⟨p, e, t⟩ c := by
  cases h.affects once with
  | @goesOn m w s x goes =>
    have sleepers := goes.sleepers_eq
    rw [Move.after] at sleepers
    rw [sleepers] at asleep
    cases x with
    | work w => exact .inl asleep
    | finished o => exact .inl asleep
    | freed o => cases asleep
    | asleep a since limit =>
      refine (List.mem_append.1 asleep).imp_right fun new => ?_
      obtain rfl := List.mem_singleton.1 new
      obtain ⟨intent, rfl, acquires, rfl, exhausted, idle, active⟩ := goes.sequel.exhausted
      exact ⟨rfl, ⟨intent, m, goes.begun?_eq, acquires, rfl⟩, exhausted, idle, active⟩
  | @dropped i w event holds turn =>
    obtain ⟨q, dropped, -, -, sleepers, -⟩ := p.exists_dropWork w
    rw [turn, dropped, sleepers_passLock, sleepers] at asleep
    exact .inl asleep
  | aside other custody holder sleepers => exact .inl (sleepers asleep)

end Pool

/-! ## Runs -/

namespace Run

/-- A call returns in a turn, after the moves `before`, that has taken leases out of the books. -/
def Vacated (v : Move) (before : List Move) : Prop :=
  v.turn.outcome.isSome ∧ ∃ u ∈ v :: before, u.caller = v.caller ∧ u.Vacates

variable {id : PoolId} {source : DataSource} {policy : Policy} {r : Run} {e : Event} {t : Turn}
  {u : Move}

namespace Of

/-- A call that has taken leases out of the books holds the lock until it is over. -/
theorem frees (h : Of (.opened id source policy) r) (hu : u ∈ r.moves) (vacates : u.Vacates)
    (active : u.caller ∈ r.pool.calls) :
    ∃ w, r.pool.holder = some (u.caller, w) ∧ w.frees = true := by
  induction h with
  | start => cases hu
  | @move r e t h ht ih =>
    have responds := Pool.responds_of_respond ht
    have once := h.callsOnce
    -- A call that goes on and is not over is still going to rouse the sleepers.
    have goesOn {m : Moment} {w : Work} {s : Signal} {x : Ending}
        (goes : Move.Continues ⟨r.pool, e, t⟩ m w s x) (frees : x.Frees)
        (active : Move.caller ⟨r.pool, e, t⟩ ∈ t.pool.calls) :
        ∃ w, t.pool.holder = some (Move.caller ⟨r.pool, e, t⟩, w) ∧ w.frees = true := by
      cases frees with
      | done => exact absurd active (goes.not_mem_calls once rfl)
      | goesOn frees => exact ⟨_, goes.holder_work, frees⟩
    rcases List.mem_cons.1 hu with rfl | hu
    · obtain ⟨m, w, s, x, goes, frees⟩ := responds.frees h.sound vacates
      exact goesOn goes frees active
    · have before := (Pool.follows_of_responds responds).mem_calls active (h.caller_lt hu)
      obtain ⟨w, holds, frees⟩ := ih hu before
      cases responds.affects once with
      | @goesOn m w' s x goes =>
        obtain ⟨caller, rfl⟩ := Pool.holder_unique holds goes.holds
        rw [caller] at active ⊢
        exact goesOn goes (goes.sequel.frees frees) active
      | dropped event holds' turn =>
        obtain ⟨rfl, rfl⟩ := Pool.holder_unique holds holds'
        subst turn
        exact absurd active (Pool.not_mem_calls_dropWork once holds)
      | aside other custody holder sleepers => exact ⟨w, holder _ _ holds, frees⟩

/-- Whoever has taken leases out of the books has roused the sleepers when it returns. -/
theorem sleepers_eq_nil (h : Of (.opened id source policy) r) (ht : r.pool.respond e = some t)
    (vacated : Vacated ⟨r.pool, e, t⟩ r.moves) : t.pool.sleepers = [] := by
  obtain ⟨ended, u, hu, caller, vacates⟩ := vacated
  have responds := Pool.responds_of_respond ht
  rcases List.mem_cons.1 hu with rfl | hu
  · obtain ⟨m, w, s, x, goes, frees⟩ := responds.frees h.sound vacates
    exact goes.sleepers_eq_nil frees ended
  · -- It has been in progress, so it has held the lock.
    have active : u.caller ∈ r.pool.calls := by
      obtain ⟨new, -⟩ | active := Pool.caller_of_responds responds
      · exact absurd (h.caller_lt hu) (by rw [caller, new]; exact Nat.lt_irrefl _)
      · exact caller ▸ active
    obtain ⟨w, holds, frees⟩ := h.frees hu vacates active
    rw [caller] at holds
    cases responds.affects h.callsOnce with
    | @goesOn m w' s x goes =>
      obtain ⟨-, rfl⟩ := Pool.holder_unique holds goes.holds
      exact goes.sleepers_eq_nil (goes.sequel.frees frees) ended
    | dropped event holds' turn =>
      change t.outcome.isSome at ended
      rw [turn, Pool.outcome_dropWork] at ended
      cases ended
    | aside other custody holder sleepers => exact absurd holds (other w)

/-- Whoever is asleep has fallen asleep after the last call has returned that has taken leases out
    of the books. -/
theorem exists_fallsAsleep (h : Of (.opened id source policy) r) {c : Sleeper}
    (asleep : c ∈ r.pool.sleepers) : ∃ later v before, r.moves = later ++ v :: before ∧
      v.FallsAsleep c ∧ ∀ after u between, later = after ++ u :: between →
        ¬ Vacated u (between ++ v :: before) := by
  induction h with
  | start => cases asleep
  | @move r e t h ht ih =>
    obtain old | falls := (Pool.responds_of_respond ht).fallsAsleep h.callsOnce asleep
    · obtain ⟨later, v, before, split, falls, none_since⟩ := ih old
      refine ⟨⟨r.pool, e, t⟩ :: later, v, before, ?_, falls, fun after u between since => ?_⟩
      · rw [moves_move, split, List.cons_append]
      · cases after with
        | nil =>
          injection since with last rest
          subst last rest
          intro vacated
          have none_asleep : t.pool.sleepers = [] := h.sleepers_eq_nil ht (split ▸ vacated)
          rw [pool_move, none_asleep] at asleep
          cases asleep
        | cons v' after =>
          injection since with _ since
          exact none_since after u between since
    · refine ⟨[], _, r.moves, rfl, falls, fun after u between since => ?_⟩
      cases after <;> cases since

end Of

/-- No sleeper is missed. -/
structure MissesNoWaiter (r : Run) : Prop where
  /-- When a call returns that has taken leases out of the books, nobody is asleep. -/
  roused : ∀ later v before, r.moves = later ++ v :: before → Vacated v before →
    v.after.sleepers = []
  /-- Whoever falls asleep has looked at the books in the same turn. -/
  looked : ∀ v ∈ r.moves, ∀ c ∈ v.after.sleepers, c ∉ v.before.sleepers → v.FallsAsleep c
  /-- Whoever is asleep has done so after the last such call has returned. -/
  since : ∀ c ∈ r.pool.sleepers, ∃ later v before, r.moves = later ++ v :: before ∧
    v.FallsAsleep c ∧ ∀ after u between, later = after ++ u :: between →
      ¬ Vacated u (between ++ v :: before)

end Run

/-- A release that takes a lease out of the books and returns, with whatever outcome, and a reset
    that returns miss no sleeper, and no caller falls asleep with a look at the books that is out of
    date. -/
theorem Pool.misses_no_waiter (id : PoolId) (source : DataSource) (policy : Policy)
    (events : List Event) : ((opened id source policy).run events).MissesNoWaiter := by
  have h := (opened id source policy).of_run events
  generalize (opened id source policy).run events = r at h
  refine ⟨fun later v before split vacated => ?_, fun v hv c asleep awake => ?_,
    fun c asleep => h.exists_fallsAsleep asleep⟩
  · obtain ⟨p, e, t⟩ := v
    obtain ⟨r₀, h₀, rfl, rfl, ht⟩ := h.cut split
    exact h₀.sleepers_eq_nil ht vacated
  · obtain ⟨p, e, t⟩ := v
    obtain ⟨r₀, h₀, rfl, ht⟩ := h.exists_before hv
    exact ((responds_of_respond ht).fallsAsleep h₀.callsOnce asleep).resolve_left awake

end LeasePool
