import LeasePool.Proofs.Failures
import LeasePool.Proofs.Uses

/-!
# Which candidates are tried

An acquisition examines its candidate as soon as it has it. If the connection is open and has not
been used for long enough, the acquisition tries it: it asks the connection the query of the policy,
and waits for the answer.

How long the connection has not been used is counted until the acquisition has looked at the books,
not until it examines the candidate. A connection that it has opened itself was used last when it
was opened, which is later; so no time has passed since, and it is not tried.

* `Run.Examination`: the four ways in which an acquisition comes to its candidate, and when that was
  used last;
* `Pool.Responds.examines`: there are no others;
* `Run.Of.asked?_iff`: which candidates are tried, for all histories of the connection;
* `Run.Of.not_asked_of_opened`: a connection that has just been opened is not;
* `Run.Of.tries_of_asked`: nothing else is asked a query.
-/

namespace LeasePool

/-! ## Whether a candidate is tried -/

/-- A connection is tried when it has been unused for longer than the threshold, if there is one. -/
theorem Policy.pingDue_iff {policy : Policy} {idleFor : Duration} :
    policy.pingDue idleFor = true ↔ policy.pingEnabled = true ∧
      ∃ threshold, policy.pingIdleThreshold = some threshold ∧ threshold < idleFor := by
  rw [pingDue, Bool.and_eq_true]
  refine and_congr_right fun _ => ?_
  cases policy.pingIdleThreshold <;> simp

/-- The trial of a connection when it is asked the query of the policy. -/
def Policy.trial (policy : Policy) (physical : Physical) (m : Moment) : Checkup :=
  ⟨physical, policy.pingQuery, m.now, .probing⟩

/-- The times that have been waited make no difference to the leases. -/
theorem Books.overdue_addWaitTime_iff {b : Books} {d : Duration} {now : Instant} {e : Entry}
    {rest : List Entry} : (b.addWaitTime d).Overdue now e rest ↔ b.Overdue now e rest :=
  ⟨fun late => ⟨late.none_idle, late.full, late.front, late.late⟩,
    fun late => ⟨late.none_idle, late.full, late.front, late.late⟩⟩

namespace Turn

variable {t : Turn} {id : CallId} {m : Moment} {a a' : Acquisition} {e e' : Entry} {b : Books}
  {rest : List Entry} {lookedAt : Instant} {c : Checkup}

/-- A candidate that is current, open and due is tried. -/
theorem holder_examine (current : e.isCurrent t.pool.generations = true)
    (is_open : m.isClosed e.physical = false)
    (due : t.pool.books.policy.pingDue (e.idleTime lookedAt) = true) :
    (t.examine id m a e lookedAt).pool.holder =
      some (id, .examine a e (t.pool.books.policy.trial e.physical m)) := by
  rw [examine, if_pos current, afterCheckup, Checkup.begin, if_neg (by simp [is_open]), if_pos due]
  rfl

/-- Whoever rejects a candidate tries none. -/
theorem reject_not_examines (why : Rejection) (on : (t.reject id m a e why).outcome = none) :
    (t.reject id m a e why).pool.holder ≠ some (id, .examine a' e' c) := by
  rw [reject] at on ⊢
  split at on
  · next closed =>
    rw [if_pos closed]
    rw [afterRejection] at on ⊢
    split at on
    · cases on
    · next tolerated =>
      rw [if_neg tolerated]
      intro tries
      cases tries
  · next is_open =>
    rw [if_neg is_open]
    intro tries
    cases tries

theorem prepare_not_examines (on : (t.prepare id m a e).outcome = none) :
    (t.prepare id m a e).pool.holder ≠ some (id, .examine a' e' c) := by
  rw [prepare] at on ⊢
  split at on
  · cases on
  · next uncommitted =>
    rw [if_neg uncommitted]
    intro tries
    cases tries

/-- A candidate is tried only if it is open and due, and then with the query of the policy. -/
theorem tries_of_examine (on : (t.examine id m a e lookedAt).outcome = none)
    (tries : (t.examine id m a e lookedAt).pool.holder = some (id, .examine a' e' c)) :
    e' = e ∧ c = t.pool.books.policy.trial e.physical m ∧ m.isClosed e.physical = false ∧
      t.pool.books.policy.pingDue (e.idleTime lookedAt) = true := by
  by_cases current : e.isCurrent t.pool.generations = true
  · rw [examine, if_pos current, afterCheckup, Checkup.begin] at on tries
    cases closed : m.isClosed e.physical with
    | true =>
      rw [closed] at on tries
      exact absurd tries (reject_not_examines (t := t.tellAll []) .closed on)
    | false =>
      cases due : t.pool.books.policy.pingDue (e.idleTime lookedAt) with
      | true =>
        rw [closed, due] at tries
        cases tries
        exact ⟨rfl, rfl, rfl, rfl⟩
      | false =>
        rw [closed, due] at on tries
        exact absurd tries (prepare_not_examines (t := t.tellAll []) on)
  · rw [examine, if_neg current] at on tries
    exact absurd tries (reject_not_examines _ on)

/-! ## Which candidates are examined -/

/-- In a turn that ends with `t`, an acquisition examines a candidate. -/
def Inspects (policy : Policy) (id : CallId) (m : Moment) (a : Acquisition) (e : Entry)
    (lookedAt : Instant) (t : Turn) : Prop :=
  ∃ u : Turn, t = u.examine id m a e lookedAt ∧ u.pool.books.policy = policy ∧
    e.isCurrent u.pool.generations = true

theorem look_of_idle (front : t.pool.books.idle = e :: rest)
    (current : e.isCurrent t.pool.generations = true) :
    Inspects t.pool.books.policy id m a e m.now (t.look id m a) := by
  have found : t.pool.books.takeIdle? = some (e, { t.pool.books with idle := rest }) := by
    rw [Books.takeIdle?, front]
  rw [look, found]
  exact ⟨_, rfl, rfl, current⟩

theorem claimed_inspects :
    Inspects t.pool.books.policy id m a (e.renewed (t.pool.generations.advance e.id)) lookedAt
      (t.claimed id m a e lookedAt) :=
  ⟨_, rfl, rfl, Entry.isCurrent_iff.2 rfl⟩

/-- An overdue lease that commits on its own is examined as soon as it is found. -/
theorem look_of_overdue (late : t.pool.books.Overdue m.now e rest)
    (commits : m.isAutoCommit e.physical = true) :
    Inspects t.pool.books.policy id m a (e.renewed (t.pool.generations.advance e.id)) m.now
      (t.look id m a) := by
  have none_idle : t.pool.books.takeIdle? = none := Books.takeIdle?_eq_none.2 late.none_idle
  have full : t.pool.books.canOpen = false := Books.canOpen_eq_false.2 late.full
  obtain ⟨⟨c, b⟩, overdue⟩ : ∃ found, t.pool.books.claimOverdue? m.now = some found :=
    Option.ne_none_iff_exists'.1 (Books.claimOverdue?_of_overdue late)
  obtain ⟨rest', counters, front, -, rfl⟩ := Books.claimOverdue?_eq_some overdue
  obtain ⟨rfl, rfl⟩ : e = c ∧ rest = rest' := by
    have same := late.front.symm.trans front
    exact ⟨List.head_eq_of_cons_eq same, List.tail_eq_of_cons_eq same⟩
  rw [look, none_idle, full, overdue]
  change Inspects _ id m a _ m.now (if m.isAutoCommit e.physical = true then _ else _)
  rw [if_pos commits]
  exact claimed_inspects

end Turn

namespace Pool

variable {p : Pool} {t : Turn} {id : CallId} {m : Moment} {a : Acquisition} {e : Entry}
  {rest : List Entry} {intent : Intent} {lookedAt : Instant}

/-- An acquisition that looks at the books examines the idle connection in front. -/
theorem inspects_idle (acquires : intent.acquisition? = some a) (front : p.books.idle = e :: rest)
    (current : e.isCurrent p.generations = true)
    (h : p.turn.advanceWork id m (.begin intent) .proceed = some t) :
    Turn.Inspects p.books.policy id m a e m.now t := by
  cases intent with
  | acquire a' =>
    cases acquires
    cases h
    exact Turn.look_of_idle (t := p.turn) front current
  | awaken a' since =>
    cases acquires
    cases h
    exact Turn.look_of_idle
      (t := p.turn.stopWaiting.setBooks (p.books.addWaitTime (m.now.since since))) front current
  | _ => cases acquires

/-- If it takes the oldest lease away, it examines the connection at once if that commits on its
    own. -/
theorem inspects_overdue (acquires : intent.acquisition? = some a)
    (late : p.books.Overdue m.now e rest) (commits : m.isAutoCommit e.physical = true)
    (h : p.turn.advanceWork id m (.begin intent) .proceed = some t) :
    Turn.Inspects p.books.policy id m a (e.renewed (p.generations.advance e.id)) m.now t := by
  cases intent with
  | acquire a' =>
    cases acquires
    cases h
    exact Turn.look_of_overdue (t := p.turn) late commits
  | awaken a' since =>
    cases acquires
    cases h
    exact Turn.look_of_overdue
      (t := p.turn.stopWaiting.setBooks (p.books.addWaitTime (m.now.since since)))
      (Books.overdue_addWaitTime_iff.2 late) commits
  | _ => cases acquires

/-- Otherwise it examines it when that has been rolled back. -/
theorem inspects_reclaimed {result : Except PoolError Unit}
    (h : p.turn.advanceWork id m (.reclaim a e lookedAt) (.answered result) = some t) :
    Turn.Inspects p.books.policy id m a (e.renewed (p.generations.advance e.id)) lookedAt t := by
  cases result <;> cases h <;> exact ⟨_, rfl, rfl, Entry.isCurrent_iff.2 rfl⟩

/-- An acquisition that has opened a connection examines it. -/
theorem inspects_opened {c : Physical} (new : p.generations.current p.nextConnection = 0)
    (h : p.turn.advanceWork id m (.connect a lookedAt) (.connected (.ok c)) = some t) :
    Turn.Inspects p.books.policy id m a (.fresh p.nextConnection c p.books.expected m.now) lookedAt
      t := by
  cases h
  exact ⟨_, rfl, rfl, Entry.isCurrent_iff.2 new⟩

end Pool

/-- The factory gives a connection to whoever has asked for it. -/
theorem Work.received?_eq_some {a : Acquisition} {lookedAt : Instant} {s : Signal} {c : Physical}
    (h : (Work.connect a lookedAt).received? s = some c) : s = .connected (.ok c) := by
  unfold received? at h
  split at h
  · cases h
    rfl
  · cases h

/-- Whoever asks a connection for an answer tries it. -/
theorem Work.exists_trial {w : Work} {source : DataSource} {c : Physical} {query : String}
    (h : w.request? source = some (.probe c query)) :
    ∃ a e k, w = .examine a e k ∧ k.phase = .probing ∧ k.physical = c ∧ k.query = query := by
  cases w with
  | examine a e k =>
    obtain ⟨physical, query', startedAt, phase⟩ := k
    cases phase with
    | probing =>
      cases h
      exact ⟨a, e, _, rfl, rfl, rfl, rfl⟩
    | _ => cases h
  | _ => cases h

namespace Move.Continues

variable {p : Pool} {ev : Event} {t : Turn} {m : Moment} {w : Work} {s : Signal} {x : Ending}
  {a : Acquisition} {e : Entry} {lookedAt : Instant} {c : Physical} {query : String}

/-- A call that examines a candidate and asks a connection a query tries the candidate. -/
theorem tries_of_asked (goes : Move.Continues ⟨p, ev, t⟩ m w s x) (once : p.CallsOnce)
    (inspects : Turn.Inspects p.books.policy (Move.caller ⟨p, ev, t⟩) m a e lookedAt t)
    (asked : Move.asked? ⟨p, ev, t⟩ = some (.probe c query)) :
    (∃ a', x = .work (.examine a' e (p.books.policy.trial e.physical m))) ∧ c = e.physical ∧
      query = p.books.policy.pingQuery ∧ m.isClosed e.physical = false ∧
      p.books.policy.pingDue (e.idleTime lookedAt) = true := by
  obtain ⟨u, examines, policy, current⟩ := inspects
  obtain ⟨w', rfl, request⟩ := goes.exists_work once asked
  obtain ⟨a', e', k, rfl, -, rfl, rfl⟩ := Work.exists_trial request
  have on : t.outcome = none := goes.outcome
  have tries : t.pool.holder = some (Move.caller ⟨p, ev, t⟩, .examine a' e' k) := goes.holder_work
  obtain ⟨rfl, rfl, is_open, due⟩ := Turn.tries_of_examine (examines ▸ on) (examines ▸ tries)
  rw [← policy]
  exact ⟨⟨a', rfl⟩, rfl, rfl, is_open, due⟩

/-- A call that examines a candidate asks it the query if it is open and due, and otherwise does
    not. -/
theorem asked?_iff (goes : Move.Continues ⟨p, ev, t⟩ m w s x) (once : p.CallsOnce)
    (inspects : Turn.Inspects p.books.policy (Move.caller ⟨p, ev, t⟩) m a e lookedAt t) :
    Move.asked? ⟨p, ev, t⟩ = some (.probe e.physical p.books.policy.pingQuery) ↔
      m.isClosed e.physical = false ∧ p.books.policy.pingDue (e.idleTime lookedAt) = true := by
  refine ⟨fun asked => (goes.tries_of_asked once inspects asked).2.2.2, ?_⟩
  obtain ⟨u, examines, policy, current⟩ := inspects
  rintro ⟨is_open, due⟩
  rw [← policy] at due
  have tries : (Move.after ⟨p, ev, t⟩).holder = some (Move.caller ⟨p, ev, t⟩,
      .examine a e (p.books.policy.trial e.physical m)) := by
    rw [← policy]
    exact examines ▸ Turn.holder_examine current is_open due
  rw [goes.asked?_eq, Pool.asking?_of_holder tries]
  rfl

end Move.Continues

/-! ## Examinations -/

namespace Run

/-- In the turn `v`, after the moves `before`, an acquisition examines the candidate `o`. If it has
    not opened the connection itself, that was used last at `used`. -/
inductive Examination (before : List Move) (v : Move) :
    ConnectionId × Physical → Option Instant → Prop
  /-- The connection was idle; it was used until it was given back. -/
  | idle {intent : Intent} {m : Moment} {e : Entry} {rest : List Entry}
      (begun : v.begun? = some (intent, m)) (acquires : intent.purpose = .acquire)
      (front : v.before.books.idle = e :: rest) :
      Examination before v e.name (returnedAt? e.id before)
  /-- Its lease is taken away. -/
  | overdue {intent : Intent} {m : Moment} {e : Entry} {rest : List Entry}
      (begun : v.begun? = some (intent, m)) (acquires : intent.purpose = .acquire)
      (late : v.before.books.Overdue m.now e rest) (commits : m.isAutoCommit e.physical = true) :
      Examination before v e.name (issuedAt? e.id before)
  /-- Its lease was taken away, and it has been rolled back. -/
  | reclaimed {a : Acquisition} {e : Entry} {lookedAt : Instant} {m : Moment}
      {result : Except PoolError Unit}
      (holds : v.before.holder = some (v.caller, .reclaim a e lookedAt))
      (event : v.event = .resume v.caller (.answered result) m) :
      Examination before v e.name (issuedAt? e.id before)
  /-- It has been opened for the acquisition. -/
  | opened {o : ConnectionId × Physical} (opened : v.opened? = some o) : Examination before v o none

end Run

namespace Acquisition

variable {a a' : Acquisition} {m : Moment} {e e' : Entry} {b b' : Books} {g : Generations}
  {k : Checkup}

theorem Examines.tries (h : a.Examines m e b g b' (.work (.examine a' e' k))) : e' = e := by
  cases h with
  | test query => rfl
  | accept accepts => cases accepts
  | refuse bad refuses =>
    cases refuses with
    | gone closed retries => cases retries

/-- Whoever goes on to try a candidate has found it in the books. -/
theorem Looks.tries (h : a.Looks m b g b' (.work (.examine a' e' k))) :
    (∃ rest, b.idle = e' :: rest) ∨ ∃ e rest, e'.name = e.name ∧ b.Overdue m.now e rest ∧
      m.isAutoCommit e.physical = true := by
  cases h with
  | take found examines =>
    obtain ⟨rest, idle, -⟩ := Books.takeIdle?_eq_some found
    exact .inl ⟨rest, examines.tries ▸ idle⟩
  | @claim e b₁ b' x none_idle full overdue commits examines =>
    have late := Books.overdue_of_claimOverdue? none_idle full overdue
    exact .inr ⟨e, _, examines.tries ▸ rfl, late, commits⟩

/-- Whoever finds a lease overdue that does not commit on its own has it rolled back first. -/
theorem Looks.reclaims_overdue {x : Ending} {rest : List Entry} (h : a.Looks m b g b' x)
    (late : b.Overdue m.now e rest) (uncommitted : m.isAutoCommit e.physical = false) :
    x = .work (.reclaim a e m.now) := by
  have same {c : Entry} {b₁ : Books} (found : b.claimOverdue? m.now = some (c, b₁)) : c = e := by
    obtain ⟨rest', counters, front, -, -⟩ := Books.claimOverdue?_eq_some found
    exact List.head_eq_of_cons_eq (front.symm.trans late.front)
  cases h with
  | take found examines =>
    obtain ⟨rest', front, -⟩ := Books.takeIdle?_eq_some found
    cases late.none_idle.symm.trans front
  | connect none_idle room =>
    cases room.symm.trans (Books.canOpen_eq_false.2 late.full)
  | reclaim none_idle full overdue uncommitted => rw [same overdue]
  | claim none_idle full overdue commits examines =>
    rw [same overdue, uncommitted] at commits
    cases commits
  | timeOut none_idle full none_overdue elapsed =>
    exact absurd none_overdue (Books.claimOverdue?_of_overdue late)
  | sleep none_idle full none_overdue time =>
    exact absurd none_overdue (Books.claimOverdue?_of_overdue late)

end Acquisition

theorem Books.exists_overdue {b : Books} {now : Instant} {e : Entry} (h : e ∈ b.overdue now) :
    ∃ rest, b.Overdue now e rest := by
  by_cases some_late : ∃ c rest, b.Overdue now c rest
  · obtain ⟨c, rest, late⟩ := some_late
    rw [overdue_eq late] at h
    exact ⟨rest, List.mem_singleton.1 h ▸ late⟩
  · push Not at some_late
    rw [overdue_eq_nil some_late] at h
    cases h

/-- An acquisition that looks at the books examines the candidate that it finds, unless that is a
    lease that has to be rolled back first. -/
theorem Move.Continues.examines {v : Move} {m : Moment} {intent : Intent} {s : Signal} {x : Ending}
    {a : Acquisition} {e : Entry} (goes : v.Continues m (.begin intent) s x)
    (acquires : intent.acquisition? = some a) (found : e ∈ v.before.books.candidates m.now)
    (before : List Move) : (∃ used, Run.Examination before v e.name used) ∨
      v.after.holder = some (v.caller, .reclaim a e m.now) := by
  obtain rfl := goes.eq_proceed
  have begun := goes.begun?_eq
  have purpose : (Work.begin intent).purpose = .acquire := Work.purpose_of_acquisition? acquires
  rw [Books.candidates, List.mem_append] at found
  obtain unused | leased := found
  · obtain ⟨rest, front⟩ := List.head?_eq_some_iff.1 (Option.mem_toList.1 unused)
    exact .inl ⟨_, .idle begun purpose front⟩
  · obtain ⟨rest, late⟩ := Books.exists_overdue leased
    cases commits : m.isAutoCommit e.physical with
    | true => exact .inl ⟨_, .overdue begun purpose late commits⟩
    | false =>
      have reclaims : x = .work (.reclaim a e m.now) := by
        have sequel := goes.sequel
        generalize v.after.books = b at sequel
        cases sequel with
        | look looks =>
          cases acquires
          exact looks.reclaims_overdue late commits
        | awaken looks =>
          cases acquires
          exact looks.reclaims_overdue (Books.overdue_addWaitTime_iff.2 late) commits
        | _ => cases acquires
      subst reclaims
      exact .inr goes.holder_work

/-- Whatever an acquisition comes to, it examines, or it has it rolled back first. -/
theorem Pool.Responds.examines {p : Pool} {ev : Event} {t : Turn} {o : ConnectionId × Physical}
    (h : p.Responds ev t) (ho : o ∈ Move.candidates ⟨p, ev, t⟩) (before : List Move) :
    (∃ used, Run.Examination before ⟨p, ev, t⟩ o used) ∨ ∃ a e lookedAt,
      t.pool.holder = some (Move.caller ⟨p, ev, t⟩, .reclaim a e lookedAt) ∧ e.name = o := by
  -- Only who holds the lock comes to a candidate, and only when it goes on.
  have holder : ∃ w, p.holder = some (Move.caller ⟨p, ev, t⟩, w) := by
    by_contra none_held
    push Not at none_held
    rw [Move.candidates_eq_nil none_held] at ho
    cases ho
  obtain ⟨w, holds⟩ := holder
  have event : ∃ s m, ev = .resume (Move.caller ⟨p, ev, t⟩) s m := by
    cases ev with
    | resume i s m => exact ⟨s, m, rfl⟩
    | _ => cases ho
  obtain ⟨s, m, event⟩ := event
  obtain ⟨x, goes⟩ := h.continues_of_event event holds
  rw [goes.candidates_eq] at ho
  cases w with
  | begin intent =>
    cases intent with
    | acquire a | awaken a since =>
      obtain ⟨c, found, rfl⟩ := List.mem_map.1 ho
      exact (goes.examines rfl found before).imp_right fun reclaims => ⟨a, c, _, reclaims, rfl⟩
    | _ => cases ho
  | connect a lookedAt =>
    exact .inl ⟨none, .opened (goes.opened?_eq.trans (Option.mem_toList.1 ho))⟩
  | _ => cases ho

/-- Whoever begins to try a candidate examines it. -/
theorem Move.Continues.examination {v : Move} {m : Moment} {w : Work} {s : Signal} {a : Acquisition}
    {e : Entry} {k : Checkup} (goes : v.Continues m w s (.work (.examine a e k)))
    (probing : k.phase = .probing) (before : List Move) :
    ∃ used, Run.Examination before v e.name used := by
  -- A look at the books finds the candidate idle or overdue. After a sleep the books are looked at
  -- with the time of the sleep already counted, which changes neither queue.
  have begins {intent : Intent} {a₀ : Acquisition} (b₀ : Books) {b : Books}
      (holds : w = .begin intent) (acquires : intent.purpose = .acquire)
      (idle : b₀.idle = v.before.books.idle)
      (late : ∀ e rest, b₀.Overdue m.now e rest → v.before.books.Overdue m.now e rest)
      (looks : a₀.Looks m b₀ v.before.generations b (.work (.examine a e k))) :
      ∃ used, Run.Examination before v e.name used := by
    subst holds
    obtain ⟨rest, front⟩ | ⟨c, rest, same, overdue, commits⟩ := looks.tries
    · exact ⟨_, .idle goes.begun?_eq acquires (idle ▸ front)⟩
    · rw [same]
      exact ⟨_, .overdue goes.begun?_eq acquires (late c rest overdue) commits⟩
  have event := goes.event
  have opened := goes.opened?_eq
  have sequel := goes.sequel
  have holds := goes.holds
  clear goes
  generalize v.after.books = b at sequel
  cases sequel with
  | look looks => exact begins v.before.books rfl rfl rfl (fun _ _ late => late) looks
  | @awaken a₀ since b x looks =>
    exact begins (v.before.books.addWaitTime (m.now.since since)) rfl rfl rfl
      (fun _ _ => Books.overdue_addWaitTime_iff.1) looks
  | opened examines =>
    rw [examines.tries]
    exact ⟨none, .opened opened⟩
  | @reclaimed a₀ c lookedAt result b x examines =>
    rw [examines.tries]
    exact ⟨_, .reclaimed (e := c) holds event⟩
  -- A test under way is past its probe, and no other work begins one.
  | probed phase uncommitted => cases probing
  | failing phase => cases probing
  | passed phase accepts => cases accepts
  | failed phase refuses =>
    cases refuses with
    | gone closed retries => cases retries
  | unprepared refuses =>
    cases refuses with
    | gone closed retries => cases retries
  | discarded retries => cases retries
  | takeBack found current returned =>
    cases returned with
    | commit is_open commits undone => cases undone
  | @reset r b' _ accepted clears =>
    generalize b'.entries = rest at clears
    cases clears
  | undone undone => cases undone
  | resetClosed clears => cases clears

namespace Run

variable {id : PoolId} {source : DataSource} {policy : Policy} {r : Run} {e : Event} {t : Turn}
  {o : ConnectionId × Physical} {used : Option Instant}

/-- What has happened last has happened before now, if the clock does not go back. -/
theorem le_of_lastly {f : Move → Bool} {m : Moment} {now : Instant}
    (steady : (r.move e t).Steady) (moment : Move.moment? ⟨r.pool, e, t⟩ = some m)
    (last : lastly f (r.move e t).moves = some now) : now ≤ m.now := by
  obtain ⟨u, found, time⟩ := Option.bind_eq_some_iff.1 last
  obtain ⟨m', moment', rfl⟩ := Option.map_eq_some_iff.1 time
  rcases List.mem_cons.1 (List.mem_of_find?_eq_some found) with rfl | hu
  · rw [Option.some.inj (moment'.symm.trans moment)]
    exact Nat.le_refl _
  · exact le_of_steady steady split_last hu moment moment'

namespace Of

/-- Whoever examines a candidate knows when it has looked at the books, and when the connection was
    used last. One that it has opened itself is new. -/
theorem inspects (h : Of (.opened id source policy) r) (ht : r.pool.respond e = some t)
    (examination : Examination r.moves ⟨r.pool, e, t⟩ o used) :
    let v : Move := ⟨r.pool, e, t⟩
    ∃ m w s x a c lookedAt, v.Continues m w s x ∧ c.name = o ∧
      Turn.Inspects r.pool.books.policy v.caller m a c lookedAt t ∧
      lookedAt? v.caller (v :: r.moves) = some lookedAt ∧
      (used = some c.lastUsedAt ∨ used = none ∧ v.opened? = some o ∧ c.lastUsedAt = m.now) := by
  intro v
  have responds := Pool.responds_of_respond ht
  have known := h.knowsUses
  -- Whoever begins has looked at the books in this turn.
  have looked {intent : Intent} {m : Moment} {x : Ending}
      (goes : v.Continues m (.begin intent) .proceed x) :
      lookedAt? v.caller (v :: r.moves) = some m.now := by
    rw [lookedAt?, lastly_cons_of_pos _ goes.moment?_eq]
    rw [beq_self_eq_true, goes.begun?_eq]
    rfl
  have looked_before {m : Moment} {w : Work} {s : Signal} {x : Ending} {lookedAt : Instant}
      (goes : v.Continues m w s x) (waits : w.lookedAt? = some lookedAt) :
      lookedAt? v.caller (v :: r.moves) = some lookedAt := by
    rw [lookedAt?, lastly_cons_of_neg]
    · exact h.lookedAt?_eq goes.holds waits
    · cases begun : v.begun? with
      | none => rw [Option.isSome_none, Bool.and_false]
      | some b =>
        obtain ⟨-, rfl⟩ := Pool.holder_unique goes.holds (Move.begun?_eq_some.1 begun).2
        cases waits
  cases examination with
  | @idle intent m c rest begun acquires front =>
    obtain ⟨a, acquires⟩ := Intent.exists_acquisition acquires
    obtain ⟨x, goes⟩ := responds.begins begun
    have there : c ∈ r.pool.books.idle := front ▸ List.mem_cons_self
    have current : c.isCurrent r.pool.generations = true :=
      h.sound.current c (Custody.mem_present.2 (.inr (.inl there)))
    exact ⟨m, _, _, x, a, c, m.now, goes, rfl,
      Pool.inspects_idle acquires front current (goes.advanceWork ht), looked goes,
      .inl (known.idle c there)⟩
  | @overdue intent m c rest begun acquires late commits =>
    obtain ⟨a, acquires⟩ := Intent.exists_acquisition acquires
    obtain ⟨x, goes⟩ := responds.begins begun
    have there : c ∈ r.pool.books.active := late.front ▸ List.mem_cons_self
    exact ⟨m, _, _, x, a, c.renewed _, m.now, goes, rfl,
      Pool.inspects_overdue acquires late commits (goes.advanceWork ht), looked goes,
      .inl (known.active c there)⟩
  | @reclaimed a c lookedAt m result holds event =>
    obtain ⟨x, goes⟩ := responds.continues_of_event event holds
    exact ⟨m, _, _, x, a, c.renewed _, lookedAt, goes, rfl,
      Pool.inspects_reclaimed (goes.advanceWork ht), looked_before goes rfl,
      .inl (known.reclaiming _ a c lookedAt holds)⟩
  | opened opened =>
    obtain ⟨s, m, a, lookedAt, event, holds⟩ := Move.exists_of_opened? opened
    obtain ⟨x, goes⟩ := responds.continues_of_event event holds
    obtain ⟨c, received, name⟩ := Option.map_eq_some_iff.1 (goes.opened?_eq.symm.trans opened)
    obtain rfl := Work.received?_eq_some received
    exact ⟨m, _, _, x, a, .fresh r.pool.nextConnection c r.pool.books.expected m.now, lookedAt,
      goes, name, Pool.inspects_opened (h.sound.unused _ (Nat.le_refl _)) (goes.advanceWork ht),
      looked_before goes rfl, .inr ⟨rfl, opened, rfl⟩⟩

/-- An acquisition tries a candidate that it has not opened itself if and only if that is open and
    has not been used for long enough. -/
theorem asked?_iff (h : Of (.opened id source policy) r) (ht : r.pool.respond e = some t)
    {u : Instant} (examination : Examination r.moves ⟨r.pool, e, t⟩ o (some u)) :
    let v : Move := ⟨r.pool, e, t⟩
    ∃ m lookedAt, v.moment? = some m ∧ lookedAt? v.caller (v :: r.moves) = some lookedAt ∧
      (v.asked? = some (.probe o.2 r.pool.books.policy.pingQuery) ↔
        m.isClosed o.2 = false ∧ r.pool.books.policy.pingEnabled = true ∧
          ∃ threshold, r.pool.books.policy.pingIdleThreshold = some threshold ∧
            threshold < lookedAt.since u) := by
  intro v
  obtain ⟨m, w, s, x, a, c, lookedAt, goes, rfl, inspects, looked, last⟩ :=
    h.inspects ht examination
  obtain same | ⟨none_used, -⟩ := last
  · have asked := goes.asked?_iff h.callsOnce inspects
    rw [Policy.pingDue_iff, Entry.idleTime, ← Option.some.inj same] at asked
    exact ⟨m, lookedAt, goes.moment?_eq, looked, asked⟩
  · cases none_used

/-- If the clock does not go back, an acquisition tries none that it has opened itself. -/
theorem not_asked_of_opened (h : Of (.opened id source policy) r) (steady : (r.move e t).Steady)
    (ht : r.pool.respond e = some t) (opened : Move.opened? ⟨r.pool, e, t⟩ = some o) {c : Physical}
    {query : String} : Move.asked? ⟨r.pool, e, t⟩ ≠ some (.probe c query) := by
  intro asked
  obtain ⟨m, w, s, x, a, c, lookedAt, goes, rfl, inspects, looked, last⟩ :=
    h.inspects ht (.opened opened)
  obtain same | ⟨-, -, now⟩ := last
  · cases same
  · obtain ⟨-, -, -, -, due⟩ := goes.tries_of_asked h.callsOnce inspects asked
    obtain ⟨-, threshold, -, lt⟩ := Policy.pingDue_iff.1 due
    -- It has been used for no time, as it has been opened since.
    have le : lookedAt ≤ c.lastUsedAt := now ▸ le_of_lastly steady goes.moment?_eq looked
    have none_passed : lookedAt.nanos - c.lastUsedAt.nanos = 0 := Nat.sub_eq_zero_of_le le
    have lt : threshold.nanos < lookedAt.nanos - c.lastUsedAt.nanos := lt
    omega

/-- Whoever asks a connection a query examines it, and begins to try it with the query of the
    policy. -/
theorem tries_of_asked (h : Of (.opened id source policy) r) (ht : r.pool.respond e = some t)
    {c : Physical} {query : String} (asked : Move.asked? ⟨r.pool, e, t⟩ = some (.probe c query)) :
    let v : Move := ⟨r.pool, e, t⟩
    query = r.pool.books.policy.pingQuery ∧ ∃ m w s a d k used,
      v.Continues m w s (.work (.examine a d k)) ∧ Examination r.moves v d.name used ∧
        d.physical = c ∧ k = r.pool.books.policy.trial c m := by
  intro v
  obtain ⟨m, w, s, w', goes, request⟩ | ⟨i, m, c', -, -, -, closes⟩ :=
    (Pool.responds_of_respond ht).asked? h.callsOnce asked
  · obtain ⟨a, d, k, rfl, probing, -⟩ := Work.exists_trial request
    obtain ⟨used, examination⟩ := goes.examination probing r.moves
    obtain ⟨m', w', s', x, a', d', lookedAt, goes', name, inspects, -⟩ := h.inspects ht examination
    obtain ⟨⟨a'', rfl⟩, rfl, rfl, -⟩ := goes'.tries_of_asked h.callsOnce inspects asked
    exact ⟨rfl, m', w', s', a'', d', _, used, goes', name ▸ examination, rfl, rfl⟩
  · cases closes

end Of

end Run

end LeasePool
