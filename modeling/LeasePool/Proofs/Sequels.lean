import LeasePool.Proofs.Respond

/-!
# What follows some work

A turn of the call that holds the lock begins with some work and with what the call learns, and
it has one of the endings of `LeasePool.Proofs.Turns`. `Pool.Sequel` lists what can follow what,
once: which work comes after which, what the turn has seen of the connection, and what it has
left in the books. While deeds tell where a turn takes the connections, sequels tell what is
asked of them: a call that goes on with some work waits for the answer to its request.

The relation is put together as the turns are. An acquisition *examines* a candidate, wherever
that comes from; then it *accepts* or *refuses* it; a release *returns* a lease; a reset *clears*
the connections one by one.

* `Turn.advanceWork_leads`: every turn of the holder of the lock leads to one of its sequels;
* `Move.Continues`: what such a turn makes of the pool.
-/

namespace LeasePool

/-! ## Sequels -/

/-- The books in which an acquisition that has to wait is counted, once. -/
def Books.countWaitOf (b : Books) (a : Acquisition) : Books :=
  if a.hasWaited then b else b.countWait

/-- Whether a returned connection is to be kept. -/
def Books.keeps (b : Books) (e : Entry) : Bool :=
  decide (e.signature = b.expected) && b.hasIdleCapacity

namespace Acquisition

/-- The acquisition when it has rejected one more candidate. -/
def again (a : Acquisition) : Acquisition := { a with rejected := a.rejected + 1 }

/-- The acquisition when it has had to wait. -/
def waited (a : Acquisition) : Acquisition := { a with hasWaited := true }

/-- An acquisition that has got rid of a candidate looks again, or gives up. -/
inductive Retries (a : Acquisition) (b : Books) : Ending → Prop
  | again (tolerated : a.rejected ≤ b.policy.badConnectionLimit) :
      Retries a b (.work (.begin (.acquire a)))
  | giveUp (exceeded : b.policy.badConnectionLimit < a.rejected) :
      Retries a b (.finished (.failed .noGoodConnection))

variable (m : Moment) (a : Acquisition) (e : Entry) (b : Books) (g : Generations)

/-- An acquisition refuses its candidate, and closes it unless it is closed. -/
inductive Refuses : Books → Ending → Prop
  | gone {x : Ending} (closed : m.isClosed e.physical = true)
      (retries : a.again.Retries b.countBad x) : Refuses b.countBad x
  | discard (is_open : m.isClosed e.physical = false) :
      Refuses b.countBad (.work (.discard a.again e))

/-- A candidate that has passed its test is handed out, after a rollback unless it commits on
    its own. -/
inductive Accepts : Books → Ending → Prop
  | lease (pool : PoolId) (commits : m.isAutoCommit e.physical = true) :
      Accepts (b.lease (e.stamped a b.source m.now) (m.now.since a.startedAt))
        (.finished (.leased { e.stamped a b.source m.now with pool := pool }))
  | prepare (uncommitted : m.isAutoCommit e.physical = false) : Accepts b (.work (.prepare a e))

/-- An acquisition examines its candidate. One that is current is refused only if it is closed. -/
inductive Examines : Books → Ending → Prop
  | test (query : String) : Examines b (.work (.examine a e ⟨e.physical, query, m.now, .probing⟩))
  | accept {b' : Books} {x : Ending} (accepts : a.Accepts m e b b' x) : Examines b' x
  | refuse {b' : Books} {x : Ending} (bad : e.isCurrent g = true → m.isClosed e.physical = true)
      (refuses : a.Refuses m e b b' x) : Examines b' x

/-- An acquisition looks at the books. -/
inductive Looks : Books → Ending → Prop
  | take {e : Entry} {b₁ b' : Books} {x : Ending} (found : b.takeIdle? = some (e, b₁))
      (examines : a.Examines m e b₁ g b' x) : Looks b' x
  | connect (none_idle : b.takeIdle? = none) (room : b.canOpen = true) :
      Looks b (.work (.connect a m.now))
  | reclaim {e : Entry} {b' : Books} (none_idle : b.takeIdle? = none) (full : b.canOpen = false)
      (overdue : b.claimOverdue? m.now = some (e, b'))
      (uncommitted : m.isAutoCommit e.physical = false) : Looks b' (.work (.reclaim a e m.now))
  | claim {e : Entry} {b₁ b' : Books} {x : Ending}
      (none_idle : b.takeIdle? = none) (full : b.canOpen = false)
      (overdue : b.claimOverdue? m.now = some (e, b₁))
      (commits : m.isAutoCommit e.physical = true)
      (examines : a.Examines m (e.renewed (g.advance e.id)) b₁ (g.advance e.id) b' x) : Looks b' x
  | timeOut (none_idle : b.takeIdle? = none) (full : b.canOpen = false)
      (none_overdue : b.claimOverdue? m.now = none)
      (elapsed : (a.waited.remaining m.now).any Duration.isZero = true) :
      Looks (b.countWaitOf a) (.finished (.failed (.noConnectionInTime b.active.length)))
  | sleep (none_idle : b.takeIdle? = none) (full : b.canOpen = false)
      (none_overdue : b.claimOverdue? m.now = none)
      (time : (a.waited.remaining m.now).any Duration.isZero = false) :
      Looks (b.countWaitOf a)
        (.asleep a.waited m.now (sleepLimit b.policy.maxWait (a.waited.remaining m.now)))

end Acquisition

namespace Entry

variable (m : Moment) (e : Entry) (b : Books)

/-- The rollback of a returned connection has ended. -/
inductive Undone (keep : Bool) (returnedAt : Instant) :
    Except PoolError Unit → Books → Ending → Prop
  | fail (cause : PoolError) :
      Undone keep returnedAt (.error cause) b (.work (.close e (some cause)))
  | keep {g : Generations} (kept : keep = true) :
      Undone keep returnedAt (.ok ()) (b.keep { e.renewed g with lastUsedAt := returnedAt })
        (.freed .done)
  | giveUp (left : keep = false) : Undone keep returnedAt (.ok ()) b (.work (.close e none))

/-- A lease is returned, and its connection is rolled back unless it commits on its own. -/
inductive Returned : Books → Ending → Prop
  | gone (closed : m.isClosed e.physical = true) : Returned b.countBad (.freed .done)
  | undo (is_open : m.isClosed e.physical = false)
      (uncommitted : m.isAutoCommit e.physical = false) :
      Returned (b.addCheckoutTime (e.checkoutTime m.now)) (.work (.undo e (b.keeps e) m.now))
  | commit {b' : Books} {x : Ending} (is_open : m.isClosed e.physical = false)
      (commits : m.isAutoCommit e.physical = true)
      (undone : e.Undone (b.addCheckoutTime (e.checkoutTime m.now)) (b.keeps e) m.now (.ok ())
        b' x) : Returned b' x

end Entry

/-- A reset goes on with the first of the connections that are left. -/
inductive Reset.Clears (m : Moment) : List Entry → Ending → Prop
  | done : Clears m [] (.freed .done)
  | undo {e : Entry} {rest : List Entry} (uncommitted : m.isAutoCommit e.physical = false) :
      Clears m (e :: rest) (.work (.resetUndo e rest))
  | close {e : Entry} {rest : List Entry} (commits : m.isAutoCommit e.physical = true) :
      Clears m (e :: rest) (.work (.resetClose e rest))

/-- What can follow when the holder of the lock goes on with its work: the books and the ending. -/
inductive Pool.Sequel (p : Pool) (m : Moment) : Work → Signal → Books → Ending → Prop
  | look {a : Acquisition} {b : Books} {x : Ending} (looks : a.Looks m p.books p.generations b x) :
      Sequel p m (.begin (.acquire a)) .proceed b x
  | awaken {a : Acquisition} {since : Instant} {b : Books} {x : Ending}
      (looks : a.Looks m (p.books.addWaitTime (m.now.since since)) p.generations b x) :
      Sequel p m (.begin (.awaken a since)) .proceed b x
  | missing {h : Handle} (none_found : p.books.removeActive? h.id h.generation = none) :
      Sequel p m (.begin (.release h)) .proceed p.books.countBad (.finished .done)
  | misplaced {h : Handle} {e : Entry} {b : Books}
      (found : p.books.removeActive? h.id h.generation = some (e, b))
      (old : e.isCurrent p.generations = false) :
      Sequel p m (.begin (.release h)) .proceed b.countBad (.finished .done)
  | takeBack {h : Handle} {e : Entry} {b b' : Books} {x : Ending}
      (found : p.books.removeActive? h.id h.generation = some (e, b))
      (current : e.isCurrent p.generations = true) (returned : e.Returned m b b' x) :
      Sequel p m (.begin (.release h)) .proceed b' x
  | refused {r : Reset} {e : PoolError} (refuses : r.apply p.books = .error e) :
      Sequel p m (.begin (.reset r)) .proceed p.books (.finished (.failed e))
  | reset {r : Reset} {b : Books} {x : Ending} (accepted : r.apply p.books = .ok b)
      (clears : Reset.Clears m b.entries x) :
      Sequel p m (.begin (.reset r)) .proceed
        { b.emptied with expected := b.source.signature } x
  | policy : Sequel p m (.begin (.inquire .policy)) .proceed p.books
      (.finished (.policy p.books.policy))
  | source : Sequel p m (.begin (.inquire .source)) .proceed p.books
      (.finished (.source p.books.source))
  | snapshot : Sequel p m (.begin (.inquire .snapshot)) .proceed p.books
      (.finished (.snapshot p.snapshot))
  | tolerate {n : UInt64} : Sequel p m (.begin (.inquire (.tolerate n))) .proceed
      { p.books with policy := p.books.policy.apply (.badConnectionTolerance n) }
      (.finished .done)
  | opened {a : Acquisition} {lookedAt : Instant} {c : Physical} {b : Books} {x : Ending}
      (examines : a.Examines m (.fresh p.nextConnection c p.books.expected m.now) p.books
        p.generations b x) :
      Sequel p m (.connect a lookedAt) (.connected (.ok c)) b x
  | openFailed {a : Acquisition} {lookedAt : Instant} {e : PoolError} :
      Sequel p m (.connect a lookedAt) (.connected (.error e)) p.books (.finished (.failed e))
  | reclaimed {a : Acquisition} {e : Entry} {lookedAt : Instant}
      {result : Except PoolError Unit} {b : Books} {x : Ending}
      (examines : a.Examines m (e.renewed (p.generations.advance e.id)) p.books
        (p.generations.advance e.id) b x) :
      Sequel p m (.reclaim a e lookedAt) (.answered result) b x
  | probed {a : Acquisition} {e : Entry} {c : Checkup} (phase : c.phase = .probing)
      (uncommitted : m.isAutoCommit c.physical = false) :
      Sequel p m (.examine a e c) (.answered (.ok ())) p.books
        (.work (.examine a e { c with phase := .rollingBack }))
  | failing {a : Acquisition} {e : Entry} {c : Checkup} {cause : PoolError}
      (phase : ∀ cause, c.phase ≠ .closing cause) :
      Sequel p m (.examine a e c) (.answered (.error cause)) p.books
        (.work (.examine a e { c with phase := .closing cause }))
  | passed {a : Acquisition} {e : Entry} {c : Checkup} {b : Books} {x : Ending}
      (phase : ∀ cause, c.phase ≠ .closing cause) (accepts : a.Accepts m e p.books b x) :
      Sequel p m (.examine a e c) (.answered (.ok ())) b x
  | failed {a : Acquisition} {e : Entry} {c : Checkup} {cause : PoolError}
      {result : Except PoolError Unit} {b : Books} {x : Ending} (phase : c.phase = .closing cause)
      (refuses : a.Refuses m e p.books b x) : Sequel p m (.examine a e c) (.answered result) b x
  | prepared {a : Acquisition} {e : Entry} (pool : PoolId) :
      Sequel p m (.prepare a e) (.answered (.ok ()))
        (p.books.lease (e.stamped a p.books.source m.now) (m.now.since a.startedAt))
        (.finished (.leased { e.stamped a p.books.source m.now with pool := pool }))
  | unprepared {a : Acquisition} {e : Entry} {cause : PoolError} {b : Books} {x : Ending}
      (refuses : a.Refuses m e p.books b x) :
      Sequel p m (.prepare a e) (.answered (.error cause)) b x
  | discarded {a : Acquisition} {e : Entry} {result : Except PoolError Unit} {x : Ending}
      (retries : a.Retries p.books x) : Sequel p m (.discard a e) (.answered result) p.books x
  | undone {e : Entry} {keep : Bool} {returnedAt : Instant} {result : Except PoolError Unit}
      {b : Books} {x : Ending} (undone : e.Undone p.books keep returnedAt result b x) :
      Sequel p m (.undo e keep returnedAt) (.answered result) b x
  | closed {e : Entry} {result : Except PoolError Unit} :
      Sequel p m (.close e none) (.answered result) p.books (.freed .done)
  | closedAfter {e : Entry} {cause : PoolError} {result : Except PoolError Unit} :
      Sequel p m (.close e (some cause)) (.answered result) p.books
        (.freed (.failed (.rollback cause.message)))
  | resetUndone {e : Entry} {rest : List Entry} {result : Except PoolError Unit} :
      Sequel p m (.resetUndo e rest) (.answered result) p.books (.work (.resetClose e rest))
  | resetClosed {e : Entry} {rest : List Entry} {result : Except PoolError Unit} {x : Ending}
      (clears : Reset.Clears m rest x) :
      Sequel p m (.resetClose e rest) (.answered result) p.books x

namespace Turn

/-- From `t` to `t'`, the turn of a call leads to books and an ending that are related by `R`. -/
def Leads (id : CallId) (t : Turn) (R : Books → Ending → Prop) (t' : Turn) : Prop :=
  ∃ c x, R c.books x ∧ t'.pool = (t.pool.having c).ended id x ∧
    t'.outcome = x.outcome?.or t.outcome

namespace Leads

variable {id : CallId} {t u t' : Turn} {R : Books → Ending → Prop}

/-- A turn that has only to end. -/
theorem ending (x : Ending) (h : R t.pool.books x) (pool : t'.pool = t.pool.ended id x)
    (outcome : t'.outcome = x.outcome?.or t.outcome) : Leads id t R t' :=
  ⟨t.pool.custodyWith .empty, x, h, pool, outcome⟩

/-- A turn that has so far changed only the connections and what is told of them, which leads
    to `u`. -/
theorem after (h : Leads id u R t') (pool : u.pool = t.pool.having (u.pool.custodyWith .empty))
    (outcome : u.outcome = t.outcome) : Leads id t R t' := by
  obtain ⟨c, x, hR, hp, ho⟩ := h
  refine ⟨c, x, hR, ?_, by rw [ho, outcome]⟩
  rw [hp, pool]
  rfl

theorem mono {R' : Books → Ending → Prop} (h : Leads id t R t')
    (le : ∀ b x, R b x → R' b x) : Leads id t R' t' := by
  obtain ⟨c, x, hR, rest⟩ := h
  exact ⟨c, x, le _ _ hR, rest⟩

end Leads

variable (t : Turn) (id : CallId) (m : Moment)

/-! ## Acquiring -/

section Acquire

variable (a : Acquisition) (e : Entry) (lookedAt : Instant)

theorem lease_leads {R : Books → Ending → Prop}
    (h : R (t.pool.books.lease (e.stamped a t.pool.books.source m.now) (m.now.since a.startedAt))
      (.finished (.leased { e.stamped a t.pool.books.source m.now with pool := t.pool.id }))) :
    Leads id t R (t.lease m a e) := by
  let u := t.setBooks
    (t.pool.books.lease (e.stamped a t.pool.books.source m.now) (m.now.since a.startedAt))
  have ends : Leads id u R (t.lease m a e) := .ending (.finished _) h (pool_unlock _) rfl
  exact .after ends rfl rfl

theorem afterRejection_leads {R : Books → Ending → Prop}
    (h : ∀ x, a.Retries t.pool.books x → R t.pool.books x) :
    Leads id t R (t.afterRejection id a) := by
  rw [afterRejection]
  split
  · next exceeded => exact .ending (.finished _) (h _ (.giveUp exceeded)) (pool_unlock _) rfl
  · next tolerated =>
    exact .ending (.work _) (h _ (.again (Nat.not_lt.1 tolerated))) rfl rfl

theorem reject_leads (why : Rejection) :
    Leads id t (a.Refuses m e t.pool.books) (t.reject id m a e why) := by
  let u := ((t.tell (.rejected e.id why.error)).setBooks t.pool.books.countBad).advance e.id
  rw [reject]
  split
  · next closed =>
    exact .after (u := u) (afterRejection_leads u id a.again fun x hx => .gone closed hx) rfl rfl
  · next is_open =>
    rw [Bool.not_eq_true] at is_open
    exact .after (u := u) (.ending (.work _) (.discard is_open) rfl rfl) rfl rfl

theorem prepare_leads : Leads id t (a.Accepts m e t.pool.books) (t.prepare id m a e) := by
  rw [prepare]
  split
  · next commits => exact lease_leads t id m a e (.lease t.pool.id commits)
  · next uncommitted =>
    rw [Bool.not_eq_true] at uncommitted
    exact .ending (.work _) (.prepare uncommitted) rfl rfl

/-- A candidate is tested, accepted or refused. -/
theorem examine_leads :
    Leads id t (a.Examines m e t.pool.books t.pool.generations) (t.examine id m a e lookedAt) := by
  rw [examine]
  split
  · rw [afterCheckup, Checkup.begin]
    cases closed : m.isClosed e.physical with
    | true =>
      exact .after (u := t.tellAll [])
        ((reject_leads _ id m a e .closed).mono fun _ _ h => .refuse (fun _ => closed) h) rfl rfl
    | false =>
      cases due : t.pool.books.policy.pingDue (e.idleTime lookedAt) with
      | true => exact .ending (.work _) (.test _) rfl rfl
      | false =>
        exact .after (u := t.tellAll [])
          ((prepare_leads _ id m a e).mono fun _ _ h => .accept h) rfl rfl
  · next old =>
    exact (reject_leads t id m a e .invalidated).mono fun _ _ h =>
      .refuse (fun current => absurd current old) h

theorem claimed_leads {R : Books → Ending → Prop}
    (h : ∀ b x, a.Examines m (e.renewed (t.pool.generations.advance e.id)) t.pool.books
      (t.pool.generations.advance e.id) b x → R b x) :
    Leads id t R (t.claimed id m a e lookedAt) :=
  .after (u := (t.advance e.id).tell (.claimedOverdue e.id))
    ((examine_leads _ id m a _ lookedAt).mono h) rfl rfl

/-- Whoever finds nothing falls asleep, or gives up if its deadline has passed. -/
theorem wait_leads (none_idle : t.pool.books.takeIdle? = none)
    (full : t.pool.books.canOpen = false)
    (none_overdue : t.pool.books.claimOverdue? m.now = none) :
    Leads id t (a.Looks m t.pool.books t.pool.generations) (t.wait id m a) := by
  -- Whether it is counted makes a difference to the books only.
  let u := t.setBooks (t.pool.books.countWaitOf a)
  have counted : (if a.hasWaited then t else t.setBooks t.pool.books.countWait) = u := by
    by_cases hw : a.hasWaited <;> simp only [u, Books.countWaitOf, hw, if_true] <;> rfl
  have active : u.pool.books.active = t.pool.books.active := by
    by_cases hw : a.hasWaited <;> simp only [u, Books.countWaitOf, hw, setBooks] <;> rfl
  have policy : u.pool.books.policy = t.pool.books.policy := by
    by_cases hw : a.hasWaited <;> simp only [u, Books.countWaitOf, hw, setBooks] <;> rfl
  refine .after (u := u) ?_ rfl rfl
  rw [wait, counted]
  dsimp only
  rw [active, policy]
  split
  · next elapsed =>
    exact .ending (.finished _) (.timeOut none_idle full none_overdue elapsed) (pool_unlock _) rfl
  · next time =>
    rw [Bool.not_eq_true] at time
    exact .ending (.asleep _ _ _) (.sleep none_idle full none_overdue time) (pool_unlock _)
      (outcome_unlock _)

/-- A look at the books ends with what is found first. -/
theorem look_leads : Leads id t (a.Looks m t.pool.books t.pool.generations) (t.look id m a) := by
  rw [look]
  -- What is looked for, in this order: an idle one, room for another, an overdue lease.
  split
  · next e b found =>
    exact .after (u := (t.setBooks b).tell (.checkedOut e.id))
      ((examine_leads _ id m a e m.now).mono fun _ _ h => .take found h) rfl rfl
  · next none_idle =>
    split
    · next room => exact .ending (.work _) (.connect none_idle room) rfl rfl
    · next full =>
      rw [Bool.not_eq_true] at full
      split
      · next e b overdue =>
        refine .after (u := t.setBooks b) ?_ rfl rfl
        split
        · next commits =>
          exact claimed_leads _ id m a e m.now fun b' x h =>
            .claim none_idle full overdue commits h
        · next uncommitted =>
          rw [Bool.not_eq_true] at uncommitted
          exact .ending (.work _) (.reclaim none_idle full overdue uncommitted) rfl rfl
      · next none_overdue => exact wait_leads t id m a none_idle full none_overdue

/-- The test of a candidate goes on when its request has been answered. -/
theorem afterCheckup_leads (c : Checkup) (result : Except PoolError Unit) :
    Leads id t (t.pool.Sequel m (.examine a e c) (.answered result))
      (t.afterCheckup id m a e (c.resume result m)) := by
  have passed (same : c.phase = .probing ∨ c.phase = .rollingBack) :
      Leads id t (t.pool.Sequel m (.examine a e c) (.answered (.ok ())))
        ((t.tellAll []).prepare id m a e) := by
    refine .after ((prepare_leads (t.tellAll []) id m a e).mono fun _ _ h => .passed ?_ h) rfl rfl
    rcases same with same | same <;> simp [same]
  -- What has been answered is the close of a failed candidate, its probe or its rollback.
  cases hc : c.phase with
  | closing cause =>
    simp only [afterCheckup, Checkup.resume, hc]
    exact .after ((reject_leads (t.tellAll []) id m a e _).mono fun _ _ h => .failed hc h) rfl rfl
  | probing =>
    cases result with
    | error cause =>
      simp only [afterCheckup, Checkup.resume, hc]
      exact .ending (.work _) (.failing (by simp [hc])) rfl rfl
    | ok =>
      simp only [afterCheckup, Checkup.resume, hc]
      cases commits : m.isAutoCommit c.physical with
      | true => exact passed (.inl hc)
      | false => exact .ending (.work _) (.probed hc commits) rfl rfl
  | rollingBack =>
    cases result with
    | error cause =>
      simp only [afterCheckup, Checkup.resume, hc]
      exact .ending (.work _) (.failing (by simp [hc])) rfl rfl
    | ok =>
      simp only [afterCheckup, Checkup.resume, hc]
      exact passed (.inr hc)

end Acquire

/-! ## Returning and resetting -/

section Return

variable (e : Entry)

theorem releaseDone_leads {R : Books → Ending → Prop} (o : Outcome)
    (h : R t.pool.books (.freed o)) : Leads id t R (t.releaseDone o) :=
  .ending (.freed o) h (congrArg Pool.rouseAll (pool_unlock t)) rfl

/-- A connection that has been rolled back is kept or closed, and one that could not be is closed.
    -/
theorem afterUndo_leads (keep : Bool) (returnedAt : Instant) (result : Except PoolError Unit) :
    Leads id t (e.Undone t.pool.books keep returnedAt result)
      (t.afterUndo id e keep returnedAt result) := by
  cases result with
  | error cause => exact .after (u := t.advance e.id) (.ending (.work _) (.fail cause) rfl rfl) rfl rfl
  | ok =>
    cases keep with
    | true =>
      let u := ((t.advance e.id).tell (.returned e.id)).setBooks (t.pool.books.keep
        { e.renewed (t.pool.generations.advance e.id) with lastUsedAt := returnedAt })
      exact .after (u := u) (releaseDone_leads u id _ (.keep rfl)) rfl rfl
    | false =>
      exact .after (u := t.advance e.id) (.ending (.work _) (.giveUp rfl) rfl rfl) rfl rfl

/-- A connection that comes back is let go, rolled back, kept or closed. -/
theorem returned_leads : Leads id t (e.Returned m t.pool.books) (t.returned id m e) := by
  rw [returned]
  split
  · next closed =>
    let u := ((t.tell (.closedReturned e.id)).setBooks t.pool.books.countBad).advance e.id
    exact .after (u := u) (releaseDone_leads u id _ (.gone closed)) rfl rfl
  · next is_open =>
    rw [Bool.not_eq_true] at is_open
    refine .after (u := t.setBooks (t.pool.books.addCheckoutTime (e.checkoutTime m.now))) ?_ rfl rfl
    split
    · next commits => exact (afterUndo_leads _ id e _ _ _).mono fun _ _ h => .commit is_open commits h
    · next uncommitted =>
      rw [Bool.not_eq_true] at uncommitted
      exact .ending (.work _) (.undo is_open uncommitted) rfl rfl

/-- A release finds its lease, or it is counted as a bad connection. -/
theorem release_leads (h : Handle) :
    Leads id t (t.pool.Sequel m (.begin (.release h)) .proceed) (t.release id m h) := by
  rw [release]
  split
  · next none_found =>
    exact .after (u := (t.tell _).setBooks _)
      (.ending (.finished .done) (.missing none_found) (pool_unlock _) rfl) rfl rfl
  · next e b found =>
    dsimp only
    split
    · next current =>
      exact .after (u := t.setBooks b)
        ((returned_leads _ id m e).mono fun _ _ h => .takeBack found current h) rfl rfl
    · next old =>
      rw [Bool.not_eq_true] at old
      exact .after (u := ((t.setBooks b).tell _).setBooks _)
        (.ending (.finished .done) (.misplaced found old) (pool_unlock _) rfl) rfl rfl

theorem afterClose_leads (cause : Option PoolError) (result : Except PoolError Unit) :
    Leads id t (t.pool.Sequel m (.close e cause) (.answered result))
      (t.afterClose e cause result) := by
  cases cause with
  | some cause =>
    exact .after (releaseDone_leads (t.tell _) id _ .closedAfter) rfl rfl
  | none =>
    cases result with
    | ok => exact .after (releaseDone_leads (t.tell _) id _ .closed) rfl rfl
    | error problem =>
      exact .after (releaseDone_leads ((t.tell _).tell _) id _ .closed) rfl rfl

/-- A reset goes on with the next connection, until there is none. -/
theorem closeEach_leads {R : Books → Ending → Prop} (rest : List Entry)
    (h : ∀ x, Reset.Clears m rest x → R t.pool.books x) :
    Leads id t R (t.closeEach id m rest) := by
  cases rest with
  | nil =>
    refine .ending (.freed .done) (h _ .done) ?_ rfl
    exact (pool_unlock _).trans (Pool.passLock_rouseAll _)
  | cons e rest =>
    rw [closeEach]
    refine .after (u := t.advance e.id) ?_ rfl rfl
    split
    · next commits => exact .ending (.work _) (h _ (.close commits)) rfl rfl
    · next uncommitted =>
      rw [Bool.not_eq_true] at uncommitted
      exact .ending (.work _) (h _ (.undo uncommitted)) rfl rfl

theorem reset_leads (r : Reset) :
    Leads id t (t.pool.Sequel m (.begin (.reset r)) .proceed) (t.reset id m r) := by
  rw [reset]
  split
  · next refuses => exact .ending (.finished _) (.refused refuses) (pool_unlock _) rfl
  · next b accepted =>
    exact .after (closeEach_leads (t.setBooks _) id m _ fun x hx => .reset accepted hx) rfl rfl

end Return

theorem inquire_leads (q : Inquiry) :
    Leads id t (t.pool.Sequel m (.begin (.inquire q)) .proceed) (t.inquire q) := by
  cases q with
  | policy => exact .ending (.finished _) .policy (pool_unlock _) rfl
  | source => exact .ending (.finished _) .source (pool_unlock _) rfl
  | snapshot => exact .ending (.finished _) .snapshot (pool_unlock _) rfl
  | tolerate n =>
    exact .after (u := t.setBooks _) (.ending (.finished .done) .tolerate (pool_unlock _) rfl)
      rfl rfl

theorem begin_leads (intent : Intent) :
    Leads id (t.greet (.begin intent)) (t.pool.Sequel m (.begin intent) .proceed)
      (t.begin id m intent) := by
  cases intent with
  | acquire a => exact (look_leads t id m a).mono fun _ _ h => .look h
  | awaken a asleepSince =>
    exact .after (u := t.stopWaiting.setBooks _)
      ((look_leads _ id m a).mono fun _ _ h => .awaken h) rfl rfl
  | release h => exact release_leads t id m h
  | reset r => exact reset_leads t id m r
  | inquire q => exact inquire_leads t id m q

/-- Every turn of the call that holds the lock leads to one of the sequels of its work. -/
theorem advanceWork_leads {w : Work} {s : Signal} {t' : Turn}
    (h : t.advanceWork id m w s = some t') :
    Leads id (t.greet w) (t.pool.Sequel m w s) t' := by
  unfold advanceWork at h
  split at h <;> cases h
  · exact begin_leads t id m _
  · next a lookedAt result =>
    cases result with
    | ok c =>
      exact .after ((examine_leads _ id m a _ lookedAt).mono fun _ _ h => .opened h) rfl rfl
    | error e => exact .ending (.finished _) .openFailed (pool_unlock _) rfl
  · next a e lookedAt result =>
    cases result with
    | ok => exact claimed_leads _ id m a e lookedAt fun _ _ h => .reclaimed h
    | error cause =>
      exact .after (claimed_leads (t.tell _) id m a e lookedAt fun _ _ h => .reclaimed h) rfl rfl
  · exact afterCheckup_leads t id m _ _ _ _
  · next a e result =>
    cases result with
    | ok => exact lease_leads t id m a e (.prepared t.pool.id)
    | error cause => exact (reject_leads t id m a e _).mono fun _ _ h => .unprepared h
  · exact afterRejection_leads t id _ fun _ h => .discarded h
  · exact (afterUndo_leads t id _ _ _ _).mono fun _ _ h => .undone h
  · exact afterClose_leads t id m _ _ _
  · exact .ending (.work _) .resetUndone rfl rfl
  · exact closeEach_leads t id m _ fun _ h => .resetClosed h

end Turn

/-! ## The pool after a turn of the holder of the lock -/

/-- No call is in another place in `q` than in `p`. -/
structure Pool.Unmoved (p q : Pool) : Prop where
  holder : q.holder = p.holder
  queue : q.queue = p.queue
  sleepers : q.sleepers = p.sleepers
  roused : q.roused = p.roused
  errands : q.errands = p.errands
  nextCall : q.nextCall = p.nextCall

/-- A turn in which the holder of the lock goes on with some work, and that has the ending `x`. -/
structure Move.Continues (v : Move) (m : Moment) (w : Work) (s : Signal) (x : Ending) : Prop where
  event : v.event = .resume v.caller s m
  holds : v.before.holder = some (v.caller, w)
  sequel : v.before.Sequel m w s v.after.books x
  after : ∃ q, v.before.Unmoved q ∧ v.after = q.ended v.caller x
  outcome : v.turn.outcome = x.outcome?

namespace Pool

variable {p : Pool} {id : CallId} {w : Work} {x : Ending}

theorem unmoved_greet (c : Custody) : p.Unmoved ((p.turn.greet w).pool.having c) := by
  unfold Turn.greet
  split <;> exact ⟨rfl, rfl, rfl, rfl, rfl, rfl⟩

end Pool

/-- In a turn of the holder of the lock it goes on with its work, and nothing but the custody and
    the ending tells the pool after it from that in which the work begins. -/
theorem Move.exists_continues_ended {p : Pool} {id : CallId} {w : Work} {s : Signal} {m : Moment}
    {t : Turn} (holds : p.holder = some (id, w)) (h : p.turn.advanceWork id m w s = some t) :
    ∃ x c, Continues ⟨p, .resume id s m, t⟩ m w s x ∧
      t.pool = ((p.turn.greet w).pool.having c).ended id x := by
  obtain ⟨c, x, sequel, pool, outcome⟩ := Turn.advanceWork_leads p.turn id m h
  have books : t.pool.books = c.books := by rw [pool, Pool.books_ended]; rfl
  refine ⟨x, c, ⟨rfl, holds, books ▸ sequel, ⟨_, Pool.unmoved_greet c, pool⟩, ?_⟩, pool⟩
  rw [outcome, Pool.outcome_greet, Option.or_none]

/-- Every turn of the holder of the lock is one in which it goes on with its work. -/
theorem Move.exists_continues {p : Pool} {id : CallId} {w : Work} {s : Signal} {m : Moment}
    {t : Turn} (holds : p.holder = some (id, w)) (h : p.turn.advanceWork id m w s = some t) :
    ∃ x, Continues ⟨p, .resume id s m, t⟩ m w s x := by
  obtain ⟨x, _, continues, _⟩ := exists_continues_ended holds h
  exact ⟨x, continues⟩

/-! ## Acquisitions that go on -/

/-- For whom a call with an intent acquires a connection, if it does. -/
def Intent.login? : Intent → Option Login
  | .acquire a | .awaken a _ => some a.login
  | _ => none

/-- For whom a call that does some work acquires a connection, if it does. -/
def Work.login? : Work → Option Login
  | .begin intent => intent.login?
  | .connect a _ | .reclaim a _ _ | .examine a _ _ | .prepare a _ | .discard a _ => some a.login
  | _ => none

/-- For whom a call goes on acquiring a connection, if it does. -/
def Ending.login? : Ending → Option Login
  | .work w => w.login?
  | .asleep a _ _ => some a.login
  | _ => none

/-- The acquisition that a call with an intent is, if it is one. -/
def Intent.acquisition? : Intent → Option Acquisition
  | .acquire a | .awaken a _ => some a
  | _ => none

/-- The acquisition that a call is which does some work, if it is one. -/
def Work.acquisition? : Work → Option Acquisition
  | .begin intent => intent.acquisition?
  | .connect a _ | .reclaim a _ _ | .examine a _ _ | .prepare a _ | .discard a _ => some a
  | _ => none

/-- The acquisition that a call goes on with, if it is one. -/
def Ending.acquisition? : Ending → Option Acquisition
  | .work w => w.acquisition?
  | .asleep a _ _ => some a
  | _ => none

theorem Work.login?_eq (w : Work) : w.login? = w.acquisition?.map Acquisition.login := by
  cases w with
  | begin intent => cases intent <;> rfl
  | _ => rfl

theorem Ending.login?_eq (x : Ending) : x.login? = x.acquisition?.map Acquisition.login := by
  cases x with
  | work w => exact w.login?_eq
  | _ => rfl

namespace Acquisition

/-- For whom an acquisition is, and since when. -/
def origin (a : Acquisition) : Login × Instant := (a.login, a.startedAt)

variable {a : Acquisition} {m : Moment} {e : Entry} {b b' : Books} {g : Generations} {x : Ending}

/-- An acquisition that goes on is what it was, and so is the data source. -/
structure Remains (a : Acquisition) (b b' : Books) (x : Ending) : Prop where
  source : b'.source = b.source
  origin : x.outcome? = none → x.acquisition?.map Acquisition.origin = some a.origin

theorem Retries.remains (h : a.Retries b x) : a.Remains b b x := by
  cases h with
  | again tolerated => exact ⟨rfl, fun _ => rfl⟩
  | giveUp exceeded => exact ⟨rfl, fun on => by cases on⟩

theorem Refuses.remains (h : a.Refuses m e b b' x) : a.Remains b b' x := by
  cases h with
  | gone closed retries => exact ⟨rfl, retries.remains.origin⟩
  | discard is_open => exact ⟨rfl, fun _ => rfl⟩

theorem Accepts.remains (h : a.Accepts m e b b' x) : a.Remains b b' x := by
  cases h with
  | lease pool commits => exact ⟨rfl, fun on => by cases on⟩
  | prepare uncommitted => exact ⟨rfl, fun _ => rfl⟩

theorem Examines.remains (h : a.Examines m e b g b' x) : a.Remains b b' x := by
  cases h with
  | test query => exact ⟨rfl, fun _ => rfl⟩
  | accept accepts => exact accepts.remains
  | refuse bad refuses => exact refuses.remains

theorem source_countWaitOf (b : Books) (a : Acquisition) : (b.countWaitOf a).source = b.source := by
  by_cases hw : a.hasWaited <;> simp only [Books.countWaitOf, hw] <;> rfl

/-- A look at the books changes neither the data source nor for whom and since when it is made. -/
theorem Looks.remains (h : a.Looks m b g b' x) : a.Remains b b' x := by
  cases h with
  | take found examines =>
    obtain ⟨rest, -, rfl⟩ := Books.takeIdle?_eq_some found
    exact ⟨examines.remains.source, examines.remains.origin⟩
  | connect none_idle room => exact ⟨rfl, fun _ => rfl⟩
  | reclaim none_idle full overdue uncommitted =>
    obtain ⟨rest, counters, -, -, rfl⟩ := Books.claimOverdue?_eq_some overdue
    exact ⟨rfl, fun _ => rfl⟩
  | claim none_idle full overdue commits examines =>
    obtain ⟨rest, counters, -, -, rfl⟩ := Books.claimOverdue?_eq_some overdue
    exact ⟨examines.remains.source, examines.remains.origin⟩
  | timeOut none_idle full none_overdue elapsed =>
    exact ⟨source_countWaitOf b a, fun on => by cases on⟩
  | sleep none_idle full none_overdue time => exact ⟨source_countWaitOf b a, fun _ => rfl⟩

end Acquisition

namespace Pool

variable {p : Pool} {m : Moment} {w : Work} {s : Signal} {b : Books} {x : Ending}

/-- The data source is changed by no turn but the one that is to change it, and a call that goes on
    is the acquisition that it was before, if it was one. -/
structure Sequel.Remains (p : Pool) (w : Work) (b : Books) (x : Ending) : Prop where
  source : b.source = p.books.source ∨ ∃ change, w = .begin (.reset (.redirect change))
  origin : x.outcome? = none →
    x.acquisition?.map Acquisition.origin = w.acquisition?.map Acquisition.origin

namespace Sequel.Remains

theorem login (h : Sequel.Remains p w b x) (on : x.outcome? = none) : x.login? = w.login? := by
  have same := congrArg (Option.map Prod.fst) (h.origin on)
  rw [Option.map_map, Option.map_map] at same
  rw [Ending.login?_eq, Work.login?_eq]
  exact same

theorem startedAt (h : Sequel.Remains p w b x) (on : x.outcome? = none) :
    x.acquisition?.map Acquisition.startedAt = w.acquisition?.map Acquisition.startedAt := by
  have same := congrArg (Option.map Prod.snd) (h.origin on)
  rwa [Option.map_map, Option.map_map] at same

end Sequel.Remains

/-- Whatever the holder of the lock is doing, it goes on with the acquisition that it was, and only
    a redirection changes the data source. -/
theorem Sequel.remains (h : p.Sequel m w s b x) : Sequel.Remains p w b x := by
  have goes {a : Acquisition} {b₀ : Books} (h : a.Remains b₀ b x) (same : b₀.source = p.books.source)
      (is : w.acquisition? = some a) : Sequel.Remains p w b x :=
    ⟨.inl (h.source.trans same), fun on => by rw [h.origin on, is, Option.map_some]⟩
  -- A call that is not for an acquisition does not become one.
  have other (same : b.source = p.books.source) (origin : x.outcome? = none →
      x.acquisition?.map Acquisition.origin = w.acquisition?.map Acquisition.origin) :
      Sequel.Remains p w b x := ⟨.inl same, origin⟩
  have concluded {o : Outcome} (same : b.source = p.books.source) (ended : x.outcome? = some o) :
      Sequel.Remains p w b x := ⟨.inl same, fun on => by rw [ended] at on; cases on⟩
  have undone {e : Entry} {b₀ : Books} {keep : Bool} {returnedAt : Instant}
      {result : Except PoolError Unit} (h : e.Undone b₀ keep returnedAt result b x)
      (same : b₀.source = p.books.source) (is_none : w.acquisition? = none) :
      Sequel.Remains p w b x := by
    cases h with
    | keep kept => exact concluded same rfl
    | _ => exact other same fun _ => by rw [is_none]; rfl
  have cleared {rest : List Entry} (h : Reset.Clears m rest x) (is_none : w.acquisition? = none) :
      x.outcome? = none →
        x.acquisition?.map Acquisition.origin = w.acquisition?.map Acquisition.origin := by
    rw [is_none]
    cases h <;> exact fun _ => rfl
  cases h with
  | look looks => exact goes looks.remains rfl rfl
  | awaken looks => exact goes looks.remains rfl rfl
  | missing none_found => exact concluded rfl rfl
  | @misplaced h e b found old =>
    obtain ⟨before, later, -, -, -, rfl⟩ := Books.removeActive?_eq_some found
    exact concluded rfl rfl
  | takeBack found current returned =>
    obtain ⟨before, later, -, -, -, rfl⟩ := Books.removeActive?_eq_some found
    cases returned with
    | gone closed => exact concluded rfl rfl
    | undo is_open uncommitted => exact other rfl fun _ => rfl
    | commit is_open commits h => exact undone h rfl rfl
  | @reset r b x accepted clears =>
    refine ⟨?_, cleared clears rfl⟩
    cases r with
    | redirect change => exact .inr ⟨change, rfl⟩
    | configure change =>
      rw [Reset.apply] at accepted
      split at accepted <;> cases accepted
      exact .inl rfl
    | _ =>
      cases accepted
      exact .inl rfl
  | opened examines => exact goes examines.remains rfl rfl
  | reclaimed examines => exact goes examines.remains rfl rfl
  | passed phase accepts => exact goes accepts.remains rfl rfl
  | failed phase refuses => exact goes refuses.remains rfl rfl
  | unprepared refuses => exact goes refuses.remains rfl rfl
  | discarded retries => exact goes retries.remains rfl rfl
  | undone h => exact undone h rfl rfl
  | resetClosed clears => exact other rfl (cleared clears rfl)
  | probed phase uncommitted => exact other rfl fun _ => rfl
  | failing phase => exact other rfl fun _ => rfl
  | resetUndone => exact other rfl fun _ => rfl
  | _ => exact concluded rfl rfl

end Pool

/-! ## Connections that are handed out -/

namespace Pool

variable {p : Pool} {m : Moment} {w : Work} {s : Signal} {b : Books} {e : Event} {t : Turn}

/-- How a connection is handed out: it is the candidate of an acquisition, which has rolled it back
    unless it commits on its own. -/
inductive Lends (p : Pool) (m : Moment) (y : Handle) : Work → Signal → Books → Prop
  | prepared {a : Acquisition} {e : Entry} (same : y.toEntry = e.stamped a p.books.source m.now) :
      Lends p m y (.prepare a e) (.answered (.ok ()))
        (p.books.lease y.toEntry (m.now.since a.startedAt))
  | commits {w : Work} {s : Signal} {a : Acquisition} {e : Entry} {b : Books}
      (acquires : w.acquisition? = some a) (same : y.toEntry = e.stamped a b.source m.now)
      (commits : m.isAutoCommit y.physical = true) :
      Lends p m y w s (b.lease y.toEntry (m.now.since a.startedAt))

/-- A handle is handed out for the candidate of an acquisition, whose rollback is behind it. -/
theorem Sequel.lends {x : Ending} {y : Handle} (h : p.Sequel m w s b x)
    (issued : x.outcome?.bind Outcome.handle? = some y) : p.Lends m y w s b := by
  -- Of all that can become of a candidate only its acceptance hands it out.
  have retried {a : Acquisition} {b : Books} (h : a.Retries b x) : False := by
    cases h <;> cases issued
  have refused {a : Acquisition} {e : Entry} {b b' : Books} (h : a.Refuses m e b b' x) :
      False := by
    cases h with
    | gone closed retries => exact retried retries
    | discard is_open => cases issued
  have accepted {a : Acquisition} {e : Entry} {b b' : Books} (acquires : w.acquisition? = some a)
      (h : a.Accepts m e b b' x) : p.Lends m y w s b' := by
    cases h with
    | lease pool commits =>
      cases issued
      exact .commits (e := e) acquires rfl commits
    | prepare uncommitted => cases issued
  have examined {a : Acquisition} {e : Entry} {b b' : Books} {g : Generations}
      (acquires : w.acquisition? = some a) (h : a.Examines m e b g b' x) : p.Lends m y w s b' := by
    cases h with
    | test query => cases issued
    | accept accepts => exact accepted acquires accepts
    | refuse bad refuses => exact (refused refuses).elim
  have looked {a : Acquisition} {b b' : Books} {g : Generations}
      (acquires : w.acquisition? = some a) (h : a.Looks m b g b' x) : p.Lends m y w s b' := by
    cases h with
    | take found examines => exact examined acquires examines
    | claim none_idle full overdue commits examines => exact examined acquires examines
    | _ => cases issued
  cases h with
  | look looks => exact looked rfl looks
  | awaken looks => exact looked rfl looks
  | takeBack found current returned =>
    cases returned with
    | commit is_open commits undone => cases undone <;> cases issued
    | _ => cases issued
  | @reset r b x accepted clears =>
    generalize b.entries = rest at clears
    cases clears <;> cases issued
  | opened examines => exact examined rfl examines
  | reclaimed examines => exact examined rfl examines
  | passed phase accepts => exact accepted rfl accepts
  | failed phase refuses => exact (refused refuses).elim
  | prepared pool =>
    cases issued
    exact .prepared rfl
  | unprepared refuses => exact (refused refuses).elim
  | discarded retries => exact (retried retries).elim
  | undone undone => cases undone <;> cases issued
  | resetClosed clears => cases clears <;> cases issued
  | _ => cases issued

theorem Lends.mem_active {y : Handle} (h : p.Lends m y w s b) : y.toEntry ∈ b.active := by
  cases h <;> exact List.mem_append_right _ (List.mem_singleton_self _)

/-- Only the holder of the lock hands out a connection. -/
theorem Responds.lends (h : p.Responds e t) {y : Handle}
    (issued : Move.issued? ⟨p, e, t⟩ = some y) :
    ∃ m w s x, Move.Continues ⟨p, e, t⟩ m w s x ∧ p.Lends m y w s t.pool.books := by
  have silent (quiet : t.outcome.bind Outcome.handle? = none) : False := by
    rw [Move.issued?, quiet] at issued
    cases issued
  cases h with
  | enter ns intent => exact (silent (by rw [outcome_lock]; rfl)).elim
  | goOn holds h =>
    obtain ⟨x, hx⟩ := Move.exists_continues holds h
    rw [Move.issued?, hx.outcome] at issued
    exact ⟨_, _, _, x, hx, hx.sequel.lends issued⟩
  | relock elsewhere found => exact (silent (by rw [Turn.relock, outcome_lock]; rfl)).elim
  | getUp elsewhere found due => exact (silent (by rw [Turn.relock, outcome_lock]; rfl)).elim
  | errand elsewhere found h => exact (silent (custody_advanceErrand h).2).elim
  | cut holds => exact (silent (by rw [outcome_dropWork]; rfl)).elim
  | withdraw elsewhere found => exact (silent (by rw [outcome_dropQueued]; rfl)).elim
  | _ => cases issued

end Pool

end LeasePool
