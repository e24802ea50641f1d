import LeasePool.Proofs.Books
import LeasePool.Proofs.Deeds
import LeasePool.Proofs.Run

/-!
# Turns cut into deeds

A turn of the call that holds the lock does some deeds, one after the other, and then leaves the
call in one of four ways (`Ending`): it goes on with some work, it is over, it is over and the
sleepers are roused, or its caller falls asleep. The ending decides what becomes of the lock,
the queue, the sleepers and the roused callers, and the deeds decide all the rest
(`Turn.Acts`).

Every function that a turn is put together from has one statement here, that it acts in this
way; they follow the calls of these functions by each other, from the last one to the first.

* `advanceWork_acts`: a turn of the holder of the lock does only deeds of its purpose;
* `Acts.path`: its deeds lead from the custody before the turn to the custody after it.
-/

namespace LeasePool

/-! ## Endings -/

/-- How a turn leaves the call that holds the lock. -/
inductive Ending where
  /-- The call goes on with some work. -/
  | work (w : Work)
  /-- The call is over. -/
  | finished (o : Outcome)
  /-- The call is over, and all sleepers are roused. -/
  | freed (o : Outcome)
  /-- The caller falls asleep. -/
  | asleep (a : Acquisition) (since : Instant) (limit : Option Duration)

namespace Ending

/-- How the call has ended, if it has. -/
def outcome? : Ending → Option Outcome
  | finished o | freed o => some o
  | _ => none

/-- What the call has in hand that goes on. -/
def hand : Ending → Hand
  | .work w => w.hand
  | _ => .empty

/-- Whether a call for some purpose can end like this with its connections as they are: its
    work is what it has in hand, and otherwise its hand is empty, unless the sleepers are owed
    something. A caller falls asleep only if there is no connection to be had. -/
def Fits (m : Moment) (k : Purpose) (c : Custody) : Ending → Prop
  | work w => c.hand = w.hand ∧ w.purpose = k
  | finished _ => c.hand = .empty
  | freed _ => c.hand = .owing
  | asleep _ _ _ => k = .acquire ∧ c.hand = .empty ∧ c.books.takeIdle? = none ∧
      c.books.canOpen = false ∧ c.books.claimOverdue? m.now = none

end Ending

namespace Pool

variable (p : Pool)

/-- The lock is given to the first call in the queue. -/
def passLock : Pool :=
  match p.queue with
  | [] => { p with holder := none }
  | (id, intent) :: queue => { p with holder := some (id, .begin intent), queue := queue }

/-- All sleepers are roused. -/
def rouseAll : Pool := { p with sleepers := [], roused := p.roused ++ p.sleepers }

/-- The pool after a turn of the call that holds the lock, when it has done its deeds. -/
def ended (id : CallId) : Ending → Pool
  | .work w => { p with holder := some (id, w) }
  | .finished _ => p.passLock
  | .freed _ => p.passLock.rouseAll
  | .asleep a since limit =>
    passLock { p with
      sleepers := p.sleepers ++ [⟨id, a, since, limit⟩], waiting := p.waiting + 1 }

theorem passLock_rouseAll : p.rouseAll.passLock = p.passLock.rouseAll := by
  cases h : p.queue <;> simp only [passLock, rouseAll, h]

theorem books_passLock : p.passLock.books = p.books := by
  cases h : p.queue <;> simp only [passLock, h]

theorem books_ended (id : CallId) (x : Ending) : (p.ended id x).books = p.books := by
  cases x with
  | work w => rfl
  | finished o => exact books_passLock p
  | freed o => exact books_passLock p
  | asleep a since limit => exact books_passLock _

end Pool

namespace Turn

theorem pool_unlock (t : Turn) : t.unlock.pool = t.pool.passLock := by
  cases h : t.pool.queue <;> simp only [unlock, Pool.passLock, h]

theorem outcome_unlock (t : Turn) : t.unlock.outcome = t.outcome := by
  cases h : t.pool.queue <;> simp only [unlock, h]

/-- The deeds `ds`, which lead to the custody `c`, and the ending `x`, by which the turn `t` of
    the call `id` becomes `t'`. It has the given hand at first, and receives the connections `os`
    from the factory. -/
structure Doing (m : Moment) (id : CallId) (k : Purpose) (t : Turn) (hand : Hand)
    (os : List (ConnectionId × Physical)) (t' : Turn) (ds : List Deed) (x : Ending)
    (c : Custody) : Prop where
  path : Custody.Path (t.pool.custodyWith hand) ds c
  purpose : ∀ d ∈ ds, d.purpose? = some k
  opened : ds.filterMap Deed.opened? = os
  /-- A handle is handed out by the last deed, and only there. -/
  issued : ∃ before, ds = before ++ (x.outcome?.bind Outcome.handle?).toList.map Deed.lease ∧
    ∀ d ∈ before, d.issued? = none
  fits : x.Fits m k c
  pool : t'.pool = (t.pool.having c).ended id x
  outcome : t'.outcome = x.outcome?.or t.outcome

/-- From `t`, with the given hand, to `t'`, the turn of the call `id` does deeds of its purpose
    and leaves the call. -/
def Acts (m : Moment) (id : CallId) (k : Purpose) (t : Turn) (hand : Hand)
    (os : List (ConnectionId × Physical)) (t' : Turn) : Prop :=
  ∃ ds x c, Doing m id k t hand os t' ds x c

namespace Acts

variable {m : Moment} {id : CallId} {k : Purpose} {hand : Hand}
  {os : List (ConnectionId × Physical)} {t u t' : Turn} {d : Deed} {c : Custody}

/-- A turn that has only to end. -/
theorem ending (x : Ending) (fits : x.Fits m k (t.pool.custodyWith hand))
    (pool : t'.pool = t.pool.ended id x) (outcome : t'.outcome = x.outcome?.or t.outcome)
    (issued : x.outcome?.bind Outcome.handle? = none) : Acts m id k t hand [] t' :=
  ⟨[], x, _, .nil, fun _ h => absurd h List.not_mem_nil, rfl,
    ⟨[], by rw [issued]; rfl, fun _ h => absurd h List.not_mem_nil⟩, fits, pool, outcome⟩

/-- A turn that begins with a deed, which leads to `u`. -/
theorem after (step : Custody.Step m (t.pool.custodyWith hand) d c)
    (purpose : d.purpose? = some k) (opened : d.opened? = none) (issued : d.issued? = none)
    (h : Acts m id k u c.hand os t') (pool : u.pool = t.pool.having c)
    (outcome : u.outcome = t.outcome) : Acts m id k t hand os t' := by
  obtain ⟨ds, x, c', hd⟩ := h
  have path := hd.path
  rw [pool] at path
  refine ⟨d :: ds, x, c', .cons step path, ?_, ?_, ?_, hd.fits, ?_, ?_⟩
  · exact List.forall_mem_cons.2 ⟨purpose, hd.purpose⟩
  · rw [List.filterMap_cons_none opened, hd.opened]
  · obtain ⟨before, hb, quiet⟩ := hd.issued
    exact ⟨d :: before, by rw [hb]; rfl, List.forall_mem_cons.2 ⟨issued, quiet⟩⟩
  · rw [hd.pool, pool]; rfl
  · rw [hd.outcome, outcome]

/-- A turn that begins with a deed which changes only what is in hand. -/
theorem handing {hand' : Hand}
    (step : Custody.Step m (t.pool.custodyWith hand) d (t.pool.custodyWith hand'))
    (purpose : d.purpose? = some k) (opened : d.opened? = none) (issued : d.issued? = none)
    (h : Acts m id k t hand' os t') : Acts m id k t hand os t' :=
  .after step purpose opened issued h rfl rfl

/-- A turn that has changed nothing of the pool so far. -/
theorem same (h : Acts m id k u hand os t') (pool : u.pool = t.pool)
    (outcome : u.outcome = t.outcome) : Acts m id k t hand os t' := by
  obtain ⟨ds, x, c, hd⟩ := h
  exact ⟨ds, x, c, pool ▸ hd.path, hd.purpose, hd.opened, hd.issued, hd.fits, pool ▸ hd.pool,
    outcome ▸ hd.outcome⟩

/-- A turn that begins when the factory has given a connection, which leads to `u`. -/
theorem received {physical : Physical}
    (step : Custody.Step m (t.pool.custodyWith hand) (.receive t.pool.nextConnection physical) c)
    (purpose : k = .acquire) (h : Acts m id k u c.hand [] t')
    (pool : u.pool = t.pool.having c) (outcome : u.outcome = t.outcome) :
    Acts m id k t hand [(t.pool.nextConnection, physical)] t' := by
  obtain ⟨ds, x, c', hd⟩ := h
  have path := hd.path
  rw [pool] at path
  refine ⟨_ :: ds, x, c', .cons step path, ?_, ?_, ?_, hd.fits, ?_, ?_⟩
  · exact List.forall_mem_cons.2 ⟨congrArg some purpose.symm, hd.purpose⟩
  · rw [List.filterMap_cons_some (f := Deed.opened?) rfl, hd.opened]
  · obtain ⟨before, hb, quiet⟩ := hd.issued
    exact ⟨_ :: before, by rw [hb]; rfl, List.forall_mem_cons.2 ⟨rfl, quiet⟩⟩
  · rw [hd.pool, pool]; rfl
  · rw [hd.outcome, outcome]

end Acts

variable (t : Turn) (id : CallId) (m : Moment)

/-! ## Acquiring -/

section Acquire

variable (a : Acquisition) (e : Entry) (lookedAt : Instant)

theorem lease_acts : Acts m id .acquire t (.candidate e) [] (t.lease m a e) := by
  refine ⟨[_], .finished (.leased { e.stamped a t.pool.books.source m.now with pool := t.pool.id }),
    _, .single (.lease (m := m) (a := a) rfl), ?_, rfl, ?_, rfl, ?_, rfl⟩
  · exact fun d hd => List.mem_singleton.1 hd ▸ rfl
  · exact ⟨[], rfl, fun d hd => absurd hd List.not_mem_nil⟩
  · exact pool_unlock _

theorem afterRejection_acts : Acts m id .acquire t .empty [] (t.afterRejection id a) := by
  rw [afterRejection]
  split
  · exact .ending (.finished (.failed .noGoodConnection)) rfl (pool_unlock _) rfl rfl
  · exact .ending (.work (.begin (.acquire a))) ⟨rfl, rfl⟩ rfl rfl rfl

theorem reject_acts (why : Rejection) :
    Acts m id .acquire t (.candidate e) [] (t.reject id m a e why) := by
  rw [reject]
  split
  · have h := afterRejection_acts (((t.tell (.rejected e.id why.error)).setBooks
      t.pool.books.countBad).advance e.id) id m { a with rejected := a.rejected + 1 }
    exact .after (d := .reject e why) (.reject rfl) rfl rfl rfl
      (h.handing (.letGo (.inr ⟨e, rfl⟩)) rfl rfl rfl) rfl rfl
  · exact .after (d := .reject e why) (.reject rfl) rfl rfl rfl
      (.ending (.work (.discard _ e)) ⟨rfl, rfl⟩ rfl rfl rfl) rfl rfl

theorem prepare_acts : Acts m id .acquire t (.candidate e) [] (t.prepare id m a e) := by
  rw [prepare]
  split
  · exact lease_acts ..
  · exact .ending (.work (.prepare a e)) ⟨rfl, rfl⟩ rfl rfl rfl

theorem afterCheckup_acts (checkup : Checkup.Turn) :
    Acts m id .acquire t (.candidate e) [] (t.afterCheckup id m a e checkup) := by
  rw [afterCheckup]
  refine .same (u := t.tellAll checkup.notices) ?_ rfl rfl
  split
  · next p _ => exact .ending (.work (.examine a e p)) ⟨rfl, rfl⟩ rfl rfl rfl
  · exact reject_acts ..
  · exact reject_acts ..
  · exact prepare_acts ..
  · exact prepare_acts ..

theorem examine_acts :
    Acts m id .acquire t (.candidate e) [] (t.examine id m a e lookedAt) := by
  rw [examine]
  split
  · exact afterCheckup_acts ..
  · exact reject_acts ..

theorem connected_acts (physical : Physical) :
    Acts m id .acquire t .opening [(t.pool.nextConnection, physical)]
      (t.connected id m a physical lookedAt) :=
  .received (.receive rfl) rfl (examine_acts ..) rfl rfl

theorem claimed_acts :
    Acts m id .acquire t (.reclaimed e) [] (t.claimed id m a e lookedAt) :=
  .after (.renew rfl) rfl rfl rfl (examine_acts ..) rfl rfl

/-- A caller for which there is no connection to be had. -/
theorem wait_acts (none_idle : t.pool.books.takeIdle? = none)
    (full : t.pool.books.canOpen = false)
    (none_overdue : t.pool.books.claimOverdue? m.now = none) :
    Acts m id .acquire t .empty [] (t.wait id m a) := by
  rw [wait]
  by_cases hw : a.hasWaited
  · rw [if_pos hw]
    split
    · exact .ending (.finished _) rfl (pool_unlock _) rfl rfl
    · exact .ending (.asleep _ _ _) ⟨rfl, rfl, none_idle, full, none_overdue⟩ (pool_unlock _)
        (outcome_unlock _) rfl
  · -- The first time that it waits is counted.
    rw [if_neg hw]
    refine .after (u := t.setBooks t.pool.books.countWait) (.countWait rfl) rfl rfl rfl ?_ rfl rfl
    split
    · exact .ending (.finished _) rfl (pool_unlock _) rfl rfl
    · exact .ending (.asleep _ _ _)
        ⟨rfl, rfl, Books.takeIdle?_countWait none_idle, full,
          Books.claimOverdue?_countWait none_overdue⟩
        (pool_unlock _) (outcome_unlock _) rfl

/-- A look at the books ends with the deed for what it finds. -/
theorem look_acts : Acts m id .acquire t .empty [] (t.look id m a) := by
  rw [look]
  split
  · next e books found => exact .after (.take rfl found) rfl rfl rfl (examine_acts ..) rfl rfl
  · next none_idle =>
    split
    · next room =>
      exact .handing (.ask rfl none_idle room) rfl rfl rfl
        (.ending (.work (.connect a m.now)) ⟨rfl, rfl⟩ rfl rfl rfl)
    · next full =>
      rw [Bool.not_eq_true] at full
      split
      · next e books overdue =>
        refine .after (u := t.setBooks books) (.claim rfl none_idle full overdue) rfl rfl rfl
          ?_ rfl rfl
        split
        · exact claimed_acts ..
        · exact .ending (.work (.reclaim a e m.now)) ⟨rfl, rfl⟩ rfl rfl rfl
      · next none_overdue => exact wait_acts t id m a none_idle full none_overdue

theorem awaken_acts (asleepSince : Instant) :
    Acts m id .acquire t.stopWaiting .empty [] (t.awaken id m a asleepSince) :=
  .after (.addWaitTime rfl) rfl rfl rfl (look_acts ..) rfl rfl

theorem afterReclaim_acts (result : Except PoolError Unit) :
    Acts m id .acquire t (.reclaimed e) [] (t.afterReclaim id m a e lookedAt result) := by
  cases result with
  | ok => exact claimed_acts ..
  | error cause => exact .same (claimed_acts ..) rfl rfl

theorem afterPrepare_acts (result : Except PoolError Unit) :
    Acts m id .acquire t (.candidate e) [] (t.afterPrepare id m a e result) := by
  cases result with
  | ok => exact lease_acts ..
  | error cause => exact reject_acts ..

theorem afterConnect_acts (result : Except PoolError Physical) :
    Acts m id .acquire t .opening
      (((Work.connect a lookedAt).received? (.connected result)).map
        fun physical => (t.pool.nextConnection, physical)).toList
      (t.afterConnect id m a lookedAt result) := by
  cases result with
  | ok physical => exact connected_acts ..
  | error cause =>
    exact .handing (.letGo (.inl rfl)) rfl rfl rfl
      (.ending (.finished (.failed cause)) rfl (pool_unlock _) rfl rfl)

theorem afterDiscard_acts :
    Acts m id .acquire t (.refused e) [] (t.afterRejection id a) :=
  .handing (.letGo (.inr ⟨e, rfl⟩)) rfl rfl rfl (afterRejection_acts ..)

end Acquire

/-! ## Returning -/

section Return

variable (e : Entry)

theorem releaseDone_acts (o : Outcome) (none_leased : o.handle? = none) :
    Acts m id .release t .owing [] (t.releaseDone o) :=
  .ending (.freed o) rfl (congrArg Pool.rouseAll (pool_unlock t)) rfl none_leased

theorem returnStale_acts (h : Handle) : Acts m id .release t .empty [] (t.returnStale h) :=
  .after (u := (t.tell _).setBooks _) (.refuse rfl) rfl rfl rfl
    (.ending (.finished .done) rfl (pool_unlock _) rfl rfl) rfl rfl

theorem returnClosed_acts (closed : m.isClosed e.physical = true) :
    Acts m id .release t (.returned e) [] (t.returnClosed e) :=
  .after (.findClosed rfl closed) rfl rfl rfl (releaseDone_acts _ _ _ _ rfl) rfl rfl

/-- After its rollback a connection is kept or given up. -/
theorem afterUndo_acts (keep : Bool) (returnedAt : Instant) (result : Except PoolError Unit) :
    Acts m id .release t (.undoing e keep returnedAt) []
      (t.afterUndo id e keep returnedAt result) := by
  cases result with
  | error cause =>
    -- The connection is given up even if there is a place for it.
    exact .after (u := t.advance e.id) (.giveUp rfl) rfl rfl rfl
      (.ending (.work (.close e (some cause))) ⟨rfl, rfl⟩ rfl rfl rfl) rfl rfl
  | ok =>
    cases keep with
    | true => exact .after (.keep rfl) rfl rfl rfl (releaseDone_acts _ _ _ _ rfl) rfl rfl
    | false =>
      exact .after (u := t.advance e.id) (.giveUp rfl) rfl rfl rfl
        (.ending (.work (.close e none)) ⟨rfl, rfl⟩ rfl rfl rfl) rfl rfl

theorem afterClose_acts (cause : Option PoolError) (result : Except PoolError Unit) :
    Acts m id .release t (.closing e) [] (t.afterClose e cause result) := by
  refine .handing (.endClose rfl) rfl rfl rfl ?_
  cases cause with
  | some cause => exact .same (releaseDone_acts _ _ _ _ rfl) rfl rfl
  | none =>
    cases result with
    | ok => exact .same (releaseDone_acts _ _ _ _ rfl) rfl rfl
    | error problem => exact .same (releaseDone_acts _ _ _ _ rfl) rfl rfl

theorem returned_acts : Acts m id .release t (.returned e) [] (t.returned id m e) := by
  rw [returned]
  split
  · next closed => exact returnClosed_acts t id m e closed
  · next is_open =>
    rw [Bool.not_eq_true] at is_open
    refine .after (u := t.setBooks (t.pool.books.addCheckoutTime (e.checkoutTime m.now)))
      (.accept rfl is_open) rfl rfl rfl ?_ rfl rfl
    split
    · exact afterUndo_acts ..
    · exact .ending (.work (.undo e _ m.now)) ⟨rfl, rfl⟩ rfl rfl rfl

/-- A release takes its lease back, or counts a bad connection if there is none. -/
theorem release_acts (h : Handle) : Acts m id .release t .empty [] (t.release id m h) := by
  rw [release]
  split
  · exact returnStale_acts ..
  · next e books found =>
    dsimp only
    split
    · next current =>
      exact .after (.takeBack rfl found current) rfl rfl rfl (returned_acts ..) rfl rfl
    · next old =>
      rw [Bool.not_eq_true] at old
      exact .after (u := (t.tell _).setBooks _) (.misplace rfl found old) rfl rfl rfl
        (.ending (.finished .done) rfl (pool_unlock _) rfl rfl) rfl rfl

end Return

/-! ## Resetting and inquiring -/

/-- A reset gives up one connection after the other. -/
theorem closeEach_acts (rest : List Entry) :
    Acts m id .reset t (.drained rest) [] (t.closeEach id m rest) := by
  cases rest with
  | nil =>
    -- The sleepers are roused before the lock is given back, which makes no difference.
    refine .handing (.endReset rfl) rfl rfl rfl (.ending (.freed .done) rfl ?_ rfl rfl)
    exact (pool_unlock _).trans (Pool.passLock_rouseAll _)
  | cons e rest =>
    rw [closeEach]
    refine .after (u := t.advance e.id) (.retire rfl) rfl rfl rfl ?_ rfl rfl
    split
    · exact .ending (.work (.resetClose e rest)) ⟨rfl, rfl⟩ rfl rfl rfl
    · exact .ending (.work (.resetUndo e rest)) ⟨rfl, rfl⟩ rfl rfl rfl

theorem reset_acts (r : Reset) : Acts m id .reset t .empty [] (t.reset id m r) := by
  rw [reset]
  split
  · exact .ending (.finished _) rfl (pool_unlock _) rfl rfl
  · next books accepted =>
    exact .after (.drain rfl accepted) rfl rfl rfl (closeEach_acts ..) rfl rfl

theorem inquire_acts (q : Inquiry) : Acts m id .inquire t .empty [] (t.inquire q) := by
  cases q with
  | policy => exact .ending (.finished _) rfl (pool_unlock _) rfl rfl
  | source => exact .ending (.finished _) rfl (pool_unlock _) rfl rfl
  | snapshot => exact .ending (.finished _) rfl (pool_unlock _) rfl rfl
  | tolerate n =>
    exact .after (u := t.setBooks _) (.tolerate rfl) rfl rfl rfl
      (.ending (.finished .done) rfl (pool_unlock _) rfl rfl) rfl rfl

/-! ## Turns of the holder of the lock -/

/-- The turn in which a call begins some work: a caller that looks again after it has slept does
    not count as waiting any more. -/
def greet (w : Work) : Turn :=
  match w with
  | .begin (.awaken _ _) => t.stopWaiting
  | _ => t

theorem begin_acts (intent : Intent) :
    Acts m id intent.purpose (t.greet (.begin intent)) .empty [] (t.begin id m intent) := by
  cases intent with
  | acquire a => exact look_acts ..
  | awaken a asleepSince => exact awaken_acts ..
  | release h => exact release_acts ..
  | reset r => exact reset_acts ..
  | inquire q => exact inquire_acts ..

/-- A turn of the call that holds the lock. -/
theorem advanceWork_acts {w : Work} {s : Signal} {t' : Turn}
    (h : t.advanceWork id m w s = some t') :
    Acts m id w.purpose (t.greet w) w.hand
      ((w.received? s).map fun physical => (t.pool.nextConnection, physical)).toList t' := by
  unfold advanceWork at h
  split at h <;> cases h
  · exact begin_acts ..
  · exact afterConnect_acts ..
  · exact afterReclaim_acts ..
  · exact afterCheckup_acts ..
  · exact afterPrepare_acts ..
  · exact afterDiscard_acts ..
  · exact afterUndo_acts ..
  · exact afterClose_acts ..
  · exact .ending (.work (.resetClose _ _)) ⟨rfl, rfl⟩ rfl rfl rfl
  · next e rest _ =>
    exact .handing (.proceed rfl) rfl rfl rfl (closeEach_acts ..)

/-! ## The custody after a turn -/

end Turn

namespace Pool

variable (p : Pool)

theorem custody_passLock : p.passLock.custody = p.custodyWith .empty := by
  cases h : p.queue <;> simp only [custody, hand, passLock, h] <;> rfl

theorem hand_ended (id : CallId) (x : Ending) : (p.ended id x).hand = x.hand := by
  have passed (q : Pool) : q.passLock.hand = .empty := congrArg Custody.hand q.custody_passLock
  cases x with
  | work w => rfl
  | finished o => exact passed p
  | freed o => exact passed p
  | asleep a since limit => exact passed _

/-- After a turn, the custody is what the deeds have made it, but that the sleepers have been
    roused if they were owed it. -/
theorem custody_ended {m : Moment} {k : Purpose} {c : Custody} {x : Ending} (id : CallId)
    (fits : x.Fits m k c) :
    ((p.having c).ended id x).custody = c ∨
      c.hand = .owing ∧ ((p.having c).ended id x).custody = { c with hand := .empty } := by
  cases x with
  | work w =>
    refine .inl ?_
    change (p.having c).custodyWith w.hand = c
    rw [← fits.1]
    rfl
  | finished o =>
    refine .inl ((custody_passLock _).trans ?_)
    rw [← show c.hand = .empty from fits]
    rfl
  | freed o => exact .inr ⟨fits, custody_passLock _⟩
  | asleep a since limit =>
    refine .inl ((custody_passLock _).trans ?_)
    rw [← fits.2.1]
    rfl

end Pool

namespace Turn

variable {t t' : Turn} {m : Moment} {id : CallId} {k : Purpose} {hand : Hand}
  {os : List (ConnectionId × Physical)}

/-- The handle that is handed out is that of the outcome. -/
theorem Doing.filterMap_issued? {ds : List Deed} {x : Ending} {c : Custody}
    (hd : Doing m id k t hand os t' ds x c) :
    ds.filterMap Deed.issued? = (x.outcome?.bind Outcome.handle?).toList := by
  obtain ⟨before, hb, quiet⟩ := hd.issued
  rw [hb, List.filterMap_append, List.filterMap_eq_nil_iff.2 quiet]
  cases x.outcome?.bind Outcome.handle? <;> rfl

/-- A turn leads by deeds from the custody before it to the custody after it; nothing that the
    call had in hand is lost. -/
theorem Acts.path (h : Acts m id k t hand os t') (fresh : t.outcome = none) :
    ∃ ds, Custody.Path (t.pool.custodyWith hand) ds t'.pool.custody ∧
      ds.filterMap Deed.opened? = os ∧
      ds.filterMap Deed.issued? = (t'.outcome.bind Outcome.handle?).toList ∧
      Deed.lose ∉ ds := by
  obtain ⟨ds, x, c, hd⟩ := h
  have outcome : t'.outcome = x.outcome? := by rw [hd.outcome, fresh, Option.or_none]
  -- Nothing is lost by a deed that has a purpose.
  have kept : Deed.lose ∉ ds := fun hl => by cases hd.purpose _ hl
  have issued := hd.filterMap_issued?
  rw [outcome, hd.pool]
  obtain hc | ⟨owing, hc⟩ := t.pool.custody_ended id hd.fits
  · rw [hc]
    exact ⟨ds, hd.path, hd.opened, issued, kept⟩
  · -- The sleepers are roused in one more deed, which hands out and opens nothing.
    rw [hc]
    refine ⟨ds ++ [.rouse], hd.path.append (.single (.rouse (m := m) owing)), ?_, ?_, ?_⟩
    · rw [List.filterMap_append, hd.opened]
      exact List.append_nil _
    · rw [List.filterMap_append, issued]
      exact List.append_nil _
    · simpa using kept

end Turn

end LeasePool
