import LeasePool.Proofs.Renaming

/-!
# Turns under a renaming

Each change that a turn is put together from, and each step of a call, brings about under a renaming
of passwords what it brings about without, under the renaming: the same notices, the same calls that
become runnable, and a pool and an outcome that differ in passwords and signatures only. Most steps
do so under every renaming. Those that may hand out a connection, keep one or change what is
expected do so if the renaming fits.

* `Pool.respond_under`: a pool responds under a renaming as it does without;
* `Pool.awaited?_under`: under a renaming, every call waits for the same.
-/

namespace LeasePool

namespace Turn

variable {ρ : Renaming} {t : Turn} {id : CallId} {m : Moment} {a : Acquisition} {e : Entry}

theorem tell_under (n : Notice) : (t.under ρ).tell n = (t.tell n).under ρ := rfl

theorem setBooks_under (b : Books) :
    (t.under ρ).setBooks (b.under ρ) = (t.setBooks b).under ρ := rfl

theorem finish_under (o : Outcome) : (t.under ρ).finish (o.under ρ) = (t.finish o).under ρ := rfl

theorem unlock_under : (t.under ρ).unlock = t.unlock.under ρ := by
  obtain ⟨⟨_, _, _, _, _, _, _, queue, _, _, _⟩, _, _, _⟩ := t
  cases queue <;> rfl

theorem lock_under (intent : Intent) :
    (t.under ρ).lock id (intent.under ρ) = (t.lock id intent).under ρ := by
  obtain ⟨⟨_, _, _, _, _, _, holder, _, _, _, _⟩, _, _, _⟩ := t
  cases holder with
  | none => rfl
  | some _ => simp [lock, under, Pool.under]

theorem wakeSleepers_under : (t.under ρ).wakeSleepers = t.wakeSleepers.under ρ := by
  simp only [wakeSleepers, under, Pool.under, List.map_append, List.map_map]
  rfl

theorem sleep_under (s : Sleeper) : (t.under ρ).sleep (s.under ρ) = (t.sleep s).under ρ := by
  simp only [sleep, under, Pool.under, List.map_append]
  rfl

theorem errand_under (e : Errand) :
    (t.under ρ).errand id (e.under ρ) = (t.errand id e).under ρ := by
  simp only [errand, under, Pool.under, List.filter_map, List.map_append]
  rfl

theorem discardLater_under (physical : Physical) :
    (t.under ρ).discardLater physical = (t.discardLater physical).under ρ := by
  simp only [discardLater, under, Pool.under, List.map_append]
  rfl

/-! ## Acquiring -/

/-- The candidate is handed out with the signature of the renamed credentials. -/
theorem lease_under (fits : ρ.Fits (a.login.credentials t.pool.books.source)) :
    (t.under ρ).lease m (a.under ρ) (e.under ρ) = (t.lease m a e).under ρ := by
  let stamped := (e.under ρ).stamped (a.under ρ) (t.pool.books.source.under ρ) m.now
  change ((t.under ρ).setBooks ((t.pool.books.under ρ).lease stamped
    (m.now.since a.startedAt))).unlock.finish (.leased { stamped with pool := _ }) = _
  rw [show stamped = (e.stamped a t.pool.books.source m.now).under ρ from Entry.stamped_under fits,
    Books.lease_under, setBooks_under, unlock_under]
  rfl

theorem afterRejection_under :
    (t.under ρ).afterRejection id (a.under ρ) = (t.afterRejection id a).under ρ := by
  unfold afterRejection
  change (if t.pool.books.policy.badConnectionLimit < a.rejected then _ else _) = _
  split
  · rw [tell_under, unlock_under]
    rfl
  · rfl

theorem reject_under (why : Rejection) :
    (t.under ρ).reject id m (a.under ρ) (e.under ρ) why = (t.reject id m a e why).under ρ := by
  let told := t.tell (.rejected e.id why.error)
  unfold reject
  change (if m.isClosed e.physical then _ else _) = _
  split
  · exact afterRejection_under (t := (told.setBooks told.pool.books.countBad).advance e.id)
      (a := { a with rejected := a.rejected + 1 })
  · rfl

theorem prepare_under (fits : ρ.FitsLease a.login t.pool.books.source (t.prepare id m a e)) :
    (t.under ρ).prepare id m (a.under ρ) (e.under ρ) = (t.prepare id m a e).under ρ := by
  unfold prepare at fits ⊢
  change (if m.isAutoCommit e.physical then _ else _) = _
  split
  · next commits =>
    rw [if_pos commits] at fits
    exact lease_under (fits _ rfl)
  · rfl

theorem afterCheckup_under (c : Checkup.Turn)
    (fits : ρ.FitsLease a.login t.pool.books.source (t.afterCheckup id m a e c)) :
    (t.under ρ).afterCheckup id m (a.under ρ) (e.under ρ) c =
      (t.afterCheckup id m a e c).under ρ := by
  obtain ⟨notices, ended | goesOn⟩ := c
  · cases ended with
    | skipped => exact prepare_under (t := t.tellAll notices) fits
    | alive _ => exact prepare_under (t := t.tellAll notices) fits
    | closed => exact reject_under (t := t.tellAll notices) .closed
    | failed cause => exact reject_under (t := t.tellAll notices) (.checkupFailed cause)
  · rfl

theorem examine_under (lookedAt : Instant)
    (fits : ρ.FitsLease a.login t.pool.books.source (t.examine id m a e lookedAt)) :
    (t.under ρ).examine id m (a.under ρ) (e.under ρ) lookedAt =
      (t.examine id m a e lookedAt).under ρ := by
  unfold examine at fits ⊢
  change (if e.isCurrent t.pool.generations then _ else _) = _
  split
  · next current =>
    rw [if_pos current] at fits
    exact afterCheckup_under _ fits
  · exact reject_under .invalidated

theorem connected_under (physical : Physical) (lookedAt : Instant)
    (fits : ρ.FitsLease a.login t.pool.books.source (t.connected id m a physical lookedAt)) :
    (t.under ρ).connected id m (a.under ρ) physical lookedAt =
      (t.connected id m a physical lookedAt).under ρ :=
  examine_under (t := { t with
    pool := { t.pool with nextConnection := t.pool.nextConnection + 1 }
    notices := t.notices ++ [.created t.pool.nextConnection] })
    (e := .fresh t.pool.nextConnection physical t.pool.books.expected m.now) lookedAt fits

theorem claimed_under (lookedAt : Instant)
    (fits : ρ.FitsLease a.login t.pool.books.source (t.claimed id m a e lookedAt)) :
    (t.under ρ).claimed id m (a.under ρ) (e.under ρ) lookedAt =
      (t.claimed id m a e lookedAt).under ρ :=
  examine_under (t := (t.advance e.id).tell (.claimedOverdue e.id))
    (e := e.renewed (t.advance e.id).pool.generations) lookedAt fits

/-- A caller for which there is nothing sleeps until the same time, or gives up alike. -/
theorem wait_under : (t.under ρ).wait id m (a.under ρ) = (t.wait id m a).under ρ := by
  -- What follows when the acquisition has been counted.
  have counted (u : Turn) (limit : Option Duration) :
      (if (a.remaining m.now).any Duration.isZero then
        (u.under ρ).unlock.finish
          (.failed (.noConnectionInTime (u.under ρ).pool.books.active.length))
      else (((u.under ρ).tell (.waiting (limit.map Duration.millis))).sleep
        ⟨id, { a.under ρ with hasWaited := true }, m.now, limit⟩).unlock) =
      Turn.under ρ (if (a.remaining m.now).any Duration.isZero then
        u.unlock.finish (.failed (.noConnectionInTime u.pool.books.active.length))
      else ((u.tell (.waiting (limit.map Duration.millis))).sleep
        ⟨id, { a with hasWaited := true }, m.now, limit⟩).unlock) := by
    split
    · have same : (u.under ρ).pool.books.active.length = u.pool.books.active.length :=
        List.length_map _
      rw [unlock_under, same]
      rfl
    · rw [← unlock_under, ← sleep_under]
      rfl
  unfold wait
  cases waited : a.hasWaited with
  | true =>
    simp only [Acquisition.under, waited, if_true]
    exact counted t _
  | false =>
    simp only [Acquisition.under, waited, Bool.false_eq_true, if_false]
    exact counted (t.setBooks t.pool.books.countWait) _

/-- The books are looked at alike under other names. -/
theorem look_under (fits : ρ.FitsLease a.login t.pool.books.source (t.look id m a)) :
    (t.under ρ).look id m (a.under ρ) = (t.look id m a).under ρ := by
  unfold look at fits ⊢
  rw [pool_under, Pool.books_under, Books.takeIdle?_under]
  -- Both pools find the same: renaming changes neither the order of the queues nor any time.
  cases found : t.pool.books.takeIdle? with
  | some q =>
    obtain ⟨e, books⟩ := q
    obtain ⟨rest, -, rfl⟩ := Books.takeIdle?_eq_some found
    simp only [found] at fits
    let books : Books := { t.pool.books with idle := rest }
    exact examine_under (t := (t.setBooks books).tell (.checkedOut e.id)) m.now fits
  | none =>
    simp only [found] at fits
    simp only [Option.map_none, Books.canOpen_under, Books.claimOverdue?_under]
    split
    · rfl
    · next full =>
      rw [if_neg full] at fits
      cases overdue : t.pool.books.claimOverdue? m.now with
      | some q =>
        obtain ⟨e, books⟩ := q
        obtain ⟨rest, counters, -, -, rfl⟩ := Books.claimOverdue?_eq_some overdue
        simp only [overdue] at fits
        change (if m.isAutoCommit e.physical then _ else _) =
          Turn.under ρ (if m.isAutoCommit e.physical then _ else _)
        split
        · next commits =>
          rw [if_pos commits] at fits
          let books : Books := { t.pool.books with active := rest, counters := counters }
          exact claimed_under (t := t.setBooks books) m.now fits
        · rfl
      | none => exact wait_under

theorem awaken_under (asleepSince : Instant)
    (fits : ρ.FitsLease a.login t.pool.books.source (t.awaken id m a asleepSince)) :
    (t.under ρ).awaken id m (a.under ρ) asleepSince = (t.awaken id m a asleepSince).under ρ :=
  look_under (t := t.stopWaiting.setBooks (t.pool.books.addWaitTime (m.now.since asleepSince))) fits

theorem afterReclaim_under (lookedAt : Instant) (result : Except PoolError Unit)
    (fits : ρ.FitsLease a.login t.pool.books.source (t.afterReclaim id m a e lookedAt result)) :
    (t.under ρ).afterReclaim id m (a.under ρ) (e.under ρ) lookedAt result =
      (t.afterReclaim id m a e lookedAt result).under ρ := by
  cases result with
  | ok _ => exact claimed_under lookedAt fits
  | error cause =>
    exact claimed_under (t := t.tell (.reclaimRollbackFailed e.id cause)) lookedAt fits

theorem afterPrepare_under (result : Except PoolError Unit)
    (fits : ρ.FitsLease a.login t.pool.books.source (t.afterPrepare id m a e result)) :
    (t.under ρ).afterPrepare id m (a.under ρ) (e.under ρ) result =
      (t.afterPrepare id m a e result).under ρ := by
  cases result with
  | ok _ => exact lease_under (fits _ rfl)
  | error cause => exact reject_under (.rollbackFailed cause)

theorem afterConnect_under (lookedAt : Instant) (result : Except PoolError Physical)
    (fits : ρ.FitsLease a.login t.pool.books.source (t.afterConnect id m a lookedAt result)) :
    (t.under ρ).afterConnect id m (a.under ρ) lookedAt result =
      (t.afterConnect id m a lookedAt result).under ρ := by
  cases result with
  | ok physical => exact connected_under physical lookedAt fits
  | error cause =>
    simp only [afterConnect, tell_under, unlock_under]
    rfl

theorem abandon_under : (t.under ρ).abandon (e.under ρ) = (t.abandon e).under ρ := by
  unfold abandon
  rw [← unlock_under, ← discardLater_under]
  rfl

/-! ## Returning -/

theorem releaseDone_under {o : Outcome} (same : o.under ρ = o) :
    (t.under ρ).releaseDone o = (t.releaseDone o).under ρ := by
  unfold releaseDone
  rw [unlock_under, wakeSleepers_under, ← finish_under, same]

theorem returnStale_under (h : Handle) :
    (t.under ρ).returnStale (h.under ρ) = (t.returnStale h).under ρ := by
  let told := t.tell (.staleReturned h.id)
  change ((told.setBooks told.pool.books.countBad).under ρ).unlock.finish .done = _
  rw [unlock_under]
  rfl

theorem returnClosed_under : (t.under ρ).returnClosed (e.under ρ) = (t.returnClosed e).under ρ :=
  let told := t.tell (.closedReturned e.id)
  releaseDone_under (t := (told.setBooks told.pool.books.countBad).advance e.id) rfl

/-- A rollback that has been answered has the same consequences. -/
theorem afterUndo_under (keep : Bool) (returnedAt : Instant) (result : Except PoolError Unit) :
    (t.under ρ).afterUndo id (e.under ρ) keep returnedAt result =
      (t.afterUndo id e keep returnedAt result).under ρ := by
  cases result with
  | error cause => rfl
  | ok _ =>
    cases keep with
    | false => rfl
    | true =>
      let u := t.advance e.id
      let kept : Entry := { e.renewed u.pool.generations with lastUsedAt := returnedAt }
      have same := releaseDone_under (ρ := ρ)
        (t := (u.tell (.returned e.id)).setBooks (u.pool.books.keep kept)) (o := .done) rfl
      rw [← setBooks_under, ← Books.keep_under] at same
      exact same

theorem afterClose_under (cause : Option PoolError) (result : Except PoolError Unit) :
    (t.under ρ).afterClose (e.under ρ) cause result = (t.afterClose e cause result).under ρ := by
  cases cause with
  | some cause => exact releaseDone_under (t := t.tell (.returnRollbackFailed e.id cause)) rfl
  | none =>
    cases result with
    | ok _ => exact releaseDone_under (t := t.tell (.closed e.id)) rfl
    | error problem =>
      exact releaseDone_under (t := (t.tell (.closeFailed e.id problem)).tell (.closed e.id)) rfl

/-- A connection is kept, or closed, as without the renaming. -/
theorem returned_under (tells : ρ.Tells e.signature t.pool.books.expected) :
    (t.under ρ).returned id m (e.under ρ) = (t.returned id m e).under ρ := by
  unfold returned
  change (if m.isClosed e.physical then _ else _) = _
  split
  · exact returnClosed_under
  · let books := t.pool.books.addCheckoutTime (e.checkoutTime m.now)
    change (if m.isAutoCommit e.physical then
        ((t.setBooks books).under ρ).afterUndo id (e.under ρ)
          ((books.under ρ).keeps (e.under ρ)) m.now (.ok ())
      else ((t.setBooks books).under ρ).work id
        (.undo (e.under ρ) ((books.under ρ).keeps (e.under ρ)) m.now)) = _
    rw [Books.keeps_under (b := books) tells]
    split
    · exact afterUndo_under _ _ _
    · rfl

/-- A release goes alike, since leases tell the same of what is expected as before. -/
theorem release_under (h : Handle)
    (tells : ∀ e ∈ t.pool.books.active, ρ.Tells e.signature t.pool.books.expected) :
    (t.under ρ).release id m (h.under ρ) = (t.release id m h).under ρ := by
  unfold release
  simp only [Handle.under, Entry.id_under, Entry.generation_under, pool_under, Pool.books_under,
    Books.removeActive?_under]
  cases found : t.pool.books.removeActive? h.id h.generation with
  | none => exact returnStale_under h
  | some q =>
    obtain ⟨e, books⟩ := q
    obtain ⟨before, later, active, -, -, rfl⟩ := Books.removeActive?_eq_some found
    have there : e ∈ t.pool.books.active := active ▸ List.mem_append_right _ List.mem_cons_self
    let u := t.setBooks { t.pool.books with active := before ++ later }
    change (if e.isCurrent t.pool.generations then _ else _) =
      Turn.under ρ (if e.isCurrent t.pool.generations then _ else _)
    split
    · exact returned_under (t := u) (tells e there)
    · exact returnStale_under (t := u) h

/-! ## Resetting -/

theorem closeEach_under (rest : List Entry) :
    (t.under ρ).closeEach id m (rest.map (·.under ρ)) = (t.closeEach id m rest).under ρ := by
  cases rest with
  | nil =>
    change (((t.under ρ).wakeSleepers.tell .allClosed).unlock).finish .done = _
    rw [wakeSleepers_under, tell_under, unlock_under]
    rfl
  | cons e rest =>
    change (if m.isAutoCommit e.physical then _ else _) =
      Turn.under ρ (if m.isAutoCommit e.physical then _ else _)
    split <;> rfl

/-- A reset expects connections with the signature of the data source as it is then. -/
theorem reset_under (r : Reset) (fits : ∀ books, r.apply t.pool.books = .ok books →
      ρ.Fits books.source.credentials) :
    (t.under ρ).reset id m (r.under ρ) = (t.reset id m r).under ρ := by
  unfold reset
  rw [pool_under, Pool.books_under, Reset.apply_under]
  cases accepted : r.apply t.pool.books with
  | error cause =>
    change (t.under ρ).unlock.finish (.failed cause) = _
    rw [unlock_under]
    rfl
  | ok books =>
    have expected : (books.source.under ρ).signature = ρ.signature books.source.signature :=
      fits books accepted
    change ((t.under ρ).setBooks { (books.under ρ).emptied with
      expected := (books.source.under ρ).signature }).closeEach id m (books.under ρ).entries = _
    rw [expected, Books.entries_under]
    exact closeEach_under (t := t.setBooks
      { books.emptied with expected := books.source.signature }) books.entries

/-! ## Steps of calls -/

/-- An inquiry is answered alike, with the renamed data source. -/
theorem inquire_under (q : Inquiry) : (t.under ρ).inquire q = (t.inquire q).under ρ := by
  cases q with
  | snapshot =>
    change (t.under ρ).unlock.finish
      (.snapshot ((t.pool.books.under ρ).snapshot t.pool.waiting)) = _
    rw [unlock_under, Books.snapshot_under]
    rfl
  | tolerate n =>
    let policy := t.pool.books.policy.apply (.badConnectionTolerance n)
    change ((t.setBooks { t.pool.books with policy := policy }).under ρ).unlock.finish .done = _
    rw [unlock_under]
    rfl
  | _ =>
    simp only [inquire, unlock_under]
    rfl

/-- A reset that is accepted leaves the data source as it has changed it. -/
theorem source_reset {r : Reset} {books : Books} (accepted : r.apply t.pool.books = .ok books) :
    (t.reset id m r).pool.books.source = books.source := by
  simp only [reset, accepted]
  cases books.entries with
  | nil => rw [closeEach, finish, pool_unlock, Pool.books_passLock]; rfl
  | cons e rest => rw [closeEach]; split <;> rfl

theorem begin_under (intent : Intent)
    (fits : ρ.FitsTurn t.pool (.begin intent) (t.begin id m intent)) :
    (t.under ρ).begin id m (intent.under ρ) = (t.begin id m intent).under ρ := by
  cases intent with
  | acquire a => exact look_under (fits.lends a.login rfl)
  | awaken a asleepSince => exact awaken_under asleepSince (fits.lends a.login rfl)
  | release h => exact release_under h fits.keeps
  | reset r => exact reset_under r fun books accepted => source_reset accepted ▸ fits.expects
  | inquire q => exact inquire_under q

/-- The holder of the lock goes on alike under other names. -/
theorem advanceWork_under (w : Work) (s : Signal)
    (fits : ∀ t', t.advanceWork id m w s = some t' → ρ.FitsTurn t.pool w t') :
    (t.under ρ).advanceWork id m (w.under ρ) s = (t.advanceWork id m w s).map (·.under ρ) := by
  -- No work accepts another signal than the one that it waits for, whatever the names.
  cases w with
  | begin intent =>
    cases s with
    | proceed => exact congrArg some (begin_under intent (fits _ rfl))
    | _ => rfl
  | connect a lookedAt =>
    cases s with
    | connected result =>
      exact congrArg some (afterConnect_under lookedAt result ((fits _ rfl).lends a.login rfl))
    | _ => rfl
  | reclaim a e lookedAt =>
    cases s with
    | answered result =>
      exact congrArg some (afterReclaim_under lookedAt result ((fits _ rfl).lends a.login rfl))
    | _ => rfl
  | examine a e c =>
    cases s with
    | answered result =>
      exact congrArg some (afterCheckup_under _ ((fits _ rfl).lends a.login rfl))
    | _ => rfl
  | prepare a e =>
    cases s with
    | answered result =>
      exact congrArg some (afterPrepare_under result ((fits _ rfl).lends a.login rfl))
    | _ => rfl
  | discard a e =>
    cases s with
    | answered _ => exact congrArg some afterRejection_under
    | _ => rfl
  | undo e keep returnedAt =>
    cases s with
    | answered result => exact congrArg some (afterUndo_under keep returnedAt result)
    | _ => rfl
  | close e cause =>
    cases s with
    | answered result => exact congrArg some (afterClose_under cause result)
    | _ => rfl
  | resetUndo e rest => cases s <;> rfl
  | resetClose e rest =>
    cases s with
    | answered _ => exact congrArg some (closeEach_under rest)
    | _ => rfl

theorem relock_under (s : Sleeper) : (t.under ρ).relock (s.under ρ) = (t.relock s).under ρ :=
  lock_under (.awaken s.acquisition s.asleepSince)

/-- An errand goes on alike: it knows no names but that of its connection. -/
theorem advanceErrand_under (e : Errand) (s : Signal) :
    (t.under ρ).advanceErrand id (e.under ρ) s = (t.advanceErrand id e s).map (·.under ρ) := by
  cases e with
  | ofHandle request =>
    cases s with
    | answered result =>
      cases result <;>
        simp only [advanceErrand, Errand.under, pool_under, Pool.errands_under, List.filter_map] <;>
        rfl
    | _ => rfl
  | discard physical begun =>
    cases begun with
    | false =>
      cases s with
      | proceed => exact congrArg some (errand_under (.discard physical true))
      | _ => rfl
    | true =>
      cases s with
      | answered result =>
        simp only [advanceErrand, Errand.under, pool_under, Pool.errands_under, List.filter_map]
        rfl
      | _ => rfl

theorem dropWork_under (w : Work) : (t.under ρ).dropWork (w.under ρ) = (t.dropWork w).under ρ := by
  cases w with
  | begin intent =>
    cases intent with
    | awaken a asleepSince => exact unlock_under (t := t.stopWaiting)
    | _ => exact unlock_under
  | reclaim a e lookedAt => exact abandon_under
  | examine a e c => exact abandon_under
  | prepare a e => exact abandon_under
  | _ => exact unlock_under

theorem dropQueued_under (intent : Intent) :
    (t.under ρ).dropQueued id (intent.under ρ) = (t.dropQueued id intent).under ρ := by
  cases intent <;>
    simp only [dropQueued, Intent.under, pool_under, Pool.queue_under, List.filter_map] <;> rfl

end Turn

namespace Pool

variable {ρ : Renaming} {p : Pool} {id : CallId}

theorem startErrand_under (h : Handle) (request : Request) :
    (p.under ρ).startErrand id (h.under ρ) (request.under ρ) =
      (p.startErrand id h request).under ρ := by
  unfold startErrand
  change (if h.isValid p.generations then _ else _) = _
  split
  · exact Turn.errand_under (t := p.turn) (.ofHandle request)
  · rfl

theorem startReset_under (r : Reset) :
    (p.under ρ).startReset id (r.under ρ) = (p.startReset id r).under ρ := by
  cases r with
  | closeAll => exact Turn.lock_under (t := p.turn.tell _) (.reset .closeAll)
  | configure change => exact Turn.lock_under (t := p.turn) (.reset (.configure change))
  | redirect change => exact Turn.lock_under (t := p.turn.tell _) (.reset (.redirect change))
  | replace policy =>
    simp only [startReset, Reset.under, Reset.operation?]
    split
    · exact Turn.lock_under (t := p.turn.tell _) (.reset (.replace policy))
    · rfl

/-- A call begins alike under other names. -/
theorem start_under (op : Op) (m : Moment) :
    ((p.under ρ).start (op.under ρ) m).2 = (p.start op m).2.under ρ := by
  let q : Pool := { p with nextCall := p.nextCall + 1 }
  cases op with
  | acquire login timeout =>
    exact Turn.lock_under (t := q.turn) (.acquire
      { login := login, deadline := timeout.map m.now.after, startedAt := m.now })
  | release h =>
    change (if h.pool = p.id then _ else _) = Turn.under ρ (if h.pool = p.id then _ else _)
    split
    · exact Turn.lock_under (t := q.turn) (.release h)
    · rfl
  | reset r => exact startReset_under (p := q) r
  | inquire q' => exact Turn.lock_under (t := q.turn) (.inquire q')
  | probe h query => exact startErrand_under (p := q) h (.probe h.physical query)
  | rollback h => exact startErrand_under (p := q) h (.rollback h.physical)

/-- An errand goes on, if the call runs one. -/
theorem errand_under (s : Signal) :
    (match (p.under ρ).errands.lookup id with
      | some e => (p.under ρ).turn.advanceErrand id e s
      | none => none) =
    Option.map (·.under ρ) (match p.errands.lookup id with
      | some e => p.turn.advanceErrand id e s
      | none => none) := by
  rw [errands_under, lookup_map]
  cases p.errands.lookup id with
  | none => rfl
  | some e => exact Turn.advanceErrand_under (t := p.turn) e s

/-- A call that does not hold the lock is found by its number, which stays the same. -/
theorem resumeElsewhere_under (s : Signal) (m : Moment) :
    (p.under ρ).resumeElsewhere id s m = (p.resumeElsewhere id s m).map (·.under ρ) := by
  cases s with
  | proceed =>
    simp only [resumeElsewhere, roused_under, List.find?_map, List.filter_map, Function.comp_def,
      Sleeper.id_under]
    cases p.roused.find? fun s => s.id == id with
    | none => exact errand_under .proceed
    | some c =>
      exact congrArg some (Turn.relock_under
        (t := Pool.turn { p with roused := p.roused.filter fun s => s.id != id }) c)
  | timeUp =>
    simp only [resumeElsewhere, sleepers_under, List.find?_map, List.filter_map, Function.comp_def,
      Sleeper.id_under]
    cases p.sleepers.find? fun s => s.id == id with
    | none => exact errand_under .timeUp
    | some c =>
      change (if isOver c m.now then _ else _) = Option.map _ (if isOver c m.now then _ else _)
      split
      · exact congrArg some (Turn.relock_under
          (t := Pool.turn { p with sleepers := p.sleepers.filter fun s => s.id != id }) c)
      · rfl
  | connected result => exact errand_under (.connected result)
  | answered result => exact errand_under (.answered result)

/-- A call that is dropped leaves the same place. -/
theorem dropElsewhere_under :
    (p.under ρ).dropElsewhere id = (p.dropElsewhere id).map (·.under ρ) := by
  simp only [dropElsewhere, queue_under, roused_under, sleepers_under, errands_under, lookup_map,
    ← List.map_append, List.any_map, List.filter_map, Function.comp_def, Sleeper.id_under]
  cases p.queue.lookup id with
  | some intent => exact congrArg some (Turn.dropQueued_under (t := p.turn) intent)
  | none =>
    change (if _ then _ else _) = Option.map _ (if _ then _ else _)
    split
    · rfl
    · cases p.errands.lookup id with
      | none => rfl
      | some e => cases e <;> rfl

/-- A call that is resumed does the same under other names. -/
theorem resume_under (s : Signal) (m : Moment)
    (fits : ∀ w t, p.holder = some (id, w) → p.resume id s m = some t → ρ.FitsTurn p w t) :
    (p.under ρ).resume id s m = (p.resume id s m).map (·.under ρ) := by
  unfold resume at fits ⊢
  rw [holder_under]
  cases holds : p.holder with
  | none => exact resumeElsewhere_under s m
  | some q =>
    obtain ⟨holder, w⟩ := q
    simp only [holds] at fits
    change (if holder = id then _ else _) = Option.map _ (if holder = id then _ else _)
    split
    · next same =>
      subst same
      simp only [if_true] at fits
      exact Turn.advanceWork_under w s fun t ht => fits w t rfl ht
    · exact resumeElsewhere_under s m

theorem drop_under : (p.under ρ).drop id = (p.drop id).map (·.under ρ) := by
  unfold drop
  rw [holder_under]
  cases holds : p.holder with
  | none => exact dropElsewhere_under
  | some q =>
    obtain ⟨holder, w⟩ := q
    change (if holder = id then _ else _) = Option.map _ (if holder = id then _ else _)
    split
    · exact congrArg some (Turn.dropWork_under (t := p.turn) w)
    · exact dropElsewhere_under

/-- What calls wait for, and so what is asked of the factory and of connections. -/
theorem awaited?_under : (p.under ρ).awaited? id = (p.awaited? id).map (·.under ρ) := by
  have elsewhere :
      awaited?.elsewhere (p.under ρ) id = (awaited?.elsewhere p id).map (·.under ρ) := by
    simp only [awaited?.elsewhere, queue_under, roused_under, sleepers_under, errands_under,
      lookup_map, List.any_map, List.find?_map, Function.comp_def, Sleeper.id_under]
    split
    · rfl
    · cases p.sleepers.find? fun s => s.id == id with
      | some c => rfl
      | none =>
        simp only [Option.map_none]
        split
        · rfl
        · cases p.errands.lookup id with
          | none => rfl
          | some e => exact congrArg some e.awaited_under
  unfold awaited?
  rw [holder_under]
  cases p.holder with
  | none => exact elsewhere
  | some q =>
    obtain ⟨holder, w⟩ := q
    change (if holder = id then _ else _) = Option.map _ (if holder = id then _ else _)
    split
    · exact congrArg some (w.awaited_under p.books.source)
    · exact elsewhere

/-- A new pool expects connections with the signature of its data source. -/
theorem opened_under {poolId : PoolId} {source : DataSource} {policy : Policy}
    (fits : ρ.Fits source.credentials) :
    (opened poolId source policy).under ρ = opened poolId (source.under ρ) policy := by
  have expected : (source.under ρ).signature = ρ.signature source.signature := fits
  simp only [opened, Books.opened, expected]
  rfl

/-- A pool responds under a renaming as it does without, if the renaming fits the turn of the call
    that holds the lock. -/
theorem respond_under (e : Event)
    (fits : ∀ i s m w t, e = .resume i s m → p.holder = some (i, w) → p.respond e = some t →
      ρ.FitsTurn p w t) :
    (p.under ρ).respond (e.under ρ) = (p.respond e).map (·.under ρ) := by
  cases e with
  | start op m => exact congrArg some (start_under op m)
  | resume i s m => exact resume_under s m fun w t holds ht => fits i s m w t rfl holds ht
  | drop i => exact drop_under

end Pool

end LeasePool
