import LeasePool.Proofs.Discards
import LeasePool.Proofs.Leases

/-!
# The balance of the counters

A connection that is handed out is counted as a checkout, and it is leased until an acquisition
takes the lease away, a release takes it back, or a reset takes it out. So all checkouts are
accounted for by the leases and by what has become of the others. In the same way the bad
connections are accounted for by the candidates that acquisitions have rejected, the handles that
were given back without a lease, and the connections that were given back closed.

What a turn adds to either side is told by the state before it, and the rejected candidates by
what it gives up.

* `Custody.Step.counters_le`: no counter ever falls;
* `Pool.Responds.requests`, `Run.Of.bad_move`: what a turn adds to the counters;
* `Pool.conserves_counts`: the balance of the counters.
-/

namespace LeasePool

/-! ## Counters that grow -/

/-- No counter is lower than before. -/
structure Counters.Le (c c' : Counters) : Prop where
  requests : c.requests ≤ c'.requests
  requestTime : c.requestTime ≤ c'.requestTime
  waits : c.waits ≤ c'.waits
  waitTime : c.waitTime ≤ c'.waitTime
  checkoutTime : c.checkoutTime ≤ c'.checkoutTime
  overdue : c.overdue ≤ c'.overdue
  overdueTime : c.overdueTime ≤ c'.overdueTime
  bad : c.bad ≤ c'.bad

namespace Counters.Le

variable {c c' c'' : Counters}

theorem refl (c : Counters) : c.Le c := by
  constructor <;> exact Nat.le_refl _

theorem trans (h : c.Le c') (h' : c'.Le c'') : c.Le c'' where
  requests := Nat.le_trans h.requests h'.requests
  requestTime := Nat.le_trans h.requestTime h'.requestTime
  waits := Nat.le_trans h.waits h'.waits
  waitTime := Nat.le_trans h.waitTime h'.waitTime
  checkoutTime := Nat.le_trans h.checkoutTime h'.checkoutTime
  overdue := Nat.le_trans h.overdue h'.overdue
  overdueTime := Nat.le_trans h.overdueTime h'.overdueTime
  bad := Nat.le_trans h.bad h'.bad

end Counters.Le

namespace Books

variable {b b' : Books} {e : Entry} {now : Instant}

theorem counters_le_countBad (b : Books) : b.counters.Le b.countBad.counters :=
  { Counters.Le.refl b.counters with bad := Nat.le_succ _ }

theorem counters_le_of_claimOverdue? (h : b.claimOverdue? now = some (e, b')) :
    b.counters.Le b'.counters := by
  rw [claimOverdue?] at h
  split at h
  · cases h
  · dsimp only at h
    split at h <;> cases h
    exact { Counters.Le.refl b.counters with
      overdue := Nat.le_succ _
      overdueTime := Nat.le_add_right _ _
      checkoutTime := Nat.le_add_right _ _ }

end Books

/-- No deed lowers a counter. -/
theorem Custody.Step.counters_le {m : Moment} {c c' : Custody} {d : Deed} (hd : Step m c d c') :
    c.books.counters.Le c'.books.counters := by
  have same := Counters.Le.refl c.books.counters
  cases hd with
  | take free found =>
    obtain ⟨rest, -, rfl⟩ := Books.takeIdle?_eq_some found
    exact same
  | claim free none_idle full overdue => exact Books.counters_le_of_claimOverdue? overdue
  | lease has =>
    exact { same with requests := Nat.le_succ _, requestTime := Nat.le_add_right _ _ }
  | reject has | refuse free | findClosed has closed => exact c.books.counters_le_countBad
  | countWait free => exact { same with waits := Nat.le_succ _ }
  | addWaitTime free => exact { same with waitTime := Nat.le_add_right _ _ }
  | takeBack free found current =>
    obtain ⟨before, later, -, -, -, rfl⟩ := Books.removeActive?_eq_some found
    exact same
  | misplace free found old =>
    obtain ⟨before, later, -, -, -, rfl⟩ := Books.removeActive?_eq_some found
    exact Books.counters_le_countBad _
  | accept has is_open => exact { same with checkoutTime := Nat.le_add_right _ _ }
  | @drain r b free accepted =>
    obtain ⟨-, -, counters⟩ := Reset.apply_eq_ok accepted
    have le : c.books.counters.Le b.counters := counters ▸ same
    exact le
  | _ => exact same

/-- No turn lowers a counter. -/
theorem Pool.Responds.counters_le {p : Pool} {e : Event} {t : Turn} (h : p.Responds e t) :
    p.books.counters.Le t.pool.books.counters := by
  obtain ⟨ds, hv⟩ := Move.exists_doneBy h
  exact hv.path.keeps (I := fun _ c => p.books.counters.Le c.books.counters)
    (fun le hd => le.trans hd.counters_le) (.refl _)

/-! ## What a turn posts -/

namespace Move

/-- What the call is for that goes on in a turn, if it holds the lock. -/
def purpose? (v : Move) : Option Purpose :=
  match v.event, v.before.holder with
  | .resume i _ _, some (holder, w) => if holder = i then some w.purpose else none
  | _, _ => none

/-- The candidates that an acquisition rejects in a turn: those that it gives up. -/
def rejected (v : Move) : List (ConnectionId × Physical) :=
  if v.purpose? = some .acquire then v.discarded else []

/-- The leases that a release takes out of the books in a turn. -/
def returned (v : Move) : List Entry :=
  match v.begun? with
  | some (.release h, _) =>
    ((v.before.books.removeActive? h.id h.generation).map Prod.fst).toList
  | _ => []

/-- The leases among them whose connection reports itself closed. -/
def foundClosed (v : Move) : List Entry :=
  match v.begun? with
  | some (_, m) => v.returned.filter fun e => m.isClosed e.physical
  | none => []

/-- The handles that are given back in a turn without a lease. -/
def missed (v : Move) : List Handle :=
  match v.begun? with
  | some (.release h, _) => if v.returned.isEmpty then [h] else []
  | _ => []

/-- The leases that a reset takes out of the books in a turn. -/
def drained (v : Move) : List Entry :=
  match v.begun? with
  | some (.reset r, _) =>
    match r.apply v.before.books with
    | .ok _ => v.before.books.active
    | .error _ => []
  | _ => []

section Begun

variable {v : Move} {m m' : Moment} {w : Work} {s : Signal} {x : Ending} {intent : Intent}

/-- Whoever begins in a turn goes on with that. -/
theorem Continues.eq_begin (h : v.Continues m w s x) (begun : v.begun? = some (intent, m')) :
    w = .begin intent := by
  obtain ⟨-, holds⟩ := begun?_eq_some.1 begun
  exact (Pool.holder_unique h.holds holds).2

/-- A turn has a purpose only if its call holds the lock. -/
theorem purpose?_eq_some {k : Purpose} (h : v.purpose? = some k) :
    ∃ w, v.before.holder = some (v.caller, w) := by
  obtain ⟨p, e, t⟩ := v
  unfold purpose? at h
  split at h
  · next i s m holder w event holds =>
    dsimp only at event holds
    subst event
    obtain ⟨rfl, -⟩ := Option.ite_none_right_eq_some.1 h
    exact ⟨w, holds⟩
  · cases h

theorem Continues.purpose?_eq (h : v.Continues m w s x) : v.purpose? = some w.purpose := by
  simp only [purpose?, h.event, h.holds, if_true]

/-- What an acquisition gives up, it rejects. -/
theorem Continues.rejected_eq (h : v.Continues m w s x) (acquires : w.purpose = .acquire) :
    v.rejected = v.discarded := if_pos (h.purpose?_eq.trans (congrArg some acquires))

theorem returned_eq_nil (h : ∀ y m, v.begun? = some (.release y, m) →
    v.before.books.removeActive? y.id y.generation = none) : v.returned = [] := by
  unfold returned
  split
  · next y m begun => rw [h y m begun]; rfl
  · rfl

theorem drained_eq_nil (h : ∀ r m, v.begun? = some (.reset r, m) →
    ∃ problem, r.apply v.before.books = .error problem) : v.drained = [] := by
  unfold drained
  split
  · next r m begun =>
    obtain ⟨problem, refuses⟩ := h r m begun
    rw [refuses]
  · rfl

theorem nothing_posted (h : v.begun? = none) :
    v.returned = [] ∧ v.foundClosed = [] ∧ v.missed = [] ∧ v.drained = [] := by
  simp only [returned, foundClosed, missed, drained, h, and_self]

/-- A turn in which no release begins is nothing to the bad connections that releases bring back. -/
theorem Continues.unposted (h : v.Continues m w s x)
    (other : ∀ y, w ≠ .begin (.release y)) : v.missed = [] ∧ v.foundClosed = [] := by
  have none_begun (y : Handle) (m' : Moment) : v.begun? ≠ some (.release y, m') := fun begun =>
    other y (h.eq_begin begun)
  have none_returned : v.returned = [] :=
    returned_eq_nil fun y m' begun => absurd begun (none_begun y m')
  constructor
  · unfold missed
    split
    · next y m' begun => exact absurd begun (none_begun y m')
    · rfl
  · unfold foundClosed
    rw [none_returned]
    split <;> rfl

end Begun

end Move

namespace Pool

variable {p : Pool} {e : Event} {t : Turn}

/-- A turn in which the holder of the lock does not go on changes no books and posts nothing. -/
theorem Responds.continues_or_idle (h : p.Responds e t) (once : p.CallsOnce) :
    (∃ m w s x, Move.Continues ⟨p, e, t⟩ m w s x) ∨
      t.pool.books = p.books ∧ Move.purpose? ⟨p, e, t⟩ = none ∧ Move.begun? ⟨p, e, t⟩ = none := by
  cases h.affects once with
  | goesOn continues => exact .inl ⟨_, _, _, _, continues⟩
  | @dropped i w event holds turn =>
    subst event turn
    obtain ⟨q, dropped, books, -⟩ := p.exists_dropWork w
    refine .inr ⟨?_, rfl, rfl⟩
    rw [dropped, books_passLock, books]
  | aside other custody holder sleepers =>
    refine .inr ⟨congrArg Custody.books custody, ?_, ?_⟩
    · rw [Option.eq_none_iff_forall_ne_some]
      intro k purpose
      obtain ⟨w, holds⟩ := Move.purpose?_eq_some purpose
      exact other w holds
    · rw [Option.eq_none_iff_forall_ne_some]
      rintro ⟨intent, m⟩ begun
      exact other _ (Move.begun?_eq_some.1 begun).2

/-- Each checkout is a lease, until this is taken away, taken back or taken out. -/
theorem Responds.requests (h : p.Responds e t) (once : p.CallsOnce) :
    t.pool.books.counters.requests + p.books.active.length + p.books.counters.overdue =
      p.books.counters.requests + t.pool.books.active.length + t.pool.books.counters.overdue +
        (Move.returned ⟨p, e, t⟩).length + (Move.drained ⟨p, e, t⟩).length := by
  obtain ⟨m, w, s, x, continues⟩ | ⟨same, -, idle⟩ := h.continues_or_idle once
  · -- A call that has begun with something else has posted nothing.
    have none_returned (misses : ∀ y, w = .begin (.release y) →
        p.books.removeActive? y.id y.generation = none) : Move.returned ⟨p, e, t⟩ = [] :=
      Move.returned_eq_nil fun y _ begun => misses y (continues.eq_begin begun)
    have none_drained (refuses : ∀ r, w = .begin (.reset r) →
        ∃ problem, r.apply p.books = .error problem) : Move.drained ⟨p, e, t⟩ = [] :=
      Move.drained_eq_nil fun r _ begun => refuses r (continues.eq_begin begun)
    have draws : p.Draws m w t.pool.books x := continues.sequel.draws
    -- A turn claims an overdue lease, returns one, drains all, or leaves the leases alone. It may
    -- lease one besides.
    cases draws with
    | claims acquires late shifts =>
      have returned := none_returned fun _ same => by cases same; cases acquires
      have drained := none_drained fun _ same => by cases same; cases acquires
      rw [returned, drained, shifts.requests, shifts.active, shifts.overdue, late.front]
      simp only [List.length_append, List.length_cons, List.length_nil]
      omega
    | @returns y _ _ _ e' found silent shifts =>
      have returned : Move.returned ⟨p, e, t⟩ = [e'] := by
        simp only [Move.returned, continues.begun?_eq, found, Option.map_some, Option.toList_some]
      obtain ⟨before, later, active, -, -, rfl⟩ := Books.removeActive?_eq_some found
      have drained := none_drained fun _ same => by cases same
      rw [returned, drained, shifts.requests, shifts.active, shifts.overdue, silent, active]
      simp only [List.length_append, List.length_cons, List.length_nil]
      omega
    | resets accepted idle silent shifts =>
      have drained : Move.drained ⟨p, e, t⟩ = p.books.active := by
        simp only [Move.drained, continues.begun?_eq, accepted]
      have returned := none_returned fun _ same => by cases same
      rw [returned, drained, shifts.requests, shifts.active, shifts.overdue, silent]
      simp only [List.length_append, List.length_nil]
      omega
    | keeps spares misses refuses shifts =>
      rw [none_returned misses, none_drained refuses, shifts.requests, shifts.active,
        shifts.overdue]
      simp only [List.length_append, List.length_nil]
      omega
  · obtain ⟨returned, -, -, drained⟩ := Move.nothing_posted idle
    rw [returned, drained, same]
    simp only [List.length_nil]
    omega

end Pool

/-! ## What posts nothing -/

namespace Pool

variable {p : Pool} {e : Event} {t : Turn}

/-- A release of a handle of another pool is over as soon as it begins. -/
theorem respond_foreign {y : Handle} {m : Moment} (foreign : y.pool ≠ p.id)
    (ht : p.respond (.start (.release y) m) = some t) :
    t.outcome = some (.failed .foreignHandle) ∧ t.pool.books = p.books := by
  have turn : (p.start (.release y) m).2 = p.numbered.turn.finish (.failed .foreignHandle) :=
    if_neg foreign
  rw [respond, turn] at ht
  obtain rfl := Option.some.inj ht
  exact ⟨rfl, rfl⟩

theorem Responds.books_of_drop (h : p.Responds e t) (dropped : e.isDrop = true) :
    t.pool.books = p.books := by
  obtain same | ⟨m, w, s, x, continues⟩ := h.books
  · exact same
  · rw [show e = _ from continues.event] at dropped
    cases dropped

/-- A rollback that fails when a connection is given back is nothing to the books. -/
theorem Responds.books_of_undo (h : p.Responds e t) {y : Entry} {keep : Bool} {since : Instant}
    {cause : PoolError} {m : Moment}
    (holds : p.holder = some (Move.caller ⟨p, e, t⟩, .undo y keep since))
    (event : e = .resume (Move.caller ⟨p, e, t⟩) (.answered (.error cause)) m) :
    t.pool.books = p.books := by
  generalize Move.caller ⟨p, e, t⟩ = i at holds event
  subst event
  obtain ⟨x, continues⟩ := h.continues holds
  have sequel : p.Sequel m (.undo y keep since) (.answered (.error cause)) t.pool.books x :=
    continues.sequel
  generalize t.pool.books = b at sequel
  cases sequel with
  | undone undone =>
    cases undone
    rfl

end Pool

/-! ## Candidates -/

namespace Books

/-- The connections in the books and the bad ones that have been counted. -/
def tally (b : Books) : Nat := b.counters.bad + b.entries.length

variable {b b' : Books} {e : Entry}

theorem tally_countBad (b : Books) : b.countBad.tally = b.tally + 1 :=
  Nat.succ_add b.counters.bad b.entries.length

theorem tally_lease (b : Books) (e : Entry) (d : Duration) : (b.lease e d).tally = b.tally + 1 := by
  simp only [tally, lease, entries, List.length_append, List.length_singleton]
  omega

theorem tally_countWaitOf (b : Books) (a : Acquisition) : (b.countWaitOf a).tally = b.tally := by
  by_cases hw : a.hasWaited <;> simp only [countWaitOf, hw] <;> rfl

theorem tally_of_takeIdle? (h : b.takeIdle? = some (e, b')) : b'.tally + 1 = b.tally := by
  obtain ⟨rest, idle, rfl⟩ := takeIdle?_eq_some h
  simp only [tally, entries, idle, List.length_append, List.length_cons]
  omega

theorem tally_of_claimOverdue? {now : Instant} (h : b.claimOverdue? now = some (e, b')) :
    b'.tally + 1 = b.tally := by
  obtain ⟨-, bad⟩ := counters_of_claimOverdue? h
  obtain ⟨rest, counters, active, -, rfl⟩ := claimOverdue?_eq_some h
  simp only at bad
  simp only [tally, entries, active, bad, List.length_append, List.length_cons]
  omega

end Books

namespace Acquisition

variable {m : Moment} {a : Acquisition} {e : Entry} {b b' : Books} {g : Generations} {x : Ending}

theorem Retries.held_eq_nil (h : a.Retries b x) : x.hand.held = [] := by
  cases h <;> rfl

theorem Refuses.tally (h : a.Refuses m e b b' x) :
    b'.tally + x.hand.held.length = b.tally + 1 := by
  cases h with
  | gone closed retries =>
    rw [retries.held_eq_nil]
    exact b.tally_countBad
  | discard is_open => exact b.tally_countBad

theorem Accepts.tally (h : a.Accepts m e b b' x) :
    b'.tally + x.hand.held.length = b.tally + 1 := by
  cases h with
  | lease pool commits => exact b.tally_lease _ _
  | prepare uncommitted => rfl

theorem Examines.tally (h : a.Examines m e b g b' x) :
    b'.tally + x.hand.held.length = b.tally + 1 := by
  cases h with
  | test query => rfl
  | accept accepts => exact accepts.tally
  | refuse bad refuses => exact refuses.tally

/-- A look at the books counts as many bad connections as it gives up. -/
theorem Looks.tally (h : a.Looks m b g b' x) : b'.tally + x.hand.held.length = b.tally := by
  cases h with
  | take found examines => exact examines.tally.trans (Books.tally_of_takeIdle? found)
  | connect none_idle room => rfl
  | reclaim none_idle full overdue uncommitted => exact Books.tally_of_claimOverdue? overdue
  | claim none_idle full overdue commits examines =>
    exact examines.tally.trans (Books.tally_of_claimOverdue? overdue)
  | timeOut none_idle full none_overdue elapsed => exact b.tally_countWaitOf a
  | sleep none_idle full none_overdue time => exact b.tally_countWaitOf a

end Acquisition

namespace Pool

variable {p : Pool} {m : Moment} {w : Work} {s : Signal} {b : Books} {x : Ending} {e : Event}
  {t : Turn}

/-- An acquisition gives up as many connections as it counts as bad. -/
theorem Sequel.tally (h : p.Sequel m w s b x) (acquires : w.purpose = .acquire) :
    b.tally + x.hand.held.length =
      p.books.tally + (w.received? s).toList.length + w.hand.held.length := by
  cases h with
  | look looks => exact looks.tally
  | awaken looks => exact looks.tally
  | opened examines => exact examines.tally
  | reclaimed examines => exact examines.tally
  | passed phase accepts => exact accepts.tally
  | failed phase refuses => exact refuses.tally
  | unprepared refuses => exact refuses.tally
  | prepared pool => exact p.books.tally_lease _ _
  | discarded retries =>
    rw [retries.held_eq_nil]
    rfl
  | openFailed | probed | failing => rfl
  | _ => cases acquires

/-- Other calls count as bad only what a release brings back. -/
theorem bad_of_continues (h : Move.Continues ⟨p, e, t⟩ m w s x) {hs : List Handle}
    {os : List (ConnectionId × Physical)} (sound : Custody.Sound hs os p.custody)
    (other : w.purpose ≠ .acquire) :
    t.pool.books.counters.bad = p.books.counters.bad +
      (Move.missed ⟨p, e, t⟩).length + (Move.foundClosed ⟨p, e, t⟩).length := by
  have sequel : p.Sequel m w s t.pool.books x := h.sequel
  generalize t.pool.books = b at sequel ⊢
  have begun {intent : Intent} (same : w = .begin intent) :
      Move.begun? ⟨p, e, t⟩ = some (intent, m) := by
    subst same
    exact h.begun?_eq
  -- A call that begins with something else, or that goes on, posts nothing.
  have unposted (none_release : ∀ y, w ≠ .begin (.release y))
      (same : b.counters.bad = p.books.counters.bad) :
      b.counters.bad = p.books.counters.bad +
        (Move.missed ⟨p, e, t⟩).length + (Move.foundClosed ⟨p, e, t⟩).length := by
    obtain ⟨missed, foundClosed⟩ := h.unposted none_release
    rw [missed, foundClosed, same]
    rfl
  have posted {y : Handle} {e' : Entry} {b' : Books} (same : w = .begin (.release y))
      (found : p.books.removeActive? y.id y.generation = some (e', b')) :
      Move.missed ⟨p, e, t⟩ = [] ∧
        Move.foundClosed ⟨p, e, t⟩ = [e'].filter fun e => m.isClosed e.physical := by
    simp [Move.missed, Move.foundClosed, Move.returned, begun same, found]
  cases sequel with
  | look | awaken | opened | openFailed | reclaimed | probed | failing | passed | failed | prepared
  | unprepared | discarded => exact absurd rfl other
  | missing none_found =>
    simp [Move.missed, Move.foundClosed, Move.returned, begun rfl, none_found, Books.countBad]
  | misplaced found old => cases old.symm.trans (sound.current_of_removeActive? found)
  | takeBack found current returned =>
    obtain ⟨missed, foundClosed⟩ := posted rfl found
    obtain ⟨before, later, -, -, -, rfl⟩ := Books.removeActive?_eq_some found
    rw [missed, foundClosed]
    cases returned with
    | gone closed => simp [closed, Books.countBad]
    | undo is_open uncommitted => simp [is_open, Books.addCheckoutTime]
    | commit is_open commits undone =>
      cases undone <;> simp [is_open, Books.addCheckoutTime, Books.keep]
  | refused | policy | source | snapshot | tolerate =>
    exact unposted (fun _ same => by cases same) rfl
  | reset accepted clears =>
    obtain ⟨-, -, counters⟩ := Reset.apply_eq_ok accepted
    exact unposted (fun _ same => by cases same) (congrArg Counters.bad counters)
  | undone undone => cases undone <;> exact unposted (fun _ => Work.noConfusion) rfl
  | closed | closedAfter | resetUndone | resetClosed =>
    exact unposted (fun _ => Work.noConfusion) rfl

end Pool

/-! ## Runs -/

theorem Custody.length_names (c : Custody) :
    c.names.length = c.books.entries.length + c.hand.held.length := by
  rw [names_eq, List.length_append, List.length_map, Books.names, List.length_map]

/-- A turn finds out that a candidate is no good: its connection is closed, its test has failed, or
    it could not be rolled back. -/
inductive Move.Refutes (v : Move) (c : Physical) : Prop
  | gone {m : Moment} (moment : v.moment? = some m) (closed : m.isClosed c = true) : Refutes v c
  | tested {a : Acquisition} {e : Entry} {k : Checkup} {cause : PoolError}
      (holds : v.before.holder = some (v.caller, .examine a e k))
      (failed : k.phase = .closing cause) (same : e.physical = c) : Refutes v c
  | unprepared {a : Acquisition} {e : Entry} {cause : PoolError} {m : Moment}
      (holds : v.before.holder = some (v.caller, .prepare a e))
      (event : v.event = .resume v.caller (.answered (.error cause)) m)
      (same : e.physical = c) : Refutes v c

namespace Run

variable {id : PoolId} {source : DataSource} {policy : Policy} {r : Run} {e : Event} {t : Turn}

namespace Of

/-- What a turn adds to the bad connections. -/
theorem bad_move (h : Of (.opened id source policy) r) (ht : r.pool.respond e = some t) :
    let v : Move := ⟨r.pool, e, t⟩
    t.pool.books.counters.bad = r.pool.books.counters.bad + v.rejected.length + v.missed.length +
      v.foundClosed.length := by
  intro v
  obtain ⟨m, w, s, x, continues⟩ | ⟨same, purpose, idle⟩ :=
    (Pool.responds_of_respond ht).continues_or_idle h.callsOnce
  · by_cases acquires : w.purpose = .acquire
    · have rejected : v.rejected = v.discarded := continues.rejected_eq acquires
      obtain ⟨missed, foundClosed⟩ := continues.unposted fun y same => by cases same; cases acquires
      rw [rejected, missed, foundClosed]
      -- As many connections are given up as are counted as bad.
      have balance : v.discarded.length + (t.pool.books.entries.length + x.hand.held.length) =
          (w.received? s).toList.length +
            (r.pool.books.entries.length + w.hand.held.length) := by
        have hand : t.pool.custody.hand = x.hand := continues.hand_eq
        have names := (h.discarded_append ht).length_eq
        rwa [List.length_append, List.length_append, Custody.length_names, Custody.length_names,
          hand, Pool.hand_of_holder continues.holds, continues.opened?_eq, Option.length_toList,
          Option.isSome_map, ← Option.length_toList] at names
      have tally : t.pool.books.tally + x.hand.held.length =
          r.pool.books.tally + (w.received? s).toList.length + w.hand.held.length :=
        continues.sequel.tally acquires
      simp only [Books.tally] at tally
      simp only [List.length_nil]
      omega
    · have rejected : v.rejected = [] :=
        if_neg fun same => acquires (Option.some.inj (continues.purpose?_eq.symm.trans same))
      rw [rejected]
      exact Pool.bad_of_continues continues h.sound acquires
  · have rejected : v.rejected = [] := if_neg (by simp [v, purpose])
    obtain ⟨-, foundClosed, missed, -⟩ := Move.nothing_posted idle
    rw [rejected, missed, foundClosed, same]
    rfl

/-- A candidate is rejected for a reason. -/
theorem refutes (h : Of (.opened id source policy) r) (ht : r.pool.respond e = some t)
    {o : ConnectionId × Physical} (ho : o ∈ Move.rejected ⟨r.pool, e, t⟩) :
    Move.Refutes ⟨r.pool, e, t⟩ o.2 := by
  unfold Move.rejected at ho
  split at ho
  · next acquires =>
    obtain ⟨m, w, s, x, continues⟩ | ⟨-, purpose, -⟩ :=
      (Pool.responds_of_respond ht).continues_or_idle h.callsOnce
    · rw [continues.purpose?_eq] at acquires
      cases Pool.gives_of_continues continues h.sound ho with
      | gone closed => exact .gone continues.moment?_eq closed
      | tested failed same => exact .tested continues.holds failed same
      | unprepared same => exact .unprepared continues.holds continues.event same
      | ends other gives => exact absurd (Option.some.inj acquires) other
    · cases purpose.symm.trans acquires
  · cases ho

/-- Each lease that was given is in the books, or it has been taken away, returned or drained. -/
theorem requests (h : Of (.opened id source policy) r) : r.pool.books.counters.requests =
    r.pool.books.active.length + r.pool.books.counters.overdue +
      (r.moves.flatMap Move.returned).length + (r.moves.flatMap Move.drained).length := by
  induction h with
  | start => rfl
  | move h ht ih =>
    have posts := (Pool.responds_of_respond ht).requests h.callsOnce
    simp only [pool_move, moves_move, List.flatMap_cons, List.length_append]
    omega

/-- The bad connections are the rejected candidates, the returns that were missed, and what was
    returned closed. -/
theorem bad (h : Of (.opened id source policy) r) : r.pool.books.counters.bad =
    (r.moves.flatMap Move.rejected).length + (r.moves.flatMap Move.missed).length +
      (r.moves.flatMap Move.foundClosed).length := by
  induction h with
  | start => rfl
  | move h ht ih =>
    have posts := h.bad_move ht
    simp only [pool_move, moves_move, List.flatMap_cons, List.length_append]
    omega

end Of

/-- The counters of a run are accounted for. -/
structure ConservesCounts (r : Run) : Prop where
  /-- Each checkout is a lease, until this is taken away, taken back or taken out. -/
  requests : r.pool.books.counters.requests =
    r.pool.books.active.length + r.pool.books.counters.overdue +
      (r.moves.flatMap Move.returned).length + (r.moves.flatMap Move.drained).length
  /-- The bad connections are the rejected candidates, the handles given back without a lease, and
      the leases given back closed. -/
  bad : r.pool.books.counters.bad =
    (r.moves.flatMap Move.rejected).length + (r.moves.flatMap Move.missed).length +
      (r.moves.flatMap Move.foundClosed).length
  /-- A candidate is rejected for a reason. -/
  refuted : ∀ v ∈ r.moves, ∀ o ∈ v.rejected, v.Refutes o.2
  /-- A release that begins is one of a handle of the pool. -/
  own : ∀ v ∈ r.moves, ∀ y m, v.begun? = some (.release y, m) → y.pool = v.before.id
  /-- That of another handle fails at once, and counts for nothing. -/
  foreign : ∀ v ∈ r.moves, ∀ y m, v.event = .start (.release y) m → y.pool ≠ v.before.id →
    v.turn.outcome = some (.failed .foreignHandle) ∧ v.after.books = v.before.books
  /-- Nor does a rollback that fails when a connection is given back. -/
  undone : ∀ v ∈ r.moves, ∀ e keep since cause m,
    v.before.holder = some (v.caller, .undo e keep since) →
      v.event = .resume v.caller (.answered (.error cause)) m → v.after.books = v.before.books
  /-- Nor does a call that is dropped, with its candidate or without. -/
  dropped : ∀ v ∈ r.moves, v.event.isDrop = true → v.after.books = v.before.books
  /-- No counter ever falls. -/
  grows : ∀ v ∈ r.moves, v.before.books.counters.Le v.after.books.counters

end Run

/-- The counters are conserved: at any time, they agree with all that has happened. -/
theorem Pool.conserves_counts (id : PoolId) (source : DataSource) (policy : Policy)
    (events : List Event) : ((opened id source policy).run events).ConservesCounts := by
  have h := (opened id source policy).of_run events
  generalize (opened id source policy).run events = r at h
  refine ⟨h.requests, h.bad, ?_, ?_, ?_, ?_, ?_, ?_⟩ <;> rintro ⟨p, e, t⟩ hv <;>
    obtain ⟨r₀, h₀, rfl, ht⟩ := h.exists_before hv
  · exact fun o ho => h₀.refutes ht ho
  · intro y m begun
    exact (h₀.own (.holds (Move.begun?_eq_some.1 begun).2)).trans h₀.pool_eq.1.symm
  · intro y m event foreign
    obtain rfl : e = .start (.release y) m := event
    exact respond_foreign foreign ht
  · intro e' keep since cause m holds event
    exact (responds_of_respond ht).books_of_undo holds event
  · exact (responds_of_respond ht).books_of_drop
  · exact (responds_of_respond ht).counters_le

end LeasePool
