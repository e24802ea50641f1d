import LeasePool.Proofs.Ledger
import LeasePool.Proofs.Withdrawals

/-!
# The balance of the times

Beside its counts a pool keeps four sums of times, and each of them is made up of spans that begin
and end with turns of the pool: the leases that are over, the time from the beginning of an
acquisition to its hand-out, and the time for which a caller has slept. A sum grows in the turn in
which a span ends, and in no other.

* `Pool.Sequel.adds`: what a turn of the holder of the lock adds to the sums;
* `Run.Of.adds`: the sums of a run are those of its spans;
* `Run.Of.leases`: every lease that was ever given is in the books, or it has been taken out once.
-/

namespace LeasePool

open scoped List

/-! ## Spans of time -/

namespace Duration

/-- The sum of some durations. -/
def total : List Duration → Duration
  | [] => zero
  | d :: ds => d + total ds

theorem add_assoc (a b c : Duration) : a + b + c = a + (b + c) :=
  congrArg Duration.mk (Nat.add_assoc a.nanos b.nanos c.nanos)

theorem add_comm (a b : Duration) : a + b = b + a :=
  congrArg Duration.mk (Nat.add_comm a.nanos b.nanos)

theorem zero_add (a : Duration) : zero + a = a := congrArg Duration.mk (Nat.zero_add a.nanos)

/-- What is added to two sums may be added to each of them first. -/
theorem add_add_add_swap (a b c d : Duration) : a + b + (c + d) = c + a + (d + b) := by
  refine congrArg Duration.mk ?_
  simp only [nanos_add]
  omega

theorem total_append (ds ds' : List Duration) : total (ds ++ ds') = total ds + total ds' := by
  induction ds with
  | nil => exact (zero_add _).symm
  | cons d ds ih => rw [List.cons_append, total, total, ih, add_assoc]

theorem total_perm {ds ds' : List Duration} (h : ds ~ ds') : total ds = total ds' := by
  induction h with
  | nil => rfl
  | cons d _ ih => rw [total, total, ih]
  | swap d d' ds => rw [total, total, total, total, ← add_assoc, add_comm d' d, add_assoc]
  | trans _ _ ih ih' => exact ih.trans ih'

end Duration

/-- A lease that is over: its entry, and when that was taken out of the books. -/
structure PastLease where
  entry : Entry
  endedAt : Instant

/-- For how long the connection was checked out. -/
def PastLease.time (l : PastLease) : Duration := l.entry.checkoutTime l.endedAt

namespace Books

/-- The oldest lease, if an acquisition takes it away that looks at the books. -/
def overdue (b : Books) (now : Instant) : List Entry :=
  b.active.head?.toList.filter fun e =>
    b.idle.isEmpty && !b.canOpen && decide (b.policy.maxCheckout < e.checkoutTime now)

variable {b b' b'' : Books} {e : Entry} {now : Instant}

theorem overdue_eq {rest : List Entry} (h : b.Overdue now e rest) : b.overdue now = [e] := by
  simp [overdue, h.front, h.none_idle, canOpen_eq_false.2 h.full, h.late]

theorem late_of_overdue (h : e ∈ b.overdue now) : b.policy.maxCheckout < e.checkoutTime now := by
  have is := List.of_mem_filter h
  simp only [Bool.and_eq_true, decide_eq_true_eq] at is
  exact is.2

/-- If no lease is overdue, there is none to be claimed. -/
theorem overdue_eq_nil (h : ∀ e rest, ¬ b.Overdue now e rest) : b.overdue now = [] := by
  cases active : b.active with
  | nil => simp [overdue, active]
  | cons e rest =>
    rw [overdue, List.filter_eq_nil_iff]
    intro e' he' is
    obtain rfl : e' = e := by simpa [active] using he'
    simp only [Bool.and_eq_true, List.isEmpty_iff, Bool.not_eq_true', decide_eq_true_eq] at is
    exact h e' rest ⟨is.1.1, canOpen_eq_false.1 is.1.2, active, is.2⟩

theorem overdue_addWaitTime (b : Books) (d : Duration) :
    (b.addWaitTime d).overdue now = b.overdue now := rfl

/-- From `b` to `b'`, the sums of times have grown by these. -/
structure Adds (b b' : Books) (held late took slept : List Duration) : Prop where
  checkoutTime : b'.counters.checkoutTime = b.counters.checkoutTime + .total held
  overdueTime : b'.counters.overdueTime = b.counters.overdueTime + .total late
  requestTime : b'.counters.requestTime = b.counters.requestTime + .total took
  waitTime : b'.counters.waitTime = b.counters.waitTime + .total slept

namespace Adds

variable {held held' late late' took took' slept slept' : List Duration}

theorem nothing (same : b'.counters = b.counters) : b.Adds b' [] [] [] [] := by
  constructor <;> rw [same] <;> rfl

theorem trans (h : b.Adds b' held late took slept) (h' : b'.Adds b'' held' late' took' slept') :
    b.Adds b'' (held ++ held') (late ++ late') (took ++ took') (slept ++ slept') := by
  have sum {x y z : Duration} {ds ds' : List Duration} (hy : y = x + .total ds)
      (hz : z = y + .total ds') : z = x + .total (ds ++ ds') := by
    rw [hz, hy, Duration.add_assoc, Duration.total_append]
  exact ⟨sum h.checkoutTime h'.checkoutTime, sum h.overdueTime h'.overdueTime,
    sum h.requestTime h'.requestTime, sum h.waitTime h'.waitTime⟩

end Adds

theorem adds_countBad (b : Books) : b.Adds b.countBad [] [] [] [] := ⟨rfl, rfl, rfl, rfl⟩

theorem adds_lease (b : Books) (e : Entry) (d : Duration) : b.Adds (b.lease e d) [] [] [d] [] :=
  ⟨rfl, rfl, rfl, rfl⟩

theorem adds_addWaitTime (b : Books) (d : Duration) : b.Adds (b.addWaitTime d) [] [] [] [d] :=
  ⟨rfl, rfl, rfl, rfl⟩

theorem adds_addCheckoutTime (b : Books) (d : Duration) :
    b.Adds (b.addCheckoutTime d) [d] [] [] [] :=
  ⟨rfl, rfl, rfl, rfl⟩

theorem adds_countWaitOf (b : Books) (a : Acquisition) :
    b.Adds (b.countWaitOf a) [] [] [] [] := by
  by_cases hw : a.hasWaited <;> simp only [countWaitOf, hw] <;> exact ⟨rfl, rfl, rfl, rfl⟩

theorem adds_of_claimOverdue? (h : b.claimOverdue? now = some (e, b')) :
    b.Adds b' [e.checkoutTime now] [e.checkoutTime now] [] [] := by
  rw [claimOverdue?] at h
  split at h
  · cases h
  · dsimp only at h
    split at h <;> cases h
    exact ⟨rfl, rfl, rfl, rfl⟩

end Books

/-! ## What follows some work -/

namespace Work

/-- The leases that a call takes out of the books that begins with some work. -/
def takes (b : Books) (now : Instant) : Work → List Entry
  | .begin (.acquire _) | .begin (.awaken _ _) => b.overdue now
  | .begin (.release h) => ((b.removeActive? h.id h.generation).map Prod.fst).toList
  | .begin (.reset r) =>
    match r.apply b with
    | .ok _ => b.active
    | .error _ => []
  | _ => []

/-- How long an acquisition has taken that hands out a connection. -/
def took (m : Moment) (x : Ending) (w : Work) : List Duration :=
  w.acquisition?.toList.flatMap fun a => x.leased.map fun _ => m.now.since a.startedAt

/-- Since when a caller has slept that is going to look again. -/
def asleepSince? : Work → Option Instant
  | .begin (.awaken _ since) => some since
  | _ => none

/-- What an acquisition takes out has been leased for longer than it may be. -/
theorem late_of_takes {b : Books} {now : Instant} {w : Work} {e : Entry}
    (acquires : w.purpose = .acquire) (taken : e ∈ w.takes b now) :
    b.policy.maxCheckout < e.checkoutTime now := by
  cases w with
  | begin intent =>
    cases intent with
    | acquire | awaken => exact Books.late_of_overdue taken
    | _ => cases acquires
  | _ => cases taken

theorem took_eq {m : Moment} {x : Ending} {w : Work} {a : Acquisition}
    (acquires : w.acquisition? = some a) :
    w.took m x = x.leased.map fun _ => m.now.since a.startedAt := by
  rw [took, acquires, Option.toList_some, List.flatMap_singleton]

end Work

/-- The leases that are reclaimed, if these have been taken out of the books by a call. -/
def Purpose.reclaimed (k : Purpose) (es : List Entry) : List Entry :=
  if k = .acquire then es else []

/-- The leases that are taken back with an open connection, if these have been taken out of the
    books by a call. -/
def Purpose.takenBack (k : Purpose) (m : Moment) (es : List Entry) : List Entry :=
  if k = .release then es.filter fun e => !m.isClosed e.physical else []

namespace Acquisition

open Books

variable {m : Moment} {a : Acquisition} {e : Entry} {b b' : Books} {g : Generations} {x : Ending}

theorem Refuses.adds (h : a.Refuses m e b b' x) : b.Adds b' [] [] [] [] ∧ x.leased = [] := by
  cases h with
  | gone closed retries => exact ⟨adds_countBad b, retries.leased⟩
  | discard is_open => exact ⟨adds_countBad b, rfl⟩

/-- Only a hand-out adds to the sums: the time that the acquisition has taken. -/
theorem Accepts.adds (h : a.Accepts m e b b' x) :
    b.Adds b' [] [] (x.leased.map fun _ => m.now.since a.startedAt) [] := by
  cases h with
  | lease pool commits => exact adds_lease b _ _
  | prepare uncommitted => exact .nothing rfl

theorem Examines.adds (h : a.Examines m e b g b' x) :
    b.Adds b' [] [] (x.leased.map fun _ => m.now.since a.startedAt) [] := by
  cases h with
  | test query => exact .nothing rfl
  | accept accepts => exact accepts.adds
  | refuse bad refuses =>
    obtain ⟨adds, silent⟩ := refuses.adds
    rwa [silent]

/-- An acquisition that looks at the books adds the time of the lease that it takes away, and the
    time that it has taken if it hands out a connection. -/
theorem Looks.adds (h : a.Looks m b g b' x) :
    b.Adds b' ((b.overdue m.now).map fun e => e.checkoutTime m.now)
      ((b.overdue m.now).map fun e => e.checkoutTime m.now)
      (x.leased.map fun _ => m.now.since a.startedAt) [] := by
  -- A time is posted just when a lease is overdue, none is idle and there is no room.
  have claimed {e : Entry} {b₁ : Books} {took : List Duration} (none_idle : b.takeIdle? = none)
      (full : b.canOpen = false) (overdue : b.claimOverdue? m.now = some (e, b₁))
      (adds : b₁.Adds b' [] [] took []) :
      b.Adds b' ((b.overdue m.now).map fun e => e.checkoutTime m.now)
        ((b.overdue m.now).map fun e => e.checkoutTime m.now) took [] := by
    rw [overdue_eq (overdue_of_claimOverdue? none_idle full overdue)]
    exact (adds_of_claimOverdue? overdue).trans adds
  have none_late (none_overdue : b.claimOverdue? m.now = none) : b.overdue m.now = [] :=
    overdue_eq_nil fun _ _ late => claimOverdue?_of_overdue late none_overdue
  cases h with
  | take found examines =>
    obtain ⟨rest, idle, rfl⟩ := takeIdle?_eq_some found
    rw [overdue_eq_nil fun _ _ late => by cases idle.symm.trans late.none_idle]
    have adds := examines.adds
    exact ⟨adds.checkoutTime, adds.overdueTime, adds.requestTime, adds.waitTime⟩
  | connect none_idle room =>
    rw [overdue_eq_nil fun _ _ late => Nat.not_lt_of_le late.full (canOpen_iff.1 room)]
    exact .nothing rfl
  | reclaim none_idle full overdue uncommitted =>
    exact claimed none_idle full overdue (.nothing rfl)
  | claim none_idle full overdue commits examines =>
    exact claimed none_idle full overdue examines.adds
  | timeOut none_idle full none_overdue elapsed =>
    rw [none_late none_overdue]
    exact adds_countWaitOf b a
  | sleep none_idle full none_overdue time =>
    rw [none_late none_overdue]
    exact adds_countWaitOf b a

end Acquisition

namespace Entry

open Books

variable {m : Moment} {e : Entry} {b b' : Books} {x : Ending}

theorem Undone.adds {keep : Bool} {returnedAt : Instant} {result : Except PoolError Unit}
    (h : e.Undone b keep returnedAt result b' x) : b.Adds b' [] [] [] [] := by
  cases h <;> exact .nothing rfl

/-- A release adds the time of the lease that it takes back, if the connection is open. -/
theorem Returned.adds (h : e.Returned m b b' x) :
    b.Adds b' (([e].filter fun e => !m.isClosed e.physical).map fun e => e.checkoutTime m.now)
      [] [] [] := by
  cases h with
  | gone closed =>
    rw [List.filter_cons_of_neg (by simp [closed])]
    exact adds_countBad b
  | undo is_open uncommitted =>
    rw [List.filter_cons_of_pos (by simp [is_open])]
    exact adds_addCheckoutTime b _
  | commit is_open commits undone =>
    rw [List.filter_cons_of_pos (by simp [is_open])]
    exact (adds_addCheckoutTime b _).trans undone.adds

end Entry

namespace Pool

open Books

variable {p : Pool} {m : Moment} {w : Work} {s : Signal} {b : Books} {x : Ending}

/-- The leases that a call takes out of the books do not remain there. -/
theorem Draws.takes (h : p.Draws m w b x) :
    ∃ kept, b.active = kept ++ x.leased ∧ p.books.active ~ kept ++ w.takes p.books m.now := by
  cases h with
  | @claims intent _ _ e rest acquires late shifts =>
    have taken : Work.takes p.books m.now (.begin intent) = [e] := by
      cases intent with
      | acquire | awaken => exact overdue_eq late
      | _ => cases acquires
    refine ⟨rest, shifts.active, ?_⟩
    rw [taken, late.front]
    exact (List.perm_append_singleton e rest).symm
  | returns found silent shifts =>
    refine ⟨_, shifts.active, ?_⟩
    obtain ⟨before, later, active, -, -, rfl⟩ := removeActive?_eq_some found
    simp only [Work.takes, found, active, Option.map_some, Option.toList_some]
    exact List.perm_middle.trans (List.perm_append_singleton _ _).symm
  | resets accepted idle silent shifts =>
    refine ⟨[], shifts.active, ?_⟩
    simp only [Work.takes, accepted, List.nil_append, List.Perm.refl]
  | keeps spares misses refuses shifts =>
    refine ⟨_, shifts.active, ?_⟩
    have nothing : w.takes p.books m.now = [] := by
      cases w with
      | begin intent =>
        cases intent with
        | acquire | awaken => exact overdue_eq_nil fun e rest => spares _ e rest rfl rfl
        | release y => simp only [Work.takes, misses y rfl, Option.map_none, Option.toList_none]
        | reset r =>
          obtain ⟨problem, refused⟩ := refuses r rfl
          simp only [Work.takes, refused]
        | inquire q => rfl
      | _ => rfl
    rw [nothing, List.append_nil]

/-- What a turn of the holder of the lock adds to the sums, where all leases are current. -/
theorem Sequel.adds (h : p.Sequel m w s b x)
    (current : ∀ {i g y}, p.books.removeActive? i g = some y → y.1.isCurrent p.generations = true) :
    p.books.Adds b
      ((w.purpose.reclaimed (w.takes p.books m.now) ++
        w.purpose.takenBack m (w.takes p.books m.now)).map fun e => e.checkoutTime m.now)
      ((w.purpose.reclaimed (w.takes p.books m.now)).map fun e => e.checkoutTime m.now)
      (w.took m x) (w.asleepSince?.toList.map m.now.since) := by
  -- A call that is going on takes out no leases.
  have goesOn (nothing : w.takes p.books m.now = [])
      (adds : p.books.Adds b [] [] (w.took m x) (w.asleepSince?.toList.map m.now.since)) :
      p.books.Adds b
        ((w.purpose.reclaimed (w.takes p.books m.now) ++
          w.purpose.takenBack m (w.takes p.books m.now)).map fun e => e.checkoutTime m.now)
        ((w.purpose.reclaimed (w.takes p.books m.now)).map fun e => e.checkoutTime m.now)
        (w.took m x) (w.asleepSince?.toList.map m.now.since) := by
    rw [nothing]
    simpa [Purpose.reclaimed, Purpose.takenBack] using adds
  have served {a : Acquisition} (acquires : w.acquisition? = some a)
      (adds : p.books.Adds b [] [] (x.leased.map fun _ => m.now.since a.startedAt) []) :
      p.books.Adds b [] [] (w.took m x) [] := by
    rwa [Work.took_eq acquires]
  have refused {a : Acquisition} (acquires : w.acquisition? = some a)
      (adds : p.books.Adds b [] [] [] [] ∧ x.leased = []) : p.books.Adds b [] [] (w.took m x) [] :=
    served acquires (by rw [adds.2]; exact adds.1)
  cases h with
  | look looks =>
    rw [Work.took_eq rfl]
    simpa [Work.purpose, Intent.purpose, Purpose.reclaimed, Purpose.takenBack, Work.takes,
      Work.asleepSince?] using looks.adds
  | awaken looks =>
    have adds := (adds_addWaitTime p.books _).trans looks.adds
    rw [overdue_addWaitTime] at adds
    rw [Work.took_eq rfl]
    simpa [Work.purpose, Intent.purpose, Purpose.reclaimed, Purpose.takenBack, Work.takes,
      Work.asleepSince?] using adds
  | missing none_found =>
    exact goesOn (by simp only [Work.takes, none_found, Option.map_none, Option.toList_none])
      (adds_countBad _)
  | misplaced found old => cases old.symm.trans (current found)
  | takeBack found current returned =>
    simp only [Work.purpose, Intent.purpose, Purpose.reclaimed, Purpose.takenBack, Work.takes,
      found]
    obtain ⟨before, later, -, -, -, rfl⟩ := removeActive?_eq_some found
    have adds := returned.adds
    exact ⟨adds.checkoutTime, adds.overdueTime, adds.requestTime, adds.waitTime⟩
  | refused refuses => exact goesOn (by simp only [Work.takes, refuses]) (.nothing rfl)
  | reset accepted clears => exact .nothing (Reset.apply_eq_ok accepted).2.2
  | opened examines => exact goesOn rfl (served rfl examines.adds)
  | reclaimed examines => exact goesOn rfl (served rfl examines.adds)
  | passed phase accepts => exact goesOn rfl (served rfl accepts.adds)
  | failed phase refuses => exact goesOn rfl (refused rfl refuses.adds)
  | prepared pool => exact goesOn rfl (adds_lease _ _ _)
  | unprepared refuses => exact goesOn rfl (refused rfl refuses.adds)
  | discarded retries => exact goesOn rfl (refused rfl ⟨.nothing rfl, retries.leased⟩)
  | undone undone => exact goesOn rfl undone.adds
  | _ => exact goesOn rfl (.nothing rfl)

end Pool

/-! ## What a turn posts -/

namespace Move

/-- The leases that are in the books before a turn and not after it. -/
def takenOut (v : Move) : List Entry :=
  v.before.books.active.filter fun e => e ∉ v.after.books.active

/-- Those that an acquisition has taken out, with the moment. -/
def reclaimed (v : Move) : List PastLease :=
  match v.purpose?, v.moment? with
  | some k, some m => (k.reclaimed v.takenOut).map fun e => ⟨e, m.now⟩
  | _, _ => []

/-- Those that a release has taken out whose connection is open, with the moment. -/
def takenBack (v : Move) : List PastLease :=
  match v.purpose?, v.moment? with
  | some k, some m => (k.takenBack m v.takenOut).map fun e => ⟨e, m.now⟩
  | _, _ => []

variable {v : Move} {m : Moment} {w : Work} {s : Signal} {x : Ending}

theorem Continues.reclaimed_eq (h : v.Continues m w s x) :
    v.reclaimed = (w.purpose.reclaimed v.takenOut).map fun e => ⟨e, m.now⟩ := by
  simp only [reclaimed, h.purpose?_eq, h.moment?_eq]

theorem Continues.takenBack_eq (h : v.Continues m w s x) :
    v.takenBack = (w.purpose.takenBack m v.takenOut).map fun e => ⟨e, m.now⟩ := by
  simp only [takenBack, h.purpose?_eq, h.moment?_eq]

/-- What is posted of a lease in a turn has been taken out then. -/
theorem exists_of_posted {l : PastLease} (h : l ∈ v.reclaimed ++ v.takenBack) :
    l.entry ∈ v.takenOut ∧ ∃ m, v.moment? = some m ∧ l.endedAt = m.now := by
  rcases List.mem_append.1 h with h | h
  · unfold reclaimed at h
    split at h
    · next k m purpose moment =>
      obtain ⟨e, he, rfl⟩ := List.mem_map.1 h
      rw [Purpose.reclaimed] at he
      split at he
      · exact ⟨he, m, moment, rfl⟩
      · cases he
    · cases h
  · unfold takenBack at h
    split at h
    · next k m purpose moment =>
      obtain ⟨e, he, rfl⟩ := List.mem_map.1 h
      rw [Purpose.takenBack] at he
      split at he
      · exact ⟨List.mem_of_mem_filter he, m, moment, rfl⟩
      · cases he
    · cases h

end Move

namespace Purpose

variable {k : Purpose} {m : Moment} {es es' : List Entry}

theorem reclaimed_perm (h : es ~ es') : k.reclaimed es ~ k.reclaimed es' := by
  rw [reclaimed, reclaimed]
  split
  · exact h
  · exact .refl _

theorem takenBack_perm (h : es ~ es') : k.takenBack m es ~ k.takenBack m es' := by
  rw [takenBack, takenBack]
  split
  · exact h.filter _
  · exact .refl _

end Purpose

/-! ## Runs -/

namespace Run

/-- The leases that have been taken away in a run. -/
def reclaimed (r : Run) : List PastLease := r.moves.flatMap Move.reclaimed

/-- The leases that have been taken back in a run with an open connection. -/
def takenBack (r : Run) : List PastLease := r.moves.flatMap Move.takenBack

variable {id : PoolId} {source : DataSource} {policy : Policy} {r : Run} {e : Event} {t : Turn}
  {m : Moment} {w : Work} {s : Signal} {x : Ending}

namespace Of

/-- What is handed out in a turn was not leased before it. -/
theorem fresh_of_issued (h : Of (.opened id source policy) r) (ht : r.pool.respond e = some t)
    {y : Handle} (issued : Move.issued? ⟨r.pool, e, t⟩ = some y) :
    y.toEntry ∉ r.pool.books.active := by
  intro leased
  obtain ⟨y', hy', same⟩ := h.exists_issued leased
  have once := (h.move ht).sound.issued_once
  rw [issued_move, issued, List.map_reverse, List.nodup_reverse] at once
  refine (List.nodup_cons.1 once).1 (List.mem_map.2 ⟨y', hy', ?_⟩)
  rw [same]

/-- What is taken out of the books in a turn. -/
theorem takenOut_perm (h : Of (.opened id source policy) r) (ht : r.pool.respond e = some t)
    (continues : Move.Continues ⟨r.pool, e, t⟩ m w s x) :
    Move.takenOut ⟨r.pool, e, t⟩ ~ w.takes r.pool.books m.now ∧
      x.leased ++ r.pool.books.active ~ t.pool.books.active ++ Move.takenOut ⟨r.pool, e, t⟩ := by
  have draws : r.pool.Draws m w t.pool.books x := continues.sequel.draws
  obtain ⟨kept, active, before⟩ := draws.takes
  -- What is kept and what is taken are apart, and the new lease is none of them, so what is missing
  -- after the turn is what was taken.
  have once : r.pool.books.active.Nodup := by
    have distinct := h.sound.distinct
    rw [Custody.present, List.append_assoc] at distinct
    exact (List.nodup_append.1 (List.Nodup.of_map _ distinct)).1
  have apart := List.nodup_append.1 (before.nodup_iff.1 once)
  have taken : Move.takenOut ⟨r.pool, e, t⟩ ~ w.takes r.pool.books m.now := by
    have all : (w.takes r.pool.books m.now).filter (fun e => e ∉ t.pool.books.active) =
        w.takes r.pool.books m.now := by
      rw [List.filter_eq_self]
      intro c hc
      rw [decide_eq_true_eq, active, List.mem_append, not_or]
      refine ⟨fun hk => apart.2.2 c hk c hc rfl, fun new => ?_⟩
      rw [continues.leased_eq, Option.mem_toList, Option.map_eq_some_iff] at new
      obtain ⟨y, issued, rfl⟩ := new
      exact h.fresh_of_issued ht issued (before.mem_iff.2 (List.mem_append_right _ hc))
    have none : kept.filter (fun e => e ∉ t.pool.books.active) = [] := by
      rw [List.filter_eq_nil_iff]
      intro c hc
      simp [active, hc]
    have filtered := before.filter fun e => e ∉ t.pool.books.active
    rwa [List.filter_append, none, all, List.nil_append] at filtered
  refine ⟨taken, ?_⟩
  rw [active]
  calc x.leased ++ r.pool.books.active
      ~ x.leased ++ (kept ++ w.takes r.pool.books m.now) := before.append_left _
    _ ~ (kept ++ x.leased) ++ w.takes r.pool.books m.now := by
      rw [← List.append_assoc]
      exact List.perm_append_comm.append_right _
    _ ~ (kept ++ x.leased) ++ Move.takenOut ⟨r.pool, e, t⟩ := taken.symm.append_left _

/-- What a turn of the holder of the lock adds to the sums. -/
theorem adds_move (h : Of (.opened id source policy) r) (ht : r.pool.respond e = some t)
    (continues : Move.Continues ⟨r.pool, e, t⟩ m w s x) :
    let v : Move := ⟨r.pool, e, t⟩
    r.pool.books.Adds t.pool.books ((v.reclaimed ++ v.takenBack).map PastLease.time)
      (v.reclaimed.map PastLease.time) (w.took m x) (w.asleepSince?.toList.map m.now.since) := by
  intro v
  have taken := (h.takenOut_perm ht continues).1
  have adds : r.pool.books.Adds t.pool.books _ _ _ _ :=
    continues.sequel.adds h.sound.current_of_removeActive?
  have reclaimed : v.reclaimed.map PastLease.time ~
      (w.purpose.reclaimed (w.takes r.pool.books m.now)).map fun e => e.checkoutTime m.now := by
    rw [continues.reclaimed_eq, List.map_map]
    exact (Purpose.reclaimed_perm taken).map _
  have takenBack : v.takenBack.map PastLease.time ~
      (w.purpose.takenBack m (w.takes r.pool.books m.now)).map fun e => e.checkoutTime m.now := by
    rw [continues.takenBack_eq, List.map_map]
    exact (Purpose.takenBack_perm taken).map _
  -- The sums do not depend on the order in which the leases are listed.
  refine ⟨?_, ?_, adds.requestTime, adds.waitTime⟩
  · rw [adds.checkoutTime, List.map_append, List.map_append,
      Duration.total_perm (reclaimed.append takenBack)]
  · rw [adds.overdueTime, Duration.total_perm reclaimed]

/-- In a turn in which the holder of the lock does not go on, no lease is given or taken out, and
    the books remain as they are. -/
theorem idle_move (h : Of (.opened id source policy) r) (ht : r.pool.respond e = some t)
    (idle : ∀ m w s x, ¬ Move.Continues ⟨r.pool, e, t⟩ m w s x) :
    let v : Move := ⟨r.pool, e, t⟩
    t.pool.books = r.pool.books ∧ v.takenOut = [] ∧ v.reclaimed = [] ∧ v.takenBack = [] ∧
      v.issued? = none := by
  intro v
  have responds := Pool.responds_of_respond ht
  obtain ⟨m, w, s, x, continues⟩ | ⟨same, purpose, -⟩ := responds.continues_or_idle h.callsOnce
  · exact absurd continues (idle m w s x)
  refine ⟨same, ?_, by simp [v, Move.reclaimed, purpose], by simp [v, Move.takenBack, purpose], ?_⟩
  · rw [Move.takenOut, List.filter_eq_nil_iff]
    intro c hc
    rw [decide_eq_true_eq]
    exact fun out => out (same ▸ hc)
  · rw [Option.eq_none_iff_forall_ne_some]
    intro y issued
    obtain ⟨m, w, s, x, continues, -⟩ := responds.lends issued
    exact idle m w s x continues

/-- The times for which connections were checked out are those of the leases that have been taken
    away or taken back, and the overdue times are those of the first. -/
theorem checkoutTimes (h : Of (.opened id source policy) r) :
    r.pool.books.counters.checkoutTime =
        .total (r.reclaimed.map PastLease.time) + .total (r.takenBack.map PastLease.time) ∧
      r.pool.books.counters.overdueTime = .total (r.reclaimed.map PastLease.time) := by
  induction h with
  | start => exact ⟨rfl, rfl⟩
  | @move r e t h ht ih =>
    rw [reclaimed, takenBack] at ih ⊢
    rw [pool_move, moves_move, List.flatMap_cons, List.flatMap_cons, List.map_append,
      List.map_append, Duration.total_append, Duration.total_append]
    by_cases going : ∃ m w s x, Move.Continues ⟨r.pool, e, t⟩ m w s x
    · obtain ⟨m, w, s, x, continues⟩ := going
      have adds := h.adds_move ht continues
      rw [adds.checkoutTime, adds.overdueTime, ih.1, ih.2, List.map_append, Duration.total_append]
      exact ⟨Duration.add_add_add_swap .., Duration.add_comm ..⟩
    · push Not at going
      obtain ⟨same, -, reclaimed, takenBack, -⟩ := h.idle_move ht going
      rw [same, reclaimed, takenBack, List.map_nil, Duration.total, Duration.zero_add,
        Duration.zero_add]
      exact ih

/-- A lease is taken away when it has lasted for too long. -/
theorem late (h : Of (.opened id source policy) r) (ht : r.pool.respond e = some t) {l : PastLease}
    (hl : l ∈ Move.reclaimed ⟨r.pool, e, t⟩) : r.pool.books.policy.maxCheckout < l.time := by
  by_cases going : ∃ m w s x, Move.Continues ⟨r.pool, e, t⟩ m w s x
  · obtain ⟨m, w, s, x, continues⟩ := going
    rw [continues.reclaimed_eq] at hl
    obtain ⟨c, hc, rfl⟩ := List.mem_map.1 hl
    rw [Purpose.reclaimed] at hc
    split at hc
    · next acquires =>
      exact Work.late_of_takes acquires ((h.takenOut_perm ht continues).1.mem_iff.1 hc)
    · cases hc
  · push Not at going
    rw [(h.idle_move ht going).2.2.1] at hl
    cases hl

/-- What is handed out bears the moment of its turn. -/
theorem checkoutAt_of_issued (ht : r.pool.respond e = some t) {y : Handle}
    (issued : Move.issued? ⟨r.pool, e, t⟩ = some y) :
    ∃ m, Move.moment? ⟨r.pool, e, t⟩ = some m ∧ y.checkoutAt = m.now := by
  obtain ⟨m, w, s, x, continues, lends⟩ := (Pool.responds_of_respond ht).lends issued
  refine ⟨m, continues.moment?_eq, ?_⟩
  generalize t.pool.books = b at lends
  cases lends with
  | prepared same => exact congrArg Entry.checkoutAt same
  | commits acquires same commits => exact congrArg Entry.checkoutAt same

/-- What is taken out of the books has been handed out in an earlier turn. -/
theorem handed (h : Of (.opened id source policy) r) {c : Entry}
    (leased : c ∈ r.pool.books.active) :
    ∃ u ∈ r.moves, ∃ y m, u.issued? = some y ∧ y.toEntry = c ∧ u.moment? = some m ∧
      c.checkoutAt = m.now := by
  obtain ⟨u, hu, y, -, issued, same, -⟩ := h.signature_of_active leased
  obtain ⟨r₀, h₀, pool, ht⟩ := h.exists_before hu
  obtain ⟨p, e, t⟩ := u
  subst pool
  obtain ⟨m, moment, at_moment⟩ := checkoutAt_of_issued ht issued
  exact ⟨_, hu, y, m, issued, same, moment, same ▸ at_moment⟩

/-- Every lease that was ever given is in the books, or it has been taken out. -/
theorem leases (h : Of (.opened id source policy) r) :
    r.issued.map Handle.toEntry ~ r.pool.books.active ++ r.moves.flatMap Move.takenOut := by
  induction h with
  | start => exact .refl _
  | @move r e t h ht ih =>
    rw [issued_move, List.map_append, pool_move, moves_move, List.flatMap_cons]
    by_cases going : ∃ m w s x, Move.Continues ⟨r.pool, e, t⟩ m w s x
    · obtain ⟨m, w, s, x, continues⟩ := going
      have posts := (h.takenOut_perm ht continues).2
      rw [continues.leased_eq] at posts
      rw [← Option.toList_map]
      calc ((Move.issued? ⟨r.pool, e, t⟩).map Handle.toEntry).toList ++ r.issued.map Handle.toEntry
          ~ ((Move.issued? ⟨r.pool, e, t⟩).map Handle.toEntry).toList ++
              (r.pool.books.active ++ r.moves.flatMap Move.takenOut) := ih.append_left _
        _ ~ _ := by
          rw [← List.append_assoc, ← List.append_assoc]
          exact posts.append_right _
    · push Not at going
      obtain ⟨same, none_taken, -, -, silent⟩ := h.idle_move ht going
      rw [same, none_taken, silent]
      exact ih

/-- No lease is taken out twice. -/
theorem takenOut_nodup (h : Of (.opened id source policy) r) :
    (r.moves.flatMap Move.takenOut).Nodup := by
  have once : (r.issued.map Handle.toEntry).Nodup := by
    have issued := h.sound.issued_once
    rw [List.map_reverse, List.nodup_reverse] at issued
    refine List.Nodup.of_map (fun e => (e.id, e.generation)) ?_
    rwa [List.map_map]
  exact (List.nodup_append.1 (h.leases.nodup_iff.1 once)).2.1

end Of

end Run

end LeasePool
