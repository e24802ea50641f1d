import LeasePool.Proofs.Interruptions
import LeasePool.Proofs.Timekeeping
import LeasePool.Proofs.Wakeups
import LeasePool.Proofs.Withdrawals

/-!
# Position is age

A pool compares its leases, and its idle connections, by their position in the books only. If the
clock does not go back, that is the order of their ages. A lease is added behind the others at the
moment of its checkout. A connection that is kept bears the moment at which it was given back,
which may lie before the turn that adds it; but from then on the call has had the lock, so nobody
else has added anything meanwhile (`Pool.Aged.returned`). What is taken out, from whatever place,
leaves the others in their order.

So the pool, which looks at the front only, finds what it would find if it looked everywhere.

* `Pool.Sequel.shelves`: what a turn of the holder of the lock does to the idle connections;
* `Run.Of.aged`: leases and idle connections are in the order of their ages;
* `Pool.orders_by_age`: what follows for claims, for candidates, and for those who fall asleep.
-/

namespace LeasePool

namespace Books

/-- The leases and the idle connections are in the order of their ages, the oldest in front. -/
structure InOrder (b : Books) : Prop where
  leased : b.active.Pairwise fun c d => c.checkoutAt ≤ d.checkoutAt
  unused : b.idle.Pairwise fun c d => c.lastUsedAt ≤ d.lastUsedAt

variable {b b' : Books} {e : Entry} {now : Instant}

/-- What was checked out earlier has been checked out for longer. -/
theorem checkoutTime_le {c d : Entry} (h : c.checkoutAt ≤ d.checkoutAt) (now : Instant) :
    d.checkoutTime now ≤ c.checkoutTime now := Nat.sub_le_sub_left h now.nanos

namespace InOrder

/-- The lease in front has been checked out for the longest time. -/
theorem front (h : b.InOrder) {rest : List Entry} (front : b.active = e :: rest) (now : Instant) :
    ∀ c ∈ b.active, c.checkoutTime now ≤ e.checkoutTime now := by
  have leased := h.leased
  rw [front, List.pairwise_cons] at leased
  rw [front, List.forall_mem_cons]
  exact ⟨Nat.le_refl _, fun c hc => checkoutTime_le (leased.1 c hc) now⟩

/-- A claim finds nothing only if no lease at all is overdue. -/
theorem claimOverdue?_eq_none_iff (h : b.InOrder) :
    b.claimOverdue? now = none ↔ ∀ c ∈ b.active, c.checkoutTime now ≤ b.policy.maxCheckout := by
  rw [claimOverdue?]
  split
  · next none_leased => simp [none_leased]
  · next e rest front =>
    dsimp only
    split
    · next early =>
      refine iff_of_true rfl fun c hc => ?_
      exact Nat.le_trans (h.front front now c hc) early
    · next late =>
      refine iff_of_false (Option.some_ne_none _) fun all => ?_
      exact late (all e (front ▸ List.mem_cons_self))

/-- What a claim finds has been checked out for the longest time. -/
theorem longest (h : b.InOrder) (found : b.claimOverdue? now = some (e, b')) :
    e ∈ b.active ∧ ∀ c ∈ b.active, c.checkoutTime now ≤ e.checkoutTime now := by
  obtain ⟨rest, counters, front, -, -⟩ := claimOverdue?_eq_some found
  exact ⟨front ▸ List.mem_cons_self, h.front front now⟩

/-- The idle connection in front has not been used for the longest time. -/
theorem unused_front (h : b.InOrder) {rest : List Entry} (front : b.idle = e :: rest) :
    ∀ c ∈ b.idle, e.lastUsedAt ≤ c.lastUsedAt := by
  have unused := h.unused
  rw [front, List.pairwise_cons] at unused
  rw [front, List.forall_mem_cons]
  exact ⟨Nat.le_refl _, unused.1⟩

end InOrder

end Books

/-! ## What a turn does to the idle connections -/

/-- When a connection was given back that a call puts back now, from some work. -/
def Work.returnedAt (now : Instant) : Work → Instant
  | .undo _ _ returnedAt => returnedAt
  | _ => now

namespace Acquisition

variable {m : Moment} {a : Acquisition} {e : Entry} {b b' : Books} {g : Generations} {x : Ending}

theorem Refuses.idle_eq (h : a.Refuses m e b b' x) : b'.idle = b.idle := by
  cases h <;> rfl

theorem Accepts.idle_eq (h : a.Accepts m e b b' x) : b'.idle = b.idle := by
  cases h <;> rfl

theorem Examines.idle_eq (h : a.Examines m e b g b' x) : b'.idle = b.idle := by
  cases h with
  | test query => rfl
  | accept accepts => exact accepts.idle_eq
  | refuse bad refuses => exact refuses.idle_eq

theorem idle_countWaitOf (b : Books) (a : Acquisition) : (b.countWaitOf a).idle = b.idle := by
  by_cases hw : a.hasWaited <;> simp only [Books.countWaitOf, hw] <;> rfl

/-- An acquisition that looks at the books takes the idle connection in front, if there is one. -/
theorem Looks.idle_eq (h : a.Looks m b g b' x) : b'.idle = b.idle.tail := by
  have none_left {b'' : Books} (none_idle : b.takeIdle? = none) (same : b''.idle = b.idle) :
      b''.idle = b.idle.tail := by
    rw [same, Books.takeIdle?_eq_none.1 none_idle]
    rfl
  cases h with
  | take found examines =>
    obtain ⟨rest, front, rfl⟩ := Books.takeIdle?_eq_some found
    rw [front]
    exact examines.idle_eq
  | connect none_idle room => exact none_left none_idle rfl
  | reclaim none_idle full overdue uncommitted =>
    obtain ⟨rest, counters, -, -, rfl⟩ := Books.claimOverdue?_eq_some overdue
    exact none_left none_idle rfl
  | claim none_idle full overdue commits examines =>
    obtain ⟨rest, counters, -, -, rfl⟩ := Books.claimOverdue?_eq_some overdue
    exact none_left none_idle examines.idle_eq
  | timeOut none_idle full none_overdue elapsed => exact none_left none_idle (idle_countWaitOf b a)
  | sleep none_idle full none_overdue time => exact none_left none_idle (idle_countWaitOf b a)

end Acquisition

namespace Pool

variable {p : Pool} {m : Moment} {w : Work} {s : Signal} {b : Books} {x : Ending}

/-- What a turn of the holder of the lock does to the idle connections. -/
inductive Shelves (p : Pool) (m : Moment) : Work → Books → Prop
  /-- An acquisition takes the one in front, if there is one. -/
  | takes {intent : Intent} {b : Books} (acquires : intent.purpose = .acquire)
      (rest : b.idle = p.books.idle.tail) : Shelves p m (.begin intent) b
  /-- A connection is kept that was given back, behind the others. -/
  | puts {w : Work} {b : Books} {e : Entry}
      (other : ∀ intent, w = .begin intent → intent.purpose ≠ .acquire)
      (back : b.idle = p.books.idle ++ [e]) (moment : e.lastUsedAt = w.returnedAt m.now) :
      Shelves p m w b
  /-- A reset takes out all. -/
  | empties {r : Reset} {b : Books} (none_left : b.idle = []) : Shelves p m (.begin (.reset r)) b
  /-- All remain. -/
  | keeps {w : Work} {b : Books}
      (other : ∀ intent, w = .begin intent → intent.purpose ≠ .acquire)
      (same : b.idle = p.books.idle) : Shelves p m w b

/-- Each turn of the holder of the lock does one of four things to the idle connections. -/
theorem Sequel.shelves (h : p.Sequel m w s b x) : p.Shelves m w b := by
  -- Only a look at the books takes one from the front, only a release puts one at the end, and only
  -- a reset empties the list.
  have goesOn (busy : ∀ intent, w ≠ .begin intent) (same : b.idle = p.books.idle) :
      p.Shelves m w b := .keeps (fun intent begins => absurd begins (busy intent)) same
  have undone {e : Entry} {b₀ : Books} {keep : Bool} {returnedAt : Instant}
      {result : Except PoolError Unit} (h : e.Undone b₀ keep returnedAt result b x)
      (other : ∀ intent, w = .begin intent → intent.purpose ≠ .acquire)
      (same : b₀.idle = p.books.idle) (moment : returnedAt = w.returnedAt m.now) :
      p.Shelves m w b := by
    cases h with
    | keep kept => exact .puts other (congrArg (· ++ [_]) same) moment
    | _ => exact .keeps other same
  cases h with
  | look looks => exact .takes rfl looks.idle_eq
  | awaken looks => exact .takes rfl looks.idle_eq
  | misplaced found old =>
    obtain ⟨before, later, -, -, -, rfl⟩ := Books.removeActive?_eq_some found
    exact .keeps (fun _ begins => by cases begins; nofun) rfl
  | takeBack found current returned =>
    obtain ⟨before, later, -, -, -, rfl⟩ := Books.removeActive?_eq_some found
    cases returned with
    | commit is_open commits h => exact undone h (fun _ begins => by cases begins; nofun) rfl rfl
    | _ => exact .keeps (fun _ begins => by cases begins; nofun) rfl
  | reset accepted clears => exact .empties rfl
  | missing | refused | policy | source | snapshot | tolerate =>
    exact .keeps (fun _ begins => by cases begins; nofun) rfl
  | opened examines => exact goesOn (fun _ => Work.noConfusion) examines.idle_eq
  | reclaimed examines => exact goesOn (fun _ => Work.noConfusion) examines.idle_eq
  | passed phase accepts => exact goesOn (fun _ => Work.noConfusion) accepts.idle_eq
  | failed phase refuses => exact goesOn (fun _ => Work.noConfusion) refuses.idle_eq
  | unprepared refuses => exact goesOn (fun _ => Work.noConfusion) refuses.idle_eq
  | undone h => exact undone h (fun _ => Work.noConfusion) rfl rfl
  | _ => exact goesOn (fun _ => Work.noConfusion) rfl

/-- A connection is given back in the turn after which it is rolled back. -/
theorem Sequel.returnedAt {e : Entry} {keep : Bool} {returnedAt : Instant}
    (h : p.Sequel m w s b (.work (.undo e keep returnedAt))) : returnedAt = m.now := by
  have other := h.remains.login rfl
  cases h with
  | takeBack found current returned =>
    cases returned with
    | undo is_open uncommitted => rfl
    | commit is_open commits undone => cases undone
  | @reset r b' _ accepted clears =>
    generalize b'.entries = rest at clears
    cases clears
  | undone undone => cases undone
  | resetClosed clears => cases clears
  | _ => cases other

/-- The leases that remain are in the order in which they were. -/
theorem Draws.sublist (h : p.Draws m w b x) :
    ∃ kept, kept.Sublist p.books.active ∧ b.active = kept ++ x.leased := by
  cases h with
  | claims acquires late shifts =>
    exact ⟨_, late.front ▸ List.sublist_cons_self _ _, shifts.active⟩
  | returns found silent shifts =>
    obtain ⟨before, later, active, -, -, rfl⟩ := Books.removeActive?_eq_some found
    refine ⟨_, ?_, shifts.active⟩
    rw [active]
    exact (List.sublist_cons_self _ _).append_left before
  | resets accepted idle silent shifts => exact ⟨[], List.nil_sublist _, shifts.active⟩
  | keeps spares misses refuses shifts => exact ⟨_, .refl _, shifts.active⟩

/-! ## The invariant -/

/-- The books are in order, with nothing later than now, and neither than the moment at which a
    connection was given back that is still being rolled back. -/
structure Aged (p : Pool) (now : Instant) : Prop where
  inOrder : p.books.InOrder
  leasedBy : ∀ e ∈ p.books.active, e.checkoutAt ≤ now
  unusedBy : ∀ e ∈ p.books.idle, e.lastUsedAt ≤ now
  returned : ∀ i e keep returnedAt, p.holder = some (i, .undo e keep returnedAt) →
    returnedAt ≤ now ∧ ∀ c ∈ p.books.idle, c.lastUsedAt ≤ returnedAt

namespace Aged

variable {now now' : Instant} {e : Event} {t : Turn}

theorem mono (h : p.Aged now) (le : now ≤ now') : p.Aged now' where
  inOrder := h.inOrder
  leasedBy := fun e he => Nat.le_trans (h.leasedBy e he) le
  unusedBy := fun e he => Nat.le_trans (h.unusedBy e he) le
  returned := fun i e keep returnedAt holds =>
    (h.returned i e keep returnedAt holds).imp_left (Nat.le_trans · le)

/-- What the holder of the lock puts back goes behind the others. -/
theorem returnedAt (h : p.Aged now) {i : CallId} (holds : p.holder = some (i, w)) :
    w.returnedAt now ≤ now ∧ ∀ c ∈ p.books.idle, c.lastUsedAt ≤ w.returnedAt now := by
  cases w with
  | undo e keep returnedAt => exact h.returned i e keep returnedAt holds
  | _ => exact ⟨Nat.le_refl _, h.unusedBy⟩

/-- The idle connections remain in order in a turn of the holder of the lock. -/
theorem shelves (h : p.Aged m.now) {i : CallId} (holds : p.holder = some (i, w))
    (shelves : p.Shelves m w b) :
    b.idle.Pairwise (fun c d => c.lastUsedAt ≤ d.lastUsedAt) ∧
      ∀ c ∈ b.idle, c.lastUsedAt ≤ m.now := by
  obtain ⟨early, behind⟩ := h.returnedAt holds
  cases shelves with
  | takes acquires rest =>
    rw [rest]
    exact ⟨h.inOrder.unused.sublist (List.tail_sublist _),
      fun c hc => h.unusedBy c (List.mem_of_mem_tail hc)⟩
  -- One that is put back was returned after all that have been idle.
  | @puts _ _ e other back moment =>
    rw [back]
    refine ⟨List.pairwise_append.2 ⟨h.inOrder.unused, List.pairwise_singleton _ _, ?_⟩, ?_⟩
    · intro c hc d hd
      rw [List.mem_singleton.1 hd, moment]
      exact behind c hc
    · intro c hc
      rcases List.mem_append.1 hc with hc | hc
      · exact h.unusedBy c hc
      · rw [List.mem_singleton.1 hc, moment]
        exact early
  | empties none_left =>
    rw [none_left]
    exact ⟨.nil, fun c hc => absurd hc List.not_mem_nil⟩
  | keeps other same =>
    rw [same]
    exact ⟨h.inOrder.unused, h.unusedBy⟩

/-- The leases remain in order in a turn of the holder of the lock. -/
theorem draws (h : p.Aged m.now) (draws : p.Draws m w b x)
    (leased : ∀ c ∈ x.leased, c.checkoutAt = m.now) :
    b.active.Pairwise (fun c d => c.checkoutAt ≤ d.checkoutAt) ∧
      ∀ c ∈ b.active, c.checkoutAt ≤ m.now := by
  obtain ⟨kept, sub, active⟩ := draws.sublist
  have earlier : ∀ c ∈ kept, c.checkoutAt ≤ m.now := fun c hc => h.leasedBy c (sub.subset hc)
  have now : ∀ c ∈ x.leased, c.checkoutAt ≤ m.now := fun c hc => Nat.le_of_eq (by rw [leased c hc])
  rw [active]
  refine ⟨List.pairwise_append.2 ⟨h.inOrder.leased.sublist sub, ?_, ?_⟩, ?_⟩
  · exact List.pairwise_of_forall_mem_list fun c hc d hd => by
      rw [leased c hc, leased d hd]
      exact Nat.le_refl _
  · intro c hc d hd
    rw [leased d hd]
    exact earlier c hc
  · exact fun c hc => (List.mem_append.1 hc).elim (earlier c) (now c)

end Aged

end Pool

namespace Run

variable {id : PoolId} {source : DataSource} {policy : Policy} {r : Run} {e : Event} {t : Turn}

/-- If the clock does not go back in a run, it has not gone back in the beginning of the run. -/
theorem steady_of_append {later : List Move} {r₀ : Run} (steady : r.Steady)
    (split : r.moves = later ++ r₀.moves) : r₀.Steady := by
  have sub : r₀.moves.Sublist r.moves := split ▸ List.sublist_append_right later _
  exact List.Pairwise.sublist (sub.filterMap _) steady

/-- If the clock does not go back in a run, it has not gone back before any of its moves. -/
theorem steady_of_split {later : List Move} {v : Move} {r₀ : Run} (steady : r.Steady)
    (split : r.moves = later ++ v :: r₀.moves) : r₀.Steady := by
  rw [← List.singleton_append, ← List.append_assoc] at split
  exact steady_of_append steady split

namespace Of

/-- If the clock does not go back, the books are in the order of ages. -/
theorem aged (h : Of (.opened id source policy) r) (steady : r.Steady) :
    r.pool.Aged (clock r.moves) := by
  induction h with
  | start =>
    exact ⟨⟨.nil, .nil⟩, fun e he => absurd he List.not_mem_nil,
      fun e he => absurd he List.not_mem_nil, fun i e keep returnedAt holds => by cases holds⟩
  | @move r e t h ht ih =>
    have before := ih (steady_of_move steady)
    have responds := Pool.responds_of_respond ht
    by_cases going : ∃ m w s x, Move.Continues ⟨r.pool, e, t⟩ m w s x
    · -- The clock stands at the moment of this turn, which is at or after all times in the books.
      -- What is new in the books, or on its way back, bears this moment.
      obtain ⟨m, w, s, x, goes⟩ := going
      have now : clock (r.move e t).moves = m.now := clock_cons_of_some goes.moment?_eq
      have before := before.mono (clock_le steady goes.moment?_eq)
      rw [now]
      obtain ⟨unused, unusedBy⟩ := before.shelves goes.holds goes.sequel.shelves
      obtain ⟨leased, leasedBy⟩ := before.draws goes.sequel.draws fun c hc => by
        rw [goes.leased_eq, Option.mem_toList, Option.map_eq_some_iff] at hc
        obtain ⟨y, issued, rfl⟩ := hc
        obtain ⟨m', moment, at_moment⟩ := checkoutAt_of_issued ht issued
        rwa [Option.some.inj (moment.symm.trans goes.moment?_eq)] at at_moment
      refine ⟨⟨leased, unused⟩, leasedBy, unusedBy, fun i c keep returnedAt holds => ?_⟩
      obtain ⟨m', w', s', goes', -⟩ | ⟨held, other, -⟩ :=
        responds.holder h.callsOnce holds fun _ => Work.noConfusion
      · have same : m' = m := Option.some.inj (goes'.moment?_eq.symm.trans goes.moment?_eq)
        rw [goes'.sequel.returnedAt, same]
        exact ⟨Nat.le_refl _, unusedBy⟩
      · exact absurd (Pool.holder_unique held goes.holds).1.symm other
    · push Not at going
      have before := before.mono (clock_le_clock steady)
      have books : t.pool.books = r.pool.books := (h.idle_move ht going).1
      obtain ⟨inOrder, leasedBy, unusedBy, returned⟩ := before
      rw [← books] at inOrder leasedBy unusedBy returned
      refine ⟨inOrder, leasedBy, unusedBy, fun i c keep returnedAt holds => ?_⟩
      obtain ⟨m', w', s', goes', -⟩ | ⟨held, -, -⟩ :=
        responds.holder h.callsOnce holds fun _ => Work.noConfusion
      · exact absurd goes' (going _ _ _ _)
      · exact returned i c keep returnedAt held

/-- The idle connection in front is the candidate of an acquisition that begins: the acquisition
    hands it out, has it in hand, or has rejected it. -/
theorem candidate (h : Of (.opened id source policy) r) (ht : r.pool.respond e = some t)
    {intent : Intent} {m : Moment} (begun : Move.begun? ⟨r.pool, e, t⟩ = some (intent, m))
    (acquires : intent.purpose = .acquire) {c : Entry} {rest : List Entry}
    (front : r.pool.books.idle = c :: rest) :
    let v : Move := ⟨r.pool, e, t⟩
    t.pool.books.idle = rest ∧
      t.pool.books.active = r.pool.books.active ++ (v.issued?.map Handle.toEntry).toList ∧
      (c.name ∈ v.rejected ∨ (∃ y, v.issued? = some y ∧ y.name = c.name) ∨
        ∃ d ∈ t.pool.hand.held, d.name = c.name) := by
  intro v
  obtain ⟨x, goes⟩ := (Pool.responds_of_respond ht).begins begun
  have idle : t.pool.books.idle = rest := by
    have shelves : r.pool.Shelves m (.begin intent) t.pool.books := goes.sequel.shelves
    cases shelves with
    | takes acquires tail => rw [tail, front, List.tail_cons]
    | puts other back moment => exact absurd acquires (other _ rfl)
    | empties none_left => cases acquires
    | keeps other same => exact absurd acquires (other _ rfl)
  have active : t.pool.books.active =
      r.pool.books.active ++ (v.issued?.map Handle.toEntry).toList := by
    have draws : r.pool.Draws m (.begin intent) t.pool.books x := goes.sequel.draws
    cases draws with
    | claims acquires late shifts => cases front.symm.trans late.none_idle
    | returns found silent shifts => cases acquires
    | resets accepted none_left silent shifts => cases acquires
    | keeps spares misses refuses shifts => rw [shifts.active, goes.leased_eq]
  refine ⟨idle, active, ?_⟩
  -- No other entry is one of this connection.
  have distinct : ∀ d ∈ r.pool.books.active ++ rest, d.name ≠ c.name := by
    have distinct := h.sound.distinct
    rw [Custody.present, List.map_append, List.nodup_append] at distinct
    have books : ((r.pool.books.active ++ r.pool.books.idle).map Entry.id).Nodup := distinct.1
    rw [front, (List.perm_middle.map _).nodup_iff, List.map_cons, List.nodup_cons] at books
    intro d hd same
    have number : d.id = c.id := congrArg Prod.fst same
    exact books.1 (number ▸ List.mem_map_of_mem hd)
  by_cases there : c.name ∈ t.pool.custody.names
  · obtain ⟨d, hd, same⟩ := Custody.mem_names.1 there
    have same : d.name = c.name := same
    rcases hd with leased | unused | held
    · rw [show t.pool.custody.books.active = _ from active, List.mem_append, Option.mem_toList,
        Option.map_eq_some_iff] at leased
      obtain leased | ⟨y, issued, rfl⟩ := leased
      · exact absurd same (distinct d (List.mem_append_left _ leased))
      · exact .inr (.inl ⟨y, issued, same⟩)
    · rw [show t.pool.custody.books.idle = rest from idle] at unused
      exact absurd same (distinct d (List.mem_append_right _ unused))
    · exact .inr (.inr ⟨d, held, same⟩)
  · refine .inl ?_
    have rejected : v.rejected = v.discarded := goes.rejected_eq acquires
    rw [rejected, Move.mem_discarded]
    refine ⟨.inr (Custody.mem_names.2 ⟨c, .inr (.inl ?_), rfl⟩), there⟩
    exact front ▸ List.mem_cons_self

end Of

/-- The books are in the order of ages, so a look at the front is a look at all. -/
structure OrdersByAge (r : Run) : Prop where
  inOrder : r.pool.books.InOrder
  /-- A claim finds a lease if and only if there is one that is overdue. -/
  claims : ∀ now, (r.pool.books.claimOverdue? now).isSome ↔
    ∃ e ∈ r.pool.books.active, r.pool.books.policy.maxCheckout < e.checkoutTime now
  /-- What it finds has been checked out for the longest time. -/
  longest : ∀ now e b, r.pool.books.claimOverdue? now = some (e, b) →
    e ∈ r.pool.books.active ∧ ∀ c ∈ r.pool.books.active, c.checkoutTime now ≤ e.checkoutTime now
  /-- An acquisition that begins while connections are idle takes the one that has not been used for
      the longest time: it hands it out, has it in hand, or has rejected it. It takes no other. -/
  reuses : ∀ v ∈ r.moves, ∀ intent m, v.begun? = some (intent, m) → intent.purpose = .acquire →
    ∀ e rest, v.before.books.idle = e :: rest →
      (∀ c ∈ rest, e.lastUsedAt ≤ c.lastUsedAt) ∧ v.after.books.idle = rest ∧
      v.after.books.active =
        v.before.books.active ++ (v.issued?.map Handle.toEntry).toList ∧
      (e.name ∈ v.rejected ∨ (∃ y, v.issued? = some y ∧ y.name = e.name) ∨
        ∃ c ∈ v.after.hand.held, c.name = e.name)
  /-- An acquisition that takes a lease away takes the one that has been checked out for the longest
      time. -/
  takesAway : ∀ v ∈ r.moves, ∀ e, v.Reclaims e → e ∈ v.before.books.active ∧
    ∃ m, v.moment? = some m ∧
      ∀ c ∈ v.before.books.active, c.checkoutTime m.now ≤ e.checkoutTime m.now
  /-- Whoever falls asleep does so when nothing is idle, no more connections may be checked out, and
      no lease at all is overdue. -/
  sleeps : ∀ v ∈ r.moves, ∀ s ∈ v.after.sleepers, s ∉ v.before.sleepers →
    v.FallsAsleep s ∧ v.before.books.idle = [] ∧
      v.before.books.policy.maxActive.toNat ≤ v.before.books.active.length ∧
      ∀ e ∈ v.before.books.active,
        e.checkoutTime s.asleepSince ≤ v.before.books.policy.maxCheckout

end Run

/-- If the clock does not go back, position is age, whatever is cancelled: leases and idle
    connections are in the order of their times, and what a pool does that looks at the front only
    is what it would do if it looked at all. -/
theorem Pool.orders_by_age (id : PoolId) (source : DataSource) (policy : Policy)
    (events : List Event) (steady : ((opened id source policy).run events).Steady) :
    ((opened id source policy).run events).OrdersByAge := by
  have h := (opened id source policy).of_run events
  generalize (opened id source policy).run events = r at h steady
  -- Before any turn, the books have been in order.
  have inOrder {v : Move} (hv : v ∈ r.moves) : v.before.books.InOrder := by
    obtain ⟨later, before, split⟩ := List.append_of_mem hv
    obtain ⟨r₀, h₀, rfl, pool, -⟩ := h.cut split
    exact pool ▸ (h₀.aged (Run.steady_of_split steady split)).inOrder
  have now := (h.aged steady).inOrder
  refine ⟨now, fun moment => ?_, fun moment e b found => now.longest found, ?_, ?_, ?_⟩
  · rw [Option.isSome_iff_ne_none, Ne, now.claimOverdue?_eq_none_iff]
    push Not
    simp only [Duration.le_iff, Duration.lt_iff, Nat.not_le]
  · intro v hv intent m begun acquires e rest front
    have unused := (inOrder hv).unused_front front
    rw [front, List.forall_mem_cons] at unused
    obtain ⟨p, e', t⟩ := v
    obtain ⟨r₀, h₀, rfl, ht⟩ := h.exists_before hv
    exact ⟨unused.2, h₀.candidate ht begun acquires front⟩
  · rintro v hv e ⟨intent, m, rest, begun, acquires, late, -⟩
    obtain ⟨event, -⟩ := Move.begun?_eq_some.1 begun
    refine ⟨late.front ▸ List.mem_cons_self, m, ?_, (inOrder hv).front late.front m.now⟩
    simp only [Move.moment?, event]
  · intro v hv s asleep awake
    have in_order := inOrder hv
    obtain ⟨p, e, t⟩ := v
    obtain ⟨r₀, h₀, rfl, ht⟩ := h.exists_before hv
    have falls := ((responds_of_respond ht).fallsAsleep h₀.callsOnce asleep).resolve_left awake
    obtain ⟨none_idle, full, none_overdue⟩ := falls.exhausted
    exact ⟨falls, none_idle, full, in_order.claimOverdue?_eq_none_iff.1 none_overdue⟩

/-! ## Leases of different ages -/

/-- The first connection is given back after two milliseconds and handed out again after six, the
    second one after nine. Then a caller falls asleep, as neither lease is overdue. -/
def Event.aging : List Event :=
  firstLease ++
    [.start (.release .first) (.plain 2 false), .resume 1 .proceed (.plain 2 false),
      .resume 1 (.answered (.ok ())) (.plain 4 false),
      .start (.acquire .dataSource none) (.plain 5 false), .resume 2 .proceed (.plain 5 false),
      .resume 2 (.answered (.ok ())) (.plain 6 false),
      .start (.acquire .dataSource none) (.plain 7 false), .resume 3 .proceed (.plain 7 false),
      .resume 3 (.connected (.ok ⟨1⟩)) (.plain 8 false),
      .resume 3 (.answered (.ok ())) (.plain 9 false),
      .start (.acquire .dataSource none) (.plain 10 false), .resume 4 .proceed (.plain 10 false)]

/-- The leases are in the order of their ages, and a claim finds the older one as soon as it is
    overdue. -/
theorem Pool.orders_by_age_aging :
    let r := (opened 0 {} { Policy.single with maxActive := 2, maxIdle := 1 }).run Event.aging
    r.Steady ∧ r.OrdersByAge ∧
      r.pool.books.active.map (fun e => (e.id, e.checkoutAt.millis)) = [(1, 6), (2, 9)] ∧
      r.pool.sleepers.map Sleeper.id = [4] ∧
      (r.pool.books.claimOverdue? ⟨16000000⟩).isNone ∧
      ((r.pool.books.claimOverdue? ⟨20000000⟩).map fun found => found.1.id) = some 1 := by
  have steady : ((opened 0 {} { Policy.single with maxActive := 2, maxIdle := 1 }).run
      Event.aging).Steady := by
    unfold Run.Steady
    decide +kernel
  refine ⟨steady, orders_by_age 0 {} _ Event.aging steady, ?_⟩
  decide +kernel

end LeasePool
