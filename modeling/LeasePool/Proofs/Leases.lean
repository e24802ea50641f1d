import LeasePool.Proofs.Books
import LeasePool.Proofs.Sequels

/-!
# What a turn does to the leases

A call takes leases out of the books in the turn in which it begins what it intended: a release
takes out the lease of its handle, a reset takes out all leases, and an acquisition may take out
the oldest one, if nothing else can be done and the lease is overdue (`Books.Overdue`). In every
other turn of the holder of the lock, all leases remain. A turn that ends with a connection being
handed out adds its lease.

* `Pool.Sequel.draws`: every turn of the holder of the lock is one of these;
* `Books.Shifts`: how many checkouts and how many claims the books have counted then.
-/

namespace LeasePool

/-- The lease that is added at the end of a turn, if a connection is handed out. -/
def Ending.leased (x : Ending) : List Entry :=
  ((x.outcome?.bind Outcome.handle?).map Handle.toEntry).toList

namespace Books

/-- The oldest lease may be taken away: no connection is idle, none may be opened, and the lease
    has been held for too long. -/
structure Overdue (b : Books) (now : Instant) (e : Entry) (rest : List Entry) : Prop where
  none_idle : b.idle = []
  full : b.policy.maxActive.toNat ≤ b.active.length
  front : b.active = e :: rest
  late : b.policy.maxCheckout < e.checkoutTime now

/-- From `b` to `b'`, the leases `kept` remain, and that which is handed out at the end is added
    to them; so many leases have been claimed. -/
structure Shifts (b b' : Books) (kept : List Entry) (claims : Nat) (x : Ending) : Prop where
  active : b'.active = kept ++ x.leased
  requests : b'.counters.requests = b.counters.requests + x.leased.length
  overdue : b'.counters.overdue = b.counters.overdue + claims

variable {b b' : Books} {e : Entry} {now : Instant} {x : Ending}

/-- Nothing is handed out, and all leases remain. -/
theorem Shifts.of_same (active : b'.active = b.active)
    (requests : b'.counters.requests = b.counters.requests)
    (overdue : b'.counters.overdue = b.counters.overdue) (silent : x.leased = []) :
    b.Shifts b' b.active 0 x := by
  refine ⟨?_, ?_, overdue⟩
  · rw [silent, active, List.append_nil]
  · rw [silent, requests]
    rfl

/-- The oldest lease is claimed exactly if it is overdue. -/
theorem overdue_of_claimOverdue? (none_idle : b.takeIdle? = none) (full : b.canOpen = false)
    (h : b.claimOverdue? now = some (e, b')) : b.Overdue now e b'.active := by
  rw [claimOverdue?] at h
  split at h
  · cases h
  · next front =>
    dsimp only at h
    split at h <;> cases h
    next late =>
    exact ⟨takeIdle?_eq_none.1 none_idle, canOpen_eq_false.1 full, front,
      Duration.lt_iff.2 (Nat.lt_of_not_le late)⟩

theorem claimOverdue?_of_overdue {rest : List Entry} (h : b.Overdue now e rest) :
    b.claimOverdue? now ≠ none := by
  have late : ¬ e.checkoutTime now ≤ b.policy.maxCheckout := Nat.not_le_of_lt h.late
  simp [claimOverdue?, h.front, late]

end Books

namespace Acquisition

open Books

variable {m : Moment} {a : Acquisition} {e : Entry} {b b' : Books} {g : Generations} {x : Ending}

theorem Retries.leased (h : a.Retries b x) : x.leased = [] := by
  cases h <;> rfl

theorem Refuses.shifts (h : a.Refuses m e b b' x) : b.Shifts b' b.active 0 x := by
  cases h with
  | gone closed retries => exact .of_same rfl rfl rfl retries.leased
  | discard is_open => exact .of_same rfl rfl rfl rfl

theorem Accepts.shifts (h : a.Accepts m e b b' x) : b.Shifts b' b.active 0 x := by
  cases h with
  | lease pool commits => exact ⟨rfl, rfl, rfl⟩
  | prepare uncommitted => exact .of_same rfl rfl rfl rfl

theorem Examines.shifts (h : a.Examines m e b g b' x) : b.Shifts b' b.active 0 x := by
  cases h with
  | test query => exact .of_same rfl rfl rfl rfl
  | accept accepts => exact accepts.shifts
  | refuse bad refuses => exact refuses.shifts

/-- That an acquisition has had to wait is nothing to the leases. -/
theorem shifts_countWaitOf (a : Acquisition) (b : Books) (silent : x.leased = []) :
    b.Shifts (b.countWaitOf a) b.active 0 x := by
  by_cases hw : a.hasWaited <;> simp only [Books.countWaitOf, hw] <;>
    exact .of_same rfl rfl rfl silent

/-- An acquisition that looks at the books takes the oldest lease away if it is overdue, and no
    other. -/
theorem Looks.shifts (h : a.Looks m b g b' x) :
    (∃ e rest, b.Overdue m.now e rest ∧ b.Shifts b' rest 1 x) ∨
      (∀ e rest, ¬ b.Overdue m.now e rest) ∧ b.Shifts b' b.active 0 x := by
  -- What is handed out after the claim is added to the leases that the claim has left.
  have claimed {e : Entry} {b₁ : Books} (overdue : b.claimOverdue? m.now = some (e, b₁))
      (shifts : b₁.Shifts b' b₁.active 0 x) : b.Shifts b' b₁.active 1 x := by
    obtain ⟨requests, -⟩ := counters_of_claimOverdue? overdue
    obtain ⟨rest, counters, -, counted, rfl⟩ := claimOverdue?_eq_some overdue
    exact ⟨shifts.active, shifts.requests.trans (by rw [requests]), shifts.overdue.trans counted⟩
  cases h with
  | take found examines =>
    obtain ⟨rest, idle, rfl⟩ := takeIdle?_eq_some found
    have shifts := examines.shifts
    refine .inr ⟨fun e rest late => ?_, shifts.active, shifts.requests, shifts.overdue⟩
    cases idle.symm.trans late.none_idle
  | connect none_idle room =>
    refine .inr ⟨fun e rest late => ?_, .of_same rfl rfl rfl rfl⟩
    exact Nat.not_lt_of_le late.full (canOpen_iff.1 room)
  | reclaim none_idle full overdue uncommitted =>
    exact .inl ⟨_, _, overdue_of_claimOverdue? none_idle full overdue,
      claimed overdue (.of_same rfl rfl rfl rfl)⟩
  | claim none_idle full overdue commits examines =>
    exact .inl ⟨_, _, overdue_of_claimOverdue? none_idle full overdue,
      claimed overdue examines.shifts⟩
  | timeOut none_idle full none_overdue elapsed =>
    exact .inr ⟨fun e rest late => claimOverdue?_of_overdue late none_overdue,
      shifts_countWaitOf a b rfl⟩
  | sleep none_idle full none_overdue time =>
    exact .inr ⟨fun e rest late => claimOverdue?_of_overdue late none_overdue,
      shifts_countWaitOf a b rfl⟩

end Acquisition

namespace Entry

variable {m : Moment} {e : Entry} {b b' : Books} {x : Ending}

theorem Undone.leased {keep : Bool} {returnedAt : Instant} {result : Except PoolError Unit}
    (h : e.Undone b keep returnedAt result b' x) : x.leased = [] := by
  cases h <;> rfl

theorem Returned.leased (h : e.Returned m b b' x) : x.leased = [] := by
  cases h with
  | gone closed => rfl
  | undo is_open uncommitted => rfl
  | commit is_open commits undone => exact undone.leased

theorem Undone.shifts {keep : Bool} {returnedAt : Instant} {result : Except PoolError Unit}
    (h : e.Undone b keep returnedAt result b' x) : b.Shifts b' b.active 0 x := by
  cases h <;> exact .of_same rfl rfl rfl rfl

theorem Returned.shifts (h : e.Returned m b b' x) : b.Shifts b' b.active 0 x := by
  cases h with
  | gone closed => exact .of_same rfl rfl rfl rfl
  | undo is_open uncommitted => exact .of_same rfl rfl rfl rfl
  | commit is_open commits undone =>
    have shifts := undone.shifts
    exact ⟨shifts.active, shifts.requests, shifts.overdue⟩

end Entry

theorem Reset.Clears.leased {m : Moment} {rest : List Entry} {x : Ending}
    (h : Reset.Clears m rest x) : x.leased = [] := by
  cases h <;> rfl

namespace Pool

open Books

variable {p : Pool} {m : Moment} {w : Work} {s : Signal} {b : Books} {x : Ending}

/-- What a turn of the holder of the lock does to the leases. -/
inductive Draws (p : Pool) (m : Moment) : Work → Books → Ending → Prop
  /-- An acquisition takes the oldest lease away. -/
  | claims {intent : Intent} {b : Books} {x : Ending} {e : Entry} {rest : List Entry}
      (acquires : intent.purpose = .acquire) (late : p.books.Overdue m.now e rest)
      (shifts : p.books.Shifts b rest 1 x) : Draws p m (.begin intent) b x
  /-- A release finds the lease of its handle. -/
  | returns {h : Handle} {b b' : Books} {x : Ending} {e : Entry}
      (found : p.books.removeActive? h.id h.generation = some (e, b')) (silent : x.leased = [])
      (shifts : p.books.Shifts b b'.active 0 x) : Draws p m (.begin (.release h)) b x
  /-- A reset takes out all leases. -/
  | resets {r : Reset} {b b' : Books} {x : Ending} (accepted : r.apply p.books = .ok b')
      (idle : b.idle = []) (silent : x.leased = []) (shifts : p.books.Shifts b [] 0 x) :
      Draws p m (.begin (.reset r)) b x
  /-- All leases remain. -/
  | keeps {w : Work} {b : Books} {x : Ending}
      (spares : ∀ intent e rest, w = .begin intent → intent.purpose = .acquire →
        ¬ p.books.Overdue m.now e rest)
      (misses : ∀ h, w = .begin (.release h) → p.books.removeActive? h.id h.generation = none)
      (refuses : ∀ r, w = .begin (.reset r) → ∃ problem, r.apply p.books = .error problem)
      (shifts : p.books.Shifts b p.books.active 0 x) : Draws p m w b x

/-- Each turn of the holder of the lock does one of four things to the leases. -/
theorem Sequel.draws (h : p.Sequel m w s b x) : p.Draws m w b x := by
  -- Work that is going on takes out nothing more.
  have goesOn (busy : ∀ intent, w ≠ .begin intent) (shifts : p.books.Shifts b p.books.active 0 x) :
      p.Draws m w b x :=
    .keeps (fun intent _ _ same => absurd same (busy intent)) (fun _ same => absurd same (busy _))
      (fun _ same => absurd same (busy _)) shifts
  have inquires {q : Inquiry} (same : w = .begin (.inquire q))
      (shifts : p.books.Shifts b p.books.active 0 x) : p.Draws m w b x := by
    subst same
    exact .keeps (fun _ _ _ same acquires => by cases same; cases acquires)
      (fun _ same => by cases same) (fun _ same => by cases same) shifts
  have looked {intent : Intent} (same : w = .begin intent) (acquires : intent.purpose = .acquire)
      (taken : (∃ e rest, p.books.Overdue m.now e rest ∧ p.books.Shifts b rest 1 x) ∨
        (∀ e rest, ¬ p.books.Overdue m.now e rest) ∧ p.books.Shifts b p.books.active 0 x) :
      p.Draws m w b x := by
    subst same
    obtain ⟨e, rest, late, shifts⟩ | ⟨none_late, shifts⟩ := taken
    · exact .claims acquires late shifts
    · exact .keeps (fun _ e rest _ _ => none_late e rest)
        (fun _ same => by cases same; cases acquires)
        (fun _ same => by cases same; cases acquires) shifts
  -- What is done to the books after the lease of a handle has been found is nothing to the others.
  have returned {h : Handle} {e : Entry} {b₁ : Books} (same : w = .begin (.release h))
      (found : p.books.removeActive? h.id h.generation = some (e, b₁)) (silent : x.leased = [])
      (shifts : b₁.Shifts b b₁.active 0 x) : p.Draws m w b x := by
    subst same
    refine .returns found silent ?_
    obtain ⟨before, later, -, -, -, rfl⟩ := removeActive?_eq_some found
    exact ⟨shifts.active, shifts.requests, shifts.overdue⟩
  cases h with
  | look looks => exact looked rfl rfl looks.shifts
  | awaken looks =>
    refine looked rfl rfl (looks.shifts.imp ?_ ?_)
    · rintro ⟨e, rest, late, shifts⟩
      exact ⟨e, rest, ⟨late.none_idle, late.full, late.front, late.late⟩,
        ⟨shifts.active, shifts.requests, shifts.overdue⟩⟩
    · rintro ⟨none_late, shifts⟩
      exact ⟨fun e rest late => none_late e rest ⟨late.none_idle, late.full, late.front, late.late⟩,
        ⟨shifts.active, shifts.requests, shifts.overdue⟩⟩
  | missing none_found =>
    exact .keeps (fun _ _ _ same acquires => by cases same; cases acquires)
      (fun _ same => by cases same; exact none_found) (fun _ same => by cases same)
      (.of_same rfl rfl rfl rfl)
  | misplaced found old => exact returned rfl found rfl (.of_same rfl rfl rfl rfl)
  | takeBack found current h => exact returned rfl found h.leased h.shifts
  | refused refuses =>
    exact .keeps (fun _ _ _ same acquires => by cases same; cases acquires)
      (fun _ same => by cases same) (fun _ same => by cases same; exact ⟨_, refuses⟩)
      (.of_same rfl rfl rfl rfl)
  | @reset r b x accepted clears =>
    obtain ⟨-, -, counters⟩ := Reset.apply_eq_ok accepted
    refine .resets accepted rfl clears.leased ⟨?_, ?_, congrArg Counters.overdue counters⟩
    · rw [clears.leased]
      rfl
    · rw [clears.leased]
      exact congrArg Counters.requests counters
  | policy | source | snapshot | tolerate => exact inquires rfl (.of_same rfl rfl rfl rfl)
  | opened examines => exact goesOn (fun _ => Work.noConfusion) examines.shifts
  | reclaimed examines => exact goesOn (fun _ => Work.noConfusion) examines.shifts
  | passed phase accepts => exact goesOn (fun _ => Work.noConfusion) accepts.shifts
  | failed phase refuses => exact goesOn (fun _ => Work.noConfusion) refuses.shifts
  | prepared pool => exact goesOn (fun _ => Work.noConfusion) ⟨rfl, rfl, rfl⟩
  | unprepared refuses => exact goesOn (fun _ => Work.noConfusion) refuses.shifts
  | discarded retries =>
    exact goesOn (fun _ => Work.noConfusion) (.of_same rfl rfl rfl retries.leased)
  | undone h => exact goesOn (fun _ => Work.noConfusion) h.shifts
  | resetClosed clears =>
    exact goesOn (fun _ => Work.noConfusion) (.of_same rfl rfl rfl clears.leased)
  | _ => exact goesOn (fun _ => Work.noConfusion) (.of_same rfl rfl rfl rfl)

end Pool

end LeasePool
