import LeasePool.Proofs.Books
import LeasePool.Proofs.Respond

/-!
# The capacity of a pool

A pool never keeps more idle connections than its policy allows, nor does it ever have more
connections than may be checked out, whether they are leased, idle, or still with the
acquisition that holds the lock. It looks at the number of leased connections only when it opens
one: a connection that was idle is leased without a look at the limit.

What carries the bound is that idle connections count as well (`Custody.Within`): a connection is
opened only when none is idle, and one that is in hand holds the place in which it is going to be
put into the books. A reset, which may lower the limits, empties the books first.

* `Custody.Within.step`: every deed keeps within the limits;
* `Pool.idle_le_and_taken_le`: so does every run.
-/

namespace LeasePool

/-- How many places of the pool are taken by what is in hand. -/
def Hand.places : Hand → Nat
  | opening | reclaimed _ | candidate _ | refused _ | returned _ | undoing _ _ _ | closing _ => 1
  | empty | drained _ | clearing _ _ | owing => 0

/-- How many connections an acquisition at work is opening, or holds and has neither handed out
    nor closed. -/
def Work.pending : Work → Nat
  | .connect _ _ | .reclaim _ _ _ | .examine _ _ _ | .prepare _ _ | .discard _ _ => 1
  | _ => 0

/-- How many connections are with the acquisition that holds the lock. -/
def Pool.pending (p : Pool) : Nat :=
  match p.holder with
  | some (_, w) => w.pending
  | none => 0

theorem Work.pending_le_places (w : Work) : w.pending ≤ w.hand.places := by
  cases w <;> simp [pending, hand, Hand.places]

theorem Pool.pending_le_places (p : Pool) : p.pending ≤ p.hand.places := by
  rw [pending, hand]
  cases p.holder with
  | none => exact Nat.zero_le _
  | some q => exact q.2.pending_le_places

namespace Custody

/-- How many places of the pool are taken. -/
def taken (c : Custody) : Nat := c.books.idle.length + c.books.active.length + c.hand.places

/-- The connections keep within the limits of the policy, and one that is going to be kept has a
    place among the idle ones. -/
structure Within (c : Custody) : Prop where
  idle_le : c.books.idle.length ≤ c.books.policy.maxIdle.toNat
  taken_le : c.taken ≤ c.books.policy.maxActive.toNat
  room : ∀ e returnedAt, c.hand = .undoing e true returnedAt →
    c.books.idle.length < c.books.policy.maxIdle.toNat

variable {m : Moment} {c c' : Custody} {d : Deed} {ds : List Deed}

/-- Where the limits are the same, and no more places are taken than before, nothing is lost. -/
theorem Within.shrink (h : c.Within) (maxIdle : c'.books.policy.maxIdle = c.books.policy.maxIdle)
    (maxActive : c'.books.policy.maxActive = c.books.policy.maxActive)
    (idle : c'.books.idle.length ≤ c.books.idle.length) (taken : c'.taken ≤ c.taken)
    (hand : ∀ e returnedAt, c'.hand ≠ .undoing e true returnedAt) : c'.Within where
  idle_le := by rw [maxIdle]; exact Nat.le_trans idle h.idle_le
  taken_le := by rw [maxActive]; exact Nat.le_trans taken h.taken_le
  room e returnedAt hu := absurd hu (hand e returnedAt)

/-- Where only the hand changes, it has to take no more places than before. -/
theorem Within.rehand (h : c.Within) (maxIdle : c'.books.policy.maxIdle = c.books.policy.maxIdle)
    (maxActive : c'.books.policy.maxActive = c.books.policy.maxActive)
    (idle : c'.books.idle = c.books.idle) (active : c'.books.active = c.books.active)
    (places : c'.hand.places ≤ c.hand.places)
    (hand : ∀ e returnedAt, c'.hand ≠ .undoing e true returnedAt) : c'.Within := by
  refine h.shrink maxIdle maxActive (Nat.le_of_eq (congrArg List.length idle)) ?_ hand
  rw [taken, taken, idle, active]
  exact Nat.add_le_add_left places _

/-- Every deed keeps within the limits. -/
theorem Within.step (h : c.Within) (hd : Step m c d c') : c'.Within := by
  have taken_le := h.taken_le
  cases hd with
  | take free found =>
    obtain ⟨rest, hi, rfl⟩ := Books.takeIdle?_eq_some found
    refine h.shrink rfl rfl ?_ ?_ (by simp) <;>
      simp only [taken, free, hi, Hand.places, List.length_cons] <;> omega
  | ask free none_idle room =>
    -- The one deed that takes a place: none is idle, and one more lease is allowed.
    have hi := Books.takeIdle?_eq_none.1 none_idle
    refine ⟨h.idle_le, ?_, by simp⟩
    have room := Books.canOpen_iff.1 room
    simp only [taken, hi, Hand.places, List.length_nil]
    omega
  | receive asked => exact h.rehand rfl rfl rfl rfl (by simp [asked, Hand.places]) (by simp)
  | claim free none_idle full overdue =>
    obtain ⟨rest, counters, ha, -, rfl⟩ := Books.claimOverdue?_eq_some overdue
    refine h.shrink rfl rfl (Nat.le_refl _) ?_ (by simp)
    simp only [taken, free, ha, Hand.places, List.length_cons]
    omega
  | renew has => exact h.rehand rfl rfl rfl rfl (by simp [has, Hand.places]) (by simp)
  | lease has =>
    refine h.shrink rfl rfl (Nat.le_refl _) ?_ (by simp)
    simp only [taken, has, Books.idle_lease, Books.active_lease, Hand.places, List.length_append,
      List.length_singleton]
    omega
  | reject has => exact h.rehand rfl rfl rfl rfl (by simp [has, Hand.places]) (by simp)
  | letGo has => exact h.rehand rfl rfl rfl rfl (Nat.zero_le _) (by simp)
  | countWait free => exact h.rehand rfl rfl rfl rfl (Nat.le_refl _) (by simp [free])
  | addWaitTime free => exact h.rehand rfl rfl rfl rfl (Nat.le_refl _) (by simp [free])
  | refuse free => exact h.rehand rfl rfl rfl rfl (Nat.le_refl _) (by simp [free])
  | takeBack free found current =>
    obtain ⟨before, later, ha, -, -, rfl⟩ := Books.removeActive?_eq_some found
    refine h.shrink rfl rfl (Nat.le_refl _) ?_ (by simp)
    simp only [taken, free, ha, Hand.places, List.length_append, List.length_cons]
    omega
  | misplace free found old =>
    obtain ⟨before, later, ha, -, -, rfl⟩ := Books.removeActive?_eq_some found
    refine h.shrink rfl rfl (Nat.le_refl _) ?_ (by simp [free])
    simp only [taken, free, ha, Books.idle_countBad, Books.active_countBad, Hand.places,
      List.length_append, List.length_cons]
    omega
  | findClosed has closed => exact h.rehand rfl rfl rfl rfl (Nat.zero_le _) (by simp)
  | accept has is_open =>
    rw [taken, has] at taken_le
    refine ⟨h.idle_le, taken_le, ?_⟩
    -- It is to be kept only if there is a place for it among the idle ones.
    intro e returnedAt hu
    injection hu with _ keep _
    exact Books.hasIdleCapacity_iff.1 (Bool.and_eq_true_iff.1 keep).2
  | keep has =>
    -- The place among the idle ones was there when the connection was accepted.
    have room := h.room _ _ has
    simp only [taken, has, Hand.places] at taken_le
    refine ⟨?_, ?_, by simp⟩ <;>
      simp only [taken, Books.idle_keep, Books.active_keep, Books.policy_keep,
        List.length_append, List.length_singleton, Hand.places] <;>
      omega
  | giveUp has => exact h.rehand rfl rfl rfl rfl (by simp [has, Hand.places]) (by simp)
  | endClose has => exact h.rehand rfl rfl rfl rfl (Nat.zero_le _) (by simp)
  | drain free accepted =>
    -- Whatever the limits are now, the books are empty.
    exact ⟨Nat.zero_le _, Nat.zero_le _, by simp⟩
  | retire has => exact h.rehand rfl rfl rfl rfl (Nat.zero_le _) (by simp)
  | proceed has => exact h.rehand rfl rfl rfl rfl (Nat.zero_le _) (by simp)
  | endReset has => exact h.rehand rfl rfl rfl rfl (Nat.zero_le _) (by simp)
  | tolerate free => exact h.rehand rfl rfl rfl rfl (Nat.le_refl _) (by simp [free])
  | abandon has => exact h.rehand rfl rfl rfl rfl (Nat.zero_le _) (by simp)
  | lose has => exact h.rehand rfl rfl rfl rfl (Nat.zero_le _) (by simp)
  | rouse has => exact h.rehand rfl rfl rfl rfl (Nat.zero_le _) (by simp)

end Custody

namespace Pool

theorem within_opened (id : PoolId) (source : DataSource) (policy : Policy) :
    (opened id source policy).custody.Within where
  idle_le := Nat.zero_le _
  taken_le := Nat.zero_le _
  room _ _ h := by cases h

end Pool

/-- Every run keeps within the limits. -/
theorem Run.DoneBy.within {id : PoolId} {source : DataSource} {policy : Policy} {r : Run}
    {ds : List Deed} (h : DoneBy (.opened id source policy) r ds) : r.pool.custody.Within :=
  h.path.keeps (I := fun _ c => c.Within) (fun h hd => h.step hd)
    (Pool.within_opened id source policy)

/-- After every run, the pool keeps no more idle connections than its policy allows, and the idle
    ones, the leased ones and what the acquisition at work has in hand are together no more than
    may be checked out. -/
theorem Pool.idle_le_and_taken_le (id : PoolId) (source : DataSource) (policy : Policy)
    (events : List Event) :
    let p := ((opened id source policy).run events).pool
    p.books.idle.length ≤ p.books.policy.maxIdle.toNat ∧
      p.books.idle.length + p.books.active.length + p.pending ≤
        p.books.policy.maxActive.toNat := by
  intro p
  obtain ⟨ds, hr⟩ := Run.exists_doneBy (opened id source policy) events
  have h : p.custody.Within := hr.within
  exact ⟨h.idle_le, Nat.le_trans (Nat.add_le_add_left p.pending_le_places _) h.taken_le⟩

end LeasePool
