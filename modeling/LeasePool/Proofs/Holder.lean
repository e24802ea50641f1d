import LeasePool.Proofs.Places
import LeasePool.Proofs.Progress

/-!
# The holder of the lock

Seen from the lock, there are three kinds of turns: the call that holds it goes on with its work,
it is dropped, or the turn is that of another call, which does nothing to the holder and to the
connections (`Pool.Affects`).

A call does what it intended in the turn in which it *begins*, as soon as it has the lock
(`Move.begun?`). Whatever it takes out of the books, it takes out in that turn.

* `Pool.Responds.affects`: every turn is of one of these kinds;
* `Run.Of.own`: a release that gets the lock is one of a handle of this pool.
-/

namespace LeasePool

namespace Pool

variable {p : Pool} {e : Event} {t : Turn} {i : CallId} {w : Work}

/-- What a turn does to the call that holds the lock. -/
inductive Affects (p : Pool) (e : Event) (t : Turn) : Prop
  /-- It goes on. -/
  | goesOn {m : Moment} {w : Work} {s : Signal} {x : Ending}
      (continues : Move.Continues ⟨p, e, t⟩ m w s x) : Affects p e t
  /-- It is dropped. -/
  | dropped {i : CallId} {w : Work} (event : e = .drop i) (holds : p.holder = some (i, w))
      (turn : t = p.turn.dropWork w) : Affects p e t
  /-- Nothing, as the turn is that of another call. -/
  | aside (other : ∀ w, p.holder ≠ some (Move.caller ⟨p, e, t⟩, w))
      (custody : t.pool.custody = p.custody)
      (holder : ∀ i w, p.holder = some (i, w) → t.pool.holder = some (i, w))
      (sleepers : t.pool.sleepers ⊆ p.sleepers) : Affects p e t

/-- Seen from the lock, every turn is of one of the three kinds. -/
theorem Responds.affects (h : p.Responds e t) (once : p.CallsOnce) : p.Affects e t := by
  have new (w : Work) : p.holder ≠ some (p.nextCall, w) := fun holds =>
    Nat.lt_irrefl _ (once.numbered _ (mem_calls_of_holder holds))
  -- Whoever asks for the lock gets it only when it is free, so the holder stays.
  have asks {u : Turn} {id : CallId} {intent : Intent} (turn : t = u.lock id intent)
      (other : ∀ w, p.holder ≠ some (Move.caller ⟨p, e, t⟩, w))
      (custody : u.pool.custody = p.custody) (holder : u.pool.holder = p.holder)
      (sleepers : u.pool.sleepers ⊆ p.sleepers) : p.Affects e t := by
    subst turn
    refine .aside other ((custody_lock u id intent).trans custody) (fun i w holds => ?_) ?_
    · have held : u.pool.holder = some (i, w) := holder.trans holds
      rw [holder_lock u id intent (by rw [held]; exact Option.some_ne_none _), held]
    · rwa [sleepers_lock]
  cases h with
  | enter ns intent => exact asks rfl new rfl rfl (List.Subset.refl _)
  | decline ns e => exact .aside new rfl (fun _ _ holds => holds) (List.Subset.refl _)
  | send request => exact .aside new rfl (fun _ _ holds => holds) (List.Subset.refl _)
  | goOn holds h =>
    obtain ⟨x, continues⟩ := Move.exists_continues holds h
    exact .goesOn continues
  | relock elsewhere found => exact asks rfl elsewhere rfl rfl (List.Subset.refl _)
  | getUp elsewhere found due => exact asks rfl elsewhere rfl rfl (List.filter_subset_self _)
  | errand elsewhere found h =>
    obtain ⟨holder, sleepers⟩ : t.pool.holder = p.holder ∧ t.pool.sleepers = p.sleepers := by
      unfold Turn.advanceErrand at h
      split at h <;> cases h <;> exact ⟨rfl, rfl⟩
    exact .aside elsewhere (custody_advanceErrand h).1 (fun _ _ holds => holder.trans holds)
      fun _ hs => sleepers ▸ hs
  | cut holds => exact .dropped rfl holds rfl
  | @withdraw id intent elsewhere found =>
    obtain ⟨holder, sleepers⟩ : (p.turn.dropQueued id intent).pool.holder = p.holder ∧
        (p.turn.dropQueued id intent).pool.sleepers = p.sleepers := by
      cases intent <;> exact ⟨rfl, rfl⟩
    exact .aside elsewhere (custody_dropQueued _ _) (fun _ _ holds => holder.trans holds)
      fun _ hs => sleepers ▸ hs
  | desert elsewhere found =>
    exact .aside elsewhere rfl (fun _ _ holds => holds) (List.filter_subset_self _)
  | forget elsewhere found =>
    exact .aside elsewhere rfl (fun _ _ holds => holds) (List.Subset.refl _)

/-- A call that is not the holder of the lock hands out nothing and receives nothing. -/
theorem Responds.silent (h : p.Responds e t)
    (other : ∀ w, p.holder ≠ some (Move.caller ⟨p, e, t⟩, w)) :
    Move.issued? ⟨p, e, t⟩ = none ∧ Move.opened? ⟨p, e, t⟩ = none := by
  constructor
  · rw [Option.eq_none_iff_forall_ne_some]
    intro y issued
    obtain ⟨m, w, s, x, continues, -⟩ := h.lends issued
    exact other w continues.holds
  · rw [Option.eq_none_iff_forall_ne_some]
    intro o opened
    obtain ⟨s, m, a, lookedAt, -, holds⟩ := Move.exists_of_opened? opened
    exact other _ holds

end Pool

/-! ## Calls that begin -/

namespace Move

/-- What a call has intended that begins in a turn, as soon as it has the lock, and when it
    begins. -/
def begun? (v : Move) : Option (Intent × Moment) :=
  match v.event, v.before.holder with
  | .resume i .proceed m, some (holder, .begin intent) =>
    if holder = i then some (intent, m) else none
  | _, _ => none

variable {v : Move} {m : Moment} {intent : Intent} {s : Signal} {x : Ending}

/-- Work begins in the turn in which the holder of the lock goes on with its intent. -/
theorem begun?_eq_some : v.begun? = some (intent, m) ↔
    v.event = .resume v.caller .proceed m ∧ v.before.holder = some (v.caller, .begin intent) := by
  obtain ⟨p, e, t⟩ := v
  unfold begun?
  split
  · next i m' holder intent' event holds =>
    dsimp only at event holds
    subst event
    simp only [holds, caller, Option.ite_none_right_eq_some, Option.some.injEq, Prod.mk.injEq,
      Event.resume.injEq, true_and, Work.begin.injEq]
    tauto
  · next others =>
    exact iff_of_false (fun h => by cases h) fun h => others _ _ _ _ h.1 h.2

theorem Continues.begun?_eq (h : v.Continues m (.begin intent) s x) :
    v.begun? = some (intent, m) := by
  refine begun?_eq_some.2 ⟨?_, h.holds⟩
  have sequel := h.sequel
  generalize v.after.books = b at sequel
  rw [h.event]
  cases sequel <;> rfl

end Move

namespace Pool.Responds

variable {p : Pool} {e : Event} {t : Turn} {m : Moment} {w : Work} {s : Signal}

/-- The holder of the lock that learns something in its turn goes on with its work. -/
theorem continues_of_event (h : p.Responds e t) (event : e = .resume (Move.caller ⟨p, e, t⟩) s m)
    (holds : p.holder = some (Move.caller ⟨p, e, t⟩, w)) :
    ∃ x, Move.Continues ⟨p, e, t⟩ m w s x := by
  generalize Move.caller ⟨p, e, t⟩ = i at event holds
  subst event
  exact h.continues holds

/-- The call that begins in a turn has one of the sequels of what it intended. -/
theorem begins (h : p.Responds e t) {intent : Intent}
    (begun : Move.begun? ⟨p, e, t⟩ = some (intent, m)) :
    ∃ x, Move.Continues ⟨p, e, t⟩ m (.begin intent) .proceed x := by
  obtain ⟨event, holds⟩ := Move.begun?_eq_some.1 begun
  exact h.continues_of_event event holds

end Pool.Responds

/-! ## Handles of the pool -/

/-- A call that is over with some work begins anew only to look at the books again. -/
theorem Pool.Sequel.acquires_of_begin {p : Pool} {m : Moment} {w : Work} {s : Signal} {b : Books}
    {intent : Intent} (h : p.Sequel m w s b (.work (.begin intent))) : intent.login? ≠ none := by
  intro none_login
  have same := (h.remains.login rfl).symm.trans none_login
  cases h with
  | takeBack found current returned =>
    cases returned with
    | commit is_open commits undone => cases undone
  | @reset r b' _ accepted clears =>
    generalize b'.entries = rest at clears
    cases clears
  | undone undone => cases undone
  | resetClosed clears => cases clears
  | _ => cases same

theorem Custody.Step.pool_eq {m : Moment} {c c' : Custody} {d : Deed} (hd : Step m c d c') :
    c'.pool = c.pool := by
  cases hd <;> rfl

namespace Run

variable {id : PoolId} {source : DataSource} {policy : Policy} {r : Run}

namespace Of

/-- A pool keeps its number, and all of its handles bear it. -/
theorem pool_eq (h : Of (.opened id source policy) r) :
    r.pool.id = id ∧ ∀ y ∈ r.issued, y.pool = id := by
  obtain ⟨ds, hr⟩ := h.exists_doneBy
  have all := hr.path.keeps
    (I := fun ds c => c.pool = id ∧ ∀ y ∈ ds.filterMap Deed.issued?, y.pool = id)
    (fun {m ds c d c'} hs hd => ?_) ⟨rfl, fun _ hy => absurd hy List.not_mem_nil⟩
  · rw [hr.issued] at all
    exact ⟨all.1, fun y hy => all.2 y (List.mem_reverse.2 hy)⟩
  · refine ⟨hd.pool_eq.trans hs.1, fun y hy => ?_⟩
    rw [List.filterMap_append, Deed.filterMap_singleton, List.mem_append, Option.mem_toList] at hy
    rcases hy with hy | hy
    · exact hs.2 y hy
    · cases hd with
      | lease has =>
        cases hy
        exact hs.1
      | _ => cases hy

/-- A release that asks for the lock is one of a handle of this pool. -/
theorem own (h : Of (.opened id source policy) r) {i : CallId} {y : Handle}
    (doing : r.pool.Doing i (.begin (.release y))) : y.pool = id := by
  induction h generalizing i with
  | start =>
    cases doing with
    | holds holds => cases holds
    | queued queued => cases queued
  | @move r e t h ht ih =>
    have comes := Pool.comes_of_respond ht h.callsOnce doing
    generalize hw : Work.begin (.release y) = w at comes
    cases comes with
    | stays before others => exact ih (hw ▸ before)
    | goesOn goes caller =>
      subst hw
      exact absurd rfl goes.sequel.acquires_of_begin
    | starts event new intends own =>
      injection hw with hw
      exact (own y hw.symm).trans h.pool_eq.1
    | wakes asleep caller => cases hw

end Of

end Run

end LeasePool
