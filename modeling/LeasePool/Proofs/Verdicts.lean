import LeasePool.Proofs.Times

/-!
# The verdicts on candidates

In each of its turns, an acquisition comes to a verdict (`Acquisition.Verdict`). It rejects its
candidate, and then it closes it, unless it is closed; or it has closed the one that it has rejected
before; or it rejects nothing, and comes nearer to a verdict. When a rejected candidate is closed,
the acquisition looks again, or it gives up.

A verdict is one on connections (`Acquisition.Judges`): what is not rejected remains in the books or
in hand, and nothing is rejected, kept in hand or handed out but a candidate of the acquisition.

* `Pool.candidates`: the candidates that an acquisition comes to in a turn;
* `Pool.Sequel.judges`: the verdict of an acquisition in its turn.
-/

namespace LeasePool

open scoped List

/-! ## Candidates -/

/-- How far an acquisition has got with its candidate, before it is rejected and closed. -/
@[simp] def Work.stage : Work → Nat
  | .connect _ _ | .reclaim _ _ _ => 1
  | .examine _ _ c =>
    match c.phase with
    | .probing => 2
    | .rollingBack => 3
    | .closing _ => 4
  | .prepare _ _ => 4
  | .discard _ _ => 5
  | _ => 0

namespace Books

variable {b b' : Books} {e : Entry}

theorem names_perm_of_takeIdle? (h : b.takeIdle? = some (e, b')) :
    b.names ~ e.name :: b'.names := by
  obtain ⟨rest, idle, rfl⟩ := takeIdle?_eq_some h
  simp only [names, entries, idle, List.map_append, List.map_cons]
  exact List.perm_middle

theorem names_of_claimOverdue?_eq {now : Instant} (h : b.claimOverdue? now = some (e, b')) :
    b.names = e.name :: b'.names := by
  obtain ⟨rest, counters, active, -, rfl⟩ := claimOverdue?_eq_some h
  simp [names, entries, active]

theorem names_perm_lease (b : Books) (e : Entry) (d : Duration) :
    (b.lease e d).names ~ e.name :: b.names := by
  simp only [names, entries, lease, List.map_append, List.map_cons, List.append_assoc,
    List.singleton_append]
  exact List.perm_middle

theorem policy_countWaitOf (b : Books) (a : Acquisition) : (b.countWaitOf a).policy = b.policy := by
  by_cases hw : a.hasWaited <;> simp only [countWaitOf, hw] <;> rfl

/-- The candidate that an acquisition finds when it looks at the books: the first idle connection,
    or the oldest lease if it takes that away. -/
def candidates (b : Books) (now : Instant) : List Entry := b.idle.head?.toList ++ b.overdue now

variable {now : Instant}

/-- There is one candidate in the books at most. -/
theorem length_candidates_le (b : Books) (now : Instant) : (b.candidates now).length ≤ 1 := by
  rw [candidates, List.length_append]
  cases idle : b.idle with
  | nil =>
    rw [List.head?_nil, Option.toList_none, List.length_nil, Nat.zero_add]
    exact Nat.le_trans (List.length_filter_le _ _) (by cases b.active <;> simp)
  | cons e rest =>
    rw [overdue_eq_nil fun _ _ late => by cases idle.symm.trans late.none_idle]
    exact Nat.le_refl 1

theorem mem_candidates_of_takeIdle? (h : b.takeIdle? = some (e, b')) : e ∈ b.candidates now := by
  obtain ⟨rest, idle, -⟩ := takeIdle?_eq_some h
  simp [candidates, idle]

theorem mem_candidates_of_claimOverdue? (none_idle : b.takeIdle? = none)
    (full : b.canOpen = false) (h : b.claimOverdue? now = some (e, b')) :
    e ∈ b.candidates now := by
  simp [candidates, overdue_eq (overdue_of_claimOverdue? none_idle full h)]

/-- An acquisition that opens a connection has found no candidate in the books. -/
theorem candidates_eq_nil (now : Instant) (none_idle : b.takeIdle? = none)
    (room : b.canOpen = true) : b.candidates now = [] := by
  rw [candidates, takeIdle?_eq_none.1 none_idle,
    overdue_eq_nil fun _ _ late => Nat.not_lt_of_le late.full (canOpen_iff.1 room)]
  rfl

end Books

/-- The candidates that the holder of the lock comes to in a turn, if it is an acquisition: what it
    finds when it looks at the books, or the connection that it has opened. -/
def Pool.candidates (p : Pool) (m : Moment) : Work → Signal → List (ConnectionId × Physical)
  | .begin (.acquire _), _ | .begin (.awaken _ _), _ =>
    (p.books.candidates m.now).map Entry.name
  | w, s => ((w.received? s).map fun c => (p.nextConnection, c)).toList

/-! ## Verdicts -/

namespace Acquisition

variable (m : Moment) (a : Acquisition) (k : Nat)

/-- An acquisition that has got as far as `k` rejects nothing: it gets further, it falls asleep, or
    it ends. -/
inductive Passes : Ending → Prop
  | work {w : Work} (acquires : w.acquisition? = some a) (further : k < w.stage)
      (before : w.stage < 5) : Passes (.work w)
  | asleep {since : Instant} {limit : Option Duration} : Passes (.asleep a.waited since limit)
  | finished {o : Outcome} : Passes (.finished o)

/-- The verdict of an acquisition that has got as far as `k`: the candidates that it rejects in a
    turn, with the books and the ending of the turn. -/
inductive Verdict (b : Books) : List (ConnectionId × Physical) → Ending → Prop
  | passes {x : Ending} (before : k < 5) (passes : a.Passes k x) : Verdict b [] x
  /-- The candidate that it has rejected is closed. -/
  | settles {x : Ending} (last : k = 5) (retries : a.Retries b x) : Verdict b [] x
  /-- It rejects a candidate that is closed. -/
  | gone {e : Entry} {x : Ending} (before : k < 5) (closed : m.isClosed e.physical = true)
      (retries : a.again.Retries b x) : Verdict b [e.name] x
  /-- It rejects a candidate, and closes it. -/
  | discards {e : Entry} (before : k < 5) (is_open : m.isClosed e.physical = false) :
      Verdict b [e.name] (.work (.discard a.again e))

/-- The verdict of an acquisition with the candidates `found`, which has the connections `l` in the
    books and in hand, under a policy. What it does not reject remains, and what it rejects, keeps
    in hand or hands out is one of its candidates. -/
def Judges (policy : Policy) (found l : List (ConnectionId × Physical)) (b : Books) (x : Ending) :
    Prop :=
  ∃ rejected, rejected ++ (b.names ++ x.hand.held.map Entry.name) ~ l ∧ b.policy = policy ∧
    a.Verdict m k b rejected x ∧ rejected ++ (x.hand.held ++ x.leased).map Entry.name ⊆ found

variable {m a k} {e : Entry} {b b' : Books} {g : Generations} {x : Ending} {policy : Policy}
  {found found' l l' : List (ConnectionId × Physical)}

theorem Judges.mono (h : a.Judges m k policy found l b x) (more : found ⊆ found') (perm : l ~ l') :
    a.Judges m k policy found' l' b x := by
  obtain ⟨rejected, remains, same, verdict, known⟩ := h
  exact ⟨rejected, remains.trans perm, same, verdict, List.Subset.trans known more⟩

/-- An acquisition that rejects nothing. -/
theorem Passes.judges (h : a.Passes k x) (before : k < 5)
    (known : (x.hand.held ++ x.leased).map Entry.name ⊆ found)
    (remains : b.names ++ x.hand.held.map Entry.name ~ l) : a.Judges m k b.policy found l b x :=
  ⟨[], remains, rfl, .passes before h, known⟩

/-- A candidate that is refused is rejected, whether it is closed already or to be closed next. -/
theorem Refuses.judges (h : a.Refuses m e b b' x) (before : k < 5) :
    a.Judges m k b.policy [e.name] (e.name :: b.names) b' x := by
  cases h with
  | gone closed retries =>
    refine ⟨[e.name], ?_, rfl, .gone before closed retries, ?_⟩
    · rw [retries.held_eq_nil, List.map_nil, List.append_nil]
      exact .refl _
    · rw [retries.held_eq_nil, retries.leased]
      exact List.Subset.refl _
  | discard is_open =>
    refine ⟨[e.name], ?_, rfl, .discards before is_open, List.Subset.refl _⟩
    exact List.Perm.of_eq (congrArg (e.name :: ·) (List.append_nil _))

/-- A candidate that is accepted passes. -/
theorem Accepts.judges (h : a.Accepts m e b b' x) (early : k < 4) :
    a.Judges m k b.policy [e.name] (e.name :: b.names) b' x := by
  have before : k < 5 := Nat.lt_succ_of_lt early
  cases h with
  | lease pool commits =>
    refine Passes.finished.judges (b := b.lease _ _) before (List.Subset.refl _) ?_
    exact (List.Perm.of_eq (List.append_nil _)).trans (b.names_perm_lease _ _)
  | prepare uncommitted =>
    exact (Passes.work rfl early (by simp)).judges before (List.Subset.refl _)
      (List.perm_append_singleton _ _)

/-- An examination passes its candidate or rejects it. -/
theorem Examines.judges (h : a.Examines m e b g b' x) (early : k < 2) :
    a.Judges m k b.policy [e.name] (e.name :: b.names) b' x := by
  have before : k < 5 := Nat.lt_of_lt_of_le early (by decide)
  cases h with
  | test query =>
    exact (Passes.work rfl early (by simp)).judges before (List.Subset.refl _)
      (List.perm_append_singleton _ _)
  | accept accepts => exact accepts.judges (Nat.lt_of_lt_of_le early (by decide))
  | refuse bad refuses => exact refuses.judges before

/-- A look at the books passes or rejects the candidate that it finds. -/
theorem Looks.judges (h : a.Looks m b g b' x) :
    a.Judges m 0 b.policy ((b.candidates m.now).map Entry.name) b.names b' x := by
  have before : 0 < 5 := by decide
  have all : b.names ++ [] ~ b.names := .of_eq (List.append_nil _)
  have only {e : Entry} (he : e ∈ b.candidates m.now) :
      [e.name] ⊆ (b.candidates m.now).map Entry.name :=
    List.cons_subset.2 ⟨List.mem_map_of_mem he, List.nil_subset _⟩
  cases h with
  | take found examines =>
    have perm := Books.names_perm_of_takeIdle? found
    have there := only (Books.mem_candidates_of_takeIdle? found)
    obtain ⟨rest, -, rfl⟩ := Books.takeIdle?_eq_some found
    exact (examines.judges (by decide)).mono there perm.symm
  | connect none_idle room =>
    exact (Passes.work rfl (by simp) (by simp)).judges before (List.nil_subset _) all
  | reclaim none_idle full overdue uncommitted =>
    have names := Books.names_of_claimOverdue?_eq overdue
    have there := only (Books.mem_candidates_of_claimOverdue? none_idle full overdue)
    obtain ⟨rest, counters, -, -, rfl⟩ := Books.claimOverdue?_eq_some overdue
    refine (Passes.work rfl (by simp) (by simp)).judges before there ?_
    rw [names]
    exact List.perm_append_singleton _ _
  | claim none_idle full overdue commits examines =>
    have names := Books.names_of_claimOverdue?_eq overdue
    have there := only (Books.mem_candidates_of_claimOverdue? none_idle full overdue)
    obtain ⟨rest, counters, -, -, rfl⟩ := Books.claimOverdue?_eq_some overdue
    rw [names]
    exact (examines.judges (by decide)).mono there (.refl _)
  | timeOut none_idle full none_overdue elapsed =>
    refine ⟨[], ?_, b.policy_countWaitOf a, .passes before .finished, List.nil_subset _⟩
    rw [b.names_countWaitOf]
    exact all
  | sleep none_idle full none_overdue time =>
    refine ⟨[], ?_, b.policy_countWaitOf a, .passes before .asleep, List.nil_subset _⟩
    rw [b.names_countWaitOf]
    exact all

namespace Verdict

/-- What an acquisition that goes on knows of its rejections. -/
theorem rejected_eq (h : a.Verdict m k b l x) {a' : Acquisition}
    (goesOn : x.acquisition? = some a') : a'.rejected = a.rejected + l.length := by
  have retried {a : Acquisition} (h : a.Retries b x) : a' = a := by
    cases h <;> cases goesOn
    rfl
  cases h with
  | passes before passes =>
    cases passes with
    | work acquires further before =>
      obtain rfl : a = a' := Option.some.inj (acquires.symm.trans goesOn)
      rfl
    | asleep =>
      cases goesOn
      rfl
    | finished => cases goesOn
  | settles last retries => rw [retried retries]; rfl
  | gone before closed retries => rw [retried retries]; rfl
  | discards before is_open =>
    cases goesOn
    rfl

/-- At most one candidate is rejected in a turn. -/
theorem eq_of_perm (h : a.Verdict m k b l x) (perm : l' ~ l) : l' = l := by
  cases h with
  | passes | settles => exact perm.eq_nil
  | gone | discards => exact List.perm_singleton.1 perm

end Verdict

end Acquisition

/-- Work on an acquisition is for it. -/
theorem Work.purpose_of_acquisition? {w : Work} {a : Acquisition} (h : w.acquisition? = some a) :
    w.purpose = .acquire := by
  cases w with
  | begin intent =>
    cases intent with
    | acquire | awaken => rfl
    | _ => cases h
  | undo | close | resetUndo | resetClose => cases h
  | _ => rfl

namespace Pool

variable {p : Pool} {m : Moment} {w : Work} {s : Signal} {b : Books} {x : Ending} {a : Acquisition}

/-- The verdict of an acquisition in its turn. -/
theorem Sequel.judges (h : p.Sequel m w s b x) (acquires : w.acquisition? = some a) :
    a.Judges m w.stage p.books.policy (p.candidates m w s ++ w.hand.held.map Entry.name)
      (((w.received? s).map fun c => (p.nextConnection, c)).toList ++
        (p.books.names ++ w.hand.held.map Entry.name)) b x := by
  -- What is in hand comes first in the lists of the lemmas above.
  have first {e : Entry} {l : List (ConnectionId × Physical)} :
      e.name :: l ~ [] ++ (l ++ [e.name]) := (List.perm_append_singleton _ _).symm
  have alone {l : List (ConnectionId × Physical)} : l ~ [] ++ (l ++ []) :=
    .of_eq (List.append_nil l).symm
  have none_more {l : List (ConnectionId × Physical)} : l ⊆ l ++ [] :=
    List.subset_append_left _ _
  have refl {l : List (ConnectionId × Physical)} : l ⊆ l := List.Subset.refl _
  cases h with
  | look looks =>
    cases acquires
    exact looks.judges.mono none_more alone
  | awaken looks =>
    cases acquires
    exact looks.judges.mono none_more alone
  | opened examines =>
    cases acquires
    refine (examines.judges (k := 1) (by decide)).mono refl (.of_eq ?_)
    exact congrArg (_ :: ·) (List.append_nil _).symm
  | openFailed =>
    cases acquires
    exact Acquisition.Passes.finished.judges (by simp) (List.nil_subset _) (.refl _)
  | reclaimed examines =>
    cases acquires
    exact (examines.judges (k := 1) (by decide)).mono refl first
  | @probed a e c phase uncommitted =>
    cases acquires
    refine (Acquisition.Passes.work rfl ?_ ?_).judges ?_ refl (.refl _) <;> simp [phase]
  | @failing a e c cause phase =>
    cases acquires
    refine (Acquisition.Passes.work rfl ?_ ?_).judges ?_ refl (.refl _) <;>
      cases h : c.phase <;> simp_all
  | @passed a e c b x phase accepts =>
    cases acquires
    refine (accepts.judges ?_).mono refl first
    cases h : c.phase <;> simp_all
  | @failed a e c cause result b x phase refuses =>
    cases acquires
    refine (refuses.judges ?_).mono refl first
    simp [phase]
  | @prepared a e pool =>
    cases acquires
    refine ⟨[], ?_, rfl, .passes (by simp) .finished, refl⟩
    exact (List.Perm.of_eq (List.append_nil _)).trans ((p.books.names_perm_lease _ _).trans first)
  | unprepared refuses =>
    cases acquires
    exact (refuses.judges (k := 4) (by decide)).mono refl first
  | discarded retries =>
    cases acquires
    refine ⟨[], ?_, rfl, .settles rfl retries, ?_⟩
    · rw [retries.held_eq_nil]
      exact .refl _
    · rw [retries.held_eq_nil, retries.leased]
      exact List.nil_subset _
  | _ => cases acquires

end Pool

end LeasePool
