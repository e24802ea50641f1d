import LeasePool.Proofs.Discards
import LeasePool.Proofs.Interruptions

/-!
# Candidates that are not handed out

An acquisition that does not hand out its candidate has it closed: it closes it itself when it has
rejected it, and an errand closes it when the call is dropped before that (`Pool.Closes`). So the
candidate is closed to the end, whatever else happens, unless it was closed when it was rejected.

There is one gap. While an acquisition closes a candidate that it has rejected, nothing guards the
candidate any more. If the call is dropped then, it *deserts* the candidate: nobody goes on with
closing it, and the connection is never asked to close again (`Move.Deserts`).

* `Run.Of.closes`: what an acquisition gives up is closed, or still to be, or it is deserted;
* `Pool.closes_candidates_iff`: a candidate has been closed to the end in a run unless it was
  deserted before.
-/

namespace LeasePool

namespace Move

/-- The request whose answer a call learns in its turn, whatever the answer. -/
def answered? (v : Move) : Option Request :=
  match v.event with
  | .resume id (.answered _) _ => v.before.asking? id
  | _ => none

/-- A turn of an acquisition that holds the lock, or in which it is dropped. -/
def Acquires (v : Move) : Prop := ∃ w, v.before.holder = some (v.caller, w) ∧ w.purpose = .acquire

/-- An acquisition is dropped while it closes a candidate that it has rejected. -/
def Deserts (v : Move) (c : Physical) : Prop :=
  v.event = .drop v.caller ∧
    ∃ a e, v.before.holder = some (v.caller, .discard a e) ∧ e.physical = c

/-- A call that learns of an answer has made the request of its work. -/
theorem Continues.answered?_eq {v : Move} {m : Moment} {w : Work} {result : Except PoolError Unit}
    {x : Ending} (h : v.Continues m w (.answered result) x) :
    v.answered? = w.request? v.before.books.source := by
  simp only [answered?, h.event, Pool.asking?_of_holder h.holds]

end Move

namespace Pool

/-- A connection is being closed, or is to be: by the acquisition that has rejected it, or by an
    errand. -/
inductive Closes (p : Pool) (i : CallId) (c : Physical) : Prop
  | rejected {a : Acquisition} {e : Entry} (holds : p.holder = some (i, .discard a e))
      (same : e.physical = c) : Closes p i c
  | errand {j : CallId} {begun : Bool} (runs : (j, .discard c begun) ∈ p.errands) : Closes p i c

variable {p : Pool} {e : Event} {t : Turn} {m : Moment} {w : Work} {s : Signal} {x : Ending}
  {i : CallId} {c : Physical}

/-- An errand that closes a connection runs until the connection has answered. -/
theorem Responds.errand_runs (h : p.Responds e t) (once : p.CallsOnce) {begun : Bool}
    (runs : (i, .discard c begun) ∈ p.errands) :
    (∃ begun, (i, .discard c begun) ∈ t.pool.errands) ∨
      Move.answered? ⟨p, e, t⟩ = some (.close c) := by
  obtain stays | ⟨s, m, rfl, goes⟩ := h.errand_stays once runs
  · exact .inl ⟨begun, stays⟩
  · have found := once.lookup_errands runs
    cases begun with
    | false =>
      -- It begins to close the connection.
      cases s with
      | proceed =>
        cases goes
        exact .inl ⟨true, List.mem_append_right _ (List.mem_singleton_self _)⟩
      | _ => cases goes
    | true =>
      cases s with
      | answered result => exact .inr (asking?_of_errand once found)
      | _ => cases goes

/-- A connection that is being closed remains so until it has answered, unless it is deserted. -/
theorem Closes.respond (h : p.Closes i c) (ht : p.respond e = some t) (once : p.CallsOnce) :
    t.pool.Closes i c ∨ Move.answered? ⟨p, e, t⟩ = some (.close c) ∨
      Move.caller ⟨p, e, t⟩ = i ∧ Move.Deserts ⟨p, e, t⟩ c := by
  have responds := responds_of_respond ht
  cases h with
  | @rejected a e₀ holds same =>
    cases responds.affects once with
    | @goesOn m w s x continues =>
      obtain ⟨-, rfl⟩ := holder_unique continues.holds holds
      have sequel : p.Sequel m (.discard a e₀) s t.pool.books x := continues.sequel
      generalize t.pool.books = b at sequel
      cases sequel
      refine .inr (.inl (continues.answered?_eq.trans ?_))
      rw [← same]
      rfl
    | dropped event holds' turn =>
      obtain ⟨rfl, rfl⟩ := holder_unique holds' holds
      subst event
      exact .inr (.inr ⟨rfl, rfl, a, e₀, holds, same⟩)
    | aside other custody holder sleepers => exact .inl (.rejected (holder _ _ holds) same)
  | errand runs =>
    obtain ⟨begun, runs⟩ | answered := responds.errand_runs once runs
    · exact .inl (.errand runs)
    · exact .inr (.inl answered)

/-- What an acquisition gives up is being closed after its turn, unless it was closed already. -/
theorem Responds.gives_candidate (h : p.Responds e t) (once : p.CallsOnce) {hs : List Handle}
    {os : List (ConnectionId × Physical)} (sound : Custody.Sound hs os p.custody)
    (acquires : Move.Acquires ⟨p, e, t⟩) {o : ConnectionId × Physical}
    (ho : o ∈ Move.discarded ⟨p, e, t⟩)
    (is_open : ∀ m, Move.moment? ⟨p, e, t⟩ = some m → m.isClosed o.2 = false) :
    t.pool.Closes (Move.caller ⟨p, e, t⟩) o.2 := by
  obtain ⟨w, holds, purpose⟩ := acquires
  cases h.affects once with
  | @goesOn m w' s x continues =>
    obtain ⟨-, rfl⟩ := holder_unique continues.holds holds
    have gives := gives_of_continues continues sound ho
    -- The candidate was open, so the work that gives it up goes on with its close.
    cases gives with
    | gone closed =>
      rw [is_open _ continues.moment?_eq] at closed
      cases closed
    | tested failed same => exact .rejected continues.holder_work same
    | unprepared same => exact .rejected continues.holder_work same
    | ends other gives => exact absurd purpose other
  | @dropped i w' event holds' turn =>
    subst event turn
    obtain ⟨-, rfl⟩ := holder_unique holds' holds
    exact .errand (errand_of_discarded holds' (by rw [purpose]; decide) ho)
  | aside other custody holder sleepers => exact absurd holds (other w)

end Pool

/-! ## Runs -/

namespace Run

variable {id : PoolId} {source : DataSource} {policy : Policy} {r : Run} {e : Event} {t : Turn}
  {i : CallId} {c : Physical} {o : ConnectionId × Physical}

/-- A candidate has been deserted before it was closed to the end. -/
def Deserted (r : Run) (i : CallId) (c : Physical) : Prop :=
  ∃ later v before, r.moves = later ++ v :: before ∧ v.caller = i ∧ v.Deserts c ∧
    ∀ u ∈ before, u.answered? ≠ some (.close c)

namespace Of

/-- What an acquisition has given up is closed to the end, or it is still being closed or to be,
    or it has been deserted. -/
theorem closes (h : Of (.opened id source policy) r) {later before : List Move} {v : Move}
    (split : r.moves = later ++ v :: before) (acquires : v.Acquires) (ho : o ∈ v.discarded)
    (is_open : ∀ m, v.moment? = some m → m.isClosed o.2 = false) :
    r.pool.Closes v.caller o.2 ∨ (∃ u ∈ r.moves, u.answered? = some (.close o.2)) ∨
      r.Deserted v.caller o.2 := by
  refine h.since (I := fun r => r.pool.Closes v.caller o.2 ∨
    (∃ u ∈ r.moves, u.answered? = some (.close o.2)) ∨ r.Deserted v.caller o.2) split ?_ ?_
  · intro r₀ h₀ ht hv _
    have responds := Pool.responds_of_respond ht
    rw [hv] at acquires ho is_open
    rw [hv]
    exact .inl (responds.gives_candidate h₀.callsOnce h₀.sound acquires ho is_open)
  · rintro r₀ e t h₀ ht (closes | ⟨u, hu, answered⟩ | ⟨later, u, before, split, deserted⟩)
    · -- Only the first time counts: whoever is dropped after an answer does no harm.
      by_cases before : ∃ u ∈ r₀.moves, u.answered? = some (.close o.2)
      · obtain ⟨u, hu, answered⟩ := before
        exact .inr (.inl ⟨u, List.mem_cons_of_mem _ hu, answered⟩)
      obtain closes | answered | ⟨caller, deserts⟩ := closes.respond ht h₀.callsOnce
      · exact .inl closes
      · exact .inr (.inl ⟨_, List.mem_cons_self, answered⟩)
      · exact .inr (.inr ⟨[], _, r₀.moves, rfl, caller, deserts,
          fun u hu answered => before ⟨u, hu, answered⟩⟩)
    · exact .inr (.inl ⟨u, List.mem_cons_of_mem _ hu, answered⟩)
    · exact .inr (.inr ⟨_ :: later, u, before, congrArg _ split, deserted⟩)

/-- A connection that is asked to close is somewhere. -/
theorem exists_asking (h : Of (.opened id source policy) r)
    (asking : r.pool.asking? i = some (.close c)) : ∃ σ, (c, σ) ∈ r.pool.places := by
  obtain ⟨w, holds, request⟩ | ⟨x, found, request⟩ := Pool.asking?_eq_some asking
  · obtain ⟨σ, hσ, -⟩ := Work.exists_place (h.apt holds) request (.inr rfl)
    exact ⟨σ, Pool.mem_places_of_holder holds hσ⟩
  · cases x with
    | ofHandle q =>
      -- No caller closes a connection through its handle.
      cases request
      obtain ⟨before, later, errands, -⟩ := List.lookup_eq_some_iff.1 found
      exact absurd rfl (h.modest (i, .ofHandle (.close c)) (by rw [errands]; simp) c)
    | discard c' begun =>
      cases begun with
      | true =>
        cases request
        exact ⟨_, List.mem_append_right _ ((Pool.orphans_of_lookup found).subset
          (List.mem_append_left _ (List.mem_singleton_self _)))⟩
      | false => cases request

/-- A connection that is nowhere any more does not answer that it has been closed. -/
theorem not_answered_of_absent (h : Of (.opened id source policy) r) (absent : r.Absent c) :
    Move.answered? ⟨r.pool, e, t⟩ ≠ some (.close c) := by
  intro answered
  unfold Move.answered? at answered
  split at answered
  · obtain ⟨σ, hσ⟩ := h.exists_asking answered
    exact absent.nowhere σ hσ
  · cases answered

/-- A candidate that has been deserted before it was closed is never closed. -/
theorem not_answered_of_deserted (h : Of (.opened id source policy) r) (distinct : r.Distinct)
    (deserted : r.Deserted i c) : ∀ u ∈ r.moves, u.answered? ≠ some (.close c) := by
  obtain ⟨later, v, before, split, rfl, ⟨dropped, a, x, holds, rfl⟩, unanswered⟩ := deserted
  refine (h.since (I := fun r => r.Distinct → r.Absent x.physical ∧
    ∀ u ∈ r.moves, u.answered? ≠ some (.close x.physical)) split ?_ ?_ distinct).2
  · rintro r₀ h₀ ht hv rfl distinct
    rw [show v.before = r₀.pool from congrArg Move.before hv] at holds
    rw [dropped] at ht distinct ⊢
    rw [← Option.some.inj ((Pool.respond_drop holds).symm.trans ht)] at distinct ⊢
    refine ⟨h₀.absent_of_dropped distinct.of_move holds rfl (List.mem_singleton_self _), ?_⟩
    rw [moves_move, List.forall_mem_cons]
    exact ⟨(fun answered => by cases answered), unanswered⟩
  · intro r₀ e t h₀ ht lost distinct
    obtain ⟨absent, unanswered⟩ := lost distinct.of_move
    refine ⟨h₀.absent_move ht distinct absent, ?_⟩
    rw [moves_move, List.forall_mem_cons]
    exact ⟨h₀.not_answered_of_absent absent, unanswered⟩

end Of

end Run

/-- If the factory never gives the same connection twice: whatever an acquisition gives up that is
    still open has been closed to the end as soon as nobody closes connections any more, unless
    the acquisition was dropped while it closed this candidate for the first time. -/
theorem Pool.closes_candidates_iff (id : PoolId) (source : DataSource) (policy : Policy)
    (events : List Event)
    (distinct : (((opened id source policy).run events).opened.map Prod.snd).Nodup)
    (free : ((opened id source policy).run events).pool.holder = none)
    (idle : ∀ q ∈ ((opened id source policy).run events).pool.errands,
      ∀ c begun, q.2 ≠ .discard c begun)
    {later before : List Move} {v : Move}
    (split : ((opened id source policy).run events).moves = later ++ v :: before)
    (acquires : v.Acquires) {o : ConnectionId × Physical} (given_up : o ∈ v.discarded)
    (is_open : ∀ m, v.moment? = some m → m.isClosed o.2 = false) :
    let r := (opened id source policy).run events
    (∃ u ∈ r.moves, u.answered? = some (.close o.2)) ↔ ¬ r.Deserted v.caller o.2 := by
  intro r
  have h : Run.Of _ r := (opened id source policy).of_run events
  constructor
  · rintro ⟨u, hu, answered⟩ deserted
    exact h.not_answered_of_deserted distinct deserted u hu answered
  · intro kept
    obtain closes | answered | deserted := h.closes split acquires given_up is_open
    · cases closes with
      | rejected holds same => cases free.symm.trans holds
      | errand runs => exact absurd rfl (idle _ runs _ _)
    · exact answered
    · exact absurd deserted kept

/-! ## A candidate that is deserted -/

/-- The first call opens a connection that cannot be rolled back, rejects it, and is dropped while
    it closes it. -/
def Event.deserting : List Event :=
  [.start (.acquire .dataSource none) (.plain 0 false), .resume 0 .proceed (.plain 0 false),
    .resume 0 (.connected (.ok ⟨0⟩)) (.plain 0 false),
    .resume 0 (.answered (.error (.rollback "refused"))) (.plain 0 false), .drop 0]

namespace Pool

/-- The call has given up a candidate that was open. -/
theorem gives_up_deserting : ∃ later v before,
    ((opened 0 {} .single).run Event.deserting).moves = later ++ v :: before ∧ v.Acquires ∧
      v.caller = 0 ∧ (1, ⟨0⟩) ∈ v.discarded ∧
      ∀ m, v.moment? = some m → m.isClosed ⟨0⟩ = false :=
  ⟨[_], _, _, rfl, ⟨_, rfl, rfl⟩, rfl, by decide, fun m hm => by cases hm; rfl⟩

/-- The candidate has not been closed to the end, because it was deserted before. -/
theorem closes_candidates_iff_deserting :
    let r := (opened 0 {} .single).run Event.deserting
    (r.opened.map Prod.snd).Nodup ∧ r.pool.holder = none ∧ r.pool.errands = [] ∧
      ∃ later v before, r.moves = later ++ v :: before ∧ v.Acquires ∧ (1, ⟨0⟩) ∈ v.discarded ∧
        ((∃ u ∈ r.moves, u.answered? = some (.close ⟨0⟩)) ↔ ¬ r.Deserted v.caller ⟨0⟩) := by
  obtain ⟨later, v, before, split, acquires, -, given_up, is_open⟩ := gives_up_deserting
  refine ⟨by decide, rfl, rfl, later, v, before, split, acquires, given_up, ?_⟩
  exact closes_candidates_iff 0 {} .single Event.deserting (by decide) rfl
    (fun q hq => absurd hq List.not_mem_nil) split acquires given_up is_open

/-- Nobody has anything left to do, and yet the connection that the call has given up while it was
    open has not been closed: it has answered nothing but that it could not be rolled back. -/
theorem lost_candidate :
    let r := (opened 0 {} .single).run Event.deserting
    (∃ later v before, r.moves = later ++ v :: before ∧ v.Acquires ∧ v.caller = 0 ∧
      (1, ⟨0⟩) ∈ v.discarded ∧ ∀ m, v.moment? = some m → m.isClosed ⟨0⟩ = false) ∧
      r.pool.holder = none ∧ r.pool.queue = [] ∧ r.pool.sleepers = [] ∧ r.pool.roused = [] ∧
      r.pool.errands = [] ∧ ∀ u ∈ r.moves, u.answered? ≠ some (.close ⟨0⟩) := by
  intro r
  refine ⟨gives_up_deserting, rfl, rfl, rfl, rfl, rfl, fun u hu answered => ?_⟩
  -- All answers of the run.
  have answers : r.moves.filterMap Move.answered? = [.rollback ⟨0⟩] := rfl
  have answered := answers ▸ List.mem_filterMap.2 ⟨u, hu, answered⟩
  simp at answered

end Pool

end LeasePool
