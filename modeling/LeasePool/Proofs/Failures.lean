import LeasePool.Proofs.Capacity
import LeasePool.Proofs.Outcomes

/-!
# Acquisitions that fail

An acquisition that fails says why (`Run.Failure`): the factory has refused it a connection, and that
was the last thing that it has asked; or it has rejected too many candidates; or it has a timeout, and
no connection was to be had in time. Whatever the connections have answered meanwhile does not come
out. In none of its turns has it left anything in the books (`Run.Harmless`): it has taken out the
candidates that it has rejected, and all else is as it was.

If it has rejected nothing, it has taken nothing out. So it is if it fails at its first look at the
books, as the factory refuses, and also if it gives up without having slept. For then it has never
seen the pool full before, and where a candidate has been rejected there is room for another
connection as long as the lock is held (`Run.Of.room`).

* `Pool.explains_failures`: an acquisition that fails explains itself, and leaves nothing behind.
-/

namespace LeasePool

open scoped List

/-! ## How an acquisition gets on -/

/-- The connections that an acquisition receives and has in hand take as many places. -/
theorem Work.received_add_held_le_places {w : Work} {a : Acquisition}
    (acquires : w.acquisition? = some a) (s : Signal) (f : Physical → ConnectionId × Physical) :
    ((w.received? s).map f).toList.length + w.hand.held.length ≤ w.hand.places := by
  cases w with
  | connect a lookedAt =>
    cases hr : Work.received? (.connect a lookedAt) s <;> simp [Work.hand, Hand.places]
  | undo | close | resetUndo | resetClose => cases acquires
  | _ => simp [Work.hand, Hand.places, Work.received?]

/-- Whoever has got as far as that closes a candidate that it has rejected. -/
theorem Work.exists_discard {w : Work} (h : w.stage = 5) : ∃ a e, w = .discard a e := by
  cases w with
  | discard a e => exact ⟨a, e, rfl⟩
  | examine a e c => cases hc : c.phase <;> simp [hc] at h
  | _ => cases h

namespace Run

/-- How often a call has looked at the books. -/
def looks (i : CallId) (moves : List Move) : Nat :=
  (turnsOf i moves).countP fun v => v.begun?.isSome

variable {id : PoolId} {source : DataSource} {policy : Policy} {r : Run} {e : Event} {t : Turn}
  {i : CallId} {m : Moment} {w : Work} {s : Signal} {x : Ending} {a : Acquisition} {v : Move}
  {moves before : List Move}

theorem looks_cons_self (h : v.caller = i) :
    looks i (v :: moves) = looks i moves + if v.begun?.isSome then 1 else 0 := by
  rw [looks, turnsOf_cons_self h, List.countP_cons]
  rfl

theorem looks_cons_of_idle (h : v.caller = i → v.begun? = none) :
    looks i (v :: moves) = looks i moves := by
  by_cases own : v.caller = i
  · rw [looks_cons_self own, h own]
    rfl
  · rw [looks, turnsOf_cons_of_ne own]
    rfl

/-- The turns of a call have rejected as many candidates as it counts. -/
theorem length_rejected (i : CallId) (moves : List Move) :
    ((turnsOf i moves).flatMap Move.rejected).length = rejections i moves := by
  induction moves with
  | nil => rfl
  | cons v before ih =>
    by_cases own : v.caller = i
    · rw [turnsOf_cons_self own, List.flatMap_cons, List.length_append, ih,
        rejections_cons_self own, Nat.add_comm]
    · rw [turnsOf_cons_of_ne own, ih, rejections_cons_of_nil fun same => absurd same own]

namespace Of

theorem within (h : Of (.opened id source policy) r) : r.pool.custody.Within := by
  obtain ⟨ds, hr⟩ := h.exists_doneBy
  exact hr.within

/-- An acquisition that has rejected a candidate, and has not looked at the books again, has looked
    at them before. -/
theorem looked (h : Of (.opened id source policy) r) (pursues : r.pool.Pursues i w)
    (acquires : w.acquisition? = some a) :
    a.rejected = 0 ∨ 2 ≤ looks i r.moves ∨ w.stage = 5 ∨ w = .begin (.acquire a) := by
  let K (r : Run) (i : CallId) (w : Work) : Prop := ∀ a, w.acquisition? = some a →
    (1 ≤ looks i r.moves ∨ (∃ intent, w = .begin intent) ∧ a.rejected = 0) ∧
      (a.rejected = 0 ∨ 2 ≤ looks i r.moves ∨ w.stage = 5 ∨ w = .begin (.acquire a))
  have looked : Pursuit id source policy K :=
    { begins := fun {r t login timeout m} h ht a acquires => by
        cases acquires
        exact ⟨.inr ⟨⟨_, rfl⟩, rfl⟩, .inl rfl⟩
      goesOn := fun {r e t m w w' s x a} h ht goes acquires next before a' acquires' => by
        obtain ⟨some_look, again⟩ := before a acquires
        have acquires' := (Ending.acquisition?_of_next? next).trans acquires'
        obtain ⟨verdict, -⟩ := h.judged ht goes acquires
        have count := verdict.rejected_eq acquires'
        have looks_eq : looks (Move.caller ⟨r.pool, e, t⟩) (⟨r.pool, e, t⟩ :: r.moves) = _ :=
          looks_cons_self rfl
        rw [moves_move, looks_eq]
        -- It has looked at the books in this turn, or before.
        have begun (intent : Intent) (same : w = .begin intent) :
            (Move.begun? ⟨r.pool, e, t⟩).isSome = true := by
          subst same
          rw [goes.begun?_eq]
          rfl
        have once : 1 ≤ looks (Move.caller ⟨r.pool, e, t⟩) r.moves +
            if (Move.begun? ⟨r.pool, e, t⟩).isSome then 1 else 0 := by
          obtain before | ⟨⟨intent, same⟩, -⟩ := some_look
          · exact Nat.le_add_right_of_le before
          · rw [if_pos (begun intent same)]
            exact Nat.le_add_left _ _
        refine ⟨.inl once, ?_⟩
        generalize Move.rejected ⟨r.pool, e, t⟩ = rejected at verdict count
        cases verdict with
        | passes before passes =>
          rw [List.length_nil, Nat.add_zero] at count
          rw [count]
          obtain none_rejected | twice | settled | same := again
          · exact .inl none_rejected
          · exact .inr (.inl (Nat.le_add_right_of_le twice))
          · omega
          · obtain once | ⟨-, none_rejected⟩ := some_look
            · rw [if_pos (begun _ same)]
              omega
            · exact .inl none_rejected
        | settles last retries | gone before closed retries =>
          cases retries with
          | again tolerated =>
            cases next
            cases acquires'
            exact .inr (.inr (.inr rfl))
          | giveUp exceeded => cases next
        | discards before is_open =>
          cases next
          exact .inr (.inr (.inl rfl))
      aside := fun {r e t i w} h ht _ idle before => by
        have same : looks i (r.move e t).moves = looks i r.moves := by
          refine looks_cons_of_idle fun own => Option.eq_none_iff_forall_ne_some.2 ?_
          rintro ⟨intent, m⟩ begun
          exact idle own _ (own ▸ (Move.begun?_eq_some.1 begun).2)
        intro a acquires
        rw [same]
        exact before a acquires }
  exact (looked.holds h pursues a acquires).2

/-- When an acquisition has rejected a candidate, and that is closed, there is room for another
    connection. -/
theorem entries_lt (h : Of (.opened id source policy) r) (ht : r.pool.respond e = some t)
    (goes : Move.Continues ⟨r.pool, e, t⟩ m w s (.work (.begin (.acquire a))))
    {a₀ : Acquisition} (acquires : w.acquisition? = some a₀) :
    t.pool.books.entries.length < t.pool.books.policy.maxActive.toNat := by
  obtain ⟨verdict, same_policy, -⟩ := h.judged ht goes acquires
  obtain ⟨-, kept, active, -, perm⟩ := goes.sequel.yields acquires
  have candidates : Move.candidates ⟨r.pool, e, t⟩ =
      ((w.received? s).map fun c => (r.pool.nextConnection, c)).toList ++
        (w.found r.pool.books m.now).map Entry.name :=
    goes.candidates_eq.trans (Pool.candidates_eq acquires)
  -- What it has received and had in hand took its places, and what it has found had one.
  have hand : r.pool.custody.hand = w.hand := Pool.hand_of_holder goes.holds
  have taken : r.pool.books.entries.length + w.hand.places ≤
      r.pool.books.policy.maxActive.toNat := by
    have taken := h.within.taken_le
    rw [Custody.taken, hand, Nat.add_comm (List.length _)] at taken
    rwa [Books.entries, List.length_append]
  have found : (w.found r.pool.books m.now).length + t.pool.books.entries.length =
      r.pool.books.entries.length := by
    rw [← perm.length_eq, List.length_append, Books.entries]
    rw [show t.pool.books.active = kept ++ [] from active, List.append_nil]
    rfl
  have places := Work.received_add_held_le_places acquires s fun c => (r.pool.nextConnection, c)
  have accounts := (h.accounts ht goes acquires).length_eq
  rw [List.length_append, candidates, List.length_append, List.length_map, List.length_map,
    List.length_append] at accounts
  change _ = _ + 0 at accounts
  rw [same_policy]
  generalize Move.rejected ⟨r.pool, e, t⟩ = rejected at verdict accounts
  cases verdict with
  | passes before passes =>
    cases passes with
    | work acquires further => exact absurd further (Nat.not_lt_zero _)
  | settles last retries =>
    obtain ⟨a', e', rfl⟩ := Work.exists_discard last
    change 0 + _ = _ at found
    change _ + 1 ≤ _ at taken
    omega
  | gone before closed retries =>
    rw [List.length_singleton] at accounts
    omega

/-- When an acquisition that has rejected a candidate looks at the books again, there is room for
    another connection. -/
theorem room (h : Of (.opened id source policy) r)
    (pursues : r.pool.Pursues i (.begin (.acquire a))) : a.rejected = 0 ∨
      r.pool.books.entries.length < r.pool.books.policy.maxActive.toNat := by
  let K (r : Run) (i : CallId) (w : Work) : Prop := ∀ a, w = .begin (.acquire a) →
    a.rejected = 0 ∨ r.pool.holder = some (i, w) ∧
      r.pool.books.entries.length < r.pool.books.policy.maxActive.toNat
  -- While it holds the lock nobody else changes the books, so the room that it has made by its
  -- rejection is still there.
  have room : Pursuit id source policy K :=
    { begins := fun {r t login timeout m} h ht a same => by
        cases same
        exact .inl rfl
      goesOn := fun {r e t m w w' s x a} h ht goes acquires next _ a' same => by
        subst same
        obtain rfl : x = .work (.begin (.acquire a')) := by
          cases x <;> cases next
          rfl
        exact .inr ⟨goes.holder_work, h.entries_lt ht goes acquires⟩
      aside := fun {r e t i w} h ht _ idle before a same => by
        obtain none_rejected | ⟨held, few⟩ := before a same
        · exact .inl none_rejected
        · have other : Move.caller ⟨r.pool, e, t⟩ ≠ i := fun own => idle own _ held
          obtain ⟨holder, books⟩ := (Pool.responds_of_respond ht).aside h.callsOnce held other
          refine .inr ⟨holder, ?_⟩
          rwa [pool_move, books] }
  exact (room.holds h pursues a rfl).imp_right And.right

end Of

end Run

/-! ## What an acquisition leaves behind -/

/-- In a turn of an acquisition that hands out nothing, nothing is added to the books, and only
    candidates are taken out. -/
structure Move.Spares (v : Move) : Prop where
  idle : v.after.books.idle.Sublist v.before.books.idle
  active : v.after.books.active.Sublist v.before.books.active
  requests : v.after.books.counters.requests = v.before.books.counters.requests
  requestTime : v.after.books.counters.requestTime = v.before.books.counters.requestTime
  taken : ∀ e ∈ v.before.books.entries, e ∉ v.after.books.entries → e.name ∈ v.candidates
  untouched : v.candidates = [] → v.after.books.idle = v.before.books.idle ∧
    v.after.books.active = v.before.books.active

theorem Move.Spares.of_same {v : Move} (same : v.after.books = v.before.books) : v.Spares where
  idle := same ▸ .refl _
  active := same ▸ .refl _
  requests := by rw [same]
  requestTime := by rw [same]
  taken e he gone := absurd (same ▸ he) gone
  untouched _ := by rw [same]; exact ⟨rfl, rfl⟩

namespace Run

/-- What the turns of a call tell is told by none of another call. -/
theorem told_append_of_ne {α : Type} {f : Move → Option α} {i : CallId} {later before : List Move}
    (h : ∀ v ∈ later, v.caller ≠ i) : told f i (later ++ before) = told f i before := by
  induction later with
  | nil => rfl
  | cons v later ih =>
    rw [List.forall_mem_cons] at h
    rw [List.cons_append, told_cons_of_ne h.1, ih h.2]

variable {id : PoolId} {source : DataSource} {policy : Policy} {r : Run} {e : Event} {t : Turn}
  {i : CallId} {m : Moment} {w : Work} {s : Signal} {x : Ending} {a : Acquisition}

namespace Of

/-- A turn that leases nothing takes nothing from the books but the candidate. -/
theorem spares_of_continues (h : Of (.opened id source policy) r) (ht : r.pool.respond e = some t)
    (goes : Move.Continues ⟨r.pool, e, t⟩ m w s x) (acquires : w.acquisition? = some a)
    (silent : x.leased = []) : Move.Spares ⟨r.pool, e, t⟩ := by
  -- Nothing is leased, so all that the books have lost is the candidate.
  obtain ⟨idle, kept, active, sub, perm⟩ := goes.sequel.yields acquires
  rw [silent, List.append_nil] at active
  have candidates : Move.candidates ⟨r.pool, e, t⟩ =
      ((w.received? s).map fun c => (r.pool.nextConnection, c)).toList ++
        (w.found r.pool.books m.now).map Entry.name :=
    goes.candidates_eq.trans (Pool.candidates_eq acquires)
  refine ⟨idle, active ▸ sub, ?_, ?_, fun e he gone => ?_, fun none_found => ?_⟩
  · have draws := goes.sequel.draws
    have none_leased : x.leased.length = 0 := by rw [silent]; rfl
    cases draws with
    | claims _ _ shifts | returns _ _ shifts | resets _ _ _ shifts | keeps _ _ _ shifts =>
      rw [shifts.requests, none_leased, Nat.add_zero]
  · have adds := h.adds_move ht goes
    have requestTime := adds.requestTime
    rw [Work.took_eq acquires, silent] at requestTime
    exact requestTime
  · rw [candidates, List.mem_append]
    refine .inr (List.mem_map_of_mem ?_)
    refine (List.mem_append.1 (perm.mem_iff.2 he)).resolve_right fun kept => gone ?_
    rw [Books.entries, active]
    exact kept
  · rw [candidates, List.append_eq_nil_iff, List.map_eq_nil_iff] at none_found
    rw [none_found.2, List.nil_append] at perm
    have total := perm.length_eq
    rw [Books.entries, List.length_append, List.length_append] at total
    have idle_le := idle.length_le
    have kept_le := sub.length_le
    exact ⟨idle.eq_of_length (by omega), active.trans (sub.eq_of_length (by omega))⟩

end Of

/-! ## Why an acquisition fails -/

/-- An acquisition that has a timeout or none, and that has begun at some time in one of the moves
    `before`, fails in the turn `v`. -/
structure FailsAcquiring (before : List Move) (v : Move) (timeout : Option Duration)
    (since : Instant) (cause : PoolError) : Prop where
  begins : BeginsAcquiring before v.caller timeout since
  failed : v.turn.outcome = some (.failed cause)

/-- The turns of a call leave the idle connections and the leases exactly as they were. -/
def Untouched (i : CallId) (moves : List Move) : Prop :=
  ∀ u ∈ turnsOf i moves, u.after.books.idle = u.before.books.idle ∧
    u.after.books.active = u.before.books.active

/-- Why an acquisition fails in the turn `v`, the last of the moves. -/
inductive Failure (moves : List Move) (v : Move) (timeout : Option Duration) (since : Instant) :
    PoolError → Prop
  /-- The factory has refused to open a connection, which is the last thing that it has asked. -/
  | refused {cause : PoolError} {asked : List (Moment × Request)} {m : Moment}
      {source : DataSource} (answer : v.refusal? = some cause)
      (once : told Move.refusal? v.caller moves = [cause])
      (last : told Move.asks? v.caller moves = asked ++ [(m, .connect source)])
      (at_once : looks v.caller moves = 1 → Untouched v.caller moves) :
      Failure moves v timeout since cause
  /-- It has rejected too many candidates. -/
  | exhausted (none_refused : told Move.refusal? v.caller moves = []) :
      Failure moves v timeout since .noGoodConnection
  /-- It has a timeout, and no connection was to be had in time. If it has not slept, or if it was
      not to wait at all, it has changed nothing. -/
  | late {d : Duration} (limited : timeout = some d)
      (none_refused : told Move.refusal? v.caller moves = [])
      (at_once : slept v.caller moves = false ∨ d = .zero ∧
        (∀ u ∈ turnsOf v.caller moves, ∀ m, u.moment? = some m → since ≤ m.now) →
        Untouched v.caller moves) :
      Failure moves v timeout since (.noConnectionInTime v.before.books.active.length)

/-- The turn `u` of an acquisition that fails after some moves hands out nothing, and leaves nothing
    in the books. -/
structure Harmless (moves : List Move) (u : Move) : Prop where
  none_issued : u.issued? = none
  /-- All connections remain in their order, but for those that are taken out. -/
  idle : u.after.books.idle.Sublist u.before.books.idle
  active : u.after.books.active.Sublist u.before.books.active
  /-- No checkout is counted. -/
  requests : u.after.books.counters.requests = u.before.books.counters.requests
  requestTime : u.after.books.counters.requestTime = u.before.books.counters.requestTime
  /-- The acquisition rejects whatever it takes out. -/
  taken : ∀ e ∈ u.before.books.entries, e ∉ u.after.books.entries →
    e.name ∈ (turnsOf u.caller moves).flatMap Move.rejected
  /-- What remains is in the generation in which it was. -/
  current : ∀ e ∈ u.after.books.entries,
    u.after.generations.current e.id = u.before.generations.current e.id

/-- Acquisitions that fail explain themselves, and leave nothing behind. -/
structure ExplainsFailures (r : Run) : Prop where
  /-- A call that is over has no more turns. -/
  silent : ∀ later v before, r.moves = later ++ v :: before → v.turn.outcome.isSome →
    ∀ u ∈ later, u.caller ≠ v.caller
  explains : ∀ later v before timeout since cause, r.moves = later ++ v :: before →
    FailsAcquiring before v timeout since cause → Failure (v :: before) v timeout since cause
  harmless : ∀ later v before timeout since cause, r.moves = later ++ v :: before →
    FailsAcquiring before v timeout since cause →
    ∀ u ∈ turnsOf v.caller (v :: before), Harmless (v :: before) u

namespace FailsAcquiring

variable {later before : List Move} {v : Move} {timeout : Option Duration} {since : Instant}
  {cause : PoolError}

/-- What it goes on with in one of its turns has the deadline with which it has begun. -/
theorem acquires (fails : FailsAcquiring before v timeout since cause)
    (h : Of (.opened id source policy) r) (split : r.moves = later ++ v :: before)
    {u : Move} {later' before' : List Move} (split' : r.moves = later' ++ u :: before')
    (same : u.caller = v.caller) (goes : u.Continues m w s x) :
    ∃ a, w.acquisition? = some a ∧ a.deadline = timeout.map since.after := by
  refine h.acquires_of_begins fails.begins (fun u hu => ?_) split' same goes
  rw [split]
  exact List.mem_append_right _ (List.mem_cons_of_mem _ hu)

/-- It fails in a turn in which it has had the lock. -/
theorem exists_continues (fails : FailsAcquiring r.moves ⟨r.pool, e, t⟩ timeout since cause)
    (h : Of (.opened id source policy) r) (ht : r.pool.respond e = some t) :
    ∃ m w s x a, Move.Continues ⟨r.pool, e, t⟩ m w s x ∧ w.acquisition? = some a ∧
      a.deadline = timeout.map since.after ∧ r.pool.Fails m a w s cause ∧ x.hand.held = [] ∧
        x.leased = [] := by
  have failed : t.outcome = some (.failed cause) := fails.failed
  obtain ⟨m, w, s, x, a, goes, acquires, deadline⟩ :=
    h.continues_of_begins ht fails.begins (by rw [failed]; rfl)
  have ended : x.outcome? = some (.failed cause) := goes.outcome.symm.trans failed
  refine ⟨m, w, s, x, a, goes, acquires, deadline, goes.sequel.fails acquires ended, ?_, ?_⟩
  · cases x with
    | work w' => cases ended
    | _ => rfl
  · rw [Ending.leased, ended]
    rfl

end FailsAcquiring

namespace Of

variable {later before : List Move} {v : Move} {timeout : Option Duration} {since : Instant}
  {cause : PoolError}

/-- The candidates of an acquisition that fails are those that it has rejected. -/
theorem candidates_perm_rejected (h : Of (.opened id source policy) r)
    (ht : r.pool.respond e = some t)
    (fails : FailsAcquiring r.moves ⟨r.pool, e, t⟩ timeout since cause) :
    let i := Move.caller ⟨r.pool, e, t⟩
    (turnsOf i (r.move e t).moves).flatMap Move.candidates ~
      (turnsOf i (r.move e t).moves).flatMap Move.rejected := by
  obtain ⟨m, w, s, x, a, goes, acquires, -, -, held, leased⟩ := fails.exists_continues h ht
  have settled := h.candidates_perm_of_turn ht goes acquires
    (h.candidates_perm (.works (.holds goes.holds) acquires))
  dsimp only at settled ⊢
  rwa [held, leased, List.append_nil, List.map_nil, List.append_nil] at settled

/-- In no turn does an acquisition that fails leave anything in the books. -/
theorem spares (h : Of (.opened id source policy) r) (split : r.moves = later ++ v :: before)
    (fails : FailsAcquiring before v timeout since cause) {u : Move}
    (hu : u ∈ turnsOf v.caller (v :: before)) :
    u.Spares ∧ u.issued? = none ∧ ∀ e ∈ u.after.books.entries,
      u.after.generations.current e.id = u.before.generations.current e.id := by
  obtain ⟨hu, own⟩ := mem_turnsOf.1 hu
  obtain ⟨between, earlier, split'⟩ := List.append_of_mem hu
  have at_u : r.moves = (later ++ between) ++ u :: earlier := by
    rw [split, split', List.append_assoc]
  -- It hands out nothing, as then it would be over.
  have none_issued : u.issued? = none := by
    cases between with
    | nil =>
      injection split' with same
      rw [Move.issued?, ← same, fails.failed]
      rfl
    | cons v' between =>
      injection split' with same
      subst same
      refine Option.eq_none_iff_forall_ne_some.2 fun y issued => ?_
      obtain ⟨o, ended, -⟩ := Option.bind_eq_some_iff.1 issued
      have finished : u.turn.outcome.isSome := by rw [ended]; rfl
      exact h.no_more_turns at_u finished (List.mem_append_right _ List.mem_cons_self) own.symm
  obtain ⟨p, e, t⟩ := u
  obtain ⟨r₀, h₀, -, rfl, ht⟩ := h.cut at_u
  have spares : Move.Spares ⟨r₀.pool, e, t⟩ := by
    obtain ⟨m, w, s, x, goes⟩ | ⟨same, -, -⟩ :=
      (Pool.responds_of_respond ht).continues_or_idle h₀.callsOnce
    · obtain ⟨a, acquires, -⟩ := fails.acquires h split at_u own goes
      refine h₀.spares_of_continues ht goes acquires ?_
      rw [goes.leased_eq, none_issued]
      rfl
    · exact .of_same same
  refine ⟨spares, none_issued, fun c hc => ?_⟩
  have there : c ∈ r₀.pool.books.entries := (spares.active.append spares.idle).subset hc
  have before := Entry.isCurrent_iff.1
    (h₀.sound.current c (Custody.mem_present.2 ((List.mem_append.1 there).imp_right .inl)))
  have after := Entry.isCurrent_iff.1
    ((h₀.move ht).sound.current c (Custody.mem_present.2 ((List.mem_append.1 hc).imp_right .inl)))
  exact after.trans before.symm

/-- An acquisition that fails and has rejected nothing has changed nothing. -/
theorem untouched (h : Of (.opened id source policy) r) (ht : r.pool.respond e = some t)
    (fails : FailsAcquiring r.moves ⟨r.pool, e, t⟩ timeout since cause)
    (none_rejected : rejections (Move.caller ⟨r.pool, e, t⟩) (r.move e t).moves = 0) :
    Untouched (Move.caller ⟨r.pool, e, t⟩) (r.move e t).moves := by
  intro u hu
  have settled := h.candidates_perm_rejected ht fails
  dsimp only at settled
  rw [List.eq_nil_of_length_eq_zero ((length_rejected _ _).trans none_rejected)] at settled
  refine ((h.move ht).spares split_last fails hu).1.untouched ?_
  exact List.flatMap_eq_nil_iff.1 settled.eq_nil u hu

/-- The rejections of an acquisition, in its turns until the present one. -/
theorem rejections_eq (h : Of (.opened id source policy) r)
    (goes : Move.Continues ⟨r.pool, e, t⟩ m w s x) (acquires : w.acquisition? = some a) :
    rejections (Move.caller ⟨r.pool, e, t⟩) (r.move e t).moves =
      a.rejected + (Move.rejected ⟨r.pool, e, t⟩).length := by
  rw [moves_move, rejections_cons_self rfl, h.counts.works _ _ _ (.holds goes.holds) acquires]

/-- An acquisition that has nothing in hand, and comes to no candidate, rejects none. -/
theorem rejected_eq_nil (h : Of (.opened id source policy) r) (ht : r.pool.respond e = some t)
    (goes : Move.Continues ⟨r.pool, e, t⟩ m w s x) (acquires : w.acquisition? = some a)
    (empty : w.hand.held = []) (none_found : Move.candidates ⟨r.pool, e, t⟩ = []) :
    Move.rejected ⟨r.pool, e, t⟩ = [] := by
  have accounts := h.accounts ht goes acquires
  dsimp only at accounts
  rw [empty, none_found] at accounts
  exact (List.append_eq_nil_iff.1 accounts.symm.eq_nil).1

/-- In the turn in which it fails, an acquisition learns of a refusal only if that is why. -/
theorem told_refusal? (h : Of (.opened id source policy) r)
    (goes : Move.Continues ⟨r.pool, e, t⟩ m w s x) (acquires : w.acquisition? = some a) :
    told Move.refusal? (Move.caller ⟨r.pool, e, t⟩) (r.move e t).moves = s.refusal?.toList := by
  rw [moves_move, told_cons_self rfl, h.refusals (.works (.holds goes.holds) acquires),
    goes.refusal?_eq, List.nil_append]

/-- The last request of an acquisition that waits for a connection is the one to open it. -/
theorem told_asks?_of_connect (h : Of (.opened id source policy) r) {lookedAt : Instant}
    (goes : Move.Continues ⟨r.pool, e, t⟩ m (.connect a lookedAt) s x) (finished : x.outcome?.isSome) :
    ∃ asked m', told Move.asks? (Move.caller ⟨r.pool, e, t⟩) (r.move e t).moves =
      asked ++ [(m', .connect r.pool.books.source)] := by
  -- The request is that of the turn in which the call came to wait for the factory. Since then
  -- nobody else has held the lock, so the data source is the same.
  obtain ⟨between, u, earlier, work⟩ := h.exists_atWork goes.holds fun _ => Work.noConfusion
  obtain ⟨m', w', s', begun⟩ := work.begun
  obtain ⟨p, e', t'⟩ := u
  obtain ⟨r₀, h₀, -, rfl, -⟩ := h.cut work.split
  have asks := begun.asks?_eq h₀.callsOnce nofun
  have ends : Move.asks? ⟨r.pool, e, t⟩ = none := by
    rw [goes.asks?_eq h.callsOnce]
    · cases x <;> first | rfl | cases finished
    · rintro a' since limit rfl
      cases finished
  refine ⟨told Move.asks? (Move.caller ⟨r.pool, e, t⟩) earlier, m', ?_⟩
  have same_books : t'.pool.books = r.pool.books := congrArg Custody.books work.custody
  rw [moves_move, told_cons_self rfl, ends, work.split,
    told_append_of_ne fun v hv => (work.others v hv).1, told_cons_self work.caller, asks]
  change _ ++ (Option.map _ (some (Request.connect t'.pool.books.source))).toList ++ [] = _
  rw [same_books]
  exact List.append_nil _

/-- If the pool is full when its deadline has passed, an acquisition that has not slept, or that was
    not to wait at all, has rejected nothing. -/
theorem rejections_of_late (h : Of (.opened id source policy) r) (ht : r.pool.respond e = some t)
    (fails : FailsAcquiring r.moves ⟨r.pool, e, t⟩ timeout since cause) {intent : Intent}
    (goes : Move.Continues ⟨r.pool, e, t⟩ m (.begin intent) s x)
    (acquires : intent.acquisition? = some a)
    (exhausted : r.pool.books.Exhausted m.now)
    (at_once : slept (Move.caller ⟨r.pool, e, t⟩) (r.move e t).moves = false ∨
      timeout = some .zero ∧ ∀ u ∈ turnsOf (Move.caller ⟨r.pool, e, t⟩) (r.move e t).moves,
        ∀ m, u.moment? = some m → since ≤ m.now) :
    rejections (Move.caller ⟨r.pool, e, t⟩) (r.move e t).moves = 0 := by
  have doing : r.pool.Doing (Move.caller ⟨r.pool, e, t⟩) (.begin intent) := .holds goes.holds
  have awake : slept (Move.caller ⟨r.pool, e, t⟩) r.moves = false := by
    obtain awake | ⟨zero, forward⟩ := at_once
    · rw [moves_move, slept_cons, Bool.or_eq_false_iff] at awake
      exact awake.2
    · -- Whoever falls asleep has time left.
      rw [slept, List.any_eq_false]
      intro u hu fell
      rw [Bool.and_eq_true, beq_iff_eq] at fell
      obtain ⟨own, fell⟩ := fell
      obtain ⟨later, earlier, split⟩ := List.append_of_mem hu
      have at_u : (r.move e t).moves = (⟨r.pool, e, t⟩ :: later) ++ u :: earlier :=
        congrArg _ split
      have now := forward u (mem_turnsOf.2 ⟨List.mem_cons_of_mem _ hu, own⟩)
      obtain ⟨p, e', t'⟩ := u
      obtain ⟨r₀, h₀, -, rfl, ht'⟩ := h.cut split
      obtain ⟨m', w', s', a', a₁, since', limit, goes', naps⟩ := h₀.naps_of_fellAsleep ht' fell
      obtain ⟨a₂, acquires', deadline'⟩ :=
        fails.acquires (h.move ht) split_last at_u own goes'
      obtain ⟨intent', rfl, same⟩ := naps.begun
      obtain rfl : a' = a₂ := Option.some.inj (same.symm.trans acquires')
      have elapsed : (a'.remaining m'.now).any Duration.isZero = true := by
        refine Acquisition.elapsed_iff.2 ⟨since.after .zero, ?_, now m' goes'.moment?_eq⟩
        rw [deadline', zero]
        rfl
      cases naps.time.symm.trans elapsed
  -- So it has not looked again, and where it has rejected something there is room.
  obtain rfl : intent = .acquire a := by
    cases intent with
    | acquire => cases acquires; rfl
    | awaken => cases (h.slept_of_awaken (Option.some.inj acquires ▸ doing)).symm.trans awake
    | _ => cases acquires
  have none_rejected : a.rejected = 0 := by
    refine (h.room (.works doing rfl)).resolve_right fun room => ?_
    rw [Books.entries, exhausted.none_idle, List.append_nil] at room
    exact absurd exhausted.full (Nat.not_le_of_lt room)
  have none_found : Move.candidates ⟨r.pool, e, t⟩ = [] := by
    have none_overdue := Books.overdue_eq_nil fun _ _ late =>
      Books.claimOverdue?_of_overdue late exhausted.none_overdue
    rw [goes.candidates_eq, Pool.candidates_eq rfl]
    change _ ++ (r.pool.books.candidates m.now).map Entry.name = []
    rw [Books.candidates, exhausted.none_idle, none_overdue]
    rfl
  rw [h.rejections_eq goes rfl, none_rejected, h.rejected_eq_nil ht goes rfl rfl none_found]
  rfl

/-- What an acquisition fails for explains it. -/
theorem failure (h : Of (.opened id source policy) r) (ht : r.pool.respond e = some t)
    (fails : FailsAcquiring r.moves ⟨r.pool, e, t⟩ timeout since cause) :
    Failure (r.move e t).moves ⟨r.pool, e, t⟩ timeout since cause := by
  obtain ⟨m, w, s, x, a, goes, acquires, deadline, why, held, -⟩ := fails.exists_continues h ht
  have failed : t.outcome = some (.failed cause) := fails.failed
  have finished : x.outcome?.isSome := by
    rw [← goes.outcome, failed]
    rfl
  have told := h.told_refusal? goes acquires
  have untouched := h.untouched ht fails
  cases why with
  | @refused lookedAt =>
    obtain ⟨asked, m', last⟩ := h.told_asks?_of_connect goes finished
    refine .refused goes.refusal?_eq told last fun once => untouched ?_
    have idle : Move.begun? ⟨r.pool, e, t⟩ = none := by
      refine Option.eq_none_iff_forall_ne_some.2 ?_
      rintro ⟨intent, m⟩ begun
      cases goes.holds.symm.trans (Move.begun?_eq_some.1 begun).2
    rw [moves_move, looks_cons_of_idle fun _ => idle] at once
    obtain none_rejected | twice | settled | same :=
      h.looked (.works (.holds goes.holds) rfl) rfl
    · have none_found : Move.candidates ⟨r.pool, e, t⟩ = [] :=
        goes.candidates_eq.trans (Pool.candidates_eq rfl)
      rw [h.rejections_eq goes rfl, none_rejected, h.rejected_eq_nil ht goes rfl rfl none_found]
      rfl
    · omega
    · cases settled
    · cases same
  | exhausted kept =>
    rw [kept] at told
    exact .exhausted told
  | @late intent same exhausted elapsed =>
    obtain ⟨deadline', limited, -⟩ := Acquisition.elapsed_iff.1 elapsed
    obtain ⟨d, limited, -⟩ := Option.map_eq_some_iff.1 (deadline.symm.trans limited)
    refine .late limited told fun at_once => untouched ?_
    refine h.rejections_of_late ht fails goes same exhausted (at_once.imp_right ?_)
    rintro ⟨rfl, forward⟩
    exact ⟨limited, forward⟩

/-- No turn of an acquisition that fails leaves anything in the books. -/
theorem harmless (h : Of (.opened id source policy) r) (ht : r.pool.respond e = some t)
    (fails : FailsAcquiring r.moves ⟨r.pool, e, t⟩ timeout since cause) {u : Move}
    (hu : u ∈ turnsOf (Move.caller ⟨r.pool, e, t⟩) (r.move e t).moves) :
    Harmless (r.move e t).moves u := by
  obtain ⟨spares, none_issued, current⟩ := (h.move ht).spares split_last fails hu
  refine ⟨none_issued, spares.idle, spares.active, spares.requests, spares.requestTime,
    fun c hc gone => ?_, current⟩
  have settled := h.candidates_perm_rejected ht fails
  rw [(mem_turnsOf.1 hu).2]
  exact settled.subset (List.mem_flatMap.2 ⟨u, hu, spares.taken c hc gone⟩)

end Of

end Run

/-- An acquisition that fails explains itself, and leaves nothing behind. -/
theorem Pool.explains_failures (id : PoolId) (source : DataSource) (policy : Policy)
    (events : List Event) : ((opened id source policy).run events).ExplainsFailures := by
  have h := (opened id source policy).of_run events
  generalize (opened id source policy).run events = r at h
  refine ⟨fun later v before split ended u hu => h.no_more_turns split ended hu,
    fun later v before timeout since cause split fails => ?_,
    fun later v before timeout since cause split fails u hu => ?_⟩
  · obtain ⟨p, e, t⟩ := v
    obtain ⟨r₀, h₀, rfl, rfl, ht⟩ := h.cut split
    exact h₀.failure ht fails
  · obtain ⟨p, e, t⟩ := v
    obtain ⟨r₀, h₀, rfl, rfl, ht⟩ := h.cut split
    exact h₀.harmless ht fails hu

end LeasePool
