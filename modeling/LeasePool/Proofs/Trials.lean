import LeasePool.Proofs.Examinations

/-!
# The course of a trial

A candidate that is tried is asked one query. If it answers and leaves something uncommitted, that
is rolled back; this is not the rollback that precedes every checkout, which follows if the
connection still does not commit on its own. If one of the two fails, the connection is closed, and
when that has been tried the candidate is rejected. The error ends there.

The course of a trial is told by the turns of the call alone, since the call holds the lock
(`Run.Trial`). It ends early only if the call is dropped.

* `Run.Tracks`: where a call stands that has tried a candidate; every turn keeps this;
* `Run.Tracks.not_examined`: the call does not examine the candidate again;
* `Pool.throttles_probes`: which candidates are tried in a run, and how the trials go on.
-/

namespace LeasePool

/-! ## What the turns of a trial do -/

namespace Move

variable (v : Move)

/-- In the turn, a call makes a request, and it goes on. -/
def Requests (q : Request) : Prop := v.asked? = some q ∧ v.turn.outcome = none

/-- In the turn, a call hands out a connection, and is over. -/
structure HandsOut (o : ConnectionId × Physical) : Prop where
  issued : ∃ y, v.issued? = some y ∧ y.name = o
  silent : v.asked? = none

/-- In the turn, an acquisition rejects its candidate, for whatever reason. It goes on, or it has
    rejected too many. It may still close the candidate. -/
structure Refuses (o : ConnectionId × Physical) : Prop where
  rejected : v.rejected = [o]
  outcome : v.turn.outcome = none ∨ v.turn.outcome = some (.failed .noGoodConnection)
  asked : ∀ q, v.asked? = some q → q = .close o.2

variable {v} {o : ConnectionId × Physical}

/-- A connection that is opened gets a new number. -/
theorem number_of_opened? (h : v.opened? = some o) : o.1 = v.before.nextConnection := by
  unfold opened? at h
  split at h
  · split at h
    · obtain ⟨c, -, rfl⟩ := Option.map_eq_some_iff.1 h
      rfl
    · cases h
  · cases h

end Move

namespace Run

/-- Where a trial stands. -/
inductive Standing
  /-- The connection is asked the query. -/
  | probing
  /-- What the query has left is being rolled back. -/
  | undoing
  /-- It has failed, and the connection is being closed. -/
  | closing
  /-- It has succeeded, and the candidate is rolled back before it is handed out. -/
  | preparing
  | handedOut
  | rejected

/-- The request whose answer decides how a trial goes on. -/
def Standing.request? (c : Physical) (query : String) : Standing → Option Request
  | probing => some (.probe c query)
  | undoing | preparing => some (.rollback c)
  | closing => some (.close c)
  | handedOut | rejected => none

/-- The course of the trial of a candidate: the turns of the call since it has asked the query, the
    latest first, and where the trial stands after them. -/
inductive Trial (o : ConnectionId × Physical) (query : String) : List Move → Standing → Prop
  | begins {v : Move} (asks : v.Requests (.probe o.2 query)) : Trial o query [v] .probing
  /-- The connection has answered, and leaves something uncommitted. -/
  | undoes {v : Move} {turns : List Move} {m : Moment} (trial : Trial o query turns .probing)
      (learns : v.learns? = some (.probe o.2 query, .ok ())) (moment : v.moment? = some m)
      (uncommitted : m.isAutoCommit o.2 = false) (asks : v.Requests (.rollback o.2)) :
      Trial o query (v :: turns) .undoing
  /-- The trial has succeeded, and the connection commits on its own. -/
  | accepts {v : Move} {turns : List Move} {standing : Standing} {q : Request} {m : Moment}
      (trial : Trial o query turns standing) (testing : standing = .probing ∨ standing = .undoing)
      (asked : standing.request? o.2 query = some q) (learns : v.learns? = some (q, .ok ()))
      (moment : v.moment? = some m) (commits : m.isAutoCommit o.2 = true) (hands : v.HandsOut o) :
      Trial o query (v :: turns) .handedOut
  /-- The trial has succeeded, and there is a rollback before every checkout. -/
  | prepares {v : Move} {turns : List Move} {m : Moment} (trial : Trial o query turns .undoing)
      (learns : v.learns? = some (.rollback o.2, .ok ())) (moment : v.moment? = some m)
      (uncommitted : m.isAutoCommit o.2 = false) (asks : v.Requests (.rollback o.2)) :
      Trial o query (v :: turns) .preparing
  | handsOut {v : Move} {turns : List Move} (trial : Trial o query turns .preparing)
      (learns : v.learns? = some (.rollback o.2, .ok ())) (hands : v.HandsOut o) :
      Trial o query (v :: turns) .handedOut
  /-- That rollback has failed. The trial has not. -/
  | unprepared {v : Move} {turns : List Move} {cause : PoolError}
      (trial : Trial o query turns .preparing)
      (learns : v.learns? = some (.rollback o.2, .error cause)) (refuses : v.Refuses o) :
      Trial o query (v :: turns) .rejected
  /-- The connection has not answered the query, or not rolled back what that has left. -/
  | fails {v : Move} {turns : List Move} {standing : Standing} {q : Request} {cause : PoolError}
      (trial : Trial o query turns standing) (testing : standing = .probing ∨ standing = .undoing)
      (asked : standing.request? o.2 query = some q) (learns : v.learns? = some (q, .error cause))
      (asks : v.Requests (.close o.2)) : Trial o query (v :: turns) .closing
  /-- It is closed, or could not be closed. -/
  | refuses {v : Move} {turns : List Move} {result : Except PoolError Unit}
      (trial : Trial o query turns .closing) (learns : v.learns? = some (.close o.2, result))
      (refuses : v.Refuses o) : Trial o query (v :: turns) .rejected

end Run

/-- Where a trial stands whose test has got so far. -/
def Checkup.Phase.standing : Checkup.Phase → Run.Standing
  | probing => .probing
  | rollingBack => .undoing
  | closing _ => .closing

/-- The request of a call that tries a candidate is that on which the trial waits. -/
theorem Work.request?_examine {a : Acquisition} {e : Entry} {k : Checkup} (source : DataSource) :
    (Work.examine a e k).request? source = k.phase.standing.request? k.physical k.query := by
  obtain ⟨physical, query, startedAt, phase⟩ := k
  cases phase <;> rfl

/-- A call that goes on with some work makes the request of that work. -/
theorem Move.Continues.requests {v : Move} {m : Moment} {w w' : Work} {s : Signal} {q : Request}
    (goes : v.Continues m w s (.work w')) (request : ∀ source, w'.request? source = some q) :
    v.Requests q := ⟨goes.asked?_work.trans (request _), goes.outcome⟩

/-- A call that is over with a lease hands it out. -/
theorem Move.Continues.handsOut {v : Move} {m : Moment} {w : Work} {s : Signal} {y : Handle}
    (goes : v.Continues m w s (.finished (.leased y))) (once : v.before.CallsOnce) :
    v.HandsOut y.name where
  issued := ⟨y, by rw [issued?, goes.outcome]; rfl, rfl⟩
  silent := Option.eq_none_iff_forall_ne_some.2 fun q asked => by
    obtain ⟨w', same, -⟩ := goes.exists_work once asked
    cases same

/-- A connection that has answered the query and leaves something uncommitted is rolled back. -/
theorem Turn.rollsBack_of_answered {t t' : Turn} {id : CallId} {m : Moment} {a : Acquisition}
    {e : Entry} {k : Checkup} (probing : k.phase = .probing)
    (uncommitted : m.isAutoCommit k.physical = false)
    (h : t.advanceWork id m (.examine a e k) (.answered (.ok ())) = some t') :
    t'.pool.holder = some (id, .examine a e { k with phase := .rollingBack }) := by
  obtain ⟨physical, query, startedAt, phase⟩ := k
  obtain rfl : phase = .probing := probing
  cases h
  simp only [afterCheckup, Checkup.resume, uncommitted, Bool.false_eq_true, if_false]
  rfl

namespace Run

/-- Where the call `i` stands that has tried the candidate `o`, and what its turns since then have
    been, the latest first. -/
inductive Tracks (p : Pool) (i : CallId) (o : ConnectionId × Physical) (query : String)
    (turns : List Move) : Prop
  /-- The trial goes on. -/
  | tries {a : Acquisition} {e : Entry} {k : Checkup} (holds : p.holder = some (i, .examine a e k))
      (name : e.name = o) (physical : k.physical = o.2) (same : k.query = query)
      (trial : Trial o query turns k.phase.standing) : Tracks p i o query turns
  | prepares {a : Acquisition} {e : Entry} (holds : p.holder = some (i, .prepare a e))
      (name : e.name = o) (trial : Trial o query turns .preparing) : Tracks p i o query turns
  | ended (gone : i ∉ p.calls) (given : i < p.nextCall) (trial : Trial o query turns .handedOut) :
      Tracks p i o query turns
  | dropped {u : Move} {before : List Move} {standing : Standing} (gone : i ∉ p.calls)
      (given : i < p.nextCall) (event : u.event = .drop i) (last : turns = u :: before)
      (trial : Trial o query before standing) : Tracks p i o query turns
  | rejected {after before : List Move} (without : p.custody.Without o.1)
      (split : turns = after ++ before) (trial : Trial o query before .rejected) :
      Tracks p i o query turns

variable {id : PoolId} {source : DataSource} {policy : Policy} {r : Run} {e : Event} {t : Turn}
  {o : ConnectionId × Physical} {query : String} {turns : List Move} {m : Moment} {w : Work}
  {s : Signal} {x : Ending} {a : Acquisition} {c : Entry} {k : Checkup} {i : CallId}

namespace Of

/-- An acquisition that refuses what it has in hand rejects it, and fails only if it has rejected
    too many. -/
theorem refuses (h : Of (.opened id source policy) r) (ht : r.pool.respond e = some t)
    (goes : Move.Continues ⟨r.pool, e, t⟩ m w s x) (acquires : w.acquisition? = some a)
    (held : w.hand.held = [c]) (none_come : r.pool.candidates m w s = []) {b b' : Books}
    (refuses : a.Refuses m c b b' x) : Move.Refuses ⟨r.pool, e, t⟩ c.name := by
  -- What is in hand and no longer kept or handed out is what the turn rejects.
  have accounts := h.accounts ht goes acquires
  have candidates : Move.candidates ⟨r.pool, e, t⟩ = [] := goes.candidates_eq.trans none_come
  dsimp only at accounts
  rw [candidates, held] at accounts
  have outcome : t.outcome = x.outcome? := goes.outcome
  have rejected (nothing : x.hand.held ++ x.leased = []) :
      Move.rejected ⟨r.pool, e, t⟩ = [c.name] := by
    rw [nothing, List.map_nil, List.append_nil] at accounts
    exact (List.singleton_perm.1 accounts).symm
  have asks {q : Request} (asked : Move.asked? ⟨r.pool, e, t⟩ = some q) :
      ∃ w', x = .work w' ∧ w'.request? t.pool.books.source = some q :=
    goes.exists_work h.callsOnce asked
  cases refuses with
  | gone closed retries =>
    refine ⟨rejected (by rw [retries.held_eq_nil, retries.leased, List.append_nil]), ?_, ?_⟩
    · cases retries with
      | again tolerated => exact .inl outcome
      | giveUp exceeded => exact .inr outcome
    · intro q asked
      obtain ⟨w', rfl, request⟩ := asks asked
      cases retries
      cases request
  | discard is_open =>
    refine ⟨rejected rfl, .inl outcome, fun q asked => ?_⟩
    obtain ⟨w', same, request⟩ := asks asked
    cases same
    exact (Option.some.inj request).symm

/-- What has been rejected is in no place any more. -/
theorem without_of_refuses (h : Of (.opened id source policy) r) (ht : r.pool.respond e = some t)
    (refuses : Move.Refuses ⟨r.pool, e, t⟩ o) : t.pool.custody.Without o.1 :=
  h.without_of_discarded ht
    ((Move.rejected_sublist _).subset (refuses.rejected ▸ List.mem_singleton_self o))

/-- A trial that waits for an answer goes on when that is there. -/
theorem tracks_of_examine (h : Of (.opened id source policy) r) (ht : r.pool.respond e = some t)
    (goes : Move.Continues ⟨r.pool, e, t⟩ m (.examine a c k) s x) (name : c.name = o)
    (physical : k.physical = o.2) (same : k.query = query)
    (trial : Trial o query turns k.phase.standing) :
    Tracks t.pool (Move.caller ⟨r.pool, e, t⟩) o query (⟨r.pool, e, t⟩ :: turns) := by
  obtain ⟨c', query', startedAt, phase⟩ := k
  obtain rfl : c' = o.2 := physical
  obtain rfl : query' = query := same
  obtain rfl : c.name = o := name
  have sequel : r.pool.Sequel m _ s t.pool.books x := goes.sequel
  have moment := goes.moment?_eq
  have learns {result : Except PoolError Unit} (answered : s = .answered result) {q : Request}
      (asked : phase.standing.request? c.name.2 query' = some q) :
      Move.learns? ⟨r.pool, e, t⟩ = some (q, result) := by
    subst answered
    rw [goes.learns?_answered, Work.request?_examine, asked]
    rfl
  have given : Move.caller ⟨r.pool, e, t⟩ < t.pool.nextCall :=
    (h.move ht).caller_lt List.mem_cons_self
  -- A test that is not closing the connection waits for the answer to a request.
  have tested (testing : ∀ cause, phase ≠ .closing cause) :
      (phase.standing = .probing ∨ phase.standing = .undoing) ∧
        ∃ q, phase.standing.request? c.name.2 query' = some q := by
    cases phase with
    | probing => exact ⟨.inl rfl, _, rfl⟩
    | rollingBack => exact ⟨.inr rfl, _, rfl⟩
    | closing cause => exact absurd rfl (testing cause)
  generalize t.pool.books = b at sequel
  cases sequel with
  | probed probing uncommitted =>
    obtain rfl : phase = .probing := probing
    exact .tries goes.holder_work rfl rfl rfl
      (.undoes trial (learns rfl rfl) moment uncommitted (goes.requests fun _ => rfl))
  | failing testing =>
    obtain ⟨stands, q, asked⟩ := tested testing
    exact .tries goes.holder_work rfl rfl rfl
      (.fails trial stands asked (learns rfl asked) (goes.requests fun _ => rfl))
  | passed testing accepts =>
    obtain ⟨stands, q, asked⟩ := tested testing
    cases accepts with
    | lease pool commits =>
      exact .ended (goes.not_mem_calls h.callsOnce rfl) given
        (.accepts trial stands asked (learns rfl asked) moment commits
          (goes.handsOut h.callsOnce))
    | prepare uncommitted =>
      cases phase with
      | probing =>
        have undoes : (Move.after ⟨r.pool, e, t⟩).holder = _ :=
          Turn.rollsBack_of_answered rfl uncommitted (goes.advanceWork ht)
        cases goes.holder_work.symm.trans undoes
      | rollingBack =>
        exact .prepares goes.holder_work rfl
          (.prepares trial (learns rfl rfl) moment uncommitted (goes.requests fun _ => rfl))
      | closing cause => exact absurd rfl (testing cause)
  | failed closing refuses =>
    obtain rfl : phase = .closing _ := closing
    have refused := h.refuses ht goes rfl rfl rfl refuses
    exact .rejected (h.without_of_refuses ht refused) (List.nil_append _).symm
      (.refuses trial (learns rfl rfl) refused)

/-- A candidate that has passed its test is handed out, or rejected. -/
theorem tracks_of_prepare (h : Of (.opened id source policy) r) (ht : r.pool.respond e = some t)
    (goes : Move.Continues ⟨r.pool, e, t⟩ m (.prepare a c) s x) (name : c.name = o)
    (trial : Trial o query turns .preparing) :
    Tracks t.pool (Move.caller ⟨r.pool, e, t⟩) o query (⟨r.pool, e, t⟩ :: turns) := by
  subst name
  have sequel : r.pool.Sequel m (.prepare a c) s t.pool.books x := goes.sequel
  generalize t.pool.books = b at sequel
  cases sequel with
  | prepared pool =>
    exact .ended (goes.not_mem_calls h.callsOnce rfl) ((h.move ht).caller_lt List.mem_cons_self)
      (.handsOut trial goes.learns?_answered (goes.handsOut h.callsOnce))
  | unprepared refuses =>
    have refused := h.refuses ht goes rfl rfl rfl refuses
    exact .rejected (h.without_of_refuses ht refused) (List.nil_append _).symm
      (.unprepared trial goes.learns?_answered refused)

/-- A call that tries a candidate while it holds the lock goes on, or it is dropped, or it is left
    where it is. -/
theorem tracks_of_holder (h : Of (.opened id source policy) r) (ht : r.pool.respond e = some t)
    {standing : Standing} (holds : r.pool.holder = some (i, w))
    (trial : Trial o query turns standing)
    (goesOn : ∀ m s x, Move.Continues ⟨r.pool, e, t⟩ m w s x → Move.caller ⟨r.pool, e, t⟩ = i →
      Tracks t.pool i o query (⟨r.pool, e, t⟩ :: turns))
    (stays : t.pool.holder = some (i, w) → Tracks t.pool i o query turns) :
    Tracks t.pool i o query (turnsOf i [⟨r.pool, e, t⟩] ++ turns) := by
  have responds := Pool.responds_of_respond ht
  -- The turn is one of the call itself, which goes on or is dropped, or it is another's and the
  -- lock stays where it is.
  by_cases own : Move.caller ⟨r.pool, e, t⟩ = i
  · rw [turnsOf_cons_self own]
    cases responds.affects h.callsOnce with
    | goesOn goes =>
      obtain ⟨-, rfl⟩ := Pool.holder_unique goes.holds holds
      exact goesOn _ _ _ goes own
    | dropped event holds' turn =>
      obtain ⟨rfl, rfl⟩ := Pool.holder_unique holds' holds
      subst event turn
      have given := (h.move ht).caller_lt (u := ⟨r.pool, _, _⟩) List.mem_cons_self
      exact .dropped (Pool.not_mem_calls_dropWork h.callsOnce holds) given rfl rfl trial
    | aside other custody holder sleepers => exact absurd holds (own ▸ other w)
  · rw [turnsOf_cons_of_ne own]
    exact stays (responds.aside h.callsOnce holds own).1

/-- Wherever a call stands that has tried a candidate, it stands somewhere after the next turn. -/
theorem tracks_move (h : Of (.opened id source policy) r) (ht : r.pool.respond e = some t)
    (tracks : Tracks r.pool i o query turns) :
    Tracks t.pool i o query (turnsOf i [⟨r.pool, e, t⟩] ++ turns) := by
  have responds := Pool.responds_of_respond ht
  -- The cases are the places at which the call can stand. From the last three it does not come
  -- back.
  cases tracks with
  | tries holds name physical same trial =>
    refine h.tracks_of_holder ht holds trial (fun m s x goes own => ?_) fun held =>
      .tries held name physical same trial
    exact own ▸ h.tracks_of_examine ht goes name physical same trial
  | prepares holds name trial =>
    refine h.tracks_of_holder ht holds trial (fun m s x goes own => ?_) fun held =>
      .prepares held name trial
    exact own ▸ h.tracks_of_prepare ht goes name trial
  | ended gone given trial =>
    obtain ⟨other, gone, given⟩ := responds.gone gone given
    rw [turnsOf_cons_of_ne other]
    exact .ended gone given trial
  | dropped gone given event last trial =>
    obtain ⟨other, gone, given⟩ := responds.gone gone given
    rw [turnsOf_cons_of_ne other]
    exact .dropped gone given event last trial
  | rejected without split trial =>
    subst split
    exact .rejected (Pool.without_of_respond ht without).1 (List.append_assoc _ _ _).symm trial

/-- A call that asks a connection a query has examined a candidate, and begins to try it. -/
theorem tracks_of_asked (h : Of (.opened id source policy) r) (ht : r.pool.respond e = some t)
    {c : Physical} (asked : Move.asked? ⟨r.pool, e, t⟩ = some (.probe c query)) :
    query = r.pool.books.policy.pingQuery ∧ ∃ o used, o.2 = c ∧
      Examination r.moves ⟨r.pool, e, t⟩ o used ∧
        Tracks t.pool (Move.caller ⟨r.pool, e, t⟩) o query [⟨r.pool, e, t⟩] := by
  obtain ⟨same, m, w, s, a, d, k, used, goes, examination, rfl, rfl⟩ := h.tries_of_asked ht asked
  exact ⟨same, d.name, used, rfl, examination,
    .tries goes.holder_work rfl rfl same.symm (.begins ⟨asked, goes.outcome⟩)⟩

/-- It has stood somewhere ever since. -/
theorem tracks (h : Of (.opened id source policy) r) {later before : List Move} {v : Move}
    (split : r.moves = later ++ v :: before) (start : Tracks v.after v.caller o query [v]) :
    Tracks r.pool v.caller o query (turnsOf v.caller (later ++ [v])) := by
  induction h generalizing later with
  | start => simp [Run.start] at split
  | @move r e t h ht ih =>
    rw [moves_move] at split
    cases later with
    | nil =>
      injection split with last
      subst last
      rw [List.nil_append, turnsOf_cons_self rfl]
      exact start
    | cons u later =>
      injection split with last split
      subst last
      have turns : turnsOf v.caller (⟨r.pool, e, t⟩ :: later ++ [v]) =
          turnsOf v.caller [⟨r.pool, e, t⟩] ++ turnsOf v.caller (later ++ [v]) :=
        List.filter_append [_] (later ++ [v])
      rw [turns]
      exact h.tracks_move ht (ih split)

end Of

/-! ## What becomes of the candidate -/

/-- What has become of the trial of a candidate, when the turns of the call since then are these. -/
inductive Tried (p : Pool) (i : CallId) (o : ConnectionId × Physical) (query : String)
    (turns : List Move) : Prop
  /-- These are the turns of the trial. It waits for an answer, or it is over and so is the call. -/
  | course {standing : Standing} (trial : Trial o query turns standing)
      (waits : p.asking? i = standing.request? o.2 query) : Tried p i o query turns
  /-- The call has been dropped meanwhile. -/
  | dropped {u : Move} {before : List Move} {standing : Standing} (event : u.event = .drop i)
      (last : turns = u :: before) (trial : Trial o query before standing) : Tried p i o query turns
  /-- The candidate has been rejected, and the call has gone on since. -/
  | rejected {after before : List Move} (split : turns = after ++ before)
      (trial : Trial o query before .rejected) : Tried p i o query turns

/-- Wherever the call stands, the turns so far are the course of a trial. -/
theorem Tracks.tried {p : Pool} (tracks : Tracks p i o query turns) : Tried p i o query turns := by
  cases tracks with
  | tries holds name physical same trial =>
    refine .course trial ?_
    rw [Pool.asking?_of_holder holds, Work.request?_examine, physical, same]
  | prepares holds name trial =>
    refine .course trial ?_
    subst name
    exact Pool.asking?_of_holder holds
  | ended gone given trial =>
    refine .course trial (Option.eq_none_iff_forall_ne_some.2 fun q asks => ?_)
    exact gone (Pool.mem_calls_of_asking? asks)
  | dropped gone given event last trial => exact .dropped event last trial
  | rejected without split trial => exact .rejected split trial

/-- Whoever examines a candidate has just come to it. -/
theorem Examination.holds {before : List Move} {v : Move} {used : Option Instant}
    (h : Examination before v o used) :
    ∃ w, v.before.holder = some (v.caller, w) ∧ w.stage < 2 := by
  cases h with
  | idle begun acquires front => exact ⟨_, (Move.begun?_eq_some.1 begun).2, by simp⟩
  | overdue begun acquires late commits => exact ⟨_, (Move.begun?_eq_some.1 begun).2, by simp⟩
  | reclaimed holds event => exact ⟨_, holds, by simp⟩
  | opened opened =>
    obtain ⟨s, m, a, lookedAt, -, holds⟩ := Move.exists_of_opened? opened
    exact ⟨_, holds, by simp⟩

/-- It has been somewhere, or it is new. -/
theorem Examination.not_without {before : List Move} {v : Move} {used : Option Instant}
    (h : Examination before v o used) : ¬ v.before.custody.Without o.1 := by
  intro without
  cases h with
  | idle begun acquires front =>
    exact without.absent _ (Custody.mem_present.2 (.inr (.inl (front ▸ List.mem_cons_self)))) rfl
  | overdue begun acquires late commits =>
    exact without.absent _ (Custody.mem_present.2 (.inl (late.front ▸ List.mem_cons_self))) rfl
  | @reclaimed a e lookedAt m result holds event =>
    refine without.absent e (Custody.mem_present.2 (.inr (.inr ?_))) rfl
    rw [Pool.hand_of_holder holds]
    exact List.mem_singleton_self e
  | opened opened => exact Nat.ne_of_lt without.below (Move.number_of_opened? opened)

/-- No call examines a candidate again that it has tried. -/
theorem Tracks.not_examined {v : Move} {before : List Move} {used : Option Instant}
    (tracks : Tracks v.before v.caller o query turns) : ¬ Examination before v o used := by
  intro examination
  obtain ⟨w, holds, early⟩ := examination.holds
  cases tracks with
  | @tries a c k held =>
    obtain ⟨-, rfl⟩ := Pool.holder_unique held holds
    cases phase : k.phase <;> simp [phase] at early
  | prepares held =>
    obtain ⟨-, rfl⟩ := Pool.holder_unique held holds
    simp at early
  | ended gone => exact gone (Pool.mem_calls_of_holder holds)
  | dropped gone => exact gone (Pool.mem_calls_of_holder holds)
  | rejected without => exact examination.not_without without

/-- What is said of the trials of a run. -/
structure ThrottlesProbes (r : Run) : Prop where
  /-- Whatever an acquisition comes to, it examines, or it has it rolled back first. -/
  examines : ∀ later v before o, r.moves = later ++ v :: before → o ∈ v.candidates →
    (∃ used, Examination before v o used) ∨
      ∃ a e lookedAt, v.after.holder = some (v.caller, .reclaim a e lookedAt) ∧ e.name = o
  /-- An acquisition that examines a candidate tries it if and only if the candidate is open and was
      used last too long before the acquisition looked at the books. -/
  tries : ∀ later v before o u, r.moves = later ++ v :: before → Examination before v o (some u) →
    ∃ m lookedAt, v.moment? = some m ∧ lookedAt? v.caller (v :: before) = some lookedAt ∧
      (v.asked? = some (.probe o.2 v.before.books.policy.pingQuery) ↔
        m.isClosed o.2 = false ∧ v.before.books.policy.pingEnabled = true ∧
          ∃ threshold, v.before.books.policy.pingIdleThreshold = some threshold ∧
            threshold < lookedAt.since u)
  /-- It knows when it was used, unless it has opened the candidate itself. -/
  known : ∀ later v before o used, r.moves = later ++ v :: before → Examination before v o used →
    used.isSome ∨ v.opened? = some o
  /-- Such a candidate is not tried, however long it took to open it. -/
  spares : r.Steady → ∀ v ∈ r.moves, ∀ o, v.opened? = some o →
    ∀ c query, v.asked? ≠ some (.probe c query)
  /-- Whatever is asked a query is a candidate that is examined, and what follows is the course of
      its trial. The call does not examine it again. -/
  runs : ∀ later v before c query, r.moves = later ++ v :: before →
    v.asked? = some (.probe c query) → query = v.before.books.policy.pingQuery ∧
      ∃ o used, o.2 = c ∧ Examination before v o used ∧
        Tried r.pool v.caller o query (turnsOf v.caller (later ++ [v])) ∧
        ∀ after u between used, later = after ++ u :: between → u.caller = v.caller →
          ¬ Examination (between ++ v :: before) u o used

end Run

/-- The trials of candidates are throttled, whatever a run consists of. -/
theorem Pool.throttles_probes (id : PoolId) (source : DataSource) (policy : Policy)
    (events : List Event) : ((opened id source policy).run events).ThrottlesProbes := by
  have h := (opened id source policy).of_run events
  generalize (opened id source policy).run events = r at h
  refine ⟨fun later v before o split ho => ?_, fun later v before o u split examination => ?_,
    fun later v before o used split examination => ?_, fun steady v hv o opened c query => ?_,
    fun later v before c query split asked => ?_⟩
  · obtain ⟨p, e, t⟩ := v
    obtain ⟨r₀, h₀, rfl, rfl, ht⟩ := h.cut split
    exact (responds_of_respond ht).examines ho r₀.moves
  · obtain ⟨p, e, t⟩ := v
    obtain ⟨r₀, h₀, rfl, rfl, ht⟩ := h.cut split
    exact h₀.asked?_iff ht examination
  · obtain ⟨p, e, t⟩ := v
    obtain ⟨r₀, h₀, rfl, rfl, ht⟩ := h.cut split
    obtain ⟨m, w, s, x, a, d, lookedAt, -, -, -, -, last⟩ := h₀.inspects ht examination
    obtain rfl | ⟨-, opened, -⟩ := last
    · exact .inl rfl
    · exact .inr opened
  · obtain ⟨later, before, split⟩ := List.append_of_mem hv
    obtain ⟨r₀, h₀, ht, same, -, moves⟩ := h.exists_upto split
    rw [same] at opened ⊢
    exact h₀.not_asked_of_opened (Run.steady_of_append steady moves) ht opened
  · obtain ⟨p, e, t⟩ := v
    obtain ⟨r₀, h₀, rfl, rfl, ht⟩ := h.cut split
    obtain ⟨same, o, used, physical, examination, start⟩ := h₀.tracks_of_asked ht asked
    refine ⟨same, o, used, physical, examination, (h.tracks split start).tried, ?_⟩
    rintro after u between used' rfl own
    rw [List.append_assoc, List.cons_append] at split
    obtain ⟨r₁, h₁, moves, pool, -⟩ := h.cut split
    have tracks := h₁.tracks moves start
    rw [pool, ← own] at tracks
    exact tracks.not_examined

/-! ## A connection that is used again -/

/-- A connection is tried when it has not been used for more than five milliseconds. -/
def Policy.probing : Policy :=
  { Policy.single with maxIdle := 1, pingEnabled := true, pingIdleThresholdMs := some 5 }

/-- The first connection is given back after two milliseconds, and has been rolled back after four.
    After some time, it is looked for again. -/
def Event.reuse (ms : Nat) : List Event :=
  firstLease ++
    [.start (.release .first) (.plain 2 false), .resume 1 .proceed (.plain 2 false),
      .resume 1 (.answered (.ok ())) (.plain 4 false),
      .start (.acquire .dataSource none) (.plain ms false), .resume 2 .proceed (.plain ms false)]

/-- Five milliseconds since it was given back are not too long. Six are, though it was rolled back
    only four milliseconds ago. -/
example :
    let asked ms := ((Pool.opened 0 {} .probing).run (Event.reuse ms)).moves.head?.bind Move.asked?
    (asked 7).any (· matches .probe _ _) = false ∧ (asked 8).any (· matches .probe _ _) = true := by
  decide +kernel

end LeasePool
