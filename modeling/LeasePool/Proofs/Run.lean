import LeasePool.Pool.Step

/-!
# Runs

A pool takes one turn for each *event*: a call begins, a call in progress learns something, or
its caller drops it. An event that is not possible where the pool stands makes no turn.

A *run* is what a list of events makes of a pool, with a record of every turn, its *moves*. The
list decides which call goes on next, what the factory and the connections answer and how long
that takes, and where a call is dropped, so the lists of events are all interleavings of all
calls with all behaviours of the connections.

* `Run.follow_induction`: what every move keeps holds at the end of a run;
* `Run.Of`: the runs of a pool, turn by turn, for inductions that go over several such facts;
* `Run.Of.since`: what every move keeps holds from the move on after which it held;
* `Run.issued`, `Run.opened`: the handles a run has handed out, and the connections it has opened.
-/

namespace LeasePool

/-- What makes a pool take a turn. -/
inductive Event where
  /-- A call begins. -/
  | start (op : Op) (m : Moment)
  /-- A call in progress learns something. -/
  | resume (id : CallId) (s : Signal) (m : Moment)
  /-- A call in progress is dropped. -/
  | drop (id : CallId)

/-- Whether an event drops a call. -/
def Event.isDrop : Event → Bool
  | drop _ => true
  | _ => false

/-- The turn that an event makes a pool take, if it is possible where the pool stands. -/
def Pool.respond (p : Pool) : Event → Option Turn
  | .start op m => some (p.start op m).2
  | .resume id s m => p.resume id s m
  | .drop id => p.drop id

/-- The handle that is given out at the end of a call. -/
def Outcome.handle? : Outcome → Option Handle
  | leased h => some h
  | _ => none

/-- The connection that work receives from the factory when it learns something. -/
def Work.received? : Work → Signal → Option Physical
  | .connect _ _, .connected (.ok physical) => some physical
  | _, _ => none

/-- A turn that a pool has taken. -/
structure Move where
  before : Pool
  event : Event
  turn : Turn

namespace Move

variable (v : Move)

/-- The pool after the turn. -/
def after : Pool := v.turn.pool

/-- The call whose turn it was. -/
def caller : CallId :=
  match v.event with
  | .start _ _ => v.before.nextCall
  | .resume id _ _ => id
  | .drop id => id

/-- The handle that was handed out in the turn, if one was. -/
def issued? : Option Handle := v.turn.outcome.bind Outcome.handle?

/-- The connection that the factory gave to the pool in the turn, if it did, with the number
    under which the pool knows it. -/
def opened? : Option (ConnectionId × Physical) :=
  match v.event, v.before.holder with
  | .resume id s _, some (holder, w) =>
    if holder = id then (w.received? s).map fun physical => (v.before.nextConnection, physical)
    else none
  | _, _ => none

variable {v}

/-- A connection is opened in a turn of the call that has asked for it. -/
theorem exists_of_opened? {o : ConnectionId × Physical} (h : v.opened? = some o) :
    ∃ s m a lookedAt, v.event = .resume v.caller s m ∧
      v.before.holder = some (v.caller, .connect a lookedAt) := by
  obtain ⟨p, e, t⟩ := v
  unfold opened? at h
  split at h
  · next i s m holder w event holds =>
    obtain rfl : e = .resume i s m := event
    split at h
    · next same =>
      subst same
      obtain ⟨c, received, -⟩ := Option.map_eq_some_iff.1 h
      unfold Work.received? at received
      split at received
      · exact ⟨_, m, _, _, rfl, holds⟩
      · cases received
    · cases h
  · cases h

end Move

/-- A run: where the pool stands, and its moves so far, the latest first. -/
structure Run where
  pool : Pool
  moves : List Move

namespace Run

/-- The run in which nothing has happened yet. -/
def start (p : Pool) : Run := ⟨p, []⟩

variable (r : Run)

/-- The run with one more move. -/
def move (e : Event) (t : Turn) : Run := ⟨t.pool, ⟨r.pool, e, t⟩ :: r.moves⟩

/-- The run after an event. -/
def extend (e : Event) : Run :=
  match r.pool.respond e with
  | some t => r.move e t
  | none => r

/-- The run after several events. -/
def follow (events : List Event) : Run := events.foldl extend r

/-- The handles that have been handed out, the latest first. -/
def issued : List Handle := r.moves.filterMap Move.issued?

/-- The connections that have been opened, with their numbers, the latest first. -/
def opened : List (ConnectionId × Physical) := r.moves.filterMap Move.opened?

variable {r}

@[simp] theorem pool_move (e : Event) (t : Turn) : (r.move e t).pool = t.pool := rfl

@[simp] theorem moves_move (e : Event) (t : Turn) :
    (r.move e t).moves = ⟨r.pool, e, t⟩ :: r.moves := rfl

theorem opened_move (r : Run) (e : Event) (t : Turn) :
    (r.move e t).opened = (Move.opened? ⟨r.pool, e, t⟩).toList ++ r.opened := by
  rw [opened, moves_move]
  cases h : Move.opened? ⟨r.pool, e, t⟩ <;> simp [opened, h]

theorem issued_move (r : Run) (e : Event) (t : Turn) :
    (r.move e t).issued = (Move.issued? ⟨r.pool, e, t⟩).toList ++ r.issued := by
  rw [issued, moves_move]
  cases h : Move.issued? ⟨r.pool, e, t⟩ <;> simp [issued, h]

/-- What every move keeps holds at the end of a run, if it held at its start. -/
theorem follow_induction {I : Run → Prop} (start : I r)
    (step : ∀ r e t, I r → r.pool.respond e = some t → I (r.move e t)) (events : List Event) :
    I (r.follow events) := by
  induction events generalizing r with
  | nil => exact start
  | cons e events ih =>
    refine ih ?_
    rw [extend]
    split
    · next t h => exact step r e t start h
    · exact start

/-- A move from a certain one on splits the moves, and the certain one is not after it. -/
theorem exists_split (before : List Move) {later : List Move} {u v : Move}
    (hu : u ∈ later ++ [v]) :
    ∃ after between rest, later ++ v :: before = after ++ u :: rest ∧
      u :: rest = between ++ v :: before ∧ ∀ x ∈ after, x ∈ later := by
  induction later with
  | nil =>
    obtain rfl := List.mem_singleton.1 hu
    exact ⟨[], [], before, rfl, rfl, fun x hx => absurd hx List.not_mem_nil⟩
  | cons w later ih =>
    rcases List.mem_cons.1 hu with rfl | hu
    · exact ⟨[], u :: later, later ++ v :: before, rfl, rfl, fun x hx => absurd hx List.not_mem_nil⟩
    · obtain ⟨after, between, rest, split, rest_eq, sub⟩ := ih hu
      refine ⟨w :: after, between, rest, congrArg (w :: ·) split, rest_eq, ?_⟩
      rw [List.forall_mem_cons]
      exact ⟨List.mem_cons_self, fun x hx => List.mem_cons_of_mem _ (sub x hx)⟩

/-- The runs of a pool, turn by turn. -/
inductive Of (p : Pool) : Run → Prop
  | start : Of p (.start p)
  | move {r : Run} {e : Event} {t : Turn} (before : Of p r) (responds : r.pool.respond e = some t) :
      Of p (r.move e t)

namespace Of

variable {p : Pool}

theorem follow (h : Of p r) (events : List Event) : Of p (r.follow events) :=
  follow_induction h (fun _ _ _ h ht => h.move ht) events

/-- Every move of a run has been made at the end of a shorter run. -/
theorem cut (h : Of p r) {later before : List Move} {v : Move}
    (split : r.moves = later ++ v :: before) :
    ∃ r₀, Of p r₀ ∧ r₀.moves = before ∧ r₀.pool = v.before ∧
      v.before.respond v.event = some v.turn := by
  induction h generalizing later with
  | start => simp [Run.start] at split
  | @move r e t h ht ih =>
    rw [moves_move] at split
    cases later with
    | nil =>
      injection split with last before
      subst last
      exact ⟨r, h, before, rfl, ht⟩
    | cons u later =>
      injection split with _ split
      exact ih split

theorem exists_before (h : Of p r) {v : Move} (hv : v ∈ r.moves) :
    ∃ r₀, Of p r₀ ∧ r₀.pool = v.before ∧ v.before.respond v.event = some v.turn := by
  obtain ⟨later, before, split⟩ := List.append_of_mem hv
  obtain ⟨r₀, h₀, -, pool, ht⟩ := h.cut split
  exact ⟨r₀, h₀, pool, ht⟩

/-- A run up to one of its moves. -/
theorem exists_upto (h : Of p r) {later before : List Move} {v : Move}
    (split : r.moves = later ++ v :: before) :
    ∃ r₀, Of p r₀ ∧ r₀.pool.respond v.event = some v.turn ∧ v = ⟨r₀.pool, v.event, v.turn⟩ ∧
      r₀.moves = before ∧ r.moves = later ++ (r₀.move v.event v.turn).moves := by
  obtain ⟨r₀, h₀, moves, pool, ht⟩ := h.cut split
  refine ⟨r₀, h₀, pool ▸ ht, by rw [pool], moves, ?_⟩
  rw [split, moves_move, moves, pool]

/-- A run up to one of its moves, from a certain one on. -/
theorem upto (h : Of p r) {later before : List Move} {u v : Move}
    (split : r.moves = later ++ v :: before) (hu : u ∈ later ++ [v]) :
    ∃ r₀ after between, Of p r₀ ∧ r₀.pool.respond u.event = some u.turn ∧
      u = ⟨r₀.pool, u.event, u.turn⟩ ∧ r.moves = after ++ (r₀.move u.event u.turn).moves ∧
      (r₀.move u.event u.turn).moves = between ++ v :: before ∧ ∀ x ∈ after, x ∈ later := by
  obtain ⟨after, between, rest, split', rest_eq, sub⟩ := exists_split before hu
  obtain ⟨r₀, h₀, ht, hu, rfl, moves⟩ := h.exists_upto (split.trans split')
  refine ⟨r₀, after, between, h₀, ht, hu, moves, ?_, sub⟩
  rw [moves_move, ← hu, rest_eq]

/-- What is true after a certain move, and is kept by every later one, is true at the end. -/
theorem since {I : Run → Prop} (h : Of p r) {later before : List Move} {v : Move}
    (split : r.moves = later ++ v :: before)
    (start : ∀ r₀, Of p r₀ → r₀.pool.respond v.event = some v.turn →
      v = ⟨r₀.pool, v.event, v.turn⟩ → r₀.moves = before → I (r₀.move v.event v.turn))
    (step : ∀ r₀ e t, Of p r₀ → r₀.pool.respond e = some t → I r₀ → I (r₀.move e t)) : I r := by
  -- The induction is on the run. The move in question is its last one, or it is among the earlier
  -- ones.
  induction h generalizing later with
  | start => simp [Run.start] at split
  | @move r e t h ht ih =>
    rw [moves_move] at split
    cases later with
    | nil =>
      injection split with last before
      subst last
      exact start r h ht rfl before
    | cons u later =>
      injection split with _ split
      exact step r e t h ht (ih split)

end Of

end Run

/-- The run of a pool after several events. -/
def Pool.run (p : Pool) (events : List Event) : Run := (Run.start p).follow events

theorem Pool.of_run (p : Pool) (events : List Event) : Run.Of p (p.run events) :=
  Run.Of.start.follow events

/-! ## A pool with a single place -/

/-- The policy of a pool with a place for a single connection, which may be reclaimed after ten
    milliseconds. Callers wait without a limit, and give up at the first bad connection. -/
def Policy.single : Policy where
  maxActive := 1
  maxIdle := 0
  maxCheckoutMs := 10
  maxWaitMs := 0
  badConnectionTolerance := 0

/-- A moment, some milliseconds after the start, at which no connection commits on its own and
    all are closed, or all are open. -/
def Moment.plain (ms : Nat) (closed : Bool) : Moment where
  now := ⟨1000000 * ms⟩
  isClosed _ := closed
  isAutoCommit _ := false

namespace Event

/-- The first call opens a connection, and it is handed out. -/
def firstLease : List Event :=
  [.start (.acquire .dataSource none) (.plain 0 false), .resume 0 .proceed (.plain 0 false),
    .resume 0 (.connected (.ok ⟨0⟩)) (.plain 0 false),
    .resume 0 (.answered (.ok ())) (.plain 0 false)]

/-- A call finds the lease of another overdue, and begins to reclaim it. -/
def beginReclaim (id : CallId) : List Event :=
  [.start (.acquire .dataSource none) (.plain 20 false), .resume id .proceed (.plain 20 false)]

/-- A call begins to close all connections. -/
def beginReset (id : CallId) : List Event :=
  [.start (.reset .closeAll) (.plain 20 false), .resume id .proceed (.plain 20 false)]

end Event

end LeasePool
