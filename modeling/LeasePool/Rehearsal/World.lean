import LeasePool.Pool.Step
import LeasePool.Rehearsal.Script

/-!
# The world of a rehearsal

Pools and scripted connections on one thread with a clock of its own. Calls that
can go on stand in a queue and run in its order, each until it has to wait. A call
waits for a connection that takes its time, for the lock of its pool, or for a
connection to be returned. Time passes only when no call can go on; then the
clock jumps to the next moment at which one can.

When a call can go on by the clock alone is read off the state: the requests in
progress are due at a known time, and so are the sleepers of the pools.
-/

namespace LeasePool.Rehearsal

/-- A call of one of the pools. -/
structure CallKey where
  pool : PoolId
  call : CallId
  deriving DecidableEq

/-- A request that a call has made and that has not been answered. -/
structure InProgress where
  key : CallKey
  /-- When it will be answered. -/
  due : Instant
  request : Request
  /-- The behaviour of the connection that is being opened. -/
  behaviour : Behaviour

/-- A call on behalf of the script. -/
structure Job where
  key : CallKey
  /-- The name of a background action. -/
  name : Option String
  /-- The name under which a handle is kept. -/
  handle : Option String

/-- The state of a rehearsal. -/
structure World where
  now : Instant := ⟨0⟩
  pools : Array Pool := #[]
  /-- The pools by the numbers that the script uses. -/
  numbered : Array PoolId := #[]
  factory : Factory := {}
  /-- The connections that have been opened. -/
  connections : Array Behaviour := #[]
  handles : List (String × Handle) := []
  /-- The calls that can go on. -/
  ready : List CallKey := []
  inProgress : List InProgress := []
  jobs : List Job := []
  /-- The background actions by their names, the latest first. -/
  named : List (String × CallKey) := []
  /-- The reply to the call that the script waits for. -/
  reply : Option Reply := none
  /-- Whether notices are reported. -/
  tracing : Bool := false
  /-- What has happened since the last report, the latest first. -/
  events : List (Instant × Event) := []

namespace World

variable (w : World)

/-- Something happens now. -/
def note (e : Event) : World := { w with events := (w.now, e) :: w.events }

/-- What can be read without waiting. -/
def moment : Moment where
  now := w.now
  isClosed c := (w.connections[c.number]?.map Behaviour.closed).getD false
  isAutoCommit c := (w.connections[c.number]?.map Behaviour.isAutoCommit).getD false

/-- A call can go on. -/
def wake (key : CallKey) : World :=
  if w.ready.contains key then w else { w with ready := w.ready ++ [key] }

/-- The inspection of a handle. -/
def inspect (h : Handle) : Inspection :=
  let g := match w.pools[h.pool]? with
    | some p => p.generations
    | none => .initial
  { handle := h
    isValid := h.isValid g
    isClosed := h.isClosed g w.moment
    isAutoCommit := h.isAutoCommit g w.moment
    checkoutTime := h.checkoutTime w.now
    idleTime := h.idleTime w.now
    text := h.inspection g }

/-- An action of the script ends. -/
def answer (name : Option String) (r : Reply) : World :=
  match name with
  | some name => w.note (.finished name r)
  | none => { w with reply := some r }

/-- A call ends. A handle that it was given is kept under its name. -/
def finish (key : CallKey) (o : Outcome) : World :=
  match w.jobs.find? fun j => j.key == key with
  | none => w
  | some job =>
    let handles := match o, job.handle with
      | .leased h, some name => (name, h) :: w.handles.filter fun e => e.1 != name
      | _, _ => w.handles
    let reply := match o with
      | .done => Reply.done
      | o => .outcome o
    let jobs := w.jobs.filter fun j => j.key != key
    { w with handles := handles, jobs := jobs }.answer job.name reply

/-- A turn of a call takes effect. -/
def take (key : CallKey) (t : Turn) : World :=
  let w := { w with pools := w.pools.setIfInBounds key.pool t.pool }
  let w := if w.tracing then t.notices.foldl (fun w n => w.note (.notice n)) w else w
  let w := t.woken.foldl (fun w id => w.wake ⟨key.pool, id⟩) w
  match t.outcome with
  | some o => w.finish key o
  | none => w

/-- A call makes a request. -/
def request (key : CallKey) (r : Request) : World × InProgress :=
  let w := w.note (.request r)
  let behaviour (c : Physical) : Behaviour := w.connections[c.number]?.getD {}
  let dueIn (ms : Nat) : Instant := w.now.after (.ofMillis ms)
  match r with
  | .connect _ =>
    let (b, factory) := w.factory.next
    ({ w with factory := factory }, ⟨key, dueIn b.delayConnect, r, b⟩)
  | .rollback c => (w, ⟨key, dueIn (behaviour c).delayRollback, r, {}⟩)
  | .close c => (w, ⟨key, dueIn (behaviour c).delayClose, r, {}⟩)
  | .probe c _ => (w, ⟨key, dueIn (behaviour c).delayProbe, r, {}⟩)

/-- A failure as a result. -/
def resultOf (failure : Option PoolError) : Except PoolError Unit :=
  match failure with
  | some e => .error e
  | none => .ok ()

/-- A request is answered. -/
def respond (q : InProgress) : World × Signal :=
  match q.request with
  | .connect source =>
    match q.behaviour.failConnect with
    | some e => (w, .connected (.error e))
    | none =>
      ({ w with connections := w.connections.push (q.behaviour.openedTo source) },
        .connected (.ok ⟨w.connections.size⟩))
  | .rollback c => (w, .answered (resultOf (w.connections[c.number]? >>= Behaviour.failRollback)))
  | .probe c _ => (w, .answered (resultOf (w.connections[c.number]? >>= Behaviour.failProbe)))
  | .close c =>
    match w.connections[c.number]? with
    | none => (w, .answered (.ok ()))
    | some b =>
      match b.failClose with
      | some e => (w, .answered (.error e))
      | none =>
        ({ w with connections := w.connections.setIfInBounds c.number { b with closed := true } },
          .answered (.ok ()))

/-- A call learns something and goes on. -/
def resume (key : CallKey) (s : Signal) : World :=
  match w.pools[key.pool]? with
  | none => w
  | some p =>
    match p.resume key.call s w.moment with
    | none => w
    | some t => w.take key t

/-- What a call waits for. -/
def awaited? (key : CallKey) : Option Awaited :=
  w.pools[key.pool]?.bind fun p => p.awaited? key.call

/-- A call goes on until it has to wait. -/
def follow : Nat → CallKey → World → World
  | 0, _, w => w
  | fuel + 1, key, w =>
    match w.awaited? key with
    | some .turn => follow fuel key (w.resume key .proceed)
    | some (.answer r) =>
      let (w, q) := w.request key r
      if q.due ≤ w.now then
        let (w, s) := w.respond q
        follow fuel key (w.resume key s)
      else { w with inProgress := w.inProgress ++ [q] }
    | _ => w

/-- How many turns a call may take without waiting, and how many times the clock
    may jump while the script waits. No script comes near it. -/
def turnLimit : Nat := 1000000000000

/-- A call that can go on is run. -/
def run (key : CallKey) : World :=
  match w.awaited? key with
  | some .turn => follow turnLimit key w
  | some (.wakeUp _) => follow turnLimit key (w.resume key .timeUp)
  | some (.answer _) =>
    match w.inProgress.find? fun q => q.key == key && decide (q.due ≤ w.now) with
    | none => w
    | some q =>
      let w := { w with inProgress := w.inProgress.filter fun q => q.key != key }
      let (w, s) := w.respond q
      follow turnLimit key (w.resume key s)
  | _ => w

/-- Every call runs until none can go on. -/
def settle : Nat → World → World
  | 0, w => w
  | fuel + 1, w =>
    match w.ready with
    | [] => w
    | key :: ready => settle fuel ({ w with ready := ready }.run key)

/-- When the sleepers of a pool get up by themselves. -/
def alarmsOf (p : Pool) : List (Instant × CallKey) :=
  p.sleepers.filterMap fun s => s.limit.map fun limit => (s.asleepSince.after limit, ⟨p.id, s.id⟩)

/-- When calls can go on by the clock alone. -/
def alarms : List (Instant × CallKey) :=
  (w.inProgress.map fun q => (q.due, q.key)) ++ w.pools.toList.flatMap alarmsOf

/-- The clock jumps, and the calls that are due can go on. -/
def jump (t : Instant) : World :=
  let w := { w with now := t }
  (w.alarms.filter fun a => decide (a.1 ≤ t)).foldl (fun w a => w.wake a.2) w

/-- The earlier of an optional and a further moment. -/
def earlier (a : Option Instant) (b : Instant) : Option Instant :=
  match a with
  | some a => some (if a ≤ b then a else b)
  | none => some b

/-- Time passes until the script has its reply, or until a given moment. -/
def pass : Nat → Option Instant → World → World
  | 0, _, w => w
  | fuel + 1, limit, w =>
    let w := w.settle turnLimit
    if w.reply.isSome ∨ limit.any (fun t => decide (t ≤ w.now)) then w
    else
      match (w.alarms.map Prod.fst).foldl earlier limit with
      | none => w
      | some t => pass fuel limit (w.jump t)

/-- A call is dropped. -/
def drop (key : CallKey) : World :=
  match w.pools[key.pool]? with
  | none => w
  | some p =>
    match p.drop key.call with
    | none => w
    | some t =>
      { w with
        inProgress := w.inProgress.filter fun q => q.key != key
        jobs := w.jobs.filter fun j => j.key != key }.take key t

end World

end LeasePool.Rehearsal
