import LeasePool.Pool.Turn.Acquire
import LeasePool.Pool.Turn.Reset
import LeasePool.Pool.Turn.Return

/-!
# Steps of calls

A pool changes in three ways: a call begins (`Pool.start`), a call in progress
learns something and goes on (`Pool.resume`), or a call in progress is dropped by
its caller (`Pool.drop`). Each of them is a single turn. A turn runs from
one moment at which the call may have to wait to the next, so whatever happens in
between two turns of a call is up to the other calls.

Going on and dropping are possible only where the call is; otherwise there is no
turn.

The deadline of an acquisition is the instant at which it begins, and its timeout
after that. Instants have no upper bound here, so a timeout for which a clock has
no such instant is left out.
-/

namespace LeasePool

namespace Turn

variable (t : Turn) (id : CallId) (m : Moment)

/-- An inquiry is answered. -/
def inquire (q : Inquiry) : Turn :=
  match q with
  | .policy => t.unlock.finish (.policy t.pool.books.policy)
  | .source => t.unlock.finish (.source t.pool.books.source)
  | .snapshot => t.unlock.finish (.snapshot t.pool.snapshot)
  | .tolerate n =>
    let policy := t.pool.books.policy.apply (.badConnectionTolerance n)
    (t.setBooks { t.pool.books with policy := policy }).unlock.finish .done

/-- The call that holds the lock begins to do what it intended. -/
def begin (intent : Intent) : Turn :=
  match intent with
  | .acquire a => t.look id m a
  | .awaken a asleepSince => t.awaken id m a asleepSince
  | .release h => t.release id m h
  | .reset r => t.reset id m r
  | .inquire q => t.inquire q

/-- The work of the call that holds the lock goes on with what it learns, if
    that is what it waits for. -/
def advanceWork (w : Work) (s : Signal) : Option Turn :=
  match w, s with
  | .begin intent, .proceed => some (t.begin id m intent)
  | .connect a lookedAt, .connected result => some (t.afterConnect id m a lookedAt result)
  | .reclaim a e lookedAt, .answered result => some (t.afterReclaim id m a e lookedAt result)
  | .examine a e p, .answered result => some (t.afterCheckup id m a e (p.resume result m))
  | .prepare a e, .answered result => some (t.afterPrepare id m a e result)
  | .discard a _, .answered _ => some (t.afterRejection id a)
  | .undo e keep returnedAt, .answered result => some (t.afterUndo id e keep returnedAt result)
  | .close e cause, .answered result => some (t.afterClose e cause result)
  | .resetUndo e rest, .answered _ => some (t.work id (.resetClose e rest))
  | .resetClose _ rest, .answered _ => some (t.closeEach id m rest)
  | _, _ => none

/-- A roused caller asks for the lock again. -/
def relock (s : Sleeper) : Turn := t.lock s.id (.awaken s.acquisition s.asleepSince)

/-- An errand goes on with what it learns, if that is what it waits for. -/
def advanceErrand (e : Errand) (s : Signal) : Option Turn :=
  let ended : Turn :=
    { t with pool := { t.pool with errands := t.pool.errands.filter fun q => q.1 != id } }
  match e, s with
  | .discard physical false, .proceed => some (t.errand id (.discard physical true))
  | .discard _ true, .answered _ => some (ended.finish .done)
  | .ofHandle _, .answered (.ok ()) => some (ended.finish .done)
  | .ofHandle _, .answered (.error problem) => some (ended.finish (.failed problem))
  | _, _ => none

/-- The work of the call that holds the lock is dropped. -/
def dropWork (w : Work) : Turn :=
  match w with
  | .begin (.awaken _ _) => t.stopWaiting.unlock
  | .reclaim _ e _ => t.abandon e
  | .examine _ e _ => t.abandon e
  | .prepare _ e => t.abandon e
  | _ => t.unlock

/-- A call that was queued for the lock is dropped. -/
def dropQueued (intent : Intent) : Turn :=
  let t := { t with pool := { t.pool with queue := t.pool.queue.filter fun q => q.1 != id } }
  match intent with
  | .awaken _ _ => t.stopWaiting
  | _ => t

end Turn

namespace Pool

variable (p : Pool)

/-- A request through a handle, which must be valid. -/
def startErrand (id : CallId) (h : Handle) (request : Request) : Turn :=
  if h.isValid p.generations then p.turn.errand id (.ofHandle request)
  else p.turn.finish (.failed .invalidConnection)

/-- A reset begins. A new policy is examined before the lock is asked for. -/
def startReset (id : CallId) (r : Reset) : Turn :=
  let t := match r.operation? with
    | some operation => p.turn.tell (.begins operation)
    | none => p.turn
  match r with
  | .replace policy =>
    match policy.validate with
    | .ok () => t.lock id (.reset r)
    | .error e => t.finish (.failed e)
  | _ => t.lock id (.reset r)

/-- A call begins; it gets the next number. Every timeout is taken to end at some
    instant. -/
def start (op : Op) (m : Moment) : CallId × Turn :=
  let id := p.nextCall
  let p := { p with nextCall := id + 1 }
  (id, match op with
    | .acquire login timeout =>
      p.turn.lock id (.acquire
        { login := login, deadline := timeout.map m.now.after, startedAt := m.now })
    | .release h =>
      if h.pool = p.id then p.turn.lock id (.release h)
      else p.turn.finish (.failed .foreignHandle)
    | .reset r => p.startReset id r
    | .inquire q => p.turn.lock id (.inquire q)
    | .probe h query => p.startErrand id h (.probe h.physical query)
    | .rollback h => p.startErrand id h (.rollback h.physical))

/-- Whether a sleeper has slept as long as it wanted to. -/
def isOver (s : Sleeper) (now : Instant) : Bool :=
  match s.limit with
  | some limit => decide (s.asleepSince.after limit ≤ now)
  | none => false

/-- A call that does not hold the lock goes on. -/
def resumeElsewhere (id : CallId) (s : Signal) (m : Moment) : Option Turn :=
  match s, p.roused.find? fun s => s.id == id, p.sleepers.find? fun s => s.id == id with
  | .proceed, some sleeper, _ =>
    some (Turn.relock { p with roused := p.roused.filter fun s => s.id != id }.turn sleeper)
  | .timeUp, _, some sleeper =>
    if isOver sleeper m.now then
      some (Turn.relock { p with sleepers := p.sleepers.filter fun s => s.id != id }.turn sleeper)
    else none
  | s, _, _ =>
    match p.errands.lookup id with
    | some e => p.turn.advanceErrand id e s
    | none => none

/-- A call in progress learns something and goes on. -/
def resume (id : CallId) (s : Signal) (m : Moment) : Option Turn :=
  match p.holder with
  | some (holder, w) =>
    if holder = id then p.turn.advanceWork id m w s else p.resumeElsewhere id s m
  | none => p.resumeElsewhere id s m

/-- A call that does not hold the lock is dropped. A call that only closes a
    connection that nobody waits for cannot be. -/
def dropElsewhere (id : CallId) : Option Turn :=
  match p.queue.lookup id with
  | some intent => some (p.turn.dropQueued id intent)
  | none =>
    if (p.sleepers ++ p.roused).any fun s => s.id == id then
      some (Turn.stopWaiting { p with
        sleepers := p.sleepers.filter fun s => s.id != id
        roused := p.roused.filter fun s => s.id != id }.turn)
    else
      match p.errands.lookup id with
      | some (.ofHandle _) =>
        some { p with errands := p.errands.filter fun q => q.1 != id }.turn
      | _ => none

/-- A call in progress is dropped by its caller. -/
def drop (id : CallId) : Option Turn :=
  match p.holder with
  | some (holder, w) => if holder = id then some (p.turn.dropWork w) else p.dropElsewhere id
  | none => p.dropElsewhere id

end Pool

end LeasePool
