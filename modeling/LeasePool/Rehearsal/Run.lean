import LeasePool.Rehearsal.World

/-!
# Running a script

The steps of a script are run one after the other. Before a step is reported,
every call that can go on runs until it has to wait. Main definition:
`Rehearsal.run`, the reports of all steps.
-/

namespace LeasePool.Rehearsal

namespace World

variable (w : World)

/-- A call of a pool begins on behalf of the script. -/
def call (pool : PoolId) (op : Op) (name handle : Option String) : World :=
  match w.pools[pool]? with
  | none => w.answer name .badRequest
  | some p =>
    let (id, t) := p.start op w.moment
    let key : CallKey := ⟨pool, id⟩
    let job : Job := ⟨key, name, handle⟩
    let named := match name with
      | some name => (name, key) :: w.named
      | none => w.named
    let w := { w with jobs := w.jobs ++ [job], named := named }
    follow turnLimit key (w.take key t)

/-- An action on a handle. -/
def withHandle (name : Option String) (handle : String) (act : Handle → World) : World :=
  match w.handles.lookup handle with
  | some h => act h
  | none => w.answer name .noHandle

/-- An action of a step begins. `name` is the name of a background action. -/
def act (pool : PoolId) (name : Option String) (a : Action) : World :=
  match a with
  | .get handle login timeout => w.call pool (.acquire login timeout) name (some handle)
  | .close handle =>
    w.withHandle name handle fun h => w.call h.pool (.release h) name none
  | .release handle => w.withHandle name handle fun h => w.call pool (.release h) name none
  | .probe handle query =>
    w.withHandle name handle fun h => w.call h.pool (.probe h query) name none
  | .rollback handle => w.withHandle name handle fun h => w.call h.pool (.rollback h) name none
  | .inspect handle =>
    w.withHandle name handle fun h => w.answer name (.inspection (w.inspect h))
  | .forget handle =>
    w.withHandle name handle fun _ =>
      { w with handles := w.handles.filter fun e => e.1 != handle }.answer name .done
  | .call op => w.call pool op name none
  | .inspectPool =>
    match w.pools[pool]? with
    | some p => w.answer name (.text p.inspection)
    | none => w.answer name .badRequest
  | .unknown => w.answer name .badRequest

/-- The script waits for the reply to an action, or cancels it. -/
def await (cancelAfter : Option Nat) : World × Reply :=
  let w := pass turnLimit (cancelAfter.map fun ms => w.now.after (.ofMillis ms)) w
  match w.reply with
  | some r => ({ w with reply := none }, r)
  | none =>
    -- The script has only one call of its own.
    match w.jobs.find? fun j => j.name.isNone with
    | some job => (w.drop job.key, if cancelAfter.isSome then .cancelled else .stalled)
    | none => (w, .stalled)

/-- A pool is added, and the script can use its number. -/
def addPool (source : DataSource) (policy : Policy) : World :=
  { w with
    pools := w.pools.push (.opened w.pools.size source policy)
    numbered := w.numbered.push w.pools.size }

/-- A step does what it does. -/
def perform (pool : PoolId) (d : Deed) : World × Reply :=
  match d with
  | .act a (.foreground cancelAfter) => (w.act pool none a).await cancelAfter
  | .act a (.background name) =>
    -- The name does not stand for an earlier action any more.
    let w := { w with named := w.named.filter fun e => e.1 != name }
    (w.act pool (some name) a, .spawned)
  | .sleep ms => (pass turnLimit (some (w.now.after (.ofMillis ms))) w, .done)
  | .factory fallback plan =>
    ({ w with factory := ⟨plan.getD w.factory.plan, fallback.getD w.factory.fallback⟩ }, .done)
  | .connection number traits =>
    match w.connections[number]? with
    | some b =>
      let b := b.applyAll traits
      ({ w with connections := w.connections.setIfInBounds number b }, .done)
    | none => (w, .noConnection)
  | .newPool source policy => (w.addPool source policy, .pool w.numbered.size)
  | .clonePool => ({ w with numbered := w.numbered.push pool }, .pool w.numbered.size)
  | .abort name =>
    match w.named.lookup name with
    | some key => (w.drop key, .done)
    | none => (w, .done)

/-- A step is run and reported; there is no report of a step for a pool that does
    not exist. -/
def step (s : Step) : World × Option Report :=
  match w.numbered[s.pool]? with
  | none => (w, none)
  | some pool =>
    let (w, reply) := w.perform pool s.deed
    let w := w.settle turnLimit
    let snapshot := w.pools[pool]?.bind fun p => if p.isLocked then none else some p.snapshot
    ({ w with events := [] }, some ⟨reply, w.now, w.events.reverse, snapshot⟩)

end World

/-- The reports of the steps of a script. -/
def reports (w : World) : List Step → List (Option Report)
  | [] => []
  | s :: steps =>
    let (w, report) := w.step s
    report :: reports w steps

/-- A rehearsal with one pool: the reports of the steps of a script. -/
def run (source : DataSource) (policy : Policy) (factory : Factory) (tracing : Bool)
    (steps : List Step) : List (Option Report) :=
  let w : World := { factory := factory, tracing := tracing }
  reports (w.addPool source policy) steps

/-- The report of the test of a single connection. -/
structure CheckupReport where
  outcome : Checkup.Outcome
  /-- Whether the connection is closed after the test. -/
  isClosed : Bool
  events : List (Instant × Event)

/-- The test goes on, with the requests it makes, until it ends. It makes at most
    three requests. -/
def followCheckup : Nat → World → Checkup.Turn → World × Checkup.Outcome
  | fuel, w, t =>
    let w := if w.tracing then t.notices.foldl (fun w n => w.note (.notice n)) w else w
    match t.next, fuel with
    | .inl o, _ => (w, o)
    | .inr _, 0 => (w, .skipped)
    | .inr p, fuel + 1 =>
      let (w, q) := w.request ⟨0, 0⟩ p.request
      let (w, s) := { w with now := q.due }.respond q
      match s with
      | .answered result => followCheckup fuel w (p.resume result w.moment)
      | _ => (w, .skipped)

/-- The test of a connection that was unused for a time. -/
def checkup (policy : Policy) (idleFor : Duration) (behaviour : Behaviour) (tracing : Bool) :
    CheckupReport :=
  let w : World := { connections := #[behaviour], tracing := tracing }
  let (w, outcome) := followCheckup 3 w (Checkup.begin policy ⟨0⟩ idleFor w.moment)
  ⟨outcome, w.moment.isClosed ⟨0⟩, w.events.reverse⟩

end LeasePool.Rehearsal
