import LeasePool.Proofs.Turns

/-!
# What events do

An event concerns the call that holds the lock, or a call that is somewhere else: it begins, it
sleeps or has been roused, it is queued for the lock, or it runs an errand (`Pool.Responds`).
Only a turn of the holder of the lock does anything to the connections. When the holder is
dropped, it gives up its hand (`Work.dropped?`).

* `Pool.responds_of_respond`: every turn of a pool is one of these;
* `Move.exists_doneBy`: every turn leads by deeds from the custody before it to the custody
  after it, and nothing in hand is lost unless a release or a reset is dropped at its work;
* `Run.exists_doneBy`: so does every run, which is how a property of the connections that every
  deed keeps is seen to hold in every run.
-/

namespace LeasePool

/-- How a call that holds the lock gives up its hand when it is dropped: the candidate of an
    acquisition becomes invalid, and what a release or a reset has in hand is lost. -/
def Work.dropped? : Work → Option Deed
  | .begin _ => none
  | .connect _ _ | .discard _ _ => some .letGo
  | .reclaim _ e _ | .examine _ e _ | .prepare _ e => some (.abandon e)
  | .undo _ _ _ | .close _ _ | .resetUndo _ _ | .resetClose _ _ => some .lose

namespace Pool

variable {p : Pool}

/-- The pool when it has given a number to a new call. -/
def numbered (p : Pool) : Pool := { p with nextCall := p.nextCall + 1 }

/-- The turns of a pool, by what the event and the call are. -/
inductive Responds (p : Pool) : Event → Turn → Prop
  /-- A call begins and asks for the lock. -/
  | enter {op : Op} {m : Moment} (ns : List Notice) (intent : Intent) :
      Responds p (.start op m) ((p.numbered.turn.tellAll ns).lock p.nextCall intent)
  /-- A call is over as soon as it begins. -/
  | decline {op : Op} {m : Moment} (ns : List Notice) (e : PoolError) :
      Responds p (.start op m) ((p.numbered.turn.tellAll ns).finish (.failed e))
  /-- A call begins and makes a request through a handle. -/
  | send {op : Op} {m : Moment} (request : Request) :
      Responds p (.start op m) (p.numbered.turn.errand p.nextCall (.ofHandle request))
  /-- The call that holds the lock goes on. -/
  | goOn {id : CallId} {w : Work} {s : Signal} {m : Moment} {t : Turn}
      (holds : p.holder = some (id, w)) (h : p.turn.advanceWork id m w s = some t) :
      Responds p (.resume id s m) t
  /-- A roused caller asks for the lock again. -/
  | relock {id : CallId} {m : Moment} {s : Sleeper} (elsewhere : ∀ w, p.holder ≠ some (id, w))
      (found : p.roused.find? (fun s => s.id == id) = some s) :
      Responds p (.resume id .proceed m)
        (Turn.relock { p with roused := p.roused.filter fun s => s.id != id }.turn s)
  /-- A sleeping caller has slept for as long as it wanted to. -/
  | getUp {id : CallId} {m : Moment} {s : Sleeper} (elsewhere : ∀ w, p.holder ≠ some (id, w))
      (found : p.sleepers.find? (fun s => s.id == id) = some s) (due : isOver s m.now = true) :
      Responds p (.resume id .timeUp m)
        (Turn.relock { p with sleepers := p.sleepers.filter fun s => s.id != id }.turn s)
  /-- An errand goes on. -/
  | errand {id : CallId} {s : Signal} {m : Moment} {e : Errand} {t : Turn}
      (elsewhere : ∀ w, p.holder ≠ some (id, w)) (found : p.errands.lookup id = some e)
      (h : p.turn.advanceErrand id e s = some t) : Responds p (.resume id s m) t
  /-- The call that holds the lock is dropped. -/
  | cut {id : CallId} {w : Work} (holds : p.holder = some (id, w)) :
      Responds p (.drop id) (p.turn.dropWork w)
  /-- A call that is queued for the lock is dropped. -/
  | withdraw {id : CallId} {intent : Intent} (elsewhere : ∀ w, p.holder ≠ some (id, w))
      (found : p.queue.lookup id = some intent) :
      Responds p (.drop id) (p.turn.dropQueued id intent)
  /-- A caller that sleeps or has been roused is dropped. -/
  | desert {id : CallId} (elsewhere : ∀ w, p.holder ≠ some (id, w))
      (found : (p.sleepers ++ p.roused).any (fun s => s.id == id) = true) :
      Responds p (.drop id)
        (Turn.stopWaiting { p with
          sleepers := p.sleepers.filter fun s => s.id != id
          roused := p.roused.filter fun s => s.id != id }.turn)
  /-- A call that waits for a request through a handle is dropped. -/
  | forget {id : CallId} {request : Request} (elsewhere : ∀ w, p.holder ≠ some (id, w))
      (found : p.errands.lookup id = some (.ofHandle request)) :
      Responds p (.drop id) { p with errands := p.errands.filter fun q => q.1 != id }.turn

theorem responds_of_startErrand {op : Op} {m : Moment} (h : Handle) (request : Request) :
    p.Responds (.start op m) (p.numbered.startErrand p.nextCall h request) := by
  rw [startErrand]
  split
  · exact .send request
  · exact .decline [] _

theorem responds_of_startReset {op : Op} {m : Moment} (r : Reset) :
    p.Responds (.start op m) (p.numbered.startReset p.nextCall r) := by
  cases r with
  | closeAll => exact .enter [_] _
  | replace policy =>
    rw [startReset]
    split
    · exact .enter [_] _
    · exact .decline [_] _
  | configure change => exact .enter [] _
  | redirect change => exact .enter [_] _

/-- A call that begins asks for the lock, is declined, or sends a request. -/
theorem responds_of_start (op : Op) (m : Moment) :
    p.Responds (.start op m) (p.start op m).2 := by
  cases op with
  | acquire login timeout => exact .enter [] _
  | release h =>
    rw [start]
    dsimp only
    split
    · exact .enter [] _
    · exact .decline [] _
  | reset r => exact responds_of_startReset r
  | inquire q => exact .enter [] _
  | probe h query => exact responds_of_startErrand h _
  | rollback h => exact responds_of_startErrand h _

theorem responds_of_resumeElsewhere {id : CallId} {s : Signal} {m : Moment} {t : Turn}
    (elsewhere : ∀ w, p.holder ≠ some (id, w)) (h : p.resumeElsewhere id s m = some t) :
    p.Responds (.resume id s m) t := by
  unfold resumeElsewhere at h
  split at h
  · next found => cases h; exact .relock elsewhere found
  · next found =>
    split at h <;> cases h
    next due => exact .getUp elsewhere found due
  · split at h
    · next found => exact .errand elsewhere found h
    · cases h

theorem responds_of_dropElsewhere {id : CallId} {t : Turn}
    (elsewhere : ∀ w, p.holder ≠ some (id, w)) (h : p.dropElsewhere id = some t) :
    p.Responds (.drop id) t := by
  unfold dropElsewhere at h
  split at h
  · next found => cases h; exact .withdraw elsewhere found
  · split at h
    · next found => cases h; exact .desert elsewhere found
    · split at h <;> cases h
      next found => exact .forget elsewhere found

/-- Every turn of a pool is one of the turns above. -/
theorem responds_of_respond {e : Event} {t : Turn} (h : p.respond e = some t) :
    p.Responds e t := by
  cases e with
  | start op m => cases h; exact responds_of_start op m
  | resume id s m =>
    rw [respond, resume] at h
    split at h
    · next holder w holds =>
      split at h
      · next same => exact .goOn (same ▸ holds) h
      · next other =>
        exact responds_of_resumeElsewhere (fun w hw => other (by simp_all)) h
    · next free => exact responds_of_resumeElsewhere (fun w hw => by simp [free] at hw) h
  | drop id =>
    rw [respond, drop] at h
    split at h
    · next holder w holds =>
      split at h
      · next same => cases h; exact .cut (same ▸ holds)
      · next other => exact responds_of_dropElsewhere (fun w hw => other (by simp_all)) h
    · next free => exact responds_of_dropElsewhere (fun w hw => by simp [free] at hw) h

/-! ## The custody after an event -/

theorem custody_lock (t : Turn) (id : CallId) (intent : Intent) :
    (t.lock id intent).pool.custody = t.pool.custody := by
  cases h : t.pool.holder <;> simp only [Turn.lock, Turn.work, custody, hand, h] <;> rfl

theorem outcome_lock (t : Turn) (id : CallId) (intent : Intent) :
    (t.lock id intent).outcome = t.outcome := by
  cases h : t.pool.holder <;> simp only [Turn.lock, Turn.work, h]

theorem custody_unlock (t : Turn) : t.unlock.pool.custody = t.pool.custodyWith .empty := by
  rw [Turn.pool_unlock, custody_passLock]

theorem path_unlock (m : Moment) {c : Custody} {d : Deed} {t : Turn}
    (step : Custody.Step m c d (t.pool.custodyWith .empty)) :
    Custody.Path c [d] t.unlock.pool.custody := by
  rw [custody_unlock]
  exact .single step

theorem respond_drop {id : CallId} {w : Work} (holds : p.holder = some (id, w)) :
    p.respond (.drop id) = some (p.turn.dropWork w) := by
  simp only [respond, drop, holds, if_true]

/-- A call that is dropped gives up its hand. -/
theorem path_dropWork (m : Moment) {w : Work} (has : p.hand = w.hand) :
    Custody.Path p.custody w.dropped?.toList (p.turn.dropWork w).pool.custody := by
  rw [custody, has]
  cases w with
  | begin intent =>
    -- It has nothing in hand yet.
    have h : (p.turn.dropWork (.begin intent)).pool.custody = p.custodyWith .empty := by
      cases intent <;> exact custody_unlock _
    rw [h]
    exact .nil
  | connect a lookedAt => exact path_unlock m (.letGo (.inl rfl))
  | discard a e => exact path_unlock m (.letGo (.inr ⟨e, rfl⟩))
  | reclaim a e lookedAt => exact path_unlock m (.abandon (.inl rfl))
  | examine a e checkup => exact path_unlock m (.abandon (.inr rfl))
  | prepare a e => exact path_unlock m (.abandon (.inr rfl))
  | undo e keep returnedAt => exact path_unlock m (.lose (.inl ⟨e, keep, returnedAt, rfl⟩))
  | close e cause => exact path_unlock m (.lose (.inr (.inl ⟨e, rfl⟩)))
  | resetUndo e rest => exact path_unlock m (.lose (.inr (.inr ⟨e, rest, rfl⟩)))
  | resetClose e rest => exact path_unlock m (.lose (.inr (.inr ⟨e, rest, rfl⟩)))

theorem outcome_dropWork (w : Work) : (p.turn.dropWork w).outcome = none := by
  cases w with
  | begin intent => cases intent <;> exact Turn.outcome_unlock _
  | _ => exact Turn.outcome_unlock _

/-- An errand does nothing to the connections. -/
theorem custody_advanceErrand {id : CallId} {e : Errand} {s : Signal} {t : Turn}
    (h : p.turn.advanceErrand id e s = some t) :
    t.pool.custody = p.custody ∧ t.outcome.bind Outcome.handle? = none := by
  unfold Turn.advanceErrand at h
  split at h <;> cases h <;> exact ⟨rfl, rfl⟩

theorem custody_dropQueued (id : CallId) (intent : Intent) :
    (p.turn.dropQueued id intent).pool.custody = p.custody := by
  cases intent <;> rfl

theorem outcome_dropQueued (id : CallId) (intent : Intent) :
    (p.turn.dropQueued id intent).outcome = none := by
  cases intent <;> rfl

theorem custodyWith_greet (w : Work) (hand : Hand) :
    (p.turn.greet w).pool.custodyWith hand = p.custodyWith hand := by
  unfold Turn.greet
  split <;> rfl

theorem outcome_greet (w : Work) : (p.turn.greet w).outcome = none := by
  unfold Turn.greet
  split <;> rfl

end Pool

namespace Move

/-- Whether a turn drops a release or a reset that holds the lock. -/
def interrupts (v : Move) : Bool :=
  match v.event, v.before.holder with
  | .drop id, some (holder, w) =>
    decide (holder = id) && decide (w.purpose = .release ∨ w.purpose = .reset)
  | _, _ => false

/-- The deeds `ds` are what a turn does to the connections. -/
structure DoneBy (v : Move) (ds : List Deed) : Prop where
  path : Custody.Path v.before.custody ds v.after.custody
  opened : ds.filterMap Deed.opened? = v.opened?.toList
  issued : ds.filterMap Deed.issued? = v.issued?.toList
  kept : Deed.lose ∈ ds → v.interrupts = true

variable {p : Pool} {e : Event} {t : Turn} {id : CallId} {s : Signal} {m : Moment} {w : Work}

theorem opened?_elsewhere (h : ∀ w, p.holder ≠ some (id, w)) :
    opened? ⟨p, .resume id s m, t⟩ = none := by
  unfold opened?
  split
  · next holder w he hp =>
    injection he with hid
    exact if_neg fun same => h w (by rw [hp, same, hid])
  · rfl

theorem opened?_holder (h : p.holder = some (id, w)) :
    opened? ⟨p, .resume id s m, t⟩ =
      (w.received? s).map fun physical => (p.nextConnection, physical) := by
  simp only [opened?, h, if_pos]

/-- A turn that does nothing to the connections. -/
theorem doneBy_nil (custody : t.pool.custody = p.custody) (opened : opened? ⟨p, e, t⟩ = none)
    (issued : t.outcome.bind Outcome.handle? = none) : DoneBy ⟨p, e, t⟩ [] where
  path := by rw [after, custody]; exact .nil
  opened := by rw [opened]; rfl
  issued := by rw [issued?, issued]; rfl
  kept h := absurd h List.not_mem_nil

theorem lose_of_dropped? (h : Deed.lose ∈ w.dropped?.toList) :
    w.purpose = .release ∨ w.purpose = .reset := by
  cases w <;> simp_all [Work.dropped?, Work.purpose]

/-- What a turn does to the connections is made up of deeds, and nothing in hand is lost unless
    a release or a reset is dropped at its work. -/
theorem exists_doneBy (h : p.Responds e t) : ∃ ds, DoneBy ⟨p, e, t⟩ ds := by
  cases h with
  | enter ns intent =>
    refine ⟨[], doneBy_nil (Pool.custody_lock _ _ _) rfl ?_⟩
    rw [Pool.outcome_lock]
    rfl
  | decline ns e => exact ⟨[], doneBy_nil rfl rfl rfl⟩
  | send request => exact ⟨[], doneBy_nil rfl rfl rfl⟩
  | @goOn id w s m t holds h =>
    obtain ⟨ds, path, opened, issued, kept⟩ :=
      (Turn.advanceWork_acts _ _ _ h).path (Pool.outcome_greet w)
    -- That a caller does not sleep any more is nothing to the connections.
    refine ⟨ds, ?_, ?_, issued, fun hl => absurd hl kept⟩
    · rw [Pool.custodyWith_greet] at path
      rwa [Pool.custody, Pool.hand, holds]
    · rw [opened, opened?_holder holds]
      rfl
  | relock elsewhere found =>
    refine ⟨[], doneBy_nil (Pool.custody_lock _ _ _) (opened?_elsewhere elsewhere) ?_⟩
    rw [Turn.relock, Pool.outcome_lock]
    rfl
  | getUp elsewhere found due =>
    refine ⟨[], doneBy_nil (Pool.custody_lock _ _ _) (opened?_elsewhere elsewhere) ?_⟩
    rw [Turn.relock, Pool.outcome_lock]
    rfl
  | errand elsewhere found h =>
    obtain ⟨custody, issued⟩ := Pool.custody_advanceErrand h
    exact ⟨[], doneBy_nil custody (opened?_elsewhere elsewhere) issued⟩
  | @cut id w holds =>
    have has : p.hand = w.hand := Pool.hand_of_holder holds
    refine ⟨_, Pool.path_dropWork ⟨default, fun _ => false, fun _ => false⟩ has, ?_, ?_, ?_⟩
    · cases w <;> rfl
    · rw [issued?, Pool.outcome_dropWork]
      cases w <;> rfl
    · intro hl
      simp [interrupts, holds, lose_of_dropped? hl]
  | withdraw elsewhere found =>
    refine ⟨[], doneBy_nil (Pool.custody_dropQueued _ _) rfl ?_⟩
    rw [Pool.outcome_dropQueued]
    rfl
  | desert elsewhere found => exact ⟨[], doneBy_nil rfl rfl rfl⟩
  | forget elsewhere found => exact ⟨[], doneBy_nil rfl rfl rfl⟩

end Move

/-! ## The deeds of a run -/

namespace Run

/-- The deeds `ds` are all that has been done to the connections of the pool `p` in a run. -/
structure DoneBy (p : Pool) (r : Run) (ds : List Deed) : Prop where
  path : Custody.Path p.custody ds r.pool.custody
  opened : ds.filterMap Deed.opened? = r.opened.reverse
  issued : ds.filterMap Deed.issued? = r.issued.reverse
  kept : Deed.lose ∈ ds → ∃ v ∈ r.moves, v.interrupts = true

variable {p : Pool} {r : Run} {ds : List Deed}

/-- Every move adds its deeds. -/
theorem DoneBy.move (hr : DoneBy p r ds) {e : Event} {t : Turn} (h : r.pool.respond e = some t) :
    ∃ ds', DoneBy p (r.move e t) ds' := by
  obtain ⟨ds', hv⟩ := Move.exists_doneBy (Pool.responds_of_respond h)
  refine ⟨ds ++ ds', hr.path.append hv.path, ?_, ?_, ?_⟩
  · rw [List.filterMap_append, hr.opened, hv.opened, Run.opened, Run.opened, moves_move]
    cases ho : Move.opened? ⟨r.pool, e, t⟩ <;> simp [ho]
  · rw [List.filterMap_append, hr.issued, hv.issued, Run.issued, Run.issued, moves_move]
    cases hi : Move.issued? ⟨r.pool, e, t⟩ <;> simp [hi]
  · intro hl
    rcases List.mem_append.1 hl with hl | hl
    · obtain ⟨v, hv, hi⟩ := hr.kept hl
      exact ⟨v, List.mem_cons_of_mem _ hv, hi⟩
    · exact ⟨_, List.mem_cons_self, hv.kept hl⟩

/-- What a run does to the connections of a pool is one path of deeds. -/
theorem exists_doneBy (p : Pool) (events : List Event) : ∃ ds, DoneBy p (p.run events) ds := by
  refine follow_induction (I := fun r => ∃ ds, DoneBy p r ds)
    ⟨[], .nil, rfl, rfl, fun h => absurd h List.not_mem_nil⟩ ?_ events
  intro r e t ⟨ds, hr⟩ h
  exact hr.move h

end Run

end LeasePool
