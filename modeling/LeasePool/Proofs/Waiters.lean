import LeasePool.Proofs.Waits

/-!
# Callers that are counted as waiting

A caller that falls asleep counts as waiting until it has the lock again, or is dropped: while it
sleeps, when it has been roused, while it is queued for the lock, and still when it has been given
the lock but has not gone on. The counter is changed in the turn in which the caller falls asleep
and in that in which it goes on or is dropped, wherever it is then. So between two turns it is the
number of these callers (`Pool.waiters`), and these are the acquisitions in progress that have given
up the lock to sleep when they had it last, as the moves of a run tell.

* `Pool.tallies_of_respond`: how the waiters change in a turn, and that the counter does as well;
* `Run.Of.mem_waiters_iff`: who the waiters are, by what has happened;
* `Pool.counts_waiters`: the counter is the number of the waiters.
-/

namespace LeasePool

open scoped List

/-- What bears a key is taken out by its key, if all keys are different. -/
theorem perm_cons_filter_key {α : Type} {f : α → CallId} {l : List α} (once : (l.map f).Nodup)
    {a : α} (ha : a ∈ l) : l ~ a :: l.filter fun b => f b != f a := by
  induction l with
  | nil => cases ha
  | cons b l ih =>
    rw [List.map_cons, List.nodup_cons] at once
    rcases List.mem_cons.1 ha with rfl | ha
    · have others : (l.filter fun b => f b != f a) = l := by
        refine List.filter_eq_self.2 fun b hb => bne_iff_ne.2 fun same => once.1 ?_
        exact same ▸ List.mem_map_of_mem hb
      rw [List.filter_cons_of_neg (by simp), others]
    · have other : f b ≠ f a := fun same => once.1 (same ▸ List.mem_map_of_mem ha)
      rw [List.filter_cons_of_pos (by simpa using other)]
      exact ((ih once.2 ha).cons b).trans (.swap a b _)

/-- Whether a call that is at some work has slept and not gone on since. -/
def Work.waits (w : Work) : Bool := w.asleepSince?.isSome

namespace Pool

/-- The calls that have the lock or are queued for it, with what they do or are going to do. -/
def atLock (p : Pool) : List (CallId × Work) :=
  p.holder.toList ++ p.queue.map fun q => (q.1, .begin q.2)

/-- The calls that have given up the lock to sleep and have not gone on since: they sleep or have
    been roused, or they are going to look again as soon as it is their turn. -/
def waiters (p : Pool) : List CallId :=
  p.sleeping.map Sleeper.id ++ (p.atLock.filter fun d => d.2.waits).map Prod.fst

variable {p q : Pool} {e : Event} {t : Turn} {i id : CallId} {w : Work} {x : Ending}
  {intent : Intent} {m : Moment}

/-- A call is at the lock if it holds it or is queued for it. -/
theorem mem_atLock : (i, w) ∈ p.atLock ↔ p.Doing i w := by
  rw [atLock, List.mem_append, Option.mem_toList, List.mem_map]
  constructor
  · rintro (holds | ⟨⟨j, intent⟩, queued, same⟩)
    · exact .holds holds
    · cases same
      exact .queued queued
  · intro doing
    cases doing with
    | holds holds => exact .inl holds
    | queued queued => exact .inr ⟨_, queued, rfl⟩

theorem mem_waiters : i ∈ p.waiters ↔
    (∃ c ∈ p.sleeping, c.id = i) ∨ ∃ w, p.Doing i w ∧ w.waits = true := by
  simp only [waiters, List.mem_append, List.mem_map, List.mem_filter, Prod.exists, mem_atLock]
  refine or_congr_right ⟨?_, ?_⟩
  · rintro ⟨j, w, waits, rfl⟩
    exact ⟨w, waits⟩
  · rintro ⟨w, waits⟩
    exact ⟨i, w, waits, rfl⟩

theorem length_waiters : p.waiters.length =
    p.sleeping.length + p.atLock.countP fun d => d.2.waits := by
  rw [waiters, List.length_append, List.length_map, List.length_map, List.countP_eq_length_filter]

theorem map_fst_atLock : p.atLock.map Prod.fst =
    (p.holder.map Prod.fst).toList ++ p.queue.map Prod.fst := by
  have queue : (Prod.fst ∘ fun q : CallId × Intent => (q.1, Work.begin q.2)) = Prod.fst := rfl
  rw [atLock, List.map_append, List.map_map, queue]
  cases p.holder <;> rfl

/-- The calls in progress sleep, or have the lock or are queued for it, or run errands. -/
theorem calls_perm : p.calls ~
    p.sleeping.map Sleeper.id ++ p.atLock.map Prod.fst ++ p.errands.map Prod.fst := by
  refine List.perm_iff_count.2 fun i => ?_
  simp only [calls, sleeping, map_fst_atLock, List.map_append, List.count_append]
  omega

theorem place_of_mem_calls (active : i ∈ p.calls) : (∃ c ∈ p.sleeping, c.id = i) ∨
    (∃ w, p.Doing i w) ∨ i ∈ p.errands.map Prod.fst := by
  rw [calls_perm.mem_iff, List.mem_append, List.mem_append, List.mem_map, List.mem_map] at active
  obtain (asleep | ⟨⟨j, w⟩, doing, rfl⟩) | runs := active
  · exact .inl asleep
  · exact .inr (.inl ⟨w, mem_atLock.1 doing⟩)
  · exact .inr (.inr runs)

/-- The waiters are in progress, and run no errands. -/
theorem waiters_errands_subperm_calls : p.waiters ++ p.errands.map Prod.fst <+~ p.calls := by
  refine (List.Sublist.subperm ?_).trans calls_perm.symm.subperm
  exact ((List.Sublist.refl _).append (List.filter_sublist.map _)).append (List.Sublist.refl _)

theorem waiters_subset_calls : p.waiters ⊆ p.calls := fun _ hi =>
  waiters_errands_subperm_calls.subset (List.mem_append_left _ hi)

namespace CallsOnce

theorem nodup_waiters (once : p.CallsOnce) : p.waiters.Nodup :=
  (List.nodup_append.1 (nodup_of_subperm waiters_errands_subperm_calls once.once)).1

/-- A call that runs an errand does not wait. -/
theorem not_mem_waiters_of_errand (once : p.CallsOnce) (runs : i ∈ p.errands.map Prod.fst) :
    i ∉ p.waiters := fun waits =>
  (List.nodup_append.1 (nodup_of_subperm waiters_errands_subperm_calls once.once)).2.2 i waits i
    runs rfl

/-- A call has one thing to do with the lock. -/
theorem nodup_atLock (once : p.CallsOnce) : (p.atLock.map Prod.fst).Nodup := by
  have calls := calls_perm.nodup_iff.1 once.once
  exact (List.nodup_append.1 (List.nodup_append.1 calls).1).2.1

/-- A call that has the lock or is queued for it waits if it is going to look again. -/
theorem mem_waiters_iff (once : p.CallsOnce) (doing : p.Doing i w) :
    i ∈ p.waiters ↔ w.waits = true := by
  rw [mem_waiters]
  constructor
  · rintro (⟨c, asleep, rfl⟩ | ⟨w', doing', waits⟩)
    · obtain ⟨awake, unroused, -⟩ := once.not_elsewhere doing
      rcases List.mem_append.1 asleep with asleep | roused
      · exact absurd (List.mem_map_of_mem asleep) awake
      · exact absurd (List.mem_map_of_mem roused) unroused
    · have same := List.inj_on_of_nodup_map once.nodup_atLock (mem_atLock.2 doing)
        (mem_atLock.2 doing') rfl
      cases same
      exact waits
  · exact fun waits => .inr ⟨w, doing, waits⟩

end CallsOnce

/-! ## What a turn is made of -/

theorem atLock_passLock (p : Pool) :
    p.passLock.atLock = p.queue.map fun q => (q.1, .begin q.2) := by
  cases h : p.queue <;> simp [passLock, atLock, h]

theorem atLock_lock (t : Turn) (id : CallId) (intent : Intent) :
    (t.lock id intent).pool.atLock ~ (id, .begin intent) :: t.pool.atLock := by
  cases h : t.pool.holder with
  | none => simp [Turn.lock, Turn.work, atLock, h]
  | some held =>
    rw [Turn.lock, h]
    simp only [atLock, h, List.map_append, List.map_cons, List.map_nil, ← List.append_assoc]
    exact List.perm_append_singleton _ _

theorem waiting_lock (t : Turn) (id : CallId) (intent : Intent) :
    (t.lock id intent).pool.waiting = t.pool.waiting := by
  cases h : t.pool.holder <;> simp only [Turn.lock, Turn.work, h]

theorem waiting_passLock (p : Pool) : p.passLock.waiting = p.waiting := by
  cases h : p.queue <;> simp only [passLock, h]

/-- One call less has the lock or is queued for it. -/
theorem length_waiters_of_atLock {d : CallId × Work} (sleeping : q.sleeping = p.sleeping)
    (atLock : p.atLock ~ d :: q.atLock) :
    q.waiters.length + d.2.waits.toNat = p.waiters.length := by
  rw [length_waiters, length_waiters, sleeping, atLock.countP_eq, List.countP_cons]
  cases d.2.waits <;> simp
  omega

/-- One caller less sleeps. -/
theorem length_waiters_of_sleeping {c : Sleeper} (sleeping : p.sleeping ~ c :: q.sleeping)
    (atLock : q.atLock = p.atLock) : q.waiters.length + 1 = p.waiters.length := by
  rw [length_waiters, length_waiters, sleeping.length_eq, atLock, List.length_cons]
  omega

/-- The holder of the lock does not wait any more when it has given the lock on. -/
theorem length_waiters_passLock (holds : p.holder = some (id, w)) :
    p.passLock.waiters.length + w.waits.toNat = p.waiters.length := by
  have here : p.atLock = (id, w) :: p.passLock.atLock := by
    rw [atLock_passLock, atLock, holds]
    rfl
  exact length_waiters_of_atLock (d := (id, w)) (sleeping_passLock p) (here ▸ .refl _)

/-- A caller that asks for the lock waits if it has slept. -/
theorem length_waiters_lock (t : Turn) (id : CallId) (intent : Intent) :
    (t.lock id intent).pool.waiters.length =
      t.pool.waiters.length + (Work.begin intent).waits.toNat :=
  (length_waiters_of_atLock (sleeping_lock t intent).symm (atLock_lock t id intent)).symm

/-- The waiters after a turn of the holder of the lock, in which it falls asleep or does not. -/
theorem length_waiters_ended (holds : p.holder = some (id, w))
    (awake : ∀ w', x = .work w' → w'.waits = false) :
    (p.ended id x).waiters.length + w.waits.toNat = p.waiters.length + x.isAsleep.toNat := by
  cases x with
  | work w' =>
    -- The call keeps the lock, and gives it on in neither pool.
    have kept : (p.ended id (.work w')).holder = some (id, w') := rfl
    have after := length_waiters_passLock kept
    rw [awake w' rfl] at after
    have before := length_waiters_passLock holds
    have same : (p.ended id (.work w')).passLock.waiters = p.passLock.waiters := by
      cases h : p.queue <;> simp only [ended, passLock, h]
    rw [same] at after
    change _ + 0 = _ at after
    change _ = _ + 0
    omega
  | finished o => exact length_waiters_passLock holds
  | freed o =>
    have same : (p.ended id (.freed o)).waiters.length = p.passLock.waiters.length := by
      rw [length_waiters, length_waiters]
      simp only [ended, rouseAll, sleeping, atLock, List.length_append, List.length_nil]
      omega
    rw [same]
    exact length_waiters_passLock holds
  | asleep a since limit =>
    let q : Pool := { p with
      sleepers := p.sleepers ++ [⟨id, a, since, limit⟩], waiting := p.waiting + 1 }
    have grown : q.waiters.length = p.waiters.length + 1 := by
      rw [length_waiters, length_waiters]
      simp only [q, sleeping, atLock, List.length_append, List.length_singleton]
      omega
    have after : (p.ended id (.asleep a since limit)).waiters.length + w.waits.toNat =
        q.waiters.length := length_waiters_passLock (p := q) holds
    rw [after, grown]
    rfl

theorem waiting_ended (p : Pool) (id : CallId) (x : Ending) :
    (p.ended id x).waiting = p.waiting + x.isAsleep.toNat := by
  cases x with
  | work w => rfl
  | finished o => exact waiting_passLock p
  | freed o => exact waiting_passLock p
  | asleep a since limit => exact waiting_passLock _

/-- When a caller looks again that has slept, the counter goes down. -/
theorem waiting_greet (w : Work) : (p.turn.greet w).pool.waiting = p.waiting - w.waits.toNat := by
  unfold Turn.greet
  split
  · rfl
  · next other =>
    have awake : w.waits = false := by
      cases w with
      | begin intent => cases intent <;> first | rfl | exact absurd rfl (other _ _)
      | _ => rfl
    rw [awake]
    rfl

/-- It does so when the holder of the lock is dropped that was going to look again. -/
theorem waiting_dropWork (w : Work) :
    (p.turn.dropWork w).pool.waiting = p.waiting - w.waits.toNat := by
  cases w with
  | begin intent =>
    cases intent <;> exact (congrArg waiting (Turn.pool_unlock _)).trans (waiting_passLock _)
  | _ => exact (congrArg waiting (Turn.pool_unlock _)).trans (waiting_passLock _)

/-- A call that begins has not slept. -/
theorem waits_of_intent? {op : Op} (intends : op.intent? m = some intent) :
    (Work.begin intent).waits = false := by
  cases op <;> cases intends <;> rfl

/-- A call that has just begun does not wait. -/
theorem waits_of_enter (ht : p.respond e = some t) (once : p.CallsOnce) {op : Op}
    (event : e = .start op m) (doing : t.pool.Doing p.nextCall (.begin intent)) :
    (Work.begin intent).waits = false := by
  have new : p.nextCall ∉ p.calls := fun there => Nat.lt_irrefl _ (once.numbered _ there)
  have comes := comes_of_respond ht once doing
  generalize same : Work.begin intent = w at comes
  cases comes with
  | stays was others => exact absurd was.mem_calls new
  | goesOn goes caller => cases event.symm.trans goes.event
  | starts event' given intends own => exact waits_of_intent? intends
  | wakes asleep caller => exact absurd (caller ▸ mem_calls_of_sleeping asleep) new

end Pool

/-- A caller ceases to wait in a turn: it has the lock and goes on, or it is dropped. -/
def Move.endsWait (v : Move) : Bool :=
  decide (v.caller ∈ v.before.waiters) && (v.holds || v.event.isDrop)

/-- Whoever ceases to wait is one of the waiters. -/
theorem Move.toNat_endsWait_le (v : Move) : v.endsWait.toNat ≤ v.before.waiters.length := by
  rw [endsWait]
  by_cases waits : v.caller ∈ v.before.waiters
  · exact Nat.le_trans (Bool.toNat_le _) (List.length_pos_of_mem waits)
  · rw [decide_eq_false waits, Bool.false_and]
    exact Nat.zero_le _

/-- In a turn, the counter goes down if a caller ceases to wait, and then up if one falls asleep, as
    does the number of the waiters. -/
structure Move.Tallies (v : Move) : Prop where
  waiters : v.after.waiters.length + v.endsWait.toNat =
    v.before.waiters.length + v.fellAsleep?.isSome.toNat
  counter : v.after.waiting =
    v.before.waiting - v.endsWait.toNat + v.fellAsleep?.isSome.toNat

namespace Pool

variable {p : Pool} {e : Event} {t : Turn} {id : CallId} {w : Work} {intent : Intent}

/-- A turn of a call that does not have the lock, and is not dropped. -/
theorem Responds.tallies_of_aside (h : p.Responds e t) (once : p.CallsOnce)
    (elsewhere : ∀ w, p.holder ≠ some (Move.caller ⟨p, e, t⟩, w)) (kept : e.isDrop = false)
    (waiters : t.pool.waiters.length = p.waiters.length) (waiting : t.pool.waiting = p.waiting) :
    Move.Tallies ⟨p, e, t⟩ := by
  have awake := Move.fellAsleep?_of_idle h once elsewhere
  have stays : Move.endsWait ⟨p, e, t⟩ = false := by
    rw [Move.endsWait, Move.holds_eq_false elsewhere, kept, Bool.or_false, Bool.and_false]
  refine ⟨?_, ?_⟩ <;> rw [awake, stays]
  · exact waiters
  · exact waiting

/-- A turn in which a call is dropped, which waits or does not. -/
theorem tallies_of_dropped (dropped : e.isDrop = true) (waits : Bool)
    (member : Move.caller ⟨p, e, t⟩ ∈ p.waiters ↔ waits = true)
    (waiters : t.pool.waiters.length + waits.toNat = p.waiters.length)
    (waiting : t.pool.waiting = p.waiting - waits.toNat) : Move.Tallies ⟨p, e, t⟩ := by
  have awake : Move.fellAsleep? ⟨p, e, t⟩ = none := by
    cases e <;> first | exact Move.fellAsleep?_of_dropped rfl | cases dropped
  have ends : Move.endsWait ⟨p, e, t⟩ = waits := by
    rw [Move.endsWait, dropped, Bool.or_true, Bool.and_true, Bool.eq_iff_iff, decide_eq_true_iff]
    exact member
  refine ⟨?_, ?_⟩ <;> rw [awake, ends]
  · exact waiters
  · exact waiting

/-- A caller that asks for the lock again after its sleep waits on. -/
theorem waiters_relock {p' : Pool} {s : Sleeper} (sleeping : p.sleeping ~ s :: p'.sleeping)
    (atLock : p'.atLock = p.atLock) :
    (Turn.relock p'.turn s).pool.waiters.length = p.waiters.length := by
  rw [Turn.relock, length_waiters_lock]
  exact length_waiters_of_sleeping sleeping atLock

/-- The holder of the lock goes on: it does not wait any more, and falls asleep or does not. -/
theorem tallies_of_goOn (once : p.CallsOnce) (once' : t.pool.CallsOnce) {s : Signal} {m : Moment}
    (holds : p.holder = some (id, w)) (goOn : p.turn.advanceWork id m w s = some t) :
    Move.Tallies ⟨p, .resume id s m, t⟩ := by
  obtain ⟨x, c, goes, after⟩ := Move.exists_continues_ended holds goOn
  have fell := goes.isSome_fellAsleep? once' once
  have ends : Move.endsWait ⟨p, .resume id s m, t⟩ = w.waits := by
    rw [Move.endsWait, goes.holds_eq, Bool.true_or, Bool.and_true, Bool.eq_iff_iff,
      decide_eq_true_iff]
    exact once.mem_waiters_iff (.holds holds)
  have awake (w' : Work) (works : x = .work w') : w'.waits = false := by
    subst works
    obtain awake | ⟨a, limit, asleep⟩ := goes.sequel.awake
    · exact congrArg Option.isSome awake
    · cases asleep
  have unmoved := unmoved_greet (p := p) (w := w) c
  have same : ((p.turn.greet w).pool.having c).waiters = p.waiters := by
    simp only [waiters, sleeping, atLock, unmoved.holder, unmoved.queue, unmoved.sleepers,
      unmoved.roused]
  -- The list loses the holder if it had been waiting and gains it if it falls asleep. The counter
  -- is lowered before the work and raised after it.
  refine ⟨?_, ?_⟩ <;> rw [fell, ends, Move.after, after]
  · rw [length_waiters_ended (unmoved.holder.trans holds) awake, same]
  · rw [waiting_ended]
    exact congrArg (· + x.isAsleep.toNat) (waiting_greet w)

/-- When the holder of the lock is dropped, it is counted no longer if it has been waiting. -/
theorem tallies_of_cut (once : p.CallsOnce) (holds : p.holder = some (id, w)) :
    Move.Tallies ⟨p, .drop id, p.turn.dropWork w⟩ := by
  obtain ⟨q, dropped, -, queue, sleepers, roused, -⟩ := p.exists_dropWork w
  have same : q.passLock.waiters = p.passLock.waiters := by
    rw [waiters, waiters, sleeping_passLock, sleeping_passLock, atLock_passLock, atLock_passLock,
      queue, sleeping, sleepers, roused, sleeping]
  refine tallies_of_dropped rfl _ (once.mem_waiters_iff (.holds holds)) ?_ (waiting_dropWork w)
  rw [dropped, same]
  exact length_waiters_passLock holds

/-- Nor is a call that is dropped while it is queued for the lock. -/
theorem tallies_of_withdraw (once : p.CallsOnce) (found : p.queue.lookup id = some intent) :
    Move.Tallies ⟨p, .drop id, p.turn.dropQueued id intent⟩ := by
  obtain ⟨before, later, split, -⟩ := List.lookup_eq_some_iff.1 found
  have queued : (id, intent) ∈ p.queue := by simp [split]
  have distinct := (List.nodup_append.1 (map_fst_atLock ▸ once.nodup_atLock)).2.1
  let q : Pool := { p with queue := p.queue.filter fun q => q.1 != id }
  have taken : p.atLock ~ (id, .begin intent) :: q.atLock :=
    (((perm_cons_filter_key distinct queued).map _).append_left _).trans List.perm_middle
  have fewer := length_waiters_of_atLock (p := p) (q := q) rfl taken
  refine tallies_of_dropped rfl _ (once.mem_waiters_iff (.queued queued)) ?_ ?_
  · cases intent <;> exact fewer
  · cases intent <;> rfl

/-- The waiters change as the counter does, in every turn. -/
theorem tallies_of_respond (ht : p.respond e = some t) (once : p.CallsOnce) :
    Move.Tallies ⟨p, e, t⟩ := by
  have responds := responds_of_respond ht
  have new (w : Work) : p.holder ≠ some (p.nextCall, w) := fun holds =>
    Nat.lt_irrefl _ (once.numbered _ (mem_calls_of_holder holds))
  have distinct : (p.sleeping.map Sleeper.id).Nodup := (List.nodup_append.1 once.nodup_waiters).1
  cases responds_of_respond ht with
  | enter ns intent =>
    have fresh := waits_of_enter ht once rfl (doing_lock _ _ _)
    refine responds.tallies_of_aside once new rfl ?_ (waiting_lock _ _ _)
    rw [length_waiters_lock, fresh]
    rfl
  | decline | send => exact responds.tallies_of_aside once new rfl rfl rfl
  | goOn holds goOn => exact tallies_of_goOn once (once.respond ht) holds goOn
  -- A sleeper that is roused or gets up moves to the queue for the lock, and is still waiting.
  | @relock i m s elsewhere found =>
    obtain ⟨rfl, -⟩ := mem_map_of_find? found
    have taken := perm_cons_filter_key (distinct.sublist ((List.sublist_append_right _ _).map _))
      (List.mem_of_find?_eq_some found)
    refine responds.tallies_of_aside once elsewhere rfl (waiters_relock ?_ rfl) (waiting_lock _ _ _)
    exact (taken.append_left _).trans List.perm_middle
  | @getUp i m s elsewhere found due =>
    obtain ⟨rfl, -⟩ := mem_map_of_find? found
    have taken := perm_cons_filter_key (distinct.sublist ((List.sublist_append_left _ _).map _))
      (List.mem_of_find?_eq_some found)
    exact responds.tallies_of_aside once elsewhere rfl (waiters_relock (taken.append_right _) rfl)
      (waiting_lock _ _ _)
  | errand elsewhere found advances =>
    refine responds.tallies_of_aside once elsewhere rfl ?_ ?_ <;>
    · unfold Turn.advanceErrand at advances
      split at advances <;> cases advances <;> rfl
  | cut holds => exact tallies_of_cut once holds
  | withdraw elsewhere found => exact tallies_of_withdraw once found
  | @desert i elsewhere found =>
    obtain ⟨c, asleep, same⟩ := List.any_eq_true.1 found
    obtain rfl := beq_iff_eq.1 same
    have member : c.id ∈ p.waiters := mem_waiters.2 (.inl ⟨c, asleep, rfl⟩)
    have taken := perm_cons_filter_key distinct asleep
    rw [sleeping, List.filter_append] at taken
    exact tallies_of_dropped rfl true (iff_of_true member rfl)
      (length_waiters_of_sleeping taken rfl) rfl
  | forget elsewhere found =>
    have idle := once.not_mem_waiters_of_errand (mem_map_of_lookup found)
    exact tallies_of_dropped rfl false (iff_of_false idle Bool.false_ne_true) rfl rfl

end Pool

/-! ## Runs -/

namespace Run

variable {id : PoolId} {source : DataSource} {policy : Policy} {r : Run} {e : Event} {t : Turn}
  {i : CallId}

namespace Of

/-- The counter is the number of the waiters. -/
theorem waiting_eq (h : Of (.opened id source policy) r) :
    r.pool.waiting = r.pool.waiters.length := by
  induction h with
  | start => rfl
  | @move r e t h ht ih =>
    obtain ⟨waiters, counter⟩ := Pool.tallies_of_respond ht h.callsOnce
    -- The counter does not go below zero, as the caller that ceases to wait is one of the waiters.
    have enough := Move.toNat_endsWait_le ⟨r.pool, e, t⟩
    change t.pool.waiting = t.pool.waiters.length
    dsimp only [Move.after] at waiters counter enough
    omega

/-- A call that runs an errand has never slept. -/
theorem asleepSince?_of_errand (h : Of (.opened id source policy) r)
    (runs : i ∈ r.pool.errands.map Prod.fst) : asleepSince? i r.moves = none := by
  induction h with
  | start => rfl
  | @move r e t h ht ih =>
    have once := h.callsOnce
    have before := (Pool.responds_of_respond ht).errand_calls runs
    -- It has not had the lock in this turn either.
    have away : Move.caller ⟨r.pool, e, t⟩ = i → Move.holds ⟨r.pool, e, t⟩ = false := fun own =>
      Move.holds_eq_false fun w held => by
        obtain old | new := before
        · exact (once.not_elsewhere (.holds held)).2.2 (own ▸ old)
        · have given := once.numbered _ (Pool.mem_calls_of_holder held)
          exact Nat.ne_of_lt given (own.trans new)
    rw [moves_move, asleepSince?_cons_of_ne away]
    obtain old | new := before
    · exact ih old
    · exact asleepSince?_of_new fun u hu => new ▸ Nat.ne_of_lt (h.caller_lt hu)

/-- The waiters are the calls in progress that have given up the lock to sleep when they had it
    last. -/
theorem mem_waiters_iff (h : Of (.opened id source policy) r) (active : i ∈ r.pool.calls) :
    i ∈ r.pool.waiters ↔ (asleepSince? i r.moves).isSome := by
  obtain ⟨c, asleep, rfl⟩ | ⟨w, doing⟩ | runs := Pool.place_of_mem_calls active
  · rw [(h.remembers.sleeps c asleep).1]
    exact iff_of_true (Pool.mem_waiters.2 (.inl ⟨c, asleep, rfl⟩)) rfl
  · rw [h.callsOnce.mem_waiters_iff doing, (h.remembers.works i w doing).1]
    rfl
  · exact iff_of_false (h.callsOnce.not_mem_waiters_of_errand runs)
      (by rw [h.asleepSince?_of_errand runs]; exact Bool.false_ne_true)

/-- A waiter is an acquisition. -/
theorem acquires_of_waiter (h : Of (.opened id source policy) r) (waits : i ∈ r.pool.waiters) :
    ∃ l, r.Acquires i l := by
  rw [Pool.mem_waiters] at waits
  obtain ⟨c, asleep, rfl⟩ | ⟨w, doing, waits⟩ := waits
  · exact ⟨_, h.acquires (.sleeps asleep rfl rfl)⟩
  · obtain ⟨since, slept⟩ := Option.isSome_iff_exists.1 waits
    obtain ⟨a, acquires⟩ := Work.exists_of_asleepSince? slept
    refine ⟨a.login, h.acquires (.works doing ?_)⟩
    rw [Work.login?_eq, acquires, Option.map_some]

/-- There are no more waiters than calls that are counted as having had to wait. -/
theorem waiting_le (h : Of (.opened id source policy) r) :
    r.pool.waiting ≤ r.pool.books.counters.waits := by
  have slept : r.pool.waiters ⊆ everAsleep r.moves := fun i waits => by
    have active := Pool.waiters_subset_calls waits
    obtain ⟨since, asleep⟩ := Option.isSome_iff_exists.1 ((h.mem_waiters_iff active).1 waits)
    exact mem_everAsleep.2 (slept_of_asleepSince? asleep)
  rw [h.waiting_eq, h.waits]
  exact Nat.le_add_right_of_le (h.callsOnce.nodup_waiters.subperm slept).length_le

end Of

/-- The counter of waiting callers is exact. -/
structure CountsWaiters (r : Run) : Prop where
  /-- It is the number of the waiters, and each of them is counted once. -/
  exact : r.pool.waiting = r.pool.waiters.length ∧ r.pool.waiters.Nodup
  /-- The waiters are the acquisitions in progress that have given up the lock to sleep when they
      had it last, so that they are asleep or on their way back to the lock. -/
  waiters : ∀ i, i ∈ r.pool.waiters ↔
    i ∈ r.pool.calls ∧ (∃ l, r.Acquires i l) ∧ (asleepSince? i r.moves).isSome
  /-- One is taken from it in a turn in which one of them goes on or is dropped, and in no other, and
      one is added if the caller falls asleep. This would be so whatever the counter had been. -/
  turns : ∀ v ∈ r.moves, ∀ n t, Pool.respond { v.before with waiting := n } v.event = some t →
    t.pool.waiting = n - v.endsWait.toNat +
      (Move.fellAsleep? ⟨v.before, v.event, t⟩).isSome.toNat
  /-- There has been one to be taken, so the counter never goes below zero. -/
  enough : ∀ v ∈ r.moves, v.endsWait = true → 0 < v.before.waiting
  /-- It is no greater than the count of those that had to wait. -/
  le : r.pool.waiting ≤ r.pool.books.counters.waits
  /-- It is zero if no acquisition is in progress. -/
  idle : (∀ i ∈ r.pool.calls, ∀ l, ¬ r.Acquires i l) → r.pool.waiting = 0

end Run

/-- After every run, however its calls have taken turns and wherever they have been dropped, the
    counter of waiting callers is exact. -/
theorem Pool.counts_waiters (id : PoolId) (source : DataSource) (policy : Policy)
    (events : List Event) : ((opened id source policy).run events).CountsWaiters := by
  have h := (opened id source policy).of_run events
  generalize (opened id source policy).run events = r at h
  have before {v : Move} (hv : v ∈ r.moves) :
      v.before.CallsOnce ∧ v.before.waiting = v.before.waiters.length := by
    obtain ⟨r₀, h₀, pool, -⟩ := h.exists_before hv
    exact pool ▸ ⟨h₀.callsOnce, h₀.waiting_eq⟩
  refine ⟨⟨h.waiting_eq, h.callsOnce.nodup_waiters⟩, fun i => ⟨fun waits => ?_, ?_⟩,
    fun v hv n t ht => ?_, fun v hv ends => ?_, h.waiting_le, fun none_acquires => ?_⟩
  · have active := waiters_subset_calls waits
    exact ⟨active, h.acquires_of_waiter waits, (h.mem_waiters_iff active).1 waits⟩
  · exact fun ⟨active, _, asleep⟩ => (h.mem_waiters_iff active).2 asleep
  · -- Nobody looks at the counter.
    have once : CallsOnce { v.before with waiting := n } :=
      ⟨(before hv).1.once, (before hv).1.numbered⟩
    exact (tallies_of_respond ht once).counter
  · have enough := v.toNat_endsWait_le
    rw [ends] at enough
    exact (before hv).2 ▸ enough
  · rw [h.waiting_eq, List.length_eq_zero_iff, List.eq_nil_iff_forall_not_mem]
    intro i waits
    obtain ⟨l, acquires⟩ := h.acquires_of_waiter waits
    exact none_acquires i (waiters_subset_calls waits) l acquires

end LeasePool
