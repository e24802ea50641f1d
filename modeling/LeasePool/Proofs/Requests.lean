import Mathlib.Data.List.Nodup
import LeasePool.Proofs.Calls
import LeasePool.Proofs.Sequels

/-!
# Requests

What a pool asks of the factory and of its connections, and when. A call that waits for an answer
has made its request at the end of its last turn (`Move.asked?`). The requests of the pool are
those of the call that holds the lock, each of which belongs to the work with which it goes on,
and those of the errands that close a connection; what a caller asks through its handle is not
among them.

* `Pool.Responds.asked?`: the two kinds of requests that a pool makes;
* `Run.Of.exists_atWork`: the turn in which the holder of the lock has come to its work, and that
  nobody else has held the lock since then.
-/

namespace LeasePool

/-- The request on whose answer work waits, if it does. -/
def Work.request? (w : Work) (source : DataSource) : Option Request :=
  match w.awaited source with
  | .answer r => some r
  | _ => none

/-- The request on whose answer an errand waits, if it does. -/
def Errand.request? (e : Errand) : Option Request :=
  match e.awaited with
  | .answer r => some r
  | _ => none

namespace Pool

/-- The request on whose answer a call in progress waits, if it does. -/
def asking? (p : Pool) (id : CallId) : Option Request :=
  match p.awaited? id with
  | some (.answer r) => some r
  | _ => none

variable {p : Pool} {id : CallId} {r : Request}

theorem asking?_of_holder {w : Work} (holds : p.holder = some (id, w)) :
    p.asking? id = w.request? p.books.source := by
  simp only [asking?, awaited?, holds, if_pos, Work.request?]
  cases w.awaited p.books.source <;> rfl

/-- A call that waits for an answer holds the lock, or it runs an errand. -/
theorem asking?_eq_some (h : p.asking? id = some r) :
    (∃ w, p.holder = some (id, w) ∧ w.request? p.books.source = some r) ∨
      ∃ e, p.errands.lookup id = some e ∧ e.request? = some r := by
  by_cases here : ∃ w, p.holder = some (id, w)
  · obtain ⟨w, holds⟩ := here
    exact .inl ⟨w, holds, by rwa [← asking?_of_holder holds]⟩
  · have elsewhere : p.awaited? id = awaited?.elsewhere p id := by
      unfold awaited?
      split
      · next holder w hp => exact if_neg fun same => here ⟨w, by rw [hp, same]⟩
      · rfl
    rw [asking?, elsewhere, awaited?.elsewhere] at h
    split at h
    · next r' heq =>
      cases h
      split at heq
      · cases heq
      · split at heq
        · cases heq
        · split at heq
          · cases heq
          · obtain ⟨e, he, ha⟩ := Option.map_eq_some_iff.1 heq
            exact .inr ⟨e, he, by rw [Errand.request?, ha]⟩
    · cases h

theorem Unmoved.calls {q : Pool} (h : p.Unmoved q) : q.calls = p.calls := by
  simp only [Pool.calls, h.holder, h.queue, h.sleepers, h.roused, h.errands]

theorem mem_calls_of_asking? (h : p.asking? id = some r) : id ∈ p.calls := by
  obtain ⟨w, holds, -⟩ | ⟨e, found, -⟩ := asking?_eq_some h
  · exact mem_calls_of_holder holds
  · simp [calls, mem_map_of_lookup found]

/-- A call that runs an errand does not hold the lock. -/
theorem CallsOnce.elsewhere (once : p.CallsOnce) {e : Errand}
    (found : p.errands.lookup id = some e) : ∀ w, p.holder ≠ some (id, w) := by
  intro w holds
  have count := List.nodup_iff_count_le_one.1 once.once id
  have there := List.count_pos_iff.2 (mem_map_of_lookup found)
  simp [calls, holds] at count
  omega

/-- A call that runs an errand waits for nothing else. -/
theorem awaited?_of_errand (once : p.CallsOnce) {e : Errand}
    (found : p.errands.lookup id = some e) : p.awaited? id = some e.awaited := by
  have count := List.nodup_iff_count_le_one.1 once.once id
  have there := List.count_pos_iff.2 (mem_map_of_lookup found)
  simp only [calls, List.count_append] at count
  -- The call is in no other place.
  have elsewhere : p.awaited? id = awaited?.elsewhere p id := by
    unfold awaited?
    split
    · next holder w hp =>
      exact if_neg fun same => once.elsewhere found w (by rw [hp, same])
    · rfl
  have queue : (p.queue.any fun q => q.1 == id) = false := by
    rw [List.any_eq_false]
    intro q hq same
    have := List.count_pos_iff.2 (List.mem_map_of_mem (f := Prod.fst) hq)
    rw [beq_iff_eq.1 same] at this
    omega
  have sleepers : (p.sleepers.find? fun s => s.id == id) = none := by
    rw [List.find?_eq_none]
    intro s hs same
    have := List.count_pos_iff.2 (List.mem_map_of_mem (f := Sleeper.id) hs)
    rw [beq_iff_eq.1 same] at this
    omega
  have roused : (p.roused.any fun s => s.id == id) = false := by
    rw [List.any_eq_false]
    intro s hs same
    have := List.count_pos_iff.2 (List.mem_map_of_mem (f := Sleeper.id) hs)
    rw [beq_iff_eq.1 same] at this
    omega
  simp only [elsewhere, awaited?.elsewhere, queue, sleepers, roused, found, Option.map_some]
  rfl

theorem asking?_of_errand (once : p.CallsOnce) {e : Errand} (found : p.errands.lookup id = some e) :
    p.asking? id = e.request? := by
  rw [asking?, awaited?_of_errand once found, Errand.request?]
  cases e.awaited <;> rfl

/-- A caller that sleeps asks nothing. -/
theorem asking?_of_sleeper (once : p.CallsOnce) (asleep : id ∈ p.sleepers.map Sleeper.id) :
    p.asking? id = none := by
  have count := List.nodup_iff_count_le_one.1 once.once id
  have there := List.count_pos_iff.2 asleep
  rw [Option.eq_none_iff_forall_ne_some]
  intro r h
  obtain ⟨w, holds, -⟩ | ⟨e, found, -⟩ := asking?_eq_some h
  · simp [calls, holds] at count
    omega
  · have errand := List.count_pos_iff.2 (mem_map_of_lookup found)
    simp only [calls, List.count_append] at count
    omega

/-- Nor does a call that wants the lock. -/
theorem asking?_lock (t : Turn) (id : CallId) (intent : Intent) (free : t.pool.holder ≠ none →
    ∀ w, t.pool.holder ≠ some (id, w)) : (t.lock id intent).pool.asking? id = none := by
  cases h : t.pool.holder with
  | none =>
    have holds : (t.lock id intent).pool.holder = some (id, .begin intent) := by
      simp only [Turn.lock, h, Turn.work]
    rw [asking?_of_holder holds]
    rfl
  | some held =>
    obtain ⟨holder, w⟩ := held
    have other : holder ≠ id := fun same =>
      free (by rw [h]; exact Option.some_ne_none _) w (by rw [h, same])
    simp [Turn.lock, asking?, awaited?, awaited?.elsewhere, h, other]

end Pool

namespace Move

/-- The request that the pool makes at the end of a turn. A call that waits for an answer as soon
    as it begins makes the request of a handle. -/
def asked? (v : Move) : Option Request :=
  match v.event with
  | .resume id _ _ => v.after.asking? id
  | _ => none

/-- The request that has succeeded, as a call learns in its turn. -/
def fulfilled? (v : Move) : Option Request :=
  match v.event with
  | .resume id (.answered (.ok ())) _ => v.before.asking? id
  | _ => none

/-- The moment of a turn, unless a call is dropped. -/
def moment? (v : Move) : Option Moment :=
  match v.event with
  | .start _ m => some m
  | .resume _ _ m => some m
  | .drop _ => none

variable {v : Move} {m : Moment} {w w' : Work} {s : Signal} {x : Ending} {r : Request}

/-! ## The holder of the lock -/

namespace Continues

theorem asked?_eq (h : v.Continues m w s x) : v.asked? = v.after.asking? v.caller := by
  simp only [asked?, h.event]

theorem moment?_eq (h : v.Continues m w s x) : v.moment? = some m := by
  simp only [moment?, h.event]

/-- A call that learns of a success has made the request of its work. -/
theorem fulfilled?_eq (h : v.Continues m w (.answered (.ok ())) x) :
    v.fulfilled? = w.request? v.before.books.source := by
  simp only [fulfilled?, h.event, Pool.asking?_of_holder h.holds]

/-- The connection that the holder of the lock receives. -/
theorem opened?_eq (h : v.Continues m w s x) :
    v.opened? = (w.received? s).map fun c => (v.before.nextConnection, c) := by
  simp only [opened?, h.event, h.holds, if_true]

/-- A call that goes on with some work holds the lock. -/
theorem holder_work (h : v.Continues m w s (.work w')) : v.after.holder = some (v.caller, w') := by
  obtain ⟨q, -, after⟩ := h.after
  rw [after]
  rfl

theorem hand_eq (h : v.Continues m w s x) : v.after.hand = x.hand := by
  obtain ⟨q, -, after⟩ := h.after
  rw [after, Pool.hand_ended]

/-- A call that goes on with some work makes the request of that work. -/
theorem asked?_work (h : v.Continues m w s (.work w')) :
    v.asked? = w'.request? v.after.books.source := by
  rw [h.asked?_eq, Pool.asking?_of_holder h.holder_work]

/-- A call that is over is in no place. -/
theorem not_mem_calls (h : v.Continues m w s x) (once : v.before.CallsOnce)
    (ended : x.outcome?.isSome) : v.caller ∉ v.after.calls := by
  obtain ⟨q, same, after⟩ := h.after
  have calls : q.calls = v.before.calls := same.calls
  rw [after]
  exact Pool.not_mem_calls_ended (same.holder.trans h.holds) (calls ▸ once.once) ended

/-- A call that goes on with no work makes no request. -/
theorem exists_work (h : v.Continues m w s x) (once : v.before.CallsOnce)
    (asked : v.asked? = some r) : ∃ w', x = .work w' ∧ w'.request? v.after.books.source = some r := by
  obtain ⟨q, same, after⟩ := h.after
  have holds : q.holder = some (v.caller, w) := same.holder.trans h.holds
  have calls : q.calls = v.before.calls := same.calls
  have concluded (ended : x.outcome?.isSome) : False :=
    h.not_mem_calls once ended (Pool.mem_calls_of_asking? (h.asked?_eq ▸ asked))
  cases x with
  | work w' => exact ⟨w', rfl, by rw [← h.asked?_work, asked]⟩
  | finished o => exact absurd rfl concluded
  | freed o => exact absurd rfl concluded
  | asleep a since limit =>
    have once' : v.after.CallsOnce := by
      rw [after]
      refine ⟨nodup_of_subperm (Pool.calls_ended holds) (calls ▸ once.once), fun i hi => ?_⟩
      rw [Pool.nextCall_ended, same.nextCall]
      exact once.numbered i (calls ▸ (Pool.calls_ended holds).subset hi)
    have asleep : v.caller ∈ v.after.sleepers.map Sleeper.id := by
      rw [after, Pool.ended]
      cases hq : q.queue <;> simp [Pool.passLock]
    rw [h.asked?_eq, Pool.asking?_of_sleeper once' asleep] at asked
    cases asked

end Continues

end Move

/-! ## All turns -/

/-- The candidate of an acquisition that is dropped, which a call of its own closes. -/
def Work.guarded? : Work → Option Entry
  | .reclaim _ e _ | .examine _ e _ | .prepare _ e => some e
  | _ => none

/-- The errand that closes the candidate of an acquisition that is dropped. -/
def Work.orphan? (w : Work) : Option Errand :=
  w.guarded?.map fun e => .discard e.physical false

namespace Pool

variable {p : Pool} {e : Event} {t : Turn}

/-- When the holder of the lock is dropped, the lock is given on and its candidate is left to an
    errand. -/
theorem exists_dropWork (p : Pool) (w : Work) : ∃ q : Pool, (p.turn.dropWork w).pool = q.passLock ∧
    q.books = p.books ∧ q.queue = p.queue ∧ q.sleepers = p.sleepers ∧ q.roused = p.roused ∧
      q.errands = p.errands ++ (w.orphan?.map fun e => (p.nextCall, e)).toList := by
  have plain : ∃ q : Pool, p.turn.unlock.pool = q.passLock ∧ q.books = p.books ∧ q.queue = p.queue ∧
      q.sleepers = p.sleepers ∧ q.roused = p.roused ∧ q.errands = p.errands ++ [] :=
    ⟨p, Turn.pool_unlock _, rfl, rfl, rfl, rfl, (List.append_nil _).symm⟩
  have abandoned (e : Entry) : ∃ q : Pool, (p.turn.abandon e).pool = q.passLock ∧ q.books = p.books ∧
      q.queue = p.queue ∧ q.sleepers = p.sleepers ∧ q.roused = p.roused ∧
        q.errands = p.errands ++ [(p.nextCall, .discard e.physical false)] :=
    ⟨_, Turn.pool_unlock _, rfl, rfl, rfl, rfl, rfl⟩
  -- Only a candidate is guarded, and only a sleeper that has woken up is still counted as waiting.
  cases w with
  | begin intent =>
    cases intent with
    | awaken a since => exact ⟨p.turn.stopWaiting.pool, Turn.pool_unlock _, rfl, rfl, rfl, rfl,
        (List.append_nil _).symm⟩
    | _ => exact plain
  | reclaim a e lookedAt => exact abandoned e
  | examine a e c => exact abandoned e
  | prepare a e => exact abandoned e
  | _ => exact plain

/-- A call that is dropped while it has the lock is in no place any more. -/
theorem not_mem_calls_dropWork (once : p.CallsOnce) {i : CallId} {w : Work}
    (holds : p.holder = some (i, w)) : i ∉ (p.turn.dropWork w).pool.calls := by
  have new : i ≠ p.nextCall := Nat.ne_of_lt (once.numbered i (mem_calls_of_holder holds))
  have calls := once.once
  rw [calls_passLock holds, List.nodup_cons] at calls
  obtain ⟨q, dropped, -, queue, sleepers, roused, errands⟩ := p.exists_dropWork w
  have left : q.passLock.calls = p.passLock.calls ++
      (w.orphan?.map fun e => (p.nextCall, e)).toList.map Prod.fst := by
    cases hq : p.queue <;> simp [Pool.calls, passLock, queue, hq, sleepers, roused, errands]
  rw [dropped, left, List.mem_append, not_or]
  refine ⟨calls.1, ?_⟩
  cases w.orphan? with
  | none => exact List.not_mem_nil
  | some e => simpa using new

/-- Whatever happens, a call comes to some work only in its own turn, and while it is at its work
    nobody else does anything to the connections. -/
theorem Responds.holder (h : p.Responds e t) (once : p.CallsOnce) {i : CallId} {w : Work}
    (holds : t.pool.holder = some (i, w)) (busy : ∀ intent, w ≠ .begin intent) :
    (∃ m w₀ s, Move.Continues ⟨p, e, t⟩ m w₀ s (.work w) ∧ Move.caller ⟨p, e, t⟩ = i) ∨
      p.holder = some (i, w) ∧ Move.caller ⟨p, e, t⟩ ≠ i ∧ t.pool.custody = p.custody := by
  -- Where the lock is given on, the call that gets it has not begun.
  have passed {q : Pool} (hq : q.passLock.holder = some (i, w)) : False := by
    cases queue : q.queue <;> simp only [passLock, queue] at hq
    · cases hq
    · injection hq with hq
      injection hq with _ hq
      exact busy _ hq.symm
  have locked {u : Turn} {id : CallId} {intent : Intent}
      (hu : (u.lock id intent).pool.holder = some (i, w)) : u.pool.holder = some (i, w) := by
    cases free : u.pool.holder with
    | none =>
      simp only [Turn.lock, free, Turn.work] at hu
      injection hu with hu
      injection hu with _ hu
      exact absurd hu.symm (busy _)
    | some _ => simpa only [Turn.lock, free] using hu
  have other {id : CallId} (elsewhere : ∀ w, p.holder ≠ some (id, w))
      (held : p.holder = some (i, w)) : id ≠ i := fun same => elsewhere w (same ▸ held)
  have new (held : p.holder = some (i, w)) : p.nextCall ≠ i :=
    Nat.ne_of_gt (once.numbered i (mem_calls_of_holder held))
  cases h with
  | enter ns intent => exact .inr ⟨locked holds, new (locked holds), custody_lock _ _ _⟩
  | decline ns e => exact .inr ⟨holds, new holds, rfl⟩
  | send request => exact .inr ⟨holds, new holds, rfl⟩
  | @goOn id w₀ s m t held h =>
    obtain ⟨x, hx⟩ := Move.exists_continues held h
    obtain ⟨q, -, after⟩ := hx.after
    change (Move.after ⟨p, .resume id s m, t⟩).holder = some (i, w) at holds
    rw [after] at holds
    cases x with
    | work w' =>
      injection holds with holds
      injection holds with same work
      subst work
      exact .inl ⟨m, w₀, s, hx, same⟩
    | finished o => exact (passed holds).elim
    | freed o => exact (passed holds).elim
    | asleep a since limit => exact (passed holds).elim
  | relock elsewhere found =>
    exact .inr ⟨locked holds, other elsewhere (locked holds), custody_lock _ _ _⟩
  | getUp elsewhere found due =>
    exact .inr ⟨locked holds, other elsewhere (locked holds), custody_lock _ _ _⟩
  | errand elsewhere found h =>
    have same : t.pool.holder = p.holder := by
      unfold Turn.advanceErrand at h
      split at h <;> cases h <;> rfl
    exact .inr ⟨same ▸ holds, other elsewhere (same ▸ holds), (custody_advanceErrand h).1⟩
  | @cut id w₀ held =>
    obtain ⟨q, dropped, -⟩ := p.exists_dropWork w₀
    exact (passed (dropped ▸ holds)).elim
  | @withdraw id intent elsewhere found =>
    have same : (p.turn.dropQueued id intent).pool.holder = p.holder := by cases intent <;> rfl
    exact .inr ⟨same ▸ holds, other elsewhere (same ▸ holds), custody_dropQueued _ _⟩
  | desert elsewhere found => exact .inr ⟨holds, other elsewhere holds, rfl⟩
  | forget elsewhere found => exact .inr ⟨holds, other elsewhere holds, rfl⟩

/-- The call that holds the lock goes on with its work in its turn. -/
theorem Responds.continues {i : CallId} {s : Signal} {m : Moment} {w : Work}
    (h : p.Responds (.resume i s m) t) (holds : p.holder = some (i, w)) :
    ∃ x, Move.Continues ⟨p, .resume i s m, t⟩ m w s x := by
  cases h with
  | goOn holds' h =>
    obtain ⟨-, rfl⟩ := holder_unique holds holds'
    exact Move.exists_continues holds h
  | relock elsewhere found => exact absurd holds (elsewhere w)
  | getUp elsewhere found due => exact absurd holds (elsewhere w)
  | errand elsewhere found h => exact absurd holds (elsewhere w)

/-- The books change only in a turn of the call that holds the lock. -/
theorem Responds.books (h : p.Responds e t) :
    t.pool.books = p.books ∨ ∃ m w s x, Move.Continues ⟨p, e, t⟩ m w s x := by
  have same (h : t.pool.custody = p.custody) : t.pool.books = p.books := congrArg Custody.books h
  cases h with
  | enter ns intent => exact .inl (same (custody_lock _ _ _))
  | decline ns e => exact .inl rfl
  | send request => exact .inl rfl
  | goOn holds h =>
    obtain ⟨x, hx⟩ := Move.exists_continues holds h
    exact .inr ⟨_, _, _, x, hx⟩
  | relock elsewhere found => exact .inl (same (custody_lock _ _ _))
  | getUp elsewhere found due => exact .inl (same (custody_lock _ _ _))
  | errand elsewhere found h => exact .inl (same (custody_advanceErrand h).1)
  | @cut id w holds =>
    obtain ⟨q, dropped, books, -⟩ := p.exists_dropWork w
    exact .inl (by rw [dropped, books_passLock, books])
  | withdraw elsewhere found => exact .inl (same (custody_dropQueued _ _))
  | desert elsewhere found => exact .inl rfl
  | forget elsewhere found => exact .inl rfl

/-- No errand of a caller closes a connection. -/
def Modest (p : Pool) : Prop := ∀ q ∈ p.errands, ∀ c, q.2 ≠ .ofHandle (.close c)

/-- An errand with another request than to close leaves it so. -/
theorem modest_startErrand (h : p.Modest) (id : CallId) (x : Handle) {r : Request}
    (harmless : ∀ c, r ≠ .close c) : (p.startErrand id x r).pool.Modest := by
  rw [startErrand]
  split
  · intro q hq c
    rcases List.mem_append.1 hq with hq | hq
    · exact h q (List.mem_of_mem_filter hq) c
    · rw [List.mem_singleton.1 hq]
      exact fun same => harmless c (Errand.ofHandle.inj same)
  · exact h

theorem errands_lock (t : Turn) (id : CallId) (intent : Intent) :
    (t.lock id intent).pool.errands = t.pool.errands := by
  cases h : t.pool.holder <;> simp only [Turn.lock, Turn.work, h]

/-- A call that begins asks no connection to close, since handles offer no such request. -/
theorem modest_start (h : p.Modest) (op : Op) (m : Moment) : (p.start op m).2.pool.Modest := by
  have locks (t : Turn) (same : t.pool.errands = p.errands) (intent : Intent) :
      (t.lock p.nextCall intent).pool.Modest := by
    rw [Modest, errands_lock, same]
    exact h
  cases op with
  | acquire login timeout => exact locks _ rfl _
  | release x =>
    rw [start]
    dsimp only
    split
    · exact locks _ rfl _
    · exact h
  | reset r =>
    cases r with
    | closeAll => exact locks _ rfl _
    | replace policy =>
      rw [start]
      dsimp only [startReset]
      split
      · exact locks _ rfl _
      · exact h
    | configure change => exact locks _ rfl _
    | redirect change => exact locks _ rfl _
  | inquire q => exact locks _ rfl _
  | probe x query => exact modest_startErrand (p := p.numbered) h _ x (r := .probe x.physical query) (by simp)
  | rollback x => exact modest_startErrand (p := p.numbered) h _ x (r := .rollback x.physical) (by simp)

theorem errands_passLock (p : Pool) : p.passLock.errands = p.errands := by
  cases h : p.queue <;> simp only [passLock, h]

theorem errands_ended (id : CallId) (x : Ending) : (p.ended id x).errands = p.errands := by
  cases x with
  | work w => rfl
  | finished o => exact errands_passLock p
  | freed o => exact errands_passLock p
  | asleep a since limit => exact errands_passLock _

/-- The holder of the lock does nothing to the errands in its turn. -/
theorem errands_of_continues {v : Move} {m : Moment} {w : Work} {s : Signal} {x : Ending}
    (h : v.Continues m w s x) : v.after.errands = v.before.errands := by
  obtain ⟨q, same, after⟩ := h.after
  rw [after, errands_ended, same.errands]

/-- Every errand after a turn was there before, or closes a connection that nobody waits for, or
    the call has just begun. -/
theorem Responds.errands (h : p.Responds e t) : ∀ q ∈ t.pool.errands,
    q ∈ p.errands ∨ (∃ c begun, q.2 = .discard c begun) ∨ ∃ op m, e = .start op m := by
  cases h with
  | enter ns intent => exact fun q hq => .inr (.inr ⟨_, _, rfl⟩)
  | decline ns e => exact fun q hq => .inr (.inr ⟨_, _, rfl⟩)
  | send request => exact fun q hq => .inr (.inr ⟨_, _, rfl⟩)
  | @goOn id w s m t held h =>
    intro q hq
    obtain ⟨x, hx⟩ := Move.exists_continues held h
    exact .inl (errands_of_continues hx ▸ hq)
  | relock elsewhere found =>
    intro q hq
    rw [Turn.relock, errands_lock] at hq
    exact .inl hq
  | getUp elsewhere found due =>
    intro q hq
    rw [Turn.relock, errands_lock] at hq
    exact .inl hq
  | errand elsewhere found h =>
    intro q hq
    unfold Turn.advanceErrand at h
    split at h <;> cases h
    · rcases List.mem_append.1 hq with hq | hq
      · exact .inl (List.mem_of_mem_filter hq)
      · exact .inr (.inl ⟨_, _, congrArg Prod.snd (List.mem_singleton.1 hq)⟩)
    all_goals exact .inl (List.mem_of_mem_filter hq)
  | @cut id w held =>
    intro q hq
    obtain ⟨q', dropped, -, -, -, -, errands⟩ := p.exists_dropWork w
    rw [dropped, errands_passLock, errands, List.mem_append] at hq
    refine hq.imp_right fun hq => .inl ?_
    cases w <;> simp [Work.orphan?, Work.guarded?] at hq <;> exact ⟨_, _, congrArg Prod.snd hq⟩
  | @withdraw id intent elsewhere found =>
    intro q hq
    refine .inl ?_
    cases intent <;> exact hq
  | desert elsewhere found => exact fun q hq => .inl hq
  | forget elsewhere found => exact fun q hq => .inl (List.mem_of_mem_filter hq)

/-- No turn adds an errand of a caller that closes a connection. -/
theorem Modest.respond (h : p.Modest) (ht : p.respond e = some t) : t.pool.Modest := by
  intro q hq c
  obtain hq | ⟨c', begun, hq⟩ | ⟨op, m, rfl⟩ :=
    (responds_of_respond ht).errands q hq
  · exact h q hq c
  · rw [hq]
    exact Errand.noConfusion
  · cases ht
    exact modest_start h op m q hq c

theorem lookup_filter_ne {α : Type} (l : List (CallId × α)) (id : CallId) :
    (l.filter fun q => q.1 != id).lookup id = none := by
  rw [List.lookup_eq_none_iff]
  intro q hq
  rw [bne_comm]
  exact (List.mem_filter.1 hq).2

/-- A request of the pool is that of the work with which the holder of the lock goes on, or that
    of an errand that begins to close a connection. -/
theorem Responds.asked? (h : p.Responds e t) (once : p.CallsOnce) {r : Request}
    (asked : Move.asked? ⟨p, e, t⟩ = some r) :
    (∃ m w s w', Move.Continues ⟨p, e, t⟩ m w s (.work w') ∧
        w'.request? t.pool.books.source = some r) ∨
      ∃ id m c, e = .resume id .proceed m ∧ p.errands.lookup id = some (.discard c false) ∧
        t = p.turn.errand id (.discard c true) ∧ r = .close c := by
  have once' : t.pool.CallsOnce := once.follows (follows_of_responds h)
  have locked {u : Turn} {id : CallId} {intent : Intent}
      (free : ∀ w, u.pool.holder ≠ some (id, w))
      (asked : (u.lock id intent).pool.asking? id = some r) : False := by
    rw [asking?_lock u id intent fun _ => free] at asked
    cases asked
  cases h with
  | enter ns intent => cases asked
  | decline ns e => cases asked
  | send request => cases asked
  | goOn held h =>
    obtain ⟨x, hx⟩ := Move.exists_continues held h
    obtain ⟨w', rfl, request⟩ := hx.exists_work once asked
    exact .inl ⟨_, _, _, w', hx, request⟩
  | @relock id m s elsewhere found =>
    obtain ⟨rfl, -⟩ := mem_map_of_find? found
    change (Turn.lock _ s.id _).pool.asking? s.id = some r at asked
    exact (locked elsewhere asked).elim
  | @getUp id m s elsewhere found due =>
    obtain ⟨rfl, -⟩ := mem_map_of_find? found
    change (Turn.lock _ s.id _).pool.asking? s.id = some r at asked
    exact (locked elsewhere asked).elim
  | @errand id s m x t elsewhere found h =>
    obtain ⟨w, holds, -⟩ | ⟨e', found', request⟩ := asking?_eq_some asked
    · have same : t.pool.holder = p.holder := by
        unfold Turn.advanceErrand at h
        split at h <;> cases h <;> rfl
      exact absurd (same ▸ holds) (elsewhere w)
    · unfold Turn.advanceErrand at h
      split at h <;> cases h
      · next c =>
        -- The errand is the only one of its call.
        change ((p.errands.filter fun q => q.1 != id) ++
          [(id, Errand.discard c true)]).lookup id = some e' at found'
        rw [List.lookup_append, lookup_filter_ne, Option.none_or, List.lookup_cons_self] at found'
        obtain rfl := Option.some.inj found'
        exact .inr ⟨id, m, c, rfl, found, rfl, (Option.some.inj request).symm⟩
      all_goals
        change (p.errands.filter fun q => q.1 != id).lookup id = some e' at found'
        rw [lookup_filter_ne] at found'
        cases found'
  | cut held => cases asked
  | withdraw elsewhere found => cases asked
  | desert elsewhere found => cases asked
  | forget elsewhere found => cases asked

theorem modest_opened (id : PoolId) (source : DataSource) (policy : Policy) :
    (opened id source policy).Modest :=
  fun _ hq => absurd hq List.not_mem_nil

end Pool

/-! ## Since when a call is at its work -/

namespace Run

/-- In the move `u` the call `i` has come to its work `w`. In the moves since then, `between`, it
    has held the lock, and others have done nothing to the connections. -/
structure AtWork (r : Run) (i : CallId) (w : Work) (between : List Move) (u : Move)
    (earlier : List Move) : Prop where
  split : r.moves = between ++ u :: earlier
  begun : ∃ m w₀ s, u.Continues m w₀ s (.work w)
  caller : u.caller = i
  custody : u.after.custody = r.pool.custody
  others : ∀ x ∈ between, x.caller ≠ i ∧ x.before.custody = r.pool.custody

namespace Of

variable {id : PoolId} {source : DataSource} {policy : Policy} {r : Run}

theorem callsOnce (h : Of (.opened id source policy) r) : r.pool.CallsOnce := by
  induction h with
  | start => exact Pool.callsOnce_opened id source policy
  | move _ ht ih => exact ih.respond ht

/-- The numbers of the callers have been given. -/
theorem caller_lt (h : Of (.opened id source policy) r) {u : Move} (hu : u ∈ r.moves) :
    u.caller < r.pool.nextCall := by
  induction h with
  | start => cases hu
  | @move r e t h ht ih =>
    have responds := Pool.responds_of_respond ht
    have le := (Pool.follows_of_responds responds).nextCall_le
    rcases List.mem_cons.1 hu with rfl | hu
    · obtain ⟨new, next⟩ | there := Pool.caller_of_responds responds
      · rw [new, pool_move, next]
        exact Nat.lt_succ_self _
      · exact Nat.lt_of_lt_of_le (h.callsOnce.numbered _ there) le
    · exact Nat.lt_of_lt_of_le (ih hu) le

theorem modest (h : Of (.opened id source policy) r) : r.pool.Modest := by
  induction h with
  | start => exact Pool.modest_opened id source policy
  | move _ ht ih => exact ih.respond ht

/-- The call that is at some work has come to it in one of its turns, and has been at it since. -/
theorem exists_atWork (h : Of (.opened id source policy) r) {i : CallId} {w : Work}
    (holds : r.pool.holder = some (i, w)) (busy : ∀ intent, w ≠ .begin intent) :
    ∃ between u earlier, r.AtWork i w between u earlier := by
  induction h with
  | start => cases holds
  | @move r e t h ht ih =>
    obtain ⟨m, w₀, s, begun, caller⟩ | ⟨held, other, custody⟩ :=
      (Pool.responds_of_respond ht).holder h.callsOnce holds busy
    · exact ⟨[], ⟨r.pool, e, t⟩, r.moves, rfl, ⟨m, w₀, s, begun⟩, caller, rfl,
        fun x hx => absurd hx List.not_mem_nil⟩
    · obtain ⟨between, u, earlier, hw⟩ := ih held
      refine ⟨⟨r.pool, e, t⟩ :: between, u, earlier, ?_, hw.begun, hw.caller, ?_, ?_⟩
      · rw [moves_move, hw.split]
        rfl
      · rw [hw.custody, pool_move, custody]
      · rw [List.forall_mem_cons, pool_move, custody]
        exact ⟨⟨other, rfl⟩, hw.others⟩

end Of

end Run

end LeasePool
