import LeasePool.Proofs.Holder
import LeasePool.Proofs.Logins

/-!
# The course of a call

A call that is not an acquisition has the lock once. It begins as soon as it gets the lock; then it
makes one request after the other and learns the answer to each, until it is over. Others have turns
meanwhile, but they do nothing to the connections. So what the call does is told by its own turns
alone, from that in which it begins to that in which it ends (`Run.Course`).

What the turns of a call tell is a list, in the order of the turns (`Run.told`): the requests that
the call makes, with the moment of each, and the answers that it learns.

* `Run.Of.started`: a call that is going to begin has had no turn but its first;
* `Run.Course.holds`: what the beginning of a call establishes, and every turn of the call keeps,
  holds after each of them;
* `Run.Of.asked_eq`: a call makes a request and learns the answer, by turns;
* `Run.Of.goesOn_of_outcome`: a call that began otherwise than as an errand ends with the lock.
-/

namespace LeasePool

/-- The request that a call makes that ends its turn, if it does. -/
def Ending.request? (x : Ending) (source : DataSource) : Option Request :=
  match x with
  | .work w => w.request? source
  | _ => none

namespace Move

/-- The request that a call makes at the end of its turn, with the moment of the turn. -/
def asks? (v : Move) : Option (Moment × Request) :=
  v.moment?.bind fun m => v.asked?.map fun q => (m, q)

/-- The answer that a call learns in its turn, with the request. -/
def learns? (v : Move) : Option (Request × Except PoolError Unit) :=
  match v.event with
  | .resume id (.answered result) _ => (v.before.asking? id).map fun q => (q, result)
  | _ => none

variable {v : Move} {m : Moment} {w w' : Work} {s : Signal} {x : Ending}

theorem asks?_of_start {op : Op} (h : v.event = .start op m) : v.asks? = none := by
  simp only [asks?, moment?, asked?, h, Option.map_none, Option.bind_some]

theorem learns?_of_start {op : Op} (h : v.event = .start op m) : v.learns? = none := by
  simp only [learns?, h]

namespace Continues

/-- A call that is not an acquisition, or does not go on, makes the request of its work, if any. -/
theorem asks?_eq (h : v.Continues m w s x) (once : v.before.CallsOnce)
    (awake : ∀ a since limit, x ≠ .asleep a since limit) :
    v.asks? = (x.request? v.after.books.source).map fun q => (m, q) := by
  have asked : v.asked? = x.request? v.after.books.source := by
    cases x with
    | work w' => exact h.asked?_work
    | asleep a since limit => exact absurd rfl (awake a since limit)
    | _ =>
      refine Option.eq_none_iff_forall_ne_some.2 fun q asked => ?_
      obtain ⟨w', same, -⟩ := h.exists_work once asked
      cases same
  simp only [asks?, h.moment?_eq, asked, Option.bind_some]

theorem learns?_answered {result : Except PoolError Unit}
    (h : v.Continues m w (.answered result) x) :
    v.learns? = (w.request? v.before.books.source).map fun q => (q, result) := by
  simp only [learns?, h.event, Pool.asking?_of_holder h.holds]

/-- A call that begins has learnt nothing but that it is its turn. -/
theorem eq_proceed {intent : Intent} (h : v.Continues m (.begin intent) s x) : s = .proceed := by
  have begun := (begun?_eq_some.1 h.begun?_eq).1.symm.trans h.event
  cases begun
  rfl

theorem learns?_begin {intent : Intent} (h : v.Continues m (.begin intent) s x) :
    v.learns? = none := by
  simp only [learns?, (begun?_eq_some.1 h.begun?_eq).1]

/-- In its turn, the holder of the lock goes on with its work, with what it learns. -/
theorem advanceWork {p : Pool} {e : Event} {t : Turn} (h : Continues ⟨p, e, t⟩ m w s x)
    (ht : p.respond e = some t) : p.turn.advanceWork (caller ⟨p, e, t⟩) m w s = some t := by
  have event : e = .resume (caller ⟨p, e, t⟩) s m := h.event
  have holds : p.holder = some (caller ⟨p, e, t⟩, w) := h.holds
  generalize caller ⟨p, e, t⟩ = i at event holds ⊢
  subst event
  simpa only [Pool.respond, Pool.resume, holds, if_true] using ht

end Continues

end Move

namespace Pool

variable {p : Pool} {e : Event} {t : Turn} {i : CallId} {w w' : Work} {m : Moment} {s : Signal}
  {b : Books} {x : Ending}

/-- The holder of the lock that has begun and is not an acquisition waits for an answer. -/
theorem Sequel.exists_answer (h : p.Sequel m w s b x) (busy : ∀ intent, w ≠ .begin intent)
    (other : w.login? = none) : ∃ result, s = .answered result := by
  cases h with
  | undone | closed | closedAfter | resetUndone | resetClosed => exact ⟨_, rfl⟩
  | look | awaken | missing | misplaced | takeBack | refused | reset | policy | source | snapshot
  | tolerate => exact absurd rfl (busy _)
  | _ => cases other

/-- A call that holds the lock or is queued for it is in no other place. -/
theorem CallsOnce.not_elsewhere (once : p.CallsOnce) (doing : p.Doing i w) :
    i ∉ p.sleepers.map Sleeper.id ∧ i ∉ p.roused.map Sleeper.id ∧
      i ∉ p.errands.map Prod.fst := by
  have here : i ∈ (p.holder.map Prod.fst).toList ++ p.queue.map Prod.fst := by
    cases doing with
    | holds holds => simp [holds]
    | queued queued => simp [List.mem_map_of_mem (f := Prod.fst) queued]
  have calls := once.once
  have split : p.calls = ((p.holder.map Prod.fst).toList ++ p.queue.map Prod.fst) ++
      (p.sleepers.map Sleeper.id ++ (p.roused.map Sleeper.id ++ p.errands.map Prod.fst)) := by
    simp only [Pool.calls, List.append_assoc]
  rw [split, List.nodup_append] at calls
  have apart : ∀ j ∈ p.sleepers.map Sleeper.id ++ (p.roused.map Sleeper.id ++
      p.errands.map Prod.fst), i ≠ j := fun j hj => calls.2.2 i here j hj
  refine ⟨fun hi => apart i ?_ rfl, fun hi => apart i ?_ rfl, fun hi => apart i ?_ rfl⟩ <;>
    simp only [List.mem_append, hi, true_or, or_true]

/-- A call that is at some work, before a turn of its own and after it, has gone on in it. -/
theorem Responds.goesOn_or_other (h : p.Responds e t) (once : p.CallsOnce) (doing : p.Doing i w)
    (still : t.pool.Doing i w') :
    (∃ m w s x, Move.Continues ⟨p, e, t⟩ m w s x) ∨ Move.caller ⟨p, e, t⟩ ≠ i := by
  obtain ⟨awake, unroused, errandless⟩ := once.not_elsewhere doing
  have new : p.nextCall ≠ i := Nat.ne_of_gt (once.numbered i doing.mem_calls)
  -- A call that is at some work is in no other place, so every turn that is not a step of work is
  -- another call's. A drop of its own would have ended the work.
  cases h with
  | enter | decline | send => exact .inr new
  | goOn holds h =>
    obtain ⟨x, goes⟩ := Move.exists_continues holds h
    exact .inl ⟨_, _, _, _, goes⟩
  | relock elsewhere found =>
    obtain ⟨same, there⟩ := mem_map_of_find? found
    exact .inr fun own => unroused (own ▸ there)
  | getUp elsewhere found due =>
    obtain ⟨same, there⟩ := mem_map_of_find? found
    exact .inr fun own => awake (own ▸ there)
  | errand elsewhere found h =>
    exact .inr fun own => errandless (own ▸ mem_map_of_lookup found)
  | @cut j w₀ holds =>
    refine .inr fun own => ?_
    obtain rfl : j = i := own
    exact absurd still.mem_calls (not_mem_calls_dropWork once holds)
  | @withdraw j intent elsewhere found =>
    refine .inr fun own => ?_
    obtain rfl : j = i := own
    have gone : ∀ intent', (j, intent') ∉ p.queue.filter fun q => q.1 != j := fun intent' queued =>
      absurd (List.mem_filter.1 queued).2 (by simp)
    cases intent <;>
      exact match still with
        | .holds holds => elsewhere _ holds
        | .queued queued => gone _ queued
  | @desert j elsewhere found =>
    refine .inr fun own => ?_
    obtain rfl : j = i := own
    obtain ⟨c, there, same⟩ := List.any_eq_true.1 found
    rcases List.mem_append.1 there with there | there
    · exact awake (beq_iff_eq.1 same ▸ List.mem_map_of_mem there)
    · exact unroused (beq_iff_eq.1 same ▸ List.mem_map_of_mem there)
  | forget elsewhere found => exact .inr fun own => errandless (own ▸ mem_map_of_lookup found)

/-- An errand is run by a call that has run it before, or has just got its number. -/
theorem Responds.errand_calls (h : p.Responds e t) (runs : i ∈ t.pool.errands.map Prod.fst) :
    i ∈ p.errands.map Prod.fst ∨ i = p.nextCall := by
  have kept {j : CallId} (there : i ∈ (p.errands.filter fun q => q.1 != j).map Prod.fst) :
      i ∈ p.errands.map Prod.fst := (List.filter_sublist.map Prod.fst).subset there
  have added {q : CallId × Errand} {qs : List (CallId × Errand)}
      (there : i ∈ (qs ++ [q]).map Prod.fst) : i ∈ qs.map Prod.fst ∨ i = q.1 := by
    simpa only [List.map_append, List.map_singleton, List.mem_append, List.mem_singleton]
      using there
  -- Only a request of a handle and a guard that closes add to the errands.
  cases h with
  | enter ns intent =>
    rw [errands_lock] at runs
    exact .inl runs
  | decline ns e => exact .inl runs
  | send request => exact (added runs).imp_left kept
  | goOn holds h =>
    obtain ⟨x, goes⟩ := Move.exists_continues holds h
    exact .inl (errands_of_continues goes ▸ runs)
  | relock elsewhere found =>
    rw [Turn.relock, errands_lock] at runs
    exact .inl runs
  | getUp elsewhere found due =>
    rw [Turn.relock, errands_lock] at runs
    exact .inl runs
  | errand elsewhere found h =>
    unfold Turn.advanceErrand at h
    split at h <;> cases h
    · exact .inl ((added runs).elim kept fun own => own ▸ mem_map_of_lookup found)
    all_goals exact .inl (kept runs)
  | @cut j w holds =>
    obtain ⟨q, dropped, -, -, -, -, errands⟩ := p.exists_dropWork w
    rw [dropped, errands_passLock, errands] at runs
    cases orphan : w.orphan? with
    | none =>
      rw [orphan, Option.map_none, Option.toList_none, List.append_nil] at runs
      exact .inl runs
    | some q =>
      rw [orphan] at runs
      exact added runs
  | @withdraw j intent elsewhere found => cases intent <;> exact .inl runs
  | desert elsewhere found => exact .inl runs
  | forget elsewhere found => exact .inl (kept runs)

/-- A call that begins with an intent runs no errand. -/
theorem errands_start {op : Op} {intent : Intent} (intends : op.intent? m = some intent) :
    (p.start op m).2.pool.errands = p.errands := by
  cases op with
  | probe | rollback => cases intends
  | release x =>
    rw [start]
    dsimp only
    split
    · exact errands_lock _ _ _
    · rfl
  | reset r =>
    cases r with
    | replace policy =>
      rw [start]
      dsimp only [startReset]
      split
      · exact errands_lock _ _ _
      · rfl
    | _ => exact errands_lock _ _ _
  | _ => exact errands_lock _ _ _

/-- A call that is over is in no place. -/
theorem Responds.not_mem_calls_of_outcome (h : p.Responds e t) (once : p.CallsOnce)
    (ended : t.outcome.isSome) : Move.caller ⟨p, e, t⟩ ∉ t.pool.calls := by
  have silent (quiet : t.outcome = none) : False := by
    rw [quiet] at ended
    cases ended
  cases h with
  | enter ns intent => exact (silent (outcome_lock _ _ _)).elim
  | decline ns e => exact fun there => Nat.lt_irrefl _ (once.numbered _ there)
  | send request => exact (silent rfl).elim
  | goOn holds h =>
    obtain ⟨x, goes⟩ := Move.exists_continues holds h
    exact goes.not_mem_calls once (goes.outcome ▸ ended)
  | relock elsewhere found => exact (silent (by rw [Turn.relock, outcome_lock]; rfl)).elim
  | getUp elsewhere found due => exact (silent (by rw [Turn.relock, outcome_lock]; rfl)).elim
  | @errand j s m q t elsewhere found h =>
    -- Its errand is the only place where it has been.
    have sub := cons_filter_subperm (mem_map_of_lookup found)
    have single (same : t.pool.calls = (p.holder.map Prod.fst).toList ++ p.queue.map Prod.fst ++
        p.sleepers.map Sleeper.id ++ p.roused.map Sleeper.id ++
        (p.errands.filter fun q => q.1 != j).map Prod.fst) : j ∉ t.pool.calls := by
      have left : (j :: t.pool.calls).Subperm p.calls := by
        rw [same]
        exact List.perm_middle.symm.subperm.trans ((List.Subperm.refl _).append sub)
      exact (List.nodup_cons.1 (nodup_of_subperm left once.once)).1
    unfold Turn.advanceErrand at h
    split at h <;> cases h
    · cases ended
    all_goals exact single rfl
  | cut holds => exact (silent (outcome_dropWork _)).elim
  | withdraw elsewhere found => exact (silent (outcome_dropQueued _ _)).elim
  | desert elsewhere found => exact (silent rfl).elim
  | forget elsewhere found => exact (silent rfl).elim

end Pool

/-! ## What the turns of a call tell -/

namespace Run

/-- What the turns of a call tell, in their order. -/
def told {α : Type} (f : Move → Option α) (i : CallId) : List Move → List α
  | [] => []
  | v :: before => told f i before ++ if v.caller = i then (f v).toList else []

section Told

variable {α : Type} {f : Move → Option α} {i : CallId} {v : Move} {before moves : List Move}

theorem told_cons_self (h : v.caller = i) :
    told f i (v :: before) = told f i before ++ (f v).toList := by
  rw [told, if_pos h]

theorem told_cons_of_ne (h : v.caller ≠ i) : told f i (v :: before) = told f i before := by
  rw [told, if_neg h, List.append_nil]

/-- A call whose turns tell nothing has told nothing. -/
theorem told_eq_nil (h : ∀ v ∈ moves, v.caller = i → f v = none) : told f i moves = [] := by
  induction moves with
  | nil => rfl
  | cons v before ih =>
    rw [List.forall_mem_cons] at h
    rw [told, ih h.2, List.nil_append]
    split
    · next own =>
      rw [h.1 own]
      rfl
    · rfl

end Told

variable {id : PoolId} {source : DataSource} {policy : Policy} {r : Run} {e : Event} {t : Turn}
  {i : CallId} {w : Work} {intent : Intent}

/-- A call has begun in a turn with some intent, and has had no other turn. -/
structure Enters (r : Run) (i : CallId) (intent : Intent) (v : Move) : Prop where
  mem : v ∈ r.moves
  caller : v.caller = i
  began : ∃ op m, v.event = .start op m ∧ op.intent? m = some intent
  only : ∀ u ∈ r.moves, u.caller = i → u = v

/-- A call that has only entered has asked nothing and learnt nothing. -/
theorem Enters.told_eq_nil {v : Move} (h : r.Enters i intent v) :
    told Move.asks? i r.moves = [] ∧ told Move.learns? i r.moves = [] := by
  obtain ⟨op, m, event, -⟩ := h.began
  exact ⟨Run.told_eq_nil fun u hu own => h.only u hu own ▸ Move.asks?_of_start event,
    Run.told_eq_nil fun u hu own => h.only u hu own ▸ Move.learns?_of_start event⟩

namespace Of

/-- A call that is going to begin, and has not slept, has had no turn but its first. -/
theorem started (h : Of (.opened id source policy) r) (doing : r.pool.Doing i (.begin intent))
    (other : intent.login? = none) : ∃ v, r.Enters i intent v := by
  induction h with
  | start => cases doing.mem_calls
  | @move r e t h ht ih =>
    have once := h.callsOnce
    have responds := Pool.responds_of_respond ht
    have comes := Pool.comes_of_respond ht once doing
    generalize hw : Work.begin intent = w at comes
    -- It was going to begin before, or it enters in this turn. No work comes back to this intent,
    -- and whoever has slept has a login.
    cases comes with
    | stays before others =>
      subst hw
      obtain ⟨v, mem, caller, began, only⟩ := ih before
      refine ⟨v, List.mem_cons_of_mem _ mem, caller, began, List.forall_mem_cons.2 ⟨?_, only⟩⟩
      intro own
      obtain ⟨m, w, s, x, goes⟩ | elsewhere := responds.goesOn_or_other once before doing
      · exact absurd own (others m w s x goes)
      · exact absurd own elsewhere
    | goesOn goes caller =>
      subst hw
      exact absurd other goes.sequel.acquires_of_begin
    | starts event new intends own =>
      injection hw with same
      refine ⟨⟨r.pool, e, t⟩, List.mem_cons_self, ?_, ⟨_, _, event, same ▸ intends⟩,
        List.forall_mem_cons.2 ⟨fun _ => rfl, fun u hu earlier => ?_⟩⟩
      · subst event
        exact new.symm
      · exact absurd (h.caller_lt hu) (by rw [earlier, new]; exact Nat.lt_irrefl _)
    | wakes asleep caller =>
      cases hw
      cases other

end Of

/-- A call has begun in one of some moves, and `P` holds of what it has done since: of the turn in
    which it has begun, of what it has asked and learnt, of the connections, and of how its last
    turn has ended. -/
def Underway (P : Move → List (Moment × Request) → List (Request × Except PoolError Unit) →
    Custody → Ending → Prop) (i : CallId) (moves : List Move) (c : Custody) (x : Ending) : Prop :=
  ∃ between u earlier, moves = between ++ u :: earlier ∧ u.caller = i ∧
    (∃ intent m, u.begun? = some (intent, m) ∧ intent.login? = none) ∧
    P u (told Move.asks? i moves) (told Move.learns? i moves) c x

/-- The beginning of a call that is not an acquisition establishes `P`, and every later turn of the
    call keeps it. -/
structure Course (id : PoolId) (source : DataSource) (policy : Policy)
    (P : Move → List (Moment × Request) → List (Request × Except PoolError Unit) → Custody →
      Ending → Prop) : Prop where
  begins : ∀ {r : Run} {e : Event} {t : Turn} {m : Moment} {intent : Intent} {x : Ending},
    Of (.opened id source policy) r → r.pool.respond e = some t →
    Move.Continues ⟨r.pool, e, t⟩ m (.begin intent) .proceed x → intent.login? = none →
    P ⟨r.pool, e, t⟩ (Move.asks? ⟨r.pool, e, t⟩).toList [] t.pool.custody x
  goesOn : ∀ {r : Run} {e : Event} {t : Turn} {m : Moment} {w : Work} {x : Ending}
    {result : Except PoolError Unit} {u : Move} {asked : List (Moment × Request)}
    {learnt : List (Request × Except PoolError Unit)},
    Of (.opened id source policy) r → r.pool.respond e = some t →
    Move.Continues ⟨r.pool, e, t⟩ m w (.answered result) x → w.login? = none →
    P u asked learnt r.pool.custody (.work w) →
    P u (asked ++ (Move.asks? ⟨r.pool, e, t⟩).toList)
      (learnt ++ (Move.learns? ⟨r.pool, e, t⟩).toList) t.pool.custody x

namespace Course

variable {P : Move → List (Moment × Request) → List (Request × Except PoolError Unit) →
    Custody → Ending → Prop} {m : Moment} {s : Signal} {x : Ending}

/-- What holds while a call is at some work holds after its next turn. -/
theorem turn (k : Course id source policy P) (h : Of (.opened id source policy) r)
    (ht : r.pool.respond e = some t) (goes : Move.Continues ⟨r.pool, e, t⟩ m w s x)
    (other : w.login? = none)
    (before : (∀ intent, w ≠ .begin intent) →
      Underway P (Move.caller ⟨r.pool, e, t⟩) r.moves r.pool.custody (.work w)) :
    Underway P (Move.caller ⟨r.pool, e, t⟩) (r.move e t).moves t.pool.custody x := by
  rw [Underway, moves_move, told_cons_self rfl, told_cons_self rfl]
  -- A course begins with the first turn of work, and from then on each turn continues the one
  -- before.
  by_cases begun : ∃ intent, w = .begin intent
  · obtain ⟨intent, rfl⟩ := begun
    obtain ⟨v, enters⟩ := h.started (.holds goes.holds) other
    obtain ⟨none_asked, none_learnt⟩ := enters.told_eq_nil
    obtain rfl := goes.eq_proceed
    refine ⟨[], _, r.moves, rfl, rfl, ⟨intent, m, goes.begun?_eq, other⟩, ?_⟩
    rw [none_asked, none_learnt, goes.learns?_begin]
    exact k.begins h ht goes other
  · have busy : ∀ intent, w ≠ .begin intent := fun intent same => begun ⟨intent, same⟩
    obtain ⟨result, rfl⟩ := goes.sequel.exists_answer busy other
    obtain ⟨between, u, earlier, split, caller, begins, before⟩ := before busy
    exact ⟨_ :: between, u, earlier, congrArg _ split, caller, begins,
      k.goesOn h ht goes other before⟩

/-- What a course says is true of the call that is at its work. -/
theorem underway (k : Course id source policy P) (h : Of (.opened id source policy) r)
    (holds : r.pool.holder = some (i, w)) (busy : ∀ intent, w ≠ .begin intent)
    (other : w.login? = none) : Underway P i r.moves r.pool.custody (.work w) := by
  induction h generalizing w with
  | start => cases holds
  | @move r e t h ht ih =>
    obtain ⟨m, w₀, s, goes, rfl⟩ | ⟨held, elsewhere, custody⟩ :=
      (Pool.responds_of_respond ht).holder h.callsOnce holds busy
    · have none_login : w₀.login? = none := (goes.sequel.remains.login rfl).symm.trans other
      exact k.turn h ht goes none_login fun busy => ih goes.holds busy none_login
    · obtain ⟨between, u, earlier, split, caller, begins, before⟩ := ih held busy other
      rw [Underway, moves_move, told_cons_of_ne elsewhere, told_cons_of_ne elsewhere, pool_move,
        custody]
      exact ⟨_ :: between, u, earlier, congrArg _ split, caller, begins, before⟩

/-- What the beginning of a call establishes and its turns keep holds after each of them. -/
theorem holds (k : Course id source policy P) (h : Of (.opened id source policy) r)
    (ht : r.pool.respond e = some t) (goes : Move.Continues ⟨r.pool, e, t⟩ m w s x)
    (other : w.login? = none) :
    Underway P (Move.caller ⟨r.pool, e, t⟩) (r.move e t).moves t.pool.custody x :=
  k.turn h ht goes other fun busy => k.underway h goes.holds busy other

end Course

namespace Of

/-- A call has learnt the answer to everything that it has asked but the last. -/
theorem asked_eq (h : Of (.opened id source policy) r) (ht : r.pool.respond e = some t) {m : Moment}
    {s : Signal} {x : Ending} (goes : Move.Continues ⟨r.pool, e, t⟩ m w s x)
    (other : w.login? = none) :
    let i := Move.caller ⟨r.pool, e, t⟩
    (told Move.asks? i (r.move e t).moves).map Prod.snd =
      (told Move.learns? i (r.move e t).moves).map Prod.fst ++
        (x.request? t.pool.books.source).toList := by
  have asks {r : Run} {e : Event} {t : Turn} {m : Moment} {w : Work} {s : Signal} {x : Ending}
      (h : Of (.opened id source policy) r) (goes : Move.Continues ⟨r.pool, e, t⟩ m w s x)
      (other : w.login? = none) : (Move.asks? ⟨r.pool, e, t⟩).toList.map Prod.snd =
        (x.request? t.pool.books.source).toList := by
    rw [goes.asks?_eq h.callsOnce]
    · change ((x.request? t.pool.books.source).map _).toList.map Prod.snd = _
      cases x.request? t.pool.books.source <;> rfl
    · rintro a since limit rfl
      cases (goes.sequel.remains.login rfl).trans other
  have learns {r : Run} {e : Event} {t : Turn} {m : Moment} {w : Work} {x : Ending}
      {result : Except PoolError Unit}
      (goes : Move.Continues ⟨r.pool, e, t⟩ m w (.answered result) x) :
      (Move.learns? ⟨r.pool, e, t⟩).toList.map Prod.fst =
        (w.request? r.pool.books.source).toList := by
    rw [goes.learns?_answered]
    change ((w.request? r.pool.books.source).map _).toList.map Prod.fst = _
    cases w.request? r.pool.books.source <;> rfl
  -- A turn learns the answer to the request of the work that it found, and asks that of the work
  -- that it leaves.
  have balanced : Course id source policy fun _ asked learnt c x =>
      asked.map Prod.snd = learnt.map Prod.fst ++ (x.request? c.books.source).toList :=
    { begins := fun h ht goes other => asks h goes other
      goesOn := fun h ht goes other before => by
        rw [List.map_append, List.map_append, before, asks h goes other, learns goes]
        rfl }
  obtain ⟨-, -, -, -, -, -, balance⟩ := balanced.holds h ht goes other
  exact balance

/-- A call that is over has learnt the answer to everything that it has asked. -/
theorem asked_eq_of_ended (h : Of (.opened id source policy) r) (ht : r.pool.respond e = some t)
    {m : Moment} {s : Signal} {x : Ending} (goes : Move.Continues ⟨r.pool, e, t⟩ m w s x)
    (other : w.login? = none) (ended : x.outcome?.isSome) :
    (told Move.asks? (Move.caller ⟨r.pool, e, t⟩) (r.move e t).moves).map Prod.snd =
      (told Move.learns? (Move.caller ⟨r.pool, e, t⟩) (r.move e t).moves).map Prod.fst := by
  have quiet : x.request? t.pool.books.source = none := by
    cases x with
    | work w => cases ended
    | _ => rfl
  have asked := h.asked_eq ht goes other
  dsimp only at asked
  rwa [quiet, Option.toList_none, List.append_nil] at asked

/-- A call begins once. -/
theorem start_unique (h : Of (.opened id source policy) r) {u v : Move} (hu : u ∈ r.moves)
    (hv : v ∈ r.moves) {op op' : Op} {m m' : Moment} (event : u.event = .start op m)
    (event' : v.event = .start op' m') (same : u.caller = v.caller) : u = v := by
  induction h with
  | start => cases hu
  | @move r e t h ht ih =>
    have new {op : Op} {m : Moment} (event : e = .start op m) :
        Move.caller ⟨r.pool, e, t⟩ = r.pool.nextCall := by subst event; rfl
    rcases List.mem_cons.1 hu with rfl | hu <;> rcases List.mem_cons.1 hv with rfl | hv
    · rfl
    · exact absurd (h.caller_lt hv) (by rw [← same, new event]; exact Nat.lt_irrefl _)
    · exact absurd (h.caller_lt hu) (by rw [same, new event']; exact Nat.lt_irrefl _)
    · exact ih hu hv

/-- What a call begins with is what it has intended from its start. -/
theorem intends (h : Of (.opened id source policy) r) {s u : Move} (hs : s ∈ r.moves)
    (hu : u ∈ r.moves) {op : Op} {m m' : Moment} (event : s.event = .start op m)
    (begun : u.begun? = some (intent, m')) (other : intent.login? = none)
    (same : s.caller = u.caller) : op.intent? m = some intent := by
  obtain ⟨later, before, split⟩ := List.append_of_mem hu
  obtain ⟨r₀, h₀, moves, pool, -⟩ := h.cut split
  have holds := (Move.begun?_eq_some.1 begun).2
  obtain ⟨v, enters⟩ := h₀.started (.holds (pool ▸ holds)) other
  obtain ⟨op', m'', event', intends⟩ := enters.began
  have hv : v ∈ r.moves := by
    rw [split]
    exact List.mem_append_right _ (List.mem_cons_of_mem _ (moves ▸ enters.mem))
  obtain rfl := h.start_unique hs hv event event' (same.trans enters.caller.symm)
  cases event.symm.trans event'
  exact intends

/-- A call that is going to do something with the lock runs no errand. -/
theorem not_errand (h : Of (.opened id source policy) r) {s : Move} (hs : s ∈ r.moves) {op : Op}
    {m : Moment} (event : s.event = .start op m) (intends : op.intent? m = some intent) :
    s.caller ∉ r.pool.errands.map Prod.fst := by
  induction h with
  | start => cases hs
  | @move r e t h ht ih =>
    -- The number of a call that begins now is new.
    have fresh : r.pool.nextCall ∉ r.pool.errands.map Prod.fst := fun runs =>
      Nat.lt_irrefl _ (h.callsOnce.numbered _ (List.mem_append_right _ runs))
    intro runs
    rcases List.mem_cons.1 hs with rfl | hs
    · obtain rfl : e = .start op m := event
      cases ht
      rw [pool_move, Pool.errands_start intends] at runs
      exact fresh runs
    · obtain old | new := (Pool.responds_of_respond ht).errand_calls runs
      · exact ih hs old
      · exact Nat.ne_of_lt (h.caller_lt hs) new

/-- What a call does that holds the lock, or is queued for it, it has intended from its start. -/
theorem exists_start (h : Of (.opened id source policy) r) (doing : r.pool.Doing i w) :
    ∃ s ∈ r.moves, s.caller = i ∧ ∃ op m intent, s.event = .start op m ∧
      op.intent? m = some intent ∧ intent.login? = w.login? := by
  -- For an acquisition this is known already. Any other work goes back to the intent with which its
  -- call began.
  cases login : w.login? with
  | some l =>
    obtain ⟨s, hs, caller, timeout, m, event⟩ := h.acquires (.works doing login)
    exact ⟨s, hs, caller, _, m, _, event, rfl, rfl⟩
  | none =>
    induction h generalizing w with
    | start => cases doing.mem_calls
    | @move r e t h ht ih =>
      have earlier {w : Work} (doing : r.pool.Doing i w) (login : w.login? = none) :
          ∃ s ∈ (r.move e t).moves, s.caller = i ∧ ∃ op m intent, s.event = .start op m ∧
            op.intent? m = some intent ∧ intent.login? = none := by
        obtain ⟨s, hs, began⟩ := ih doing login
        exact ⟨s, List.mem_cons_of_mem _ hs, began⟩
      cases Pool.comes_of_respond ht h.callsOnce doing with
      | stays was others => exact earlier was login
      | goesOn goes caller =>
        subst caller
        exact earlier (.holds goes.holds) ((goes.sequel.remains.login rfl).symm.trans login)
      | starts event new intends own =>
        subst event new
        exact ⟨_, List.mem_cons_self, rfl, _, _, _, rfl, intends, login⟩
      | wakes asleep caller => cases login

/-- A call that has entered with an intent, and that is over in a later turn of its own, has had the
    lock then, and was doing what it had intended. -/
theorem continues_of_outcome (h : Of (.opened id source policy) r) (ht : r.pool.respond e = some t)
    {s : Move} (hs : s ∈ r.moves) {op : Op} {m : Moment} (event : s.event = .start op m)
    (intends : op.intent? m = some intent) (same : s.caller = Move.caller ⟨r.pool, e, t⟩)
    (ended : t.outcome.isSome) :
    ∃ m w s x, Move.Continues ⟨r.pool, e, t⟩ m w s x ∧ x.outcome?.isSome ∧
      w.login? = intent.login? := by
  have given := h.caller_lt hs
  -- Of all turns only those with the lock, those of errands and those that are declined at the
  -- start end a call.
  have silent (quiet : t.outcome = none) : False := by
    rw [quiet] at ended
    cases ended
  cases Pool.responds_of_respond ht with
  | enter ns intent => exact (silent (Pool.outcome_lock _ _ _)).elim
  | decline ns e => exact absurd given (by rw [same]; exact Nat.lt_irrefl _)
  | send request => exact (silent rfl).elim
  | @goOn i w s' m' t holds h' =>
    obtain ⟨x, goes⟩ := Move.exists_continues holds h'
    refine ⟨m', w, s', x, goes, goes.outcome ▸ ended, ?_⟩
    obtain ⟨v, hv, caller, op', m'', intent', event', intends', login⟩ :=
      h.exists_start (.holds holds)
    obtain rfl := h.start_unique hs hv event event' (same.trans caller.symm)
    cases event.symm.trans event'
    cases intends.symm.trans intends'
    exact login.symm
  | relock elsewhere found => exact (silent (by rw [Turn.relock, Pool.outcome_lock]; rfl)).elim
  | getUp elsewhere found due =>
    exact (silent (by rw [Turn.relock, Pool.outcome_lock]; rfl)).elim
  | @errand i s' m' q t elsewhere found h' =>
    have caller : s.caller = i := same
    exact absurd (Pool.mem_map_of_lookup found) (caller ▸ h.not_errand hs event intends)
  | cut holds => exact (silent (Pool.outcome_dropWork _)).elim
  | withdraw elsewhere found => exact (silent (Pool.outcome_dropQueued _ _)).elim
  | desert elsewhere found => exact (silent rfl).elim
  | forget elsewhere found => exact (silent rfl).elim

/-- A call that is not an acquisition has been none when it is over. -/
theorem goesOn_of_outcome (h : Of (.opened id source policy) r) (ht : r.pool.respond e = some t)
    {s : Move} (hs : s ∈ r.moves) {op : Op} {m : Moment} (event : s.event = .start op m)
    (intends : op.intent? m = some intent) (other : intent.login? = none)
    (same : s.caller = Move.caller ⟨r.pool, e, t⟩) (ended : t.outcome.isSome) :
    ∃ m w s x, Move.Continues ⟨r.pool, e, t⟩ m w s x ∧ x.outcome?.isSome ∧ w.login? = none := by
  obtain ⟨m', w, s', x, goes, finished, login⟩ := h.continues_of_outcome ht hs event intends same ended
  exact ⟨m', w, s', x, goes, finished, login.trans other⟩

/-- A call that is over has no more turns. -/
theorem no_more_turns (h : Of (.opened id source policy) r) {later before : List Move} {u v : Move}
    (split : r.moves = later ++ v :: before) (ended : v.turn.outcome.isSome) (hu : u ∈ later) :
    u.caller ≠ v.caller := by
  obtain ⟨after, between, rfl⟩ := List.append_of_mem hu
  rw [List.append_assoc, List.cons_append] at split
  obtain ⟨r₁, h₁, moves, pool, hu⟩ := h.cut split
  -- It has been nowhere when others have had their turns.
  have gone : v.caller ∉ r₁.pool.calls ∧ v.caller < r₁.pool.nextCall := by
    refine h₁.since (I := fun r => v.caller ∉ r.pool.calls ∧ v.caller < r.pool.nextCall) moves
      (fun r₀ h₀ ht hv _ => ⟨?_, ?_⟩) fun r₀ e t h₀ ht ⟨gone, given⟩ =>
        ((Pool.responds_of_respond ht).gone gone given).2
    · rw [hv] at ended ⊢
      exact (Pool.responds_of_respond ht).not_mem_calls_of_outcome h₀.callsOnce ended
    · refine (h₀.move ht).caller_lt ?_
      rw [moves_move, ← hv]
      exact List.mem_cons_self
  rw [pool] at gone
  exact ((Pool.responds_of_respond hu).gone gone.1 gone.2).1

end Of

end Run

end LeasePool
