import LeasePool.Proofs.Ages
import LeasePool.Proofs.Rejections

/-!
# Acquisitions in progress

Whatever happens to it, an acquisition in progress stands at some work (`Pool.Pursues`): it is at it,
or it is going to be as soon as it has the lock, or when it wakes up. A turn begins an acquisition,
lets it go on, or leaves it where it is, and it is left there by every turn in which it does not
have the lock. So what its beginning establishes, and its going on keeps, holds as long as it is in
progress (`Run.Pursuit`).

* `Run.Pursuit.holds`: the induction over all turns of an acquisition;
* `Run.Of.terms`: an acquisition knows for whom it is, since when, and until when it may sleep;
* `Run.Of.hasWaited_iff`: it has noted that it waits exactly if it has slept;
* `Run.Of.candidates_perm`: its candidates are those that it has rejected and those that it has in hand.
-/

namespace LeasePool

open scoped List

/-! ## Where acquisitions stand -/

/-- The work at which a call stands after a turn, if it goes on. A caller that sleeps is going to
    look again. -/
def Ending.next? : Ending → Option Work
  | .work w => some w
  | .asleep a since _ => some (.begin (.awaken a since))
  | _ => none

/-- The work at which a call stands is on the acquisition with which its turn has ended. -/
theorem Ending.acquisition?_of_next? {x : Ending} {w : Work} (h : x.next? = some w) :
    x.acquisition? = w.acquisition? := by
  cases x with
  | work w' =>
    cases h
    rfl
  | asleep a since limit =>
    cases h
    rfl
  | _ => cases h

theorem Ending.outcome?_of_next? {x : Ending} {w : Work} (h : x.next? = some w) :
    x.outcome? = none := by
  cases x with
  | finished o => cases h
  | freed o => cases h
  | _ => rfl

/-- A call that goes on keeps what it has in hand, and hands out nothing. -/
theorem Ending.hand_of_next? {x : Ending} {w : Work} (h : x.next? = some w) :
    x.hand = w.hand ∧ x.leased = [] := by
  cases x with
  | finished o => cases h
  | freed o => cases h
  | _ =>
    cases h
    exact ⟨rfl, rfl⟩

/-- Whether the caller falls asleep. -/
def Ending.isAsleep : Ending → Bool
  | .asleep _ _ _ => true
  | _ => false

namespace Pool

/-- An acquisition in progress stands at some work. -/
inductive Pursues (p : Pool) (i : CallId) : Work → Prop
  /-- It has the lock, or it is queued for it. -/
  | works {w : Work} {a : Acquisition} (doing : p.Doing i w) (acquires : w.acquisition? = some a) :
      Pursues p i w
  /-- It sleeps, or it has been roused. -/
  | sleeps {c : Sleeper} (asleep : c ∈ p.sleeping) (caller : c.id = i) :
      Pursues p i (.begin (.awaken c.acquisition c.asleepSince))

variable {p : Pool} {e : Event} {t : Turn} {i : CallId} {w : Work}

/-- How an acquisition has come to where it stands after a turn. -/
inductive Pursued (p : Pool) (e : Event) (t : Turn) (i : CallId) : Work → Prop
  /-- It has begun. -/
  | begins {login : Login} {timeout : Option Duration} {m : Moment}
      (event : e = .start (.acquire login timeout) m) (new : i = p.nextCall) :
      Pursued p e t i (.begin (.acquire
        { login := login, deadline := timeout.map m.now.after, startedAt := m.now }))
  /-- It has gone on. -/
  | goesOn {m : Moment} {w w' : Work} {s : Signal} {x : Ending} {a : Acquisition}
      (goes : Move.Continues ⟨p, e, t⟩ m w s x) (caller : Move.caller ⟨p, e, t⟩ = i)
      (acquires : w.acquisition? = some a) (next : x.next? = some w') : Pursued p e t i w'
  /-- It has stood there before, and did not have the lock if it was its turn. -/
  | stays {w : Work} (before : p.Pursues i w)
      (idle : Move.caller ⟨p, e, t⟩ = i → ∀ w₀, p.holder ≠ some (i, w₀)) : Pursued p e t i w

theorem CallsOnce.not_holder (once : p.CallsOnce) {c : Sleeper} (asleep : c ∈ p.sleeping)
    (caller : c.id = i) (w : Work) : p.holder ≠ some (i, w) := fun held =>
  once.not_sleeping held asleep caller

/-- A call that goes on as an acquisition has been one. -/
theorem Sequel.acquires {m : Moment} {s : Signal} {b : Books} {x : Ending} {a : Acquisition}
    (h : p.Sequel m w s b x) (on : x.outcome? = none) (acquires : x.acquisition? = some a) :
    ∃ a₀, w.acquisition? = some a₀ := by
  have same := h.remains.origin on
  rw [acquires, Option.map_some] at same
  obtain ⟨a₀, acquires₀, -⟩ := Option.map_eq_some_iff.1 same.symm
  exact ⟨a₀, acquires₀⟩

/-- An acquisition that is in progress after a turn has been so before, or begins in it. -/
theorem pursued_of_respond (ht : p.respond e = some t) (once : p.CallsOnce)
    (h : t.pool.Pursues i w) : p.Pursued e t i w := by
  cases h with
  | works doing acquires =>
    -- Work that is under way stays as it is, is gone on with, is begun by a new call, or is taken
    -- up again by a sleeper.
    cases comes_of_respond ht once doing with
    | stays was others =>
      exact .stays (.works was acquires)
        (Run.Remembers.not_holder (r := ⟨p, []⟩) ht once doing others)
    | goesOn goes caller =>
      obtain ⟨a₀, acquires₀⟩ := goes.sequel.acquires rfl acquires
      exact .goesOn goes caller acquires₀ rfl
    | @starts op m intent event new intends own =>
      cases op with
      | acquire login timeout =>
        cases intends
        exact .begins event new
      | release | reset | inquire =>
        cases intends
        cases acquires
      | probe | rollback => cases intends
    | wakes asleep caller =>
      exact .stays (.sleeps asleep caller) fun _ => once.not_holder asleep caller
  | sleeps asleep caller =>
    obtain old | ⟨new, m, w, s, goes⟩ := mem_sleeping_of_respond ht asleep
    · exact .stays (.sleeps old caller) fun _ => once.not_holder old caller
    · obtain ⟨a₀, acquires₀⟩ := goes.sequel.acquires rfl rfl
      exact .goesOn goes (new.symm.trans caller) acquires₀ rfl

end Pool

namespace Run

variable {id : PoolId} {source : DataSource} {policy : Policy} {r : Run} {e : Event} {t : Turn}
  {i : CallId} {m : Moment} {w : Work} {s : Signal} {x : Ending} {a : Acquisition}

/-- The beginning of an acquisition establishes `K`, the acquisition keeps it when it goes on, and so
    do the turns in which it does not have the lock. -/
structure Pursuit (id : PoolId) (source : DataSource) (policy : Policy)
    (K : Run → CallId → Work → Prop) : Prop where
  begins : ∀ {r : Run} {t : Turn} {login : Login} {timeout : Option Duration} {m : Moment},
    Of (.opened id source policy) r → r.pool.respond (.start (.acquire login timeout) m) = some t →
    K (r.move (.start (.acquire login timeout) m) t) r.pool.nextCall (.begin (.acquire
      { login := login, deadline := timeout.map m.now.after, startedAt := m.now }))
  goesOn : ∀ {r : Run} {e : Event} {t : Turn} {m : Moment} {w w' : Work} {s : Signal} {x : Ending}
    {a : Acquisition}, Of (.opened id source policy) r → r.pool.respond e = some t →
    Move.Continues ⟨r.pool, e, t⟩ m w s x → w.acquisition? = some a → x.next? = some w' →
    K r (Move.caller ⟨r.pool, e, t⟩) w → K (r.move e t) (Move.caller ⟨r.pool, e, t⟩) w'
  aside : ∀ {r : Run} {e : Event} {t : Turn} {i : CallId} {w : Work},
    Of (.opened id source policy) r → r.pool.respond e = some t → r.pool.Pursues i w →
    (Move.caller ⟨r.pool, e, t⟩ = i → ∀ w₀, r.pool.holder ≠ some (i, w₀)) →
    K r i w → K (r.move e t) i w

/-- What is kept by all turns of an acquisition, and by all turns of others, is true of it. -/
theorem Pursuit.holds {K : Run → CallId → Work → Prop} (k : Pursuit id source policy K)
    (h : Of (.opened id source policy) r) (pursues : r.pool.Pursues i w) : K r i w := by
  induction h generalizing i w with
  | start =>
    cases pursues with
    | works doing acquires => cases doing.mem_calls
    | sleeps asleep caller => cases asleep
  | @move r e t h ht ih =>
    cases Pool.pursued_of_respond ht h.callsOnce pursues with
    | begins event new =>
      subst event new
      exact k.begins h ht
    | goesOn goes caller acquires next =>
      subst caller
      exact k.goesOn h ht goes acquires next (ih (.works (.holds goes.holds) acquires))
    | stays before idle => exact k.aside h ht before idle (ih before)

/-! ## What they know of their terms -/

end Run

namespace Acquisition

/-- For whom an acquisition is, until when it may sleep, and since when it has been. -/
def terms (a : Acquisition) : Login × Option Instant × Instant := (a.login, a.deadline, a.startedAt)

variable {m : Moment} {a a' : Acquisition} {k : Nat} {b : Books}
  {l : List (ConnectionId × Physical)} {x : Ending}

/-- An acquisition goes on with the terms on which it has begun. -/
theorem Verdict.terms_eq (h : a.Verdict m k b l x) (goesOn : x.acquisition? = some a') :
    a'.terms = a.terms := by
  have retried {a : Acquisition} (h : a.Retries b x) : a' = a := by
    cases h <;> cases goesOn
    rfl
  cases h with
  | passes before passes =>
    cases passes with
    | work acquires further before =>
      obtain rfl : a = a' := Option.some.inj (acquires.symm.trans goesOn)
      rfl
    | asleep =>
      cases goesOn
      rfl
    | finished => cases goesOn
  | settles last retries => rw [retried retries]
  | gone before closed retries =>
    rw [retried retries]
    rfl
  | discards before is_open =>
    cases goesOn
    rfl

/-- It notes that it waits when it falls asleep, and only then. -/
theorem Verdict.hasWaited_eq (h : a.Verdict m k b l x) (goesOn : x.acquisition? = some a') :
    a'.hasWaited = (a.hasWaited || x.isAsleep) := by
  have retried {a : Acquisition} (h : a.Retries b x) : a' = a ∧ x.isAsleep = false := by
    cases h <;> cases goesOn
    exact ⟨rfl, rfl⟩
  cases h with
  | passes before passes =>
    cases passes with
    | work acquires further before =>
      obtain rfl : a = a' := Option.some.inj (acquires.symm.trans goesOn)
      exact (Bool.or_false _).symm
    | asleep =>
      cases goesOn
      exact (Bool.or_true _).symm
    | finished => cases goesOn
  | settles last retries =>
    obtain ⟨rfl, awake⟩ := retried retries
    rw [awake, Bool.or_false]
  | gone before closed retries =>
    obtain ⟨rfl, awake⟩ := retried retries
    rw [awake, Bool.or_false]
    rfl
  | discards before is_open =>
    cases goesOn
    exact (Bool.or_false _).symm

end Acquisition

namespace Pool

variable {p : Pool} {e : Event} {t : Turn} {i : CallId}

/-- A caller that sleeps is in no other place. -/
theorem CallsOnce.only_asleep (once : p.CallsOnce) {c : Sleeper} (asleep : c ∈ p.sleepers) :
    c.id ∉ p.queue.map Prod.fst ∧ c.id ∉ p.roused.map Sleeper.id ∧
      c.id ∉ p.errands.map Prod.fst := by
  have count := List.nodup_iff_count_le_one.1 once.once c.id
  have there := List.count_pos_iff.2 (List.mem_map_of_mem (f := Sleeper.id) asleep)
  simp only [calls, List.count_append] at count
  refine ⟨fun h => ?_, fun h => ?_, fun h => ?_⟩ <;>
  · have := List.count_pos_iff.2 h
    omega

/-- A call that does not have the lock in its turn is not asleep after it. -/
theorem Responds.awake (h : p.Responds e t) (once : p.CallsOnce)
    (idle : ∀ w, p.holder ≠ some (Move.caller ⟨p, e, t⟩, w)) {c : Sleeper}
    (asleep : c ∈ t.pool.sleepers) : c.id ≠ Move.caller ⟨p, e, t⟩ := by
  have old : c ∈ p.sleepers := by
    cases h.affects once with
    | goesOn goes => exact absurd goes.holds (idle _)
    | dropped event holds turn =>
      subst event
      exact absurd holds (idle _)
    | aside other custody holder sleepers => exact sleepers asleep
  -- Who was asleep before is in no other place, so a turn from another place is not its own, and a
  -- sleeper that gets up is taken off the list.
  obtain ⟨not_queued, not_roused, not_sent⟩ := once.only_asleep old
  have new : c.id ≠ p.nextCall := Nat.ne_of_lt
    (once.numbered _ (mem_calls_of_sleeping (List.mem_append_left _ old)))
  have filtered {j : CallId} (there : c ∈ p.sleepers.filter fun s => s.id != j) : c.id ≠ j := by
    simpa using (List.mem_filter.1 there).2
  cases h with
  | enter | decline | send => exact new
  | goOn holds h => exact absurd holds (idle _)
  | relock elsewhere found => exact fun same => not_roused (same ▸ (mem_map_of_find? found).2)
  | getUp elsewhere found due =>
    rw [Turn.relock, sleepers_lock] at asleep
    exact fun same => filtered asleep same
  | errand elsewhere found h => exact fun same => not_sent (same ▸ mem_map_of_lookup found)
  | cut holds => exact absurd holds (idle _)
  | withdraw elsewhere found => exact fun same => not_queued (same ▸ mem_map_of_lookup found)
  | desert elsewhere found =>
    exact fun same => filtered asleep same
  | forget elsewhere found => exact fun same => not_sent (same ▸ mem_map_of_lookup found)

end Pool

namespace Move

variable {v : Move} {m : Moment} {w : Work} {s : Signal} {x : Ending}

/-- Nobody falls asleep without having had the lock. -/
theorem fellAsleep?_of_idle {p : Pool} {e : Event} {t : Turn} (h : p.Responds e t)
    (once : p.CallsOnce) (idle : ∀ w, p.holder ≠ some (caller ⟨p, e, t⟩, w)) :
    fellAsleep? ⟨p, e, t⟩ = none := by
  refine if_neg fun there => ?_
  obtain ⟨c, asleep, same⟩ := List.any_eq_true.1 there
  exact h.awake once idle asleep (beq_iff_eq.1 same)

/-- The holder of the lock that goes on falls asleep, or it does not. -/
theorem Continues.isSome_fellAsleep? (h : v.Continues m w s x) (once : v.after.CallsOnce)
    (before : v.before.CallsOnce) : v.fellAsleep?.isSome = x.isAsleep := by
  have awake (none_asleep : ∀ c ∈ v.after.sleepers, c.id ≠ v.caller) :
      v.fellAsleep?.isSome = false := by
    rw [fellAsleep?, if_neg]
    · rfl
    · rintro there
      obtain ⟨c, asleep, same⟩ := List.any_eq_true.1 there
      exact none_asleep c asleep (beq_iff_eq.1 same)
  -- A call has one place, so the holder is among the sleepers only if this turn has put it there.
  cases x with
  | work w' =>
    exact awake fun c asleep same => once.not_sleeping h.holder_work
      (List.mem_append_left _ asleep) same
  | asleep a since limit =>
    rw [h.fellAsleep?_eq]
    rfl
  | finished o =>
    refine awake fun c asleep same => h.not_mem_calls before rfl ?_
    exact same ▸ Pool.mem_calls_of_sleeping (List.mem_append_left _ asleep)
  | freed o =>
    refine awake fun c asleep same => h.not_mem_calls before rfl ?_
    exact same ▸ Pool.mem_calls_of_sleeping (List.mem_append_left _ asleep)

end Move

/-- A turn that does not belong to the holder of the lock comes to no candidate. -/
theorem Move.candidates_eq_nil {v : Move} (h : ∀ w, v.before.holder ≠ some (v.caller, w)) :
    v.candidates = [] := by
  obtain ⟨p, e, t⟩ := v
  unfold Move.candidates
  split
  · next i s m holder w event holds =>
    dsimp only at event holds
    subst event
    refine if_neg fun same => h w ?_
    rw [holds, same]
    rfl
  · rfl

/-! ## What they know of their past -/

namespace Run

/-- Whether a call has fallen asleep in one of some moves. -/
def slept (i : CallId) (moves : List Move) : Bool :=
  moves.any fun v => v.caller == i && v.fellAsleep?.isSome

/-- The turns of a call among some moves. -/
def turnsOf (i : CallId) (moves : List Move) : List Move := moves.filter fun v => v.caller == i

variable {id : PoolId} {source : DataSource} {policy : Policy} {r : Run} {e : Event} {t : Turn}
  {i : CallId} {m : Moment} {w : Work} {s : Signal} {x : Ending} {a : Acquisition} {v : Move}
  {moves : List Move}

theorem mem_turnsOf : v ∈ turnsOf i moves ↔ v ∈ moves ∧ v.caller = i := by
  rw [turnsOf, List.mem_filter, beq_iff_eq]

theorem turnsOf_cons_self (h : v.caller = i) : turnsOf i (v :: moves) = v :: turnsOf i moves := by
  rw [turnsOf, List.filter_cons_of_pos (by simpa using h)]
  rfl

theorem turnsOf_cons_of_ne (h : v.caller ≠ i) : turnsOf i (v :: moves) = turnsOf i moves := by
  rw [turnsOf, List.filter_cons_of_neg (by simpa using h)]
  rfl

theorem turnsOf_of_new (h : ∀ u ∈ moves, u.caller ≠ i) : turnsOf i moves = [] := by
  rw [turnsOf, List.filter_eq_nil_iff]
  exact fun u hu => by simpa using h u hu

theorem slept_cons (i : CallId) (v : Move) (moves : List Move) :
    slept i (v :: moves) = (v.caller == i && v.fellAsleep?.isSome || slept i moves) := rfl

theorem slept_of_new (h : ∀ u ∈ moves, u.caller ≠ i) : slept i moves = false := by
  rw [slept, List.any_eq_false]
  exact fun u hu => by simp [h u hu]

namespace Of

/-- An acquisition in progress knows for whom it is, since when, and until when it may sleep, as its
    caller has said when it began. -/
theorem terms (h : Of (.opened id source policy) r) (pursues : r.pool.Pursues i w)
    (acquires : w.acquisition? = some a) : ∃ v ∈ r.moves, v.caller = i ∧ ∃ timeout m,
      v.event = .start (.acquire a.login timeout) m ∧ a.deadline = timeout.map m.now.after ∧
        a.startedAt = m.now := by
  let K (r : Run) (i : CallId) (w : Work) : Prop := ∀ a, w.acquisition? = some a →
    ∃ v ∈ r.moves, v.caller = i ∧ ∃ timeout m, v.event = .start (.acquire a.login timeout) m ∧
      a.deadline = timeout.map m.now.after ∧ a.startedAt = m.now
  -- The turn in which the call began stays among the moves, and the terms do not change.
  have later {r : Run} {e : Event} {t : Turn} {i : CallId} {w w' : Work}
      (known : K r i w) (same : ∀ a', w'.acquisition? = some a' →
        ∃ a, w.acquisition? = some a ∧ a'.terms = a.terms) : K (r.move e t) i w' := by
    intro a' acquires
    obtain ⟨a, acquires₀, same⟩ := same a' acquires
    obtain ⟨v, hv, caller, timeout, m, event, deadline, startedAt⟩ := known a acquires₀
    simp only [Acquisition.terms, Prod.mk.injEq] at same
    obtain ⟨login, until_then, since⟩ := same
    exact ⟨v, List.mem_cons_of_mem _ hv, caller, timeout, m, login ▸ event,
      until_then.trans deadline, since.trans startedAt⟩
  have known : Pursuit id source policy K :=
    { begins := fun {r t login timeout m} _ _ a acquires => by
        cases acquires
        exact ⟨_, List.mem_cons_self, rfl, timeout, m, rfl, rfl, rfl⟩
      goesOn := fun {r e t m w w' s x a} h ht goes acquires next known => by
        refine later known fun a' acquires' => ⟨a, acquires, ?_⟩
        exact (h.judged ht goes acquires).1.terms_eq
          ((Ending.acquisition?_of_next? next).trans acquires')
      aside := fun _ _ _ _ known => later known fun a' acquires' => ⟨a', acquires', rfl⟩ }
  exact known.holds h pursues a acquires

/-- An acquisition in progress has noted that it waits exactly if it has slept. -/
theorem hasWaited_eq (h : Of (.opened id source policy) r) (pursues : r.pool.Pursues i w)
    (acquires : w.acquisition? = some a) : a.hasWaited = slept i r.moves := by
  have known : Pursuit id source policy fun r i w =>
      ∀ a, w.acquisition? = some a → a.hasWaited = slept i r.moves :=
    { begins := fun {r t login timeout m} h ht a acquires => by
        cases acquires
        have idle (w : Work) : r.pool.holder ≠ some (r.pool.nextCall, w) := fun held =>
          Nat.lt_irrefl _ (h.callsOnce.numbered _ (Pool.mem_calls_of_holder held))
        rw [moves_move, slept_cons, slept_of_new fun u hu => Nat.ne_of_lt (h.caller_lt hu),
          Move.fellAsleep?_of_idle (Pool.responds_of_respond ht) h.callsOnce idle]
        simp
      goesOn := fun {r e t m w w' s x a} h ht goes acquires next known a' acquires' => by
        have on := (Ending.acquisition?_of_next? next).trans acquires'
        rw [moves_move, slept_cons, (h.judged ht goes acquires).1.hasWaited_eq on, known a acquires,
          goes.isSome_fellAsleep? (h.move ht).callsOnce h.callsOnce, beq_self_eq_true,
          Bool.true_and, Bool.or_comm]
      -- A turn of its own in which the call does not hold the lock, such as getting up, is no
      -- falling asleep.
      aside := fun {r e t i w} h ht _ idle known a acquires => by
        rw [moves_move, slept_cons, known a acquires]
        by_cases own : Move.caller ⟨r.pool, e, t⟩ = i
        · rw [Move.fellAsleep?_of_idle (Pool.responds_of_respond ht) h.callsOnce
            (own ▸ idle own)]
          simp
        · simp [own] }
  exact known.holds h pursues a acquires

end Of

end Run

/-! ## What they take out of the books -/

/-- The candidate that an acquisition takes out of the books in a turn that begins with some
    work. -/
def Work.found (b : Books) (now : Instant) : Work → List Entry
  | .begin (.acquire _) | .begin (.awaken _ _) => b.candidates now
  | _ => []

/-- From `b` to `b'`, the entries `found` have been taken out, and that which is handed out at the
    end has been added. All others remain, in their order. -/
structure Books.Yields (b b' : Books) (found : List Entry) (x : Ending) : Prop where
  idle : b'.idle.Sublist b.idle
  active : ∃ kept, b'.active = kept ++ x.leased ∧ kept.Sublist b.active ∧
    found ++ (kept ++ b'.idle) ~ b.entries

namespace Pool

variable {p : Pool} {m : Moment} {w : Work} {s : Signal} {b : Books} {x : Ending} {a : Acquisition}

/-- An acquisition comes to what the factory gives it, or to what it finds in the books. -/
theorem candidates_eq (acquires : w.acquisition? = some a) : p.candidates m w s =
    ((w.received? s).map fun c => (p.nextConnection, c)).toList ++
      (w.found p.books m.now).map Entry.name := by
  cases w with
  | begin intent =>
    cases intent with
    | acquire | awaken => rfl
    | _ => cases acquires
  | undo | close | resetUndo | resetClose => cases acquires
  | _ => exact (List.append_nil _).symm

/-- An acquisition that does not look at the books takes none of the idle connections. -/
theorem Sequel.idle_eq (h : p.Sequel m w s b x) (acquires : w.acquisition? = some a)
    (busy : ∀ intent, w ≠ .begin intent) : b.idle = p.books.idle := by
  cases h with
  | look | awaken => exact absurd rfl (busy _)
  | opened examines => exact examines.idle_eq
  | reclaimed examines => exact examines.idle_eq
  | passed phase accepts => exact accepts.idle_eq
  | failed phase refuses => exact refuses.idle_eq
  | unprepared refuses => exact refuses.idle_eq
  | openFailed | probed | failing | prepared | discarded => rfl
  | _ => cases acquires

/-- An acquisition takes its candidate out of the books, and nothing else. -/
theorem Sequel.yields (h : p.Sequel m w s b x) (acquires : w.acquisition? = some a) :
    p.books.Yields b (w.found p.books m.now) x := by
  -- Only an acquisition that begins or wakes up takes a candidate out of the books.
  by_cases begins : ∃ intent, w = .begin intent
  · obtain ⟨intent, rfl⟩ := begins
    have purpose : intent.purpose = .acquire := Work.purpose_of_acquisition? acquires
    have found : (Work.begin intent).found p.books m.now = p.books.candidates m.now := by
      cases intent with
      | acquire | awaken => rfl
      | _ => cases acquires
    have tail : b.idle = p.books.idle.tail := by
      have shelves := h.shelves
      cases shelves with
      | takes _ rest => exact rest
      | puts other | keeps other => exact absurd purpose (other _ rfl)
      | empties => cases purpose
    rw [found, Books.candidates]
    refine ⟨tail ▸ List.tail_sublist _, ?_⟩
    have draws := h.draws
    -- The candidate is an overdue lease, or the idle one in front, or there is none.
    cases draws with
    | @claims _ _ _ e rest _ late shifts =>
      refine ⟨rest, shifts.active, late.front ▸ List.sublist_cons_self _ _, ?_⟩
      rw [Books.overdue_eq late, tail, late.none_idle, Books.entries, late.front, late.none_idle]
      exact .refl _
    | keeps spares misses refuses shifts =>
      refine ⟨p.books.active, shifts.active, .refl _, ?_⟩
      rw [Books.overdue_eq_nil fun e rest => spares intent e rest rfl purpose, List.append_nil,
        tail, Books.entries]
      cases p.books.idle with
      | nil => exact .refl _
      | cons e rest =>
        have moved : p.books.active ++ e :: rest ~ e :: (p.books.active ++ rest) := List.perm_middle
        exact moved.symm
    | returns | resets => cases purpose
  · have busy : ∀ intent, w ≠ .begin intent := fun intent same => begins ⟨intent, same⟩
    have none_found : w.found p.books m.now = [] := by
      cases w with
      | begin intent => exact absurd rfl (busy intent)
      | _ => rfl
    have idle := h.idle_eq acquires busy
    rw [none_found]
    refine ⟨idle ▸ .refl _, p.books.active, ?_, .refl _, ?_⟩
    · have draws := h.draws
      cases draws with
      | claims | returns | resets => exact absurd rfl (busy _)
      | keeps spares misses refuses shifts => exact shifts.active
    · rw [idle]
      exact .refl _

end Pool

namespace Run

variable {id : PoolId} {source : DataSource} {policy : Policy} {r : Run} {e : Event} {t : Turn}
  {i : CallId} {m : Moment} {w : Work} {s : Signal} {x : Ending} {a : Acquisition}

namespace Of

/-- In a turn of an acquisition, what it had in hand and the candidate that it comes to is rejected,
    or it is in hand, or it is handed out. -/
theorem accounts (h : Of (.opened id source policy) r) (ht : r.pool.respond e = some t)
    (goes : Move.Continues ⟨r.pool, e, t⟩ m w s x) (acquires : w.acquisition? = some a) :
    let v : Move := ⟨r.pool, e, t⟩
    v.candidates ++ w.hand.held.map Entry.name ~
      v.rejected ++ (x.hand.held ++ x.leased).map Entry.name := by
  intro v
  have given_up : v.rejected = v.discarded :=
    goes.rejected_eq (Work.purpose_of_acquisition? acquires)
  have hand : t.pool.custody.hand = x.hand := goes.hand_eq
  have held : r.pool.custody.hand = w.hand := Pool.hand_of_holder goes.holds
  -- Counted name by name: what is discarded, in the books and in hand is kept in total, and so is
  -- what the books hold besides the candidate and the new lease.
  have all : v.discarded ++ (t.pool.books.names ++ x.hand.held.map Entry.name) ~
      ((w.received? s).map fun c => (r.pool.nextConnection, c)).toList ++
        (r.pool.books.names ++ w.hand.held.map Entry.name) := by
    have all := h.discarded_append ht
    rwa [Custody.names_eq, Custody.names_eq, hand, held, goes.opened?_eq] at all
  obtain ⟨-, kept, active, -, perm⟩ := goes.sequel.yields acquires
  change t.pool.books.active = kept ++ x.leased at active
  have before : r.pool.books.names ~ (w.found r.pool.books m.now).map Entry.name ++
      (kept ++ t.pool.books.idle).map Entry.name := by
    rw [← List.map_append]
    exact (perm.map Entry.name).symm
  have after : t.pool.books.names ~
      x.leased.map Entry.name ++ (kept ++ t.pool.books.idle).map Entry.name := by
    rw [← List.map_append]
    refine List.Perm.map _ ?_
    rw [Books.entries, active]
    simp only [List.append_assoc]
    exact List.perm_append_comm_assoc _ _ _
  have candidates : v.candidates = _ := goes.candidates_eq.trans (Pool.candidates_eq acquires)
  rw [given_up, candidates, List.perm_iff_count]
  intro o
  have all := all.count_eq o
  have before := before.count_eq o
  have after := after.count_eq o
  simp only [List.map_append, List.count_append] at all before after ⊢
  omega

/-- The candidates of an acquisition, in all its turns, are those that it has rejected and what it
    has in hand, or has handed out, after the last one. -/
theorem candidates_perm_of_turn (h : Of (.opened id source policy) r) (ht : r.pool.respond e = some t)
    (goes : Move.Continues ⟨r.pool, e, t⟩ m w s x) (acquires : w.acquisition? = some a)
    (before : (turnsOf (Move.caller ⟨r.pool, e, t⟩) r.moves).flatMap Move.candidates ~
      (turnsOf (Move.caller ⟨r.pool, e, t⟩) r.moves).flatMap Move.rejected ++
        w.hand.held.map Entry.name) :
    let i := Move.caller ⟨r.pool, e, t⟩
    (turnsOf i (r.move e t).moves).flatMap Move.candidates ~
      (turnsOf i (r.move e t).moves).flatMap Move.rejected ++
        (x.hand.held ++ x.leased).map Entry.name := by
  have accounts := h.accounts ht goes acquires
  dsimp only at accounts ⊢
  rw [moves_move, turnsOf_cons_self rfl, List.flatMap_cons, List.flatMap_cons,
    List.perm_iff_count]
  intro o
  have accounts := accounts.count_eq o
  have before := before.count_eq o
  simp only [List.count_append] at accounts before ⊢
  omega

/-- The candidates of an acquisition in progress are those that it has rejected and what it has in
    hand. -/
theorem candidates_perm (h : Of (.opened id source policy) r) (pursues : r.pool.Pursues i w) :
    (turnsOf i r.moves).flatMap Move.candidates ~
      (turnsOf i r.moves).flatMap Move.rejected ++ w.hand.held.map Entry.name := by
  -- A new call has no turn behind it, and a turn without the lock has no candidate and rejects
  -- none.
  have settled : Pursuit id source policy fun r i w =>
      (turnsOf i r.moves).flatMap Move.candidates ~
        (turnsOf i r.moves).flatMap Move.rejected ++ w.hand.held.map Entry.name :=
    { begins := fun {r t login timeout m} h ht => by
        have idle : Move.rejected ⟨r.pool, .start (.acquire login timeout) m, t⟩ = [] :=
          if_neg fun purpose => by cases purpose
        have only : turnsOf r.pool.nextCall (r.move (.start (.acquire login timeout) m) t).moves =
            [⟨r.pool, .start (.acquire login timeout) m, t⟩] := by
          rw [moves_move, turnsOf_cons_self (i := r.pool.nextCall) rfl,
            turnsOf_of_new fun u hu => Nat.ne_of_lt (h.caller_lt hu)]
        rw [only]
        simp only [List.flatMap_cons, List.flatMap_nil, idle]
        exact .refl _
      goesOn := fun {r e t m w w' s x a} h ht goes acquires next before => by
        have after := h.candidates_perm_of_turn ht goes acquires before
        obtain ⟨held, leased⟩ := Ending.hand_of_next? next
        rwa [held, leased, List.append_nil] at after
      aside := fun {r e t i w} h ht _ idle before => by
        rw [moves_move]
        by_cases own : Move.caller ⟨r.pool, e, t⟩ = i
        · have none_held : ∀ w₀, r.pool.holder ≠ some (Move.caller ⟨r.pool, e, t⟩, w₀) :=
            own ▸ idle own
          rw [turnsOf_cons_self own, List.flatMap_cons, List.flatMap_cons,
            Move.rejected_eq_nil none_held, Move.candidates_eq_nil none_held]
          exact before
        · rwa [turnsOf_cons_of_ne own] }
  exact settled.holds h pursues

end Of

end Run

end LeasePool
