import LeasePool.Proofs.Outcomes

/-!
# Callers that have to wait

The count of the callers that had to wait grows when an acquisition finds, for the first time, that
no connection is to be had. Mostly it falls asleep then, and is counted once however often it looks
again, and whatever becomes of it. But one whose deadline has passed already is counted as well,
although it gives up at once and has never slept.

* `Acquisition.Looks.waits`: when an acquisition that looks at the books is counted;
* `Run.Of.waits_move`: what a turn adds to the count;
* `Pool.counts_waits`: the count is that of the calls that have fallen asleep at least once and of
  those that were turned away before they could.
-/

namespace LeasePool

open scoped List

/-! ## A single turn -/

/-- Whether an acquisition that has looked at the books has to wait, or would have to if it had any
    time left. -/
def Ending.hasToWait (x : Ending) : Bool :=
  x.isAsleep || match x.outcome? with
    | some (.failed (.timeout _)) => true
    | _ => false

/-- Whether work that begins is an acquisition that has not had to wait before. -/
def Work.isUncounted : Work → Bool
  | .begin intent => intent.acquisition?.any fun a => !a.hasWaited
  | _ => false

theorem Books.waits_of_claimOverdue? {b b' : Books} {now : Instant} {e : Entry}
    (h : b.claimOverdue? now = some (e, b')) : b'.counters.waits = b.counters.waits := by
  rw [claimOverdue?] at h
  split at h
  · cases h
  · dsimp only at h
    split at h <;> cases h
    rfl

theorem Entry.Returned.waits {m : Moment} {e : Entry} {b b' : Books} {x : Ending}
    (h : e.Returned m b b' x) : b'.counters.waits = b.counters.waits := by
  cases h with
  | gone closed => rfl
  | undo is_open uncommitted => rfl
  | commit is_open commits undone => cases undone <;> rfl

namespace Acquisition

variable {a : Acquisition} {m : Moment} {e : Entry} {b b' : Books} {g : Generations} {x : Ending}

theorem Retries.not_hasToWait (h : a.Retries b x) : x.hasToWait = false := by
  cases h <;> rfl

theorem Refuses.waits (h : a.Refuses m e b b' x) :
    b'.counters.waits = b.counters.waits ∧ x.hasToWait = false := by
  cases h with
  | gone closed retries => exact ⟨rfl, retries.not_hasToWait⟩
  | discard is_open => exact ⟨rfl, rfl⟩

theorem Accepts.waits (h : a.Accepts m e b b' x) :
    b'.counters.waits = b.counters.waits ∧ x.hasToWait = false := by
  cases h <;> exact ⟨rfl, rfl⟩

theorem Examines.waits (h : a.Examines m e b g b' x) :
    b'.counters.waits = b.counters.waits ∧ x.hasToWait = false := by
  cases h with
  | test query => exact ⟨rfl, rfl⟩
  | accept accepts => exact accepts.waits
  | refuse bad refuses => exact refuses.waits

/-- An acquisition that looks at the books is counted when it has to wait for the first time. -/
theorem Looks.waits (h : a.Looks m b g b' x) :
    b'.counters.waits = b.counters.waits + if !a.hasWaited && x.hasToWait then 1 else 0 := by
  have served {b₁ : Books} (same : b₁.counters.waits = b.counters.waits)
      (examined : b'.counters.waits = b₁.counters.waits ∧ x.hasToWait = false) :
      b'.counters.waits = b.counters.waits + if !a.hasWaited && x.hasToWait then 1 else 0 := by
    rw [examined.1, same, examined.2, Bool.and_false]
    rfl
  have counted (waits : x.hasToWait = true) : (b.countWaitOf a).counters.waits =
      b.counters.waits + if !a.hasWaited && x.hasToWait then 1 else 0 := by
    rw [waits, Bool.and_true, Books.countWaitOf]
    cases a.hasWaited <;> rfl
  cases h with
  | take found examines =>
    obtain ⟨rest, -, rfl⟩ := Books.takeIdle?_eq_some found
    exact served rfl examines.waits
  | connect none_idle room => exact served rfl ⟨rfl, rfl⟩
  | reclaim none_idle full overdue uncommitted =>
    exact served (Books.waits_of_claimOverdue? overdue) ⟨rfl, rfl⟩
  | claim none_idle full overdue commits examines =>
    exact served (Books.waits_of_claimOverdue? overdue) examines.waits
  | timeOut none_idle full none_overdue elapsed => exact counted rfl
  | sleep none_idle full none_overdue time => exact counted rfl

end Acquisition

namespace Pool

variable {p : Pool} {m : Moment} {w : Work} {s : Signal} {b : Books} {x : Ending}

/-- The count grows in the turn in which an acquisition has to wait for the first time, and in no
    other. -/
theorem Sequel.waits (h : p.Sequel m w s b x) :
    b.counters.waits = p.books.counters.waits + if w.isUncounted && x.hasToWait then 1 else 0 := by
  -- Only an acquisition that looks at the books can be counted: all other work goes on.
  have goesOn (idle : w.isUncounted = false) (same : b.counters.waits = p.books.counters.waits) :
      b.counters.waits =
        p.books.counters.waits + if w.isUncounted && x.hasToWait then 1 else 0 := by
    rw [idle, same]
    rfl
  cases h with
  | look looks => exact looks.waits
  | awaken looks => exact looks.waits
  | missing none_found => exact goesOn rfl rfl
  | misplaced found old =>
    obtain ⟨before, later, -, -, -, rfl⟩ := Books.removeActive?_eq_some found
    exact goesOn rfl rfl
  | takeBack found current returned =>
    obtain ⟨before, later, -, -, -, rfl⟩ := Books.removeActive?_eq_some found
    exact goesOn rfl returned.waits
  | reset accepted clears =>
    exact goesOn rfl (congrArg Counters.waits (Reset.apply_eq_ok accepted).2.2)
  | opened examines => exact goesOn rfl examines.waits.1
  | reclaimed examines => exact goesOn rfl examines.waits.1
  | passed phase accepts => exact goesOn rfl accepts.waits.1
  | failed phase refuses => exact goesOn rfl refuses.waits.1
  | unprepared refuses => exact goesOn rfl refuses.waits.1
  | undone undone => exact goesOn rfl (by cases undone <;> rfl)
  | _ => exact goesOn rfl rfl

end Pool

/-- In a turn, an acquisition that looks at the books gives up, as it has no time left. -/
def Move.givesUp (v : Move) : Bool :=
  match v.begun?, v.turn.outcome with
  | some (intent, _), some (.failed (.timeout _)) => decide (intent.purpose = .acquire)
  | _, _ => false

namespace Move

variable {v : Move} {m : Moment} {intent : Intent} {w : Work} {s : Signal} {x : Ending}

/-- An acquisition that has looked at the books and has to wait falls asleep or gives up. -/
theorem Continues.hasToWait_eq (h : v.Continues m (.begin intent) s x)
    (acquire : intent.purpose = .acquire) : x.hasToWait = (x.isAsleep || v.givesUp) := by
  rw [givesUp, h.begun?_eq, h.outcome, Ending.hasToWait]
  split
  · next failed => simp only [failed, acquire, decide_true]
  · next none_late =>
    split
    · next begun failed => exact absurd failed (none_late _)
    · rfl

/-- Nobody else does. -/
theorem Continues.givesUp_eq_false (h : v.Continues m w s x)
    (other : ∀ intent, w = .begin intent → intent.purpose ≠ .acquire) : v.givesUp = false := by
  unfold givesUp
  split
  · next begun failed =>
    rename_i intent m' text
    obtain ⟨-, holds⟩ := begun?_eq_some.1 begun
    exact decide_eq_false (other intent (Pool.holder_unique h.holds holds).2)
  · rfl

theorem outcome_of_givesUp (h : v.givesUp = true) : v.turn.outcome.isSome := by
  unfold givesUp at h
  split at h
  · next failed => rw [failed]; rfl
  · cases h

/-- Whoever falls asleep has not given up. -/
theorem Continues.givesUp_of_isAsleep (h : v.Continues m w s x) (asleep : x.isAsleep = true) :
    v.givesUp = false := by
  rw [Bool.eq_false_iff]
  intro gives_up
  have finished := outcome_of_givesUp gives_up
  rw [h.outcome] at finished
  cases x with
  | asleep => cases finished
  | _ => cases asleep

/-- A call that does not look at the books for a connection is not counted, and stays awake. -/
theorem Continues.uncounted_of_other (h : v.Continues m w s x)
    (other : ∀ intent, w = .begin intent → intent.purpose ≠ .acquire) :
    w.isUncounted = false ∧ x.isAsleep = false := by
  constructor
  · cases w with
    | begin intent => cases intent <;> first | rfl | exact absurd rfl (other _ rfl)
    | _ => rfl
  · cases x with
    | asleep a since limit =>
      obtain ⟨intent, same, acquire, -⟩ := h.sequel.exhausted
      exact absurd acquire (other intent same)
    | _ => rfl

end Move

/-! ## Runs -/

namespace Run

variable {id : PoolId} {source : DataSource} {policy : Policy} {r : Run} {e : Event} {t : Turn}
  {i : CallId} {m : Moment} {w : Work} {s : Signal} {x : Ending} {a : Acquisition} {v : Move}
  {before : List Move}

/-- The calls that have fallen asleep, each of them once. -/
def everAsleep (moves : List Move) : List CallId :=
  ((moves.filter fun v => v.fellAsleep?.isSome).map Move.caller).dedup

/-- The calls that have given up, as they had no time left, and have never slept. -/
def turnedAway (moves : List Move) : List CallId :=
  ((moves.filter Move.givesUp).map Move.caller).filter fun i => !slept i moves

theorem mem_everAsleep {moves : List Move} : i ∈ everAsleep moves ↔ slept i moves = true := by
  simp only [everAsleep, List.mem_dedup, List.mem_map, List.mem_filter, slept, List.any_eq_true,
    Bool.and_eq_true, beq_iff_eq]
  constructor
  · rintro ⟨v, ⟨hv, fell⟩, same⟩
    exact ⟨v, hv, same, fell⟩
  · rintro ⟨v, hv, same, fell⟩
    exact ⟨v, ⟨hv, fell⟩, same⟩

/-- A call is added when it falls asleep for the first time. -/
theorem length_everAsleep_cons (v : Move) (before : List Move) :
    (everAsleep (v :: before)).length = (everAsleep before).length +
      if !slept v.caller before && v.fellAsleep?.isSome then 1 else 0 := by
  cases fell : v.fellAsleep?.isSome with
  | false =>
    rw [everAsleep, List.filter_cons, fell, Bool.and_false]
    rfl
  | true =>
    rw [everAsleep, List.filter_cons, if_pos fell, List.map_cons, Bool.and_true]
    cases known : slept v.caller before with
    | false =>
      have new : v.caller ∉ ((before.filter fun v => v.fellAsleep?.isSome).map Move.caller) := by
        rw [← List.mem_dedup]
        exact fun there => by cases (mem_everAsleep.1 there).symm.trans known
      rw [List.dedup_cons_of_notMem new]
      rfl
    | true =>
      have old : v.caller ∈ ((before.filter fun v => v.fellAsleep?.isSome).map Move.caller) :=
        List.mem_dedup.1 (mem_everAsleep.2 known)
      rw [List.dedup_cons_of_mem old]
      rfl

namespace Of

/-- A call is turned away in a turn in which it gives up, if it has not slept before. -/
theorem length_turnedAway (h : Of (.opened id source policy) r) (ht : r.pool.respond e = some t) :
    let v : Move := ⟨r.pool, e, t⟩
    (turnedAway (r.move e t).moves).length = (turnedAway r.moves).length +
      if v.givesUp && !slept v.caller (r.move e t).moves then 1 else 0 := by
  intro v
  -- Those that have been turned away have no more turns.
  have same : ∀ i ∈ (r.moves.filter Move.givesUp).map Move.caller,
      (!slept i (v :: r.moves)) = !slept i r.moves := by
    intro i hi
    obtain ⟨u, hu, rfl⟩ := List.mem_map.1 hi
    rw [List.mem_filter] at hu
    obtain ⟨later, earlier, split⟩ := List.append_of_mem hu.1
    have split : (r.move e t).moves = (v :: later) ++ u :: earlier := congrArg (v :: ·) split
    have other : v.caller ≠ u.caller :=
      (h.move ht).no_more_turns split (Move.outcome_of_givesUp hu.2) List.mem_cons_self
    rw [slept_cons, beq_eq_false_iff_ne.2 other, Bool.false_and, Bool.false_or]
  have others : (((r.moves.filter Move.givesUp).map Move.caller).filter
      fun i => !slept i (v :: r.moves)) = turnedAway r.moves := List.filter_congr same
  rw [moves_move, turnedAway, List.filter_cons]
  cases gives_up : v.givesUp with
  | false =>
    rw [Bool.false_and, if_neg Bool.false_ne_true, others]
    rfl
  | true =>
    rw [if_pos rfl, List.map_cons, List.filter_cons, others, Bool.true_and]
    change List.length (if (!slept v.caller (v :: r.moves)) = true then _ else _) =
      _ + if (!slept v.caller (v :: r.moves)) = true then 1 else 0
    split
    · exact List.length_cons
    · rfl

/-- A call is counted in a turn in which it falls asleep or gives up, if it has not slept before. -/
theorem waits_move (h : Of (.opened id source policy) r) (ht : r.pool.respond e = some t) :
    let v : Move := ⟨r.pool, e, t⟩
    t.pool.books.counters.waits = r.pool.books.counters.waits +
      if !slept v.caller r.moves && (v.fellAsleep?.isSome || v.givesUp) then 1 else 0 := by
  intro v
  obtain ⟨m, w, s, x, goes⟩ | ⟨books, purpose, begun⟩ :=
    (Pool.responds_of_respond ht).continues_or_idle h.callsOnce
  · have counted : t.pool.books.counters.waits = r.pool.books.counters.waits +
        if w.isUncounted && x.hasToWait then 1 else 0 := goes.sequel.waits
    have fell : v.fellAsleep?.isSome = x.isAsleep :=
      goes.isSome_fellAsleep? (h.move ht).callsOnce h.callsOnce
    rw [counted, fell]
    by_cases acquire : ∃ intent, w = .begin intent ∧ intent.purpose = .acquire
    · -- The acquisition has noted whether it has waited, which tells whether it is counted already.
      obtain ⟨intent, rfl, acquire⟩ := acquire
      obtain ⟨a, acquires⟩ := intent.exists_acquisition acquire
      have known : a.hasWaited = slept v.caller r.moves :=
        h.hasWaited_eq (.works (.holds goes.holds) acquires) acquires
      rw [goes.hasToWait_eq acquire, Work.isUncounted, acquires, Option.any_some, known]
    · have other : ∀ intent, w = .begin intent → intent.purpose ≠ .acquire :=
        fun intent same is => acquire ⟨intent, same, is⟩
      obtain ⟨uncounted, awake⟩ := goes.uncounted_of_other other
      rw [uncounted, awake, show v.givesUp = false from goes.givesUp_eq_false other,
        Bool.false_and, Bool.or_false, Bool.and_false]
  · -- Whoever does not go on with work neither falls asleep nor gives up.
    have awake : v.fellAsleep?.isSome = false := by
      rw [Bool.eq_false_iff]
      intro fell
      obtain ⟨m, w, s, a, a', since, limit, goes, -⟩ := h.naps_of_fellAsleep ht fell
      cases goes.purpose?_eq.symm.trans purpose
    have gives_up : v.givesUp = false := by
      rw [Move.givesUp, show v.begun? = none from begun]
    rw [books, awake, gives_up, Bool.or_false, Bool.and_false]
    rfl

/-- The callers that are counted are those that have fallen asleep, and those that were turned
    away. -/
theorem waits (h : Of (.opened id source policy) r) : r.pool.books.counters.waits =
    (everAsleep r.moves).length + (turnedAway r.moves).length := by
  induction h with
  | start => rfl
  | @move r e t h ht ih =>
    let v : Move := ⟨r.pool, e, t⟩
    have counted := h.waits_move ht
    have away := h.length_turnedAway ht
    dsimp only at counted away
    rw [moves_move, slept_cons, beq_self_eq_true, Bool.true_and] at away
    rw [pool_move, counted, ih, moves_move, away, length_everAsleep_cons v r.moves]
    -- The turn adds to one list or to the other, as nobody falls asleep and gives up at once.
    change _ + (if !slept v.caller r.moves && (v.fellAsleep?.isSome || v.givesUp) then 1 else 0) = _
    cases fell : v.fellAsleep?.isSome with
    | true =>
      obtain ⟨m, w, s, a, a', since, limit, goes, -⟩ := h.naps_of_fellAsleep ht fell
      rw [show v.givesUp = false from goes.givesUp_of_isAsleep rfl, Bool.true_or, Bool.false_and]
      exact Nat.add_right_comm _ _ _
    | false =>
      rw [Bool.false_or, Bool.false_or, Bool.and_false, Bool.and_comm]
      exact Nat.add_assoc _ _ _

end Of

end Run

/-- Those that are counted as having had to wait are the calls that have fallen asleep, each of them
    once, and the calls that have given up without having slept, as they had no time left. -/
theorem Pool.counts_waits (id : PoolId) (source : DataSource) (policy : Policy)
    (events : List Event) :
    let r := (opened id source policy).run events
    r.pool.books.counters.waits =
      (Run.everAsleep r.moves).length + (Run.turnedAway r.moves).length :=
  ((opened id source policy).of_run events).waits

/-! ## A caller without time -/

/-- While the only connection is leased, a call looks for one that is not to wait at all. -/
def Event.hasty : List Event :=
  firstLease ++
    [.start (.acquire .dataSource (some .zero)) (.plain 2 false),
      .resume 1 .proceed (.plain 2 false)]

/-- Nobody has ever slept, and yet one caller is counted as having had to wait. -/
theorem Pool.counts_caller_awake :
    let r := (opened 0 {} .single).run Event.hasty
    Run.everAsleep r.moves = [] ∧ r.pool.books.counters.waits = 1 ∧
      Run.turnedAway r.moves = [1] := by
  decide +kernel

end LeasePool
