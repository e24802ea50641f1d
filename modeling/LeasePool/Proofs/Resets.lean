import LeasePool.Proofs.Agreement
import LeasePool.Proofs.Courses
import LeasePool.Proofs.Wakeups

/-!
# Resets, from end to end

A reset to a policy that allows no connection is refused, and changes nothing. Every other reset
changes what it is for, empties the books, and closes the connections that were there one after the
other (`Dismissed`), whatever they answer. Its requests tell how far it has got (`Clearing`), as
the books do not change any more until it is over.

A new policy is examined before the lock is asked for, and one with a single part changed when the
reset has the lock. That makes no other difference.

* `Run.clearing`: what a reset has asked after each of its turns;
* `Run.Of.declined`: a call that was refused at once has no further turn;
* `Pool.resets_whole`: a reset is carried out as a whole, or not at all.
-/

namespace LeasePool

/-! ## What a reset is for -/

namespace Reset

/-- A reset makes the policy `p'` of the policy `p`: the one that is given, or the one of which a
    single part is changed. No other reset changes the policy. -/
def MakesPolicy (q : Reset) (p p' : Policy) : Prop :=
  match q with
  | replace policy => p' = policy
  | configure change => change.Makes p p'
  | closeAll | redirect _ => p' = p

/-- A reset makes the data source `s'` of the data source `s`. -/
def MakesSource (q : Reset) (s s' : DataSource) : Prop :=
  match q with
  | redirect change => change.Makes s s'
  | closeAll | replace _ | configure _ => s' = s

/-- Whether a reset is for a change of the policy. -/
def changesPolicy : Reset → Bool
  | replace _ | configure _ => true
  | _ => false

/-- A reset is for a change to a policy that allows no connection. -/
def Unusable (q : Reset) (b : Books) : Prop :=
  q.changesPolicy = true ∧ ∃ p, q.MakesPolicy b.policy p ∧ p.maxActive = 0

/-- The policy that a reset leads to. -/
def policy (q : Reset) (b : Books) : Policy :=
  match q with
  | replace policy => policy
  | configure change => b.policy.apply change
  | _ => b.policy

/-- The data source that a reset leads to. -/
def source (q : Reset) (b : Books) : DataSource :=
  match q with
  | redirect change => b.source.apply change
  | _ => b.source

/-- The books when a reset has changed and emptied them. What is counted and timed stays. -/
def cleared (q : Reset) (b : Books) : Books :=
  { b with
    policy := q.policy b
    source := q.source b
    expected := (q.source b).signature
    idle := []
    active := [] }

variable {q : Reset} {b b' : Books} {e : PoolError}

/-- There is one policy that a reset makes of another. -/
theorem makesPolicy_iff {p : Policy} : q.MakesPolicy b.policy p ↔ p = q.policy b := by
  cases q with
  | configure change => exact Policy.Change.makes_iff
  | _ => exact Iff.rfl

/-- There is one data source that a reset makes of another. -/
theorem makesSource_iff {s : DataSource} : q.MakesSource b.source s ↔ s = q.source b := by
  cases q with
  | redirect change => exact DataSource.Change.makes_iff
  | _ => exact Iff.rfl

theorem unusable_iff :
    q.Unusable b ↔ q.changesPolicy = true ∧ (q.policy b).maxActive = 0 := by
  simp only [Unusable, makesPolicy_iff, exists_eq_left]

theorem apply_configure (b : Books) (change : Policy.Change) :
    (configure change).apply b =
      if (b.policy.apply change).maxActive = 0 then .error .noActiveConnections
      else .ok { b with policy := b.policy.apply change } := by
  by_cases none_allowed : (b.policy.apply change).maxActive = 0 <;>
    simp [apply, Policy.validate, none_allowed]

/-- A reset that has the lock is refused only if one part of the policy makes that unusable. -/
theorem unusable_of_apply (h : q.apply b = .error e) : e = .noActiveConnections ∧ q.Unusable b := by
  cases q with
  | configure change =>
    rw [apply_configure] at h
    split at h <;> cases h
    next none_allowed => exact ⟨rfl, unusable_iff.2 ⟨rfl, none_allowed⟩⟩
  | _ => cases h

/-- A policy that is given as a whole is not examined again. -/
theorem replaces_of_apply (h : q.apply b = .ok b') (unusable : q.Unusable b) :
    ∃ policy, q = .replace policy ∧ policy.maxActive = 0 := by
  obtain ⟨changes, none_allowed⟩ := unusable_iff.1 unusable
  cases q with
  | replace policy => exact ⟨policy, rfl, none_allowed⟩
  | configure change =>
    have refused := (apply_configure b change).trans (if_pos none_allowed)
    cases h.symm.trans refused
  | _ => cases changes

/-- What a reset makes of the books when it empties them. -/
theorem emptied_of_apply (h : q.apply b = .ok b') :
    { b'.emptied with expected := b'.source.signature } = q.cleared b := by
  cases q with
  | configure change =>
    rw [apply_configure] at h
    split at h <;> cases h
    rfl
  | _ =>
    cases h
    rfl

theorem entries_of_apply (h : q.apply b = .ok b') : b'.entries = b.entries := by
  obtain ⟨idle, active, -⟩ := apply_eq_ok h
  rw [Books.entries, Books.entries, idle, active]

end Reset

/-! ## What a reset asks -/

/-- The requests by which connections are closed one after the other. Each of them is rolled back
    first, unless it commits on its own then. -/
inductive Dismissed : List Entry → List (Moment × Request) → Prop
  | nil : Dismissed [] []
  | closed {es : List Entry} {asked : List (Moment × Request)} {e : Entry} {m : Moment}
      (earlier : Dismissed es asked) (commits : m.isAutoCommit e.physical = true) :
      Dismissed (es ++ [e]) (asked ++ [(m, .close e.physical)])
  | undone {es : List Entry} {asked : List (Moment × Request)} {e : Entry} {m m' : Moment}
      (earlier : Dismissed es asked) (uncommitted : m.isAutoCommit e.physical = false) :
      Dismissed (es ++ [e]) (asked ++ [(m, .rollback e.physical)] ++ [(m', .close e.physical)])

/-- What a reset has asked of the connections `es`, and how far it has got with them. -/
inductive Clearing (es : List Entry) : List (Moment × Request) → Ending → Prop
  | undoing {before rest : List Entry} {e : Entry} {asked : List (Moment × Request)} {m : Moment}
      (split : es = before ++ e :: rest) (earlier : Dismissed before asked)
      (uncommitted : m.isAutoCommit e.physical = false) :
      Clearing es (asked ++ [(m, .rollback e.physical)]) (.work (.resetUndo e rest))
  | closing {before rest : List Entry} {e : Entry} {asked : List (Moment × Request)}
      (split : es = before ++ [e] ++ rest) (upTo : Dismissed (before ++ [e]) asked) :
      Clearing es asked (.work (.resetClose e rest))
  | done {asked : List (Moment × Request)} (all : Dismissed es asked) :
      Clearing es asked (.freed .done)

/-- A reset goes on with the connections that are left. -/
theorem Reset.Clears.clearing {m : Moment} {before rest : List Entry} {x : Ending}
    {asked : List (Moment × Request)} (h : Reset.Clears m rest x) (earlier : Dismissed before asked)
    (source : DataSource) :
    Clearing (before ++ rest) (asked ++ ((x.request? source).map fun q => (m, q)).toList) x := by
  cases h with
  | done =>
    change Clearing _ (asked ++ []) _
    rw [List.append_nil, List.append_nil]
    exact .done earlier
  | undo uncommitted => exact .undoing rfl earlier uncommitted
  | close commits => exact .closing (List.append_assoc _ [_] _).symm (earlier.closed commits)

/-- What a reset has come to after one of its turns, when the books were `b` before it. -/
inductive ResetTo (q : Reset) (b : Books) : List (Moment × Request) → Books → Ending → Prop
  | refused {e : PoolError} (refuses : q.apply b = .error e) :
      ResetTo q b [] b (.finished (.failed e))
  | accepted {b' : Books} {asked : List (Moment × Request)} {x : Ending}
      (accepts : q.apply b = .ok b') (clearing : Clearing b.entries asked x) :
      ResetTo q b asked (q.cleared b) x

/-- A call that is no acquisition and is over in a later turn than that in which it has begun rouses
    the sleepers. -/
theorem Pool.Sequel.begins_of_finished {p : Pool} {m : Moment} {w : Work} {s : Signal} {b : Books}
    {o : Outcome} (h : p.Sequel m w s b (.finished o)) (other : w.login? = none) :
    ∃ intent, w = .begin intent := by
  cases h with
  | undone undone => cases undone
  | resetClosed clears => cases clears
  | look | awaken | missing | misplaced | takeBack | refused | reset | policy | source | snapshot
  | tolerate => exact ⟨_, rfl⟩
  | _ => cases other

namespace Turn

variable (t : Turn) (id : CallId) (m : Moment)

theorem woken_unlock :
    t.unlock.woken = t.woken ++ (t.pool.queue.head?.map Prod.fst).toList := by
  cases queue : t.pool.queue <;> simp [unlock, queue]

/-- A reset that is over has woken all sleepers, and the call that gets the lock. -/
theorem woken_closeEach {rest : List Entry} (h : (t.closeEach id m rest).outcome.isSome)
    (going : t.outcome = none) : (t.closeEach id m rest).woken =
      t.woken ++ t.pool.sleepers.map Sleeper.id ++ (t.pool.queue.head?.map Prod.fst).toList := by
  cases rest with
  | nil => exact woken_unlock _
  | cons e rest =>
    have goesOn : (t.closeEach id m (e :: rest)).outcome = t.outcome := by
      rw [closeEach]
      split <;> rfl
    rw [goesOn, going] at h
    cases h

/-- A reset does not need to know who holds the lock. -/
theorem closeEach_hold (h : Option (CallId × Work)) (rest : List Entry) :
    closeEach { t with pool := { t.pool with holder := h } } id m rest = t.closeEach id m rest := by
  cases rest with
  | nil => cases queue : t.pool.queue <;> simp [closeEach, wakeSleepers, tell, unlock, queue]
  | cons e rest => rw [closeEach, closeEach]; split <;> rfl

theorem reset_of_error {q : Reset} {e : PoolError} (h : q.apply t.pool.books = .error e) :
    t.reset id m q = t.unlock.finish (.failed e) := by
  rw [reset, h]

theorem reset_of_ok {q : Reset} {b : Books} (h : q.apply t.pool.books = .ok b) :
    t.reset id m q = (t.setBooks (q.cleared t.pool.books)).closeEach id m t.pool.books.entries := by
  rw [reset, h, ← Reset.entries_of_apply h, ← Reset.emptied_of_apply h]

end Turn

namespace Pool

variable (p : Pool) (m : Moment)

/-- A policy that is given as a whole is examined before the lock is asked for. -/
theorem start_replace {policy : Policy} (none_allowed : policy.maxActive = 0) :
    (p.start (.reset (.replace policy)) m).2 =
      (p.numbered.turn.tell (.begins "reconfigure")).finish (.failed .noActiveConnections) := by
  have refused : policy.validate = .error .noActiveConnections := if_pos none_allowed
  rw [start]
  dsimp only [startReset, Reset.operation?]
  rw [refused]
  rfl

/-- Every other reset asks for the lock. -/
theorem replaces_of_start {q : Reset} (h : (p.start (.reset q) m).2.outcome.isSome) :
    ∃ policy, q = .replace policy ∧ policy.maxActive = 0 := by
  cases q with
  | replace policy =>
    refine ⟨policy, rfl, ?_⟩
    by_contra allowed
    have accepted : policy.validate = .ok () := if_neg allowed
    rw [start] at h
    dsimp only [startReset, Reset.operation?] at h
    rw [accepted] at h
    dsimp only at h
    rw [outcome_lock] at h
    cases h
  | _ =>
    rw [start] at h
    dsimp only [startReset, Reset.operation?] at h
    rw [outcome_lock] at h
    cases h

theorem roused_freed : p.passLock.rouseAll.roused = p.roused ++ p.sleepers := by
  cases queue : p.queue <;> simp only [passLock, rouseAll, queue]

end Pool

namespace Run

variable {id : PoolId} {source : DataSource} {policy : Policy} {r : Run} {e : Event} {t : Turn}
  {m : Moment} {q : Reset} {x : Ending}

/-- What a reset has asked after each of its turns. -/
theorem clearing : Course id source policy fun u asked _ c x => ∀ q m,
    u.begun? = some (.reset q, m) → ResetTo q u.before.books asked c.books x where
  begins {r e t m intent x} h ht goes other q m' begun := by
    cases goes.begun?_eq.symm.trans begun
    have asks := goes.asks?_eq h.callsOnce
    have sequel : r.pool.Sequel m (.begin (.reset q)) .proceed t.pool.books x := goes.sequel
    change ResetTo q r.pool.books _ t.pool.books x
    generalize books : t.pool.books = b at sequel
    -- Either it is refused at once, or it takes all entries out of the books and starts to clear
    -- them.
    cases sequel with
    | refused refuses =>
      rw [asks fun _ _ _ => nofun]
      exact .refused refuses
    | @reset q b' x accepted clears =>
      have awake : ∀ a since limit, x ≠ .asleep a since limit := by
        rintro a since limit rfl
        cases clears.frees
      rw [asks awake, Reset.emptied_of_apply accepted]
      rw [Reset.entries_of_apply accepted] at clears
      exact .accepted accepted (clears.clearing .nil _)
  goesOn {r e t m w x result u asked learnt} h ht goes other before q m' begun := by
    have asks := goes.asks?_eq h.callsOnce
    have sequel : r.pool.Sequel m w (.answered result) t.pool.books x := goes.sequel
    have before := before q m' begun
    change ResetTo q u.before.books _ t.pool.books x
    generalize now : r.pool.custody.books = b₀ at before
    have now : r.pool.books = b₀ := now
    generalize books : t.pool.books = b at sequel
    -- From then on what has been asked and what is still to be cleared are all of the entries.
    cases before with
    | accepted accepts clearing =>
      cases clearing with
      | @undoing before rest d asked m' split earlier uncommitted =>
        cases sequel with
        | resetUndone =>
          rw [asks fun _ _ _ => nofun, now]
          exact .accepted accepts (.closing (split.trans (List.append_assoc _ [_] _).symm)
            (earlier.undone uncommitted))
      | @closing before rest d asked split upTo =>
        cases sequel with
        | resetClosed clears =>
          have awake : ∀ a since limit, x ≠ .asleep a since limit := by
            rintro a since limit rfl
            cases clears.frees
          rw [asks awake, now]
          exact .accepted accepts (split ▸ clears.clearing upTo _)

/-- A reset that has begun in the move `u` is over in the move `v`, after the moves `before`, and it
    has been carried out. -/
structure CarriesOut (q : Reset) (u v : Move) (before : List Move) : Prop where
  outcome : v.turn.outcome = some .done
  /-- Of the policy and the data source, nothing is changed but what the reset is for. -/
  policy : q.MakesPolicy u.before.books.policy v.after.books.policy
  source : q.MakesSource u.before.books.source v.after.books.source
  /-- Connections must bear the signature of the data source as it is now. -/
  expected : v.after.books.expected = v.after.books.source.signature
  /-- No connection is left in the books. -/
  emptied : v.after.books.idle = [] ∧ v.after.books.active = []
  counters : v.after.books.counters = u.before.books.counters
  /-- Unless a release or a reset has been dropped at its work, no handle is valid any more. -/
  invalid : (∀ x ∈ before, x.interrupts = false) →
    ∀ y ∈ before.filterMap Move.issued?, y.isValid v.after.generations = false
  /-- All sleepers are roused. -/
  sleepers : v.after.sleepers = [] ∧ v.after.roused = v.before.roused ++ v.before.sleepers
  woken : v.turn.woken =
    v.before.sleepers.map Sleeper.id ++ (v.before.queue.head?.map Prod.fst).toList
  /-- The connections are closed, leased ones first. -/
  asked : Dismissed (u.before.books.active ++ u.before.books.idle)
    (told Move.asks? v.caller (v :: before))
  /-- The answers to all requests are awaited. -/
  answered : (told Move.asks? v.caller (v :: before)).map Prod.snd =
    (told Move.learns? v.caller (v :: before)).map Prod.fst

/-- A reset that has begun in the move `u` is over in the move `v`, after the moves `before`. -/
structure Resets (q : Reset) (u v : Move) (before : List Move) : Prop where
  caller : u.caller = v.caller
  begun : ∃ m, u.begun? = some (.reset q, m)
  refused_iff : v.turn.outcome = some (.failed .noActiveConnections) ↔ q.Unusable u.before.books
  /-- A reset that is refused does nothing but to pass the lock on. -/
  refused : q.Unusable u.before.books → v = u ∧ v.after = v.before.passLock ∧
    v.turn.woken = (v.before.queue.head?.map Prod.fst).toList ∧
    told Move.asks? v.caller (v :: before) = []
  carriedOut : ¬ q.Unusable u.before.books → CarriesOut q u v before

/-- Resets are carried out as a whole, or not at all. -/
structure AllOrNothing (r : Run) : Prop where
  /-- A policy that is given as a whole and allows no connection is refused at once. -/
  declined : ∀ v ∈ r.moves, ∀ policy m, v.event = .start (.reset (.replace policy)) m →
    policy.maxActive = 0 → v.turn.outcome = some (.failed .noActiveConnections) ∧
      v.after = v.before.numbered ∧ v.turn.woken = []
  /-- No other reset is over at once. -/
  enters : ∀ v ∈ r.moves, ∀ q m, v.event = .start (.reset q) m → v.turn.outcome.isSome →
    ∃ policy, q = .replace policy ∧ policy.maxActive = 0
  /-- A reset that is over later has begun in between, and was refused then or carried out. -/
  ended : ∀ later v before, r.moves = later ++ v :: before → v.turn.outcome.isSome →
    ∀ s ∈ before, ∀ q m, s.event = .start (.reset q) m → s.caller = v.caller →
      ∃ between u earlier, v :: before = between ++ u :: earlier ∧ Resets q u v before
  /-- To change one part of the policy is to replace it by the policy with that part changed. -/
  alike : ∀ v ∈ r.moves, ∀ change m, v.begun? = some (.reset (.configure change), m) →
    ∀ policy, change.Makes v.before.books.policy policy →
    let replacing : Pool :=
      { v.before with holder := some (v.caller, .begin (.reset (.replace policy))) }
    if policy.maxActive = 0 then
      (v.before.start (.reset (.replace policy)) m).2.outcome = v.turn.outcome
    else replacing.respond v.event = some v.turn

namespace Of

/-- A call that was refused at once is nowhere any more. -/
theorem declined (h : Of (.opened id source policy) r) {s : Move} (hs : s ∈ r.moves) {op : Op}
    (event : s.event = .start op m) (ended : s.turn.outcome.isSome) : s.caller ∉ r.pool.calls := by
  induction h with
  | start => cases hs
  | @move r e t h ht ih =>
    have responds := Pool.responds_of_respond ht
    rcases List.mem_cons.1 hs with rfl | hs
    · obtain rfl : e = .start op m := event
      cases responds with
      | enter ns intent =>
        change Option.isSome (Turn.outcome _) = true at ended
        rw [Pool.outcome_lock] at ended
        cases ended
      | decline ns e => exact fun active => Nat.lt_irrefl _ (h.callsOnce.numbered _ active)
      | send request => cases ended
    · exact fun active =>
        ih hs ((Pool.follows_of_responds responds).mem_calls active (h.caller_lt hs))

/-- A policy that was given as a whole and allows no connection has been refused at once. -/
theorem usable_of_mem_calls (h : Of (.opened id source policy) r) {s : Move} (hs : s ∈ r.moves)
    (event : s.event = .start (.reset q) m) (active : s.caller ∈ r.pool.calls) {b b' : Books}
    (accepted : q.apply b = .ok b') : ¬ q.Unusable b := by
  intro unusable
  obtain ⟨policy, rfl, none_allowed⟩ := Reset.replaces_of_apply accepted unusable
  refine h.declined hs event ?_ active
  obtain ⟨p, e, t⟩ := s
  obtain ⟨r₀, h₀, rfl, ht⟩ := h.exists_before hs
  obtain rfl : e = .start (.reset (.replace policy)) m := event
  rw [Pool.respond, Pool.start_replace _ m none_allowed] at ht
  exact Option.some.inj ht ▸ rfl

/-- When a reset is over, all sleepers are woken. -/
theorem woken_of_freed (h : Of (.opened id source policy) r) (ht : r.pool.respond e = some t)
    {m' : Moment} {w : Work} {g : Signal}
    (goes : Move.Continues ⟨r.pool, e, t⟩ m' w g (.freed .done))
    (other : w.login? = none) {s : Move} (hs : s ∈ r.moves) (event : s.event = .start (.reset q) m)
    (same : s.caller = Move.caller ⟨r.pool, e, t⟩) : t.woken =
      r.pool.sleepers.map Sleeper.id ++ (r.pool.queue.head?.map Prod.fst).toList := by
  have turn := goes.advanceWork ht
  have ended : t.outcome.isSome := Option.isSome_of_eq_some goes.outcome
  have sequel : r.pool.Sequel m' w g t.pool.books (.freed .done) := goes.sequel
  generalize t.pool.books = b at sequel
  generalize hi : Move.caller ⟨r.pool, e, t⟩ = i at turn
  -- A reset that has nothing to ask is over in its first turn, any other in the turn in which its
  -- last close is answered.
  by_cases begun : ∃ intent, w = .begin intent
  · obtain ⟨intent, rfl⟩ := begun
    cases (h.move ht).intends (List.mem_cons_of_mem _ hs) List.mem_cons_self event goes.begun?_eq
      other same
    cases sequel with
    | reset accepted clears =>
      have turn : r.pool.turn.reset i m' q = t := Option.some.inj turn
      rw [Turn.reset_of_ok _ _ _ accepted] at turn
      rw [← turn] at ended ⊢
      exact Turn.woken_closeEach _ _ _ ended rfl
  · have busy : ∀ intent, w ≠ .begin intent := fun intent same => begun ⟨intent, same⟩
    obtain ⟨between, u, earlier, split, caller, ⟨intent, m'', begins, none_login⟩, came⟩ :=
      clearing.underway h goes.holds busy other
    cases h.intends hs (split ▸ List.mem_append_right _ List.mem_cons_self) event begins none_login
      (same.trans caller.symm)
    have came := came q m'' begins
    generalize told Move.asks? _ r.moves = asked at came
    generalize r.pool.custody.books = b' at came
    cases came with
    | accepted accepts clearing =>
      cases clearing with
      | undoing split earlier uncommitted => cases sequel
      | closing split upTo =>
        cases sequel with
        | resetClosed clears =>
          rw [← Option.some.inj turn] at ended ⊢
          exact Turn.woken_closeEach _ _ _ ended rfl

/-- When a reset is over, no handle is valid any more. -/
theorem invalid_of_freed (h : Of (.opened id source policy) r) (ht : r.pool.respond e = some t)
    {m' : Moment} {w : Work} {g : Signal} {o : Outcome}
    (goes : Move.Continues ⟨r.pool, e, t⟩ m' w g (.freed o))
    (none_leased : t.pool.books.active = [])
    (uninterrupted : ∀ x ∈ r.moves, x.interrupts = false) :
    ∀ y ∈ r.issued, y.isValid t.pool.generations = false := by
  obtain ⟨ds, hd⟩ := (h.move ht).exists_doneBy
  have kept : Deed.lose ∉ ds := fun lost => by
    obtain ⟨v, hv, interrupts⟩ := hd.kept lost
    rcases List.mem_cons.1 hv with rfl | hv
    · rw [Move.interrupts, goes.event] at interrupts
      cases interrupts
    · rw [uninterrupted v hv] at interrupts
      cases interrupts
  -- Nothing is leased in the books, and nothing is in hand.
  have empty : t.pool.custody.hand = .empty := by
    obtain ⟨p, -, after⟩ := goes.after
    change t.pool.hand = .empty
    have after : t.pool = p.passLock.rouseAll := after
    rw [after]
    exact congrArg Custody.hand (Pool.custody_passLock (p := p))
  intro y hy
  rw [Bool.eq_false_iff]
  intro valid
  have issued : y ∈ (r.move e t).issued := by
    rw [issued_move]
    exact List.mem_append_right _ hy
  obtain ⟨c, hc, -⟩ := hd.accounted kept y (List.mem_reverse.2 issued) valid
  have none_left : (r.move e t).pool.custody.leased = [] := by
    change t.pool.books.active ++ t.pool.custody.hand.lent = []
    rw [empty, none_leased]
    rfl
  rw [none_left] at hc
  cases hc

/-- What a reset has done that is over. -/
theorem resets (h : Of (.opened id source policy) r) (ht : r.pool.respond e = some t)
    (ended : t.outcome.isSome) {s : Move} (hs : s ∈ r.moves) (event : s.event = .start (.reset q) m)
    (same : s.caller = Move.caller ⟨r.pool, e, t⟩) :
    ∃ between u earlier, (r.move e t).moves = between ++ u :: earlier ∧
      Resets q u ⟨r.pool, e, t⟩ r.moves := by
  obtain ⟨m', w, g, x, goes, finishes, other⟩ := h.goesOn_of_outcome ht hs event rfl rfl same ended
  obtain ⟨between, u, earlier, split, caller, ⟨intent, m₁, begun, none_login⟩, came⟩ :=
    clearing.holds h ht goes other
  -- A call begins the same work throughout, so the work that its course began is this reset.
  have intended {v : Move} {m₂ : Moment} {intent : Intent} (hv : v ∈ (r.move e t).moves)
      (begun : v.begun? = some (intent, m₂)) (none_login : intent.login? = none)
      (caller : v.caller = Move.caller ⟨r.pool, e, t⟩) : intent = .reset q :=
    (Option.some.inj ((h.move ht).intends (List.mem_cons_of_mem _ hs) hv event begun none_login
      (same.trans caller.symm))).symm
  obtain rfl :=
    intended (split ▸ List.mem_append_right _ List.mem_cons_self) begun none_login caller
  have came := came q m₁ begun
  have after : t.pool.custody.books = t.pool.books := rfl
  rw [after] at came
  generalize asks : told Move.asks? _ (r.move e t).moves = asked at came
  generalize books : t.pool.books = b at came
  cases came with
  -- A refused reset has one turn, in which it has done nothing but give the lock back.
  | @refused problem refuses =>
    obtain ⟨intent, rfl⟩ := goes.sequel.begins_of_finished other
    obtain rfl := intended List.mem_cons_self goes.begun?_eq other rfl
    have sequel : r.pool.Sequel m' (.begin (.reset q)) g t.pool.books
        (.finished (.failed problem)) := goes.sequel
    generalize t.pool.books = b' at sequel
    obtain rfl := goes.eq_proceed
    have turn : r.pool.turn.reset _ m' q = t := Option.some.inj (goes.advanceWork ht)
    cases sequel with
    | refused refuses =>
      obtain ⟨rfl, unusable⟩ := Reset.unusable_of_apply refuses
      rw [Turn.reset_of_error _ _ _ refuses] at turn
      refine ⟨[], _, r.moves, rfl, rfl, ⟨m', goes.begun?_eq⟩, iff_of_true goes.outcome unusable,
        fun _ => ⟨rfl, ?_, ?_, asks⟩, fun usable => absurd unusable usable⟩
      · rw [Move.after, ← turn]
        exact Turn.pool_unlock _
      · rw [← turn]
        exact Turn.woken_unlock _
    | reset accepted clears => cases clears.frees
  | accepted accepts clearing =>
    have usable := h.usable_of_mem_calls hs event (same ▸ Pool.mem_calls_of_holder goes.holds)
      accepts
    cases clearing with
    | done all =>
      refine ⟨between, u, earlier, split, caller, ⟨m₁, begun⟩, iff_of_false ?_ usable,
        fun unusable => absurd unusable usable, fun _ => ?_⟩
      · rw [goes.outcome]
        intro failed
        cases failed
      · obtain ⟨p, unmoved, after⟩ := goes.after
        exact
          { outcome := goes.outcome
            policy := Reset.makesPolicy_iff.2 (congrArg Books.policy books)
            source := Reset.makesSource_iff.2 (congrArg Books.source books)
            expected := by rw [Move.after, books]; rfl
            emptied := by rw [Move.after, books]; exact ⟨rfl, rfl⟩
            counters := by rw [Move.after, books]; rfl
            invalid := h.invalid_of_freed ht goes (books ▸ rfl)
            sleepers := by
              rw [after, ← unmoved.sleepers, ← unmoved.roused]
              exact ⟨rfl, Pool.roused_freed p⟩
            woken := h.woken_of_freed ht goes other hs event same
            asked := asks ▸ all
            answered := h.asked_eq_of_ended ht goes other finishes }
    | _ => cases finishes

end Of

end Run

/-- To change one part of the policy is to replace it by the policy with that part changed. -/
theorem Pool.configure_alike {p : Pool} {e : Event} {t : Turn} (ht : p.respond e = some t)
    {change : Policy.Change} {m : Moment}
    (begun : Move.begun? ⟨p, e, t⟩ = some (.reset (.configure change), m)) {policy : Policy}
    (makes : change.Makes p.books.policy policy) :
    let replacing : Pool :=
      { p with holder := some (Move.caller ⟨p, e, t⟩, .begin (.reset (.replace policy))) }
    if policy.maxActive = 0 then
      (p.start (.reset (.replace policy)) m).2.outcome = t.outcome
    else replacing.respond e = some t := by
  dsimp only
  obtain rfl := Policy.Change.makes_iff.1 makes
  obtain ⟨event, holds⟩ := Move.begun?_eq_some.1 begun
  generalize Move.caller ⟨p, e, t⟩ = i at event holds ⊢
  obtain rfl : e = .resume i .proceed m := event
  have holds : p.holder = some (i, .begin (.reset (.configure change))) := holds
  have turn : p.turn.reset i m (.configure change) = t := by
    simpa only [respond, resume, holds, if_true, Turn.advanceWork, Turn.begin,
      Option.some.injEq] using ht
  have applied := Reset.apply_configure p.books change
  split
  · -- No connection allowed: the change is refused in its turn, the replacement before it has the
    -- lock.
    next none_allowed =>
    rw [if_pos none_allowed] at applied
    rw [start_replace _ _ none_allowed, ← turn, Turn.reset_of_error _ _ _ applied]
    rfl
  · next allowed =>
    rw [if_neg allowed] at applied
    rw [← turn, Turn.reset_of_ok _ _ _ applied]
    simp only [respond, resume, if_true, Turn.advanceWork, Option.some.injEq]
    exact Turn.closeEach_hold (p.turn.setBooks _) i m _ _

/-- Every reset is carried out as a whole or not at all, whatever happens meanwhile. -/
theorem Pool.resets_whole (id : PoolId) (source : DataSource) (policy : Policy)
    (events : List Event) : ((opened id source policy).run events).AllOrNothing := by
  have h := (opened id source policy).of_run events
  generalize (opened id source policy).run events = r at h
  refine ⟨?_, ?_, ?_, ?_⟩
  · rintro ⟨p, e, t⟩ hv policy m event none_allowed
    obtain ⟨r₀, h₀, rfl, ht⟩ := h.exists_before hv
    obtain rfl : e = .start (.reset (.replace policy)) m := event
    have ht : some (r₀.pool.start (.reset (.replace policy)) m).2 = some t := ht
    rw [start_replace _ m none_allowed] at ht
    obtain rfl := Option.some.inj ht
    exact ⟨rfl, rfl, rfl⟩
  · rintro ⟨p, e, t⟩ hv q m event ended
    obtain ⟨r₀, h₀, rfl, ht⟩ := h.exists_before hv
    obtain rfl : e = .start (.reset q) m := event
    have turn : (r₀.pool.start (.reset q) m).2 = t := Option.some.inj ht
    exact r₀.pool.replaces_of_start m (turn ▸ ended)
  · intro later v before split ended s hs q m event same
    obtain ⟨p, e, t⟩ := v
    obtain ⟨r₀, h₀, rfl, rfl, ht⟩ := h.cut split
    exact h₀.resets ht ended hs event same
  · rintro ⟨p, e, t⟩ hv change m begun policy makes
    obtain ⟨r₀, h₀, rfl, ht⟩ := h.exists_before hv
    exact configure_alike ht begun makes

end LeasePool
