import LeasePool.Proofs.Courses
import LeasePool.Proofs.Withdrawals

/-!
# Releases, from end to end

What a release does depends on the handle, on the books as they are when the release begins, on
what the connection reports then, and on what it answers. `Released` lists all that can come of it:
the requests that are made, with the answers; the outcome; the books and the generations. Each case
says all of these, so nothing else is changed.

That a lease which is found is current is not checked by the release alone: it is so in every
reachable state.

* `Run.Of.releasing`: what a release has done while it rolls a connection back, or closes it;
* `Pool.releases`: what a release has done when it is over.
-/

namespace LeasePool

namespace Books

/-- The lease for which a handle was given is `e`, and `rest` are the others. -/
structure Found (b : Books) (h : Handle) (e : Entry) (rest : List Entry) : Prop where
  number : e.id = h.id
  generation : e.generation = h.generation
  split : ∃ before later, b.active = before ++ e :: later ∧ rest = before ++ later

theorem Found.mem {b : Books} {h : Handle} {e : Entry} {rest : List Entry}
    (found : b.Found h e rest) : e ∈ b.active := by
  obtain ⟨before, later, active, -⟩ := found.split
  exact active ▸ List.mem_append_right _ List.mem_cons_self

theorem exists_found {b b' : Books} {h : Handle} {e : Entry}
    (found : b.removeActive? h.id h.generation = some (e, b')) :
    ∃ rest, b.Found h e rest ∧ b' = { b with active := rest } := by
  obtain ⟨before, later, active, number, generation, rfl⟩ := removeActive?_eq_some found
  exact ⟨_, ⟨number, generation, before, later, active, rfl⟩, rfl⟩

/-- Nothing is found just if no lease bears both the number and the generation. -/
theorem removeActive?_eq_none_iff {b : Books} {id : ConnectionId} {generation : Nat} :
    b.removeActive? id generation = none ↔
      ∀ e ∈ b.active, ¬ (e.id = id ∧ e.generation = generation) := by
  rw [removeActive?]
  cases found : b.active.find? fun e => e.id == id && e.generation == generation with
  | none => simpa using found
  | some e =>
    have there := List.mem_of_find?_eq_some found
    have same := List.find?_some found
    simp only [reduceCtorEq, false_iff, not_forall, Decidable.not_not]
    exact ⟨e, there, by simpa using same⟩

end Books

/-- The answers that a release gets before it keeps a connection or closes it without an error:
    that of a rollback, unless the connection commits on its own. -/
def Moment.undoing (m : Moment) (c : Physical) : List (Request × Except PoolError Unit) :=
  if m.isAutoCommit c then [] else [(.rollback c, .ok ())]

section Released

variable (m : Moment) (h : Handle) (b : Books) (g : Generations)

/-- The books when an open connection has been taken back. -/
def Books.takenBack (e : Entry) (rest : List Entry) : Books :=
  { b with active := rest }.addCheckoutTime (e.checkoutTime m.now)

/-- What can come of a release of a handle of this pool that begins with the books `b` and the
    generations `g`: the answers it gets, its outcome, and the books and generations after it. -/
inductive Released :
    List (Request × Except PoolError Unit) → Outcome → Books → Generations → Prop
  /-- There is no lease for the handle. -/
  | stale (none_leased : ∀ e ∈ b.active, ¬ (e.id = h.id ∧ e.generation = h.generation)) :
      Released [] .done b.countBad g
  /-- The connection is closed. -/
  | closed {e : Entry} {rest : List Entry} (found : b.Found h e rest)
      (closed : m.isClosed e.physical = true) :
      Released [] .done { b with active := rest }.countBad (g.advance e.id)
  /-- The connection could not be rolled back, and is closed. -/
  | unrolled {e : Entry} {rest : List Entry} {cause : PoolError} {result : Except PoolError Unit}
      (found : b.Found h e rest) (is_open : m.isClosed e.physical = false)
      (uncommitted : m.isAutoCommit e.physical = false) :
      Released [(.rollback e.physical, .error cause), (.close e.physical, result)]
        (.failed (.rollback cause.message)) (b.takenBack m e rest) (g.advance e.id)
  /-- The connection is kept. -/
  | kept {e : Entry} {rest : List Entry} (found : b.Found h e rest)
      (is_open : m.isClosed e.physical = false) (fits : e.signature = b.expected)
      (room : b.idle.length < b.policy.maxIdle.toNat) :
      Released (m.undoing e.physical) .done
        ((b.takenBack m e rest).keep
          { e with generation := e.generation + 1, lastUsedAt := m.now })
        (g.advance e.id)
  /-- The connection is not to be kept, and is closed. -/
  | left {e : Entry} {rest : List Entry} {result : Except PoolError Unit} (found : b.Found h e rest)
      (is_open : m.isClosed e.physical = false)
      (unfit : e.signature = b.expected → b.policy.maxIdle.toNat ≤ b.idle.length) :
      Released (m.undoing e.physical ++ [(.close e.physical, result)]) .done
        (b.takenBack m e rest) (g.advance e.id)

/-- What a release has done while it goes on. -/
inductive Releasing :
    List (Request × Except PoolError Unit) → Books → Generations → Work → Prop
  | undoing {e : Entry} {rest : List Entry} (found : b.Found h e rest)
      (is_open : m.isClosed e.physical = false) (uncommitted : m.isAutoCommit e.physical = false) :
      Releasing [] (b.takenBack m e rest) g (.undo e (b.keeps e) m.now)
  | failed {e : Entry} {rest : List Entry} {cause : PoolError} (found : b.Found h e rest)
      (is_open : m.isClosed e.physical = false) (uncommitted : m.isAutoCommit e.physical = false) :
      Releasing [(.rollback e.physical, .error cause)] (b.takenBack m e rest) (g.advance e.id)
        (.close e (some cause))
  | leaving {e : Entry} {rest : List Entry} (found : b.Found h e rest)
      (is_open : m.isClosed e.physical = false) (left : b.keeps e = false) :
      Releasing (m.undoing e.physical) (b.takenBack m e rest) (g.advance e.id) (.close e none)

/-- What a release has done after one of its turns: it is over, or it goes on. -/
def ReleasedBy (learnt : List (Request × Except PoolError Unit)) (c : Custody) (x : Ending) :
    Prop :=
  (∃ o, x.outcome? = some o ∧ Released m h b g learnt o c.books c.generations) ∨
    ∃ w, x = .work w ∧ Releasing m h b g learnt c.books c.generations w

end Released

theorem Books.keeps_eq_false {b : Books} {e : Entry} : b.keeps e = false ↔
    (e.signature = b.expected → b.policy.maxIdle.toNat ≤ b.idle.length) := by
  simp only [keeps, hasIdleCapacity, Bool.and_eq_false_iff, decide_eq_false_iff_not, Nat.not_lt,
    imp_iff_not_or]

theorem Books.keeps_eq_true {b : Books} {e : Entry} : b.keeps e = true ↔
    e.signature = b.expected ∧ b.idle.length < b.policy.maxIdle.toNat := by
  simp only [keeps, hasIdleCapacity, Bool.and_eq_true, decide_eq_true_eq]

/-! ## The generations -/

namespace Turn

variable (t : Turn) (id : CallId) (m : Moment)

theorem generations_unlock : t.unlock.pool.generations = t.pool.generations := by
  unfold unlock
  split <;> rfl

theorem generations_releaseDone (o : Outcome) :
    (t.releaseDone o).pool.generations = t.pool.generations := generations_unlock t

/-- Whatever becomes of the connection, its next generation begins after the rollback. -/
theorem generations_afterUndo (e : Entry) (keep : Bool) (returnedAt : Instant)
    (result : Except PoolError Unit) :
    (t.afterUndo id e keep returnedAt result).pool.generations =
      t.pool.generations.advance e.id := by
  cases result with
  | error cause => rfl
  | ok =>
    cases keep with
    | true => exact generations_releaseDone _ _
    | false => rfl

theorem generations_afterClose (e : Entry) (cause : Option PoolError)
    (result : Except PoolError Unit) :
    (t.afterClose e cause result).pool.generations = t.pool.generations := by
  cases cause with
  | some cause => exact generations_releaseDone _ _
  | none => cases result <;> exact generations_releaseDone _ _

/-- A connection that is given back becomes invalid at once, unless it is rolled back first. -/
theorem generations_returned (e : Entry) : (t.returned id m e).pool.generations =
    if m.isClosed e.physical || m.isAutoCommit e.physical then t.pool.generations.advance e.id
    else t.pool.generations := by
  rw [returned]
  cases m.isClosed e.physical with
  | true => exact generations_releaseDone _ _
  | false =>
    cases m.isAutoCommit e.physical with
    | true => exact generations_afterUndo (t.setBooks _) id e _ m.now (.ok ())
    | false => rfl

theorem generations_release_of_none {h : Handle}
    (none_found : t.pool.books.removeActive? h.id h.generation = none) :
    (t.release id m h).pool.generations = t.pool.generations := by
  rw [release, none_found]
  exact generations_unlock _

/-- A release begins the next generation at once, unless there is something to roll back. -/
theorem generations_release {h : Handle} {e : Entry} {b : Books}
    (found : t.pool.books.removeActive? h.id h.generation = some (e, b))
    (current : e.isCurrent t.pool.generations = true) : (t.release id m h).pool.generations =
    if m.isClosed e.physical || m.isAutoCommit e.physical then t.pool.generations.advance e.id
    else t.pool.generations := by
  have returned : t.release id m h = (t.setBooks b).returned id m e := by
    rw [release, found]
    exact if_pos current
  rw [returned]
  exact generations_returned _ _ _ _

end Turn

/-! ## What a release has done while it goes on -/

namespace Run

variable {id : PoolId} {source : DataSource} {policy : Policy} {r : Run} {e : Event} {t : Turn}
  {m : Moment} {y : Handle} {x : Ending}

namespace Of

/-- A connection that is kept has an entry of its new generation. -/
theorem renewed_eq (h : Of (.opened id source policy) r) (ht : r.pool.respond e = some t)
    {c : Entry} {g : Generations} {b : Books} (current : c.isCurrent r.pool.generations = true)
    (books : t.pool.books = b.keep { c.renewed g with lastUsedAt := m.now })
    (generations : t.pool.generations = r.pool.generations.advance c.id) :
    ({ c.renewed g with lastUsedAt := m.now } : Entry) =
      { c with generation := c.generation + 1, lastUsedAt := m.now } := by
  let d : Entry := { c.renewed g with lastUsedAt := m.now }
  have kept : d ∈ t.pool.books.idle := books ▸ List.mem_append_right _ (List.mem_singleton_self d)
  have entered := (h.move ht).sound.current d (Custody.mem_present.2 (.inr (.inl kept)))
  have entered : t.pool.generations.current c.id = g.current c.id := Entry.isCurrent_iff.1 entered
  rw [generations, Generations.current_advance_self, Entry.isCurrent_iff.1 current] at entered
  simp only [Entry.renewed, ← entered]

/-- What becomes of a release in the turn in which it begins. -/
theorem releases_begin (h : Of (.opened id source policy) r) (ht : r.pool.respond e = some t)
    (goes : Move.Continues ⟨r.pool, e, t⟩ m (.begin (.release y)) .proceed x) :
    ReleasedBy m y r.pool.books r.pool.generations [] t.pool.custody x := by
  change (∃ o, _ ∧ Released m y _ _ _ o t.pool.books t.pool.generations) ∨
    ∃ w, _ ∧ Releasing m y _ _ _ t.pool.books t.pool.generations w
  generalize hi : Move.caller ⟨r.pool, e, t⟩ = i
  have turn : r.pool.turn.release i m y = t := hi ▸ Option.some.inj (goes.advanceWork ht)
  have sequel : r.pool.Sequel m (.begin (.release y)) .proceed t.pool.books x := goes.sequel
  generalize books : t.pool.books = b at sequel
  cases sequel with
  | missing none_found =>
    have generations := Turn.generations_release_of_none r.pool.turn i m none_found
    rw [turn] at generations
    rw [generations]
    exact .inl ⟨_, rfl, .stale (Books.removeActive?_eq_none_iff.1 none_found)⟩
  -- An entry of the books is of the current generation, so this does not happen.
  | misplaced found old => cases old.symm.trans (h.sound.current_of_removeActive? found)
  | @takeBack _ c b _ _ found current returned =>
    have generations := Turn.generations_release r.pool.turn i m found current
    rw [turn] at generations
    obtain ⟨rest, leased, rfl⟩ := Books.exists_found found
    -- A closed connection is let go, an uncommitted one is to be rolled back, any other is kept or
    -- closed.
    cases returned with
    | gone closed =>
      rw [closed, Bool.true_or, if_pos rfl] at generations
      rw [generations]
      exact .inl ⟨_, rfl, .closed leased closed⟩
    | undo is_open uncommitted =>
      rw [is_open, uncommitted, Bool.or_self, if_neg Bool.false_ne_true] at generations
      rw [generations]
      exact .inr ⟨_, rfl, .undoing leased is_open uncommitted⟩
    | commit is_open commits undone =>
      rw [commits, Bool.or_true, if_pos rfl] at generations
      have answers : m.undoing c.physical = [] := by rw [Moment.undoing, if_pos commits]
      rw [generations, ← answers]
      cases undone with
      | keep kept =>
        obtain ⟨fits, room⟩ := Books.keeps_eq_true.1 kept
        rw [h.renewed_eq ht current books generations]
        exact .inl ⟨_, rfl, .kept leased is_open fits room⟩
      | giveUp left => exact .inr ⟨_, rfl, .leaving leased is_open left⟩

/-- What becomes of a release in a later turn. -/
theorem releases_goOn (h : Of (.opened id source policy) r) (ht : r.pool.respond e = some t)
    {m' : Moment} {w : Work} {result : Except PoolError Unit} {b : Books} {g : Generations}
    {learnt : List (Request × Except PoolError Unit)}
    (goes : Move.Continues ⟨r.pool, e, t⟩ m' w (.answered result) x)
    (before : Releasing m y b g learnt r.pool.books r.pool.generations w) :
    ReleasedBy m y b g (learnt ++ (Move.learns? ⟨r.pool, e, t⟩).toList) t.pool.custody x := by
  change (∃ o, _ ∧ Released m y b g _ o t.pool.books t.pool.generations) ∨
    ∃ w, _ ∧ Releasing m y b g _ t.pool.books t.pool.generations w
  have learns := goes.learns?_answered
  have turn := goes.advanceWork ht
  have sequel : r.pool.Sequel m' w (.answered result) t.pool.books x := goes.sequel
  generalize books : t.pool.books = b' at sequel
  generalize now : r.pool.books = b₀ at before
  generalize gens : r.pool.generations = g₀ at before
  -- The request that has been answered is the rollback, or the close after a failed rollback, or
  -- the close for want of room.
  cases before with
  | @undoing c rest found is_open uncommitted =>
    have generations : t.pool.generations = g.advance c.id := by
      rw [← Option.some.inj turn, Turn.generations_afterUndo]
      exact congrArg (Generations.advance · c.id) gens
    have answers : m.undoing c.physical = [(.rollback c.physical, .ok ())] := by
      rw [Moment.undoing, uncommitted]
      rfl
    have learns : Move.learns? ⟨r.pool, e, t⟩ = some (.rollback c.physical, result) := learns
    rw [learns, generations]
    cases sequel with
    | undone undone =>
      cases undone with
      | fail cause =>
        rw [now]
        exact .inr ⟨_, rfl, .failed found is_open uncommitted⟩
      | keep kept =>
        obtain ⟨fits, room⟩ := Books.keeps_eq_true.1 kept
        have current : c.isCurrent r.pool.generations = true := by
          refine h.sound.current c (Custody.mem_present.2 (.inr (.inr ?_)))
          rw [Pool.hand_of_holder goes.holds]
          exact List.mem_singleton_self c
        rw [h.renewed_eq ht current books (gens ▸ generations), now, List.nil_append,
          Option.toList_some, ← answers]
        exact .inl ⟨_, rfl, .kept found is_open fits room⟩
      | giveUp left =>
        rw [now, List.nil_append, Option.toList_some, ← answers]
        exact .inr ⟨_, rfl, .leaving found is_open left⟩
  | @failed c rest cause found is_open uncommitted =>
    have learns : Move.learns? ⟨r.pool, e, t⟩ = some (.close c.physical, result) := learns
    have generations : t.pool.generations = g.advance c.id := by
      rw [← Option.some.inj turn, Turn.generations_afterClose]
      exact gens
    rw [learns, generations]
    cases sequel with
    | closedAfter =>
      rw [now]
      exact .inl ⟨_, rfl, .unrolled found is_open uncommitted⟩
  | @leaving c rest found is_open left =>
    have learns : Move.learns? ⟨r.pool, e, t⟩ = some (.close c.physical, result) := learns
    have generations : t.pool.generations = g.advance c.id := by
      rw [← Option.some.inj turn, Turn.generations_afterClose]
      exact gens
    rw [learns, generations]
    cases sequel with
    | closed =>
      rw [now]
      exact .inl ⟨_, rfl, .left found is_open (Books.keeps_eq_false.1 left)⟩

end Of

/-- What a release has done after each of its turns. -/
theorem releasing : Course id source policy fun u _ learnt c x => ∀ y m,
    u.begun? = some (.release y, m) →
      ReleasedBy m y u.before.books u.before.generations learnt c x where
  begins h ht goes _ y m begun := by
    cases goes.begun?_eq.symm.trans begun
    exact h.releases_begin ht goes
  goesOn h ht goes _ before y m begun := by
    obtain ⟨o, ended, -⟩ | ⟨w, same, releasing⟩ := before y m begun
    · cases ended
    · cases same
      exact h.releases_goOn ht goes releasing

/-- A call that gives the handle `y` back has begun in the move `u`, before which there were the
    moves `earlier`, and is over after some moves, the last of which is `v`. -/
structure GivesBack (y : Handle) (m : Moment) (u v : Move) (earlier before : List Move) : Prop where
  caller : u.caller = v.caller
  begun : u.begun? = some (.release y, m)
  /-- What has come of it. -/
  released : ∃ o, v.turn.outcome = some o ∧
    Released m y u.before.books u.before.generations (told Move.learns? v.caller (v :: before)) o
      v.after.books v.after.generations
  /-- It has made no requests but those whose answers it has learnt. -/
  asked : (told Move.asks? v.caller (v :: before)).map Prod.snd =
    (told Move.learns? v.caller (v :: before)).map Prod.fst
  /-- The lease that it has found was a current one, and if the handle was one of the pool, it was
      that of the handle. The handle is not valid any more. -/
  found : ∀ c rest, u.before.books.Found y c rest → c.isCurrent u.before.generations = true ∧
    (y ∈ earlier.filterMap Move.issued? → c = y.toEntry) ∧ y.isValid v.after.generations = false
  /-- Every other handle is as valid as it was. -/
  others : ∀ x ∈ earlier.filterMap Move.issued?, (x.id, x.generation) ≠ (y.id, y.generation) →
    x.isValid v.after.generations = x.isValid u.before.generations

/-- Releases do what they are to do, from end to end. -/
structure Releases (r : Run) : Prop where
  /-- A release of a handle of another pool fails at once, and nothing is changed. -/
  foreign : ∀ v ∈ r.moves, ∀ y m, v.event = .start (.release y) m → y.pool ≠ v.before.id →
    v.turn.outcome = some (.failed .foreignHandle) ∧ v.after = v.before.numbered ∧ v.turn.woken = []
  /-- A release of a handle of this pool that is over has found its lease or has not, and has
      done what is to be done then. -/
  own : ∀ later v before, r.moves = later ++ v :: before → v.turn.outcome.isSome →
    ∀ s ∈ v :: before, ∀ y m₀, s.event = .start (.release y) m₀ → s.caller = v.caller →
      y.pool = s.before.id →
        ∃ between u earlier m, v :: before = between ++ u :: earlier ∧
          GivesBack y m u v earlier before

/-- A release that finds a lease makes it invalid, and no release does so to another. -/
theorem generations_of_released {b b' : Books} {g g' : Generations} {o : Outcome}
    {learnt : List (Request × Except PoolError Unit)} (h : Released m y b g learnt o b' g') :
    g' = g ∧ (∀ c rest, ¬ b.Found y c rest) ∨
      g' = g.advance y.id ∧ ∃ c rest, b.Found y c rest := by
  cases h with
  | stale none_leased =>
    exact .inl ⟨rfl, fun c rest found => none_leased c found.mem ⟨found.number, found.generation⟩⟩
  | closed found | unrolled found | kept found | left found =>
    exact .inr ⟨by rw [found.number], _, _, found⟩

namespace Of

/-- What a release that is over has done to the handles. -/
theorem validity_of_released (h : Of (.opened id source policy) r) {b : Books} {g : Generations}
    {o : Outcome} {learnt : List (Request × Except PoolError Unit)}
    (released : Released m y r.pool.books r.pool.generations learnt o b g) :
    (∀ c rest, r.pool.books.Found y c rest → c.isCurrent r.pool.generations = true ∧
      (y ∈ r.issued → c = y.toEntry) ∧ y.isValid g = false) ∧
    ∀ x ∈ r.issued, (x.id, x.generation) ≠ (y.id, y.generation) →
      x.isValid g = x.isValid r.pool.generations := by
  have current {c : Entry} {rest : List Entry} (found : r.pool.books.Found y c rest) :
      c.isCurrent r.pool.generations = true :=
    h.sound.current c (Custody.mem_present.2 (.inl found.mem))
  have generation {c : Entry} {rest : List Entry} (found : r.pool.books.Found y c rest) :
      r.pool.generations.current y.id = y.generation := by
    rw [← found.number, ← found.generation]
    exact Entry.isCurrent_iff.1 (current found)
  -- A release without effect leaves all generations, any other begins the next one of its
  -- connection.
  obtain ⟨rfl, none_found⟩ | ⟨rfl, c₀, rest₀, found₀⟩ := generations_of_released released
  · exact ⟨fun c rest found => absurd found (none_found c rest), fun x _ _ => rfl⟩
  · refine ⟨fun c rest found => ⟨current found, fun hy => ?_, ?_⟩, fun x hx other => ?_⟩
    · obtain ⟨x, hx, rfl⟩ := h.exists_issued found.mem
      exact congrArg Handle.toEntry (h.issued_unique hx hy found.number found.generation)
    · rw [Bool.eq_false_iff, Ne, Handle.isValid_iff, Generations.current_advance_self,
        generation found]
      exact Nat.succ_ne_self _
    · rw [Bool.eq_iff_iff, Handle.isValid_iff, Handle.isValid_iff, Generations.current_advance]
      split
      · -- Another handle of the same connection is of an older generation, so it was not valid
        -- before either.
        next same =>
        have le : x.generation ≤ r.pool.generations.current x.id :=
          h.sound.issued_le x (List.mem_reverse.2 hx)
        have apart : x.generation ≠ y.generation := fun gen => other (Prod.ext same gen)
        rw [same, generation found₀] at le ⊢
        omega
      · rfl

/-- What a release has done that is over. -/
theorem givesBack (h : Of (.opened id source policy) r) (ht : r.pool.respond e = some t)
    (ended : t.outcome.isSome) {u : Move} (hu : u ∈ r.moves) {m₀ : Moment}
    (event : u.event = .start (.release y) m₀) (same : u.caller = Move.caller ⟨r.pool, e, t⟩) :
    ∃ between u earlier m, (r.move e t).moves = between ++ u :: earlier ∧
      GivesBack y m u ⟨r.pool, e, t⟩ earlier r.moves := by
  obtain ⟨m', w, s, x, goes, finishes, other⟩ := h.goesOn_of_outcome ht hu event rfl rfl same ended
  obtain ⟨between, u', earlier, split, caller, ⟨intent, m, begun, none_login⟩, released⟩ :=
    releasing.holds h ht goes other
  have there : u' ∈ (r.move e t).moves := split ▸ List.mem_append_right _ List.mem_cons_self
  have intends := (h.move ht).intends (List.mem_cons_of_mem _ hu) there event begun none_login
    (same.trans caller.symm)
  cases intends
  obtain ⟨o, outcome, released⟩ | ⟨w', rfl, -⟩ := released y m begun
  · obtain ⟨r₀, h₀, rfl, pool, -⟩ := (h.move ht).cut split
    rw [← pool] at released
    obtain ⟨found, others⟩ := h₀.validity_of_released released
    rw [pool] at released found others
    exact ⟨between, u', r₀.moves, m, split, caller, begun,
      ⟨o, goes.outcome.trans outcome, released⟩, h.asked_eq_of_ended ht goes other finishes, found,
      others⟩
  · cases finishes

end Of

end Run

/-- Every release does what it is to do, from end to end, whatever happens meanwhile. -/
theorem Pool.releases (id : PoolId) (source : DataSource) (policy : Policy) (events : List Event) :
    ((opened id source policy).run events).Releases := by
  have h := (opened id source policy).of_run events
  generalize (opened id source policy).run events = r at h
  constructor
  · rintro ⟨p, e, t⟩ hv y m event foreign
    obtain ⟨r₀, h₀, rfl, ht⟩ := h.exists_before hv
    obtain rfl : e = .start (.release y) m := event
    have turn : (r₀.pool.start (.release y) m).2 =
        r₀.pool.numbered.turn.finish (.failed .foreignHandle) := if_neg foreign
    rw [respond, turn] at ht
    obtain rfl := Option.some.inj ht
    exact ⟨rfl, rfl, rfl⟩
  · intro later v before split ended s hs y m₀ event same own
    obtain ⟨p, e, t⟩ := v
    obtain ⟨r₀, h₀, rfl, rfl, ht⟩ := h.cut split
    rcases List.mem_cons.1 hs with rfl | hs
    · -- It has only asked for the lock.
      obtain rfl : e = .start (.release y) m₀ := event
      have turn : (r₀.pool.start (.release y) m₀).2 =
          r₀.pool.numbered.turn.lock r₀.pool.nextCall (.release y) := if_pos own
      rw [respond, turn] at ht
      obtain rfl := Option.some.inj ht
      rw [outcome_lock] at ended
      cases ended
    · exact h₀.givesBack ht ended hs event same

end LeasePool
