import LeasePool.Proofs.Ages

/-!
# When a connection was used last

An entry remembers when its connection was used last. For a lease that is the moment at which it was
handed out. For an idle connection it is the moment at which it was given back: that at which its
release got the lock, although it is put back only later if it is rolled back first. A lease that is
taken away keeps the moment at which it was handed out.

So the moments in the books are those of the turns that are the last ones of their kind in the run
(`Run.KnowsUses`).

* `Pool.Sequel.putsBack`: what is put back into the books bears the moment of its release;
* `Run.Of.knowsUses`: the books know when each connection was used last;
* `Run.Of.lookedAt_eq`: an acquisition that waits for a connection knows when it has looked.
-/

namespace LeasePool

/-! ## What is put back -/

/-- A release puts a connection back that was given back at some time: when the lease has been found
    in the books `b`, or earlier if the connection has been rolled back since. -/
inductive Work.PutsBack (b : Books) (now : Instant) : Work → ConnectionId → Instant → Prop
  | undo (e : Entry) (keep : Bool) (returnedAt : Instant) :
      PutsBack b now (.undo e keep returnedAt) e.id returnedAt
  | release {y : Handle} {e : Entry} {b' : Books}
      (found : b.removeActive? y.id y.generation = some (e, b')) :
      PutsBack b now (.begin (.release y)) e.id now

/-- What is idle after a rollback was idle before, or it has been put back. -/
theorem Entry.Undone.mem_idle {e d : Entry} {b b' : Books} {keep : Bool} {returnedAt : Instant}
    {result : Except PoolError Unit} {x : Ending} (h : e.Undone b keep returnedAt result b' x)
    (hd : d ∈ b'.idle) : d ∈ b.idle ∨ d.id = e.id ∧ d.lastUsedAt = returnedAt := by
  cases h with
  | keep kept =>
    refine (List.mem_append.1 hd).imp_right fun new => ?_
    rw [List.mem_singleton.1 new]
    exact ⟨rfl, rfl⟩
  | _ => exact .inl hd

/-! ## Who waits for a candidate -/

/-- When an acquisition has looked at the books that waits for its candidate: for a connection that
    is being opened, or for a lease that it takes away to be rolled back. -/
def Work.lookedAt? : Work → Option Instant
  | .connect _ lookedAt | .reclaim _ _ lookedAt => some lookedAt
  | _ => none

namespace Acquisition

variable {a : Acquisition} {m : Moment} {e : Entry} {b b' : Books} {g : Generations} {w : Work}
  {lookedAt : Instant}

theorem Refuses.lookedAt?_eq_none (h : a.Refuses m e b b' (.work w)) : w.lookedAt? = none := by
  cases h with
  | gone closed retries => cases retries; rfl
  | discard is_open => rfl

theorem Accepts.lookedAt?_eq_none (h : a.Accepts m e b b' (.work w)) : w.lookedAt? = none := by
  cases h
  rfl

/-- Who has a candidate does not wait for one. -/
theorem Examines.lookedAt?_eq_none (h : a.Examines m e b g b' (.work w)) : w.lookedAt? = none := by
  cases h with
  | test query => rfl
  | accept accepts => exact accepts.lookedAt?_eq_none
  | refuse bad refuses => exact refuses.lookedAt?_eq_none

/-- An acquisition begins to wait for a candidate when it looks at the books. -/
theorem Looks.lookedAt_eq (h : a.Looks m b g b' (.work w)) (waits : w.lookedAt? = some lookedAt) :
    lookedAt = m.now := by
  cases h with
  | take found examines => cases examines.lookedAt?_eq_none.symm.trans waits
  | connect none_idle room => exact (Option.some.inj waits).symm
  | reclaim none_idle full overdue uncommitted => exact (Option.some.inj waits).symm
  | claim none_idle full overdue commits examines =>
    cases examines.lookedAt?_eq_none.symm.trans waits

/-- A lease that is to be reclaimed has been found in the books. -/
theorem Looks.reclaims (h : a.Looks m b g b' (.work w)) {a' : Acquisition}
    (reclaims : w = .reclaim a' e lookedAt) : e ∈ b.active := by
  subst reclaims
  cases h with
  | take found examines => cases examines.lookedAt?_eq_none
  | reclaim none_idle full overdue uncommitted =>
    obtain ⟨rest, -, front, -, -⟩ := Books.claimOverdue?_eq_some overdue
    exact front ▸ List.mem_cons_self
  | claim none_idle full overdue commits examines => cases examines.lookedAt?_eq_none

end Acquisition

namespace Pool

variable {p : Pool} {m : Moment} {w w' : Work} {s : Signal} {b : Books} {x : Ending} {d : Entry}

/-- What is idle after a turn was idle before it, or a release has put it back. -/
theorem Sequel.putsBack (h : p.Sequel m w s b x) (hd : d ∈ b.idle) :
    d ∈ p.books.idle ∨ w.PutsBack p.books m.now d.id d.lastUsedAt := by
  cases h with
  | look looks => exact .inl (List.mem_of_mem_tail (looks.idle_eq ▸ hd))
  | awaken looks => exact .inl (List.mem_of_mem_tail (looks.idle_eq ▸ hd))
  | misplaced found old =>
    obtain ⟨before, later, -, -, -, rfl⟩ := Books.removeActive?_eq_some found
    exact .inl hd
  -- A release puts its connection back at once if there is nothing to roll back, else when its
  -- rollback has been answered.
  | takeBack found current returned =>
    obtain ⟨before, later, -, -, -, rfl⟩ := Books.removeActive?_eq_some found
    cases returned with
    | commit is_open commits undone =>
      refine (undone.mem_idle hd).imp_right fun new => ?_
      rw [new.1, new.2]
      exact .release found
    | _ => exact .inl hd
  | reset accepted clears => exact absurd hd List.not_mem_nil
  | opened examines => exact .inl (examines.idle_eq ▸ hd)
  | reclaimed examines => exact .inl (examines.idle_eq ▸ hd)
  | passed phase accepts => exact .inl (accepts.idle_eq ▸ hd)
  | failed phase refuses => exact .inl (refuses.idle_eq ▸ hd)
  | unprepared refuses => exact .inl (refuses.idle_eq ▸ hd)
  | @undone e keep returnedAt _ _ _ undone =>
    refine (undone.mem_idle hd).imp_right fun new => ?_
    rw [new.1, new.2]
    exact .undo e keep returnedAt
  | _ => exact .inl hd

/-- An acquisition begins to wait for a candidate in the turn in which it looks at the books. -/
theorem Sequel.lookedAt_eq (h : p.Sequel m w s b (.work w')) {lookedAt : Instant}
    (waits : w'.lookedAt? = some lookedAt) : lookedAt = m.now ∧ ∃ intent, w = .begin intent := by
  have acquires : w.login?.isSome = true := by
    rw [show w.login? = w'.login? from (h.remains.login rfl).symm]
    cases w' <;> first | rfl | cases waits
  cases h with
  | look looks => exact ⟨looks.lookedAt_eq waits, _, rfl⟩
  | awaken looks => exact ⟨looks.lookedAt_eq waits, _, rfl⟩
  | opened examines => cases examines.lookedAt?_eq_none.symm.trans waits
  | reclaimed examines => cases examines.lookedAt?_eq_none.symm.trans waits
  | passed phase accepts => cases accepts.lookedAt?_eq_none.symm.trans waits
  | failed phase refuses => cases refuses.lookedAt?_eq_none.symm.trans waits
  | unprepared refuses => cases refuses.lookedAt?_eq_none.symm.trans waits
  | discarded retries =>
    cases retries
    cases waits
  | takeBack | reset | undone | resetClosed => cases acquires
  | _ => cases waits

/-- A lease that is to be reclaimed has been found in the books. -/
theorem Sequel.reclaims {a : Acquisition} {e : Entry} {lookedAt : Instant}
    (h : p.Sequel m w s b (.work (.reclaim a e lookedAt))) : e ∈ p.books.active := by
  have other := h.remains.login rfl
  obtain ⟨-, intent, rfl⟩ := h.lookedAt_eq rfl
  cases h with
  | look looks => exact looks.reclaims rfl
  | awaken looks => exact looks.reclaims rfl
  | takeBack | reset => cases other

/-- A release has found the lease that is to be rolled back. -/
theorem Sequel.undoes {e : Entry} {keep : Bool} {returnedAt : Instant}
    (h : p.Sequel m w s b (.work (.undo e keep returnedAt))) : ∃ y b', w = .begin (.release y) ∧
      p.books.removeActive? y.id y.generation = some (e, b') := by
  have other := h.remains.login rfl
  cases h with
  | takeBack found current returned =>
    cases returned with
    | undo is_open uncommitted => exact ⟨_, _, rfl, found⟩
    | commit is_open commits undone => cases undone
  | @reset r b' _ accepted clears =>
    generalize b'.entries = rest at clears
    cases clears
  | undone undone => cases undone
  | resetClosed clears => cases clears
  | _ => cases other

end Pool

/-! ## What the run tells -/

namespace Move

variable {v : Move}

/-- A release takes back what is leased. -/
theorem mem_active_of_returned {c : Entry} (h : c ∈ v.returned) : c ∈ v.before.books.active := by
  unfold returned at h
  split at h
  · next y m begun =>
    obtain ⟨found, taken, rfl⟩ := Option.map_eq_some_iff.1 (Option.mem_toList.1 h)
    obtain ⟨before, later, active, -⟩ := Books.removeActive?_eq_some taken
    rw [active]
    exact List.mem_append_right _ List.mem_cons_self
  · cases h

theorem returned_of_begun {y : Handle} {m : Moment} {e : Entry} {b : Books}
    (begun : v.begun? = some (.release y, m))
    (found : v.before.books.removeActive? y.id y.generation = some (e, b)) : v.returned = [e] := by
  rw [returned, begun]
  change (Option.map _ (v.before.books.removeActive? y.id y.generation)).toList = _
  rw [found]
  rfl

end Move

namespace Run

/-- The moment of the last turn of some kind. -/
def lastly (f : Move → Bool) (moves : List Move) : Option Instant :=
  (moves.find? f).bind fun v => v.moment?.map Moment.now

/-- When a connection was handed out last. -/
def issuedAt? (c : ConnectionId) : List Move → Option Instant :=
  lastly fun v => v.issued?.any fun y => y.id == c

/-- When a release that has taken a connection back got the lock last. -/
def returnedAt? (c : ConnectionId) : List Move → Option Instant :=
  lastly fun v => v.returned.any fun e => e.id == c

/-- When a call has looked at the books last. -/
def lookedAt? (i : CallId) : List Move → Option Instant :=
  lastly fun v => v.caller == i && v.begun?.isSome

variable {id : PoolId} {source : DataSource} {policy : Policy} {r : Run} {e : Event} {t : Turn}
  {f : Move → Bool} {v : Move} {before : List Move} {m : Moment}

theorem lastly_cons_of_pos (h : f v = true) (moment : v.moment? = some m) :
    lastly f (v :: before) = some m.now := by
  rw [lastly, List.find?_cons_of_pos h, Option.bind_some, moment, Option.map_some]

theorem lastly_cons_of_neg (h : f v = false) : lastly f (v :: before) = lastly f before := by
  rw [lastly, List.find?_cons_of_neg (Bool.eq_false_iff.1 h)]
  rfl

/-- The books know when each connection was used last, and so does a call that rolls back a
    connection that was given back, or a lease that it has taken away. -/
structure KnowsUses (r : Run) : Prop where
  idle : ∀ e ∈ r.pool.books.idle, returnedAt? e.id r.moves = some e.lastUsedAt
  active : ∀ e ∈ r.pool.books.active, issuedAt? e.id r.moves = some e.lastUsedAt
  undoing : ∀ i e keep returnedAt, r.pool.holder = some (i, .undo e keep returnedAt) →
    returnedAt? e.id r.moves = some returnedAt
  reclaiming : ∀ i a e lookedAt, r.pool.holder = some (i, .reclaim a e lookedAt) →
    issuedAt? e.id r.moves = some e.lastUsedAt

theorem issuedAt?_cons_of_none {c : ConnectionId} (h : v.issued? = none) :
    issuedAt? c (v :: before) = issuedAt? c before := lastly_cons_of_neg (by rw [h]; rfl)

theorem returnedAt?_cons_of_nil {c : ConnectionId} (h : v.returned = []) :
    returnedAt? c (v :: before) = returnedAt? c before := lastly_cons_of_neg (by rw [h]; rfl)

namespace Of

/-- A lease that is handed out in a turn bears its moment. -/
theorem lastUsedAt_of_issued (ht : r.pool.respond e = some t) {y : Handle}
    (issued : Move.issued? ⟨r.pool, e, t⟩ = some y)
    (moment : Move.moment? ⟨r.pool, e, t⟩ = some m) : y.lastUsedAt = m.now := by
  obtain ⟨m', w, s, x, goes, lends⟩ := (Pool.responds_of_respond ht).lends issued
  obtain rfl : m' = m := Option.some.inj (goes.moment?_eq.symm.trans moment)
  generalize t.pool.books = b at lends
  cases lends with
  | prepared same => exact congrArg Entry.lastUsedAt same
  | commits acquires same commits => exact congrArg Entry.lastUsedAt same

/-- No two entries of the books are of one connection. -/
theorem eq_of_id (h : Of (.opened id source policy) r) {c d : Entry}
    (hc : c ∈ r.pool.books.entries) (hd : d ∈ r.pool.books.entries) (same : c.id = d.id) :
    c = d := by
  have distinct := h.sound.distinct
  rw [Custody.present, List.map_append, List.nodup_append] at distinct
  exact List.inj_on_of_nodup_map distinct.1 hc hd same

/-- No connection is leased and idle. -/
theorem id_ne (h : Of (.opened id source policy) r) {c d : Entry} (leased : c ∈ r.pool.books.active)
    (unused : d ∈ r.pool.books.idle) : c.id ≠ d.id := by
  have distinct := h.sound.distinct
  rw [Custody.present, List.map_append, List.map_append, List.nodup_append,
    List.nodup_append] at distinct
  exact distinct.1.2.2 _ (List.mem_map_of_mem leased) _ (List.mem_map_of_mem unused)

/-- What is idle after a turn bears the moment at which it was given back. -/
theorem returnedAt?_idle (h : Of (.opened id source policy) r) (known : r.KnowsUses)
    {w : Work} {s : Signal} {x : Ending} (goes : Move.Continues ⟨r.pool, e, t⟩ m w s x)
    {d : Entry} (hd : d ∈ t.pool.books.idle) :
    returnedAt? d.id (⟨r.pool, e, t⟩ :: r.moves) = some d.lastUsedAt := by
  -- One that was idle has not been returned in this turn: an idle one is not leased.
  obtain old | new := goes.sequel.putsBack hd
  · rw [returnedAt?, lastly_cons_of_neg]
    · exact known.idle d old
    · rw [List.any_eq_false]
      intro c hc
      rw [beq_iff_eq]
      exact h.id_ne (Move.mem_active_of_returned hc) old
  · have holds : r.pool.holder = some (Move.caller ⟨r.pool, e, t⟩, w) := goes.holds
    change w.PutsBack r.pool.books m.now d.id d.lastUsedAt at new
    generalize d.id = c at new ⊢
    generalize d.lastUsedAt = u at new ⊢
    cases new with
    | undo e keep =>
      rw [returnedAt?_cons_of_nil]
      · exact known.undoing _ e keep u holds
      · refine Move.returned_eq_nil fun y m begun => ?_
        cases holds.symm.trans (Move.begun?_eq_some.1 begun).2
    | @release y e' b' found =>
      rw [returnedAt?, lastly_cons_of_pos _ goes.moment?_eq]
      rw [Move.returned_of_begun goes.begun?_eq found, List.any_cons, beq_self_eq_true]
      rfl

/-- What is leased after a turn bears the moment at which it was handed out. -/
theorem issuedAt?_active (h : Of (.opened id source policy) r) (ht : r.pool.respond e = some t)
    (known : r.KnowsUses) {w : Work} {s : Signal} {x : Ending}
    (goes : Move.Continues ⟨r.pool, e, t⟩ m w s x) {d : Entry} (hd : d ∈ t.pool.books.active) :
    issuedAt? d.id (⟨r.pool, e, t⟩ :: r.moves) = some d.lastUsedAt := by
  obtain ⟨kept, sub, active⟩ := goes.sequel.draws.sublist
  have active : t.pool.books.active = kept ++ x.leased := active
  rw [goes.leased_eq] at active
  cases issued : Move.issued? ⟨r.pool, e, t⟩ with
  | none =>
    rw [issued, Option.map_none, Option.toList_none, List.append_nil] at active
    rw [issuedAt?_cons_of_none issued]
    exact known.active d (sub.subset (active ▸ hd))
  | some y =>
    have there : y.toEntry ∈ t.pool.books.active := by
      rw [active, issued]
      exact List.mem_append_right _ (List.mem_singleton_self _)
    by_cases same : y.id = d.id
    · obtain rfl : y.toEntry = d := (h.move ht).eq_of_id (List.mem_append_left _ there)
        (List.mem_append_left _ hd) same
      rw [issuedAt?, lastly_cons_of_pos _ goes.moment?_eq,
        lastUsedAt_of_issued ht issued goes.moment?_eq]
      rw [issued, Option.any_some, beq_iff_eq]
    · rw [issuedAt?, lastly_cons_of_neg]
      · refine known.active d (sub.subset ?_)
        rw [active, issued, List.mem_append] at hd
        refine hd.resolve_right fun new => same ?_
        rw [List.mem_singleton.1 new]
      · rw [issued, Option.any_some, beq_eq_false_iff_ne]
        exact same

/-- The books know when each connection was used last. -/
theorem knowsUses (h : Of (.opened id source policy) r) : r.KnowsUses := by
  induction h with
  | start =>
    exact ⟨fun e he => absurd he List.not_mem_nil, fun e he => absurd he List.not_mem_nil,
      fun i e keep returnedAt holds => (by cases holds),
      fun i a e lookedAt holds => (by cases holds)⟩
  | @move r e t h ht ih =>
    have responds := Pool.responds_of_respond ht
    by_cases going : ∃ m w s x, Move.Continues ⟨r.pool, e, t⟩ m w s x
    · obtain ⟨m, w, s, x, goes⟩ := going
      -- What is in the books is told above. A rollback or a reclamation that is under way either
      -- began in this turn, or it was under way before and its caller had no turn.
      refine ⟨fun d hd => h.returnedAt?_idle ih goes hd,
        fun d hd => h.issuedAt?_active ht ih goes hd, fun i c keep returnedAt holds => ?_,
        fun i a c lookedAt holds => ?_⟩
      · obtain ⟨m', w', s', goes', -⟩ | ⟨held, other, -⟩ :=
          responds.holder h.callsOnce holds fun _ => Work.noConfusion
        · obtain ⟨y, b', rfl, found⟩ := goes'.sequel.undoes
          rw [moves_move, returnedAt?, lastly_cons_of_pos _ goes'.moment?_eq,
            goes'.sequel.returnedAt]
          rw [Move.returned_of_begun goes'.begun?_eq found, List.any_cons, beq_self_eq_true]
          rfl
        · exact absurd (Pool.holder_unique held goes.holds).1.symm other
      · obtain ⟨m', w', s', goes', -⟩ | ⟨held, other, -⟩ :=
          responds.holder h.callsOnce holds fun _ => Work.noConfusion
        · rw [moves_move, issuedAt?_cons_of_none]
          · exact ih.active c goes'.sequel.reclaims
          · rw [Move.issued?, goes'.outcome]
            rfl
        · exact absurd (Pool.holder_unique held goes.holds).1.symm other
    · -- If nobody goes on with work, books and work are what they were, and nothing is returned or
      -- handed out.
      push Not at going
      obtain ⟨books, -, -, -, issued⟩ := h.idle_move ht going
      have returned : Move.returned ⟨r.pool, e, t⟩ = [] := by
        obtain ⟨m, w, s, x, goes⟩ | ⟨-, -, begun⟩ := responds.continues_or_idle h.callsOnce
        · exact absurd goes (going m w s x)
        · exact Move.returned_eq_nil fun y m begins => by cases begun.symm.trans begins
      have still {i : CallId} {w : Work} (holds : t.pool.holder = some (i, w))
          (busy : ∀ intent, w ≠ .begin intent) : r.pool.holder = some (i, w) := by
        obtain ⟨m, w', s, goes, -⟩ | ⟨held, -⟩ := responds.holder h.callsOnce holds busy
        · exact absurd goes (going _ _ _ _)
        · exact held
      refine ⟨fun d hd => ?_, fun d hd => ?_, fun i c keep returnedAt holds => ?_,
        fun i a c lookedAt holds => ?_⟩ <;> rw [moves_move]
      · rw [returnedAt?_cons_of_nil returned]
        exact ih.idle d (books ▸ hd)
      · rw [issuedAt?_cons_of_none issued]
        exact ih.active d (books ▸ hd)
      · rw [returnedAt?_cons_of_nil returned]
        exact ih.undoing i c keep returnedAt (still holds fun _ => Work.noConfusion)
      · rw [issuedAt?_cons_of_none issued]
        exact ih.reclaiming i a c lookedAt (still holds fun _ => Work.noConfusion)

/-- An acquisition that waits for its candidate has looked at the books at the moment that it
    remembers. -/
theorem lookedAt?_eq (h : Of (.opened id source policy) r) {i : CallId} {w : Work}
    {lookedAt : Instant} (holds : r.pool.holder = some (i, w))
    (waits : w.lookedAt? = some lookedAt) : Run.lookedAt? i r.moves = some lookedAt := by
  have busy : ∀ intent, w ≠ .begin intent := by
    rintro intent rfl
    cases waits
  induction h with
  | start => cases holds
  | @move r e t h ht ih =>
    -- The wait begins in this turn, which is then the last look at the books, or it goes on while
    -- others have their turns.
    obtain ⟨m, w₀, s, goes, caller⟩ | ⟨held, other, -⟩ :=
      (Pool.responds_of_respond ht).holder h.callsOnce holds busy
    · obtain ⟨now, intent, rfl⟩ := goes.sequel.lookedAt_eq waits
      rw [moves_move, Run.lookedAt?, lastly_cons_of_pos _ goes.moment?_eq, now]
      rw [caller, beq_self_eq_true, goes.begun?_eq]
      rfl
    · rw [moves_move, Run.lookedAt?, lastly_cons_of_neg]
      · exact ih held
      · rw [beq_eq_false_iff_ne.2 other, Bool.false_and]

end Of

end Run

end LeasePool
