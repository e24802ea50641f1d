import LeasePool.Proofs.Validity

/-!
# Uncommitted work

Uncommitted work does not cross from one lease to the next. A connection that does not commit on
its own is rolled back twice when it is taken back: its handle is still valid during the first
rollback, so its holder may go on working with it. What counts is the second one, of the
candidate: it begins when no handle is valid any more, and the connection is handed out when it
has succeeded, by the same call and with nothing in between (`Run.AtWork`).

The first one counts for a connection that is closed: it has been rolled back since it was leased
for the last time, whatever has become of it since then (`Run.Of.rolledBack`).

* `Pool.undoes_work`: every run undoes uncommitted work before it hands out or closes a connection.
-/

namespace LeasePool

namespace Stage

/-- Whether a connection at a stage has been rolled back, or is rolled back, since its last lease. -/
def undone : Stage → Bool
  | leased | pending => false
  | _ => true

variable {m : Moment} {c : Physical} {σ σ' : Stage}

/-- A connection that does not commit on its own is rolled back when it comes from a lease. -/
theorem Next.undone (h : Next m c σ σ') (uncommitted : m.isAutoCommit c = false)
    (hσ' : σ'.undone = true) : σ.undone = true ∨ σ'.request? c = some (.rollback c) := by
  have never (commits : m.isAutoCommit c = true) : False := by
    rw [uncommitted] at commits
    cases commits
  -- A stage without uncommitted work is reached from such a stage, by a rollback, or by a step that
  -- only connections take that commit on their own.
  cases h with
  | offer free offer => rcases free with rfl | rfl | rfl <;> exact .inl rfl
  | reclaim uncommitted => exact .inr rfl
  | claim commits offer => exact (never commits).elim
  | undo uncommitted => exact .inr rfl
  | keep undone =>
    obtain rfl | ⟨-, commits⟩ := undone
    · exact .inl rfl
    · exact (never commits).elim
  | giveUp undone =>
    obtain rfl | ⟨-, commits⟩ := undone
    · exact .inl rfl
    · exact (never commits).elim
  | resetUndo rests uncommitted => exact .inr rfl
  | resetClose rests commits => exact (never commits).elim
  | drain rests => cases hσ'
  | _ => exact .inl rfl

/-- A connection that commits on its own does not come to a stage at which it is rolled back. -/
theorem Next.uncommitted (h : Next m c σ σ') (asked : σ'.request? c = some (.rollback c)) :
    m.isAutoCommit c = false := by
  have ready {σ' : Stage} (h : Ready m c σ') (asked : σ'.request? c = some (.rollback c)) :
      m.isAutoCommit c = false := by
    -- Every step to a rollback has looked whether the connection commits on its own.
    cases h with
    | lease commits => cases asked
    | prepare uncommitted => exact uncommitted
  have offered {σ' : Stage} (h : Offer m c σ') (asked : σ'.request? c = some (.rollback c)) :
      m.isAutoCommit c = false := by
    cases h with
    | ready h => exact ready h asked
    | _ => cases asked
  cases h with
  | offer free offer => exact offered offer asked
  | claim commits offer => exact offered offer asked
  | passed unsettled h => exact ready h asked
  | reclaim uncommitted | probed uncommitted | undo uncommitted | resetUndo rests uncommitted =>
    exact uncommitted
  | _ => cases asked

end Stage

namespace Run

/-- A connection never commits on its own during a run. -/
def NeverCommits (r : Run) (c : Physical) : Prop :=
  ∀ v ∈ r.moves, ∀ m, v.moment? = some m → m.isAutoCommit c = false

/-- A connection always commits on its own during a run. -/
def AlwaysCommits (r : Run) (c : Physical) : Prop :=
  ∀ v ∈ r.moves, ∀ m, v.moment? = some m → m.isAutoCommit c = true

/-- The pool has begun to roll a connection back, and the connection has not been leased since. -/
def RolledBack (r : Run) (c : Physical) : Prop :=
  ∃ between u earlier, r.moves = between ++ u :: earlier ∧ u.asked? = some (.rollback c) ∧
    ∀ x ∈ between ++ [u], ∀ e ∈ x.after.books.active, e.physical ≠ c

variable {id : PoolId} {source : DataSource} {policy : Policy} {r : Run} {e : Event} {t : Turn}
  {c : Physical} {σ : Stage}

theorem RolledBack.move (h : r.RolledBack c) (unleased : ∀ e ∈ t.pool.books.active, e.physical ≠ c) :
    (r.move e t).RolledBack c := by
  obtain ⟨between, u, earlier, split, asked, since⟩ := h
  refine ⟨⟨r.pool, e, t⟩ :: between, u, earlier, congrArg _ split, asked, ?_⟩
  exact List.forall_mem_cons.2 ⟨unleased, since⟩

namespace Of

/-- A connection that has not been opened has not been handed out. -/
theorem not_issued (h : Of (.opened id source policy) r) (new : c ∉ r.opened.map Prod.snd) :
    ∀ x ∈ r.issued, x.physical ≠ c := by
  rintro x hx rfl
  have known := h.sound.issued_known x (List.mem_reverse.2 hx)
  exact new (List.mem_map_of_mem (f := Prod.snd) (List.mem_reverse.1 known))

/-- A connection that does not commit on its own, and is not leased nor waits for a reset to close
    it, has been rolled back since it was leased for the last time. -/
theorem rolledBack (h : Of (.opened id source policy) r) (distinct : r.Distinct)
    (never : r.NeverCommits c) (hm : (c, σ) ∈ r.pool.places) (undone : σ.undone = true) :
    (∀ x ∈ r.issued, x.physical ≠ c) ∨ r.RolledBack c := by
  induction h generalizing σ with
  | start => cases hm
  | @move r e t h ht ih =>
    have after := h.move ht
    have unleased : ∀ x ∈ t.pool.books.active, x.physical ≠ c := by
      rintro x hx rfl
      have leased : (x.physical, .leased) ∈ t.pool.places :=
        List.mem_append_left _ (List.mem_append_right _
          (List.mem_append_left _ (List.mem_map_of_mem hx)))
      cases after.stage_unique distinct hm leased
      cases undone
    -- The connection is not handed out in this turn either.
    have unissued : (∀ x ∈ r.issued, x.physical ≠ c) →
        ∀ x ∈ (r.move e t).issued, x.physical ≠ c := by
      intro none x hx
      rw [issued_move, List.mem_append, Option.mem_toList] at hx
      rcases hx with new | old
      · obtain ⟨m, w, s, y, -, lends⟩ := (Pool.responds_of_respond ht).lends new
        exact unleased x.toEntry lends.mem_active
      · exact none x old
    have later {σ : Stage} (hσ : (c, σ) ∈ r.pool.places) (undone : σ.undone = true) :
        (∀ x ∈ (r.move e t).issued, x.physical ≠ c) ∨ (r.move e t).RolledBack c := by
      have never : r.NeverCommits c := fun v hv => never v (List.mem_cons_of_mem _ hv)
      exact (ih distinct.of_move never hσ undone).imp unissued fun back => back.move unleased
    by_cases known : c ∈ r.opened.map Prod.snd
    · obtain ⟨σ₀, hσ₀, carries⟩ := h.exists_stage ht distinct known hm
      cases carries with
      | stay => exact later hσ₀ undone
      | go moment next asked =>
        obtain before | request := next.undone (never _ List.mem_cons_self _ moment) undone
        · exact later hσ₀ before
        · -- The rollback begins in this turn.
          refine .inr ⟨[], ⟨r.pool, e, t⟩, r.moves, rfl, asked _ request, fun x hx => ?_⟩
          rw [List.mem_singleton.1 hx]
          exact unleased
      | @orphan σ₀ x w dropped holds candidate place =>
        refine later hσ₀ ?_
        cases w <;> cases candidate <;> cases place <;> rfl
      | begin asked => exact later hσ₀ rfl
    · exact .inl (unissued (h.not_issued known))

/-- A connection that always commits on its own is at no stage at which it is rolled back. -/
theorem not_rolling (h : Of (.opened id source policy) r) (always : r.AlwaysCommits c)
    (hm : (c, σ) ∈ r.pool.places) : σ.request? c ≠ some (.rollback c) := by
  induction h generalizing σ with
  | start => cases hm
  | @move r e t h ht ih =>
    obtain ⟨σ₀, hσ₀, carries⟩ := (h.carried ht).exists_of_mem hm
    intro request
    cases carries with
    | stay =>
      rcases List.mem_append.1 hσ₀ with new | old
      · obtain ⟨o, -, same⟩ := Option.map_eq_some_iff.1 (Option.mem_toList.1 new)
        cases same
        cases request
      · exact ih (fun v hv => always v (List.mem_cons_of_mem _ hv)) old request
    | go moment next asked =>
      have commits := always _ List.mem_cons_self _ moment
      rw [next.uncommitted request] at commits
      cases commits
    | orphan => cases request
    | begin => cases request

/-- A connection that does not commit on its own is handed out by a call that has rolled it back
    with nobody else in between. -/
theorem rolledBack_of_issued (h : Of (.opened id source policy) r) (ht : r.pool.respond e = some t)
    (distinct : r.Distinct) {x : Handle} (issued : Move.issued? ⟨r.pool, e, t⟩ = some x)
    (never : ∀ m, Move.moment? ⟨r.pool, e, t⟩ = some m → m.isAutoCommit x.physical = false) :
    Move.fulfilled? ⟨r.pool, e, t⟩ = some (.rollback x.physical) ∧
      ∃ between u earlier, r.moves = between ++ u :: earlier ∧
        u.asked? = some (.rollback x.physical) ∧ u.caller = Move.caller ⟨r.pool, e, t⟩ ∧
        (∀ y ∈ between, y.caller ≠ Move.caller ⟨r.pool, e, t⟩) ∧
        ∀ g ∈ r.issued, g.physical = x.physical →
          ¬ g.isValid u.after.generations ∧ ∀ y ∈ between, g.Refused y.before := by
  obtain ⟨m, w, s, y, goes, lends⟩ := (Pool.responds_of_respond ht).lends issued
  generalize t.pool.books = b at lends
  cases lends with
  | commits acquires same commits =>
    rw [never m goes.moment?_eq] at commits
    cases commits
  | @prepared a c same =>
    have physical : x.physical = c.physical := by
      rw [same]
      rfl
    rw [physical]
    -- The call has been at this work since it asked for the rollback.
    obtain ⟨between, u, earlier, work⟩ := h.exists_atWork goes.holds fun _ => Work.noConfusion
    obtain ⟨m', w', s', begun⟩ := work.begun
    have spent : r.Spent c.physical := by
      refine h.spent distinct (σ := .preparing) ?_ rfl
      exact Pool.mem_places_of_holder goes.holds (List.mem_singleton_self _)
    refine ⟨goes.fulfilled?_eq, between, u, earlier, work.split, begun.asked?_work, work.caller,
      fun y hy => (work.others y hy).1, fun g hg same => ?_⟩
    have invalid {q : Pool} (unchanged : q.custody = r.pool.custody) :
        ¬ g.isValid q.generations := by
      rw [show q.generations = r.pool.generations from congrArg Custody.generations unchanged]
      exact spent g hg same
    exact ⟨invalid work.custody, fun y hy =>
      Handle.refused_of_invalid (invalid (work.others y hy).2)⟩

/-- A connection that does not commit on its own and has been leased is closed when it has been
    rolled back since then. -/
theorem rolledBack_of_closing (h : Of (.opened id source policy) r)
    (ht : r.pool.respond e = some t) (distinct : (r.move e t).Distinct)
    (asked : Move.asked? ⟨r.pool, e, t⟩ = some (.close c)) (never : (r.move e t).NeverCommits c)
    {x : Handle} (hx : x ∈ r.issued) (same : x.physical = c) :
    ∃ between u earlier, r.moves = between ++ u :: earlier ∧ u.asked? = some (.rollback c) ∧
      ∀ y ∈ ⟨r.pool, e, t⟩ :: between ++ [u], ∀ e ∈ y.after.books.active, e.physical ≠ c := by
  obtain ⟨σ, hσ, request⟩ := h.exists_asked ht asked (.inr rfl)
  have undone : σ.undone = true := by
    unfold Stage.request? at request
    split at request <;> first | rfl | cases request
  have issued : x ∈ (r.move e t).issued := by
    rw [issued_move]
    exact List.mem_append_right _ hx
  obtain unissued | ⟨between, u, earlier, split, rolled, since⟩ :=
    (h.move ht).rolledBack distinct never hσ undone
  · exact absurd same (unissued x issued)
  · rw [moves_move] at split
    cases between with
    | nil =>
      -- It is another turn, because it makes another request.
      injection split with last _
      rw [← last, asked] at rolled
      cases rolled
    | cons y between =>
      injection split with last split
      subst last
      exact ⟨between, u, earlier, split, rolled, since⟩

end Of

/-- Uncommitted work is undone before a connection changes hands. -/
structure UndoesWork (r : Run) : Prop where
  /-- A connection that does not commit on its own is handed out by a call that has begun to roll
      it back when all its handles had become invalid, and has had no other turn until that
      succeeded; and nothing has reached the connection through a handle in between. -/
  before_lease : ∀ c, r.NeverCommits c → ∀ later v before h, r.moves = later ++ v :: before →
    v.issued? = some h → h.physical = c → v.fulfilled? = some (.rollback c) ∧
      ∃ between u earlier, before = between ++ u :: earlier ∧ u.asked? = some (.rollback c) ∧
        u.caller = v.caller ∧ (∀ x ∈ between, x.caller ≠ v.caller) ∧
        ∀ g ∈ before.filterMap Move.issued?, g.physical = c →
          ¬ g.isValid u.after.generations ∧ ∀ x ∈ between, g.Refused x.before
  /-- When such a connection is being closed that has been leased, the pool has begun to roll it
      back, and it has not been leased since. -/
  before_close : ∀ c, r.NeverCommits c → ∀ later v before, r.moves = later ++ v :: before →
    v.asked? = some (.close c) → (∃ h ∈ before.filterMap Move.issued?, h.physical = c) →
      ∃ between u earlier, before = between ++ u :: earlier ∧ u.asked? = some (.rollback c) ∧
        ∀ x ∈ v :: between ++ [u], ∀ e ∈ x.after.books.active, e.physical ≠ c
  /-- A connection that commits on its own is not rolled back. -/
  committing : ∀ c, r.AlwaysCommits c → ∀ v ∈ r.moves, v.asked? ≠ some (.rollback c)

end Run

/-- If the factory never gives the same connection twice, every run undoes uncommitted work before
    it hands out or closes a connection. -/
theorem Pool.undoes_work (id : PoolId) (source : DataSource) (policy : Policy)
    (events : List Event)
    (distinct : (((opened id source policy).run events).opened.map Prod.snd).Nodup) :
    ((opened id source policy).run events).UndoesWork := by
  have h := (opened id source policy).of_run events
  generalize (opened id source policy).run events = r at h distinct
  refine ⟨?_, ?_, ?_⟩
  · rintro c never later v before x split issued rfl
    obtain ⟨r₀, h₀, ht, hv, rfl, moves⟩ := h.exists_upto split
    have never : ∀ m, v.moment? = some m → m.isAutoCommit x.physical = false :=
      never v (split ▸ List.mem_append_right _ List.mem_cons_self)
    have distinct := (Run.Distinct.upto distinct moves).of_move
    rw [hv] at issued never ⊢
    exact h₀.rolledBack_of_issued ht distinct issued never
  · rintro c never later v before split asked ⟨x, hx, same⟩
    obtain ⟨r₀, h₀, ht, hv, rfl, moves⟩ := h.exists_upto split
    have never : (r₀.move v.event v.turn).NeverCommits c :=
      fun u hu => never u (moves ▸ List.mem_append_right _ hu)
    rw [hv] at asked ⊢
    exact h₀.rolledBack_of_closing ht (Run.Distinct.upto distinct moves) asked never hx same
  · intro c always v hv asked
    obtain ⟨later, before, split⟩ := List.append_of_mem hv
    obtain ⟨r₀, h₀, ht, hv, rfl, moves⟩ := h.exists_upto split
    obtain ⟨σ, hσ, request⟩ := h₀.exists_asked ht (hv ▸ asked) (.inl rfl)
    exact (h₀.move ht).not_rolling (fun u hu => always u (moves ▸ List.mem_append_right _ hu)) hσ
      request

/-- Uncommitted work is undone in a run in which the only connection is reclaimed from one caller
    and handed out to another. -/
theorem Pool.undoes_work_reclaimed :
    (((opened 0 {} .single).run (Event.firstLease ++ Event.beginReclaim 1 ++
      [.resume 1 (.answered (.ok ())) (.plain 20 false),
        .resume 1 (.answered (.ok ())) (.plain 20 false)])).opened.map Prod.snd).Nodup ∧
    ((opened 0 {} .single).run (Event.firstLease ++ Event.beginReclaim 1 ++
      [.resume 1 (.answered (.ok ())) (.plain 20 false),
        .resume 1 (.answered (.ok ())) (.plain 20 false)])).UndoesWork :=
  ⟨by decide, undoes_work 0 {} .single _ (by decide)⟩

end LeasePool
