import LeasePool.Proofs.Places

/-!
# Callers that sleep

A caller falls asleep only when no connection is to be had: none is idle, and no more may be
checked out. Whoever takes a lease out of the books for good, or empties the books, rouses all
sleepers at the end. An acquisition that claims an overdue lease takes it out of the books as
well, but it rouses nobody: if it then ends without a connection, there is room for one more
lease, and those that sleep are not told (`LostPlace`).

* `Run.Tracked.move`: what a turn does to the sleepers and to the room there is for them;
* `Pool.room_iff_lostPlace`: while somebody sleeps and the lock is free, no connection is idle, and
  there is room for one more lease exactly if a place has been lost;
* `Pool.stranded_sleeper`: a run in which that happens.
-/

namespace LeasePool

/-- A place has been lost in the given moves, the latest first: an acquisition that had claimed a
    lease has ended, and since then no connection has been handed out, and somebody has been
    asleep all the time. -/
inductive LostPlace : List Move → Prop
  | lost {v : Move} {moves : List Move} (ended : v.turn.outcome.isSome)
      (claimed : ∃ u ∈ v :: moves, u.caller = v.caller ∧ u.Claims)
      (unfilled : v.issued? = none) (asleep : v.after.sleepers ≠ []) : LostPlace (v :: moves)
  | still {v : Move} {moves : List Move} (before : LostPlace moves)
      (unfilled : v.issued? = none) (asleep : v.after.sleepers ≠ []) : LostPlace (v :: moves)

namespace Run

/-- Whether a call has claimed a lease in a run. -/
def Claimed (r : Run) (i : CallId) : Prop := ∃ u ∈ r.moves, u.caller = i ∧ u.Claims

/-- What is known of the sleepers and of the room there is for them, between two turns. -/
structure Tracked (r : Run) : Prop where
  callers : ∀ u ∈ r.moves, u.caller < r.pool.nextCall
  /-- A call that has claimed a lease leaves room for it until it ends. -/
  claimants : ∀ i, r.Claimed i → i ∈ r.pool.calls →
    ∃ w, r.pool.holder = some (i, w) ∧ w.purpose = .acquire ∧ r.pool.books.idle = [] ∧
      r.pool.books.active.length < r.pool.books.policy.maxActive.toNat
  /-- While somebody sleeps, there is no room but that of a claimed lease. -/
  asleep : r.pool.sleepers ≠ [] → r.pool.Returning ∨
    r.pool.books.idle = [] ∧
      r.pool.books.policy.maxActive.toNat ≤ r.pool.books.active.length + 1 ∧
      (r.pool.books.active.length < r.pool.books.policy.maxActive.toNat →
        LostPlace r.moves ∨ ∃ i w, r.pool.holder = some (i, w) ∧ r.Claimed i)
  /-- A place that has been lost is there. -/
  lost : LostPlace r.moves → r.pool.Returning ∨
    r.pool.books.active.length < r.pool.books.policy.maxActive.toNat

variable {r : Run} {e : Event} {t : Turn} {i : CallId}

theorem claimed_move : (r.move e t).Claimed i ↔
    Move.caller ⟨r.pool, e, t⟩ = i ∧ Move.Claims ⟨r.pool, e, t⟩ ∨ r.Claimed i := by
  simp [Claimed]

namespace Tracked

theorem start (p : Pool) (none_asleep : p.sleepers = []) : Tracked (.start p) where
  callers _ hu := absurd hu List.not_mem_nil
  claimants _ hi := by
    obtain ⟨u, hu, -⟩ := hi
    exact absurd hu List.not_mem_nil
  asleep h := absurd none_asleep h
  lost h := by cases h

theorem lt_nextCall (h : r.Tracked) (hi : r.Claimed i) : i < r.pool.nextCall := by
  obtain ⟨u, hu, rfl, -⟩ := hi
  exact h.callers u hu

/-- The numbers of the callers of a run have been given. -/
theorem callers_move (h : r.Tracked) (once : r.pool.CallsOnce) (follows : r.pool.Follows t.pool)
    (caller : Move.caller ⟨r.pool, e, t⟩ = r.pool.nextCall ∧
        t.pool.nextCall = r.pool.nextCall + 1 ∨
      Move.caller ⟨r.pool, e, t⟩ ∈ r.pool.calls) :
    ∀ u ∈ (r.move e t).moves, u.caller < t.pool.nextCall := by
  intro u hu
  have le := follows.nextCall_le
  rcases List.mem_cons.1 hu with rfl | hu
  · rcases caller with ⟨new, next⟩ | mem
    · rw [new, next]
      exact Nat.lt_succ_self _
    · exact Nat.lt_of_lt_of_le (once.numbered _ mem) le
  · exact Nat.lt_of_lt_of_le (h.callers u hu) le

/-- The turn of a call that does not hold the lock. -/
theorem aside (h : r.Tracked) (once : r.pool.CallsOnce) (follows : r.pool.Follows t.pool)
    (hv : Move.Aside ⟨r.pool, e, t⟩) : (r.move e t).Tracked := by
  have books : t.pool.books = r.pool.books := hv.books
  have kept : ∀ {q}, r.pool.holder = some q → t.pool.holder = some q := fun {q} hq =>
    (hv.holder (hq ▸ Option.some_ne_none q)).trans hq
  have returning : r.pool.Returning → t.pool.Returning := fun ⟨i, w, holds, hw⟩ =>
    ⟨i, w, kept holds, hw⟩
  have claimed : ∀ {i}, (r.move e t).Claimed i → r.Claimed i := fun hi =>
    (claimed_move.1 hi).resolve_left fun now => by
      have grown : r.pool.books.counters.overdue < t.pool.books.counters.overdue := now.2
      rw [books] at grown
      exact Nat.lt_irrefl _ grown
  -- A call that does not hold the lock and is not over has not claimed a lease.
  have not_claimed : ¬ r.Claimed (Move.caller ⟨r.pool, e, t⟩) := fun hc => by
    rcases hv.caller with ⟨new, -⟩ | ⟨mem, elsewhere⟩
    · exact Nat.ne_of_lt (h.lt_nextCall hc) new
    · obtain ⟨w, holds, -⟩ := h.claimants _ hc mem
      exact elsewhere w holds
  refine ⟨h.callers_move once follows (hv.caller.imp_right And.left), ?_, ?_, ?_⟩
  · intro i hi mem
    have hi := claimed hi
    obtain ⟨w, holds, acquires, room⟩ :=
      h.claimants i hi (follows.mem_calls mem (h.lt_nextCall hi))
    rw [pool_move, books]
    exact ⟨w, kept holds, acquires, room⟩
  · -- Who sleeps now has slept before, and nothing has changed but the history.
    intro asleep
    have before : r.pool.sleepers ≠ [] := fun none =>
      asleep (List.subset_nil.1 (none ▸ hv.sleepers))
    rw [pool_move, books]
    refine (h.asleep before).imp returning fun ⟨idle, tight, why⟩ => ⟨idle, tight, fun room => ?_⟩
    refine (why room).imp (fun lost => .still lost hv.issued asleep) ?_
    rintro ⟨i, w, holds, hi⟩
    exact ⟨i, w, kept holds, claimed_move.2 (.inr hi)⟩
  · intro lost
    rw [pool_move, books]
    cases lost with
    | lost ended hc unfilled asleep => exact absurd (claimed hc) not_claimed
    | still lost unfilled asleep => exact (h.lost lost).imp_left returning

section Acquires

variable {w : Work} {ds : List Deed} {x : Ending} {c : Custody}

/-- An acquisition that holds the lock is not on its way to rouse the sleepers. -/
theorem not_returning_of_acquires (hv : Move.ByHolder ⟨r.pool, e, t⟩ w ds x c)
    (acquires : w.purpose = .acquire) : ¬ r.pool.Returning := by
  rintro ⟨i, w', holds, other, -⟩
  rw [(hv.eq_caller holds).2] at other
  exact other acquires

/-- A call in progress that has claimed a lease, by the end of the turn, is the one whose turn it
    is. -/
theorem eq_caller_of_claimed (h : r.Tracked) (hv : Move.ByHolder ⟨r.pool, e, t⟩ w ds x c)
    (claimed : (r.move e t).Claimed i) (mem : i ∈ r.pool.calls) :
    i = Move.caller ⟨r.pool, e, t⟩ := by
  rcases claimed_move.1 claimed with now | before
  · exact now.1.symm
  · obtain ⟨w', holds, -⟩ := h.claimants i before mem
    exact (hv.eq_caller holds).1

/-- Room that an acquisition has made, now or before, is there until it hands out a connection. -/
theorem room_of_claimed (h : r.Tracked) (within : r.pool.custody.Within)
    (hv : Move.ByHolder ⟨r.pool, e, t⟩ w ds x c) (acquires : w.purpose = .acquire)
    (claimed : (r.move e t).Claimed (Move.caller ⟨r.pool, e, t⟩))
    (unfilled : Move.issued? ⟨r.pool, e, t⟩ = none) : t.pool.books.idle = [] ∧
      t.pool.books.active.length < t.pool.books.policy.maxActive.toNat := by
  have draws := hv.draws acquires within
  rw [show t.pool.books.policy = r.pool.books.policy from draws.policy]
  rcases claimed_move.1 claimed with now | before
  · exact draws.claimed unfilled now.2
  · obtain ⟨-, -, -, idle, lt⟩ := h.claimants _ before hv.mem_calls
    exact ⟨draws.idle idle, Nat.lt_of_le_of_lt (draws.active_le unfilled) lt⟩

/-- After the turn of an acquisition before which somebody slept, none is idle, and there is no
    room but what the acquisition has made itself, or what was lost before. -/
theorem crowded (h : r.Tracked) (within : r.pool.custody.Within)
    (hv : Move.ByHolder ⟨r.pool, e, t⟩ w ds x c) (acquires : w.purpose = .acquire)
    (asleep : r.pool.sleepers ≠ []) : t.pool.books.idle = [] ∧
      t.pool.books.policy.maxActive.toNat ≤ t.pool.books.active.length + 1 ∧
      (t.pool.books.active.length < t.pool.books.policy.maxActive.toNat →
        Move.issued? ⟨r.pool, e, t⟩ = none ∧
        (LostPlace r.moves ∨ (r.move e t).Claimed (Move.caller ⟨r.pool, e, t⟩))) := by
  have draws := hv.draws acquires within
  obtain ⟨idle, tight, why⟩ :=
    (h.asleep asleep).resolve_left (not_returning_of_acquires hv acquires)
  rw [show t.pool.books.policy = r.pool.books.policy from draws.policy]
  refine ⟨draws.idle idle, draws.tight tight, fun lt => ?_⟩
  -- Whatever room there was, a connection that is handed out has filled it.
  have unfilled : Move.issued? ⟨r.pool, e, t⟩ = none := by
    by_contra filled
    exact absurd lt (Nat.not_lt.2 (draws.filled filled tight))
  refine ⟨unfilled, ?_⟩
  by_cases now : Move.Claims ⟨r.pool, e, t⟩
  · exact .inr (claimed_move.2 (.inl ⟨rfl, now⟩))
  · have before : r.pool.books.active.length < r.pool.books.policy.maxActive.toNat :=
      draws.same unfilled now ▸ lt
    refine (why before).imp_right ?_
    rintro ⟨i, w', holds, hi⟩
    exact claimed_move.2 (.inr ((hv.eq_caller holds).1 ▸ hi))

/-- The turn of an acquisition that holds the lock. -/
theorem draws (h : r.Tracked) (once : r.pool.CallsOnce) (follows : r.pool.Follows t.pool)
    (within : r.pool.custody.Within) (hv : Move.ByHolder ⟨r.pool, e, t⟩ w ds x c)
    (acquires : w.purpose = .acquire) : (r.move e t).Tracked := by
  have books : t.pool.books = c.books := hv.books
  obtain ⟨m, fits⟩ := hv.fits
  refine ⟨h.callers_move once follows (.inr hv.mem_calls), ?_, ?_, ?_⟩
  · -- It is still in progress, so it goes on with its work, or there is nothing to claim.
    intro i hi mem
    obtain rfl := h.eq_caller_of_claimed hv hi (hv.calls_subset mem)
    have room := h.room_of_claimed within hv acquires hi
    cases x with
    | work w' =>
      exact ⟨w', hv.holder_of_work, fits.2.trans acquires, room (hv.issued?_of_outcome? rfl)⟩
    | finished o => exact absurd mem (hv.not_mem_calls once.once rfl)
    | freed o => exact absurd mem (hv.not_mem_calls once.once rfl)
    | asleep a since limit =>
      -- It would not have fallen asleep next to the room that it has made.
      have full := Books.canOpen_eq_false.1 fits.2.2.2.1
      have lt := (room (hv.issued?_of_outcome? rfl)).2
      rw [books] at lt
      exact absurd lt (Nat.not_lt.2 full)
  · intro asleep
    have before (same : t.pool.sleepers = r.pool.sleepers) :=
      h.crowded within hv acquires (same ▸ asleep)
    cases x with
    | work w' =>
      obtain ⟨idle, tight, why⟩ := before hv.sleepers_of_work
      refine .inr ⟨idle, tight, fun lt => ?_⟩
      obtain ⟨unfilled, lost | claimed⟩ := why lt
      · exact .inl (.still lost unfilled asleep)
      · exact .inr ⟨_, w', hv.holder_of_work, claimed⟩
    | finished o =>
      -- Here a place is lost: it ends with the room that it has made, and rouses nobody.
      obtain ⟨idle, tight, why⟩ := before hv.sleepers_of_finished
      refine .inr ⟨idle, tight, fun lt => .inl ?_⟩
      obtain ⟨unfilled, lost | claimed⟩ := why lt
      · exact .still lost unfilled asleep
      · exact .lost (by rw [hv.outcome]; rfl) claimed unfilled asleep
    | freed o => exact absurd hv.sleepers_of_freed asleep
    | asleep a since limit =>
      -- It has just found that there is no connection to be had.
      have none_idle := Books.takeIdle?_eq_none.1 fits.2.2.1
      have full := Books.canOpen_eq_false.1 fits.2.2.2.1
      rw [pool_move, books]
      exact .inr ⟨none_idle, Nat.le_succ_of_le full, fun lt => absurd lt (Nat.not_lt.2 full)⟩
  · intro lost
    cases lost with
    | lost ended hc unfilled asleep =>
      exact .inr (h.room_of_claimed within hv acquires hc unfilled).2
    | still lost unfilled asleep =>
      have draws := hv.draws acquires within
      have lt := (h.lost lost).resolve_left (not_returning_of_acquires hv acquires)
      rw [pool_move, show t.pool.books.policy = r.pool.books.policy from draws.policy]
      exact .inr (Nat.lt_of_le_of_lt (draws.active_le unfilled) lt)

end Acquires

/-- The turn of another call that holds the lock. -/
theorem other (h : r.Tracked) (once : r.pool.CallsOnce) (follows : r.pool.Follows t.pool)
    {hs : List Handle} {os : List (ConnectionId × Physical)}
    (sound : Custody.Sound hs os r.pool.custody) {w : Work} {ds : List Deed} {x : Ending}
    {c : Custody} (hv : Move.ByHolder ⟨r.pool, e, t⟩ w ds x c) (other : w.purpose ≠ .acquire) :
    (r.move e t).Tracked := by
  have claimed : ∀ {i}, (r.move e t).Claimed i → r.Claimed i := fun hi =>
    (claimed_move.1 hi).resolve_left fun now => hv.not_claims_of_other other now.2
  -- Who has claimed a lease and holds the lock acquires.
  have not_claimed : ¬ r.Claimed (Move.caller ⟨r.pool, e, t⟩) := fun hc => by
    obtain ⟨w', holds, acquires, -⟩ := h.claimants _ hc hv.mem_calls
    rw [(hv.eq_caller holds).2] at acquires
    exact other acquires
  have elsewhere : ∀ {i}, r.Claimed i → i ∉ r.pool.calls := fun {i} hi mem => by
    obtain ⟨w', holds, -⟩ := h.claimants i hi mem
    rw [(hv.eq_caller holds).1] at hi
    exact not_claimed hi
  have not_returning : r.pool.hand = .empty → ¬ r.pool.Returning := by
    rintro empty ⟨i, w', holds, -, hand⟩
    rw [Pool.hand, holds] at empty
    exact hand empty
  have issued := hv.issued?_of_other other
  refine ⟨h.callers_move once follows (.inr hv.mem_calls), ?_, ?_, ?_⟩
  · intro i hi mem
    exact absurd (hv.calls_subset mem) (elsewhere (claimed hi))
  · intro asleep
    rcases hv.untouched_or_returning other sound asleep with ⟨empty, same, sleepers⟩ | returning
    · have books : t.pool.books = c.books := hv.books
      have asleep' : r.pool.sleepers ≠ [] := fun none => asleep (sleepers.trans none)
      rw [pool_move, books, same.maxActive, same.idle, same.active]
      obtain ⟨idle, tight, why⟩ := (h.asleep asleep').resolve_left (not_returning empty)
      refine .inr ⟨idle, tight, fun room => .inl ?_⟩
      rcases why room with lost | ⟨i, w', holds, hi⟩
      · exact .still lost issued asleep
      · exact absurd (Pool.mem_calls_of_holder holds) (elsewhere hi)
    · exact .inl returning
  · intro lost
    cases lost with
    | lost ended hc unfilled asleep => exact absurd (claimed hc) not_claimed
    | still lost unfilled asleep =>
      rcases hv.untouched_or_returning other sound asleep with ⟨empty, same, -⟩ | returning
      · have books : t.pool.books = c.books := hv.books
        rw [pool_move, books, same.maxActive, same.active]
        exact .inr ((h.lost lost).resolve_left (not_returning empty))
      · exact .inl returning

/-- Every turn but that of a call that is dropped. -/
theorem move {id : PoolId} {source : DataSource} {policy : Policy} {ds : List Deed}
    (h : r.Tracked) (done : DoneBy (.opened id source policy) r ds) (once : r.pool.CallsOnce)
    (ht : r.pool.respond e = some t) (kept : e.isDrop = false) : (r.move e t).Tracked := by
  have responds := Pool.responds_of_respond ht
  have follows := Pool.follows_of_responds responds
  rcases Move.aside_or_byHolder responds kept with aside | ⟨w, ds, x, c, hv⟩
  · exact h.aside once follows aside
  · by_cases acquires : w.purpose = .acquire
    · exact h.draws once follows done.within hv acquires
    · exact h.other once follows done.sound hv acquires

end Tracked

/-- If no call is dropped in a run, the sleepers and the room there is for them are tracked. -/
theorem tracked (id : PoolId) (source : DataSource) (policy : Policy) (events : List Event)
    (kept : ∀ v ∈ ((Pool.opened id source policy).run events).moves, v.event.isDrop = false) :
    ((Pool.opened id source policy).run events).Tracked := by
  refine (follow_induction
    (I := fun r => (∃ ds, DoneBy (.opened id source policy) r ds) ∧ r.pool.CallsOnce ∧
      ((∀ v ∈ r.moves, v.event.isDrop = false) → r.Tracked))
    ⟨⟨[], .nil, rfl, rfl, fun h => absurd h List.not_mem_nil⟩,
      Pool.callsOnce_opened id source policy, fun _ => .start _ rfl⟩ ?_ events).2.2 kept
  intro r e t ⟨⟨ds, done⟩, once, tracked⟩ ht
  refine ⟨done.move ht, once.respond ht, fun kept => ?_⟩
  rw [moves_move, List.forall_mem_cons] at kept
  exact (tracked kept.2).move done once ht kept.1

end Run

/-- If no call is dropped in a run, then, when the lock is free while somebody sleeps, no
    connection is idle, and there is room for one more lease exactly if a place has been lost. -/
theorem Pool.room_iff_lostPlace (id : PoolId) (source : DataSource) (policy : Policy)
    (events : List Event)
    (kept : ∀ v ∈ ((opened id source policy).run events).moves, v.event.isDrop = false)
    (free : ((opened id source policy).run events).pool.holder = none)
    (asleep : ((opened id source policy).run events).pool.sleepers ≠ []) :
    let r := (opened id source policy).run events
    r.pool.books.idle = [] ∧
      (r.pool.books.active.length < r.pool.books.policy.maxActive.toNat ↔ LostPlace r.moves) := by
  intro r
  have tracked : r.Tracked := Run.tracked id source policy events kept
  -- The lock is free, so nobody is going to rouse the sleepers or to fill a place.
  have not_returning : ¬ r.pool.Returning := by
    rintro ⟨i, w, holds, -⟩
    rw [free] at holds
    cases holds
  obtain ⟨idle, -, why⟩ := (tracked.asleep asleep).resolve_left not_returning
  refine ⟨idle, fun room => (why room).resolve_right ?_, fun lost =>
    (tracked.lost lost).resolve_left not_returning⟩
  rintro ⟨i, w, holds, -⟩
  rw [free] at holds
  cases holds

/-- The second caller sleeps without a limit, and the third reclaims the only connection, finds
    it closed and gives up. -/
def Event.stranding : List Event :=
  Event.firstLease ++
    [.start (.acquire .dataSource none) (.plain 0 false), .resume 1 .proceed (.plain 0 false)] ++
    Event.beginReclaim 2 ++ [.resume 2 (.answered (.ok ())) (.plain 20 true)]

/-- When the third caller has given up, there is room, because it has lost a place. -/
theorem Pool.room_stranding :
    let r := (opened 0 {} .single).run Event.stranding
    r.pool.books.idle = [] ∧
      (r.pool.books.active.length < r.pool.books.policy.maxActive.toNat ↔ LostPlace r.moves) :=
  room_iff_lostPlace 0 {} .single Event.stranding (by decide) rfl
    (List.ne_nil_of_length_pos (by decide))

/-- Nobody has been dropped, the lock is free and nobody is runnable, and yet the second caller
    sleeps on, although a connection may be opened. -/
theorem Pool.stranded_sleeper :
    let p := ((opened 0 {} .single).run Event.stranding).pool
    (∀ v ∈ ((opened 0 {} .single).run Event.stranding).moves, v.event.isDrop = false) ∧
      p.holder = none ∧ p.queue = [] ∧ p.roused = [] ∧ p.errands = [] ∧
      p.sleepers.map Sleeper.id = [1] ∧
      ¬ p.books.policy.maxActive.toNat ≤ p.books.active.length := by
  refine ⟨by decide, rfl, rfl, rfl, rfl, rfl, by decide⟩

end LeasePool
