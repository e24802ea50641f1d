import LeasePool.Proofs.Validity

/-!
# Closing for good

A pool closes a connection when its test fails, when it is rejected, when it is returned and not
kept, in a reset, and when the acquisition whose candidate it is has been dropped. Each time it is
neither leased nor idle by then, and its handles have become invalid. It comes to no other stage
than one at which it is closed (`Run.Gone`), so it is never handed out again; and when it has been
closed, it is at no stage at all (`Run.Absent`), so it is not closed again.

* `Run.Of.gone`: what is closed has gone for good;
* `Run.Of.absent`: what has been closed is nowhere any more;
* `Pool.closes_for_good`: closing is final in every run.
-/

namespace LeasePool

open scoped List

/-! ## Stages at which a connection is closed -/

namespace Stage

/-- Whether a connection at a stage is closed, or is to be closed without being rolled back. -/
def ends : Stage → Bool
  | testing (.closing _) | discarding | closing | resetClosing | orphaned _ => true
  | _ => false

variable {m : Moment} {c : Physical} {σ σ' : Stage}

theorem lent_of_ends (h : σ.ends = true) : σ.lent = false := by
  unfold ends at h
  split at h <;> first | rfl | cases h

theorem rests_of_ends (h : σ.ends = true) : σ.rests = false := by
  unfold ends at h
  split at h <;> first | rfl | cases h

theorem ends_of_close (h : σ.request? c = some (.close c)) : σ.ends = true := by
  unfold request? at h
  split at h <;> first | rfl | cases h

/-- What is being closed does not come to another stage than one at which it is closed. -/
theorem Next.ends (h : Next m c σ σ') (hσ : σ.ends = true) : σ'.ends = true := by
  -- Steps from a stage of use do not concern what is being closed, and the others lead to a close.
  cases h with
  | offer free offer => rcases free with rfl | rfl | rfl <;> cases hσ
  | keep undone => rcases undone with rfl | ⟨rfl, -⟩ <;> cases hσ
  | failed is_open => rfl
  | @passed phase σ' unsettled ready =>
    cases phase with
    | closing cause => exact absurd rfl (unsettled cause)
    | _ => cases hσ
  | giveUp undone => rfl
  | resetClose rests commits => rfl
  | drain rests =>
    rw [rests_of_ends hσ] at rests
    cases rests
  | resetUndo rests uncommitted =>
    rw [rests_of_ends hσ] at rests
    cases rests
  | failing unsettled => rfl
  | unprepared is_open => rfl
  | resetUndone => rfl
  | _ => cases hσ

/-- A connection that has been asked to close is at a further stage only if it is still open. -/
theorem Next.is_open (h : Next m c σ σ') (asked : σ.request? c = some (.close c)) :
    m.isClosed c = false := by
  -- After its request to close, only a test whose close has been answered goes on, and it looks
  -- whether the connection is closed.
  cases h with
  | failed is_open => exact is_open
  | offer free offer => rcases free with rfl | rfl | rfl <;> cases asked
  | keep undone => rcases undone with rfl | ⟨rfl, -⟩ <;> cases asked
  | giveUp undone => rcases undone with rfl | ⟨rfl, -⟩ <;> cases asked
  | @passed phase σ' unsettled ready =>
    cases phase with
    | closing cause => exact absurd rfl (unsettled cause)
    | _ => cases asked
  | @failing phase cause unsettled =>
    cases phase with
    | closing cause => exact absurd rfl (unsettled cause)
    | _ => cases asked
  | drain rests | resetUndo rests _ | resetClose rests _ =>
    rw [rests_of_ends (ends_of_close asked)] at rests
    cases rests
  | _ => cases asked

end Stage

/-- Whether a connection is closed indeed when a call learns that it has been closed. -/
def Move.closesIndeed (v : Move) : Bool :=
  match v.fulfilled?, v.moment? with
  | some (.close c), some m => m.isClosed c
  | _, _ => true

theorem Move.isClosed_of_closesIndeed {v : Move} {c : Physical} (h : v.closesIndeed = true)
    (fulfilled : v.fulfilled? = some (.close c)) {m : Moment} (moment : v.moment? = some m) :
    m.isClosed c = true := by
  simpa only [closesIndeed, fulfilled, moment] using h

theorem Move.Carries.ends {v : Move} {c : Physical} {σ σ' : Stage} (h : v.Carries c σ σ')
    (hσ : σ.ends = true) : σ'.ends = true := by
  cases h with
  | stay => exact hσ
  | go moment next asked => exact next.ends hσ
  | orphan => rfl
  | begin => rfl

namespace Run

variable {id : PoolId} {source : DataSource} {policy : Policy} {r : Run} {e : Event} {t : Turn}
  {i : CallId} {c : Physical} {σ : Stage}

/-! ## What is closed has gone for good -/

/-- A connection that is closed, or has been: it has no valid handle, and is at no other stage
    than one at which it is closed, if it is at any. -/
structure Gone (r : Run) (c : Physical) : Prop where
  known : c ∈ r.opened.map Prod.snd
  spent : r.Spent c
  ends : ∀ σ, (c, σ) ∈ r.pool.places → σ.ends = true

/-- A connection that has been opened and is nowhere any more. -/
structure Absent (r : Run) (c : Physical) : Prop where
  known : c ∈ r.opened.map Prod.snd
  nowhere : ∀ σ, (c, σ) ∉ r.pool.places

theorem known_move (known : c ∈ r.opened.map Prod.snd) :
    c ∈ (r.move e t).opened.map Prod.snd := by
  rw [opened_move, List.map_append]
  exact List.mem_append_right _ known

theorem Gone.unleased (gone : r.Gone c) : (c, .leased) ∉ r.pool.places := fun leased => by
  cases gone.ends _ leased

/-- A connection that has gone is not in the books. -/
theorem Gone.not_mem_books (gone : r.Gone c) :
    ∀ x ∈ r.pool.books.idle ++ r.pool.books.active, x.physical ≠ c := by
  rintro x hx rfl
  rcases List.mem_append.1 hx with idle | active
  · cases gone.ends .idle (List.mem_append_left _ (List.mem_append_right _
      (List.mem_append_right _ (List.mem_map.2 ⟨x, idle, rfl⟩))))
  · exact gone.unleased (List.mem_append_left _ (List.mem_append_right _
      (List.mem_append_left _ (List.mem_map.2 ⟨x, active, rfl⟩))))

namespace Of

theorem gone_move (h : Of (.opened id source policy) r) (ht : r.pool.respond e = some t)
    (distinct : (r.move e t).Distinct) (gone : r.Gone c) : (r.move e t).Gone c := by
  have ends : ∀ σ, (c, σ) ∈ t.pool.places → σ.ends = true := fun σ hσ => by
    obtain ⟨σ₀, hσ₀, carries⟩ := h.exists_stage ht distinct gone.known hσ
    exact carries.ends (gone.ends σ₀ hσ₀)
  have unleased : (c, .leased) ∉ t.pool.places := fun leased => Bool.noConfusion (ends _ leased)
  exact ⟨known_move gone.known, h.spent_move ht gone.spent unleased, ends⟩

/-- A connection that is closed has gone. -/
theorem gone_of_asked (h : Of (.opened id source policy) r) (ht : r.pool.respond e = some t)
    (distinct : (r.move e t).Distinct) (asked : Move.asked? ⟨r.pool, e, t⟩ = some (.close c)) :
    (r.move e t).Gone c := by
  obtain ⟨σ, hσ, request⟩ := h.exists_asked ht asked (.inr rfl)
  have ends := Stage.ends_of_close request
  have after := h.move ht
  exact ⟨after.mem_opened hσ, after.spent distinct hσ (Stage.lent_of_ends ends),
    fun σ' hσ' => after.stage_unique distinct hσ hσ' ▸ ends⟩

/-- What is closed has gone for good. -/
theorem gone (h : Of (.opened id source policy) r) (distinct : r.Distinct)
    {later before : List Move} {v : Move} (split : r.moves = later ++ v :: before)
    (asked : v.asked? = some (.close c)) : r.Gone c := by
  refine h.since (I := fun r => r.Distinct → r.Gone c) split ?_ ?_ distinct
  · intro r₀ h₀ ht hv _ distinct
    exact h₀.gone_of_asked ht distinct (hv ▸ asked)
  · intro r₀ e t h₀ ht gone distinct
    exact h₀.gone_move ht distinct (gone distinct.of_move)

theorem absent_move (h : Of (.opened id source policy) r) (ht : r.pool.respond e = some t)
    (distinct : (r.move e t).Distinct) (absent : r.Absent c) : (r.move e t).Absent c :=
  ⟨known_move absent.known, fun σ hσ => by
    obtain ⟨σ₀, hσ₀, -⟩ := h.exists_stage ht distinct absent.known hσ
    exact absent.nowhere σ₀ hσ₀⟩

/-- When the holder of the lock has closed a connection, it is nowhere any more. -/
theorem absent_of_closed (h : Of (.opened id source policy) r) {s : Signal} {m : Moment}
    (ht : r.pool.respond (.resume i s m) = some t)
    (distinct : (r.move (.resume i s m) t).Distinct) {w : Work}
    (holds : r.pool.holder = some (i, w)) (hm : (c, σ) ∈ w.places)
    (asked : σ.request? c = some (.close c)) (closed : m.isClosed c = true) :
    (r.move (.resume i s m) t).Absent c := by
  obtain ⟨x, goes⟩ := (Pool.responds_of_respond ht).continues holds
  have nodup := h.places_nodup distinct.of_move
  have places := Pool.places_of_holder holds
  have there : (c, σ) ∈ w.places ++ r.pool.books.places := List.mem_append_left _ hm
  have known : c ∈ r.opened.map Prod.snd :=
    h.mem_opened (places ▸ List.mem_append_left _ there)
  refine ⟨known_move known, fun σ' hσ' => ?_⟩
  change (c, σ') ∈ (Move.after ⟨r.pool, .resume i s m, t⟩).places at hσ'
  rw [goes.places_eq] at hσ'
  rcases List.mem_append.1 hσ' with ended | orphaned
  · -- It would have gone on from the stage at which it was closed.
    obtain ⟨σ₀, hσ₀, next⟩ := (goes.sequel.carried (h.apt holds)).exists_of_mem ended
    rw [← goes.arrived_eq, List.append_assoc] at hσ₀
    have old : (c, σ₀) ∈ r.pool.places := by
      rcases List.mem_append.1 hσ₀ with new | old
      · exact (distinct.not_arrived known new).elim
      · exact places ▸ List.mem_append_left _ old
    obtain rfl := h.stage_unique distinct.of_move old (places ▸ List.mem_append_left _ there)
    obtain ⟨rests, -⟩ | next := next
    · rw [Stage.rests_of_ends (Stage.ends_of_close asked)] at rests
      cases rests
    · rw [next.is_open asked] at closed
      cases closed
  · -- It would have been left to an errand at the same time.
    rw [places, List.map_append, List.nodup_append] at nodup
    exact nodup.2.2 c (List.mem_map_of_mem there) c (List.mem_map_of_mem orphaned) rfl

/-- When an errand has closed a connection, it is nowhere any more. -/
theorem absent_of_errand (h : Of (.opened id source policy) r) {m : Moment}
    (ht : r.pool.respond (.resume i (.answered (.ok ())) m) = some t)
    (distinct : (r.move (.resume i (.answered (.ok ())) m) t).Distinct)
    (found : r.pool.errands.lookup i = some (.discard c true)) :
    (r.move (.resume i (.answered (.ok ())) m) t).Absent c := by
  have nodup := h.places_nodup distinct.of_move
  have orphans := Pool.orphans_of_lookup found
  have there : (c, .orphaned true) ∈ r.pool.places := List.mem_append_right _
    (orphans.subset (List.mem_append_left _ (List.mem_singleton_self _)))
  have known : c ∈ r.opened.map Prod.snd := h.mem_opened there
  refine ⟨known_move known, fun σ' hσ' => ?_⟩
  cases Pool.responds_of_respond ht with
  | goOn holds h' => exact h.callsOnce.elsewhere found _ holds
  | errand elsewhere found' h' =>
    obtain rfl := Option.some.inj (found.symm.trans found')
    cases h'
    -- The errand that closed it was its only place.
    have gone : (c, .orphaned true) :: (r.pool.worked ++ r.pool.books.places ++
        (r.pool.errands.filter fun q => q.1 != i).flatMap fun q => q.2.places) <+~
          r.pool.places :=
      List.perm_middle.symm.subperm.trans ((List.Subperm.refl _).append orphans)
    change (c, σ') ∈ r.pool.worked ++ r.pool.books.places ++
      (r.pool.errands.filter fun q => q.1 != i).flatMap fun q => q.2.places at hσ'
    obtain ⟨k, perm, sub⟩ := gone
    have once := ((perm.map Prod.fst).nodup_iff.1 (nodup.sublist (sub.map _)))
    exact (List.nodup_cons.1 once).1 (List.mem_map.2 ⟨(c, σ'), hσ', rfl⟩)

/-- When a connection has been closed, it is nowhere any more, if it is closed indeed. -/
theorem absent_of_fulfilled (h : Of (.opened id source policy) r)
    (ht : r.pool.respond e = some t) (distinct : (r.move e t).Distinct)
    (fulfilled : Move.fulfilled? ⟨r.pool, e, t⟩ = some (.close c))
    (indeed : Move.closesIndeed ⟨r.pool, e, t⟩ = true) : (r.move e t).Absent c := by
  have closed {m : Moment} := Move.isClosed_of_closesIndeed indeed fulfilled (m := m)
  unfold Move.fulfilled? at fulfilled
  split at fulfilled
  · next i m he =>
    obtain rfl : e = .resume i (.answered (.ok ())) m := he
    obtain ⟨w, holds, request⟩ | ⟨x, found, request⟩ := Pool.asking?_eq_some fulfilled
    · obtain ⟨σ, hσ, asked⟩ := Work.exists_place (h.apt holds) request (.inr rfl)
      exact h.absent_of_closed ht distinct holds hσ asked (closed rfl)
    · cases x with
      | ofHandle q =>
        -- No caller closes a connection through its handle.
        cases request
        obtain ⟨before, later, errands, -⟩ := List.lookup_eq_some_iff.1 found
        exact absurd rfl (h.modest (i, .ofHandle (.close c)) (by rw [errands]; simp) c)
      | discard c' begun =>
        cases begun with
        | true =>
          cases request
          exact h.absent_of_errand ht distinct found
        | false => cases request
  · cases fulfilled

/-- What has been closed is nowhere any more, if whatever has been closed is closed indeed. -/
theorem absent (h : Of (.opened id source policy) r) (distinct : r.Distinct)
    (indeed : ∀ v ∈ r.moves, v.closesIndeed = true)
    {later before : List Move} {v : Move} (split : r.moves = later ++ v :: before)
    (fulfilled : v.fulfilled? = some (.close c)) : r.Absent c := by
  have closed : v.closesIndeed = true := indeed v (split ▸ List.mem_append_right _ List.mem_cons_self)
  refine h.since (I := fun r => r.Distinct → r.Absent c) split ?_ ?_ distinct
  · intro r₀ h₀ ht hv _ distinct
    exact h₀.absent_of_fulfilled ht distinct (hv ▸ fulfilled) (hv ▸ closed)
  · intro r₀ e t h₀ ht absent distinct
    exact h₀.absent_move ht distinct (absent distinct.of_move)

/-- A connection that is nowhere any more has not been asked to close in the last turn. -/
theorem not_asked_of_absent (h : Of (.opened id source policy) r)
    (ht : r.pool.respond e = some t) (absent : (r.move e t).Absent c) :
    Move.asked? ⟨r.pool, e, t⟩ ≠ some (.close c) := by
  intro asked
  obtain ⟨σ, hσ, -⟩ := h.exists_asked ht asked (.inr rfl)
  exact absent.nowhere σ hσ

end Of

/-! ## Closing is final -/

/-- What the pool closes, it closes for good. -/
structure ClosesForGood (r : Run) : Prop where
  /-- When a connection is being closed, and later, no handle of it is valid. -/
  invalid : ∀ later v before c, r.moves = later ++ v :: before → v.asked? = some (.close c) →
    ∀ u ∈ later ++ [v], ∀ h ∈ r.issued, h.physical = c → ¬ h.isValid u.after.generations
  /-- Then it is neither idle nor leased. -/
  left : ∀ later v before c, r.moves = later ++ v :: before → v.asked? = some (.close c) →
    ∀ u ∈ later ++ [v], ∀ e ∈ u.after.books.idle ++ u.after.books.active, e.physical ≠ c
  /-- It is not handed out again. -/
  never_issued : ∀ later v before c, r.moves = later ++ v :: before →
    v.asked? = some (.close c) → ∀ u ∈ later ++ [v], ∀ h, u.issued? = some h → h.physical ≠ c
  /-- When it has been closed, it is not closed again. -/
  once : ∀ later v before c, r.moves = later ++ v :: before → v.fulfilled? = some (.close c) →
    ∀ u ∈ later ++ [v], u.asked? ≠ some (.close c)

end Run

/-- If the factory never gives the same connection twice, and a connection is closed indeed when
    the pool has closed it, then every run closes connections for good. -/
theorem Pool.closes_for_good (id : PoolId) (source : DataSource) (policy : Policy)
    (events : List Event)
    (distinct : (((opened id source policy).run events).opened.map Prod.snd).Nodup)
    (indeed : ∀ v ∈ ((opened id source policy).run events).moves, v.closesIndeed = true) :
    ((opened id source policy).run events).ClosesForGood := by
  have h := (opened id source policy).of_run events
  generalize (opened id source policy).run events = r at h distinct indeed
  -- No handle is given out from the turn that asks for the close on, so all its handles are old
  -- ones, which are spent.
  have never_issued : ∀ later v before c, r.moves = later ++ v :: before →
      v.asked? = some (.close c) → ∀ u ∈ later ++ [v], ∀ x, u.issued? = some x →
        x.physical ≠ c := by
    rintro later v before c split asked u hu x issued rfl
    obtain ⟨r₀, after, between, h₀, ht, hu, moves, split', -⟩ := h.upto split hu
    have gone := (h₀.move ht).gone (Run.Distinct.upto distinct moves) split' asked
    exact gone.unleased (Run.Of.leased_of_issued ht (hu ▸ issued))
  refine ⟨?_, ?_, never_issued, ?_⟩
  · intro later v before c split asked u hu x hx same
    obtain ⟨r₀, after, between, h₀, ht, -, moves, split', sub⟩ := h.upto split hu
    have gone := (h₀.move ht).gone (Run.Distinct.upto distinct moves) split' asked
    rw [Run.issued, moves, List.filterMap_append, List.mem_append] at hx
    rcases hx with new | old
    · obtain ⟨w, hw, issued⟩ := List.mem_filterMap.1 new
      exact absurd same
        (never_issued later v before c split asked w (List.mem_append_left _ (sub w hw)) x issued)
    · exact gone.spent x old same
  · intro later v before c split asked u hu
    obtain ⟨r₀, after, between, h₀, ht, -, moves, split', -⟩ := h.upto split hu
    exact ((h₀.move ht).gone (Run.Distinct.upto distinct moves) split' asked).not_mem_books
  · intro later v before c split fulfilled u hu asked
    obtain ⟨r₀, after, between, h₀, ht, hu, moves, split', -⟩ := h.upto split hu
    have absent := (h₀.move ht).absent (Run.Distinct.upto distinct moves)
      (fun w hw => indeed w (moves ▸ List.mem_append_right _ hw)) split' fulfilled
    exact h₀.not_asked_of_absent ht absent (hu ▸ asked)

/-- Connections are closed for good in a run in which a reset rolls back and closes the only
    connection, whose lease is still valid before. -/
theorem Pool.closes_for_good_reset :
    (((opened 0 {} .single).run (Event.firstLease ++ Event.beginReset 1 ++
      [.resume 1 (.answered (.ok ())) (.plain 20 false),
        .resume 1 (.answered (.ok ())) (.plain 20 true)])).opened.map Prod.snd).Nodup ∧
    (∀ v ∈ ((opened 0 {} .single).run (Event.firstLease ++ Event.beginReset 1 ++
      [.resume 1 (.answered (.ok ())) (.plain 20 false),
        .resume 1 (.answered (.ok ())) (.plain 20 true)])).moves, v.closesIndeed = true) ∧
    ((opened 0 {} .single).run (Event.firstLease ++ Event.beginReset 1 ++
      [.resume 1 (.answered (.ok ())) (.plain 20 false),
        .resume 1 (.answered (.ok ())) (.plain 20 true)])).ClosesForGood :=
  ⟨by decide, by decide, closes_for_good 0 {} .single _ (by decide) (by decide)⟩

end LeasePool
