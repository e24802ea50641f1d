import LeasePool.Proofs.Closing
import LeasePool.Proofs.Progress
import LeasePool.Proofs.Whereabouts

/-!
# Interrupted returns and resets

A release takes a connection out of the books before it rolls it back, and a reset takes out all of
them before it rolls back and closes one after the other. When such a call is dropped, nobody goes
on with what it has still to do: unlike the candidate of an acquisition, a connection that it has
taken out and not yet closed is left to nobody. It is never closed, and if it has not been given up
before, its handle remains valid for good.

That is all that goes wrong. Whatever else the call has taken out of the books has been closed, and
its handle is invalid, so it does no harm to drop a call that waits for the lock, a release that
closes its connection, or a reset that closes its last one.

* `Run.Of.owes`: what a release or a reset has taken out, it closes or has still to close;
* `Pool.interrupted_iff`: what becomes of it when the call is dropped.
-/

namespace LeasePool

/-- The connections that a release or a reset has taken out of the books and has not begun to
    close. -/
def Work.owed : Work → List Entry
  | .undo e _ _ => [e]
  | .resetUndo e rest => e :: rest
  | .resetClose _ rest => rest
  | _ => []

/-- In a turn of a call, a connection is taken out of the books. -/
def Move.Takes (v : Move) (i : CallId) (x : Entry) : Prop :=
  v.caller = i ∧ x ∈ v.before.books.entries ∧ x ∉ v.after.books.entries

/-- A call has taken a connection out of the books. -/
def Taken (i : CallId) (moves : List Move) (x : Entry) : Prop := ∃ u ∈ moves, u.Takes i x

namespace Work

variable {w : Work} {x : Entry}

theorem login?_of_purpose (other : w.purpose ≠ .acquire) : w.login? = none := by
  cases w with
  | begin intent => cases intent <;> first | rfl | exact absurd rfl other
  | undo | close | resetUndo | resetClose => rfl
  | _ => exact absurd rfl other

/-- A connection that is owed is at a stage at which it is not closed, and its call does not leave
    it to anybody. -/
theorem exists_place_of_owed (hx : x ∈ w.owed) :
    w.guarded? = none ∧ ∃ σ, (x.physical, σ) ∈ w.places ∧ σ.ends = false ∧
      (x ∉ w.hand.lent → σ.lent = false) := by
  have pending {rest : List Entry} (hx : x ∈ rest) :
      (x.physical, Stage.pending) ∈ rest.map fun e => (e.physical, Stage.pending) :=
    List.mem_map_of_mem hx
  -- A release owes the entry that it rolls back, and a reset those that it has not asked to close.
  cases w with
  | undo e keep returnedAt =>
    obtain rfl := List.mem_singleton.1 hx
    exact ⟨rfl, .undoing, List.mem_singleton_self _, rfl, fun h => absurd hx h⟩
  | resetUndo e rest =>
    rcases List.mem_cons.1 hx with rfl | later
    · exact ⟨rfl, .resetUndoing, List.mem_cons_self, rfl, fun _ => rfl⟩
    · exact ⟨rfl, .pending, List.mem_cons_of_mem _ (pending later), rfl, fun h => absurd later h⟩
  | resetClose e rest =>
    exact ⟨rfl, .pending, List.mem_cons_of_mem _ (pending hx), rfl, fun h => absurd hx h⟩
  | _ => cases hx

theorem owed_of_lent (hx : x ∈ w.hand.lent) (other : w.login? = none) : x ∈ w.owed := by
  cases w with
  | undo e keep returnedAt => exact hx
  | resetUndo e rest => exact List.mem_cons_of_mem _ hx
  | resetClose e rest => exact hx
  | reclaim a e lookedAt => cases other
  | _ => cases hx

end Work

namespace Pool

variable {p : Pool} {m : Moment} {w w₀ : Work} {s : Signal} {b : Books} {e : Event} {t : Turn}
  {i : CallId} {x : Entry}

/-- What a release or a reset has taken out of the books, or has still to close, it has still to
    close after its turn, or it begins to close it. -/
theorem Sequel.owes (h : p.Sequel m w₀ s b (.work w)) (other : w.login? = none)
    (source : DataSource) (hx : x ∈ w₀.owed ∨ x ∈ p.books.entries ∧ x ∉ b.entries) :
    x ∈ w.owed ∨ w.request? source = some (.close x.physical) := by
  have none_login : w₀.login? = none := (h.remains.login rfl).symm.trans other
  have cleared {rest : List Entry} (h : Reset.Clears m rest (.work w)) (hx : x ∈ rest) :
      x ∈ w.owed ∨ w.request? source = some (.close x.physical) := by
    cases h with
    | undo uncommitted => exact .inl hx
    | close commits =>
      rcases List.mem_cons.1 hx with rfl | later
      · exact .inr rfl
      · exact .inl later
  cases h with
  | @takeBack h e b' b x' found current returned =>
    obtain hx | ⟨there, gone⟩ := hx
    · cases hx
    -- Nothing but the lease of the handle has left the books.
    obtain ⟨before, later, ha, -, -, rfl⟩ := Books.removeActive?_eq_some found
    have same : b.active = before ++ later → b.idle = p.books.idle → x = e := by
      intro active idle
      simp only [Books.entries, ha, active, idle, List.mem_append, List.mem_cons, not_or] at there gone
      tauto
    cases returned with
    | undo is_open uncommitted =>
      obtain rfl := same rfl rfl
      exact .inl (List.mem_singleton_self _)
    | commit is_open commits undone =>
      cases undone with
      | giveUp left =>
        obtain rfl := same rfl rfl
        exact .inr rfl
  | @reset r b' x' accepted clears =>
    obtain hx | ⟨there, -⟩ := hx
    · cases hx
    obtain ⟨idle, active, -⟩ := Reset.apply_eq_ok accepted
    refine cleared clears ?_
    rwa [Books.entries, idle, active]
  | undone undone =>
    cases undone with
    | fail cause =>
      obtain hx | ⟨there, gone⟩ := hx
      · obtain rfl := List.mem_singleton.1 hx
        exact .inr rfl
      · exact absurd there gone
    | giveUp left =>
      obtain hx | ⟨there, gone⟩ := hx
      · obtain rfl := List.mem_singleton.1 hx
        exact .inr rfl
      · exact absurd there gone
  | resetUndone =>
    obtain hx | ⟨there, gone⟩ := hx
    · rcases List.mem_cons.1 hx with rfl | later
      · exact .inr rfl
      · exact .inl later
    · exact absurd there gone
  | resetClosed clears =>
    obtain hx | ⟨there, gone⟩ := hx
    · exact cleared clears hx
    · exact absurd there gone
  | _ => cases none_login

theorem custody_dropWork (unguarded : w.guarded? = none) :
    (p.turn.dropWork w).pool.custody = p.custodyWith .empty := by
  cases w with
  | begin intent => cases intent <;> exact custody_unlock _
  | reclaim | examine | prepare => cases unguarded
  | _ => exact custody_unlock _

/-- Only the holder of the lock takes connections out of the books. -/
theorem Responds.takes (h : p.Responds e t) (takes : Move.Takes ⟨p, e, t⟩ i x) :
    ∃ m w s y, Move.Continues ⟨p, e, t⟩ m w s y := by
  obtain same | goes := h.books
  · have gone : x ∉ t.pool.books.entries := takes.2.2
    exact absurd takes.2.1 (same ▸ gone)
  · exact goes

end Pool

namespace Run

variable {id : PoolId} {source : DataSource} {policy : Policy} {r : Run} {e : Event} {t : Turn}
  {i : CallId} {w : Work} {x : Entry} {c : Physical}

namespace Of

/-- What a call that is not an acquisition has taken out of the books, it has still to close, or
    it has begun to close it. -/
theorem owes (h : Of (.opened id source policy) r) (doing : r.pool.Doing i w)
    (other : w.login? = none) (taken : Taken i r.moves x) :
    x ∈ w.owed ∨ ∃ u ∈ r.moves, u.asked? = some (.close x.physical) := by
  induction h generalizing w with
  | start =>
    obtain ⟨u, hu, -⟩ := taken
    cases hu
  | @move r e t h ht ih =>
    have earlier {w : Work} (before : x ∈ w.owed ∨ ∃ u ∈ r.moves, u.asked? = some (.close x.physical)) :
        x ∈ w.owed ∨ ∃ u ∈ (r.move e t).moves, u.asked? = some (.close x.physical) :=
      before.imp_right fun ⟨u, hu, asked⟩ => ⟨u, List.mem_cons_of_mem _ hu, asked⟩
    obtain ⟨u, hu, takes⟩ := taken
    cases Pool.comes_of_respond ht h.callsOnce doing with
    | stays before others =>
      rcases List.mem_cons.1 hu with rfl | hu
      · obtain ⟨m, w', s, y, goes⟩ := (Pool.responds_of_respond ht).takes takes
        exact absurd takes.1 (others m w' s y goes)
      · exact earlier (ih before other ⟨u, hu, takes⟩)
    | @goesOn m w₀ w s goes caller =>
      have next (hx : x ∈ w₀.owed ∨ x ∈ r.pool.books.entries ∧ x ∉ t.pool.books.entries) :
          x ∈ w.owed ∨ ∃ u ∈ (r.move e t).moves, u.asked? = some (.close x.physical) :=
        (goes.sequel.owes other _ hx).imp_right fun asked =>
          ⟨_, List.mem_cons_self, goes.asked?_work.trans asked⟩
      rcases List.mem_cons.1 hu with rfl | hu
      · exact next (.inr takes.2)
      · subst caller
        have other₀ : w₀.login? = none := (goes.sequel.remains.login rfl).symm.trans other
        obtain owed | asked := ih (.holds goes.holds) other₀ ⟨u, hu, takes⟩
        · exact next (.inl owed)
        · exact earlier (.inr asked)
    | starts event new intends =>
      -- A call that has just begun has not had any other turn.
      rcases List.mem_cons.1 hu with rfl | hu
      · obtain ⟨m, w', s, y, goes⟩ := (Pool.responds_of_respond ht).takes takes
        cases event.symm.trans goes.event
      · exact absurd (h.caller_lt hu) (by rw [takes.1, new]; exact Nat.lt_irrefl _)
    | wakes asleep caller => cases other

/-- When a call is dropped that leaves its connections to nobody, they are nowhere any more. -/
theorem absent_of_dropped (h : Of (.opened id source policy) r) (distinct : r.Distinct)
    (holds : r.pool.holder = some (i, w)) (unguarded : w.guarded? = none) {σ : Stage}
    (hm : (c, σ) ∈ w.places) : (r.move (.drop i) (r.pool.turn.dropWork w)).Absent c := by
  refine ⟨known_move (h.mem_opened (Pool.mem_places_of_holder holds hm)), fun σ' hσ' => ?_⟩
  have left : (r.pool.turn.dropWork w).pool.places = r.pool.books.places ++ r.pool.orphans := by
    rw [Pool.places_dropWork, Work.orphan?, unguarded]
    exact List.append_nil _
  have nodup := h.places_nodup distinct
  rw [pool_move, left] at hσ'
  rw [Pool.places_of_holder holds, List.append_assoc, List.map_append, List.nodup_append] at nodup
  exact nodup.2.2 c (List.mem_map_of_mem hm) c (List.mem_map_of_mem hσ') rfl

/-- What is true after the call that holds the lock has been dropped, and is kept by every later
    move, is true at the end. -/
theorem since_dropped {I : Run → Prop} (h : Of (.opened id source policy) r)
    {later before : List Move} {v : Move} (split : r.moves = later ++ v :: before)
    (dropped : v.event = .drop i) (holds : v.before.holder = some (i, w))
    (start : ∀ r₀, Of (.opened id source policy) r₀ → r₀.pool.holder = some (i, w) →
      I (r₀.move (.drop i) (r₀.pool.turn.dropWork w)))
    (step : ∀ r₀ e t, Of (.opened id source policy) r₀ → r₀.pool.respond e = some t → I r₀ →
      I (r₀.move e t)) : I r := by
  refine h.since split (fun r₀ h₀ ht hv _ => ?_) step
  have holds : r₀.pool.holder = some (i, w) := by
    rw [hv] at holds
    exact holds
  rw [dropped, Pool.respond_drop holds] at ht
  rw [dropped, ← Option.some.inj ht]
  exact start r₀ h₀ holds

/-- What a dropped call owed is lost: since then, the connection has been nowhere. -/
theorem since_owed {I : Run → Prop} (h : Of (.opened id source policy) r) (distinct : r.Distinct)
    {later before : List Move} {v : Move} (split : r.moves = later ++ v :: before)
    (dropped : v.event = .drop i) (holds : v.before.holder = some (i, w)) (hx : x ∈ w.owed)
    (start : ∀ r₀, Of (.opened id source policy) r₀ → r₀.Distinct →
      r₀.pool.holder = some (i, w) → I (r₀.move (.drop i) (r₀.pool.turn.dropWork w)))
    (step : ∀ r₀ e t, Of (.opened id source policy) r₀ → r₀.pool.respond e = some t →
      (r₀.move e t).Absent x.physical → I r₀ → I (r₀.move e t)) : I r := by
  obtain ⟨unguarded, σ, hσ, -⟩ := Work.exists_place_of_owed hx
  -- Being nowhere is carried along, so that each later step may use it.
  refine (h.since_dropped (I := fun r => r.Distinct → r.Absent x.physical ∧ I r) split dropped
    holds ?_ ?_ distinct).2
  · intro r₀ h₀ holds distinct
    exact ⟨h₀.absent_of_dropped distinct.of_move holds unguarded hσ,
      start r₀ h₀ distinct.of_move holds⟩
  · intro r₀ e t h₀ ht lost distinct
    obtain ⟨absent, kept⟩ := lost distinct.of_move
    have absent' := h₀.absent_move ht distinct absent
    exact ⟨absent', step r₀ e t h₀ ht absent' kept⟩

/-- A connection that a call had still to close when it was dropped is never closed. -/
theorem not_asked_of_owed (h : Of (.opened id source policy) r) (distinct : r.Distinct)
    {later before : List Move} {v : Move} (split : r.moves = later ++ v :: before)
    (dropped : v.event = .drop i) (holds : v.before.holder = some (i, w)) (hx : x ∈ w.owed) :
    ∀ u ∈ r.moves, u.asked? ≠ some (.close x.physical) := by
  obtain ⟨-, σ, hσ, unclosed, -⟩ := Work.exists_place_of_owed hx
  refine h.since_owed (I := fun r => ∀ u ∈ r.moves, u.asked? ≠ some (.close x.physical)) distinct
    split dropped holds hx ?_ ?_
  · intro r₀ h₀ distinct holds
    rw [moves_move, List.forall_mem_cons]
    refine ⟨(fun asked => by cases asked), fun u hu asked => ?_⟩
    -- Otherwise it would have been at another stage.
    obtain ⟨later, before, split⟩ := List.append_of_mem hu
    have ends := (h₀.gone distinct split asked).ends σ (Pool.mem_places_of_holder holds hσ)
    rw [unclosed] at ends
    cases ends
  · intro r₀ e t h₀ ht absent unclosed
    rw [moves_move, List.forall_mem_cons]
    exact ⟨h₀.not_asked_of_absent ht absent, unclosed⟩

/-- If it had been given up, its handles remain invalid. -/
theorem spent_of_owed (h : Of (.opened id source policy) r) (distinct : r.Distinct)
    {later before : List Move} {v : Move} (split : r.moves = later ++ v :: before)
    (dropped : v.event = .drop i) (holds : v.before.holder = some (i, w)) (hx : x ∈ w.owed)
    (given_up : x ∉ w.hand.lent) : r.Spent x.physical := by
  obtain ⟨unguarded, σ, hσ, -, unlent⟩ := Work.exists_place_of_owed hx
  refine h.since_owed (I := fun r => r.Spent x.physical) distinct split dropped holds hx ?_ ?_
  · intro r₀ h₀ distinct holds
    have spent := h₀.spent distinct (Pool.mem_places_of_holder holds hσ) (unlent given_up)
    have absent := h₀.absent_of_dropped distinct holds unguarded hσ
    exact h₀.spent_move (Pool.respond_drop holds) spent (absent.nowhere _)
  · intro r₀ e t h₀ ht absent spent
    exact h₀.spent_move ht spent (absent.nowhere _)

/-- Otherwise it remains in its generation. -/
theorem current_of_lent (h : Of (.opened id source policy) r)
    {later before : List Move} {v : Move} (split : r.moves = later ++ v :: before)
    (dropped : v.event = .drop i) (holds : v.before.holder = some (i, w))
    (unguarded : w.guarded? = none) (hx : x ∈ w.hand.lent) :
    r.pool.generations.current x.id = x.generation := by
  -- Only a deed on an entry begins a generation, and there is no entry any more.
  refine (h.since_dropped (I := fun r => r.pool.custody.Without x.id ∧
    r.pool.custody.generations.current x.id = x.generation) split dropped holds ?_ ?_).2
  · intro r₀ h₀ holds
    have sound := h₀.sound
    have held : x ∈ r₀.pool.custody.hand.held := by
      rw [Pool.hand_of_holder holds]
      exact List.mem_append_left _ hx
    rw [pool_move, Pool.custody_dropWork unguarded]
    exact ⟨sound.without_of_held held,
      Entry.isCurrent_iff.1 (sound.current x (List.mem_append_right _ held))⟩
  · intro r₀ e t h₀ ht lost
    obtain ⟨without, same⟩ := Pool.without_of_respond ht lost.1
    exact ⟨without, same.trans lost.2⟩

end Of

/-- A call that is not an acquisition has been dropped at some work, after the moves `before`. -/
def Interrupted (r : Run) (i : CallId) (w : Work) (before : List Move) : Prop :=
  ∃ later v, r.moves = later ++ v :: before ∧ v.event = .drop i ∧ v.before.Doing i w ∧
    w.purpose ≠ .acquire

end Run

/-- If the factory never gives the same connection twice: of the connections that an interrupted
    release or reset has taken out of the books, all are closed but those that it has not begun to
    close, and the handles of those remain valid that it has not given up. -/
theorem Pool.interrupted_iff (id : PoolId) (source : DataSource) (policy : Policy)
    (events : List Event)
    (distinct : (((opened id source policy).run events).opened.map Prod.snd).Nodup)
    {i : CallId} {w : Work} {before : List Move} {x : Entry}
    (interrupted : ((opened id source policy).run events).Interrupted i w before)
    (taken : Taken i before x) :
    let r := (opened id source policy).run events
    ((∃ u ∈ r.moves, u.asked? = some (.close x.physical)) ↔ x ∉ w.owed) ∧
      ∀ y ∈ r.issued, y.toEntry = x → (y.isValid r.pool.generations ↔ x ∈ w.hand.lent) := by
  intro r
  have h : Run.Of _ r := (opened id source policy).of_run events
  obtain ⟨later, v, split, dropped, doing, other⟩ := interrupted
  have none_login := Work.login?_of_purpose other
  have closed (unowed : x ∉ w.owed) : ∃ u ∈ r.moves, u.asked? = some (.close x.physical) := by
    obtain ⟨r₀, h₀, -, hv, rfl, -⟩ := h.exists_upto split
    rw [hv] at doing
    obtain owed | ⟨u, hu, asked⟩ := h₀.owes doing none_login taken
    · exact absurd owed unowed
    · have hu : u ∈ r.moves := split ▸ List.mem_append_right _ (List.mem_cons_of_mem _ hu)
      exact ⟨u, hu, asked⟩
  -- A call that is queued for the lock owes nothing.
  have holds (owed : x ∈ w.owed) : v.before.holder = some (i, w) := by
    cases doing with
    | holds holds => exact holds
    | queued queued => cases owed
  refine ⟨⟨fun ⟨u, hu, asked⟩ owed => ?_, closed⟩, fun y hy same => ⟨fun valid => ?_, fun lent => ?_⟩⟩
  · exact h.not_asked_of_owed distinct split dropped (holds owed) owed u hu asked
  · by_contra given_up
    have spent : r.Spent x.physical := by
      by_cases owed : x ∈ w.owed
      · exact h.spent_of_owed distinct split dropped (holds owed) owed given_up
      · obtain ⟨u, hu, asked⟩ := closed owed
        obtain ⟨later, before, split⟩ := List.append_of_mem hu
        exact (h.gone distinct split asked).spent
    exact spent y hy (congrArg Entry.physical same) valid
  · have owed := Work.owed_of_lent lent none_login
    have current := h.current_of_lent split dropped (holds owed)
      (Work.exists_place_of_owed owed).1 lent
    rw [Handle.isValid_iff, show y.id = x.id from congrArg Entry.id same, current]
    exact (congrArg Entry.generation same).symm

/-! ## A release that loses its connection -/

/-- The handle of the first lease. -/
def Handle.first : Handle where
  id := 1
  generation := 0
  physical := ⟨0⟩
  createdAt := ⟨0⟩
  lastUsedAt := ⟨0⟩
  checkoutAt := ⟨0⟩
  signature := ({} : DataSource).signature
  pool := 0

/-- The only handle is given back, and the call is dropped while the connection is rolled back. -/
def Event.losing : List Event :=
  Event.firstLease ++
    [.start (.release .first) (.plain 5 false), .resume 1 .proceed (.plain 5 false), .drop 1]

namespace Pool

/-- The call has taken the connection out of the books. -/
theorem interrupted_losing : ∃ w before,
    ((opened 0 {} .single).run Event.losing).Interrupted 1 w before ∧
      Taken 1 before Handle.first.toEntry :=
  ⟨_, _, ⟨[], _, rfl, rfl, .holds rfl, by decide⟩,
    ⟨_, List.mem_cons_self, rfl, List.mem_cons_self, List.not_mem_nil⟩⟩

/-- What has become of the connection says what the call has left to do. -/
theorem interrupted_iff_losing :
    let r := (opened 0 {} .single).run Event.losing
    ∃ w before, (r.opened.map Prod.snd).Nodup ∧ r.Interrupted 1 w before ∧
      Taken 1 before Handle.first.toEntry ∧
      ((∃ u ∈ r.moves, u.asked? = some (.close Handle.first.physical)) ↔
        Handle.first.toEntry ∉ w.owed) ∧
      ∀ y ∈ r.issued, y.toEntry = Handle.first.toEntry →
        (y.isValid r.pool.generations ↔ Handle.first.toEntry ∈ w.hand.lent) := by
  obtain ⟨w, before, interrupted, taken⟩ := interrupted_losing
  have distinct : (((opened 0 {} .single).run Event.losing).opened.map Prod.snd).Nodup := by decide
  exact ⟨w, before, distinct, interrupted, taken,
    interrupted_iff 0 {} .single Event.losing distinct interrupted taken⟩

/-- Nobody has anything left to do, and yet the handle that was given back is still valid, and its
    connection, which the call has taken out of the books, has never been asked to close. -/
theorem lost_release :
    let r := (opened 0 {} .single).run Event.losing
    (∃ w before, r.Interrupted 1 w before ∧ Taken 1 before Handle.first.toEntry) ∧
      r.pool.holder = none ∧ r.pool.queue = [] ∧ r.pool.sleepers = [] ∧ r.pool.roused = [] ∧
      r.pool.errands = [] ∧ Handle.first ∈ r.issued ∧ Handle.first.isValid r.pool.generations ∧
      ∀ u ∈ r.moves, u.asked? ≠ some (.close Handle.first.physical) := by
  intro r
  refine ⟨interrupted_losing, rfl, rfl, rfl, rfl, rfl, List.mem_cons_self, rfl,
    fun u hu asked => ?_⟩
  -- All requests of the run.
  have requests : r.moves.filterMap Move.asked? =
      [.rollback Handle.first.physical, .rollback Handle.first.physical, .connect {}] := rfl
  have asked := requests ▸ List.mem_filterMap.2 ⟨u, hu, asked⟩
  simp at asked

end Pool

end LeasePool
