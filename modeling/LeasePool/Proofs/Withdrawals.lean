import LeasePool.Proofs.Agreement
import LeasePool.Proofs.Holder
import LeasePool.Proofs.Leases
import LeasePool.Proofs.Origins
import LeasePool.Proofs.Whereabouts

/-!
# Why leases are lost

A handle becomes invalid when the generation of its connection is advanced, and that is done only
by the call that holds the lock, to a connection that it has in hand. So the lease must have been
in its hand, and it has come there in this turn or in an earlier one of the same call, in which it
was *withdrawn* from the books (`Move.Withdraws`): by a release of the handle, by a reset, or by an
acquisition that found the lease overdue. Whatever else is done to a pool, the handle remains
valid.

* `Custody.Traced.step`: the lease of a valid handle is in the books or in hand, or it is lost;
* `Run.Of.withdrawn`: how a lease has come into the hand of a call;
* `Pool.keeps_leases`: a lease is only lost for a stated reason.
-/

namespace LeasePool

/-! ## Leases that are taken out of the books -/

namespace Move

/-- In a turn, an acquisition takes the oldest lease away, as it is overdue. A connection that is
    handed out in the same turn is leased anew. -/
def Reclaims (v : Move) (e : Entry) : Prop :=
  ∃ intent m rest, v.begun? = some (intent, m) ∧ intent.purpose = .acquire ∧
    v.before.books.Overdue m.now e rest ∧
    v.after.books.active = rest ++ (v.issued?.map Handle.toEntry).toList

/-- In a turn, the lease of a handle is taken out of the books. -/
inductive Withdraws (v : Move) (x : Handle) : Prop
  /-- A release of the handle to its own pool finds its entry. -/
  | release {y : Handle} {m : Moment} {b : Books} (begun : v.begun? = some (.release y, m))
      (own : y.pool = v.before.id)
      (same : y.pool = x.pool ∧ y.id = x.id ∧ y.generation = x.generation)
      (found : v.before.books.removeActive? y.id y.generation = some (x.toEntry, b))
      (active : v.after.books.active = b.active) : Withdraws v x
  /-- A reset takes out all leases, and this is one of them. -/
  | reset {r : Reset} {m : Moment} {b : Books} (begun : v.begun? = some (.reset r, m))
      (accepted : r.apply v.before.books = .ok b) (leased : x.toEntry ∈ v.before.books.active)
      (active : v.after.books.active = []) : Withdraws v x
  /-- An acquisition takes the lease away. -/
  | reclaim (reclaims : v.Reclaims x.toEntry) : Withdraws v x

theorem Continues.leased_eq {v : Move} {m : Moment} {w : Work} {s : Signal} {x : Ending}
    (h : v.Continues m w s x) : x.leased = (v.issued?.map Handle.toEntry).toList := by
  rw [Ending.leased, issued?, h.outcome]

end Move

namespace Pool

variable {p : Pool} {e : Event} {t : Turn}

/-- An acquisition takes a lease away in the turn in which it begins, if one is overdue. -/
theorem reclaims_of_continues {m : Moment} {intent : Intent} {s : Signal} {x : Ending}
    {y : Entry} {rest : List Entry}
    (h : Move.Continues ⟨p, e, t⟩ m (.begin intent) s x) (acquires : intent.purpose = .acquire)
    (late : p.books.Overdue m.now y rest) (shifts : p.books.Shifts t.pool.books rest 1 x) :
    Move.Reclaims ⟨p, e, t⟩ y :=
  ⟨intent, m, rest, h.begun?_eq, acquires, late, h.leased_eq ▸ shifts.active⟩

/-- Each lease that an acquisition takes away is counted as overdue, and nothing else is. -/
theorem Responds.counts (h : p.Responds e t) :
    (∃ x, Move.Reclaims ⟨p, e, t⟩ x) ∧
        t.pool.books.counters.overdue = p.books.counters.overdue + 1 ∨
      (∀ x, ¬ Move.Reclaims ⟨p, e, t⟩ x) ∧
        t.pool.books.counters.overdue = p.books.counters.overdue := by
  by_cases reclaims : ∃ x, Move.Reclaims ⟨p, e, t⟩ x
  · refine .inl ⟨reclaims, ?_⟩
    obtain ⟨x, intent, m, rest, begun, acquires, late, -⟩ := reclaims
    obtain ⟨y, continues⟩ := h.begins begun
    have draws : p.Draws m (.begin intent) t.pool.books y := continues.sequel.draws
    cases draws with
    | claims _ _ shifts => exact shifts.overdue
    | returns found silent shifts => cases acquires
    | resets accepted idle silent shifts => cases acquires
    | keeps spares misses refuses shifts => exact absurd late (spares intent x rest rfl acquires)
  · refine .inr ⟨not_exists.1 reclaims, ?_⟩
    obtain same | ⟨m, w, s, y, continues⟩ := h.books
    · rw [same]
    · have draws : p.Draws m w t.pool.books y := continues.sequel.draws
      cases draws with
      | claims acquires late shifts =>
        exact absurd ⟨_, reclaims_of_continues continues acquires late shifts⟩ reclaims
      | returns found silent shifts => exact shifts.overdue
      | resets accepted idle silent shifts => exact shifts.overdue
      | keeps spares misses refuses shifts => exact shifts.overdue

end Pool

/-! ## The leases of valid handles -/

namespace Custody

variable {m : Moment} {c c' : Custody} {d : Deed} {hs : List Handle}
  {os : List (ConnectionId × Physical)}

/-- What is sound for some handles is so for each of them. -/
theorem Sound.single (h : Sound hs os c) {x : Handle} (hx : x ∈ hs) : Sound [x] os c :=
  have only {y : Handle} (hy : y ∈ [x]) : y ∈ hs := List.mem_singleton.1 hy ▸ hx
  { h with
    issued_known := fun y hy => h.issued_known y (only hy)
    issued_le := fun y hy => h.issued_le y (only hy)
    issued_once := List.nodup_singleton _
    newer := fun e he y hy => h.newer e he y (only hy) }

/-- Every valid handle has a leased entry, or its connection has been lost. -/
def Traced (hs : List Handle) (c : Custody) : Prop :=
  ∀ x ∈ hs, x.isValid c.generations →
    c.Without x.id ∨ ∃ e ∈ c.leased, e.id = x.id ∧ e.generation = x.generation

/-- Every deed keeps a leased entry for every valid handle, or loses the connection. -/
theorem Traced.step (h : Traced hs c) (sound : Sound hs os c) (hd : Step m c d c') :
    Traced (hs ++ d.issued?.toList) c' := by
  intro x hx valid
  rcases List.mem_append.1 hx with hx | new
  · -- A connection that has been lost stays lost. Any other loses its entry only when its work is
    -- cut off.
    by_cases without : c.Without x.id
    · exact .inl (without.step hd)
    have accounted : Accounted [x] c := fun y hy valid => by
      rw [List.mem_singleton.1 hy] at valid ⊢
      exact (h x hx valid).resolve_left without
    by_cases lose : d = .lose
    · subst lose
      cases hd
      obtain ⟨e, he, same⟩ := accounted x (List.mem_singleton_self x) valid
      rcases List.mem_append.1 he with active | lent
      · exact .inr ⟨e, List.mem_append_left _ active, same⟩
      · exact .inl (same.1 ▸ sound.without_of_held (List.mem_append_left _ lent))
    · exact .inr (accounted.step (sound.single hx) hd lose x
        (List.mem_append_left _ (List.mem_singleton_self x)) valid)
  · -- What is handed out is put into the books.
    cases hd with
    | @lease e a has =>
      obtain rfl := List.mem_singleton.1 new
      exact .inr ⟨e.stamped a c.books.source m.now, by simp [leased], rfl, rfl⟩
    | _ => cases new

end Custody

/-! ## Leases in hand -/

namespace Pool

variable {p : Pool} {m : Moment} {w w₀ : Work} {s : Signal} {b : Books} {x : Entry}

theorem exists_holder_of_lent (hx : x ∈ p.custody.hand.lent) :
    ∃ i w, p.holder = some (i, w) ∧ x ∈ w.hand.lent := by
  cases holds : p.holder with
  | none =>
    rw [hand_of_free holds] at hx
    cases hx
  | some h => exact ⟨h.1, h.2, rfl, hand_of_holder holds ▸ hx⟩

/-- What a call has in hand with a handle that may be valid, it had in hand before, or it has taken
    it out of the books. -/
theorem Sequel.lent (h : p.Sequel m w₀ s b (.work w)) (hx : x ∈ w.hand.lent) :
    x ∈ w₀.hand.lent ∨ x ∈ p.books.entries := by
  -- Most of the work has nothing in hand of which a handle may be valid.
  have cleared {rest : List Entry} (h : Reset.Clears m rest (.work w)) : x ∈ rest := by
    cases h <;> exact List.mem_cons_of_mem _ hx
  have retried {a : Acquisition} {b : Books} (h : a.Retries b (.work w)) : False := by
    cases h; cases hx
  have refused {a : Acquisition} {e : Entry} {b b' : Books} (h : a.Refuses m e b b' (.work w)) :
      False := by
    cases h with
    | gone closed retries => exact retried retries
    | discard is_open => cases hx
  have accepted {a : Acquisition} {e : Entry} {b b' : Books} (h : a.Accepts m e b b' (.work w)) :
      False := by
    cases h; cases hx
  have examined {a : Acquisition} {e : Entry} {b b' : Books} {g : Generations}
      (h : a.Examines m e b g b' (.work w)) : False := by
    cases h with
    | test query => cases hx
    | accept accepts => exact accepted accepts
    | refuse bad refuses => exact refused refuses
  have looked {a : Acquisition} {b₀ : Books} {g : Generations}
      (h : a.Looks m b₀ g b (.work w)) : x ∈ b₀.entries := by
    cases h with
    | take found examines => exact (examined examines).elim
    | connect none_idle room => cases hx
    | reclaim none_idle full overdue uncommitted =>
      obtain ⟨rest, counters, active, -, -⟩ := Books.claimOverdue?_eq_some overdue
      rw [List.mem_singleton.1 hx, Books.entries, active]
      exact List.mem_append_left _ List.mem_cons_self
    | claim none_idle full overdue commits examines => exact (examined examines).elim
  cases h with
  | look looks => exact .inr (looked looks)
  | awaken looks =>
    have there := looked looks
    exact .inr there
  | takeBack found current returned =>
    obtain ⟨before, later, active, -⟩ := Books.removeActive?_eq_some found
    cases returned with
    | undo is_open uncommitted =>
      refine .inr (List.mem_append_left _ ?_)
      rw [List.mem_singleton.1 hx, active]
      exact List.mem_append_right _ List.mem_cons_self
    | commit is_open commits undone => cases undone; cases hx
  | @reset r b' _ accepted clears =>
    obtain ⟨idle, active, -⟩ := Reset.apply_eq_ok accepted
    have there := cleared clears
    rw [Books.entries, idle, active] at there
    exact .inr there
  | opened examines => exact (examined examines).elim
  | reclaimed examines => exact (examined examines).elim
  | passed phase accepts => exact (accepted accepts).elim
  | failed phase refuses => exact (refused refuses).elim
  | unprepared refuses => exact (refused refuses).elim
  | discarded retries => exact (retried retries).elim
  | undone undone => cases undone <;> cases hx
  | resetUndone => exact .inl hx
  | resetClosed clears => exact .inl (cleared clears)
  | _ => cases hx

end Pool

/-! ## Runs -/

namespace Run

variable {id : PoolId} {source : DataSource} {policy : Policy} {r : Run} {e : Event} {t : Turn}
  {x : Handle} {y : Entry} {i : CallId} {w : Work}

namespace Of

/-- The lease of a valid handle is in the books or in hand, or it is lost. -/
theorem traced (h : Of (.opened id source policy) r) :
    Custody.Traced r.issued.reverse r.pool.custody := by
  obtain ⟨ds, hr⟩ := h.exists_doneBy
  have both := hr.path.keeps
    (I := fun ds c => Custody.Sound (ds.filterMap Deed.issued?) (ds.filterMap Deed.opened?) c ∧
      Custody.Traced (ds.filterMap Deed.issued?) c)
    (fun {m ds c d c'} hi hd => ?_)
    ⟨Pool.sound_opened id source policy, fun _ hx => absurd hx List.not_mem_nil⟩
  · rw [← hr.issued]
    exact both.2
  · rw [List.filterMap_append, List.filterMap_append, Deed.filterMap_singleton,
      Deed.filterMap_singleton]
    exact ⟨hi.1.step hd, hi.2.step hi.1 hd⟩

/-- A handle is told apart by its connection and its generation. -/
theorem issued_unique (h : Of (.opened id source policy) r) {x x' : Handle} (hx : x ∈ r.issued)
    (hx' : x' ∈ r.issued) (hid : x.id = x'.id) (generation : x.generation = x'.generation) :
    x = x' := by
  have once : (r.issued.map fun h => (h.id, h.generation)).Nodup := by
    simpa only [List.map_reverse, List.nodup_reverse] using h.sound.issued_once
  exact List.inj_on_of_nodup_map once hx hx' (Prod.ext hid generation)

/-- What is leased has been handed out. -/
theorem exists_issued (h : Of (.opened id source policy) r) (hy : y ∈ r.pool.books.active) :
    ∃ x ∈ r.issued, x.toEntry = y := by
  obtain ⟨v, hv, x, -, issued, same, -⟩ := h.signature_of_active hy
  exact ⟨x, List.mem_filterMap.2 ⟨v, hv, issued⟩, same⟩

/-- In a turn, the lease of a handle remains in the books, unless it is withdrawn. -/
theorem remains_or_withdraws (h : Of (.opened id source policy) r)
    (ht : r.pool.respond e = some t) (hx : x ∈ r.issued)
    (leased : x.toEntry ∈ r.pool.books.active) :
    x.toEntry ∈ t.pool.books.active ∨ Move.Withdraws ⟨r.pool, e, t⟩ x := by
  obtain same | ⟨m, w, s, y, continues⟩ := (Pool.responds_of_respond ht).books
  · exact .inl (same ▸ leased)
  have draws : r.pool.Draws m w t.pool.books y := continues.sequel.draws
  cases draws with
  | claims acquires late shifts =>
    have reclaims := Pool.reclaims_of_continues continues acquires late shifts
    rw [late.front] at leased
    rcases List.mem_cons.1 leased with same | rest
    · exact .inr (.reclaim (same ▸ reclaims))
    · exact .inl (shifts.active ▸ List.mem_append_left _ rest)
  | @returns y' _ b' _ e' found silent shifts =>
    have active : t.pool.books.active = b'.active := by
      rw [shifts.active, silent, List.append_nil]
    obtain ⟨before, later, all, hid, generation, rest⟩ := Books.removeActive?_eq_some found
    by_cases same : e' = x.toEntry
    · subst same
      have own : y'.pool = id := h.own (.holds continues.holds)
      refine .inr (.release continues.begun?_eq ?_ ⟨?_, hid.symm, generation.symm⟩ found active)
      · exact own.trans h.pool_eq.1.symm
      · exact own.trans (h.pool_eq.2 x hx).symm
    · refine .inl ?_
      rw [all] at leased
      rw [active, rest]
      simpa [same, eq_comm] using leased
  | resets accepted idle silent shifts =>
    have active : t.pool.books.active = [] := by rw [shifts.active, silent]; rfl
    exact .inr (.reset continues.begun?_eq accepted leased active)
  | keeps spares misses refuses shifts =>
    exact .inl (shifts.active ▸ List.mem_append_left _ leased)

/-- What a call has in hand with a handle that may be valid, it has withdrawn in an earlier turn of
    its own, unless no handle of that generation has been handed out. -/
theorem withdrawn (h : Of (.opened id source policy) r) (holds : r.pool.holder = some (i, w))
    (hy : y ∈ w.hand.lent) :
    (∃ u ∈ r.moves, u.caller = i ∧ ∃ x ∈ r.issued, x.toEntry = y ∧ u.Withdraws x) ∨
      ∀ x ∈ r.issued, x.id = y.id → x.generation < y.generation := by
  induction h generalizing w with
  | start => cases holds
  | @move r e t h ht ih =>
    -- In none of the turns in question is anything handed out.
    have earlier (silent : Move.issued? ⟨r.pool, e, t⟩ = none)
        (before : (∃ u ∈ r.moves, u.caller = i ∧ ∃ x ∈ r.issued, x.toEntry = y ∧ u.Withdraws x) ∨
          ∀ x ∈ r.issued, x.id = y.id → x.generation < y.generation) :
        (∃ u ∈ (r.move e t).moves, u.caller = i ∧
            ∃ x ∈ (r.move e t).issued, x.toEntry = y ∧ u.Withdraws x) ∨
          ∀ x ∈ (r.move e t).issued, x.id = y.id → x.generation < y.generation := by
      rw [issued_move, silent]
      exact before.imp_left fun ⟨u, hu, rest⟩ => ⟨u, List.mem_cons_of_mem _ hu, rest⟩
    have responds := Pool.responds_of_respond ht
    have busy : ∀ intent, w ≠ .begin intent := by
      rintro intent rfl
      cases hy
    obtain ⟨m, w₀, s, goes, caller⟩ | ⟨held, other, -⟩ := responds.holder h.callsOnce holds busy
    · have silent : Move.issued? ⟨r.pool, e, t⟩ = none := by
        rw [Move.issued?, goes.outcome]
        rfl
      obtain lent | there := goes.sequel.lent hy
      · exact earlier silent (ih (caller ▸ goes.holds) lent)
      rcases List.mem_append.1 there with active | idle
      · obtain ⟨x, hx, rfl⟩ := h.exists_issued active
        refine .inl ⟨_, List.mem_cons_self, caller, x, ?_, rfl, ?_⟩
        · rw [issued_move, silent]
          exact hx
        · -- It is in hand now, so it is in the books no more.
          refine (h.remains_or_withdraws ht hx active).resolve_left fun remains => ?_
          have hand : t.pool.custody.hand = w.hand := Pool.hand_of_holder holds
          have held : x.toEntry ∈ t.pool.custody.hand.held :=
            hand ▸ List.mem_append_left _ hy
          exact (h.move ht).sound.id_ne_of_held (List.mem_append_left _ remains) held rfl
      · refine earlier silent (.inr fun x hx => ?_)
        exact h.sound.newer y (List.mem_append_left _ idle) x (List.mem_reverse.2 hx)
    · have elsewhere (w' : Work) : r.pool.holder ≠ some (Move.caller ⟨r.pool, e, t⟩, w') :=
        fun holds' => other (Pool.holder_unique holds' held).1
      exact earlier (responds.silent elsewhere).1 (ih held hy)

/-- A handle becomes invalid in a turn of a call that has withdrawn its lease, in the same turn or
    in an earlier one. -/
theorem exists_withdraws (h : Of (.opened id source policy) r) (ht : r.pool.respond e = some t)
    (hx : x ∈ r.issued) (valid : x.isValid r.pool.generations)
    (invalid : ¬ x.isValid t.pool.generations) :
    ∃ u ∈ (r.move e t).moves, u.caller = Move.caller ⟨r.pool, e, t⟩ ∧ u.Withdraws x := by
  obtain without | ⟨y, hy, hid, generation⟩ := h.traced x (List.mem_reverse.2 hx) valid
  · refine absurd ?_ invalid
    rw [Handle.isValid_iff, (Pool.without_of_respond ht without).2]
    exact Handle.isValid_iff.1 valid
  rcases List.mem_append.1 hy with active | lent
  · obtain ⟨x', hx', rfl⟩ := h.exists_issued active
    obtain rfl := h.issued_unique hx hx' hid.symm generation.symm
    refine ⟨_, List.mem_cons_self, rfl, ?_⟩
    refine (h.remains_or_withdraws ht hx active).resolve_left fun remains => invalid ?_
    exact (h.move ht).sound.current x.toEntry (Custody.mem_present.2 (.inl remains))
  · obtain ⟨i, w, holds, lent⟩ := Pool.exists_holder_of_lent lent
    obtain ⟨u, hu, caller, x', hx', rfl, withdraws⟩ | newer := h.withdrawn holds lent
    · obtain rfl := h.issued_unique hx hx' hid.symm generation.symm
      refine ⟨u, List.mem_cons_of_mem _ hu, caller.trans ?_, withdraws⟩
      -- Only the holder of the lock can have done it.
      cases (Pool.responds_of_respond ht).affects h.callsOnce with
      | goesOn continues => exact (Pool.holder_unique holds continues.holds).1
      | dropped event holds' turn =>
        subst event
        exact (Pool.holder_unique holds holds').1
      | aside other custody holder sleepers =>
        have same : t.pool.generations = r.pool.generations := congrArg Custody.generations custody
        exact absurd (same ▸ valid) invalid
    · exact absurd (newer x hx hid.symm) (generation ▸ Nat.lt_irrefl _)

end Of

/-- The leases of a run are only lost for a stated reason. -/
structure KeepsLeases (r : Run) : Prop where
  /-- A handle that becomes invalid has been withdrawn, in the same turn or in an earlier one of the
      same call. -/
  lost : ∀ later v before, r.moves = later ++ v :: before →
    ∀ x ∈ before.filterMap Move.issued?, x.isValid v.before.generations →
      ¬ x.isValid v.after.generations → ∃ u ∈ v :: before, u.caller = v.caller ∧ u.Withdraws x
  /-- Each lease that is taken away is counted as overdue, and nothing else is. -/
  counted : ∀ v ∈ r.moves,
    (∃ e, v.Reclaims e) ∧
        v.after.books.counters.overdue = v.before.books.counters.overdue + 1 ∨
      (∀ e, ¬ v.Reclaims e) ∧
        v.after.books.counters.overdue = v.before.books.counters.overdue

end Run

/-- A handle becomes invalid only if it is given back, by a reset, or if it is overdue when an
    acquisition can get no other connection. -/
theorem Pool.keeps_leases (id : PoolId) (source : DataSource) (policy : Policy)
    (events : List Event) : ((opened id source policy).run events).KeepsLeases := by
  have h := (opened id source policy).of_run events
  generalize (opened id source policy).run events = r at h
  refine ⟨fun later v before split x hx valid invalid => ?_, fun v hv => ?_⟩
  · obtain ⟨p, e, t⟩ := v
    obtain ⟨r₀, h₀, rfl, rfl, ht⟩ := h.cut split
    exact h₀.exists_withdraws ht hx valid invalid
  · obtain ⟨-, -, -, ht⟩ := h.exists_before hv
    exact (responds_of_respond ht).counts

end LeasePool
