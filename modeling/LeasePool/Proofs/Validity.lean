import LeasePool.Proofs.Exclusive
import LeasePool.Proofs.Journeys

/-!
# Where handles are valid

Handles of a connection may be valid as long as it is leased, and while the call that has taken it
out of the books has not given it up: until a reclaimed lease has been rolled back, until a returned
one has been, and until a reset comes to it. At all other stages every handle of it is invalid, and
remains so until the connection is handed out again (`Run.Of.spent`).

That this is so when a connection has just been given up is seen from its deeds
(`Custody.Sound.worn`); when it is idle or a candidate, from the generations of the handles.
-/

namespace LeasePool

/-! ## Connections whose handles are invalid -/

namespace Hand

/-- The connection in hand that has been given up. -/
@[simp] def spent : Hand → List Entry
  | refused e | closing e | clearing e _ => [e]
  | _ => []

end Hand

namespace Custody

variable {m : Moment} {c c' : Custody} {d : Deed} {hs : List Handle}
  {os : List (ConnectionId × Physical)}

/-- A connection in hand that has been given up has been opened, and its handles are of
    generations before the current one. -/
def Worn (hs : List Handle) (os : List (ConnectionId × Physical)) (c : Custody) : Prop :=
  ∀ e ∈ c.hand.spent, (e.id, e.physical) ∈ os ∧
    ∀ h ∈ hs, h.id = e.id → h.generation < c.generations.current h.id

/-- A connection that is given up enters its next generation. -/
theorem Sound.worn (sound : Sound hs os c) (hd : Step m c d c') :
    Worn (hs ++ d.issued?.toList) (os ++ d.opened?.toList) c' := by
  have given_up {e : Entry} (held : e ∈ c.hand.held) :
      (e.id, e.physical) ∈ os ∧
        ∀ h ∈ hs, h.id = e.id → h.generation < (c.generations.advance e.id).current h.id := by
    refine ⟨sound.known e (List.mem_append_right _ held), fun h hh same => ?_⟩
    rw [same, Generations.current_advance_self, ← same]
    exact Nat.lt_succ_of_le (sound.issued_le h hh)
  have single {e : Entry} {hs' : List Handle} {os' : List (ConnectionId × Physical)}
      (held : e ∈ c.hand.held) (issued : hs' = []) (opened : os' = []) :
      ∀ x ∈ [e], (x.id, x.physical) ∈ os ++ os' ∧ ∀ h ∈ hs ++ hs', h.id = x.id →
        h.generation < (c.generations.advance e.id).current h.id := by
    intro x hx
    rw [List.mem_singleton.1 hx, issued, opened, List.append_nil, List.append_nil]
    exact given_up held
  cases hd with
  | reject has => exact single (by simp [has]) rfl rfl
  | giveUp has => exact single (by simp [has]) rfl rfl
  | retire has => exact single (by simp [has]) rfl rfl
  | countWait free | addWaitTime free | refuse free | misplace free | tolerate free =>
    intro e he
    simp [free] at he
  | _ => exact fun e he => absurd he List.not_mem_nil

end Custody

namespace Pool

variable {p : Pool} {id : CallId} {w : Work} {e : Entry}

theorem generations_passLock (p : Pool) : p.passLock.generations = p.generations := by
  cases h : p.queue <;> simp only [passLock, h]

/-- The handles of a candidate become invalid when its acquisition is dropped. -/
theorem generations_dropWork (candidate : w.guarded? = some e) :
    (p.turn.dropWork w).pool.generations = p.generations.advance e.id := by
  have abandoned (e : Entry) : (p.turn.abandon e).pool.generations = p.generations.advance e.id := by
    rw [Turn.abandon, Turn.pool_unlock, generations_passLock]
    rfl
  cases w <;> cases candidate <;> exact abandoned _

end Pool

/-- Whether handles of a connection at a stage may be valid. -/
def Stage.lent : Stage → Bool
  | leased | reclaiming | undoing | pending => true
  | _ => false

/-- A connection that some work has to do with and that is not lent out is in hand to be handed
    out, or it has been given up. -/
theorem Work.exists_entry {w : Work} {c : Physical} {σ : Stage} (hm : (c, σ) ∈ w.places)
    (quiet : σ.lent = false) :
    ∃ x : Entry, x.physical = c ∧ (w.hand.offered = [x] ∨ w.hand.spent = [x]) := by
  have pending {rest : List Entry} (hm : (c, σ) ∈ rest.map fun e => (e.physical, Stage.pending)) :
      False := by
    obtain ⟨e, -, same⟩ := List.mem_map.1 hm
    cases same
    cases quiet
  -- A candidate that is examined is on offer, one that is discarded or closed is spent. What still
  -- has to be rolled back counts as lent.
  cases w with
  | begin intent => cases hm
  | connect a lookedAt => cases hm
  | examine a e checkup =>
    cases List.mem_singleton.1 hm
    exact ⟨e, rfl, .inl rfl⟩
  | prepare a e =>
    cases List.mem_singleton.1 hm
    exact ⟨e, rfl, .inl rfl⟩
  | discard a e =>
    cases List.mem_singleton.1 hm
    exact ⟨e, rfl, .inr rfl⟩
  | close e cause =>
    cases List.mem_singleton.1 hm
    exact ⟨e, rfl, .inr rfl⟩
  | reclaim a e lookedAt =>
    cases List.mem_singleton.1 hm
    cases quiet
  | undo e keep returnedAt =>
    cases List.mem_singleton.1 hm
    cases quiet
  | resetUndo e rest =>
    rcases List.mem_cons.1 hm with first | later
    · cases first
      exact ⟨e, rfl, .inr rfl⟩
    · exact (pending later).elim
  | resetClose e rest =>
    rcases List.mem_cons.1 hm with first | later
    · cases first
      exact ⟨e, rfl, .inr rfl⟩
    · exact (pending later).elim

/-! ## Runs -/

namespace Run

variable {id : PoolId} {source : DataSource} {policy : Policy} {r : Run} {e : Event} {t : Turn}
  {i : CallId} {c : Physical} {σ : Stage}

/-- No handle of a connection is valid. -/
def Spent (r : Run) (c : Physical) : Prop :=
  ∀ h ∈ r.issued, h.physical = c → ¬ h.isValid r.pool.generations

/-- In every run, what has been given up is of its next generation. -/
theorem DoneBy.worn {ds : List Deed} (h : DoneBy (.opened id source policy) r ds) :
    Custody.Worn r.issued.reverse r.opened.reverse r.pool.custody := by
  rw [← h.issued, ← h.opened]
  refine (h.path.keeps
    (I := fun ds c => Custody.Sound (ds.filterMap Deed.issued?) (ds.filterMap Deed.opened?) c ∧
      Custody.Worn (ds.filterMap Deed.issued?) (ds.filterMap Deed.opened?) c)
    (fun {m ds c d c'} hs hd => ?_)
    ⟨Pool.sound_opened id source policy, fun e he => absurd he List.not_mem_nil⟩).2
  rw [List.filterMap_append, List.filterMap_append, Deed.filterMap_singleton,
    Deed.filterMap_singleton]
  exact ⟨hs.1.step hd, hs.1.worn hd⟩

namespace Of

/-- The handles of a connection that was opened under some number bear that number. -/
theorem id_of_issued (h : Of (.opened id source policy) r) (distinct : r.Distinct) {x : Handle}
    (hx : x ∈ r.issued) {i : ConnectionId} (hi : (i, x.physical) ∈ r.opened) : x.id = i := by
  obtain ⟨ds, hr⟩ := h.exists_doneBy
  exact hr.eq_id_of_eq_physical distinct hx hi rfl

/-- The connection of an entry of which no handle is of the current generation. -/
theorem spent_of_lt (h : Of (.opened id source policy) r) (distinct : r.Distinct) {e : Entry}
    (known : (e.id, e.physical) ∈ r.opened.reverse)
    (lt : ∀ x ∈ r.issued.reverse, x.id = e.id →
      x.generation < r.pool.generations.current x.id) : r.Spent e.physical := by
  intro x hx same valid
  have hid := h.id_of_issued distinct hx (same ▸ List.mem_reverse.1 known)
  rw [Handle.isValid_iff] at valid
  exact Nat.ne_of_lt (lt x (List.mem_reverse.2 hx) hid) valid.symm

/-- No handle of an entry is valid that is idle or a candidate. -/
theorem spent_of_unlent (h : Of (.opened id source policy) r) (distinct : r.Distinct) {e : Entry}
    (he : e ∈ r.pool.custody.unlent) : r.Spent e.physical := by
  have sound := h.sound
  have present := Custody.unlent_subset_present he
  refine h.spent_of_lt distinct (sound.known e present) fun x hx same => ?_
  have current := Entry.isCurrent_iff.1 (sound.current e present)
  rw [same]
  exact Nat.lt_of_lt_of_eq (sound.newer e he x hx same) current.symm

/-- What is handed out is leased. -/
theorem leased_of_issued (ht : r.pool.respond e = some t) {x : Handle}
    (issued : Move.issued? ⟨r.pool, e, t⟩ = some x) : (x.physical, .leased) ∈ t.pool.places := by
  obtain ⟨m, w, s, y, -, lends⟩ := (Pool.responds_of_respond ht).lends issued
  refine List.mem_append_left _ (List.mem_append_right _ (List.mem_append_left _ ?_))
  exact List.mem_map.2 ⟨x.toEntry, lends.mem_active, rfl⟩

/-- A connection of which no handle is valid remains so, as long as it is not handed out. -/
theorem spent_move (h : Of (.opened id source policy) r) (ht : r.pool.respond e = some t)
    (spent : r.Spent c) (hm : (c, .leased) ∉ t.pool.places) : (r.move e t).Spent c := by
  obtain ⟨ds, hr⟩ := h.exists_doneBy
  intro x hx same valid
  rw [issued_move, List.mem_append, Option.mem_toList] at hx
  rcases hx with new | old
  · exact hm (same ▸ leased_of_issued ht new)
  · have still := hr.stays_invalid old (spent x old same) [e]
    rw [Run.follow, List.foldl_cons, List.foldl_nil, extend, ht] at still
    exact still valid

/-- When an acquisition is dropped, no handle of its candidate is valid any more. -/
theorem spent_of_dropped (h : Of (.opened id source policy) r)
    (ht : r.pool.respond (.drop i) = some t) (distinct : r.Distinct) {w : Work} {x : Entry}
    (holds : r.pool.holder = some (i, w)) (candidate : w.guarded? = some x) :
    (r.move (.drop i) t).Spent x.physical := by
  obtain rfl : r.pool.turn.dropWork w = t := Option.some.inj ((Pool.respond_drop holds).symm.trans ht)
  have sound := h.sound
  have present : x ∈ r.pool.custody.present := by
    refine List.mem_append_right _ ?_
    rw [Pool.hand_of_holder holds]
    cases w <;> cases candidate <;> exact List.mem_singleton_self _
  intro y hy same valid
  have old : y ∈ r.issued := by
    rw [issued_move, Move.issued?, Pool.outcome_dropWork] at hy
    exact hy
  have hid := h.id_of_issued distinct old
    (same ▸ List.mem_reverse.1 (sound.known x present))
  have le := sound.issued_le y (List.mem_reverse.2 old)
  rw [Handle.isValid_iff, pool_move, Pool.generations_dropWork candidate, hid,
    Generations.current_advance_self, ← hid] at valid
  rw [← valid] at le
  exact Nat.not_succ_le_self _ le

/-- A connection that is left to an errand has no valid handle. -/
theorem spent_of_orphaned (h : Of (.opened id source policy) r) (distinct : r.Distinct)
    {begun : Bool} (hm : (c, .orphaned begun) ∈ r.pool.places) : r.Spent c := by
  induction h generalizing begun with
  | start => cases hm
  | @move r e t h ht ih =>
    have before := distinct.of_move
    have unleased : (c, .leased) ∉ t.pool.places := fun leased => by
      cases (h.move ht).stage_unique distinct hm leased
    obtain ⟨σ, hσ, carries⟩ := (h.carried ht).exists_of_mem hm
    have there : σ ≠ .new → (c, σ) ∈ r.pool.places := fun old =>
      (List.mem_append.1 hσ).resolve_left fun new => by
        obtain ⟨o, -, same⟩ := Option.map_eq_some_iff.1 (Option.mem_toList.1 new)
        cases same
        exact old rfl
    cases carries with
    | stay => exact h.spent_move ht (ih before (there Stage.noConfusion)) unleased
    | go moment next asked =>
      -- The holder of the lock leaves nothing to errands.
      cases next with
      | offer free offer => cases offer with | ready ready => cases ready
      | claim commits offer => cases offer with | ready ready => cases ready
      | passed unsettled ready => cases ready
    | begin asked => exact h.spent_move ht (ih before (there Stage.noConfusion)) unleased
    | @orphan σ x w dropped holds candidate place =>
      generalize Move.caller ⟨r.pool, e, t⟩ = i at dropped holds
      obtain rfl : e = .drop i := dropped
      obtain rfl : x.physical = c := by
        cases w <;> cases candidate <;> cases place <;> rfl
      exact h.spent_of_dropped ht before holds candidate

/-- No handle of a connection is valid that the holder of the lock is going to hand out, or has
    given up. -/
theorem spent_of_worked (h : Of (.opened id source policy) r) (distinct : r.Distinct) {w : Work}
    (holds : r.pool.holder = some (i, w)) (hm : (c, σ) ∈ w.places) (quiet : σ.lent = false) :
    r.Spent c := by
  have hand := Pool.hand_of_holder holds
  obtain ⟨x, rfl, offered | spent⟩ := Work.exists_entry hm quiet
  · refine h.spent_of_unlent distinct (List.mem_append_right _ ?_)
    rw [hand, offered]
    exact List.mem_singleton_self _
  · obtain ⟨ds, hr⟩ := h.exists_doneBy
    have given_up : x ∈ r.pool.custody.hand.spent := by
      rw [hand, spent]
      exact List.mem_singleton_self _
    obtain ⟨known, lt⟩ := hr.worn x given_up
    exact h.spent_of_lt distinct known lt

/-- Unless a connection is leased or has just been taken out of the books, none of its handles is
    valid. -/
theorem spent (h : Of (.opened id source policy) r) (distinct : r.Distinct)
    (hm : (c, σ) ∈ r.pool.places) (quiet : σ.lent = false) : r.Spent c := by
  rcases List.mem_append.1 hm with hm' | orphaned
  · rcases List.mem_append.1 hm' with worked | booked
    · rw [Pool.worked] at worked
      split at worked
      · next i w holds => exact h.spent_of_worked distinct holds worked quiet
      · cases worked
    · rcases List.mem_append.1 booked with leased | idle
      · obtain ⟨x, -, same⟩ := List.mem_map.1 leased
        cases same
        cases quiet
      · obtain ⟨x, hx, same⟩ := List.mem_map.1 idle
        cases same
        exact h.spent_of_unlent distinct (List.mem_append_left _ hx)
  · obtain ⟨q, -, place⟩ := List.mem_flatMap.1 orphaned
    obtain ⟨begun, rfl⟩ : ∃ begun, σ = .orphaned begun := by
      cases hq : q.2 <;> rw [hq] at place <;> cases place
      · exact ⟨_, rfl⟩
      · next tail => cases tail
    exact h.spent_of_orphaned distinct hm

end Of

end Run

end LeasePool
