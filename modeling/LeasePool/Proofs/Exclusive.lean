import Mathlib.Data.List.Nodup
import LeasePool.Proofs.Sound

/-!
# Exclusive leases

If the factory never gives the same connection twice, a handle gives its caller the connection
alone: at most one handle of a connection is valid, none is while the connection is idle, and a
handle that is invalid remains so, whatever happens to the connection later (`Run.Exclusive`).

That a handle remains invalid is not a matter of where its connection is: generations only grow
(`Run.current_le_follow`), and no handle is ahead of them.

* `Pool.exclusive_run`: the handles of every run give exclusive access.
-/

namespace LeasePool

/-! ## Generations grow -/

/-- No deed lowers a generation. -/
theorem Custody.Step.current_le {m : Moment} {c c' : Custody} {d : Deed} (hd : Step m c d c')
    (i : ConnectionId) : c.generations.current i ≤ c'.generations.current i := by
  cases hd with
  | renew has | reject has | findClosed has closed | keep has | giveUp has | retire has
  | abandon has => exact Generations.current_le_current_advance _ _ _
  | _ => exact Nat.le_refl _

/-- Nor does any run. -/
theorem Run.current_le_follow (r : Run) (events : List Event) (i : ConnectionId) :
    r.pool.generations.current i ≤ (r.follow events).pool.generations.current i := by
  refine follow_induction
    (I := fun r' => r.pool.generations.current i ≤ r'.pool.generations.current i)
    (Nat.le_refl _) (fun r' e t h ht => ?_) events
  obtain ⟨ds, hv⟩ := Move.exists_doneBy (Pool.responds_of_respond ht)
  exact hv.path.keeps (I := fun _ c => r.pool.generations.current i ≤ c.generations.current i)
    (fun h hd => Nat.le_trans h (hd.current_le i)) h

/-! ## What an invalid handle is good for -/

/-- Through an invalid handle nothing is read from the connection, and a request is refused: the
    call is over at once, and no errand begins. -/
structure Handle.Refused (h : Handle) (p : Pool) : Prop where
  isClosed : ∀ m, h.isClosed p.generations m = .error .invalidConnection
  isAutoCommit : ∀ m, h.isAutoCommit p.generations m = .error .invalidConnection
  probe : ∀ query m, (p.start (.probe h query) m).2 =
    p.numbered.turn.finish (.failed .invalidConnection)
  rollback : ∀ m, (p.start (.rollback h) m).2 =
    p.numbered.turn.finish (.failed .invalidConnection)

theorem Handle.refused_of_invalid {h : Handle} {p : Pool} (hi : ¬ h.isValid p.generations) :
    h.Refused p where
  isClosed _ := if_neg hi
  isAutoCommit _ := if_neg hi
  probe _ _ := if_neg hi
  rollback _ := if_neg hi

/-! ## Exclusive access -/

namespace Run

variable {id : PoolId} {source : DataSource} {policy : Policy} {r : Run} {ds : List Deed}

/-- The handles that have been handed out in a run give exclusive access. -/
structure Exclusive (r : Run) : Prop where
  /-- No two connections have the same number. -/
  numbers : (r.opened.map Prod.fst).Nodup
  /-- No two handles are of the same connection and generation. -/
  generations : (r.issued.map fun h => (h.id, h.generation)).Nodup
  /-- At most one handle of a connection is valid. -/
  one_valid : ∀ h ∈ r.issued, ∀ h' ∈ r.issued, h.isValid r.pool.generations →
    h'.isValid r.pool.generations → h.physical = h'.physical → h = h'
  /-- No handle of an idle connection is valid. -/
  idle_invalid : ∀ h ∈ r.issued, ∀ e ∈ r.pool.books.idle, h.physical = e.physical →
    ¬ h.isValid r.pool.generations
  /-- An invalid handle is never valid again. -/
  stays_invalid : ∀ h ∈ r.issued, ¬ h.isValid r.pool.generations →
    ∀ later, ¬ h.isValid (r.follow later).pool.generations
  /-- An invalid handle does not reach its connection. -/
  refused : ∀ h : Handle, ¬ h.isValid r.pool.generations → h.Refused r.pool

/-- An invalid handle that has been handed out is older than the current generation, which
    it never catches up with. -/
theorem DoneBy.stays_invalid (h : DoneBy (.opened id source policy) r ds) {x : Handle}
    (hx : x ∈ r.issued) (invalid : ¬ x.isValid r.pool.generations) (later : List Event) :
    ¬ x.isValid (r.follow later).pool.generations := by
  rw [Handle.isValid_iff] at invalid ⊢
  have le := h.sound.issued_le x (List.mem_reverse.2 hx)
  have grown := r.current_le_follow later x.id
  have lt : x.generation < r.pool.generations.current x.id :=
    Nat.lt_of_le_of_ne le fun same => invalid same.symm
  omega

/-- If the factory has given every connection once, its number tells it apart from the others. -/
theorem DoneBy.eq_id_of_eq_physical (h : DoneBy (.opened id source policy) r ds)
    (distinct : (r.opened.map Prod.snd).Nodup) {x : Handle} (hx : x ∈ r.issued)
    {i : ConnectionId} {physical : Physical} (hi : (i, physical) ∈ r.opened)
    (same : x.physical = physical) : x.id = i := by
  have known := List.mem_reverse.1 (h.sound.issued_known x (List.mem_reverse.2 hx))
  exact congrArg Prod.fst (List.inj_on_of_nodup_map distinct known hi same)

end Run

/-- If the factory never gives the same connection twice, the handles of every run give exclusive
    access, wherever it ends. -/
theorem Pool.exclusive_run (id : PoolId) (source : DataSource) (policy : Policy)
    (events : List Event)
    (distinct : (((opened id source policy).run events).opened.map Prod.snd).Nodup) :
    ((opened id source policy).run events).Exclusive := by
  obtain ⟨ds, h⟩ := Run.exists_doneBy (opened id source policy) events
  generalize (opened id source policy).run events = r at h distinct
  have sound := h.sound
  have once : (r.issued.map fun h => (h.id, h.generation)).Nodup := by
    simpa only [List.map_reverse, List.nodup_reverse] using sound.issued_once
  have numbers : (r.opened.map Prod.fst).Nodup := by
    simpa only [List.map_reverse, List.nodup_reverse] using sound.numbers
  refine ⟨numbers, once, ?_, ?_, fun x hx => h.stays_invalid hx, fun x => x.refused_of_invalid⟩
  · -- Two valid handles of a connection are both of its current generation.
    intro x hx y hy valid valid' same
    have hid : x.id = y.id := h.eq_id_of_eq_physical distinct hx
      (List.mem_reverse.1 (sound.issued_known y (List.mem_reverse.2 hy))) same
    rw [Handle.isValid_iff] at valid valid'
    have hgen : x.generation = y.generation := by rw [← valid, ← valid', hid]
    exact List.inj_on_of_nodup_map once hx hy (Prod.ext hid hgen)
  · intro x hx e he same valid
    have unlent : e ∈ r.pool.custody.unlent := List.mem_append_left _ he
    have present := Custody.unlent_subset_present unlent
    have hid : x.id = e.id :=
      h.eq_id_of_eq_physical distinct hx (List.mem_reverse.1 (sound.known e present)) same
    -- The entry is current and newer than the handle.
    have current := Entry.isCurrent_iff.1 (sound.current e present)
    have newer := sound.newer e unlent x (List.mem_reverse.2 hx) hid
    rw [Handle.isValid_iff, hid] at valid
    exact Nat.ne_of_lt newer (valid.symm.trans current)

/-- The handles of a run give exclusive access in which the only connection is reclaimed from one
    caller and handed out to another. -/
theorem Pool.exclusive_reclaimed :
    (((opened 0 {} .single).run (Event.firstLease ++ Event.beginReclaim 1 ++
      [.resume 1 (.answered (.ok ())) (.plain 20 false),
        .resume 1 (.answered (.ok ())) (.plain 20 false)])).opened.map Prod.snd).Nodup ∧
    ((opened 0 {} .single).run (Event.firstLease ++ Event.beginReclaim 1 ++
      [.resume 1 (.answered (.ok ())) (.plain 20 false),
        .resume 1 (.answered (.ok ())) (.plain 20 false)])).Exclusive :=
  ⟨by decide, exclusive_run 0 {} .single _ (by decide)⟩

end LeasePool
