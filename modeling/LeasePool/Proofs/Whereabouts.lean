import Mathlib.Data.List.Nodup
import LeasePool.Proofs.Sound

/-!
# Where connections are

A connection that has been opened is in the books or in the hand of the call that holds the lock,
until it is given up; then it never comes back. A connection that is given up in a turn has been
*discarded* by it (`Move.discarded`), so at any time all connections that have been opened are
accounted for, each of them once.

* `Custody.Step.names`: what is there after a deed was there before, or has just been received;
* `Custody.Without.step`: a connection that has been given up does not come back;
* `Run.Of.whereabouts`: where the connections are that have been opened in a run.
-/

namespace LeasePool

open scoped List

/-- A connection, with its number. -/
def Entry.name (e : Entry) : ConnectionId × Physical := (e.id, e.physical)

namespace Custody

/-- The connections that have not been given up, with their numbers. -/
def names (c : Custody) : List (ConnectionId × Physical) := c.present.map Entry.name

variable {m : Moment} {c c' : Custody} {d : Deed} {i : ConnectionId} {hs : List Handle}
  {os : List (ConnectionId × Physical)}

theorem mem_present {e : Entry} : e ∈ c.present ↔
    e ∈ c.books.active ∨ e ∈ c.books.idle ∨ e ∈ c.hand.held := by
  simp only [present, List.mem_append, or_assoc]

theorem mem_names {o : ConnectionId × Physical} : o ∈ c.names ↔
    ∃ e, (e ∈ c.books.active ∨ e ∈ c.books.idle ∨ e ∈ c.hand.held) ∧ (e.id, e.physical) = o := by
  simp only [names, Entry.name, List.mem_map, mem_present]

/-- What is there after a deed was there before, or has been received from the factory. -/
theorem Step.names (hd : Step m c d c') {o : ConnectionId × Physical} (ho : o ∈ c'.names) :
    o ∈ c.names ∨ d.opened? = some o := by
  rw [mem_names] at ho ⊢
  obtain ⟨e, he, rfl⟩ := ho
  cases hd with
  | take free found =>
    obtain ⟨rest, hi, rfl⟩ := Books.takeIdle?_eq_some found
    grind [Hand.held, Hand.lent, Hand.offered]
  | receive asked =>
    grind [Hand.held, Hand.lent, Hand.offered, Deed.opened?, Entry.fresh]
  | claim free none_idle full overdue =>
    obtain ⟨rest, counters, ha, -, rfl⟩ := Books.claimOverdue?_eq_some overdue
    grind [Hand.held, Hand.lent, Hand.offered]
  | lease has => grind [Hand.held, Hand.lent, Hand.offered, Books.lease, Entry.stamped]
  | takeBack free found | misplace free found =>
    obtain ⟨before, later, ha, -, -, rfl⟩ := Books.removeActive?_eq_some found
    grind [Hand.held, Hand.lent, Hand.offered, Books.countBad]
  | drain free accepted =>
    obtain ⟨idle, active, -⟩ := Reset.apply_eq_ok accepted
    grind [Hand.held, Hand.lent, Hand.offered, Books.entries, Books.emptied]
  | _ =>
    grind [Hand.held, Hand.lent, Hand.offered, Books.countBad, Books.countWait,
      Books.addWaitTime, Books.addCheckoutTime, Books.keep, Entry.renewed]

/-! ## Connections without an entry -/

/-- A deed advances no generations but that of a connection in hand. -/
theorem Step.current_eq (hd : Step m c d c') (others : ∀ e ∈ c.hand.held, e.id ≠ i) :
    c'.generations.current i = c.generations.current i := by
  have advance {e : Entry} (held : e ∈ c.hand.held) :
      (c.generations.advance e.id).current i = c.generations.current i :=
    Generations.current_advance_of_ne _ (others e held).symm
  cases hd with
  | renew has | reject has | findClosed has | keep has | giveUp has | retire has =>
    exact advance (by simp [has])
  | abandon has => exact advance (by rcases has with has | has <;> simp [has])
  | _ => rfl

/-- A number has been given to a connection that is neither in the books nor in hand. -/
structure Without (c : Custody) (i : ConnectionId) : Prop where
  absent : ∀ e ∈ c.present, e.id ≠ i
  below : i < c.next

/-- Such a connection comes back to no place. -/
theorem Without.step (h : c.Without i) (hd : Step m c d c') : c'.Without i := by
  have next : c.next ≤ c'.next := by
    cases hd with
    | receive asked => exact Nat.le_succ _
    | _ => exact Nat.le_refl _
  refine ⟨fun e he same => ?_, Nat.lt_of_lt_of_le h.below next⟩
  obtain there | received := hd.names (List.mem_map_of_mem he)
  · obtain ⟨e₀, he₀, name⟩ := List.mem_map.1 there
    exact h.absent e₀ he₀ ((congrArg Prod.fst name).trans same)
  · cases hd with
    | receive asked =>
      have number : c.next = e.id := congrArg Prod.fst (Option.some.inj received)
      exact Nat.ne_of_lt h.below (same.symm.trans number.symm)
    | _ => cases received

/-! ## All connections -/

namespace Sound

theorem names_nodup (h : Sound hs os c) : c.names.Nodup := by
  have numbers : (c.names.map Prod.fst).Nodup := by
    rw [names, List.map_map]
    exact h.distinct
  exact List.Nodup.of_map _ numbers

theorem names_subset (h : Sound hs os c) : c.names ⊆ os := by
  intro o ho
  obtain ⟨e, he, rfl⟩ := List.mem_map.1 ho
  exact h.known e he

theorem opened_nodup (h : Sound hs os c) : os.Nodup := List.Nodup.of_map _ h.numbers

/-- What is in the books is of other connections than what is in hand. -/
theorem id_ne_of_held (h : Sound hs os c) {e x : Entry}
    (there : e ∈ c.books.active ++ c.books.idle) (held : x ∈ c.hand.held) : e.id ≠ x.id := by
  have distinct := h.distinct
  rw [present, List.map_append, List.nodup_append] at distinct
  exact distinct.2.2 e.id (List.mem_map_of_mem there) x.id (List.mem_map_of_mem held)

/-- What is in hand has no entry any more when it is let go. -/
theorem without_of_held (h : Sound hs os c) {x : Entry} (held : x ∈ c.hand.held) :
    Without { c with hand := .empty } x.id := by
  refine ⟨fun e he => h.id_ne_of_held ?_ held, ?_⟩
  · simpa [present] using he
  · exact h.below _ (h.known x (mem_present.2 (.inr (.inr held))))

end Sound

end Custody

namespace Move

/-- The connections that a turn gives up: what was there before it, or has been received in it, and
    is not there any more. -/
def discarded (v : Move) : List (ConnectionId × Physical) :=
  (v.opened?.toList ++ v.before.custody.names).filter fun o => o ∉ v.after.custody.names

theorem mem_discarded {v : Move} {o : ConnectionId × Physical} : o ∈ v.discarded ↔
    (v.opened? = some o ∨ o ∈ v.before.custody.names) ∧ o ∉ v.after.custody.names := by
  simp only [discarded, List.mem_filter, List.mem_append, Option.mem_toList, decide_eq_true_eq]

end Move

namespace Pool

variable {p : Pool} {e : Event} {t : Turn}

/-- What is there after a turn was there before, or has been received in it. -/
theorem mem_names_of_respond (ht : p.respond e = some t) {o : ConnectionId × Physical}
    (ho : o ∈ t.pool.custody.names) :
    Move.opened? ⟨p, e, t⟩ = some o ∨ o ∈ p.custody.names := by
  obtain ⟨ds, hv⟩ := Move.exists_doneBy (responds_of_respond ht)
  have all := hv.path.keeps (I := fun ds c => ∀ o ∈ c.names,
    o ∈ ds.filterMap Deed.opened? ∨ o ∈ p.custody.names) (fun {m ds c d c'} hs hd o ho => ?_)
    (fun o ho => .inr ho)
  · rw [hv.opened] at all
    exact (all o ho).imp_left Option.mem_toList.1
  · rw [List.filterMap_append, Deed.filterMap_singleton]
    rcases hd.names ho with ho | new
    · exact (hs o ho).imp_left (List.mem_append_left _)
    · exact .inl (List.mem_append_right _ (Option.mem_toList.2 new))

/-- A turn does nothing to a connection without an entry. -/
theorem without_of_respond (ht : p.respond e = some t) {i : ConnectionId}
    (lost : p.custody.Without i) :
    t.pool.custody.Without i ∧ t.pool.generations.current i = p.generations.current i := by
  obtain ⟨ds, hv⟩ := Move.exists_doneBy (responds_of_respond ht)
  refine hv.path.keeps (I := fun _ c => c.Without i ∧
    c.generations.current i = p.generations.current i) (fun {m ds c d c'} hs hd => ?_) ⟨lost, rfl⟩
  refine ⟨hs.1.step hd, ?_⟩
  rw [hd.current_eq fun e he => hs.1.absent e (List.mem_append_right _ he), hs.2]

end Pool

namespace Run

/-- The connections that have been given up in a run, the latest first. -/
def discarded (r : Run) : List (ConnectionId × Physical) := r.moves.flatMap Move.discarded

variable {id : PoolId} {source : DataSource} {policy : Policy} {r : Run} {e : Event} {t : Turn}

namespace Of

theorem opened_nodup (h : Of (.opened id source policy) r) : r.opened.Nodup :=
  List.nodup_reverse.1 h.sound.opened_nodup

/-- In a turn, every connection remains, or it is received, or it is given up. -/
theorem discarded_append (h : Of (.opened id source policy) r) (ht : r.pool.respond e = some t) :
    Move.discarded ⟨r.pool, e, t⟩ ++ t.pool.custody.names ~
      (Move.opened? ⟨r.pool, e, t⟩).toList ++ r.pool.custody.names := by
  let before := (Move.opened? ⟨r.pool, e, t⟩).toList ++ r.pool.custody.names
  have opened := (h.move ht).opened_nodup
  rw [opened_move, List.nodup_append] at opened
  have nodup : before.Nodup := by
    refine List.nodup_append.2 ⟨opened.1, h.sound.names_nodup, fun o ho o' ho' => ?_⟩
    exact opened.2.2 o ho o' (List.mem_reverse.1 (h.sound.names_subset ho'))
  -- Names are distinct, so the list before the turn splits into what is still there and what is
  -- not.
  have there : before.filter (fun o => !decide (o ∉ t.pool.custody.names)) ~
      t.pool.custody.names := by
    have after : t.pool.custody.names.Nodup := (h.move ht).sound.names_nodup
    rw [List.perm_ext_iff_of_nodup (nodup.filter _) after]
    intro o
    rw [List.mem_filter]
    simp only [Bool.not_eq_true', decide_eq_false_iff_not, Decidable.not_not, and_iff_right_iff_imp]
    intro ho
    rw [List.mem_append, Option.mem_toList]
    exact Pool.mem_names_of_respond ht ho
  exact (there.symm.append_left _).trans (List.filter_append_perm _ before)

/-- Every connection that has been opened is in the books or held, or it has been given up, and
    there is no other. -/
theorem whereabouts (h : Of (.opened id source policy) r) :
    r.pool.custody.names ++ r.discarded ~ r.opened := by
  induction h with
  | start => exact .refl _
  | @move r e t h ht ih =>
    let v : Move := ⟨r.pool, e, t⟩
    have turn : v.discarded ++ t.pool.custody.names ~ v.opened?.toList ++ r.pool.custody.names :=
      h.discarded_append ht
    have all : (r.move e t).discarded = v.discarded ++ r.discarded := rfl
    rw [all, opened_move]
    calc t.pool.custody.names ++ (v.discarded ++ r.discarded)
        = t.pool.custody.names ++ v.discarded ++ r.discarded := (List.append_assoc ..).symm
      _ ~ v.discarded ++ t.pool.custody.names ++ r.discarded :=
        List.perm_append_comm.append_right _
      _ ~ v.opened?.toList ++ r.pool.custody.names ++ r.discarded := turn.append_right _
      _ = v.opened?.toList ++ (r.pool.custody.names ++ r.discarded) := List.append_assoc ..
      _ ~ v.opened?.toList ++ r.opened := ih.append_left _

end Of

end Run

end LeasePool
