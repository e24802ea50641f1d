import Mathlib.Data.List.Perm.Subperm
import LeasePool.Proofs.Books
import LeasePool.Proofs.Respond

/-!
# Entries and the handles handed out

A connection is handed out and comes back many times, and each time an old handle is left with a
caller. That no old handle ever reaches a connection again is a matter of generations: an entry
that is idle, or a candidate, bears a generation that is newer than that of every handle of its
connection, and an entry that is leased bears the current one.

`Custody.Sound` says so of all handles that have been handed out, all connections that have been
opened, and all entries that are still in the books or in hand, each of which there is once.

* `Sound.shift`, `Sound.retire`, `Sound.enroll`, `Sound.number`, `Sound.issue`: what a deed can do
  to the entries without breaking it, with `Sound.rehand` and `Sound.giveUp` for the deeds that
  leave the books alone;
* `Sound.step`: every deed is one of these, so every deed keeps it;
* `Run.DoneBy.sound`: it holds after every run.
-/

namespace LeasePool

open scoped List

theorem Entry.isCurrent_iff {e : Entry} {g : Generations} :
    e.isCurrent g = true ↔ g.current e.id = e.generation :=
  beq_iff_eq

/-- Whether an entry is current does not depend on the generations of other connections. -/
theorem Entry.isCurrent_advance {e : Entry} {g : Generations} {id : ConnectionId}
    (h : e.id ≠ id) : e.isCurrent (g.advance id) = e.isCurrent g := by
  rw [isCurrent, isCurrent, Generations.current_advance_of_ne g h]

theorem Handle.isValid_iff {h : Handle} {g : Generations} :
    h.isValid g = true ↔ g.current h.id = h.generation :=
  Entry.isCurrent_iff

namespace Custody

/-- The entries of the connections that are still good: leased, idle, or in hand. -/
def present (c : Custody) : List Entry := c.books.active ++ c.books.idle ++ c.hand.held

/-- The entries of the connections for which no handle is valid. -/
def unlent (c : Custody) : List Entry := c.books.idle ++ c.hand.offered

/-- The handles `hs` have been handed out, the connections `os` have been opened, and the entries
    and the generations agree with them. -/
structure Sound (hs : List Handle) (os : List (ConnectionId × Physical)) (c : Custody) :
    Prop where
  /-- Every connection has a single entry. -/
  distinct : (c.present.map Entry.id).Nodup
  current : ∀ e ∈ c.present, e.isCurrent c.generations = true
  known : ∀ e ∈ c.present, (e.id, e.physical) ∈ os
  numbers : (os.map Prod.fst).Nodup
  below : ∀ o ∈ os, o.1 < c.next
  unused : ∀ i, c.next ≤ i → c.generations.current i = 0
  issued_known : ∀ h ∈ hs, (h.id, h.physical) ∈ os
  issued_le : ∀ h ∈ hs, h.generation ≤ c.generations.current h.id
  issued_once : (hs.map fun h => (h.id, h.generation)).Nodup
  /-- All handles of a connection for which none is valid are older than its entry. -/
  newer : ∀ e ∈ c.unlent, ∀ h ∈ hs, h.id = e.id → h.generation < e.generation

variable {m : Moment} {c c' : Custody} {d : Deed} {hs : List Handle}
  {os : List (ConnectionId × Physical)} {e : Entry}

theorem unlent_subset_present : c.unlent ⊆ c.present := by
  intro e he
  rw [unlent, List.mem_append] at he
  rw [present, List.mem_append, List.mem_append]
  rcases he with he | he
  · exact .inl (.inr he)
  · exact .inr (List.mem_append_right _ he)

/-- Entries with different numbers are still different when there are fewer of them. -/
theorem nodup_of_subperm {l l' : List Entry} (sub : l <+~ l') (h : (l'.map Entry.id).Nodup) :
    (l.map Entry.id).Nodup := by
  obtain ⟨k, hk, hs⟩ := sub
  exact (hk.map _).nodup_iff.1 (h.sublist (hs.map _))

namespace Sound

/-- Entries change places or are lost. -/
theorem shift (h : Sound hs os c) (present : c'.present <+~ c.present)
    (unlent : c'.unlent ⊆ c.unlent) (generations : c'.generations = c.generations)
    (next : c'.next = c.next) : Sound hs os c' where
  distinct := nodup_of_subperm present h.distinct
  current e he := by rw [generations]; exact h.current e (present.subset he)
  known e he := h.known e (present.subset he)
  numbers := h.numbers
  below o ho := by rw [next]; exact h.below o ho
  unused i hi := by rw [generations]; exact h.unused i (next ▸ hi)
  issued_known := h.issued_known
  issued_le x hx := by rw [generations]; exact h.issued_le x hx
  issued_once := h.issued_once
  newer e he := h.newer e (unlent he)

/-- Where the books keep their entries, there may only be less in hand than before. -/
theorem rehand (h : Sound hs os c) (idle : c'.books.idle = c.books.idle)
    (active : c'.books.active = c.books.active) (held : c'.hand.held <+~ c.hand.held)
    (offered : c'.hand.offered ⊆ c.hand.offered) (generations : c'.generations = c.generations)
    (next : c'.next = c.next) : Sound hs os c' := by
  refine h.shift ?_ ?_ generations next
  · rw [present, present, idle, active]
    exact (List.subperm_append_left _).2 held
  · rw [unlent, unlent, idle]
    intro x hx
    exact List.mem_append.2 ((List.mem_append.1 hx).imp_right fun hx => offered hx)

/-- The connection of an entry is given up, and its handles become invalid. -/
theorem retire (h : Sound hs os c) (present : e :: c'.present <+~ c.present)
    (unlent : c'.unlent ⊆ c.unlent) (generations : c'.generations = c.generations.advance e.id)
    (next : c'.next = c.next) : Sound hs os c' := by
  have kept : c'.present <+~ c.present := List.Subperm.cons_self.trans present
  have distinct := nodup_of_subperm present h.distinct
  rw [List.map_cons, List.nodup_cons] at distinct
  have other : ∀ x ∈ c'.present, x.id ≠ e.id := fun x hx same =>
    distinct.1 (same ▸ List.mem_map_of_mem hx)
  have numbered : e.id < c.next := h.below _ (h.known e (present.subset List.mem_cons_self))
  refine ⟨distinct.2, ?_, fun x hx => h.known x (kept.subset hx), h.numbers, ?_, ?_,
    h.issued_known, ?_, h.issued_once, fun x hx => h.newer x (unlent hx)⟩
  · -- The other entries are of other connections, whose generations stay the same.
    intro x hx
    rw [generations, Entry.isCurrent_advance (other x hx)]
    exact h.current x (kept.subset hx)
  · intro o ho
    rw [next]
    exact h.below o ho
  · intro i hi
    rw [next] at hi
    have later : i ≠ e.id := Nat.ne_of_gt (Nat.lt_of_lt_of_le numbered hi)
    rw [generations, Generations.current_advance_of_ne _ later]
    exact h.unused i hi
  · intro x hx
    rw [generations]
    exact Nat.le_trans (h.issued_le x hx) (Generations.current_le_current_advance _ _ _)

/-- The first connection in hand is given up, and no candidate is left there. -/
theorem giveUp (h : Sound hs os c) (idle : c'.books.idle = c.books.idle)
    (active : c'.books.active = c.books.active) (held : c.hand.held = e :: c'.hand.held)
    (offered : c'.hand.offered = []) (generations : c'.generations = c.generations.advance e.id)
    (next : c'.next = c.next) : Sound hs os c' := by
  refine h.retire ?_ ?_ generations next
  · rw [present, present, idle, active, held]
    exact List.perm_middle.symm.subperm
  · rw [unlent, idle, offered, List.append_nil]
    exact List.subset_append_left _ _

/-- A connection without an entry gets one. -/
theorem enroll (h : Sound hs os c) (new : e.id ∉ c.present.map Entry.id)
    (known : (e.id, e.physical) ∈ os) (current : e.isCurrent c.generations = true)
    (present : c'.present <+~ e :: c.present)
    (unlent : ∀ x ∈ c'.unlent, x ∈ c.unlent ∨
      x = e ∧ ∀ h ∈ hs, h.id = e.id → h.generation < e.generation)
    (generations : c'.generations = c.generations) (next : c'.next = c.next) :
    Sound hs os c' := by
  have distinct : ((e :: c.present).map Entry.id).Nodup := List.nodup_cons.2 ⟨new, h.distinct⟩
  refine ⟨nodup_of_subperm present distinct, ?_, ?_, h.numbers, ?_, ?_, h.issued_known, ?_,
    h.issued_once, ?_⟩
  · intro x hx
    rw [generations]
    rcases List.mem_cons.1 (present.subset hx) with rfl | hx
    · exact current
    · exact h.current x hx
  · intro x hx
    rcases List.mem_cons.1 (present.subset hx) with rfl | hx
    · exact known
    · exact h.known x hx
  · intro o ho
    rw [next]
    exact h.below o ho
  · intro i hi
    rw [generations]
    exact h.unused i (next ▸ hi)
  · intro x hx
    rw [generations]
    exact h.issued_le x hx
  · intro x hx
    rcases unlent x hx with hx | ⟨rfl, newer⟩
    · exact h.newer x hx
    · exact newer

/-- A new connection gets a number. -/
theorem number (h : Sound hs os c) (physical : Physical) :
    Sound hs (os ++ [(c.next, physical)]) { c with next := c.next + 1 } where
  distinct := h.distinct
  current := h.current
  known e he := List.mem_append_left _ (h.known e he)
  numbers := by
    rw [List.map_append, List.nodup_append]
    refine ⟨h.numbers, List.pairwise_singleton _ _, fun i hi j hj => ?_⟩
    obtain ⟨o, ho, rfl⟩ := List.mem_map.1 hi
    rw [List.mem_singleton.1 hj]
    exact Nat.ne_of_lt (h.below o ho)
  below o ho := by
    rcases List.mem_append.1 ho with ho | ho
    · exact Nat.lt_succ_of_lt (h.below o ho)
    · rw [List.mem_singleton.1 ho]
      exact Nat.lt_succ_self _
  unused i hi := h.unused i (Nat.le_of_succ_le hi)
  issued_known x hx := List.mem_append_left _ (h.issued_known x hx)
  issued_le := h.issued_le
  issued_once := h.issued_once
  newer := h.newer

/-- A handle is handed out that is newer than all others of its connection. -/
theorem issue (h : Sound hs os c) {x : Handle} (known : (x.id, x.physical) ∈ os)
    (valid : x.isValid c.generations = true)
    (newer : ∀ h ∈ hs, h.id = x.id → h.generation < x.generation)
    (lent : ∀ e ∈ c.unlent, e.id ≠ x.id) : Sound (hs ++ [x]) os c where
  distinct := h.distinct
  current := h.current
  known := h.known
  numbers := h.numbers
  below := h.below
  unused := h.unused
  issued_known y hy := by
    rcases List.mem_append.1 hy with hy | hy
    · exact h.issued_known y hy
    · rwa [List.mem_singleton.1 hy]
  issued_le y hy := by
    rcases List.mem_append.1 hy with hy | hy
    · exact h.issued_le y hy
    · rw [List.mem_singleton.1 hy]
      exact Nat.le_of_eq (Handle.isValid_iff.1 valid).symm
  -- The new handle is newer than all others of its connection, so no pair comes twice.
  issued_once := by
    rw [List.map_append, List.nodup_append]
    refine ⟨h.issued_once, List.pairwise_singleton _ _, fun i hi j hj => ?_⟩
    obtain ⟨y, hy, rfl⟩ := List.mem_map.1 hi
    rw [List.mem_singleton.1 hj, Ne, Prod.mk.injEq]
    exact fun same => Nat.ne_of_lt (newer y hy same.1) same.2
  newer e he y hy same := by
    rcases List.mem_append.1 hy with hy | hy
    · exact h.newer e he y hy same
    · rw [List.mem_singleton.1 hy] at same
      exact absurd same.symm (lent e he)

/-- A connection is given up and gets a new entry, of its next generation. -/
theorem renew (h : Sound hs os c) (e' : Entry)
    (present : e :: (c.books.active ++ c.books.idle) <+~ c.present) (id : e'.id = e.id)
    (physical : e'.physical = e.physical)
    (generation : e'.generation = (c.generations.advance e.id).current e.id)
    (present' : c'.present <+~ e' :: (c.books.active ++ c.books.idle))
    (unlent : ∀ x ∈ c'.unlent, x ∈ c.books.idle ∨ x = e')
    (generations : c'.generations = c.generations.advance e.id) (next : c'.next = c.next) :
    Sound hs os c' := by
  -- For a moment the hand holds nothing: the old entry is given up, then the new one is enrolled.
  have rest : ({ c with generations := c.generations.advance e.id, hand := .owing } :
      Custody).present = c.books.active ++ c.books.idle := List.append_nil _
  have given_up : Sound hs os
      { c with generations := c.generations.advance e.id, hand := .owing } :=
    h.retire (e := e) (rest ▸ present) (by simp [Custody.unlent]) rfl rfl
  have distinct := nodup_of_subperm present h.distinct
  rw [List.map_cons, List.nodup_cons] at distinct
  refine given_up.enroll ?_ ?_ ?_ (rest ▸ present') ?_ generations next
  · rw [rest, id]
    exact distinct.1
  · rw [id, physical]
    exact h.known e (present.subset List.mem_cons_self)
  · rw [Entry.isCurrent_iff, generation, id]
  · -- No handle is ahead of the generation that has just ended.
    intro x hx
    refine (unlent x hx).imp (List.mem_append_left _) fun same => ⟨same, ?_⟩
    intro y hy hid
    rw [generation, Generations.current_advance_self, ← id, ← hid]
    exact Nat.lt_succ_of_le (h.issued_le y hy)

/-- A lease is never found out of date. -/
theorem current_of_removeActive? (h : Sound hs os c) {generation : Nat} {i : ConnectionId}
    {b : Books} (found : c.books.removeActive? i generation = some (e, b)) :
    e.isCurrent c.generations = true := by
  obtain ⟨before, later, ha, -, -, -⟩ := Books.removeActive?_eq_some found
  exact h.current e (by simp [present, ha])

/-- The factory gives a connection, and it gets an entry. -/
theorem receive (h : Sound hs os c) (m : Moment) (physical : Physical)
    (asked : c.hand = .opening) :
    Sound hs (os ++ [(c.next, physical)]) { c with
      next := c.next + 1
      hand := .candidate (.fresh c.next physical c.books.expected m.now) } := by
  have numbered := h.number physical
  refine numbered.enroll (e := .fresh c.next physical c.books.expected m.now) ?_ ?_ ?_
    (List.subperm_ext_iff.2 fun x _ => ?_) ?_ rfl rfl
  · -- The numbers of all entries have been given before.
    intro hm
    obtain ⟨e, he, same⟩ := List.mem_map.1 hm
    exact Nat.ne_of_lt (h.below _ (h.known e he)) same
  · exact List.mem_append_right _ (List.mem_singleton_self _)
  · exact Entry.isCurrent_iff.2 (h.unused c.next (Nat.le_refl _))
  · simp [present, asked, List.count_cons]
    omega
  · -- So have those of all handles.
    intro x hx
    rw [unlent, List.mem_append] at hx
    refine hx.imp (List.mem_append_left _) fun hx => ⟨List.mem_singleton.1 hx, ?_⟩
    intro y hy same
    exact absurd same (Nat.ne_of_lt (h.below _ (h.issued_known y hy)))

/-- The candidate is handed out. -/
theorem lease (h : Sound hs os c) (m : Moment) (a : Acquisition) (has : c.hand = .candidate e) :
    Sound (hs ++ [{ e.stamped a c.books.source m.now with pool := c.pool }]) os { c with
      books := c.books.lease (e.stamped a c.books.source m.now) (m.now.since a.startedAt)
      hand := .empty } := by
  have candidate : e ∈ c.unlent := by simp [unlent, has]
  have all : e :: (c.books.active ++ c.books.idle) <+~ c.present :=
    List.subperm_ext_iff.2 fun x _ => by simp [present, has, List.count_cons]; omega
  have distinct := nodup_of_subperm all h.distinct
  rw [List.map_cons, List.nodup_cons] at distinct
  have known := h.known e (unlent_subset_present candidate)
  have valid := h.current e (unlent_subset_present candidate)
  have newer := h.newer e candidate
  -- The entry changes in all but its number, its generation and the connection itself.
  have handed_over : Sound hs os { c with hand := .owing } :=
    h.shift (List.subperm_ext_iff.2 fun x _ => by simp [present]) (by simp [unlent]) rfl rfl
  have stamped : Sound hs os { c with
      books := c.books.lease (e.stamped a c.books.source m.now) (m.now.since a.startedAt)
      hand := .empty } := by
    refine handed_over.enroll (e := e.stamped a c.books.source m.now) ?_ known valid
      (List.subperm_ext_iff.2 fun x _ => ?_) (fun x hx => .inl ?_) rfl rfl
    · simpa [present, Entry.stamped] using distinct.1
    · simp [present, List.count_cons]
      omega
    · simpa [unlent] using hx
  -- No other entry is of the connection that is handed out.
  refine stamped.issue known valid newer fun x hx same => distinct.1 ?_
  have hx : x ∈ c.books.idle := by simpa [unlent] using hx
  exact List.mem_map.2 ⟨x, List.mem_append_right _ hx, same⟩

/-- All other deeds, which hand out nothing and open nothing. -/
theorem quiet (h : Sound hs os c) (hd : Step m c d c') (issued : d.issued? = none)
    (opened : d.opened? = none) : Sound hs os c' := by
  -- A deed moves an entry, lets one go, or renews one. For each of these there is a lemma above,
  -- and what is left is which entries are present before and after, counted.
  cases hd with
  | take free found =>
    obtain ⟨rest, hi, rfl⟩ := Books.takeIdle?_eq_some found
    refine h.shift (List.subperm_ext_iff.2 fun x _ => ?_) ?_ rfl rfl
    · simp [present, free, hi, List.count_cons]
    · simp [unlent, free, hi]
  | ask free none_idle room => exact h.rehand rfl rfl List.nil_subperm (List.nil_subset _) rfl rfl
  | receive asked => cases opened
  | claim free none_idle full overdue =>
    obtain ⟨rest, counters, ha, -, rfl⟩ := Books.claimOverdue?_eq_some overdue
    refine h.shift (List.subperm_ext_iff.2 fun x _ => ?_) ?_ rfl rfl
    · simp [present, free, ha, List.count_cons]
      omega
    · simp [unlent, free]
  | @renew e has =>
    refine h.renew (e := e) (e.renewed (c.generations.advance e.id))
      (List.subperm_ext_iff.2 fun x _ => ?_) rfl rfl rfl
      (List.subperm_ext_iff.2 fun x _ => ?_) ?_ rfl rfl
    · simp [present, has, List.count_cons]
      omega
    · simp [present, List.count_cons]
      omega
    · simp [unlent]
  | lease has => cases issued
  | reject has => exact h.giveUp rfl rfl (by rw [has]; rfl) rfl rfl rfl
  | letGo has => exact h.rehand rfl rfl List.nil_subperm (List.nil_subset _) rfl rfl
  | countWait free => exact h.rehand rfl rfl (.refl _) (List.Subset.refl _) rfl rfl
  | addWaitTime free => exact h.rehand rfl rfl (.refl _) (List.Subset.refl _) rfl rfl
  | refuse free => exact h.rehand rfl rfl (.refl _) (List.Subset.refl _) rfl rfl
  | takeBack free found current =>
    obtain ⟨before, later, ha, -, -, rfl⟩ := Books.removeActive?_eq_some found
    refine h.shift (List.subperm_ext_iff.2 fun x _ => ?_) ?_ rfl rfl
    · simp [present, free, ha, List.count_cons]
      omega
    · simp [unlent, free]
  | misplace free found old =>
    obtain ⟨before, later, ha, -, -, rfl⟩ := Books.removeActive?_eq_some found
    refine h.shift (List.subperm_ext_iff.2 fun x _ => ?_) ?_ rfl rfl
    · simp [present, free, ha, List.count_cons]
    · simp [unlent, free]
  | findClosed has closed => exact h.giveUp rfl rfl (by rw [has]; rfl) rfl rfl rfl
  | accept has is_open =>
    exact h.rehand rfl rfl (by rw [has]; exact .refl _) (List.nil_subset _) rfl rfl
  | @keep e returnedAt has =>
    refine h.renew (e := e)
      { e.renewed (c.generations.advance e.id) with lastUsedAt := returnedAt }
      (List.subperm_ext_iff.2 fun x _ => ?_) rfl rfl rfl
      (List.subperm_ext_iff.2 fun x _ => ?_) ?_ rfl rfl
    · simp [present, has, List.count_cons]
      omega
    · simp [present, List.count_cons]
      omega
    · simp [unlent]
  | giveUp has => exact h.giveUp rfl rfl (by rw [has]; rfl) rfl rfl rfl
  | endClose has => exact h.rehand rfl rfl List.nil_subperm (List.nil_subset _) rfl rfl
  | drain free accepted =>
    obtain ⟨hi, ha, -⟩ := Reset.apply_eq_ok accepted
    refine h.shift (List.subperm_ext_iff.2 fun x _ => ?_) ?_ rfl rfl
    · simp [present, free, Books.emptied, Books.entries, hi, ha]
    · simp [unlent, Books.emptied]
  | retire has => exact h.giveUp rfl rfl (by rw [has]; rfl) rfl rfl rfl
  | proceed has => exact h.rehand rfl rfl (by rw [has]; exact .refl _) (List.nil_subset _) rfl rfl
  | endReset has => exact h.rehand rfl rfl List.nil_subperm (List.nil_subset _) rfl rfl
  | tolerate free => exact h.rehand rfl rfl (.refl _) (List.Subset.refl _) rfl rfl
  | abandon has =>
    refine h.giveUp rfl rfl ?_ rfl rfl rfl
    rcases has with has | has <;> rw [has] <;> rfl
  | lose has => exact h.rehand rfl rfl List.nil_subperm (List.nil_subset _) rfl rfl
  | rouse has => exact h.rehand rfl rfl List.nil_subperm (List.nil_subset _) rfl rfl

/-- Every deed keeps the entries sound. -/
theorem step (h : Sound hs os c) (hd : Step m c d c') :
    Sound (hs ++ d.issued?.toList) (os ++ d.opened?.toList) c' := by
  by_cases silent : d.issued? = none ∧ d.opened? = none
  · rw [silent.1, silent.2, Option.toList_none, Option.toList_none, List.append_nil,
      List.append_nil]
    exact h.quiet hd silent.1 silent.2
  · cases hd with
    | @receive physical asked =>
      change Sound (hs ++ []) (os ++ [(c.next, physical)]) _
      rw [List.append_nil]
      exact h.receive m physical asked
    | @lease e a has =>
      change Sound (hs ++ [_]) (os ++ []) _
      rw [List.append_nil]
      exact h.lease m a has
    | _ => exact absurd ⟨rfl, rfl⟩ silent

end Sound

end Custody

/-- A new pool has no entries and no handles. -/
theorem Pool.sound_opened (id : PoolId) (source : DataSource) (policy : Policy) :
    Custody.Sound [] [] (opened id source policy).custody where
  distinct := List.nodup_nil
  current _ he := absurd he List.not_mem_nil
  known _ he := absurd he List.not_mem_nil
  numbers := List.nodup_nil
  below _ ho := absurd ho List.not_mem_nil
  unused _ _ := rfl
  issued_known _ hh := absurd hh List.not_mem_nil
  issued_le _ hh := absurd hh List.not_mem_nil
  issued_once := List.nodup_nil
  newer _ he := absurd he List.not_mem_nil

namespace Run

variable {id : PoolId} {source : DataSource} {policy : Policy} {r : Run} {ds : List Deed}

/-- The deeds of a run keep the entries sound. -/
theorem DoneBy.sound (h : DoneBy (.opened id source policy) r ds) :
    Custody.Sound r.issued.reverse r.opened.reverse r.pool.custody := by
  rw [← h.issued, ← h.opened]
  refine h.path.keeps
    (I := fun ds c => Custody.Sound (ds.filterMap Deed.issued?) (ds.filterMap Deed.opened?) c)
    (fun {m ds c d c'} hs hd => ?_) (Pool.sound_opened id source policy)
  rw [List.filterMap_append, List.filterMap_append, Deed.filterMap_singleton,
    Deed.filterMap_singleton]
  exact hs.step hd

namespace Of

/-- The deeds of a run, turn by turn. -/
theorem exists_doneBy {p : Pool} (h : Of p r) : ∃ ds, DoneBy p r ds := by
  induction h with
  | start => exact ⟨[], .nil, rfl, rfl, fun h => absurd h List.not_mem_nil⟩
  | move _ ht ih =>
    obtain ⟨ds, hr⟩ := ih
    exact hr.move ht

theorem sound (h : Of (.opened id source policy) r) :
    Custody.Sound r.issued.reverse r.opened.reverse r.pool.custody := by
  obtain ⟨ds, hr⟩ := h.exists_doneBy
  exact hr.sound

end Of

end Run

end LeasePool
