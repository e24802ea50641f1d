import LeasePool.Proofs.Sound

/-!
# The books and the handles agree

As long as no release and no reset is dropped at its work, the books tell which handles are
valid whenever the lock is free: those of the leased entries, and no others. While a call is at
work, the entries whose handles may be valid are the leased ones and those that the call has
taken out of the books and not given up yet (`Custody.leased`); what it has in hand it gives up,
or puts back, before it leaves, also when it fails, and an acquisition also when it is dropped.

* `Accounted.step`: every deed keeps an entry for every valid handle, unless what is in hand is
  lost;
* `Pool.agrees_run`: the books and the handles agree after every run.
-/

namespace LeasePool

open scoped List

namespace Custody

/-- The entries whose handles may be valid. -/
def leased (c : Custody) : List Entry := c.books.active ++ c.hand.lent

/-- Every valid handle has a leased entry. -/
def Accounted (hs : List Handle) (c : Custody) : Prop :=
  ∀ h ∈ hs, h.isValid c.generations → ∃ e ∈ c.leased, e.id = h.id ∧ e.generation = h.generation

variable {m : Moment} {c c' : Custody} {d : Deed} {hs : List Handle}
  {os : List (ConnectionId × Physical)} {i : ConnectionId}

namespace Accounted

/-- Entries change places. -/
theorem shift (h : Accounted hs c) (generations : c'.generations = c.generations)
    (kept : c.leased ⊆ c'.leased) : Accounted hs c' := by
  intro x hx valid
  rw [generations] at valid
  obtain ⟨e, he, same⟩ := h x hx valid
  exact ⟨e, kept he, same⟩

/-- Where the leased entries stay in the books, what is in hand has to stay there. -/
theorem rehand (h : Accounted hs c) (generations : c'.generations = c.generations)
    (active : c'.books.active = c.books.active) (lent : c.hand.lent ⊆ c'.hand.lent) :
    Accounted hs c' := by
  refine h.shift generations ?_
  intro e he
  rw [leased, active]
  exact List.mem_append.2 ((List.mem_append.1 he).imp_right fun he => lent he)

/-- A connection is given up: its handles become invalid, as none of them is of the next
    generation. -/
theorem retire (h : Accounted hs c) (sound : Sound hs os c)
    (generations : c'.generations = c.generations.advance i)
    (kept : ∀ e ∈ c.leased, e.id ≠ i → e ∈ c'.leased) : Accounted hs c' := by
  intro x hx valid
  rw [generations, Handle.isValid_iff, Generations.current_advance] at valid
  have le := sound.issued_le x hx
  split at valid
  · omega
  · next other =>
    obtain ⟨e, he, same⟩ := h x hx (Handle.isValid_iff.2 valid)
    exact ⟨e, kept e he (same.1 ▸ other), same⟩

/-- The first of the connections in hand whose handles may be valid is given up. -/
theorem retire_lent (h : Accounted hs c) (sound : Sound hs os c) {e : Entry} {rest : List Entry}
    (lent : c.hand.lent = e :: rest) (generations : c'.generations = c.generations.advance e.id)
    (active : c'.books.active = c.books.active) (lent' : c'.hand.lent = rest) :
    Accounted hs c' := by
  refine h.retire sound generations fun x hx other => ?_
  rw [leased, lent, List.mem_append, List.mem_cons] at hx
  rw [leased, active, lent', List.mem_append]
  rcases hx with hx | rfl | hx
  · exact .inl hx
  · exact absurd rfl other
  · exact .inr hx

/-- A handle is handed out together with an entry. -/
theorem issue (h : Accounted hs c) {x : Handle} {e : Entry} (has : e ∈ c.leased)
    (id : e.id = x.id) (generation : e.generation = x.generation) :
    Accounted (hs ++ [x]) c := by
  intro y hy valid
  rcases List.mem_append.1 hy with hy | hy
  · exact h y hy valid
  · rw [List.mem_singleton.1 hy]
    exact ⟨e, has, id, generation⟩

/-- A deed that hands out nothing keeps an entry for every valid handle, unless what is in hand
    is lost. -/
theorem quiet (h : Accounted hs c) (sound : Sound hs os c) (hd : Step m c d c')
    (issued : d.issued? = none) (kept : d ≠ .lose) : Accounted hs c' := by
  cases hd with
  | take free found =>
    obtain ⟨rest, hi, rfl⟩ := Books.takeIdle?_eq_some found
    exact h.shift rfl (by simp [leased, free])
  | ask free none_idle room => exact h.rehand rfl rfl (by simp [free])
  | receive asked => exact h.rehand rfl rfl (by simp [asked])
  | claim free none_idle full overdue =>
    obtain ⟨rest, counters, ha, -, rfl⟩ := Books.claimOverdue?_eq_some overdue
    exact h.shift rfl (by simp [leased, free, ha])
  | renew has => exact h.retire_lent sound (by rw [has]; rfl) rfl rfl rfl
  | lease has => cases issued
  | reject has => exact h.retire sound rfl (by simp +contextual [leased, has])
  | letGo has =>
    refine h.rehand rfl rfl ?_
    rcases has with has | ⟨e, has⟩ <;> simp [has]
  | countWait free => exact h.rehand rfl rfl (List.Subset.refl _)
  | addWaitTime free => exact h.rehand rfl rfl (List.Subset.refl _)
  | refuse free => exact h.rehand rfl rfl (List.Subset.refl _)
  | takeBack free found current =>
    obtain ⟨before, later, ha, -, -, rfl⟩ := Books.removeActive?_eq_some found
    exact h.shift rfl (by simp [leased, free, ha])
  | misplace free found old =>
    -- It would lose a lease whose handle is valid, but there is none that is out of date.
    rw [sound.current_of_removeActive? found] at old
    cases old
  | findClosed has closed => exact h.retire_lent sound (by rw [has]; rfl) rfl rfl rfl
  | accept has is_open => exact h.rehand rfl rfl (by simp [has])
  | keep has => exact h.retire_lent sound (by rw [has]; rfl) rfl rfl rfl
  | giveUp has => exact h.retire_lent sound (by rw [has]; rfl) rfl rfl rfl
  | endClose has => exact h.rehand rfl rfl (by simp [has])
  | drain free accepted =>
    obtain ⟨hi, ha, -⟩ := Reset.apply_eq_ok accepted
    exact h.shift rfl (by simp [leased, free, Books.emptied, Books.entries, ha])
  | retire has => exact h.retire_lent sound (by rw [has]; rfl) rfl rfl rfl
  | proceed has => exact h.rehand rfl rfl (by simp [has])
  | endReset has => exact h.rehand rfl rfl (by simp [has])
  | tolerate free => exact h.rehand rfl rfl (List.Subset.refl _)
  | abandon has =>
    rcases has with has | has
    · exact h.retire_lent sound (by rw [has]; rfl) rfl rfl rfl
    · exact h.retire sound rfl (by simp +contextual [leased, has])
  | lose has => exact absurd rfl kept
  | rouse has => exact h.rehand rfl rfl (by simp [has])

/-- Every deed keeps an entry for every valid handle, unless what is in hand is lost. -/
theorem step (h : Accounted hs c) (sound : Sound hs os c) (hd : Step m c d c')
    (kept : d ≠ .lose) : Accounted (hs ++ d.issued?.toList) c' := by
  by_cases silent : d.issued? = none
  · rw [silent, Option.toList_none, List.append_nil]
    exact h.quiet sound hd silent kept
  · cases hd with
    | @lease e a has =>
      have shifted : Accounted hs { c with
          books := c.books.lease (e.stamped a c.books.source m.now) (m.now.since a.startedAt)
          hand := .empty } := h.shift rfl (by simp [leased, has])
      exact shifted.issue (e := e.stamped a c.books.source m.now) (by simp [leased]) rfl rfl
    | _ => exact absurd rfl silent

end Accounted

end Custody

namespace Run

variable {id : PoolId} {source : DataSource} {policy : Policy} {r : Run} {ds : List Deed}

/-- Unless what is in hand is lost, the deeds of a run keep an entry for every valid handle. -/
theorem DoneBy.accounted (h : DoneBy (.opened id source policy) r ds) (kept : Deed.lose ∉ ds) :
    Custody.Accounted r.issued.reverse r.pool.custody := by
  have both := h.path.keeps
    (I := fun ds c => Custody.Sound (ds.filterMap Deed.issued?) (ds.filterMap Deed.opened?) c ∧
      (Deed.lose ∉ ds → Custody.Accounted (ds.filterMap Deed.issued?) c))
    (fun {m ds c d c'} hi hd => ?_)
    ⟨Pool.sound_opened id source policy, fun _ x hx => absurd hx List.not_mem_nil⟩
  · rw [← h.issued]
    exact both.2 kept
  · rw [List.filterMap_append, List.filterMap_append, Deed.filterMap_singleton,
      Deed.filterMap_singleton]
    refine ⟨hi.1.step hd, fun kept => ?_⟩
    rw [List.mem_append, List.mem_singleton, not_or] at kept
    exact (hi.2 kept.1).step hi.1 hd (Ne.symm kept.2)

/-- The books tell which handles are valid. -/
structure Agrees (r : Run) : Prop where
  /-- No two entries are of the same connection. -/
  distinct : ((r.pool.books.idle ++ r.pool.books.active).map Entry.id).Nodup
  /-- All entries are of the current generation of their connections. -/
  current : ∀ e ∈ r.pool.books.idle ++ r.pool.books.active, e.isCurrent r.pool.generations
  /-- The valid handles are those of the leased entries. -/
  valid_iff : ∀ h ∈ r.issued, h.isValid r.pool.generations ↔
    ∃ e ∈ r.pool.books.active, e.id = h.id ∧ e.generation = h.generation

end Run

/-- If no release and no reset that holds the lock is dropped in a run, the books and the handles
    agree whenever the lock is free. -/
theorem Pool.agrees_run (id : PoolId) (source : DataSource) (policy : Policy)
    (events : List Event)
    (uninterrupted : ∀ v ∈ ((opened id source policy).run events).moves, v.interrupts = false)
    (free : ((opened id source policy).run events).pool.holder = none) :
    ((opened id source policy).run events).Agrees := by
  obtain ⟨ds, h⟩ := Run.exists_doneBy (opened id source policy) events
  generalize (opened id source policy).run events = r at h uninterrupted free
  have kept : Deed.lose ∉ ds := fun hl => by
    obtain ⟨v, hv, interrupts⟩ := h.kept hl
    rw [uninterrupted v hv] at interrupts
    cases interrupts
  -- Nothing is in hand while the lock is free, so all entries are in the books.
  have empty : r.pool.custody.hand = .empty := by
    change r.pool.hand = .empty
    rw [Pool.hand, free]
  have all : r.pool.custody.present = r.pool.books.active ++ r.pool.books.idle := by
    rw [Custody.present, empty]
    exact List.append_nil _
  have leased : r.pool.custody.leased = r.pool.books.active := by
    rw [Custody.leased, empty]
    exact List.append_nil _
  have sound := h.sound
  have present : r.pool.books.idle ++ r.pool.books.active <+~ r.pool.custody.present := by
    rw [all]
    exact List.perm_append_comm.subperm
  refine ⟨Custody.nodup_of_subperm present sound.distinct,
    fun e he => sound.current e (present.subset he), ?_⟩
  intro x hx
  constructor
  · intro valid
    rw [← leased]
    exact h.accounted kept x (List.mem_reverse.2 hx) valid
  · rintro ⟨e, he, hid, hgen⟩
    have current := sound.current e (present.subset (List.mem_append_right _ he))
    rw [Handle.isValid_iff, ← hid, ← hgen]
    exact Entry.isCurrent_iff.1 current

/-- The books and the handles agree when a call that reclaims the only connection is dropped while
    the connection is rolled back. -/
theorem Pool.agrees_reclaim_dropped :
    ((opened 0 {} .single).run
      (Event.firstLease ++ Event.beginReclaim 1 ++ [.drop 1])).Agrees :=
  agrees_run 0 {} .single _ (by decide) rfl

end LeasePool
