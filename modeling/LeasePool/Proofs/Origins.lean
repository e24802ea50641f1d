import LeasePool.Proofs.Logins
import LeasePool.Proofs.Sound

/-!
# Connections and the data source

A data source is changed by a reset, which takes all connections out of the books in the same turn,
and no connection that a reset is to close ever comes back. A connection is opened by a call that
holds the lock from its request on, so the data source is still the same when the connection
arrives. So whatever a pool has in its books, and the candidate of an acquisition, was opened with
exactly the data source that the pool has (`Run.OpenedWith`), and what is leased or idle bears a
signature that agrees with it.

* `Pool.mem_origins_of_respond`: a connection was there before a turn, or is opened in it;
* `Run.Of.openedWith`: with which data source connections have been opened;
* `Pool.up_to_date`: no connection outlives the data source it was opened with.
-/

namespace LeasePool

/-! ## Deeds -/

/-- The connections in hand, but for those that a reset is to close. -/
@[simp] def Hand.standing : Hand → List Entry
  | .reclaimed e | .candidate e | .refused e | .returned e | .undoing e _ _ | .closing e => [e]
  | _ => []

namespace Custody

/-- The connections that no reset is to close, with their numbers. -/
def origins (c : Custody) : List (ConnectionId × Physical) :=
  (c.books.idle ++ c.books.active ++ c.hand.standing).map fun e => (e.id, e.physical)

/-- The books, and what is in hand to be put into them, agree with the data source. -/
structure Settled (c : Custody) : Prop where
  expected : c.books.expected = c.books.source.signature
  idle : ∀ e ∈ c.books.idle, e.signature = c.books.expected
  kept : ∀ e returnedAt, c.hand = .undoing e true returnedAt → e.signature = c.books.expected

variable {m : Moment} {c c' : Custody} {d : Deed}

theorem mem_origins {o : ConnectionId × Physical} : o ∈ c.origins ↔
    ∃ e, (e ∈ c.books.idle ∨ e ∈ c.books.active ∨ e ∈ c.hand.standing) ∧
      (e.id, e.physical) = o := by
  simp only [origins, List.mem_map, List.mem_append, or_assoc]

/-- What is there after a deed was there before, or has been received from the factory. -/
theorem Step.origins (hd : Step m c d c') {o : ConnectionId × Physical} (ho : o ∈ c'.origins) :
    o ∈ c.origins ∨ d.opened? = some o := by
  rw [mem_origins] at ho ⊢
  obtain ⟨e, he, rfl⟩ := ho
  cases hd with
  | take free found =>
    obtain ⟨rest, hi, rfl⟩ := Books.takeIdle?_eq_some found
    grind [Hand.standing]
  | receive asked => grind [Hand.standing, Deed.opened?, Entry.fresh]
  | claim free none_idle full overdue =>
    obtain ⟨rest, counters, ha, -, rfl⟩ := Books.claimOverdue?_eq_some overdue
    grind [Hand.standing]
  | renew has => grind [Hand.standing, Entry.renewed]
  | lease has => grind [Hand.standing, Entry.stamped, Books.lease]
  | takeBack free found =>
    obtain ⟨before, later, ha, -, -, rfl⟩ := Books.removeActive?_eq_some found
    grind [Hand.standing]
  | misplace free found =>
    obtain ⟨before, later, ha, -, -, rfl⟩ := Books.removeActive?_eq_some found
    grind [Books.countBad]
  | keep has => grind [Hand.standing, Entry.renewed, Books.keep]
  | drain free accepted => simp [Books.emptied] at he
  | _ =>
    grind [Hand.standing, Books.countBad, Books.countWait, Books.addWaitTime, Books.addCheckoutTime]

/-- What is leased after a deed was leased before, or has been handed out. -/
theorem Step.active (hd : Step m c d c') {e : Entry} (he : e ∈ c'.books.active) :
    e ∈ c.books.active ∨ ∃ h, d.issued? = some h ∧ h.toEntry = e := by
  cases hd with
  | take free found =>
    obtain ⟨rest, hi, rfl⟩ := Books.takeIdle?_eq_some found
    exact .inl he
  | claim free none_idle full overdue =>
    obtain ⟨rest, counters, ha, -, rfl⟩ := Books.claimOverdue?_eq_some overdue
    exact .inl (ha ▸ List.mem_cons_of_mem _ he)
  | lease has =>
    refine (List.mem_append.1 he).imp_right fun he => ⟨_, rfl, ?_⟩
    exact (List.mem_singleton.1 he).symm
  | takeBack free found | misplace free found =>
    obtain ⟨before, later, ha, -, -, rfl⟩ := Books.removeActive?_eq_some found
    refine .inl (ha ▸ ?_)
    exact ((List.sublist_cons_self _ _).append_left _).subset he
  | drain free accepted => cases he
  | _ => exact .inl he

/-- The books agree with the data source as long as nothing else becomes idle. -/
theorem Settled.of_same (h : c.Settled) (source : c'.books.source = c.books.source)
    (expected : c'.books.expected = c.books.expected) (idle : c'.books.idle ⊆ c.books.idle)
    (kept : ∀ e returnedAt, c'.hand = .undoing e true returnedAt →
      e.signature = c.books.expected) : c'.Settled := by
  refine ⟨by rw [expected, source, h.expected], fun e he => ?_, fun e returnedAt has => ?_⟩
  · rw [expected]
    exact h.idle e (idle he)
  · rw [expected]
    exact kept e returnedAt has

/-- Every deed leaves the books in agreement with the data source. -/
theorem Settled.step (h : c.Settled) (hd : Step m c d c') : c'.Settled := by
  cases hd with
  | take free found =>
    obtain ⟨rest, hi, rfl⟩ := Books.takeIdle?_eq_some found
    exact h.of_same rfl rfl (hi ▸ List.subset_cons_self _ _) fun _ _ has => by cases has
  | claim free none_idle full overdue =>
    obtain ⟨rest, counters, ha, -, rfl⟩ := Books.claimOverdue?_eq_some overdue
    exact h.of_same rfl rfl (List.Subset.refl _) fun _ _ has => by cases has
  | takeBack free found =>
    obtain ⟨before, later, ha, -, -, rfl⟩ := Books.removeActive?_eq_some found
    exact h.of_same rfl rfl (List.Subset.refl _) fun _ _ has => by cases has
  | misplace free found =>
    obtain ⟨before, later, ha, -, -, rfl⟩ := Books.removeActive?_eq_some found
    exact h.of_same rfl rfl (List.Subset.refl _) h.kept
  | countWait | addWaitTime | refuse | tolerate =>
    exact h.of_same rfl rfl (List.Subset.refl _) h.kept
  | accept has is_open =>
    -- A connection is to be kept only if its signature is the expected one.
    refine h.of_same rfl rfl (List.Subset.refl _) fun e returnedAt same => ?_
    injection same with he keep _
    subst he
    exact of_decide_eq_true (Bool.and_eq_true_iff.1 keep).1
  | @keep e returnedAt has =>
    refine ⟨h.expected, fun x hx => ?_, fun _ _ has => by cases has⟩
    rcases List.mem_append.1 hx with hx | hx
    · exact h.idle x hx
    · rw [List.mem_singleton.1 hx]
      exact h.kept e returnedAt has
  | drain free accepted =>
    exact ⟨rfl, fun e he => absurd he List.not_mem_nil, fun _ _ has => by cases has⟩
  | _ => exact h.of_same rfl rfl (List.Subset.refl _) fun _ _ has => by cases has

end Custody

namespace Pool

variable {p : Pool} {e : Event} {t : Turn}

/-- A connection was there before a turn, or it is opened in it. -/
theorem mem_origins_of_respond (ht : p.respond e = some t) {o : ConnectionId × Physical}
    (ho : o ∈ t.pool.custody.origins) :
    o ∈ p.custody.origins ∨ Move.opened? ⟨p, e, t⟩ = some o := by
  obtain ⟨ds, hv⟩ := Move.exists_doneBy (responds_of_respond ht)
  have all := hv.path.keeps (I := fun ds c => ∀ o ∈ c.origins,
    o ∈ p.custody.origins ∨ o ∈ ds.filterMap Deed.opened?) (fun {m ds c d c'} hs hd o ho => ?_)
    (fun o ho => .inl ho)
  · rw [hv.opened] at all
    exact (all o ho).imp_right Option.mem_toList.1
  · rw [List.filterMap_append, Deed.filterMap_singleton]
    rcases hd.origins ho with ho | new
    · exact (hs o ho).imp_right (List.mem_append_left _)
    · exact .inr (List.mem_append_right _ (Option.mem_toList.2 new))

/-- A connection that is leased was leased before a turn, or it is handed out in it. -/
theorem mem_active_of_respond (ht : p.respond e = some t) {x : Entry}
    (hx : x ∈ t.pool.books.active) :
    x ∈ p.books.active ∨ ∃ h, Move.issued? ⟨p, e, t⟩ = some h ∧ h.toEntry = x := by
  obtain ⟨ds, hv⟩ := Move.exists_doneBy (responds_of_respond ht)
  have all := hv.path.keeps (I := fun ds c => ∀ x ∈ c.books.active,
    x ∈ p.books.active ∨ ∃ h ∈ ds.filterMap Deed.issued?, h.toEntry = x)
    (fun {m ds c d c'} hs hd x hx => ?_) (fun x hx => .inl hx)
  · rw [hv.issued] at all
    refine (all x hx).imp_right fun ⟨h, hh, same⟩ => ⟨h, Option.mem_toList.1 hh, same⟩
  · rw [List.filterMap_append, Deed.filterMap_singleton]
    rcases hd.active hx with hx | ⟨h, issued, same⟩
    · exact (hs x hx).imp_right fun ⟨h, hh, same⟩ => ⟨h, List.mem_append_left _ hh, same⟩
    · exact .inr ⟨h, List.mem_append_right _ (Option.mem_toList.2 issued), same⟩

end Pool

/-! ## Changes of the data source -/

/-- The candidate of an acquisition that does some work, if it has one. -/
def Work.candidate? : Work → Option Entry
  | .reclaim _ e _ | .examine _ e _ | .prepare _ e | .discard _ e => some e
  | _ => none

/-- The candidate of the acquisition that holds the lock, if there is one. -/
def Pool.candidate? (p : Pool) : Option Entry :=
  p.holder.bind fun q => q.2.candidate?

/-- In a turn, the holder of the lock changes the data source. -/
def Move.Redirects (v : Move) : Prop :=
  ∃ s m change, v.event = .resume v.caller s m ∧
    v.before.holder = some (v.caller, .begin (.reset (.redirect change)))

namespace Pool

variable {p : Pool} {e : Event} {t : Turn}

theorem standing_of_candidate? (p : Pool) {x : Entry} (hx : x ∈ p.candidate?.toList) :
    x ∈ p.custody.hand.standing := by
  obtain ⟨⟨i, w⟩, holds, candidate⟩ := Option.bind_eq_some_iff.1 (Option.mem_toList.1 hx)
  rw [hand_of_holder holds]
  cases w <;> cases candidate <;> exact List.mem_singleton_self _

/-- The data source changes in no other turns. -/
theorem source_of_respond (ht : p.respond e = some t) :
    t.pool.books.source = p.books.source ∨ Move.Redirects ⟨p, e, t⟩ := by
  obtain books | ⟨m, w, s, x, goes⟩ := (responds_of_respond ht).books
  · exact .inl (congrArg Books.source books)
  · obtain same | ⟨change, rfl⟩ := goes.sequel.remains.source
    · exact .inl same
    · exact .inr ⟨s, m, change, goes.event, goes.holds⟩

/-- When the data source is changed, no connection is left but those that are to be closed. -/
theorem origins_of_redirects (ht : p.respond e = some t) (h : Move.Redirects ⟨p, e, t⟩) :
    t.pool.custody.origins = [] := by
  obtain ⟨s, m, change, event, holds⟩ := h
  generalize Move.caller ⟨p, e, t⟩ = i at event holds
  obtain rfl : e = .resume i s m := event
  obtain ⟨x, goes⟩ := (responds_of_respond ht).continues holds
  obtain ⟨q, -, after⟩ := goes.after
  have hand : t.pool.hand = x.hand := by
    change (Move.after ⟨p, .resume i s m, t⟩).hand = x.hand
    rw [after, hand_ended]
  have sequel : p.Sequel m (.begin (.reset (.redirect change))) s t.pool.books x := goes.sequel
  rw [Custody.origins, show t.pool.custody.hand = x.hand from hand,
    show t.pool.custody.books = t.pool.books from rfl]
  generalize t.pool.books = b at sequel
  cases sequel with
  | refused refuses => cases refuses
  | @reset r b' x accepted clears =>
    generalize b'.entries = rest at clears
    cases clears <;> rfl

end Pool

/-! ## Runs -/

namespace Run

/-- A connection was opened by the factory, under some number, when it was asked for one with
    exactly this data source. -/
def OpenedWith (r : Run) (o : ConnectionId × Physical) (source : DataSource) : Prop :=
  ∃ later v between u earlier, r.moves = later ++ v :: (between ++ u :: earlier) ∧
    v.opened? = some o ∧ u.asked? = some (.connect source) ∧ u.caller = v.caller ∧
    ∀ x ∈ between, x.caller ≠ v.caller

variable {id : PoolId} {source : DataSource} {policy : Policy} {r : Run} {e : Event} {t : Turn}
  {o : ConnectionId × Physical}

theorem OpenedWith.move {s : DataSource} (h : r.OpenedWith o s) : (r.move e t).OpenedWith o s := by
  obtain ⟨later, v, between, u, earlier, split, rest⟩ := h
  exact ⟨⟨r.pool, e, t⟩ :: later, v, between, u, earlier, congrArg _ split, rest⟩

namespace Of

/-- A connection arrives when the data source is still the one for which it was asked. -/
theorem openedWith_of_opened (h : Of (.opened id source policy) r) (ht : r.pool.respond e = some t)
    (opened : Move.opened? ⟨r.pool, e, t⟩ = some o) :
    (r.move e t).OpenedWith o t.pool.books.source := by
  obtain ⟨s, m, a, lookedAt, event, holds⟩ := Move.exists_of_opened? opened
  obtain ⟨between, u, earlier, work⟩ := h.exists_atWork holds fun _ => Work.noConfusion
  obtain ⟨m', w', s', begun⟩ := work.begun
  have asked : u.asked? = some (.connect r.pool.books.source) := by
    rw [begun.asked?_work, show u.after.books = r.pool.books from congrArg Custody.books work.custody]
    rfl
  -- Since it was asked for, only its own call has held the lock, which does not change the data
  -- source.
  have same : t.pool.books.source = r.pool.books.source := by
    obtain same | ⟨_, _, change, _, holds'⟩ := Pool.source_of_respond ht
    · exact same
    · cases holds.symm.trans holds'
  rw [same]
  exact ⟨[], ⟨r.pool, e, t⟩, between, u, earlier, congrArg _ work.split, opened, asked, work.caller,
    fun x hx => (work.others x hx).1⟩

/-- All connections but those that a reset is to close were opened with the data source as it is. -/
theorem openedWith (h : Of (.opened id source policy) r) (ho : o ∈ r.pool.custody.origins) :
    r.OpenedWith o r.pool.books.source := by
  induction h with
  | start => cases ho
  | @move r e t h ht ih =>
    obtain same | redirects := Pool.source_of_respond ht
    · obtain old | new := Pool.mem_origins_of_respond ht ho
      · rw [pool_move, same]
        exact (ih old).move
      · exact h.openedWith_of_opened ht new
    · rw [pool_move, Pool.origins_of_redirects ht redirects] at ho
      cases ho

/-- After a change of the data source, all connections but those that a reset is to close have been
    opened later. -/
theorem opened_later (h : Of (.opened id source policy) r) {later before : List Move} {v : Move}
    (split : r.moves = later ++ v :: before) (redirects : v.Redirects)
    (ho : o ∈ r.pool.custody.origins) : ∃ u ∈ later, u.opened? = some o := by
  induction h generalizing later with
  | start => cases ho
  | @move r e t h ht ih =>
    rw [moves_move] at split
    cases later with
    | nil =>
      injection split with last _
      subst last
      rw [pool_move, Pool.origins_of_redirects ht redirects] at ho
      cases ho
    | cons u later =>
      injection split with last split
      obtain old | new := Pool.mem_origins_of_respond ht ho
      · obtain ⟨w, hw, opened⟩ := ih split old
        exact ⟨w, List.mem_cons_of_mem _ hw, opened⟩
      · exact ⟨u, List.mem_cons_self, last ▸ new⟩

/-- What is handed out after a change of the data source has been opened after it. -/
theorem opened_of_issued (h : Of (.opened id source policy) r) {later before : List Move}
    {v : Move} (split : r.moves = later ++ v :: before) (redirects : v.Redirects) {u : Move}
    (hu : u ∈ later) {y : Handle} (issued : u.issued? = some y) :
    ∃ w ∈ later, w.opened? = some (y.id, y.physical) := by
  obtain ⟨r₀, after, between, h₀, ht, same, moves, split', -⟩ :=
    h.upto split (List.mem_append_left _ hu)
  have there : (y.id, y.physical) ∈ u.turn.pool.custody.origins := by
    obtain ⟨m, w, s, x, -, lends⟩ := (Pool.responds_of_respond ht).lends (same ▸ issued)
    exact Custody.mem_origins.2 ⟨y.toEntry, .inr (.inl lends.mem_active), rfl⟩
  obtain ⟨w, hw, opened⟩ := (h₀.move ht).opened_later split' redirects there
  have upto : later = after ++ between := by
    rw [split', split, ← List.append_assoc] at moves
    exact List.append_cancel_right moves
  exact ⟨w, upto ▸ List.mem_append_right _ hw, opened⟩

/-- No number is given twice. -/
theorem numbers_ne (h : Of (.opened id source policy) r) {later before : List Move}
    (split : r.moves = later ++ before) {u v : Move} (hu : u ∈ later) (hv : v ∈ before)
    {o o' : ConnectionId × Physical} (ho : u.opened? = some o) (ho' : v.opened? = some o') :
    o'.1 ≠ o.1 := by
  have numbers : (r.opened.map Prod.fst).Nodup := by
    simpa only [List.map_reverse, List.nodup_reverse] using h.sound.numbers
  rw [opened, split, List.filterMap_append, List.map_append, List.nodup_append] at numbers
  have first : o.1 ∈ (later.filterMap Move.opened?).map Prod.fst :=
    List.mem_map_of_mem (List.mem_filterMap.2 ⟨u, hu, ho⟩)
  have second : o'.1 ∈ (before.filterMap Move.opened?).map Prod.fst :=
    List.mem_map_of_mem (List.mem_filterMap.2 ⟨v, hv, ho'⟩)
  exact (numbers.2.2 o.1 first o'.1 second).symm

/-- The books agree with the data source. -/
theorem settled (h : Of (.opened id source policy) r) : r.pool.custody.Settled := by
  obtain ⟨ds, hr⟩ := h.exists_doneBy
  refine hr.path.keeps (I := fun _ c => c.Settled) (fun hs hd => hs.step hd) ?_
  exact ⟨rfl, fun e he => absurd he List.not_mem_nil, fun _ _ has => by cases has⟩

/-- What is leased has been handed out with a signature that agrees with the data source as it is. -/
theorem signature_of_active (h : Of (.opened id source policy) r) {x : Entry}
    (hx : x ∈ r.pool.books.active) :
    ∃ v ∈ r.moves, ∃ y l, v.issued? = some y ∧ y.toEntry = x ∧ r.Acquires v.caller l ∧
      x.signature = l.signature r.pool.books.source := by
  induction h with
  | start => cases hx
  | @move r e t h ht ih =>
    obtain old | ⟨y, issued, rfl⟩ := Pool.mem_active_of_respond ht hx
    · obtain ⟨v, hv, y, l, issued, same, ⟨u, hu, began⟩, signature⟩ := ih old
      refine ⟨v, List.mem_cons_of_mem _ hv, y, l, issued, same,
        ⟨u, List.mem_cons_of_mem _ hu, began⟩, ?_⟩
      obtain unchanged | redirects := Pool.source_of_respond ht
      · rw [signature, pool_move, unchanged]
      · -- Nothing is leased when the data source has just been changed.
        have gone : (x.id, x.physical) ∈ t.pool.custody.origins :=
          Custody.mem_origins.2 ⟨x, .inr (.inl hx), rfl⟩
        rw [Pool.origins_of_redirects ht redirects] at gone
        cases gone
    · obtain ⟨l, ⟨u, hu, began⟩, signature⟩ := h.signature_of_issued ht issued
      exact ⟨_, List.mem_cons_self, y, l, issued, rfl, ⟨u, List.mem_cons_of_mem _ hu, began⟩,
        signature⟩

end Of

/-- No connection outlives the data source that it was opened with. -/
structure UpToDate (r : Run) : Prop where
  expected : r.pool.books.expected = r.pool.books.source.signature
  /-- What is idle or leased, and the candidate of an acquisition, was opened by the factory with
      exactly the data source as it is. -/
  opened : ∀ x ∈ r.pool.books.idle ++ r.pool.books.active ++ r.pool.candidate?.toList,
    r.OpenedWith (x.id, x.physical) r.pool.books.source
  idle : ∀ x ∈ r.pool.books.idle, x.signature = r.pool.books.expected
  /-- What is leased has been handed out by an acquisition, and bears the signature of the data
      source, as it is, for the user for whom that was called. -/
  active : ∀ x ∈ r.pool.books.active, ∃ v ∈ r.moves, ∃ y l, v.issued? = some y ∧ y.toEntry = x ∧
    r.Acquires v.caller l ∧ x.signature = l.signature r.pool.books.source
  /-- The data source is changed by calls to change it, and by nothing else. -/
  changed : ∀ v ∈ r.moves, v.after.books.source = v.before.books.source ∨ v.Redirects
  /-- What is handed out after a change of the data source has been opened after it. -/
  renewed : ∀ later v before, r.moves = later ++ v :: before → v.Redirects →
    ∀ u ∈ later, ∀ y, u.issued? = some y →
      (∃ w ∈ later, w.opened? = some (y.id, y.physical)) ∧
        ∀ w ∈ v :: before, ∀ o, w.opened? = some o → o.1 ≠ y.id

end Run

/-- In every run, no connection outlives the data source that it was opened with. -/
theorem Pool.up_to_date (id : PoolId) (source : DataSource) (policy : Policy)
    (events : List Event) : ((opened id source policy).run events).UpToDate := by
  have h := (opened id source policy).of_run events
  generalize (opened id source policy).run events = r at h
  refine ⟨h.settled.expected, fun x hx => ?_, h.settled.idle, fun x hx => h.signature_of_active hx,
    fun v hv => ?_, ?_⟩
  · refine h.openedWith (Custody.mem_origins.2 ⟨x, ?_, rfl⟩)
    rw [List.mem_append, List.mem_append, or_assoc] at hx
    exact hx.imp_right (.imp_right r.pool.standing_of_candidate?)
  · obtain ⟨later, before, split⟩ := List.append_of_mem hv
    obtain ⟨r₀, -, ht, same, -, -⟩ := h.exists_upto split
    rw [same]
    exact Pool.source_of_respond ht
  · -- What is handed out after the change was opened after it, and so it is none of those opened
    -- before.
    intro later v before split redirects u hu y issued
    obtain ⟨w, hw, opened⟩ := h.opened_of_issued split redirects hu issued
    exact ⟨⟨w, hw, opened⟩, fun w' hw' o ho => h.numbers_ne split hw hw' opened ho⟩

end LeasePool
