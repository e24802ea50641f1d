import LeasePool.Proofs.Holder
import LeasePool.Proofs.Whereabouts

/-!
# Connections that are given up

A connection that the pool gives up is closed already, or the pool closes it: the call that gives
it up asks it to close in the same turn, a reset after it has rolled it back, and the candidate of
an acquisition that is dropped is closed by an errand. As long as no release and no reset is
dropped, nothing but that is still to be done for the connections that have been given up
(`Pool.Owes`).

* `Pool.Sequel.keeps`: what a turn of the holder of the lock does not keep, it gives up rightly;
* `Run.Of.disposed_or_owes`: what becomes of a connection that has been given up;
* `Pool.loses_none`: where all connections are when the lock is free and nobody is runnable.
-/

namespace LeasePool

open scoped List

/-! ## Turns of the holder of the lock -/

/-- The connections in the books, with their numbers. -/
def Books.names (b : Books) : List (ConnectionId × Physical) := b.entries.map Entry.name

theorem Custody.names_eq (c : Custody) : c.names = c.books.names ++ c.hand.held.map Entry.name := by
  rw [names, present, List.map_append, Books.names, Books.entries]

/-- At the end of a turn, a connection may be given up that is closed, or that is asked to close
    in this turn or by a reset, when it has been rolled back. -/
inductive Ending.Gives (m : Moment) (c : Physical) : Ending → Prop
  | gone {x : Ending} (closed : m.isClosed c = true) : Gives m c x
  | closes {w : Work} (asks : ∀ source, w.request? source = some (.close c)) : Gives m c (.work w)
  | undoes {e : Entry} {rest : List Entry} (same : e.physical = c) :
      Gives m c (.work (.resetUndo e rest))

/-- In a turn that goes on with some work, a connection may be given up that is closed. An
    acquisition gives up no other candidate but one that has failed its test, or that could not be
    rolled back. -/
inductive Work.Gives (m : Moment) (c : Physical) : Work → Signal → Ending → Prop
  | gone {w : Work} {s : Signal} {x : Ending} (closed : m.isClosed c = true) : Gives m c w s x
  | tested {a : Acquisition} {e : Entry} {k : Checkup} {cause : PoolError} {s : Signal}
      (failed : k.phase = .closing cause) (same : e.physical = c) :
      Gives m c (.examine a e k) s (.work (.discard a.again e))
  | unprepared {a : Acquisition} {e : Entry} {cause : PoolError} (same : e.physical = c) :
      Gives m c (.prepare a e) (.answered (.error cause)) (.work (.discard a.again e))
  | ends {w : Work} {s : Signal} {x : Ending} (other : w.purpose ≠ .acquire) (gives : x.Gives m c) :
      Gives m c w s x

theorem Work.Gives.ending {m : Moment} {c : Physical} {w : Work} {s : Signal} {x : Ending}
    (h : w.Gives m c s x) : x.Gives m c := by
  cases h with
  | gone closed => exact .gone closed
  | tested failed same => exact .closes fun _ => by rw [← same]; rfl
  | unprepared same => exact .closes fun _ => by rw [← same]; rfl
  | ends other gives => exact gives

/-- All of the connections `l` are there after a turn, but those that may have been given up. -/
def Kept (given : ConnectionId × Physical → Prop) (l : List (ConnectionId × Physical)) (b : Books)
    (x : Ending) : Prop :=
  ∀ o ∈ l, o ∈ b.names ∨ o ∈ x.hand.held.map Entry.name ∨ given o

section Kept

variable {m : Moment} {given given' : ConnectionId × Physical → Prop}
  {l l' : List (ConnectionId × Physical)} {b b' : Books} {x : Ending} {e : Entry}
  {a : Acquisition} {g : Generations}

theorem Kept.mono (h : Kept given l b x) (sub : l' ⊆ l) : Kept given l' b x :=
  fun o ho => h o (sub ho)

theorem Kept.weaken (h : Kept given l b x) (le : ∀ o, given o → given' o) : Kept given' l b x :=
  fun o ho => (h o ho).imp_right (Or.imp_right (le o))

theorem Kept.cons {o : ConnectionId × Physical}
    (h : o ∈ b.names ∨ o ∈ x.hand.held.map Entry.name ∨ given o) (tail : Kept given l b x) :
    Kept given (o :: l) b x := by
  rw [Kept, List.forall_mem_cons]
  exact ⟨h, tail⟩

theorem kept_names (b : Books) (x : Ending) : Kept given b.names b x := fun _ ho => .inl ho

theorem Books.names_of_takeIdle? (h : b.takeIdle? = some (e, b')) :
    b.names ⊆ e.name :: b'.names := by
  obtain ⟨rest, hi, rfl⟩ := takeIdle?_eq_some h
  intro o ho
  simp only [names, entries, hi, List.map_append, List.map_cons, List.mem_append,
    List.mem_cons] at ho ⊢
  tauto

theorem Books.names_of_claimOverdue? {now : Instant} (h : b.claimOverdue? now = some (e, b')) :
    b.names ⊆ e.name :: b'.names := by
  obtain ⟨rest, counters, ha, -, rfl⟩ := claimOverdue?_eq_some h
  simp [names, entries, ha]

theorem Books.names_of_removeActive? {i : ConnectionId} {generation : Nat}
    (h : b.removeActive? i generation = some (e, b')) : b.names ⊆ e.name :: b'.names := by
  obtain ⟨before, later, ha, -, -, rfl⟩ := removeActive?_eq_some h
  intro o ho
  simp only [names, entries, ha, List.map_append, List.map_cons, List.mem_append,
    List.mem_cons] at ho ⊢
  tauto

theorem Books.names_lease (b : Books) (e : Entry) (d : Duration) :
    e.name :: b.names ⊆ (b.lease e d).names := by
  intro o ho
  simp only [names, entries, lease, List.map_append, List.map_cons, List.map_nil, List.mem_append,
    List.mem_cons, List.not_mem_nil, or_false] at ho ⊢
  tauto

theorem Books.names_keep (b : Books) (e : Entry) : e.name :: b.names ⊆ (b.keep e).names := by
  intro o ho
  simp only [names, entries, keep, List.map_append, List.map_cons, List.map_nil, List.mem_append,
    List.mem_cons, List.not_mem_nil, or_false] at ho ⊢
  tauto

theorem Books.names_countWaitOf (b : Books) (a : Acquisition) :
    (b.countWaitOf a).names = b.names := by
  by_cases hw : a.hasWaited <;> simp only [countWaitOf, hw] <;> rfl

namespace Acquisition

theorem Refuses.kept (h : a.Refuses m e b b' x) (bad : given e.name) :
    Kept given (e.name :: b.names) b' x := by
  refine .cons (.inr (.inr bad)) ?_
  cases h <;> exact kept_names b _

theorem Accepts.kept (h : a.Accepts m e b b' x) : Kept given (e.name :: b.names) b' x := by
  cases h with
  | lease pool commits =>
    exact (kept_names _ _).mono (b.names_lease (e.stamped a b.source m.now) _)
  | prepare uncommitted =>
    exact .cons (.inr (.inl (List.mem_singleton_self _))) (kept_names b _)

/-- A candidate that is current is not given up before its test, unless it is closed. -/
theorem Examines.kept (h : a.Examines m e b g b' x) (current : e.isCurrent g = true)
    (gone : ∀ o, m.isClosed o.2 = true → given o) : Kept given (e.name :: b.names) b' x := by
  cases h with
  | test query => exact .cons (.inr (.inl (List.mem_singleton_self _))) (kept_names b _)
  | accept accepts => exact accepts.kept
  | refuse bad refuses => exact refuses.kept (gone e.name (bad current))

/-- A look at the books gives up only what is closed, if the idle connections are current. -/
theorem Looks.kept (h : a.Looks m b g b' x) (current : ∀ e ∈ b.idle, e.isCurrent g = true)
    (gone : ∀ o, m.isClosed o.2 = true → given o) : Kept given b.names b' x := by
  cases h with
  | @take e b₁ b' x found examines =>
    obtain ⟨rest, idle, -⟩ := Books.takeIdle?_eq_some found
    have front : e ∈ b.idle := idle ▸ List.mem_cons_self
    exact (examines.kept (current e front) gone).mono (Books.names_of_takeIdle? found)
  | connect none_idle room => exact kept_names b _
  | reclaim none_idle full overdue uncommitted =>
    exact (Kept.cons (.inr (.inl (List.mem_singleton_self _))) (kept_names b' _)).mono
      (Books.names_of_claimOverdue? overdue)
  | @claim e b₁ b' x none_idle full overdue commits examines =>
    have renewed : Kept given (e.name :: b₁.names) b' x :=
      examines.kept (Entry.isCurrent_iff.2 rfl) gone
    exact renewed.mono (Books.names_of_claimOverdue? overdue)
  | timeOut none_idle full none_overdue elapsed =>
    exact fun o ho => .inl (b.names_countWaitOf a ▸ ho)
  | sleep none_idle full none_overdue time => exact fun o ho => .inl (b.names_countWaitOf a ▸ ho)

end Acquisition

theorem Entry.Undone.kept {keep : Bool} {returnedAt : Instant} {result : Except PoolError Unit}
    (h : e.Undone b keep returnedAt result b' x) :
    Kept (fun o => x.Gives m o.2) (e.name :: b.names) b' x := by
  cases h with
  | fail cause => exact .cons (.inr (.inr (.closes fun _ => rfl))) (kept_names b _)
  | @keep g kept =>
    exact (kept_names _ _).mono (b.names_keep { e.renewed g with lastUsedAt := returnedAt })
  | giveUp left => exact .cons (.inr (.inr (.closes fun _ => rfl))) (kept_names b _)

theorem Entry.Returned.kept (h : e.Returned m b b' x) :
    Kept (fun o => x.Gives m o.2) (e.name :: b.names) b' x := by
  cases h with
  | gone closed => exact .cons (.inr (.inr (.gone closed))) (kept_names b _)
  | undo is_open uncommitted =>
    exact .cons (.inr (.inl (List.mem_singleton_self _))) (kept_names b _)
  | commit is_open commits undone => exact undone.kept

/-- A reset gives up a connection when it asks to roll it back or to close it, and keeps the rest in
    hand. -/
theorem Reset.Clears.kept {rest : List Entry} (h : Reset.Clears m rest x) (b : Books) :
    Kept (fun o => x.Gives m o.2) (rest.map Entry.name) b x := by
  have later {e : Entry} {rest : List Entry} {w : Work} (has : w.hand = .clearing e rest) :
      Kept (fun o => Ending.Gives m o.2 (.work w)) (rest.map Entry.name) b (.work w) := by
    refine fun o ho => .inr (.inl ?_)
    simpa [Ending.hand, has] using ho
  cases h with
  | done => exact fun o ho => absurd ho List.not_mem_nil
  | undo uncommitted => exact .cons (.inr (.inr (.undoes rfl))) (later rfl)
  | close commits => exact .cons (.inr (.inr (.closes fun _ => rfl))) (later rfl)

end Kept

/-- What a call has in hand that is neither a release nor a reset is guarded against its being
    dropped. -/
theorem Work.guarded?_of_held {w : Work} {e : Entry} (he : e ∈ w.hand.held)
    (other : w.purpose ≠ .release ∧ w.purpose ≠ .reset) : w.guarded? = some e := by
  cases w with
  | reclaim a e' lookedAt | examine a e' c | prepare a e' =>
    exact congrArg some (List.mem_singleton.1 he).symm
  | undo | close => exact absurd rfl other.1
  | resetUndo | resetClose => exact absurd rfl other.2
  | _ => cases he

namespace Pool

variable {p : Pool} {m : Moment} {w : Work} {s : Signal} {b : Books} {x : Ending} {e : Event}
  {t : Turn} {c : Physical}

/-- Every connection that was in the books or in hand, or that is received in a turn, is there
    after it, unless it has been given up rightly. -/
theorem Sequel.keeps (h : p.Sequel m w s b x) {hs : List Handle}
    {os : List (ConnectionId × Physical)} (sound : Custody.Sound hs os p.custody) :
    Kept (fun o => w.Gives m o.2 s x)
      (((w.received? s).map fun c => (p.nextConnection, c)).toList ++
        (p.books.names ++ w.hand.held.map Entry.name)) b x := by
  -- What is in hand comes first in the lists of the lemmas above.
  have first {given : ConnectionId × Physical → Prop} {l : List (ConnectionId × Physical)}
      {o : ConnectionId × Physical} (h : Kept given (o :: l) b x) : Kept given (l ++ [o]) b x :=
    h.mono fun y hy => by simpa [or_comm] using hy
  have alone {given : ConnectionId × Physical → Prop} {l : List (ConnectionId × Physical)}
      (h : Kept given l b x) : Kept given (l ++ []) b x := by
    rwa [List.append_nil]
  have ends {l : List (ConnectionId × Physical)} (kept : Kept (fun o => x.Gives m o.2) l b x)
      (other : w.purpose ≠ .acquire) : Kept (fun o => w.Gives m o.2 s x) l b x :=
    kept.weaken fun _ => .ends other
  have idle : ∀ e ∈ p.books.idle, e.isCurrent p.generations = true := fun e he =>
    sound.current e (Custody.mem_present.2 (.inr (.inl he)))
  cases h with
  | look looks => exact alone (looks.kept idle fun _ => .gone)
  | awaken looks => exact alone (looks.kept idle fun _ => .gone)
  | takeBack found current returned =>
    exact alone (ends (returned.kept.mono (Books.names_of_removeActive? found)) Purpose.noConfusion)
  | misplaced found old =>
    cases old.symm.trans (sound.current_of_removeActive? found)
  | @reset r b' x accepted clears =>
    obtain ⟨idle, active, -⟩ := Reset.apply_eq_ok accepted
    refine alone (ends ((clears.kept _).mono ?_) Purpose.noConfusion)
    rw [Books.names, Books.entries, Books.entries, idle, active]
    exact List.Subset.refl _
  | opened examines =>
    have fresh : p.generations.current p.nextConnection = 0 := sound.unused _ (Nat.le_refl _)
    refine (examines.kept (Entry.isCurrent_iff.2 fresh) fun _ => .gone).mono ?_
    rw [show (Work.connect _ _).hand.held = [] from rfl, List.map_nil, List.append_nil]
    exact List.Subset.refl _
  | reclaimed examines =>
    exact first (examines.kept (Entry.isCurrent_iff.2 rfl) fun _ => .gone)
  | probed phase uncommitted =>
    exact first (.cons (.inr (.inl (List.mem_singleton_self _))) (kept_names _ _))
  | failing phase =>
    exact first (.cons (.inr (.inl (List.mem_singleton_self _))) (kept_names _ _))
  | passed phase accepts => exact first accepts.kept
  | failed phase refuses =>
    refine first (refuses.kept ?_)
    cases refuses with
    | gone closed retries => exact .gone closed
    | discard is_open => exact .tested phase rfl
  | @prepared a e pool =>
    exact first ((kept_names _ _).mono (p.books.names_lease (e.stamped a p.books.source m.now) _))
  | unprepared refuses =>
    refine first (refuses.kept ?_)
    cases refuses with
    | gone closed retries => exact .gone closed
    | discard is_open => exact .unprepared rfl
  | undone undone => exact first (ends undone.kept Purpose.noConfusion)
  | @resetUndone e rest =>
    intro o (ho : o ∈ p.books.names ++ (Hand.clearing e rest).held.map Entry.name)
    exact (List.mem_append.1 ho).imp_right .inl
  | @resetClosed e rest _ _ clears =>
    intro o (ho : o ∈ p.books.names ++ (Hand.clearing e rest).held.map Entry.name)
    refine (List.mem_append.1 ho).elim .inl fun ho => ?_
    exact ends (clears.kept p.books) Purpose.noConfusion o (by simpa using ho)
  | _ => exact alone (kept_names _ _)

/-- What is given up in a turn of the holder of the lock is given up rightly. -/
theorem gives_of_continues (h : Move.Continues ⟨p, e, t⟩ m w s x) {hs : List Handle}
    {os : List (ConnectionId × Physical)} (sound : Custody.Sound hs os p.custody)
    {o : ConnectionId × Physical} (ho : o ∈ Move.discarded ⟨p, e, t⟩) : w.Gives m o.2 s x := by
  obtain ⟨before, gone⟩ := Move.mem_discarded.1 ho
  change o ∉ t.pool.custody.names at gone
  change _ ∨ o ∈ p.custody.names at before
  have hand : t.pool.custody.hand = x.hand := h.hand_eq
  have held : p.custody.hand = w.hand := hand_of_holder h.holds
  have sequel : p.Sequel m w s t.pool.books x := h.sequel
  have all : o ∈ ((w.received? s).map fun c => (p.nextConnection, c)).toList ++
      (p.books.names ++ w.hand.held.map Entry.name) := by
    rw [← held, List.mem_append, Option.mem_toList]
    refine before.imp (fun received => h.opened?_eq ▸ received) fun there => ?_
    rwa [Custody.names_eq] at there
  rw [Custody.names_eq, List.mem_append, not_or] at gone
  obtain there | there | gives := sequel.keeps sound o all
  · exact absurd there gone.1
  · exact absurd (hand.symm ▸ there) gone.2
  · exact gives

/-! ## All turns -/

/-- The pool is still going to ask a connection to close that it has given up. -/
inductive Owes (p : Pool) (c : Physical) : Prop
  /-- A reset rolls it back first. -/
  | undoes {i : CallId} {e : Entry} {rest : List Entry}
      (holds : p.holder = some (i, .resetUndo e rest)) (same : e.physical = c) : Owes p c
  /-- An errand is going to close it. -/
  | errand {i : CallId} (waits : (i, .discard c false) ∈ p.errands) : Owes p c

theorem lookup_of_mem {α : Type} {l : List (CallId × α)} {i : CallId} {a : α}
    (once : (l.map Prod.fst).Nodup) (ha : (i, a) ∈ l) : l.lookup i = some a := by
  obtain ⟨before, later, rfl⟩ := List.append_of_mem ha
  refine List.lookup_eq_some_iff.2 ⟨before, later, rfl, fun q hq => ?_⟩
  rw [List.map_append, List.map_cons, List.nodup_append] at once
  exact bne_iff_ne.2 (once.2.2 q.1 (List.mem_map_of_mem hq) i List.mem_cons_self).symm

theorem CallsOnce.lookup_errands (once : p.CallsOnce) {i : CallId} {q : Errand}
    (hq : (i, q) ∈ p.errands) : p.errands.lookup i = some q :=
  lookup_of_mem (List.nodup_append.1 once.once).2.1 hq

/-- An errand that closes a connection stays as it is, unless it has its turn. -/
theorem Responds.errand_stays (h : p.Responds e t) (once : p.CallsOnce) {i : CallId} {begun : Bool}
    (runs : (i, .discard c begun) ∈ p.errands) :
    (i, .discard c begun) ∈ t.pool.errands ∨
      ∃ s m, e = .resume i s m ∧ p.turn.advanceErrand i (.discard c begun) s = some t := by
  have found := once.lookup_errands runs
  have remains {j : CallId} (other : i ≠ j) :
      (i, .discard c begun) ∈ p.errands.filter fun q => q.1 != j :=
    List.mem_filter.2 ⟨runs, bne_iff_ne.2 other⟩
  cases h with
  | enter ns intent => exact .inl (by rw [errands_lock]; exact runs)
  | decline ns e => exact .inl runs
  | send request =>
    have given : i < p.nextCall := once.numbered i (by simp [calls, mem_map_of_lookup found])
    exact .inl (List.mem_append_left _ (remains (Nat.ne_of_lt given)))
  | goOn holds h =>
    obtain ⟨x, continues⟩ := Move.exists_continues holds h
    have same : t.pool.errands = p.errands := errands_of_continues continues
    exact .inl (same ▸ runs)
  | relock elsewhere found => exact .inl (by rw [Turn.relock, errands_lock]; exact runs)
  | getUp elsewhere found due => exact .inl (by rw [Turn.relock, errands_lock]; exact runs)
  -- Each call runs one errand, so the turn of another call leaves this one alone.
  | @errand j s m x t elsewhere found' h =>
    by_cases same : i = j
    · subst same
      obtain rfl := Option.some.inj (found.symm.trans found')
      exact .inr ⟨s, m, rfl, h⟩
    · refine .inl ?_
      unfold Turn.advanceErrand at h
      split at h <;> cases h
      · exact List.mem_append_left _ (remains same)
      all_goals exact remains same
  | @cut j w holds =>
    obtain ⟨q, dropped, -, -, -, -, errands⟩ := p.exists_dropWork w
    refine .inl ?_
    rw [dropped, errands_passLock, errands]
    exact List.mem_append_left _ runs
  | @withdraw j intent elsewhere found => exact .inl (by cases intent <;> exact runs)
  | desert elsewhere found => exact .inl runs
  | @forget j request elsewhere found' =>
    refine .inl (remains fun same => ?_)
    subst same
    cases found.symm.trans found'

/-- An errand that is going to close a connection remains, or it begins to close it. -/
theorem Responds.errand_waits (h : p.Responds e t) (once : p.CallsOnce) {i : CallId}
    (waits : (i, .discard c false) ∈ p.errands) :
    (i, .discard c false) ∈ t.pool.errands ∨ Move.asked? ⟨p, e, t⟩ = some (.close c) := by
  have once' : t.pool.CallsOnce := once.follows (follows_of_responds h)
  obtain stays | ⟨s, m, rfl, goes⟩ := h.errand_stays once waits
  · exact .inl stays
  · refine .inr ?_
    cases s with
    | proceed =>
      cases goes
      exact asking?_of_errand once' (once'.lookup_errands
        (List.mem_append_right _ (List.mem_singleton_self _)))
    | _ => cases goes

/-- What the pool still has to ask a connection, it asks in the end, unless a reset is dropped. -/
theorem Owes.respond (h : p.Owes c) (ht : p.respond e = some t) (once : p.CallsOnce)
    (kept : Move.interrupts ⟨p, e, t⟩ = false) :
    t.pool.Owes c ∨ Move.asked? ⟨p, e, t⟩ = some (.close c) := by
  have responds := responds_of_respond ht
  cases h with
  | @undoes i e₀ rest holds same =>
    cases responds.affects once with
    | @goesOn m w s x continues =>
      obtain ⟨-, rfl⟩ := holder_unique continues.holds holds
      have sequel : p.Sequel m (.resetUndo e₀ rest) s t.pool.books x := continues.sequel
      generalize t.pool.books = b at sequel
      cases sequel
      exact .inr (same ▸ continues.asked?_work)
    | dropped event holds' turn =>
      obtain ⟨rfl, rfl⟩ := holder_unique holds' holds
      simp [Move.interrupts, event, holds, Work.purpose] at kept
    | aside other custody holder sleepers => exact .inl (.undoes (holder _ _ holds) same)
  | errand waits => exact (responds.errand_waits once waits).imp_left .errand

/-- When a call is dropped that is neither a release nor a reset, what it gives up is left to an
    errand. -/
theorem errand_of_discarded {i : CallId} (holds : p.holder = some (i, w))
    (other : w.purpose ≠ .release ∧ w.purpose ≠ .reset) {o : ConnectionId × Physical}
    (ho : o ∈ Move.discarded ⟨p, .drop i, p.turn.dropWork w⟩) :
    (p.nextCall, .discard o.2 false) ∈ (p.turn.dropWork w).pool.errands := by
  -- A dropped call opens nothing and changes no books, so it is the guarded entry in hand that is
  -- gone.
  obtain ⟨received | there, gone⟩ := Move.mem_discarded.1 ho
  · cases received
  change o ∈ p.custody.names at there
  change o ∉ (p.turn.dropWork w).pool.custody.names at gone
  obtain ⟨q, dropped, books, -, -, -, errands⟩ := p.exists_dropWork w
  have same : (p.turn.dropWork w).pool.books = p.books := by
    rw [dropped, books_passLock, books]
  rw [Custody.names_eq, List.mem_append] at there gone
  rw [not_or] at gone
  obtain there | there := there
  · exact absurd (show o ∈ (p.turn.dropWork w).pool.books.names from same ▸ there) gone.1
  · obtain ⟨e, he, rfl⟩ := List.mem_map.1 there
    have guarded : w.guarded? = some e := Work.guarded?_of_held (hand_of_holder holds ▸ he) other
    rw [dropped, errands_passLock, errands, Work.orphan?, guarded]
    exact List.mem_append_right _ (List.mem_singleton_self _)

/-- What a turn gives up is closed, or the pool asks it to close at once or is going to, unless
    a release or a reset is dropped. -/
theorem Responds.gives (h : p.Responds e t) (once : p.CallsOnce) {hs : List Handle}
    {os : List (ConnectionId × Physical)} (sound : Custody.Sound hs os p.custody)
    (kept : Move.interrupts ⟨p, e, t⟩ = false) {o : ConnectionId × Physical}
    (ho : o ∈ Move.discarded ⟨p, e, t⟩) :
    t.pool.Owes o.2 ∨ Move.asked? ⟨p, e, t⟩ = some (.close o.2) ∨
      ∃ m, Move.moment? ⟨p, e, t⟩ = some m ∧ m.isClosed o.2 = true := by
  cases h.affects once with
  | goesOn continues =>
    cases (gives_of_continues continues sound ho).ending with
    | gone closed => exact .inr (.inr ⟨_, continues.moment?_eq, closed⟩)
    | closes asks => exact .inr (.inl (continues.asked?_work.trans (asks _)))
    | undoes same => exact .inl (.undoes continues.holder_work same)
  | @dropped i w event holds turn =>
    subst event turn
    refine .inl (.errand (errand_of_discarded holds ?_ ho))
    simpa [Move.interrupts, holds] using kept
  | aside other custody holder sleepers =>
    obtain ⟨received | there, gone⟩ := Move.mem_discarded.1 ho
    · cases (h.silent other).2.symm.trans received
    · exact absurd (show o ∈ t.pool.custody.names from custody ▸ there) gone

/-- Nothing is still to be asked when the lock is free and nobody is runnable. -/
theorem not_owes (once : p.CallsOnce) (free : p.holder = none)
    (idle : ∀ i, p.awaited? i ≠ some .turn) : ¬ p.Owes c := by
  rintro (⟨holds, -⟩ | ⟨waits⟩)
  · cases free.symm.trans holds
  · exact idle _ (awaited?_of_errand once (once.lookup_errands waits))

end Pool

/-! ## Runs -/

namespace Run

/-- A connection is closed when it is given up in a turn, or the pool asks it to close in this
    turn or in a later one. -/
def Disposed (later : List Move) (v : Move) (c : Physical) : Prop :=
  (∃ u ∈ later ++ [v], u.asked? = some (.close c)) ∨
    ∃ m, v.moment? = some m ∧ m.isClosed c = true

variable {id : PoolId} {source : DataSource} {policy : Policy} {r : Run}
  {o : ConnectionId × Physical}

/-- Every connection that has been given up is disposed of, or is still to be, if no release and
    no reset is dropped. -/
theorem Of.disposed_or_owes (h : Of (.opened id source policy) r)
    (uninterrupted : ∀ v ∈ r.moves, v.interrupts = false) {later before : List Move} {v : Move}
    (split : r.moves = later ++ v :: before) (ho : o ∈ v.discarded) :
    r.pool.Owes o.2 ∨ Disposed later v o.2 := by
  induction h generalizing later with
  | start => simp [Run.start] at split
  | @move r e t h ht ih =>
    rw [moves_move] at split uninterrupted
    rw [List.forall_mem_cons] at uninterrupted
    -- It is given up in the last turn, or it was before, and then what was owed is paid in this
    -- turn or still owed.
    cases later with
    | nil =>
      injection split with last _
      subst last
      refine ((Pool.responds_of_respond ht).gives h.callsOnce h.sound uninterrupted.1 ho).imp_right
        (.imp_left fun asked => ⟨_, List.mem_singleton_self _, asked⟩)
    | cons u later =>
      injection split with last split
      have further (u : Move) (hu : u ∈ later ++ [v]) : u ∈ ⟨r.pool, e, t⟩ :: later ++ [v] :=
        List.mem_cons_of_mem _ hu
      subst last
      obtain owes | asked | closed := ih uninterrupted.2 split
      · exact (owes.respond ht h.callsOnce uninterrupted.1).imp_right fun asked =>
          .inl ⟨_, List.mem_cons_self, asked⟩
      · obtain ⟨u, hu, asked⟩ := asked
        exact .inr (.inl ⟨u, further u hu, asked⟩)
      · exact .inr (.inr closed)

/-- No connection is lost. -/
structure LosesNone (r : Run) : Prop where
  /-- The connections that have been opened have different numbers. -/
  numbers : (r.opened.map Prod.fst).Nodup
  /-- They are idle, leased or discarded, each of them once. -/
  places : r.pool.books.idle.map Entry.name ++ r.pool.books.active.map Entry.name ++
    r.discarded ~ r.opened
  /-- What has been discarded was closed by then, or the pool has asked it to close. -/
  disposed : ∀ later v before, r.moves = later ++ v :: before → ∀ o ∈ v.discarded,
    Disposed later v o.2

end Run

/-- If no release and no reset that holds the lock is dropped in a run, no connection is lost:
    whenever the lock is free and nobody is runnable, every connection that the factory has given
    to the pool is in exactly one place. -/
theorem Pool.loses_none (id : PoolId) (source : DataSource) (policy : Policy) (events : List Event)
    (uninterrupted : ∀ v ∈ ((opened id source policy).run events).moves, v.interrupts = false)
    (free : ((opened id source policy).run events).pool.holder = none)
    (idle : ∀ i, ((opened id source policy).run events).pool.awaited? i ≠ some .turn) :
    ((opened id source policy).run events).LosesNone := by
  have h := (opened id source policy).of_run events
  generalize (opened id source policy).run events = r at h uninterrupted free idle
  refine ⟨?_, ?_, fun later v before split o ho => ?_⟩
  · simpa only [List.map_reverse, List.nodup_reverse] using h.sound.numbers
  · -- Nothing is in hand while the lock is free.
    have hand := hand_of_free free
    have names : r.pool.custody.names =
        r.pool.books.active.map Entry.name ++ r.pool.books.idle.map Entry.name := by
      rw [Custody.names_eq, hand, Books.names, Books.entries, List.map_append]
      exact List.append_nil _
    have all := h.whereabouts
    rw [names] at all
    exact (List.perm_append_comm.append_right _).trans all
  · exact (h.disposed_or_owes uninterrupted split ho).resolve_left (not_owes h.callsOnce free idle)

/-- An acquisition is dropped that reclaims the only connection, and an errand closes it. -/
theorem Pool.loses_none_reclaim_dropped :
    ((opened 0 {} .single).run (Event.firstLease ++ Event.beginReclaim 1 ++
      [.drop 1, .resume 2 .proceed (.plain 20 false),
        .resume 2 (.answered (.ok ())) (.plain 20 false)])).LosesNone :=
  loses_none 0 {} .single _ (by decide) rfl fun i h => by cases h

end LeasePool
