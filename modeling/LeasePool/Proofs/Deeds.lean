import LeasePool.Pool.Basic

/-!
# Deeds

What a turn does to the connections of a pool is made up of *deeds*, the smallest changes that a
call makes while it holds the lock: it takes an idle connection, it claims an overdue lease, it
hands out its candidate. This module says what each deed does, once (`Custody.Step`), whatever
the turn that it is part of; `LeasePool.Proofs.Turns` cuts every turn into its deeds. A property
of the connections is kept by all runs if every deed keeps it.

A deed acts on the *custody* of the connections: the books, the generations, the number of the
next connection, and the *hand* of the call that holds the lock, with the connection that it has
taken out of the books or is about to put into them. All connections of a pool are in the books
or in that one hand.

A call that has taken a lease out of the books for good, or emptied the books, ends up *owing*
the sleepers that they are roused.
-/

namespace LeasePool

/-! ## Custody -/

/-- What the call that holds the lock has in hand. -/
inductive Hand where
  | empty
  /-- A connection that the factory is opening. -/
  | opening
  /-- A lease that was held for too long. Its handle is still valid. -/
  | reclaimed (e : Entry)
  /-- A connection to be handed out. -/
  | candidate (e : Entry)
  /-- A candidate that has been rejected, and has become invalid. -/
  | refused (e : Entry)
  /-- A lease that was given back. Its handle is still valid. -/
  | returned (e : Entry)
  /-- A returned lease that is being rolled back, to be kept or to be closed. -/
  | undoing (e : Entry) (keep : Bool) (returnedAt : Instant)
  /-- A returned connection that has become invalid and is being closed. -/
  | closing (e : Entry)
  /-- The connections that a reset has still to close. -/
  | drained (rest : List Entry)
  /-- A connection that a reset is closing, with the others still to come. -/
  | clearing (e : Entry) (rest : List Entry)
  /-- Nothing any more, but the sleepers are to be roused. -/
  | owing

namespace Hand

/-- The connections in hand whose handles may still be valid. -/
@[simp] def lent : Hand → List Entry
  | reclaimed e | returned e | undoing e _ _ => [e]
  | drained rest | clearing _ rest => rest
  | _ => []

/-- The connections in hand that may be handed out, and for which no handle is valid. -/
@[simp] def offered : Hand → List Entry
  | candidate e => [e]
  | _ => []

/-- The connections in hand that have not become invalid. -/
@[simp] def held (hand : Hand) : List Entry := hand.lent ++ hand.offered

end Hand

/-- What the holder of the lock has in hand while it does some work. -/
def Work.hand : Work → Hand
  | .begin _ => .empty
  | .connect _ _ => .opening
  | .reclaim _ e _ => .reclaimed e
  | .examine _ e _ => .candidate e
  | .prepare _ e => .candidate e
  | .discard _ e => .refused e
  | .undo e keep returnedAt => .undoing e keep returnedAt
  | .close e _ => .closing e
  | .resetUndo e rest => .clearing e rest
  | .resetClose e rest => .clearing e rest

/-- Where the connections of a pool are. -/
structure Custody where
  pool : PoolId
  books : Books
  generations : Generations
  /-- The number of the next connection. -/
  next : ConnectionId
  hand : Hand

namespace Pool

variable (p : Pool)

/-- What the call that holds the lock has in hand. -/
def hand : Hand :=
  match p.holder with
  | some (_, w) => w.hand
  | none => .empty

/-- The custody of a pool in the middle of a turn, with the given hand. -/
def custodyWith (hand : Hand) : Custody :=
  ⟨p.id, p.books, p.generations, p.nextConnection, hand⟩

/-- The custody of a pool between two turns. -/
def custody : Custody := p.custodyWith p.hand

variable {p}

/-- Only one call holds the lock, with one piece of work. -/
theorem holder_unique {i j : CallId} {w w' : Work} (h : p.holder = some (i, w))
    (h' : p.holder = some (j, w')) : i = j ∧ w = w' :=
  Prod.mk.inj (Option.some.inj (h.symm.trans h'))

theorem hand_of_holder {i : CallId} {w : Work} (holds : p.holder = some (i, w)) :
    p.custody.hand = w.hand := by
  rw [custody, custodyWith, hand, holds]

theorem hand_of_free (free : p.holder = none) : p.custody.hand = .empty := by
  rw [custody, custodyWith, hand, free]

variable (p)

/-- The pool with its connections in the given custody, but for the hand. -/
def having (c : Custody) : Pool :=
  { p with id := c.pool, books := c.books, generations := c.generations, nextConnection := c.next }

end Pool

/-! ## Deeds -/

/-- What a call is for. -/
inductive Purpose where
  | acquire
  | release
  | reset
  | inquire
  deriving DecidableEq

/-- What a call with an intent is for. -/
def Intent.purpose : Intent → Purpose
  | .acquire _ | .awaken _ _ => .acquire
  | .release _ => .release
  | .reset _ => .reset
  | .inquire _ => .inquire

/-- What a call that does some work is for. -/
def Work.purpose : Work → Purpose
  | .begin intent => intent.purpose
  | .connect _ _ | .reclaim _ _ _ | .examine _ _ _ | .prepare _ _ | .discard _ _ => .acquire
  | .undo _ _ _ | .close _ _ => .release
  | .resetUndo _ _ | .resetClose _ _ => .reset

/-- A change that the holder of the lock makes. -/
inductive Deed where
  /-- It takes the idle connection that was unused for the longest time. -/
  | take (e : Entry)
  /-- It asks the factory for a connection. -/
  | ask
  /-- The factory gives it a connection. -/
  | receive (id : ConnectionId) (physical : Physical)
  /-- It takes the oldest lease away. -/
  | claim (e : Entry)
  /-- It makes the handle of the lease it has taken away invalid. -/
  | renew (e : Entry)
  /-- It hands its candidate out. -/
  | lease (h : Handle)
  /-- It rejects its candidate. -/
  | reject (e : Entry) (why : Rejection)
  /-- It has no more to do with a connection that is not to be handed out. -/
  | letGo
  | countWait
  | addWaitTime (d : Duration)
  /-- It refuses a handle that is not valid any more. -/
  | refuse
  /-- It takes back the lease of a handle. -/
  | takeBack (e : Entry)
  /-- It takes a lease out of the books that is not valid any more. -/
  | misplace (e : Entry)
  /-- It finds out that the returned connection is closed. -/
  | findClosed (e : Entry)
  /-- It decides whether the returned connection is to be kept. -/
  | accept (e : Entry)
  /-- It keeps the returned connection. -/
  | keep (e : Entry)
  /-- It gives the returned connection up. -/
  | giveUp (e : Entry)
  /-- The returned connection has been closed. -/
  | endClose (e : Entry)
  /-- It empties the books. -/
  | drain (r : Reset)
  /-- It makes the next connection of a reset invalid. -/
  | retire (e : Entry)
  /-- A connection of a reset has been closed. -/
  | proceed (e : Entry)
  /-- All connections of a reset have been closed. -/
  | endReset
  | tolerate (n : UInt64)
  /-- It is dropped, and its candidate becomes invalid. -/
  | abandon (e : Entry)
  /-- It is dropped, and what it has in hand is lost. -/
  | lose
  /-- It rouses the sleepers. -/
  | rouse

namespace Deed

/-- What a call must be for to do a deed of its own accord. -/
def purpose? : Deed → Option Purpose
  | take _ | ask | receive _ _ | claim _ | renew _ | lease _ | reject _ _ | letGo | countWait
  | addWaitTime _ => some .acquire
  | refuse | takeBack _ | misplace _ | findClosed _ | accept _ | keep _ | giveUp _
  | endClose _ => some .release
  | drain _ | retire _ | proceed _ | endReset => some .reset
  | tolerate _ => some .inquire
  | abandon _ | lose | rouse => none

/-- The handle that a deed hands out. -/
def issued? : Deed → Option Handle
  | lease h => some h
  | _ => none

/-- The connection that a deed receives from the factory, with its number. -/
def opened? : Deed → Option (ConnectionId × Physical)
  | receive id physical => some (id, physical)
  | _ => none

theorem filterMap_singleton {α : Type} (d : Deed) (f : Deed → Option α) :
    [d].filterMap f = (f d).toList := by
  cases h : f d <;> simp [h]

end Deed

/-- The entry of a candidate as it is handed out by an acquisition. -/
def Entry.stamped (e : Entry) (a : Acquisition) (source : DataSource) (now : Instant) : Entry :=
  { e with signature := a.signature source, checkoutAt := now, lastUsedAt := now }

namespace Custody

/-- What each deed does, and when it can be done. -/
inductive Step (m : Moment) : Custody → Deed → Custody → Prop
  | take {c : Custody} {e : Entry} {b : Books} (free : c.hand = .empty)
      (found : c.books.takeIdle? = some (e, b)) :
      Step m c (.take e) { c with books := b, hand := .candidate e }
  | ask {c : Custody} (free : c.hand = .empty) (none_idle : c.books.takeIdle? = none)
      (room : c.books.canOpen = true) :
      Step m c .ask { c with hand := .opening }
  | receive {c : Custody} {physical : Physical} (asked : c.hand = .opening) :
      Step m c (.receive c.next physical)
        { c with
          next := c.next + 1
          hand := .candidate (.fresh c.next physical c.books.expected m.now) }
  | claim {c : Custody} {e : Entry} {b : Books} (free : c.hand = .empty)
      (none_idle : c.books.takeIdle? = none) (full : c.books.canOpen = false)
      (overdue : c.books.claimOverdue? m.now = some (e, b)) :
      Step m c (.claim e) { c with books := b, hand := .reclaimed e }
  | renew {c : Custody} {e : Entry} (has : c.hand = .reclaimed e) :
      Step m c (.renew e)
        { c with
          generations := c.generations.advance e.id
          hand := .candidate (e.renewed (c.generations.advance e.id)) }
  | lease {c : Custody} {e : Entry} {a : Acquisition} (has : c.hand = .candidate e) :
      Step m c (.lease { e.stamped a c.books.source m.now with pool := c.pool })
        { c with
          books := c.books.lease (e.stamped a c.books.source m.now) (m.now.since a.startedAt)
          hand := .empty }
  | reject {c : Custody} {e : Entry} {why : Rejection} (has : c.hand = .candidate e) :
      Step m c (.reject e why)
        { c with
          books := c.books.countBad
          generations := c.generations.advance e.id
          hand := .refused e }
  | letGo {c : Custody} (has : c.hand = .opening ∨ ∃ e, c.hand = .refused e) :
      Step m c .letGo { c with hand := .empty }
  | countWait {c : Custody} (free : c.hand = .empty) :
      Step m c .countWait { c with books := c.books.countWait }
  | addWaitTime {c : Custody} {d : Duration} (free : c.hand = .empty) :
      Step m c (.addWaitTime d) { c with books := c.books.addWaitTime d }
  | refuse {c : Custody} (free : c.hand = .empty) :
      Step m c .refuse { c with books := c.books.countBad }
  | takeBack {c : Custody} {h : Handle} {e : Entry} {b : Books} (free : c.hand = .empty)
      (found : c.books.removeActive? h.id h.generation = some (e, b))
      (current : e.isCurrent c.generations = true) :
      Step m c (.takeBack e) { c with books := b, hand := .returned e }
  | misplace {c : Custody} {h : Handle} {e : Entry} {b : Books} (free : c.hand = .empty)
      (found : c.books.removeActive? h.id h.generation = some (e, b))
      (old : e.isCurrent c.generations = false) :
      Step m c (.misplace e) { c with books := b.countBad }
  | findClosed {c : Custody} {e : Entry} (has : c.hand = .returned e)
      (closed : m.isClosed e.physical = true) :
      Step m c (.findClosed e)
        { c with
          books := c.books.countBad
          generations := c.generations.advance e.id
          hand := .owing }
  | accept {c : Custody} {e : Entry} (has : c.hand = .returned e)
      (is_open : m.isClosed e.physical = false) :
      Step m c (.accept e)
        { c with
          books := c.books.addCheckoutTime (e.checkoutTime m.now)
          hand := .undoing e (decide (e.signature = c.books.expected) && c.books.hasIdleCapacity)
            m.now }
  | keep {c : Custody} {e : Entry} {returnedAt : Instant}
      (has : c.hand = .undoing e true returnedAt) :
      Step m c (.keep e)
        { c with
          books := c.books.keep
            { e.renewed (c.generations.advance e.id) with lastUsedAt := returnedAt }
          generations := c.generations.advance e.id
          hand := .owing }
  | giveUp {c : Custody} {e : Entry} {keep : Bool} {returnedAt : Instant}
      (has : c.hand = .undoing e keep returnedAt) :
      Step m c (.giveUp e)
        { c with generations := c.generations.advance e.id, hand := .closing e }
  | endClose {c : Custody} {e : Entry} (has : c.hand = .closing e) :
      Step m c (.endClose e) { c with hand := .owing }
  | drain {c : Custody} {r : Reset} {b : Books} (free : c.hand = .empty)
      (accepted : r.apply c.books = .ok b) :
      Step m c (.drain r)
        { c with
          books := { b.emptied with expected := b.source.signature }
          hand := .drained b.entries }
  | retire {c : Custody} {e : Entry} {rest : List Entry} (has : c.hand = .drained (e :: rest)) :
      Step m c (.retire e)
        { c with generations := c.generations.advance e.id, hand := .clearing e rest }
  | proceed {c : Custody} {e : Entry} {rest : List Entry} (has : c.hand = .clearing e rest) :
      Step m c (.proceed e) { c with hand := .drained rest }
  | endReset {c : Custody} (has : c.hand = .drained []) :
      Step m c .endReset { c with hand := .owing }
  | tolerate {c : Custody} {n : UInt64} (free : c.hand = .empty) :
      Step m c (.tolerate n)
        { c with books := { c.books with
            policy := c.books.policy.apply (.badConnectionTolerance n) } }
  | abandon {c : Custody} {e : Entry} (has : c.hand = .reclaimed e ∨ c.hand = .candidate e) :
      Step m c (.abandon e)
        { c with generations := c.generations.advance e.id, hand := .empty }
  | lose {c : Custody}
      (has : (∃ e keep at', c.hand = .undoing e keep at') ∨ (∃ e, c.hand = .closing e) ∨
        ∃ e rest, c.hand = .clearing e rest) :
      Step m c .lose { c with hand := .empty }
  | rouse {c : Custody} (has : c.hand = .owing) : Step m c .rouse { c with hand := .empty }

/-- Deeds that are done one after the other. -/
inductive Path : Custody → List Deed → Custody → Prop
  | nil {c : Custody} : Path c [] c
  | cons {m : Moment} {c c' c'' : Custody} {d : Deed} {ds : List Deed} :
      Step m c d c' → Path c' ds c'' → Path c (d :: ds) c''

variable {m : Moment} {c c' c'' : Custody} {d : Deed} {ds ds' : List Deed}

theorem Path.single (h : Step m c d c') : Path c [d] c' := .cons h .nil

theorem Path.append (h : Path c ds c') (h' : Path c' ds' c'') : Path c (ds ++ ds') c'' := by
  induction h with
  | nil => exact h'
  | cons step _ ih => exact .cons step (ih h')

/-- What is true of no deeds and stays true with every further deed is true of all deeds of a
    path, and of the custody that they lead to. -/
theorem Path.keeps {I : List Deed → Custody → Prop}
    (step : ∀ {m ds c d c'}, I ds c → Step m c d c' → I (ds ++ [d]) c') (h : Path c ds c')
    (start : I [] c) : I ds c' := by
  -- By induction on the path from its start, so for all deeds that may stand before it.
  suffices ∀ before, I before c → I (before ++ ds) c' from this [] start
  clear start
  induction h with
  | nil =>
    intro before start
    rwa [List.append_nil]
  | cons hd _ ih =>
    intro before start
    rw [List.append_cons]
    exact ih _ (step start hd)

end Custody

end LeasePool
