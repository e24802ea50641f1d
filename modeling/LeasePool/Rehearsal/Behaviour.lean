import LeasePool.Pool.Physical

/-!
# Scripted connections

In a rehearsal every connection behaves as a script says: how long it takes to
answer each kind of request, and whether it fails. The factory has a plan with
the behaviours of the connections it is going to open, one for each attempt, and
a behaviour for all attempts after that.
-/

namespace LeasePool.Rehearsal

/-- How a connection behaves. Delays are in milliseconds. -/
structure Behaviour where
  closed : Bool := false
  /-- Whether the connection commits on its own; without it the data source says
      so when the connection is opened. -/
  autoCommit : Option Bool := none
  /-- The connection does not tell whether it commits on its own, so it counts as
      one that does not. -/
  plain : Bool := false
  failConnect : Option PoolError := none
  failRollback : Option PoolError := none
  failClose : Option PoolError := none
  failProbe : Option PoolError := none
  delayConnect : Nat := 0
  delayRollback : Nat := 0
  delayClose : Nat := 0
  delayProbe : Nat := 0

/-- One part of a behaviour. -/
inductive Trait where
  | closed (b : Bool)
  | autoCommit (b : Option Bool)
  | plain (b : Bool)
  | failConnect (e : Option PoolError)
  | failRollback (e : Option PoolError)
  | failClose (e : Option PoolError)
  | failProbe (e : Option PoolError)
  | delayConnect (ms : Nat)
  | delayRollback (ms : Nat)
  | delayClose (ms : Nat)
  | delayProbe (ms : Nat)

namespace Behaviour

/-- The behaviour with one part changed. -/
def apply (b : Behaviour) : Trait → Behaviour
  | .closed v => { b with closed := v }
  | .autoCommit v => { b with autoCommit := v }
  | .plain v => { b with plain := v }
  | .failConnect e => { b with failConnect := e }
  | .failRollback e => { b with failRollback := e }
  | .failClose e => { b with failClose := e }
  | .failProbe e => { b with failProbe := e }
  | .delayConnect ms => { b with delayConnect := ms }
  | .delayRollback ms => { b with delayRollback := ms }
  | .delayClose ms => { b with delayClose := ms }
  | .delayProbe ms => { b with delayProbe := ms }

/-- The behaviour with several parts changed, one after the other. -/
def applyAll (b : Behaviour) (traits : List Trait) : Behaviour := traits.foldl apply b

/-- Whether a connection tells that it commits on its own. -/
def isAutoCommit (b : Behaviour) : Bool := !b.plain && b.autoCommit.getD false

/-- The behaviour of a connection that is opened to a data source. -/
def openedTo (b : Behaviour) (source : DataSource) : Behaviour :=
  match b.autoCommit with
  | some _ => b
  | none => { b with autoCommit := some (source.autoCommit.getD false) }

end Behaviour

/-- The behaviours of the connections that a factory opens. -/
structure Factory where
  /-- The behaviours of the next attempts. -/
  plan : List Behaviour := []
  /-- The behaviour of every attempt after those. -/
  fallback : Behaviour := {}

/-- The behaviour of the next attempt, and the factory after it. -/
def Factory.next (f : Factory) : Behaviour × Factory :=
  match f.plan with
  | b :: plan => (b, { f with plan := plan })
  | [] => (f.fallback, f)

end LeasePool.Rehearsal
