import LeasePool.Proofs.Credentials
import LeasePool.Proofs.Sequels

/-!
# Renamings of passwords

A *renaming* has another password for each password, and another signature for each signature.
*Under* a renaming, a pool, a call or an event has these passwords and signatures, and is the same
in everything else.

The books of a pool do the same under a renaming as without. There are three things that a renaming
must not spoil: what a connection is handed out for and what a reset expects have to bear the
signatures of the renamed credentials (`Renaming.Fits`), and the signature of a returned connection
has to be the expected one just where it is without the renaming (`Renaming.Tells`).

* `Renaming.FitsTurn`: what a turn asks of a renaming;
* `Pool.under`, `Turn.under`, `Run.under`: what is renamed in a pool, in a turn and in a run.
-/

namespace LeasePool

/-- Another password for each password, and another signature for each signature. -/
structure Renaming where
  password : String → String
  signature : Signature → Signature

/-- A renaming leaves two signatures equal, or different. -/
def Renaming.Tells (ρ : Renaming) (s s' : Signature) : Prop :=
  ρ.signature s = ρ.signature s' ↔ s = s'

/-!
## What is renamed

Passwords stand in data sources and in the logins of acquisitions, signatures in entries and
handles and in what the books expect. Notices, errors, snapshots and policies have neither.
-/

section

variable (ρ : Renaming)

def DataSource.under (s : DataSource) : DataSource :=
  { s with password := s.password.map ρ.password }

def DataSource.Change.under : DataSource.Change → DataSource.Change
  | .password word => .password (word.map ρ.password)
  | change => change

def Reset.under : Reset → Reset
  | .redirect change => .redirect (change.under ρ)
  | r => r

def Login.under : Login → Login
  | .dataSource => .dataSource
  | .as username password => .as username (ρ.password password)

def Acquisition.under (a : Acquisition) : Acquisition := { a with login := a.login.under ρ }

def Entry.under (e : Entry) : Entry := { e with signature := ρ.signature e.signature }

def Handle.under (h : Handle) : Handle := { h with toEntry := h.toEntry.under ρ }

def Books.under (b : Books) : Books :=
  { b with
    source := b.source.under ρ
    expected := ρ.signature b.expected
    idle := b.idle.map (·.under ρ)
    active := b.active.map (·.under ρ) }

def Op.under : Op → Op
  | .acquire login timeout => .acquire (login.under ρ) timeout
  | .release h => .release (h.under ρ)
  | .reset r => .reset (r.under ρ)
  | .inquire q => .inquire q
  | .probe h query => .probe (h.under ρ) query
  | .rollback h => .rollback (h.under ρ)

def Intent.under : Intent → Intent
  | .acquire a => .acquire (a.under ρ)
  | .awaken a asleepSince => .awaken (a.under ρ) asleepSince
  | .release h => .release (h.under ρ)
  | .reset r => .reset (r.under ρ)
  | .inquire q => .inquire q

def Work.under : Work → Work
  | .begin intent => .begin (intent.under ρ)
  | .connect a lookedAt => .connect (a.under ρ) lookedAt
  | .reclaim a e lookedAt => .reclaim (a.under ρ) (e.under ρ) lookedAt
  | .examine a e c => .examine (a.under ρ) (e.under ρ) c
  | .prepare a e => .prepare (a.under ρ) (e.under ρ)
  | .discard a e => .discard (a.under ρ) (e.under ρ)
  | .undo e keep returnedAt => .undo (e.under ρ) keep returnedAt
  | .close e cause => .close (e.under ρ) cause
  | .resetUndo e rest => .resetUndo (e.under ρ) (rest.map (·.under ρ))
  | .resetClose e rest => .resetClose (e.under ρ) (rest.map (·.under ρ))

def Sleeper.under (s : Sleeper) : Sleeper := { s with acquisition := s.acquisition.under ρ }

def Request.under : Request → Request
  | .connect source => .connect (source.under ρ)
  | r => r

def Errand.under : Errand → Errand
  | .ofHandle request => .ofHandle (request.under ρ)
  | e => e

def Awaited.under : Awaited → Awaited
  | .answer request => .answer (request.under ρ)
  | awaited => awaited

def Outcome.under : Outcome → Outcome
  | .leased h => .leased (h.under ρ)
  | .source s => .source (s.under ρ)
  | o => o

def Pool.under (p : Pool) : Pool :=
  { p with
    books := p.books.under ρ
    holder := p.holder.map fun q => (q.1, q.2.under ρ)
    queue := p.queue.map fun q => (q.1, q.2.under ρ)
    sleepers := p.sleepers.map (·.under ρ)
    roused := p.roused.map (·.under ρ)
    errands := p.errands.map fun q => (q.1, q.2.under ρ) }

def Turn.under (t : Turn) : Turn :=
  { t with pool := t.pool.under ρ, outcome := t.outcome.map (·.under ρ) }

def Event.under : Event → Event
  | .start op m => .start (op.under ρ) m
  | .resume id s m => .resume id s m
  | .drop id => .drop id

def Move.under (v : Move) : Move := ⟨v.before.under ρ, v.event.under ρ, v.turn.under ρ⟩

def Run.under (r : Run) : Run := ⟨r.pool.under ρ, r.moves.map (·.under ρ)⟩

end

/-! ## The books -/

@[simp] theorem Entry.id_under {ρ : Renaming} (e : Entry) : (e.under ρ).id = e.id := rfl

@[simp] theorem Entry.generation_under {ρ : Renaming} (e : Entry) :
    (e.under ρ).generation = e.generation := rfl

namespace Books

variable {ρ : Renaming} (b : Books) (e : Entry)

@[simp] theorem policy_under : (b.under ρ).policy = b.policy := rfl

theorem takeIdle?_under :
    (b.under ρ).takeIdle? = b.takeIdle?.map fun q => (q.1.under ρ, q.2.under ρ) := by
  obtain ⟨policy, source, expected, idle, active, counters⟩ := b
  cases idle <;> rfl

theorem canOpen_under : (b.under ρ).canOpen = b.canOpen := by
  simp only [canOpen, under, List.length_map]

theorem hasIdleCapacity_under : (b.under ρ).hasIdleCapacity = b.hasIdleCapacity := by
  simp only [hasIdleCapacity, under, List.length_map]

/-- The same lease is overdue under other names. -/
theorem claimOverdue?_under (now : Instant) :
    (b.under ρ).claimOverdue? now =
      (b.claimOverdue? now).map fun q => (q.1.under ρ, q.2.under ρ) := by
  obtain ⟨policy, source, expected, idle, active, counters⟩ := b
  cases active with
  | nil => rfl
  | cons e rest =>
    simp only [claimOverdue?, under, List.map_cons]
    change (if e.checkoutTime now ≤ policy.maxCheckout then none else _) = _
    split <;> rfl

theorem removeActive?_under (id : ConnectionId) (generation : Nat) :
    (b.under ρ).removeActive? id generation =
      (b.removeActive? id generation).map fun q => (q.1.under ρ, q.2.under ρ) := by
  simp only [removeActive?, under, List.find?_map, List.eraseP_map, Function.comp_def,
    Entry.id_under, Entry.generation_under]
  cases b.active.find? fun e => e.id == id && e.generation == generation <;> rfl

/-- Whether a connection is kept depends on its signature, but only on whether it is another one. -/
theorem keeps_under {b : Books} {e : Entry} (tells : ρ.Tells e.signature b.expected) :
    (b.under ρ).keeps (e.under ρ) = b.keeps e := by
  rw [keeps, keeps, hasIdleCapacity_under]
  exact congrArg (· && _) (decide_eq_decide.2 tells)

theorem keep_under : (b.under ρ).keep (e.under ρ) = (b.keep e).under ρ := by
  simp only [keep, under, List.map_append, List.map_cons, List.map_nil]

theorem lease_under (took : Duration) :
    (b.under ρ).lease (e.under ρ) took = (b.lease e took).under ρ := by
  simp only [lease, under, List.map_append, List.map_cons, List.map_nil]

theorem entries_under : (b.under ρ).entries = b.entries.map (·.under ρ) := by
  simp only [entries, under, List.map_append]

theorem snapshot_under (waiting : Nat) : (b.under ρ).snapshot waiting = b.snapshot waiting := by
  simp only [snapshot, under, List.length_map]

end Books

theorem DataSource.apply_under {ρ : Renaming} (s : DataSource) (change : DataSource.Change) :
    (s.under ρ).apply (change.under ρ) = (s.apply change).under ρ := by
  cases change <;> rfl

/-- A reset is accepted or refused as it is without the renaming. -/
theorem Reset.apply_under {ρ : Renaming} (r : Reset) (b : Books) :
    (r.under ρ).apply (b.under ρ) = (r.apply b).map (·.under ρ) := by
  cases r with
  | configure change =>
    simp only [apply, Reset.under, Books.policy_under]
    cases (b.policy.apply change).validate <;> rfl
  | redirect change =>
    simp only [apply, Reset.under]
    change Except.ok { b.under ρ with source := (b.source.under ρ).apply (change.under ρ) } = _
    rw [DataSource.apply_under]
    rfl
  | _ => rfl

/-! ## Signatures -/

/-- Credentials with another password. -/
def Credentials.under (password : String → String) (c : Credentials) : Credentials :=
  { c with password := c.password.map password }

/-- A renaming gives to the signature of credentials the signature of the renamed ones. -/
def Renaming.Fits (ρ : Renaming) (c : Credentials) : Prop :=
  (c.under ρ.password).signature = ρ.signature c.signature

theorem Login.credentials_under {ρ : Renaming} (l : Login) (source : DataSource) :
    (l.under ρ).credentials (source.under ρ) = (l.credentials source).under ρ.password := by
  cases l <;> rfl

theorem Acquisition.signature_under {ρ : Renaming} {a : Acquisition} {source : DataSource}
    (fits : ρ.Fits (a.login.credentials source)) :
    (a.under ρ).signature (source.under ρ) = ρ.signature (a.signature source) := by
  rw [signature_eq_credentials, signature_eq_credentials, ← fits, ← Login.credentials_under]
  rfl

theorem Entry.stamped_under {ρ : Renaming} {e : Entry} {a : Acquisition} {source : DataSource}
    {now : Instant} (fits : ρ.Fits (a.login.credentials source)) :
    (e.under ρ).stamped (a.under ρ) (source.under ρ) now = (e.stamped a source now).under ρ :=
  congrArg (fun s => { e with signature := s, checkoutAt := now, lastUsedAt := now })
    (Acquisition.signature_under fits)

/-- A renaming fits what a connection is handed out for in a turn, if one is. -/
def Renaming.FitsLease (ρ : Renaming) (l : Login) (source : DataSource) (t : Turn) : Prop :=
  ∀ y, t.outcome = some (.leased y) → ρ.Fits (l.credentials source)

/-- Where a renaming has to fit, if the holder of the lock is to take the same turn under it. -/
structure Renaming.FitsTurn (ρ : Renaming) (p : Pool) (w : Work) (t : Turn) : Prop where
  /-- What a connection is handed out for. -/
  lends : ∀ l, w.login? = some l → ρ.FitsLease l p.books.source t
  /-- What decides whether a returned connection is kept. -/
  keeps : ∀ e ∈ p.books.active, ρ.Tells e.signature p.books.expected
  /-- What a reset expects from then on. -/
  expects : ρ.Fits t.pool.books.source.credentials

/-! ## Calls -/

namespace Pool

variable {ρ : Renaming} (p : Pool)

@[simp] theorem books_under : (p.under ρ).books = p.books.under ρ := rfl

@[simp] theorem holder_under :
    (p.under ρ).holder = p.holder.map fun q => (q.1, q.2.under ρ) := rfl

@[simp] theorem queue_under : (p.under ρ).queue = p.queue.map fun q => (q.1, q.2.under ρ) := rfl

@[simp] theorem sleepers_under : (p.under ρ).sleepers = p.sleepers.map (·.under ρ) := rfl

@[simp] theorem roused_under : (p.under ρ).roused = p.roused.map (·.under ρ) := rfl

@[simp] theorem errands_under :
    (p.under ρ).errands = p.errands.map fun q => (q.1, q.2.under ρ) := rfl

end Pool

@[simp] theorem Turn.pool_under {ρ : Renaming} (t : Turn) : (t.under ρ).pool = t.pool.under ρ := rfl

@[simp] theorem Sleeper.id_under {ρ : Renaming} (s : Sleeper) : (s.under ρ).id = s.id := rfl

theorem lookup_map {α β : Type} (f : α → β) (l : List (CallId × α)) (id : CallId) :
    (l.map fun q => (q.1, f q.2)).lookup id = (l.lookup id).map f := by
  induction l with
  | nil => rfl
  | cons q l ih =>
    rw [List.map_cons, List.lookup_cons, List.lookup_cons, ih]
    cases id == q.1 <;> rfl

theorem Errand.awaited_under {ρ : Renaming} (e : Errand) :
    (e.under ρ).awaited = e.awaited.under ρ := by
  cases e with
  | ofHandle request => rfl
  | discard physical begun => cases begun <;> rfl

theorem Work.awaited_under {ρ : Renaming} (w : Work) (source : DataSource) :
    (w.under ρ).awaited (source.under ρ) = (w.awaited source).under ρ := by
  cases w with
  | examine a e c =>
    obtain ⟨physical, query, startedAt, phase⟩ := c
    cases phase <;> rfl
  | _ => rfl

end LeasePool
