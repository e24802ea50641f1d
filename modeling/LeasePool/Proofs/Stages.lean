import Mathlib.Data.List.Flatten
import Mathlib.Data.List.Perm.Basic
import LeasePool.Proofs.Requests

/-!
# Stages of connections

Every connection that a pool has to do with is at a *stage*: idle or leased, or in the middle of
what the call that holds the lock does with it, or left to an errand (`Pool.places`). The stages
are told apart by what is asked of the connection. When the holder of the lock goes on with its
work, a connection goes from one stage to another as `Stage.Next` says, it remains where it is, or
it is gone for good.

* `Carried`: connections that go from stage to stage, some of which are gone and none of which
  comes into a further place;
* `Pool.Sequel.carried`: so they do whenever the holder of the lock goes on with its work.
-/

namespace LeasePool

open scoped List

/-! ## Stages -/

/-- What is being done with a connection. -/
inductive Stage where
  /-- The factory has just given it to the pool. -/
  | new
  | idle
  | leased
  /-- Its lease has been taken away, and it is rolled back. -/
  | reclaiming
  /-- It is the candidate of an acquisition, which tests it. -/
  | testing (phase : Checkup.Phase)
  /-- It is rolled back to be handed out. -/
  | preparing
  /-- It has been rejected, and is closed. -/
  | discarding
  /-- It has been returned, and is rolled back. -/
  | undoing
  /-- It has been returned, and is closed. -/
  | closing
  /-- A reset has taken it out of the books, and is to close it. -/
  | pending
  /-- A reset rolls it back. -/
  | resetUndoing
  /-- A reset closes it. -/
  | resetClosing
  /-- Its acquisition has been dropped, and an errand closes it, or is to begin with that. -/
  | orphaned (begun : Bool)
  deriving DecidableEq

namespace Stage

/-- What is asked of a connection at a stage, if it is rolled back or closed. -/
def request? (c : Physical) : Stage → Option Request
  | reclaiming | testing .rollingBack | preparing | undoing | resetUndoing => some (.rollback c)
  | testing (.closing _) | discarding | closing | resetClosing | orphaned true => some (.close c)
  | _ => none

/-- Whether a connection can be at a stage while others have their turns, although nothing is
    asked of it. -/
def rests : Stage → Bool
  | idle | leased | pending => true
  | _ => false

variable (m : Moment) (c : Physical)

/-- A candidate that has passed its test is handed out, after a rollback unless it commits on its
    own. -/
inductive Ready : Stage → Prop
  | lease (commits : m.isAutoCommit c = true) : Ready .leased
  | prepare (uncommitted : m.isAutoCommit c = false) : Ready .preparing

/-- What can be done at once with a candidate. -/
inductive Offer : Stage → Prop
  | test : Offer (.testing .probing)
  | ready {σ : Stage} (ready : Ready m c σ) : Offer σ
  | discard (is_open : m.isClosed c = false) : Offer .discarding

/-- From which stage to which a connection can go in a turn of the call that holds the lock. -/
inductive Next : Stage → Stage → Prop
  | offer {σ σ' : Stage} (free : σ = .new ∨ σ = .idle ∨ σ = .reclaiming) (offer : Offer m c σ') :
      Next σ σ'
  | reclaim (uncommitted : m.isAutoCommit c = false) : Next .leased .reclaiming
  | claim {σ' : Stage} (commits : m.isAutoCommit c = true) (offer : Offer m c σ') :
      Next .leased σ'
  | probed (uncommitted : m.isAutoCommit c = false) :
      Next (.testing .probing) (.testing .rollingBack)
  | failing {phase : Checkup.Phase} {cause : PoolError} (unsettled : ∀ cause, phase ≠ .closing cause) :
      Next (.testing phase) (.testing (.closing cause))
  | passed {phase : Checkup.Phase} {σ' : Stage} (unsettled : ∀ cause, phase ≠ .closing cause)
      (ready : Ready m c σ') : Next (.testing phase) σ'
  | failed {cause : PoolError} (is_open : m.isClosed c = false) :
      Next (.testing (.closing cause)) .discarding
  | prepared : Next .preparing .leased
  | unprepared (is_open : m.isClosed c = false) : Next .preparing .discarding
  | undo (uncommitted : m.isAutoCommit c = false) : Next .leased .undoing
  | keep {σ : Stage} (undone : σ = .undoing ∨ σ = .leased ∧ m.isAutoCommit c = true) :
      Next σ .idle
  | giveUp {σ : Stage} (undone : σ = .undoing ∨ σ = .leased ∧ m.isAutoCommit c = true) :
      Next σ .closing
  | drain {σ : Stage} (rests : σ.rests = true) : Next σ .pending
  | resetUndo {σ : Stage} (rests : σ.rests = true) (uncommitted : m.isAutoCommit c = false) :
      Next σ .resetUndoing
  | resetClose {σ : Stage} (rests : σ.rests = true) (commits : m.isAutoCommit c = true) :
      Next σ .resetClosing
  | resetUndone : Next .resetUndoing .resetClosing

/-- A connection goes from one stage to another in a turn, or remains where it is. -/
def Goes (σ σ' : Stage) : Prop := σ.rests = true ∧ σ' = σ ∨ Next m c σ σ'

end Stage

/-! ## Places -/

/-- A connection with the stage it is at. -/
abbrev Place := Physical × Stage

/-- The connections in the books. -/
def Books.places (b : Books) : List Place :=
  b.active.map (fun e => (e.physical, .leased)) ++ b.idle.map fun e => (e.physical, .idle)

/-- The connections with which some work has to do. -/
def Work.places : Work → List Place
  | .begin _ | .connect _ _ => []
  | .reclaim _ e _ => [(e.physical, .reclaiming)]
  | .examine _ e c => [(e.physical, .testing c.phase)]
  | .prepare _ e => [(e.physical, .preparing)]
  | .discard _ e => [(e.physical, .discarding)]
  | .undo e _ _ => [(e.physical, .undoing)]
  | .close e _ => [(e.physical, .closing)]
  | .resetUndo e rest => (e.physical, .resetUndoing) :: rest.map fun e => (e.physical, .pending)
  | .resetClose e rest => (e.physical, .resetClosing) :: rest.map fun e => (e.physical, .pending)

/-- The connection that an errand closes. -/
def Errand.places : Errand → List Place
  | .ofHandle _ => []
  | .discard c begun => [(c, .orphaned begun)]

/-- The connections with which the call goes on. -/
def Ending.places : Ending → List Place
  | .work w => w.places
  | _ => []

namespace Pool

/-- The connections with which the call that holds the lock has to do. -/
def worked (p : Pool) : List Place :=
  match p.holder with
  | some (_, w) => w.places
  | none => []

/-- The connections that are left to errands. -/
def orphans (p : Pool) : List Place := p.errands.flatMap fun q => q.2.places

/-- The connections of a pool. -/
def places (p : Pool) : List Place := p.worked ++ p.books.places ++ p.orphans

theorem places_of_holder {p : Pool} {id : CallId} {w : Work} (holds : p.holder = some (id, w)) :
    p.places = w.places ++ p.books.places ++ p.orphans := by
  rw [places, worked, holds]

theorem mem_places_of_holder {p : Pool} {id : CallId} {w : Work} {x : Place}
    (holds : p.holder = some (id, w)) (hx : x ∈ w.places) : x ∈ p.places := by
  rw [places_of_holder holds]
  exact List.mem_append_left _ (List.mem_append_left _ hx)

end Pool

/-- From the places `l` to the places `l'`, some connections are gone, and each of the others has
    gone from one stage to another by `R`. -/
def Carried (R : Physical → Stage → Stage → Prop) (l l' : List Place) : Prop :=
  ∃ k, k <+~ l ∧ List.Forall₂ (fun a b => a.1 = b.1 ∧ R a.1 a.2 b.2) k l'

namespace Carried

variable {R R' : Physical → Stage → Stage → Prop} {l l' k k' : List Place} {c : Physical}
  {σ σ' : Stage}

theorem nil : Carried R l [] := ⟨[], List.nil_subperm, .nil⟩

theorem cons (h : R c σ σ') (tail : Carried R l l') : Carried R ((c, σ) :: l) ((c, σ') :: l') := by
  obtain ⟨k, sub, hk⟩ := tail
  exact ⟨(c, σ) :: k, (List.subperm_cons _).2 sub, .cons ⟨rfl, h⟩ hk⟩

theorem append (h : Carried R l l') (h' : Carried R k k') : Carried R (l ++ k) (l' ++ k') := by
  obtain ⟨i, sub, hi⟩ := h
  obtain ⟨j, sub', hj⟩ := h'
  exact ⟨i ++ j, sub.append sub', List.rel_append hi hj⟩

theorem refl (h : ∀ y ∈ l, R y.1 y.2 y.2) : Carried R l l := by
  induction l with
  | nil => exact nil
  | cons y l ih =>
    rw [List.forall_mem_cons] at h
    exact (ih h.2).cons h.1

/-- It does not matter in which order the places are, and where there were more of them. -/
theorem of_subperm (h : Carried R l l') (left : l <+~ k) (right : l' ~ k') : Carried R k k' := by
  obtain ⟨i, sub, hi⟩ := h
  have both : Relation.Comp (List.Forall₂ _) List.Perm i k' := ⟨l', hi, right⟩
  rw [List.forall₂_comp_perm_eq_perm_comp_forall₂] at both
  obtain ⟨j, perm, hj⟩ := both
  exact ⟨j, perm.symm.subperm.trans (sub.trans left), hj⟩

/-- What is carried along a relation is carried along a wider one. -/
theorem mono (h : Carried R l l') (le : ∀ c σ σ', (c, σ) ∈ l → (c, σ') ∈ l' → R c σ σ' → R' c σ σ') :
    Carried R' l l' := by
  obtain ⟨k, sub, hk⟩ := h
  refine ⟨k, sub, ?_⟩
  have here : ∀ y ∈ k, y ∈ l := fun y hy => sub.subset hy
  clear sub
  induction hk with
  | nil => exact .nil
  | @cons a b k l' hab _ ih =>
    obtain ⟨c, σ⟩ := a
    obtain ⟨c', σ'⟩ := b
    obtain ⟨same, hR⟩ := hab
    dsimp only at same hR
    subst same
    rw [List.forall_mem_cons] at here
    refine .cons ⟨rfl, le c σ σ' here.1 List.mem_cons_self hR⟩ (ih ?_ here.2)
    exact fun c σ σ' hσ hσ' => le c σ σ' hσ (List.mem_cons_of_mem _ hσ')

/-- No connection is in more places than before. -/
theorem fst (h : Carried R l l') : l'.map Prod.fst <+~ l.map Prod.fst := by
  obtain ⟨k, sub, hk⟩ := h
  have same : l'.map Prod.fst = k.map Prod.fst := by
    clear sub
    induction hk with
    | nil => rfl
    | cons hab _ ih => simp only [List.map_cons, ih, hab.1]
  obtain ⟨i, perm, sublist⟩ := sub
  rw [same]
  exact ⟨i.map Prod.fst, perm.map _, sublist.map _⟩

/-- A connection that is somewhere has come there from some place. -/
theorem exists_of_mem (h : Carried R l l') (hm : (c, σ') ∈ l') : ∃ σ, (c, σ) ∈ l ∧ R c σ σ' := by
  obtain ⟨k, sub, hk⟩ := h
  have come : ∃ σ, (c, σ) ∈ k ∧ R c σ σ' := by
    clear sub
    induction hk with
    | nil => cases hm
    | @cons a b k l' hab _ ih =>
      rcases List.mem_cons.1 hm with rfl | hm
      · obtain ⟨c', σ⟩ := a
        obtain ⟨same, hR⟩ := hab
        dsimp only at same hR
        subst same
        exact ⟨σ, List.mem_cons_self, hR⟩
      · obtain ⟨σ, hσ, hR⟩ := ih hm
        exact ⟨σ, List.mem_cons_of_mem _ hσ, hR⟩
  obtain ⟨σ, hσ, hR⟩ := come
  exact ⟨σ, sub.subset hσ, hR⟩

end Carried

/-! ## Turns of the call that holds the lock -/

variable {m : Moment}

namespace Books

variable {b b' : Books} {e : Entry}

/-- What is in the books remains there. -/
theorem carried_places (m : Moment) (b : Books) :
    Carried (Stage.Goes m) b.places b.places := by
  refine .refl fun y hy => .inl ⟨?_, rfl⟩
  rcases List.mem_append.1 hy with hy | hy <;> obtain ⟨e, -, rfl⟩ := List.mem_map.1 hy <;> rfl

theorem places_lease (b : Books) (e : Entry) (d : Duration) :
    (b.lease e d).places ~ (e.physical, .leased) :: b.places := by
  refine List.perm_iff_count.2 fun y => ?_
  simp [places, List.count_cons]
  omega

theorem places_keep (b : Books) (e : Entry) :
    (b.keep e).places ~ (e.physical, .idle) :: b.places := by
  refine List.perm_iff_count.2 fun y => ?_
  simp [places, List.count_cons]
  omega

theorem places_of_takeIdle? (h : b.takeIdle? = some (e, b')) :
    b.places ~ (e.physical, .idle) :: b'.places := by
  obtain ⟨rest, hi, rfl⟩ := takeIdle?_eq_some h
  rw [places, hi]
  exact List.perm_middle

theorem places_of_claimOverdue? {now : Instant} (h : b.claimOverdue? now = some (e, b')) :
    b.places = (e.physical, .leased) :: b'.places := by
  obtain ⟨rest, counters, ha, -, rfl⟩ := claimOverdue?_eq_some h
  rw [places, ha]
  rfl

theorem places_of_removeActive? {id : ConnectionId} {generation : Nat}
    (h : b.removeActive? id generation = some (e, b')) :
    b.places ~ (e.physical, .leased) :: b'.places := by
  obtain ⟨before, later, ha, -, -, rfl⟩ := removeActive?_eq_some h
  refine List.perm_iff_count.2 fun y => ?_
  simp [places, ha, List.count_cons]
  omega

theorem places_countWaitOf (b : Books) (a : Acquisition) : (b.countWaitOf a).places = b.places := by
  by_cases hw : a.hasWaited <;> simp only [countWaitOf, hw] <;> rfl

end Books

namespace Acquisition

variable {a : Acquisition} {e : Entry} {b b' : Books} {g : Generations} {x : Ending} {σ : Stage}

theorem Retries.places (h : a.Retries b x) : x.places = [] := by
  cases h <;> rfl

theorem Refuses.carried (h : a.Refuses m e b b' x)
    (next : m.isClosed e.physical = false → Stage.Next m e.physical σ .discarding) :
    Carried (Stage.Goes m) ((e.physical, σ) :: b.places) (x.places ++ b'.places) := by
  cases h with
  | gone closed retries =>
    rw [retries.places]
    exact (b.carried_places m).of_subperm .cons_self (.refl _)
  | discard is_open => exact .cons (.inr (next is_open)) (b.carried_places m)

theorem carried_lease {d : Duration} (next : Stage.Next m e.physical σ .leased) :
    Carried (Stage.Goes m) ((e.physical, σ) :: b.places)
      (b.lease (e.stamped a b.source m.now) d).places :=
  (Carried.cons (.inr next) (b.carried_places m)).of_subperm (.refl _)
    (b.places_lease (e.stamped a b.source m.now) d).symm

theorem Accepts.carried (h : a.Accepts m e b b' x)
    (next : ∀ σ', Stage.Ready m e.physical σ' → Stage.Next m e.physical σ σ') :
    Carried (Stage.Goes m) ((e.physical, σ) :: b.places) (x.places ++ b'.places) := by
  cases h with
  | lease pool commits => exact carried_lease (next _ (.lease commits))
  | prepare uncommitted => exact .cons (.inr (next _ (.prepare uncommitted))) (b.carried_places m)

theorem Examines.carried (h : a.Examines m e b g b' x)
    (next : ∀ σ', Stage.Offer m e.physical σ' → Stage.Next m e.physical σ σ') :
    Carried (Stage.Goes m) ((e.physical, σ) :: b.places) (x.places ++ b'.places) := by
  cases h with
  | test query => exact .cons (.inr (next _ .test)) (b.carried_places m)
  | accept accepts => exact accepts.carried fun σ' ready => next σ' (.ready ready)
  | refuse bad refuses => exact refuses.carried fun is_open => next _ (.discard is_open)

/-- A look at the books moves the candidate, and nothing else. -/
theorem Looks.carried (h : a.Looks m b g b' x) :
    Carried (Stage.Goes m) b.places (x.places ++ b'.places) := by
  cases h with
  | take found examines =>
    exact (examines.carried fun _ offer => .offer (.inr (.inl rfl)) offer).of_subperm
      (Books.places_of_takeIdle? found).symm.subperm (.refl _)
  | connect none_idle room => exact b.carried_places m
  | reclaim none_idle full overdue uncommitted =>
    rw [Books.places_of_claimOverdue? overdue]
    exact .cons (.inr (.reclaim uncommitted)) (b'.carried_places m)
  | claim none_idle full overdue commits examines =>
    rw [Books.places_of_claimOverdue? overdue]
    exact examines.carried fun _ offer => .claim commits offer
  | timeOut none_idle full none_overdue elapsed =>
    rw [Books.places_countWaitOf]
    exact b.carried_places m
  | sleep none_idle full none_overdue time =>
    rw [Books.places_countWaitOf]
    exact b.carried_places m

end Acquisition

namespace Entry

variable {e : Entry} {b b' : Books} {x : Ending} {σ : Stage}

/-- A connection that has been rolled back is put back or closed. -/
theorem Undone.carried {keep : Bool} {returnedAt : Instant} {result : Except PoolError Unit}
    (h : e.Undone b keep returnedAt result b' x)
    (undone : σ = .undoing ∨ σ = .leased ∧ m.isAutoCommit e.physical = true) :
    Carried (Stage.Goes m) ((e.physical, σ) :: b.places) (x.places ++ b'.places) := by
  cases h with
  | fail cause => exact .cons (.inr (.giveUp undone)) (b.carried_places m)
  | @keep g kept =>
    exact (Carried.cons (.inr (.keep undone)) (b.carried_places m)).of_subperm (.refl _)
      (b.places_keep { e.renewed g with lastUsedAt := returnedAt }).symm
  | giveUp left => exact .cons (.inr (.giveUp undone)) (b.carried_places m)

theorem Returned.carried (h : e.Returned m b b' x) :
    Carried (Stage.Goes m) ((e.physical, .leased) :: b.places) (x.places ++ b'.places) := by
  cases h with
  | gone closed => exact (b.carried_places m).of_subperm .cons_self (.refl _)
  | undo is_open uncommitted => exact .cons (.inr (.undo uncommitted)) (b.carried_places m)
  | commit is_open commits undone => exact undone.carried (.inr ⟨rfl, commits⟩)

end Entry

/-- The connections of entries that are to be closed, at stages where nothing is asked of them. -/
def Waiting (l : List Place) (rest : List Entry) : Prop :=
  List.Forall₂ (fun y e => y.1 = e.physical ∧ y.2.rests = true) l rest

theorem waiting_map {σ : Stage} (hσ : σ.rests = true) (rest : List Entry) :
    Waiting (rest.map fun e => (e.physical, σ)) rest := by
  induction rest with
  | nil => exact .nil
  | cons e rest ih => exact .cons ⟨rfl, hσ⟩ ih

theorem Books.waiting_places (b : Books) : Waiting b.places b.entries :=
  List.rel_append (waiting_map rfl b.active) (waiting_map rfl b.idle)

theorem Waiting.carried {l : List Place} {rest : List Entry} (h : Waiting l rest) :
    Carried (Stage.Goes m) l (rest.map fun e => (e.physical, .pending)) := by
  induction h with
  | nil => exact .nil
  | @cons y e l rest here _ ih =>
    obtain ⟨c, σ⟩ := y
    obtain ⟨rfl, rests⟩ := here
    exact .cons (.inr (.drain rests)) ih

/-- A reset moves the first of the connections that it is to close. -/
theorem Reset.Clears.carried {rest : List Entry} {x : Ending} {l : List Place}
    (h : Reset.Clears m rest x) (waiting : Waiting l rest) :
    Carried (Stage.Goes m) l x.places := by
  cases h with
  | done => exact .nil
  | undo uncommitted =>
    cases waiting with
    | @cons y _ l _ here rest =>
      obtain ⟨c, σ⟩ := y
      obtain ⟨rfl, rests⟩ := here
      exact .cons (.inr (.resetUndo rests uncommitted)) (Waiting.carried rest)
  | close commits =>
    cases waiting with
    | @cons y _ l _ here rest =>
      obtain ⟨c, σ⟩ := y
      obtain ⟨rfl, rests⟩ := here
      exact .cons (.inr (.resetClose rests commits)) (Waiting.carried rest)

/-- The test of a candidate is of the connection of the candidate. -/
def Work.Apt : Work → Prop
  | .examine _ e c => c.physical = e.physical
  | _ => True

/-- The work with which a call goes on is apt, if it goes on with any. -/
def Ending.Apt : Ending → Prop
  | .work w => w.Apt
  | _ => True

namespace Pool

variable {p : Pool} {w : Work} {s : Signal} {b : Books} {x : Ending}

/-- In a turn of the holder of the lock, the connection that the factory gives, those that the work
    has to do with, and those in the books go on to their next stages. -/
theorem Sequel.carried (h : p.Sequel m w s b x) (apt : w.Apt) :
    Carried (Stage.Goes m)
      (((w.received? s).map fun c => (c, .new)).toList ++ w.places ++ p.books.places)
      (x.places ++ b.places) := by
  have stay := p.books.carried_places m
  -- A connection that the work has to do with has no place any more.
  have gone {y : Place} : Carried (Stage.Goes m) (y :: p.books.places) p.books.places :=
    stay.of_subperm .cons_self (.refl _)
  cases h with
  | look looks => exact looks.carried
  | awaken looks => exact looks.carried
  | missing none_found => exact stay
  | @misplaced h e b found old =>
    exact (b.carried_places m).of_subperm
      (List.Subperm.cons_self.trans (Books.places_of_removeActive? found).symm.subperm) (.refl _)
  | takeBack found current returned =>
    exact returned.carried.of_subperm (Books.places_of_removeActive? found).symm.subperm (.refl _)
  | refused refuses => exact stay
  | @reset r b x accepted clears =>
    obtain ⟨idle, active, -⟩ := Reset.apply_eq_ok accepted
    have same : b.places = p.books.places := by rw [Books.places, Books.places, idle, active]
    have none_left : Carried (Stage.Goes m) [] [] := .nil
    have cleared := (clears.carried b.waiting_places).append none_left
    rw [same, List.append_nil p.books.places] at cleared
    exact cleared
  | policy => exact stay
  | source => exact stay
  | snapshot => exact stay
  | tolerate => exact stay
  | opened examines => exact examines.carried fun _ offer => .offer (.inl rfl) offer
  | openFailed => exact stay
  | reclaimed examines => exact examines.carried fun _ offer => .offer (.inr (.inr rfl)) offer
  | @probed a e c phase uncommitted =>
    rw [Work.places, phase]
    exact .cons (.inr (.probed ((congrArg _ apt).symm.trans uncommitted))) stay
  | failing phase => exact .cons (.inr (.failing phase)) stay
  | passed phase accepts => exact accepts.carried fun _ ready => .passed phase ready
  | @failed a e c cause result b x phase refuses =>
    rw [Work.places, phase]
    exact refuses.carried fun is_open => .failed is_open
  | prepared pool => exact Acquisition.carried_lease .prepared
  | unprepared refuses => exact refuses.carried fun is_open => .unprepared is_open
  | discarded retries =>
    rw [retries.places]
    exact gone
  | undone undone => exact undone.carried (.inl rfl)
  | closed => exact gone
  | closedAfter => exact gone
  | @resetUndone e rest result =>
    refine .cons (.inr .resetUndone) (.append (.refl fun y hy => .inl ?_) stay)
    obtain ⟨e, -, rfl⟩ := List.mem_map.1 hy
    exact ⟨rfl, rfl⟩
  | @resetClosed e rest result x clears =>
    exact ((clears.carried (waiting_map rfl rest)).append stay).of_subperm .cons_self (.refl _)

/-- No work is about a test of another connection than its candidate. -/
theorem Sequel.apt (h : p.Sequel m w s b x) (apt : w.Apt) : x.Apt := by
  -- A test begins with the examination of its candidate, and one under way keeps its connection.
  have retried {a : Acquisition} {b : Books} {x : Ending} (h : a.Retries b x) : x.Apt := by
    cases h <;> trivial
  have refused {a : Acquisition} {e : Entry} {b b' : Books} {x : Ending}
      (h : a.Refuses m e b b' x) : x.Apt := by
    cases h with
    | gone closed retries => exact retried retries
    | discard is_open => trivial
  have accepted {a : Acquisition} {e : Entry} {b b' : Books} {x : Ending}
      (h : a.Accepts m e b b' x) : x.Apt := by
    cases h <;> trivial
  have examined {a : Acquisition} {e : Entry} {b b' : Books} {g : Generations} {x : Ending}
      (h : a.Examines m e b g b' x) : x.Apt := by
    cases h with
    | test query => rfl
    | accept accepts => exact accepted accepts
    | refuse bad refuses => exact refused refuses
  have looked {a : Acquisition} {b b' : Books} {g : Generations} {x : Ending}
      (h : a.Looks m b g b' x) : x.Apt := by
    cases h with
    | take found examines => exact examined examines
    | claim none_idle full overdue commits examines => exact examined examines
    | _ => trivial
  have undone {e : Entry} {b b' : Books} {x : Ending} {keep : Bool} {returnedAt : Instant}
      {result : Except PoolError Unit} (h : e.Undone b keep returnedAt result b' x) : x.Apt := by
    cases h <;> trivial
  have cleared {rest : List Entry} {x : Ending} (h : Reset.Clears m rest x) : x.Apt := by
    cases h <;> trivial
  cases h with
  | look looks => exact looked looks
  | awaken looks => exact looked looks
  | takeBack found current returned =>
    cases returned with
    | commit is_open commits h => exact undone h
    | _ => trivial
  | reset accepted clears => exact cleared clears
  | opened examines => exact examined examines
  | reclaimed examines => exact examined examines
  | probed phase uncommitted => exact apt
  | failing phase => exact apt
  | passed phase accepts => exact accepted accepts
  | failed phase refuses => exact refused refuses
  | unprepared refuses => exact refused refuses
  | discarded retries => exact retried retries
  | undone h => exact undone h
  | resetClosed clears => exact cleared clears
  | _ => trivial

end Pool

end LeasePool
