import LeasePool.Proofs.Stages

/-!
# Journeys of connections

Whichever call has its turn, a connection remains at its stage, or the holder of the lock takes it
to the next one, or it is left to an errand when an acquisition is dropped (`Move.Carries`); and
whatever is asked of it is asked as it comes to a stage that demands this. A connection is in one
place only, if the factory gives it to the pool once. So what is done with a connection can be
followed along a run, whichever calls do it.

* `Run.Of.carried`: where the connections are after a turn of a run;
* `Run.Of.places_once`: no connection is in more places than it has been given to the pool;
* `Run.Of.exists_stage`, `Run.Of.exists_asked`: where a connection comes from, and where one is of
  which something has been asked.
-/

namespace LeasePool

open scoped List

variable {m : Moment}

/-! ## Requests and stages -/

namespace Work

variable {w : Work} {c : Physical} {σ : Stage} {r : Request} {source : DataSource}

/-- What is asked of a connection at a stage is what the work asks that has to do with it. -/
theorem request?_of_places (apt : w.Apt) (hm : (c, σ) ∈ w.places) (hr : σ.request? c = some r) :
    w.request? source = some r := by
  -- Nothing is asked of the connections that a reset has still to come to.
  have resting {rest : List Entry} (hm : (c, σ) ∈ rest.map fun e => (e.physical, Stage.pending)) :
      False := by
    obtain ⟨e, -, same⟩ := List.mem_map.1 hm
    cases same
    cases hr
  cases w with
  | begin intent => cases hm
  | connect a lookedAt => cases hm
  | examine a e t =>
    obtain ⟨rfl, rfl⟩ := Prod.mk.inj (List.mem_singleton.1 hm)
    obtain ⟨physical, query, startedAt, phase⟩ := t
    obtain rfl : physical = e.physical := apt
    cases phase with
    | probing => cases hr
    | rollingBack => exact hr
    | closing cause => exact hr
  | resetUndo e rest =>
    rcases List.mem_cons.1 hm with hm | hm
    · obtain ⟨rfl, rfl⟩ := Prod.mk.inj hm
      exact hr
    · exact (resting hm).elim
  | resetClose e rest =>
    rcases List.mem_cons.1 hm with hm | hm
    · obtain ⟨rfl, rfl⟩ := Prod.mk.inj hm
      exact hr
    · exact (resting hm).elim
  | _ =>
    obtain ⟨rfl, rfl⟩ := Prod.mk.inj (List.mem_singleton.1 hm)
    exact hr

/-- Work that asks to roll back or to close a connection has to do with it. -/
theorem exists_place (apt : w.Apt) (hr : w.request? source = some r)
    (about : r = .rollback c ∨ r = .close c) : ∃ σ, (c, σ) ∈ w.places ∧ σ.request? c = some r := by
  have found {physical : Physical} {σ : Stage} (hm : (physical, σ) ∈ w.places)
      (hσ : σ.request? physical = some r) : ∃ σ, (c, σ) ∈ w.places ∧ σ.request? c = some r := by
    have same : physical = c := by
      unfold Stage.request? at hσ
      rcases about with rfl | rfl <;> split at hσ <;> cases hσ <;> rfl
    exact ⟨σ, same ▸ hm, same ▸ hσ⟩
  cases w with
  | begin intent => cases hr
  | connect a lookedAt =>
    cases hr
    rcases about with about | about <;> cases about
  | examine a e t =>
    obtain ⟨physical, query, startedAt, phase⟩ := t
    obtain rfl : physical = e.physical := apt
    cases phase with
    | probing =>
      cases hr
      rcases about with about | about <;> cases about
    | rollingBack => exact found (List.mem_singleton_self _) hr
    | closing cause => exact found (List.mem_singleton_self _) hr
  | resetUndo e rest => exact found List.mem_cons_self hr
  | resetClose e rest => exact found List.mem_cons_self hr
  | _ => exact found (List.mem_singleton_self _) hr

end Work

/-! ## All turns -/

namespace Move

variable (v : Move)

/-- The connection that the factory has given to the pool in a turn. -/
def arrived : List Place := (v.opened?.map fun o => (o.2, .new)).toList

/-- From which stage to which a connection can go in a turn. -/
inductive Carries (c : Physical) : Stage → Stage → Prop
  /-- It remains where it is. -/
  | stay {σ : Stage} : Carries c σ σ
  /-- The holder of the lock goes on, and what the stage demands has been asked of the
      connection. -/
  | go {m : Moment} {σ σ' : Stage} (moment : v.moment? = some m) (next : Stage.Next m c σ σ')
      (asked : ∀ r, σ'.request? c = some r → v.asked? = some r) : Carries c σ σ'
  /-- The acquisition whose candidate it is has been dropped. -/
  | orphan {σ : Stage} {e : Entry} {w : Work} (dropped : v.event = .drop v.caller)
      (holds : v.before.holder = some (v.caller, w)) (candidate : w.guarded? = some e)
      (place : w.places = [(c, σ)]) : Carries c σ (.orphaned false)
  /-- An errand begins to close it. -/
  | begin (asked : v.asked? = some (.close c)) : Carries c (.orphaned false) (.orphaned true)

end Move

namespace Pool

variable {p : Pool} {e : Event} {t : Turn} {id : CallId}

theorem worked_passLock (p : Pool) : p.passLock.worked = [] := by
  cases h : p.queue <;> simp only [passLock, h] <;> rfl

theorem orphans_passLock (p : Pool) : p.passLock.orphans = p.orphans := by
  rw [orphans, errands_passLock, orphans]

theorem worked_ended (id : CallId) (x : Ending) : (p.ended id x).worked = x.places := by
  cases x with
  | work w => rfl
  | finished o => exact worked_passLock p
  | freed o => exact worked_passLock p
  | asleep a since limit => exact worked_passLock _

theorem places_lock (t : Turn) (id : CallId) (intent : Intent) :
    (t.lock id intent).pool.places = t.pool.places := by
  cases h : t.pool.holder <;> simp only [Turn.lock, h, Turn.work, places, worked, orphans]
  rfl

theorem places_dropQueued (id : CallId) (intent : Intent) :
    (p.turn.dropQueued id intent).pool.places = p.places := by
  cases intent <;> rfl

/-- Without the errands of a call, no more connections are left to errands. -/
theorem orphans_filter_sublist (l : List (CallId × Errand)) (id : CallId) :
    ((l.filter fun q => q.1 != id).flatMap fun q => q.2.places) <+ l.flatMap fun q => q.2.places :=
  List.filter_sublist.flatMap _

/-- The connection of an errand is left to it alone. -/
theorem orphans_of_lookup {l : List (CallId × Errand)} {x : Errand} (found : l.lookup id = some x) :
    x.places ++ ((l.filter fun q => q.1 != id).flatMap fun q => q.2.places) <+~
      l.flatMap fun q => q.2.places := by
  obtain ⟨before, later, rfl, -⟩ := List.lookup_eq_some_iff.1 found
  rw [List.filter_append, List.filter_cons_of_neg (by simp), List.flatMap_append,
    List.flatMap_append, List.flatMap_cons]
  refine (List.Sublist.subperm ?_).trans (List.Perm.of_eq rfl).subperm |>.trans
    (List.perm_append_comm_assoc _ _ _).subperm
  exact (List.Sublist.refl _).append
    ((orphans_filter_sublist before id).append (orphans_filter_sublist later id))

end Pool

namespace Move

variable {v : Move} {w : Work} {s : Signal} {x : Ending}

namespace Continues

theorem arrived_eq (h : v.Continues m w s x) :
    v.arrived = ((w.received? s).map fun c => (c, .new)).toList := by
  simp only [arrived, opened?, h.event, h.holds, if_pos, Option.map_map]
  rfl

theorem places_eq (h : v.Continues m w s x) :
    v.after.places = x.places ++ v.after.books.places ++ v.before.orphans := by
  obtain ⟨q, same, after⟩ := h.after
  rw [Pool.places, after, Pool.worked_ended, Pool.orphans, Pool.errands_ended, same.errands]
  rfl

/-- Where the connections are after a turn of the holder of the lock, and what has been asked of
    them. -/
theorem carried (h : v.Continues m w s x) (apt : w.Apt) :
    Carried v.Carries (v.arrived ++ v.before.places) v.after.places := by
  have apt' : x.Apt := h.sequel.apt apt
  have goes : Carried v.Carries (v.arrived ++ w.places ++ v.before.books.places)
      (x.places ++ v.after.books.places) := by
    rw [h.arrived_eq]
    refine (h.sequel.carried apt).mono fun c σ σ' _ hm hg => ?_
    obtain ⟨-, rfl⟩ | next := hg
    · exact .stay
    · refine .go h.moment?_eq next fun r hr => ?_
      rcases List.mem_append.1 hm with hm | hm
      · -- The request is that of the work with which the call goes on.
        cases x with
        | work w' =>
          rw [h.asked?_work]
          exact Work.request?_of_places apt' hm hr
        | _ => cases hm
      · -- Nothing is asked of a connection that is in the books.
        rcases List.mem_append.1 hm with hm | hm <;>
          obtain ⟨e, -, same⟩ := List.mem_map.1 hm <;> cases same <;> cases hr
  have all := goes.append (Carried.refl (R := v.Carries) (l := v.before.orphans) fun _ _ => .stay)
  rw [← h.places_eq] at all
  rw [Pool.places_of_holder h.holds, ← List.append_assoc, ← List.append_assoc]
  exact all

end Continues

end Move

namespace Pool

variable {p : Pool} {e : Event} {t : Turn} {id : CallId}

/-- Where the connections are after an errand has begun to close one. -/
theorem carried_errand {m : Moment} {c : Physical} (once : p.CallsOnce)
    (found : p.errands.lookup id = some (.discard c false)) :
    Carried (Move.Carries ⟨p, .resume id .proceed m, p.turn.errand id (.discard c true)⟩) p.places
      (p.turn.errand id (.discard c true)).pool.places := by
  have after : (p.turn.errand id (.discard c true)).pool.CallsOnce :=
    once.follows (follows_of_advanceErrand (s := .proceed) found rfl)
  have asked : Move.asked? ⟨p, .resume id .proceed m, p.turn.errand id (.discard c true)⟩ =
      some (.close c) := by
    refine (asking?_of_errand after (e := .discard c true) ?_).trans rfl
    change ((p.errands.filter fun q => q.1 != id) ++
      [(id, Errand.discard c true)]).lookup id = _
    rw [List.lookup_append, lookup_filter_ne, Option.none_or, List.lookup_cons_self]
  -- All other connections remain where they are.
  let others := p.worked ++ p.books.places ++
    (p.errands.filter fun q => q.1 != id).flatMap fun q => q.2.places
  have begun : Carried
      (Move.Carries ⟨p, .resume id .proceed m, p.turn.errand id (.discard c true)⟩)
      ((c, .orphaned false) :: others) ((c, .orphaned true) :: others) :=
    .cons (.begin asked) (.refl fun _ _ => .stay)
  refine begun.of_subperm ?_ ?_
  · refine List.perm_middle.symm.subperm.trans ?_
    exact (List.Subperm.refl _).append (orphans_of_lookup found)
  · change (c, Stage.orphaned true) :: others ~ p.worked ++ p.books.places ++
      ((p.errands.filter fun q => q.1 != id) ++ [(id, Errand.discard c true)]).flatMap _
    rw [List.flatMap_append, ← List.append_assoc]
    exact (List.perm_append_singleton _ _).symm

theorem places_dropWork (w : Work) : (p.turn.dropWork w).pool.places =
    p.books.places ++ p.orphans ++ (w.orphan?.map Errand.places).getD [] := by
  obtain ⟨q, dropped, books, -, -, -, errands⟩ := p.exists_dropWork w
  rw [places, dropped, worked_passLock, orphans_passLock, books_passLock, books, orphans,
    errands, List.flatMap_append]
  cases w.orphan? <;> simp [orphans]

/-- Where the connections are after the holder of the lock has been dropped. -/
theorem carried_dropWork {w : Work} (holds : p.holder = some (id, w)) :
    Carried (Move.Carries ⟨p, .drop id, p.turn.dropWork w⟩) p.places
      (p.turn.dropWork w).pool.places := by
  have stay : Carried (Move.Carries ⟨p, .drop id, p.turn.dropWork w⟩)
      (p.books.places ++ p.orphans) (p.books.places ++ p.orphans) := .refl fun _ _ => .stay
  rw [places_dropWork, places_of_holder holds, Work.orphan?]
  -- Only a candidate has a guard, which leaves it to an errand. Whatever else is in hand is lost.
  cases candidate : w.guarded? with
  | none =>
    refine stay.of_subperm ?_ (List.Perm.of_eq (List.append_nil _).symm)
    rw [List.append_assoc]
    exact (List.sublist_append_right _ _).subperm
  | some e =>
    obtain ⟨σ, place⟩ : ∃ σ, w.places = [(e.physical, σ)] := by
      cases w <;> cases candidate <;> exact ⟨_, rfl⟩
    rw [place]
    have left : Carried (Move.Carries ⟨p, .drop id, p.turn.dropWork w⟩)
        ((e.physical, σ) :: (p.books.places ++ p.orphans))
        ((e.physical, .orphaned false) :: (p.books.places ++ p.orphans)) :=
      stay.cons (.orphan rfl holds candidate place)
    exact left.of_subperm (.refl _) (List.perm_append_singleton _ _).symm

/-- Where the connections are after a turn, and what has been asked of them. -/
theorem Responds.carried (h : p.Responds e t) (once : p.CallsOnce)
    (apt : ∀ i w, p.holder = some (i, w) → w.Apt) :
    Carried (Move.Carries ⟨p, e, t⟩) (Move.arrived ⟨p, e, t⟩ ++ p.places) t.pool.places := by
  have more {l' : List Place} (h : Carried (Move.Carries ⟨p, e, t⟩) p.places l') :
      Carried (Move.Carries ⟨p, e, t⟩) (Move.arrived ⟨p, e, t⟩ ++ p.places) l' :=
    h.of_subperm (List.sublist_append_right _ _).subperm (.refl _)
  -- A turn without the lock moves no connection, unless it is that of an errand, after which one
  -- may be gone.
  have aside (sub : t.pool.places <+~ p.places) :
      Carried (Move.Carries ⟨p, e, t⟩) (Move.arrived ⟨p, e, t⟩ ++ p.places) t.pool.places :=
    more ((Carried.refl fun y _ => .stay).of_subperm sub (.refl _))
  cases h with
  | enter ns intent => exact aside (List.Perm.of_eq (places_lock _ _ _)).subperm
  | decline ns e => exact aside (.refl _)
  | send request =>
    refine aside (List.Sublist.subperm ((List.Sublist.refl _).append ?_))
    change ((p.errands.filter fun q => q.1 != p.nextCall) ++
      [(p.nextCall, Errand.ofHandle request)]).flatMap _ <+ _
    rw [List.flatMap_append]
    exact (List.append_nil _).symm ▸ orphans_filter_sublist p.errands p.nextCall
  | @goOn id w s m t held h =>
    obtain ⟨x, hx⟩ := Move.exists_continues held h
    exact hx.carried (apt _ _ held)
  | relock elsewhere found => exact aside (List.Perm.of_eq (places_lock _ _ _)).subperm
  | getUp elsewhere found due => exact aside (List.Perm.of_eq (places_lock _ _ _)).subperm
  | @errand id s m x t elsewhere found h =>
    unfold Turn.advanceErrand at h
    split at h <;> cases h
    · next c => exact more (carried_errand once found)
    all_goals
      refine aside ((List.Subperm.refl _).append ?_)
      exact (List.sublist_append_right _ _).subperm.trans (orphans_of_lookup found)
  | @cut id w held => exact more (carried_dropWork held)
  | withdraw elsewhere found => exact aside (List.Perm.of_eq (places_dropQueued _ _)).subperm
  | desert elsewhere found => exact aside (.refl _)
  | forget elsewhere found =>
    exact aside ((List.Sublist.refl _).append (orphans_filter_sublist _ _)).subperm

end Pool

/-! ## Runs -/

theorem Move.map_arrived (v : Move) : v.arrived.map Prod.fst = (v.opened?.map Prod.snd).toList := by
  cases h : v.opened? <;> simp [arrived, h]

namespace Run

variable {id : PoolId} {source : DataSource} {policy : Policy} {r : Run} {e : Event} {t : Turn}
  {c : Physical} {σ σ' : Stage}

/-- The factory has not given the same connection twice. -/
def Distinct (r : Run) : Prop := (r.opened.map Prod.snd).Nodup

/-- Nor had it at an earlier time. -/
theorem Distinct.of_move (h : (r.move e t).Distinct) : r.Distinct := by
  rw [Distinct, opened_move, List.map_append] at h
  exact (List.nodup_append.1 h).2.1

theorem Distinct.upto {r₀ : Run} (h : r.Distinct) {after : List Move}
    (moves : r.moves = after ++ r₀.moves) : r₀.Distinct := by
  rw [Distinct, opened, moves, List.filterMap_append, List.map_append] at h
  exact (List.nodup_append.1 h).2.1

/-- A connection that has been given to the pool before is not given to it again. -/
theorem Distinct.not_arrived (distinct : (r.move e t).Distinct)
    (known : c ∈ r.opened.map Prod.snd) : (c, σ) ∉ Move.arrived ⟨r.pool, e, t⟩ := by
  intro new
  have twice : c ∈ (Move.opened? ⟨r.pool, e, t⟩).toList.map Prod.snd := by
    have := List.mem_map_of_mem (f := Prod.fst) new
    rwa [Move.map_arrived, Option.toList_map] at this
  rw [Distinct, opened_move, List.map_append, List.nodup_append] at distinct
  exact distinct.2.2 c twice c known rfl

namespace Of

/-- In every run, a test is of the candidate of its acquisition. -/
theorem apt (h : Of (.opened id source policy) r) {i : CallId} {w : Work}
    (holds : r.pool.holder = some (i, w)) : w.Apt := by
  induction h generalizing i w with
  | start => cases holds
  | @move r e t h ht ih =>
    by_cases busy : ∀ intent, w ≠ .begin intent
    · obtain ⟨m, w₀, s, begun, -⟩ | ⟨held, -, -⟩ :=
        (Pool.responds_of_respond ht).holder h.callsOnce holds busy
      · exact begun.sequel.apt (ih begun.holds)
      · exact ih held
    · simp only [not_forall, not_not] at busy
      obtain ⟨intent, rfl⟩ := busy
      trivial

/-- Where the connections are after a turn of a run, and what has been asked of them. -/
theorem carried (h : Of (.opened id source policy) r) (ht : r.pool.respond e = some t) :
    Carried (Move.Carries ⟨r.pool, e, t⟩) (Move.arrived ⟨r.pool, e, t⟩ ++ r.pool.places)
      t.pool.places :=
  (Pool.responds_of_respond ht).carried h.callsOnce fun _ _ holds => h.apt holds

/-- A connection is in no more places than the factory has given it to the pool. -/
theorem places_once (h : Of (.opened id source policy) r) :
    r.pool.places.map Prod.fst <+~ r.opened.map Prod.snd := by
  induction h with
  | start => exact .refl _
  | @move r e t h ht ih =>
    refine (h.carried ht).fst.trans ?_
    rw [List.map_append, Move.map_arrived, opened_move, List.map_append, Option.toList_map]
    exact (List.Subperm.refl _).append ih

theorem mem_opened (h : Of (.opened id source policy) r) (hm : (c, σ) ∈ r.pool.places) :
    c ∈ r.opened.map Prod.snd :=
  h.places_once.subset (List.mem_map_of_mem (f := Prod.fst) hm)

/-- A connection that the factory has given once is in one place at most. -/
theorem places_nodup (h : Of (.opened id source policy) r) (distinct : r.Distinct) :
    (r.pool.places.map Prod.fst).Nodup :=
  nodup_of_subperm h.places_once distinct

theorem stage_unique (h : Of (.opened id source policy) r) (distinct : r.Distinct)
    (hσ : (c, σ) ∈ r.pool.places) (hσ' : (c, σ') ∈ r.pool.places) : σ = σ' :=
  congrArg Prod.snd (List.inj_on_of_nodup_map (h.places_nodup distinct) hσ hσ' rfl)

/-- A connection that has been given to the pool before has been at a stage already. -/
theorem exists_stage (h : Of (.opened id source policy) r) (ht : r.pool.respond e = some t)
    (distinct : (r.move e t).Distinct) (known : c ∈ r.opened.map Prod.snd)
    (hm : (c, σ') ∈ t.pool.places) :
    ∃ σ, (c, σ) ∈ r.pool.places ∧ Move.Carries ⟨r.pool, e, t⟩ c σ σ' := by
  obtain ⟨σ, hσ, carries⟩ := (h.carried ht).exists_of_mem hm
  exact ⟨σ, (List.mem_append.1 hσ).resolve_left (distinct.not_arrived known), carries⟩

/-- A request to roll back or to close a connection goes to one that is at such a stage. -/
theorem exists_asked (h : Of (.opened id source policy) r) (ht : r.pool.respond e = some t)
    {q : Request} (asked : Move.asked? ⟨r.pool, e, t⟩ = some q)
    (about : q = .rollback c ∨ q = .close c) :
    ∃ σ, (c, σ) ∈ t.pool.places ∧ σ.request? c = some q := by
  obtain ⟨m, w, s, w', goes, request⟩ | ⟨i, m, c', rfl, found, rfl, rfl⟩ :=
    (Pool.responds_of_respond ht).asked? h.callsOnce asked
  · obtain ⟨σ, hσ, hr⟩ := Work.exists_place (goes.sequel.apt (h.apt goes.holds)) request about
    refine ⟨σ, ?_, hr⟩
    change _ ∈ (Move.after ⟨r.pool, e, t⟩).places
    rw [goes.places_eq]
    exact List.mem_append_left _ (List.mem_append_left _ hσ)
  · obtain rfl : c' = c := by rcases about with about | about <;> cases about; rfl
    refine ⟨.orphaned true, List.mem_append_right _ ?_, rfl⟩
    exact List.mem_flatMap.2 ⟨(i, .discard c' true), List.mem_append_right _
      (List.mem_singleton_self _), List.mem_singleton_self _⟩

end Of

end Run

end LeasePool
