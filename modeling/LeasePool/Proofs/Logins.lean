import LeasePool.Proofs.Progress

/-!
# For whom connections are handed out

An acquisition is for the user that its caller has named when the call began, whatever happens to
it: while it is queued for the lock, works, sleeps or has been roused, and however many candidates
it rejects (`Pool.Seeks`). So the connection that it hands out in the end bears the signature of
the data source with the credentials of that user.

* `Pool.seeks_of_respond`: a turn leaves the acquisitions in progress for whom they were;
* `Run.Of.acquires`: every acquisition in progress began for whom it is;
* `Run.Of.signature_of_issued`: the signature of a connection that is handed out.
-/

namespace LeasePool

/-- The signature of a connection that is handed out for a user of a data source. -/
def Login.signature (source : DataSource) : Login → Signature
  | dataSource => source.signature
  | .as username password => Signature.of source.url (some username) (some password)

theorem Acquisition.signature_eq (a : Acquisition) (source : DataSource) :
    a.signature source = a.login.signature source := by
  unfold signature Login.signature
  cases a.login <;> rfl

namespace Pool

/-- A call in progress acquires a connection for some user. -/
inductive Seeks (p : Pool) (i : CallId) (l : Login) : Prop
  | works {w : Work} (doing : p.Doing i w) (login : w.login? = some l)
  | sleeps {c : Sleeper} (sleeping : c ∈ p.sleeping) (caller : c.id = i)
      (login : c.acquisition.login = l)

variable {p : Pool} {e : Event} {t : Turn} {i : CallId} {l : Login}

/-- After a turn, an acquisition in progress has been so for the same user, or it has just begun. -/
theorem seeks_of_respond (ht : p.respond e = some t) (once : p.CallsOnce)
    (hs : t.pool.Seeks i l) :
    p.Seeks i l ∨ i = p.nextCall ∧ ∃ timeout m, e = .start (.acquire l timeout) m := by
  cases hs with
  | works doing login =>
    cases comes_of_respond ht once doing with
    | stays doing other => exact .inl (.works doing login)
    | goesOn goes caller =>
      subst caller
      have same := goes.sequel.remains.login rfl
      exact .inl (.works (.holds goes.holds) (same.symm.trans login))
    | @starts op m intent event new intends =>
      refine .inr ⟨new, ?_⟩
      cases op <;> cases intends <;> cases login
      exact ⟨_, m, event⟩
    | wakes asleep caller => exact .inl (.sleeps asleep caller (Option.some.inj login))
  | sleeps sleeping caller login =>
    obtain old | ⟨new, m, w, s, goes⟩ := mem_sleeping_of_respond ht sleeping
    · exact .inl (.sleeps old caller login)
    · have same := goes.sequel.remains.login rfl
      rw [← caller, new]
      exact .inl (.works (.holds goes.holds) (same.symm.trans (congrArg some login)))

/-- A connection is handed out with the signature of the data source, as it is then, with the
    credentials of the user that the acquisition is for. -/
theorem Lends.signature {m : Moment} {y : Handle} {w : Work} {s : Signal} {b : Books}
    (h : p.Lends m y w s b) :
    ∃ l, w.login? = some l ∧ y.signature = l.signature b.source := by
  cases h with
  | @prepared a e same =>
    refine ⟨a.login, rfl, ?_⟩
    rw [same]
    exact a.signature_eq _
  | @commits _ _ a e b acquires same commits =>
    refine ⟨a.login, by rw [Work.login?_eq, acquires, Option.map_some], ?_⟩
    rw [same]
    exact a.signature_eq _

end Pool

/-! ## Runs -/

namespace Run

variable {id : PoolId} {source : DataSource} {policy : Policy} {r : Run} {e : Event} {t : Turn}
  {i : CallId} {l : Login}

/-- A call began as an acquisition for some user. -/
def Acquires (r : Run) (i : CallId) (l : Login) : Prop :=
  ∃ v ∈ r.moves, v.caller = i ∧ ∃ timeout m, v.event = .start (.acquire l timeout) m

namespace Of

/-- Every acquisition in progress began for whom it is. -/
theorem acquires (h : Of (.opened id source policy) r) (hs : r.pool.Seeks i l) : r.Acquires i l := by
  induction h with
  | start =>
    cases hs with
    | works doing login => cases doing.mem_calls
    | sleeps sleeping caller login => cases sleeping
  | @move r e t h ht ih =>
    obtain hs | ⟨rfl, timeout, m, rfl⟩ := Pool.seeks_of_respond ht h.callsOnce hs
    · obtain ⟨v, hv, began⟩ := ih hs
      exact ⟨v, List.mem_cons_of_mem _ hv, began⟩
    · exact ⟨_, List.mem_cons_self, rfl, timeout, m, rfl⟩

/-- What is handed out bears the signature for the user for whom the acquisition began. -/
theorem signature_of_issued (h : Of (.opened id source policy) r) (ht : r.pool.respond e = some t)
    {x : Handle} (issued : Move.issued? ⟨r.pool, e, t⟩ = some x) :
    ∃ l, r.Acquires (Move.caller ⟨r.pool, e, t⟩) l ∧
      x.signature = l.signature t.pool.books.source := by
  obtain ⟨m, w, s, y, goes, lends⟩ := (Pool.responds_of_respond ht).lends issued
  obtain ⟨l, login, signature⟩ := lends.signature
  exact ⟨l, h.acquires (.works (.holds goes.holds) login), signature⟩

end Of

end Run

end LeasePool
