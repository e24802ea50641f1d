import LeasePool.Proofs.Calls
import LeasePool.Proofs.Capacity
import LeasePool.Proofs.Sound

/-!
# Places that are taken and left

What a turn does to the number of leased connections, by who takes it. An acquisition takes
connections out of the books, and it leaves a place among the leased ones when it claims a lease
(`Custody.Drawn`). Every other call that has changed the leased or the idle connections has
something in hand until it rouses the sleepers (`Custody.Path.untouched`).

* `Move.aside_or_byHolder`: a turn is that of a call elsewhere, or of the holder of the lock;
* `Move.ByHolder.draws`: what an acquisition does to the books in a turn.
-/

namespace LeasePool

/-! ## Paths of deeds -/

/-- Whether a deed claims a lease. -/
def Deed.isClaim : Deed → Bool
  | claim _ => true
  | _ => false

namespace Custody

variable {m : Moment} {c₀ c c' : Custody} {d : Deed} {ds : List Deed} {k : Purpose}

/-- Claimed leases are counted. -/
theorem Step.overdue (hd : Step m c d c') : c'.books.counters.overdue =
    c.books.counters.overdue + if d.isClaim then 1 else 0 := by
  cases hd with
  | take free found =>
    obtain ⟨rest, -, rfl⟩ := Books.takeIdle?_eq_some found
    rfl
  | claim free none_idle full overdue =>
    obtain ⟨rest, counters, -, counted, rfl⟩ := Books.claimOverdue?_eq_some overdue
    exact counted
  | takeBack free found current =>
    obtain ⟨before, later, -, -, -, rfl⟩ := Books.removeActive?_eq_some found
    rfl
  | misplace free found old =>
    obtain ⟨before, later, -, -, -, rfl⟩ := Books.removeActive?_eq_some found
    rfl
  | drain free accepted =>
    obtain ⟨-, -, counters⟩ := Reset.apply_eq_ok accepted
    exact congrArg Counters.overdue counters
  | _ => rfl

theorem Path.overdue (h : Path c ds c') : c'.books.counters.overdue =
    c.books.counters.overdue + ds.countP Deed.isClaim := by
  induction h with
  | nil => rfl
  | cons hd _ ih =>
    rw [ih, hd.overdue, List.countP_cons]
    omega

/-- The last of several deeds is done after the others. -/
theorem Path.of_snoc (h : Path c (ds ++ [d]) c') :
    ∃ m c₁, Path c ds c₁ ∧ Step m c₁ d c' := by
  induction ds generalizing c with
  | nil =>
    cases h with
    | cons hd tail =>
      cases tail
      exact ⟨_, _, .nil, hd⟩
  | cons d' ds ih =>
    cases h with
    | cons hd tail =>
      obtain ⟨m, c₁, path, last⟩ := ih tail
      exact ⟨m, c₁, .cons hd path, last⟩

/-- What an acquisition has done to the books, from `c₀` to `c`, before it hands out a
    connection: it may have left a place among the leased ones, but no more than that, and only
    by claiming a lease. -/
structure Drawn (c₀ : Custody) (ds : List Deed) (c : Custody) : Prop where
  policy : c.books.policy = c₀.books.policy
  idle : c₀.books.idle = [] → c.books.idle = []
  active_le : c.books.active.length ≤ c₀.books.active.length
  tight : c₀.books.policy.maxActive.toNat ≤ c₀.books.active.length + 1 →
    c₀.books.policy.maxActive.toNat ≤ c.books.active.length + 1
  same : (∀ d ∈ ds, d.isClaim = false) → c.books.active.length = c₀.books.active.length
  claimed : ∀ d ∈ ds, d.isClaim = true →
    c.books.idle = [] ∧ c.books.active.length < c₀.books.policy.maxActive.toNat

/-- A deed that changes neither the leased nor the idle connections. -/
theorem Drawn.keep (h : Drawn c₀ ds c) (policy : c'.books.policy = c.books.policy)
    (idle : c'.books.idle = c.books.idle) (active : c'.books.active = c.books.active)
    (other : d.isClaim = false) : Drawn c₀ (ds ++ [d]) c' where
  policy := policy.trans h.policy
  idle hi := idle.trans (h.idle hi)
  active_le := active ▸ h.active_le
  tight := active ▸ h.tight
  same hs := active ▸ h.same fun d hd => hs d (List.mem_append_left _ hd)
  claimed x hx hc := by
    rw [idle, active]
    rcases List.mem_append.1 hx with hx | hx
    · exact h.claimed x hx hc
    · rw [List.mem_singleton.1 hx, other] at hc
      cases hc

/-- The deeds of an acquisition before it hands out a connection. -/
theorem Drawn.step (h : Drawn c₀ ds c) (within : c.Within) (hd : Step m c d c')
    (purpose : d.purpose? = some .acquire) (quiet : d.issued? = none) :
    Drawn c₀ (ds ++ [d]) c' := by
  cases hd with
  | take free found =>
    obtain ⟨rest, hi, rfl⟩ := Books.takeIdle?_eq_some found
    have some_idle : c.books.idle ≠ [] := by rw [hi]; exact List.cons_ne_nil _ _
    refine ⟨h.policy, fun none => absurd (h.idle none) some_idle, h.active_le, h.tight,
      fun hs => h.same fun d hd => hs d (List.mem_append_left _ hd), ?_⟩
    -- No lease has been claimed, as some connection was idle.
    intro x hx hc
    rcases List.mem_append.1 hx with hx | hx
    · exact absurd (h.claimed x hx hc).1 some_idle
    · rw [List.mem_singleton.1 hx] at hc
      cases hc
  | claim free none_idle full overdue =>
    obtain ⟨rest, counters, ha, -, rfl⟩ := Books.claimOverdue?_eq_some overdue
    -- All places were taken by leases, since none was idle; the claim makes one free.
    have none := Books.takeIdle?_eq_none.1 none_idle
    have full := Books.canOpen_eq_false.1 full
    have le := within.taken_le
    have active_le := h.active_le
    rw [taken, none, ha] at le
    rw [h.policy, ha] at full
    rw [h.policy] at le
    rw [ha] at active_le
    simp only [List.length_nil, List.length_cons] at le full active_le
    refine ⟨h.policy, fun _ => none, ?_, fun _ => full, fun hs => ?_, fun _ _ _ => ⟨none, ?_⟩⟩
    · dsimp only
      omega
    · have := hs _ (List.mem_append_right _ (List.mem_singleton_self _))
      cases this
    · dsimp only
      omega
  | ask free none_idle room => exact h.keep rfl rfl rfl rfl
  | receive asked => exact h.keep rfl rfl rfl rfl
  | renew has => exact h.keep rfl rfl rfl rfl
  | lease has => cases quiet
  | reject has => exact h.keep rfl rfl rfl rfl
  | letGo has => exact h.keep rfl rfl rfl rfl
  | countWait free => exact h.keep rfl rfl rfl rfl
  | addWaitTime free => exact h.keep rfl rfl rfl rfl
  | _ => cases purpose

/-- What an acquisition does before it hands out a connection. -/
theorem Path.drawn (h : Path c₀ ds c) (within : c₀.Within)
    (purpose : ∀ d ∈ ds, d.purpose? = some .acquire) (quiet : ∀ d ∈ ds, d.issued? = none) :
    Drawn c₀ ds c := by
  have both := h.keeps
    (I := fun ds c => c.Within ∧ ((∀ d ∈ ds, d.purpose? = some .acquire ∧ d.issued? = none) →
      Drawn c₀ ds c))
    (fun {m ds c d c'} hi hd => ⟨hi.1.step hd, fun all => ?_⟩)
    ⟨within, fun _ => ⟨rfl, id, Nat.le_refl _, id, fun _ => rfl,
      fun _ hd => absurd hd List.not_mem_nil⟩⟩
  · exact both.2 fun d hd => ⟨purpose d hd, quiet d hd⟩
  · have last := all d (List.mem_append_right _ (List.mem_singleton_self _))
    exact (hi.2 fun d hd => all d (List.mem_append_left _ hd)).step hi.1 hd last.1 last.2

/-- What a call that does not acquire does while its hand is empty changes neither the leased nor
    the idle connections nor the limit. -/
structure Untouched (c c' : Custody) : Prop where
  maxActive : c'.books.policy.maxActive = c.books.policy.maxActive
  idle : c'.books.idle = c.books.idle
  active : c'.books.active = c.books.active

/-- A call that does not acquire keeps something in hand from the first connection that it takes
    out of the books until it rouses the sleepers. -/
theorem Path.untouched {hs : List Handle} {os : List (ConnectionId × Physical)}
    (h : Path c ds c') (sound : Sound hs os c) (purpose : ∀ d ∈ ds, d.purpose? = some k)
    (other : k ≠ .acquire) (empty : c'.hand = .empty) : c.hand = .empty ∧ Untouched c c' := by
  induction h generalizing hs os with
  | nil => exact ⟨empty, rfl, rfl, rfl⟩
  | @cons m c c' c'' d ds hd _ ih =>
    -- Nothing is in hand after the first deed, as the others would not have emptied the hand.
    rw [List.forall_mem_cons] at purpose
    obtain ⟨empty', untouched⟩ := ih (sound.step hd) purpose.2 empty
    have acquires : d.purpose? ≠ some .acquire := fun ha => other (by simp_all)
    have step : c.hand = .empty ∧ Untouched c c' := by
      cases hd with
      | refuse free => exact ⟨free, rfl, rfl, rfl⟩
      | tolerate free => exact ⟨free, rfl, rfl, rfl⟩
      | misplace free found old =>
        -- No lease is out of date.
        rw [sound.current_of_removeActive? found] at old
        cases old
      | abandon has | lose has | rouse has => cases purpose.1
      | take | ask | receive | claim | renew | lease | reject | letGo | countWait | addWaitTime =>
        exact absurd rfl acquires
      | _ => cases empty'
    exact ⟨step.1, untouched.maxActive.trans step.2.maxActive,
      untouched.idle.trans step.2.idle, untouched.active.trans step.2.active⟩

end Custody

/-! ## Turns -/

namespace Pool

variable {p : Pool} {id : CallId} {w : Work} {x : Ending}

theorem sleepers_passLock (p : Pool) : p.passLock.sleepers = p.sleepers := by
  cases h : p.queue <;> simp only [passLock, h]

theorem sleepers_greet (w : Work) : (p.turn.greet w).pool.sleepers = p.sleepers := by
  unfold Turn.greet
  split <;> rfl

theorem books_lock (t : Turn) (id : CallId) (intent : Intent) :
    (t.lock id intent).pool.books = t.pool.books := by
  cases h : t.pool.holder <;> simp only [Turn.lock, Turn.work, h]

theorem sleepers_lock (t : Turn) (id : CallId) (intent : Intent) :
    (t.lock id intent).pool.sleepers = t.pool.sleepers := by
  cases h : t.pool.holder <;> simp only [Turn.lock, Turn.work, h]

theorem holder_lock (t : Turn) (id : CallId) (intent : Intent) (held : t.pool.holder ≠ none) :
    (t.lock id intent).pool.holder = t.pool.holder := by
  cases h : t.pool.holder with
  | none => exact absurd h held
  | some _ => simp only [Turn.lock, h]

end Pool

namespace Move

/-- Whether a lease is claimed in a turn. -/
def Claims (v : Move) : Prop :=
  v.before.books.counters.overdue < v.after.books.counters.overdue

/-- The turn of a call that does not hold the lock. -/
structure Aside (v : Move) : Prop where
  books : v.after.books = v.before.books
  holder : v.before.holder ≠ none → v.after.holder = v.before.holder
  sleepers : v.after.sleepers ⊆ v.before.sleepers
  issued : v.issued? = none
  /-- The call is a new one, or it is in another place than that of the holder. -/
  caller : v.caller = v.before.nextCall ∧ v.after.nextCall = v.before.nextCall + 1 ∨
    v.caller ∈ v.before.calls ∧ ∀ w, v.before.holder ≠ some (v.caller, w)

/-- The turn of the holder of the lock, which has done some work: it does the deeds `ds`, which
    lead to the custody `c`, and has the ending `x`. -/
structure ByHolder (v : Move) (w : Work) (ds : List Deed) (x : Ending) (c : Custody) :
    Prop where
  holds : v.before.holder = some (v.caller, w)
  path : Custody.Path v.before.custody ds c
  purpose : ∀ d ∈ ds, d.purpose? = some w.purpose
  issued : ∃ before, ds = before ++ v.issued?.toList.map Deed.lease ∧
    ∀ d ∈ before, d.issued? = none
  fits : ∃ m, x.Fits m w.purpose c
  after : ∃ q : Pool, q.holder = v.before.holder ∧ q.calls = v.before.calls ∧
    q.sleepers = v.before.sleepers ∧ q.books = c.books ∧ v.after = q.ended v.caller x
  outcome : v.turn.outcome = x.outcome?

variable {p : Pool} {e : Event}

/-- The turn of a call that asks for the lock. -/
theorem aside_lock {t : Turn} {id : CallId} {intent : Intent} (books : t.pool.books = p.books)
    (holder : t.pool.holder = p.holder) (sleepers : t.pool.sleepers ⊆ p.sleepers)
    (outcome : t.outcome = none)
    (caller : (⟨p, e, t.lock id intent⟩ : Move).caller = p.nextCall ∧
        t.pool.nextCall = p.nextCall + 1 ∨
      (⟨p, e, t.lock id intent⟩ : Move).caller ∈ p.calls ∧
        ∀ w, p.holder ≠ some ((⟨p, e, t.lock id intent⟩ : Move).caller, w)) :
    Aside ⟨p, e, t.lock id intent⟩ where
  books := (Pool.books_lock t id intent).trans books
  holder held := (Pool.holder_lock t id intent (holder ▸ held)).trans holder
  sleepers := by rwa [after, Pool.sleepers_lock]
  issued := by
    rw [issued?, Pool.outcome_lock, outcome]
    rfl
  caller := caller.imp_left fun h => ⟨h.1, (Pool.nextCall_lock t id intent).trans h.2⟩

/-- The turn of a call that runs an errand. -/
theorem aside_errand {id : CallId} {s : Signal} {m : Moment} {q : Errand} {t : Turn}
    (elsewhere : ∀ w, p.holder ≠ some (id, w)) (found : p.errands.lookup id = some q)
    (h : p.turn.advanceErrand id q s = some t) : Aside ⟨p, .resume id s m, t⟩ := by
  have caller : id ∈ p.calls := by simp [Pool.calls, Pool.mem_map_of_lookup found]
  unfold Turn.advanceErrand at h
  split at h <;> cases h <;>
    exact ⟨rfl, fun _ => rfl, List.Subset.refl _, rfl, .inr ⟨caller, elsewhere⟩⟩

/-- If no call is dropped, a turn is that of a call elsewhere, or of the holder of the lock. -/
theorem aside_or_byHolder {t : Turn} (h : p.Responds e t) (kept : e.isDrop = false) :
    Aside ⟨p, e, t⟩ ∨ ∃ w ds x c, ByHolder ⟨p, e, t⟩ w ds x c := by
  cases h with
  | enter ns intent =>
    exact .inl (aside_lock rfl rfl (List.Subset.refl _) rfl (.inl ⟨rfl, rfl⟩))
  | decline ns e =>
    exact .inl ⟨rfl, fun _ => rfl, List.Subset.refl _, rfl, .inl ⟨rfl, rfl⟩⟩
  | send request => exact .inl ⟨rfl, fun _ => rfl, List.Subset.refl _, rfl, .inl ⟨rfl, rfl⟩⟩
  -- The work of the holder is a path of deeds, and its ending says how the lock is given on.
  | @goOn id w s m t holds h =>
    obtain ⟨ds, x, c, hd⟩ := Turn.advanceWork_acts p.turn id m h
    have path := hd.path
    have outcome : t.outcome = x.outcome? := by
      rw [hd.outcome, Pool.outcome_greet, Option.or_none]
    refine .inr ⟨w, ds, x, c, holds, ?_, hd.purpose, ?_, ⟨m, hd.fits⟩,
      ⟨(p.turn.greet w).pool.having c, Pool.holder_greet w, Pool.calls_greet w,
        Pool.sleepers_greet w, rfl, hd.pool⟩, outcome⟩
    · rw [Pool.custodyWith_greet] at path
      rwa [Pool.custody, Pool.hand, holds]
    · rw [issued?, outcome]
      exact hd.issued
  | @relock id m s elsewhere found =>
    have caller : id ∈ p.calls := by simp [Pool.calls, (Pool.mem_map_of_find? found).2]
    exact .inl (aside_lock rfl rfl (List.Subset.refl _) rfl (.inr ⟨caller, elsewhere⟩))
  | @getUp id m s elsewhere found due =>
    have caller : id ∈ p.calls := by simp [Pool.calls, (Pool.mem_map_of_find? found).2]
    exact .inl (aside_lock rfl rfl (List.filter_subset_self _) rfl (.inr ⟨caller, elsewhere⟩))
  | errand elsewhere found h => exact .inl (aside_errand elsewhere found h)
  | cut holds => cases kept
  | withdraw elsewhere found => cases kept
  | desert elsewhere found => cases kept
  | forget elsewhere found => cases kept

/-! ## The holder of the lock -/

namespace ByHolder

variable {v : Move} {w : Work} {ds : List Deed} {x : Ending} {c : Custody}

theorem books (h : v.ByHolder w ds x c) : v.after.books = c.books := by
  obtain ⟨q, -, -, -, books, after⟩ := h.after
  rw [after, Pool.books_ended, books]

theorem mem_calls (h : v.ByHolder w ds x c) : v.caller ∈ v.before.calls :=
  Pool.mem_calls_of_holder h.holds

/-- Nobody else holds the lock. -/
theorem eq_caller (h : v.ByHolder w ds x c) {i : CallId} {w' : Work}
    (holds : v.before.holder = some (i, w')) : i = v.caller ∧ w' = w := by
  rw [h.holds, Option.some.injEq, Prod.mk.injEq] at holds
  exact ⟨holds.1.symm, holds.2.symm⟩

theorem calls_subset (h : v.ByHolder w ds x c) : v.after.calls ⊆ v.before.calls := by
  obtain ⟨q, holder, calls, -, -, after⟩ := h.after
  rw [after, ← calls]
  exact (Pool.calls_ended (holder.trans h.holds)).subset

/-- A call that is over is in no place. -/
theorem not_mem_calls (h : v.ByHolder w ds x c) (once : v.before.calls.Nodup)
    (ended : x.outcome?.isSome) : v.caller ∉ v.after.calls := by
  obtain ⟨q, holder, calls, -, -, after⟩ := h.after
  rw [after]
  exact Pool.not_mem_calls_ended (holder.trans h.holds) (calls ▸ once) ended

theorem issued?_of_outcome? (h : v.ByHolder w ds x c) (goes_on : x.outcome? = none) :
    v.issued? = none := by
  rw [issued?, h.outcome, goes_on]
  rfl

theorem holder_of_work {w' : Work} (h : v.ByHolder w ds (.work w') c) :
    v.after.holder = some (v.caller, w') := by
  obtain ⟨q, -, -, -, -, after⟩ := h.after
  rw [after]
  rfl

/-- Nobody sleeps any more when the sleepers have been roused. -/
theorem sleepers_of_freed {o : Outcome} (h : v.ByHolder w ds (.freed o) c) :
    v.after.sleepers = [] := by
  obtain ⟨q, -, -, -, -, after⟩ := h.after
  rw [after]
  rfl

theorem sleepers_of_work {w' : Work} (h : v.ByHolder w ds (.work w') c) :
    v.after.sleepers = v.before.sleepers := by
  obtain ⟨q, -, -, sleepers, -, after⟩ := h.after
  rw [after, ← sleepers]
  rfl

theorem sleepers_of_finished {o : Outcome} (h : v.ByHolder w ds (.finished o) c) :
    v.after.sleepers = v.before.sleepers := by
  obtain ⟨q, -, -, sleepers, -, after⟩ := h.after
  rw [after, ← sleepers]
  exact Pool.sleepers_passLock q

theorem claims_iff (h : v.ByHolder w ds x c) : v.Claims ↔ ∃ d ∈ ds, d.isClaim = true := by
  rw [Claims, h.books, h.path.overdue, ← List.countP_pos_iff (p := Deed.isClaim)]
  exact Nat.lt_add_right_iff_pos

end ByHolder

/-! ## Acquisitions -/

/-- What an acquisition does to the books in a turn. While no connection is handed out, there is
    one leased connection less at most, and then a lease has been claimed. -/
structure Draws (v : Move) : Prop where
  policy : v.after.books.policy = v.before.books.policy
  idle : v.before.books.idle = [] → v.after.books.idle = []
  tight : v.before.books.policy.maxActive.toNat ≤ v.before.books.active.length + 1 →
    v.before.books.policy.maxActive.toNat ≤ v.after.books.active.length + 1
  filled : v.issued? ≠ none →
    v.before.books.policy.maxActive.toNat ≤ v.before.books.active.length + 1 →
    v.before.books.policy.maxActive.toNat ≤ v.after.books.active.length
  active_le : v.issued? = none → v.after.books.active.length ≤ v.before.books.active.length
  same : v.issued? = none → ¬ v.Claims →
    v.after.books.active.length = v.before.books.active.length
  claimed : v.issued? = none → v.Claims → v.after.books.idle = [] ∧
    v.after.books.active.length < v.before.books.policy.maxActive.toNat

namespace ByHolder

variable {v : Move} {w : Work} {ds : List Deed} {x : Ending} {c : Custody}

/-- The turn of an acquisition that holds the lock. -/
theorem draws (h : v.ByHolder w ds x c) (acquires : w.purpose = .acquire)
    (within : v.before.custody.Within) : v.Draws := by
  have path := h.path
  have purpose : ∀ d ∈ ds, d.purpose? = some .acquire := acquires ▸ h.purpose
  have claims := h.claims_iff
  have books := h.books
  obtain ⟨before, hb, quiet⟩ := h.issued
  cases hi : v.issued? with
  | none =>
    -- Nothing is handed out, so the books are as all deeds together have drawn on them.
    rw [hi] at hb
    obtain rfl : ds = before := hb.trans (List.append_nil _)
    have drawn := path.drawn within purpose quiet
    refine ⟨?_, ?_, ?_, fun hn => absurd hi hn, ?_, ?_, ?_⟩
    · rw [books]
      exact drawn.policy
    · rw [books]
      exact drawn.idle
    · rw [books]
      exact drawn.tight
    · rw [books]
      exact fun _ => drawn.active_le
    · intro _ hc
      rw [books]
      refine drawn.same fun d hd => ?_
      rw [← Bool.not_eq_true]
      exact fun hcl => hc (claims.2 ⟨d, hd, hcl⟩)
    · intro _ hc
      rw [books]
      obtain ⟨d, hd, hcl⟩ := claims.1 hc
      exact drawn.claimed d hd hcl
  | some handle =>
    -- The last deed hands out the candidate, which fills the place that the others have left.
    rw [hi] at hb
    obtain rfl : ds = before ++ [.lease handle] := hb
    obtain ⟨m, c₁, path₁, last⟩ := path.of_snoc
    have drawn := path₁.drawn within
      (fun d hd => purpose d (List.mem_append_left _ hd)) quiet
    have tight := drawn.tight
    have policy : c.books.policy = c₁.books.policy := by cases last; rfl
    have idle : c.books.idle = c₁.books.idle := by cases last; rfl
    have active : c.books.active.length = c₁.books.active.length + 1 := by
      cases last
      simp
    have filled : v.issued? ≠ none := hi ▸ Option.some_ne_none handle
    refine ⟨?_, ?_, ?_, ?_, fun none => absurd none filled, fun none => absurd none filled,
      fun none => absurd none filled⟩
    · rw [books, policy]
      exact drawn.policy
    · intro none
      rw [books, idle]
      exact drawn.idle none
    · intro ht
      rw [books, active]
      exact Nat.le_succ_of_le (tight ht)
    · intro _ ht
      rw [books, active]
      exact tight ht

end ByHolder

end Move

/-! ## Other calls -/

/-- Whether a call that does not acquire has taken connections out of the books, and is going to
    rouse the sleepers. -/
def Pool.Returning (p : Pool) : Prop :=
  ∃ id w, p.holder = some (id, w) ∧ w.purpose ≠ .acquire ∧ w.hand ≠ .empty

namespace Move.ByHolder

variable {v : Move} {w : Work} {ds : List Deed} {x : Ending} {c : Custody}

theorem issued?_of_other (h : v.ByHolder w ds x c) (other : w.purpose ≠ .acquire) :
    v.issued? = none := by
  obtain ⟨before, hb, -⟩ := h.issued
  cases hi : v.issued? with
  | none => rfl
  | some handle =>
    have last : Deed.lease handle ∈ ds := by simp [hb, hi]
    exact absurd (Option.some.inj (h.purpose _ last)).symm other

theorem not_claims_of_other (h : v.ByHolder w ds x c) (other : w.purpose ≠ .acquire) :
    ¬ v.Claims := by
  rw [h.claims_iff]
  rintro ⟨d, hd, claim⟩
  cases d <;> cases claim
  exact other (Option.some.inj (h.purpose _ hd)).symm

/-- As long as somebody sleeps, a call that does not acquire has changed neither the leased nor
    the idle connections, or it has not ended yet. -/
theorem untouched_or_returning (h : v.ByHolder w ds x c) (other : w.purpose ≠ .acquire)
    {hs : List Handle} {os : List (ConnectionId × Physical)}
    (sound : Custody.Sound hs os v.before.custody) (asleep : v.after.sleepers ≠ []) :
    v.before.hand = .empty ∧ v.before.custody.Untouched c ∧
        v.after.sleepers = v.before.sleepers ∨
      v.after.Returning := by
  have untouched : c.hand = .empty → v.before.hand = .empty ∧ v.before.custody.Untouched c :=
    h.path.untouched sound h.purpose other
  obtain ⟨m, fits⟩ := h.fits
  cases x with
  | work w' =>
    -- It may have the lock and not have begun its work, or be in the middle of it.
    by_cases empty : w'.hand = .empty
    · obtain ⟨hand, same⟩ := untouched (fits.1.trans empty)
      exact .inl ⟨hand, same, h.sleepers_of_work⟩
    · exact .inr ⟨_, w', h.holder_of_work, fits.2.symm ▸ other, empty⟩
  | finished o =>
    obtain ⟨hand, same⟩ := untouched fits
    exact .inl ⟨hand, same, h.sleepers_of_finished⟩
  | freed o => exact absurd h.sleepers_of_freed asleep
  | asleep a since limit => exact absurd fits.1 other

end Move.ByHolder

end LeasePool
