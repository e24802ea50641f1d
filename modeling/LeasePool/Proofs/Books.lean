import LeasePool.Pool.Reset

/-!
# Changes of the books

What the operations of the books take out and put in, told by the lists of idle and of leased
connections. The operations that may find nothing come with what it means that they have found
something, or nothing.
-/

namespace LeasePool

namespace Books

variable {b b' : Books} {e : Entry} {now : Instant}

/-! ## What is counted and put in -/

@[simp] theorem idle_countBad : b.countBad.idle = b.idle := rfl

@[simp] theorem active_countBad : b.countBad.active = b.active := rfl

variable (b e) (d : Duration)

@[simp] theorem idle_keep : (b.keep e).idle = b.idle ++ [e] := rfl

@[simp] theorem active_keep : (b.keep e).active = b.active := rfl

@[simp] theorem policy_keep : (b.keep e).policy = b.policy := rfl

@[simp] theorem idle_lease : (b.lease e d).idle = b.idle := rfl

@[simp] theorem active_lease : (b.lease e d).active = b.active ++ [e] := rfl

variable {b e}

/-! ## What is taken out -/

theorem takeIdle?_eq_none : b.takeIdle? = none ↔ b.idle = [] := by
  cases h : b.idle <;> simp [takeIdle?, h]

theorem takeIdle?_countWait (h : b.takeIdle? = none) : b.countWait.takeIdle? = none :=
  takeIdle?_eq_none.2 (takeIdle?_eq_none (b := b) |>.1 h)

/-- The idle connection that was taken had been in front. -/
theorem takeIdle?_eq_some (h : b.takeIdle? = some (e, b')) :
    ∃ rest, b.idle = e :: rest ∧ b' = { b with idle := rest } := by
  rw [takeIdle?] at h
  split at h <;> cases h
  exact ⟨_, ‹_›, rfl⟩

theorem canOpen_iff : b.canOpen = true ↔ b.active.length < b.policy.maxActive.toNat :=
  decide_eq_true_iff

theorem canOpen_eq_false : b.canOpen = false ↔ b.policy.maxActive.toNat ≤ b.active.length := by
  rw [canOpen, decide_eq_false_iff_not, Nat.not_lt]

theorem hasIdleCapacity_iff :
    b.hasIdleCapacity = true ↔ b.idle.length < b.policy.maxIdle.toNat :=
  decide_eq_true_iff

theorem claimOverdue?_countWait (h : b.claimOverdue? now = none) :
    b.countWait.claimOverdue? now = none := by
  cases hb : b.active <;> simp_all [claimOverdue?, countWait]

/-- The lease that was claimed had been in front, and it is counted. -/
theorem claimOverdue?_eq_some (h : b.claimOverdue? now = some (e, b')) :
    ∃ rest counters, b.active = e :: rest ∧ counters.overdue = b.counters.overdue + 1 ∧
      b' = { b with active := rest, counters := counters } := by
  rw [claimOverdue?] at h
  split at h
  · cases h
  · dsimp only at h
    split at h <;> cases h
    exact ⟨_, _, ‹_›, rfl, rfl⟩

/-- A claim is neither a checkout nor a bad connection. -/
theorem counters_of_claimOverdue? (h : b.claimOverdue? now = some (e, b')) :
    b'.counters.requests = b.counters.requests ∧ b'.counters.bad = b.counters.bad := by
  rw [claimOverdue?] at h
  split at h
  · cases h
  · dsimp only at h
    split at h <;> cases h
    exact ⟨rfl, rfl⟩

/-- The lease that was found bears the number and the generation that were looked for. -/
theorem removeActive?_eq_some {id : ConnectionId} {generation : Nat}
    (h : b.removeActive? id generation = some (e, b')) :
    ∃ before later, b.active = before ++ e :: later ∧ e.id = id ∧ e.generation = generation ∧
      b' = { b with active := before ++ later } := by
  rw [removeActive?] at h
  split at h <;> cases h
  next found =>
  obtain ⟨is, before, later, ha, hb⟩ := List.find?_eq_some_iff_append.1 found
  have none_before : ∀ x ∈ before, ¬ (x.id == id && x.generation == generation) = true :=
    fun x hx => by simpa only [Bool.not_eq_eq_eq_not, Bool.not_true, Bool.not_eq_true] using hb x hx
  rw [Bool.and_eq_true, beq_iff_eq, beq_iff_eq] at is
  refine ⟨before, later, ha, is.1, is.2, ?_⟩
  rw [ha, List.eraseP_append_right _ none_before, List.eraseP_cons_of_pos (by simp [is])]

end Books

/-- A reset changes the policy or the data source, and nothing else before it empties the
    books. -/
theorem Reset.apply_eq_ok {r : Reset} {b b' : Books} (h : r.apply b = .ok b') :
    b'.idle = b.idle ∧ b'.active = b.active ∧ b'.counters = b.counters := by
  cases r with
  | closeAll => cases h; exact ⟨rfl, rfl, rfl⟩
  | replace policy => cases h; exact ⟨rfl, rfl, rfl⟩
  | configure change =>
    rw [apply] at h
    split at h <;> cases h
    exact ⟨rfl, rfl, rfl⟩
  | redirect change => cases h; exact ⟨rfl, rfl, rfl⟩

end LeasePool
