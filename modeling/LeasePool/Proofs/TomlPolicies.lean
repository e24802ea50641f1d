import LeasePool.Proofs.Documents
import LeasePool.Proofs.TomlText

/-!
# Policies in TOML documents

Every part of a policy but one can be said in a TOML document, whatever its query is and as long as
its numbers fit into signed words of 64 bits (`Policy.InRange`). The exception is that no connection
is ever tested for being unused: such a policy has no threshold, a document has no way to say that
there is none, and a key that is left out has its default, which is a threshold of zero. So a policy
without a threshold is described by no document at all, though its JSON text is read back.

* `ofToml?_entries`: the lines of a policy with a threshold stand for it;
* `threshold_of_ofToml?`: a policy that a table stands for has a threshold;
* `described_iff`: the policies that documents describe.
-/

namespace LeasePool

@[simp] theorem Toml.Value.uint64?_toNat (n : UInt64) : uint64? (.integer n.toNat) = some n := by
  simp [uint64?, n.toNat_lt_size]

namespace Policy

/-- The numbers of a policy. -/
def numbers (p : Policy) : List Nat :=
  ([p.maxActive, p.maxIdle, p.maxCheckoutMs, p.maxWaitMs, p.badConnectionTolerance] ++
    p.pingIdleThresholdMs.toList).map UInt64.toNat

/-- Every number of a policy fits into a signed word of 64 bits. -/
def InRange (p : Policy) : Prop := ∀ n ∈ p.numbers, n < Toml.numberLimit

instance (p : Policy) : Decidable p.InRange := inferInstanceAs (Decidable (∀ n ∈ p.numbers, _))

/-- The lines of a document of a policy with a given threshold. -/
def tomlLines (p : Policy) (threshold : UInt64) : List Toml.Line :=
  [⟨"max_active", .number p.maxActive.toNat⟩,
   ⟨"max_idle", .number p.maxIdle.toNat⟩,
   ⟨"max_checkout_time_ms", .number p.maxCheckoutMs.toNat⟩,
   ⟨"max_wait_ms", .number p.maxWaitMs.toNat⟩,
   ⟨"bad_connection_tolerance", .number p.badConnectionTolerance.toNat⟩,
   ⟨"ping_enabled", .boolean p.pingEnabled⟩,
   ⟨"ping_query", .string p.pingQuery⟩,
   ⟨"ping_idle_threshold_ms", .number threshold.toNat⟩]

variable {p : Policy} {threshold : UInt64}

theorem keys_tomlLines : (p.tomlLines threshold).map Toml.Line.key = fieldNames := rfl

/-- Every line of a policy with a threshold can be written. -/
theorem fits_tomlLines (inRange : p.InRange) (given : p.pingIdleThresholdMs = some threshold) :
    ∀ l ∈ p.tomlLines threshold, l.Fits := by
  have bare : ∀ name ∈ fieldNames,
      name ≠ "" ∧ name.toList.all Toml.isKeyChar = true := by decide
  have values : ∀ l ∈ p.tomlLines threshold, l.value.Fits := by
    simpa [InRange, numbers, given, tomlLines, Toml.Scalar.Fits] using inRange
  intro l hl
  obtain ⟨key_ne, chars⟩ := bare l.key (keys_tomlLines ▸ List.mem_map_of_mem hl)
  exact ⟨key_ne, List.all_eq_true.1 chars, values l hl⟩

theorem nodup_keys_tomlLines : ((p.tomlLines threshold).map Toml.Line.key).Nodup := by
  rw [keys_tomlLines]
  decide

/-- Each key is found with its value, so that no default is used. -/
theorem ofToml?_entries (given : p.pingIdleThresholdMs = some threshold) :
    ofToml? ((p.tomlLines threshold).map Toml.Line.entry) = some p := by
  have distinct : (((p.tomlLines threshold).map Toml.Line.entry).map Prod.fst).Nodup := by
    rw [List.map_map]
    exact nodup_keys_tomlLines
  have found : ∀ l ∈ p.tomlLines threshold,
      ((p.tomlLines threshold).map Toml.Line.entry).lookup l.key = some l.value.value :=
    fun l hl => Json.lookup_of_mem (m := l.entry) distinct (List.mem_map_of_mem hl)
  generalize (p.tomlLines threshold).map Toml.Line.entry = t at found ⊢
  simp only [tomlLines, List.forall_mem_cons, Toml.Scalar.value] at found
  have whole : { p with pingIdleThresholdMs := some threshold } = p := by rw [← given]
  simp [ofToml?, Toml.Table.withDefault, found, Toml.Value.boolean?, Toml.Value.string?, whole]

/-- A policy that a table stands for has a threshold: the one that is given, or the default. -/
theorem threshold_of_ofToml? {t : Toml.Table} (h : ofToml? t = some p) :
    p.pingIdleThresholdMs ≠ none := by
  simp only [ofToml?, Option.bind_eq_bind, Option.bind_eq_some_iff, Option.pure_def,
    Option.some.injEq] at h
  obtain ⟨-, -, -, -, -, -, -, -, -, -, -, -, -, -, ms, read, rfl⟩ := h
  rw [Toml.Table.withDefault] at read
  split at read
  · next v given =>
    obtain ⟨n, -, rfl⟩ := Option.map_eq_some_iff.1 read
    exact Option.some_ne_none n
  · obtain rfl := Option.some.inj read
    exact Option.some_ne_none 0

/-- What a document describes is allowed, and stands for a policy on its own. -/
theorem parseToml_eq_ok {source : String} :
    parseToml source = .ok p ↔
      (∃ t, Toml.parse source = some t ∧ ofToml? t = some p) ∧ p.validate = .ok () := by
  rw [← Option.bind_eq_some_iff, ← Option.bind_eq_bind, parseToml]
  cases Toml.parse source >>= ofToml? with
  | none => simp
  | some q =>
    cases valid : q.validate with
    | error e =>
      have refused : ¬ (q = p ∧ p.validate = .ok ()) := by
        rintro ⟨rfl, accepted⟩
        simp [valid] at accepted
      simpa [valid] using refused
    | ok _ =>
      have accepted : q = p ↔ q = p ∧ p.validate = .ok () :=
        ⟨fun same => ⟨same, same ▸ valid⟩, And.left⟩
      simpa [valid] using accepted

/-- A policy whose numbers are in range is described by a document exactly if it allows connections
    and has a threshold for tests. -/
theorem described_iff (inRange : p.InRange) :
    (∃ source, parseToml source = .ok p) ↔
      p.validate = .ok () ∧ p.pingIdleThresholdMs ≠ none := by
  constructor
  · rintro ⟨source, described⟩
    obtain ⟨⟨t, -, read⟩, valid⟩ := parseToml_eq_ok.1 described
    exact ⟨valid, threshold_of_ofToml? read⟩
  · rintro ⟨valid, given⟩
    obtain ⟨threshold, given⟩ := Option.ne_none_iff_exists'.1 given
    exact ⟨Toml.written (p.tomlLines threshold), parseToml_eq_ok.2
      ⟨⟨_, Toml.parse_written (fits_tomlLines inRange given) nodup_keys_tomlLines,
        ofToml?_entries given⟩, valid⟩⟩

/-- A policy with a query of characters that must be escaped, and with the greatest numbers. -/
def intricate : Policy :=
  { maxActive := 9223372036854775807, maxIdle := 9223372036854775807,
    maxCheckoutMs := 9223372036854775807, maxWaitMs := 9223372036854775807,
    badConnectionTolerance := 9223372036854775807, pingEnabled := true,
    pingQuery := "SELECT \"é\" \\ 1;\r\n\x00\x7f", pingIdleThresholdMs := some 9223372036854775807 }

theorem intricate_described : intricate.InRange ∧ ∃ source, parseToml source = .ok intricate := by
  have inRange : intricate.InRange := by decide
  exact ⟨inRange, (described_iff inRange).2 ⟨rfl, by decide⟩⟩

/-- The policy that never tests a connection, and has defaults for the rest. -/
def untested : Policy := { default with pingIdleThresholdMs := none }

/-- It is a policy like any other, but no document describes it. -/
theorem untested_not_described :
    untested.validate = .ok () ∧ untested.InRange ∧ ∀ source, parseToml source ≠ .ok untested := by
  refine ⟨rfl, by decide, fun source described => ?_⟩
  obtain ⟨⟨t, -, read⟩, -⟩ := parseToml_eq_ok.1 described
  exact threshold_of_ofToml? read rfl

end Policy

end LeasePool
