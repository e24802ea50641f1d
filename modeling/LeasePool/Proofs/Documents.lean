import LeasePool.DataSource.Document
import LeasePool.Policy.Document
import LeasePool.Proofs.JsonText
import LeasePool.Snapshot.Document
import Mathlib.Data.List.Nodup

/-!
# Documents are read as what they were written for

A policy, a data source or a snapshot that is written as compact JSON text is
read back from it, whatever its words and texts are. A record is written with
every field, once and by its name, so that each of its fields is found again
(`Json.fields?_record`) and no default is used; properties are written in the
order of their names, in which they are put together again
(`Properties.ofList_entries`). The spans of a snapshot are written in seconds
and nanoseconds, and must have no more seconds than a word of 64 bits
(`Snapshot.Fits`).

* `Policy.ofJson?_toJson`, `DataSource.ofJson?_toJson`,
  `Snapshot.ofJson?_toJson`: the values that are written are read as what they
  stand for;
* `reads_back`: so are their texts.
-/

namespace LeasePool

/-! ### Values of fields -/

namespace Json

@[simp] theorem uint64?_toNat (n : UInt64) : uint64? (.nat n.toNat) = some n := by
  simp [uint64?, UInt64.toNat_lt_size]

/-- A number that fits into a word of 64 bits is read as the word. -/
theorem exists_uint64? {n : Nat} (h : n < UInt64.size) :
    ∃ w : UInt64, uint64? (.nat n) = some w ∧ w.toNat = n :=
  ⟨UInt64.ofNat n, if_pos h, UInt64.toNat_ofNat_of_lt h⟩

@[simp] theorem bool?_bool (b : Bool) : bool? (.bool b) = some b := rfl

@[simp] theorem text?_text (s : String) : text? (.text s) = some s := rfl

/-- An optional value is read back, unless it is written as none is. -/
@[simp] theorem nullable?_ofOption {read : Json → Option α} {write : α → Json}
    (h : ∀ a, read (write a) = some a) (hnull : ∀ a, write a ≠ .null) (a : Option α) :
    nullable? read (ofOption write a) = some a := by
  cases a with
  | none => rfl
  | some a =>
    simp only [ofOption, nullable?]
    split
    · next hw => exact absurd hw (hnull a)
    · simp [h a]

/-- The members of a record have their names as keys. -/
@[simp] theorem textKeys?_record (members : List (String × Json)) :
    textKeys? (members.map fun m => (some m.1, m.2)) = some members := by
  rw [textKeys?]
  induction members with
  | nil => rfl
  | cons m ms ih =>
    simp only [List.map_cons, List.mapM_cons, ih]
    rfl

/-- Each of several values with different keys is found by its key. -/
theorem lookup_of_mem {members : List (String × α)} (h : (members.map Prod.fst).Nodup)
    {m : String × α} (hm : m ∈ members) : members.lookup m.1 = some m.2 := by
  induction members with
  | nil => cases hm
  | cons n ns ih =>
    obtain ⟨hn, hns⟩ := List.nodup_cons.1 h
    rw [List.lookup_cons]
    rcases List.mem_cons.1 hm with rfl | hm
    · simp
    · have hne : m.1 ≠ n.1 := fun heq => hn (heq ▸ List.mem_map_of_mem hm)
      rw [beq_false_of_ne hne]
      exact ih hns hm

/-- A record that is written with its declared names, each of them once, gives
    each field the value that was written. -/
theorem fields?_record {j : Json} {names : List String} {members : List (String × Json)}
    (hj : j = record members) (hnames : members.map Prod.fst = names) (hdistinct : names.Nodup) :
    ∃ fields, j.fields? names = some fields ∧ ∀ m ∈ members, fields m.1 = some m.2 := by
  have honce : ∀ name ∈ names, (members.filter fun m => m.1 == name).length ≤ 1 := by
    intro name _
    have hcount := List.nodup_iff_count_le_one.1 (hnames ▸ hdistinct) name
    rwa [List.count, List.countP_map, List.countP_eq_length_filter] at hcount
  refine ⟨fun name => members.lookup name, ?_, fun m => lookup_of_mem (hnames ▸ hdistinct)⟩
  simp only [hj, record, fields?, textKeys?_record, Option.bind_eq_bind, Option.bind_some]
  rw [if_pos (List.all_eq_true.2 fun name hname => decide_eq_true (honce name hname))]
  rfl

/-- So does a record that tolerates no other fields. -/
theorem exactFields?_record {j : Json} {names : List String} {members : List (String × Json)}
    (hj : j = record members) (hnames : members.map Prod.fst = names) (hdistinct : names.Nodup) :
    ∃ fields, j.exactFields? names = some fields ∧ ∀ m ∈ members, fields m.1 = some m.2 := by
  have hgiven : members.all (fun m => names.contains m.1) = true :=
    List.all_eq_true.2 fun m hm => List.contains_iff_mem.2 (hnames ▸ List.mem_map_of_mem hm)
  obtain ⟨fields, hfields, hget⟩ := fields?_record hj hnames hdistinct
  refine ⟨fields, ?_, hget⟩
  rw [hj, record] at hfields ⊢
  rw [exactFields?, textKeys?_record, Option.bind_eq_bind, Option.bind_some, if_pos hgiven, hfields]

end Json

/-! ### Policies -/

namespace Policy

theorem plain_toJson (p : Policy) : p.toJson.Plain :=
  Json.plain_record (by simp)

/-- A policy is read from what it is written as. -/
theorem ofJson?_toJson (p : Policy) : ofJson? p.toJson = some p := by
  obtain ⟨fields, hfields, hget⟩ :=
    Json.fields?_record (j := p.toJson) rfl (show _ = fieldNames from rfl) (by decide)
  simp only [List.forall_mem_cons] at hget
  simp [ofJson?, hfields, Json.Fields.withDefault, hget]

end Policy

/-! ### Data sources -/

namespace IsolationLevel

theorem plain_toJson (level : IsolationLevel) : level.toJson.Plain := Json.plain_text level.key

@[simp] theorem ofJson?_toJson (level : IsolationLevel) : ofJson? level.toJson = some level :=
  ofKey?_key level

@[simp] theorem toJson_ne_null (level : IsolationLevel) : level.toJson ≠ .null := nofun

end IsolationLevel

namespace Properties

/-- A name above all others comes last. -/
theorem place_eq_append {name value : String} {entries : List (String × String)}
    (h : ∀ e ∈ entries, e.1 < name) : place name value entries = entries ++ [(name, value)] := by
  induction entries with
  | nil => rfl
  | cons e rest ih =>
    obtain ⟨he, hrest⟩ := List.forall_mem_cons.1 h
    rw [place, if_neg (String.lt_asymm he), if_pos he, ih hrest, List.cons_append]

/-- Ascending pairs that follow the entries so far are appended to them. -/
theorem entries_foldl (pairs : List (String × String)) (p : Properties)
    (h : (p.entries ++ pairs).Pairwise fun a b => a.1 < b.1) :
    (pairs.foldl (fun p e => p.insert e.1 e.2) p).entries = p.entries ++ pairs := by
  induction pairs generalizing p with
  | nil => simp
  | cons e rest ih =>
    have hplace : (p.insert e.1 e.2).entries = p.entries ++ [e] :=
      place_eq_append fun d hd => (List.pairwise_append.1 h).2.2 d hd e List.mem_cons_self
    have happend : (p.insert e.1 e.2).entries ++ rest = p.entries ++ e :: rest := by
      rw [hplace, List.append_assoc, List.singleton_append]
    rw [List.foldl_cons, ih _ (happend ▸ h), happend]

/-- Properties are put together again from their entries. -/
theorem ofList_entries (p : Properties) : ofList p.entries = p := by
  have hentries : (ofList p.entries).entries = p.entries :=
    entries_foldl p.entries empty p.ascending
  cases hp : ofList p.entries
  cases p
  rw [hp] at hentries
  cases hentries
  rfl

theorem plain_toJson (p : Properties) : p.toJson.Plain :=
  Json.plain_record fun m hm => by
    obtain ⟨e, -, rfl⟩ := List.mem_map.1 hm
    exact Json.plain_text e.2

/-- Properties are read back from their own document. -/
theorem ofJson?_toJson (p : Properties) : ofJson? p.toJson = some p := by
  have hpairs : (p.entries.map fun e => (e.1, Json.text e.2)).mapM
      (fun m => m.2.text?.map fun v => (m.1, v)) = some p.entries := by
    induction p.entries with
    | nil => rfl
    | cons e rest ih =>
      rw [List.map_cons, List.mapM_cons, ih]
      rfl
  rw [toJson, Json.record]
  simp only [ofJson?, Json.textKeys?_record, Option.bind_eq_bind, Option.bind_some]
  rw [hpairs, Option.bind_some, ofList_entries]
  rfl

end Properties

namespace DataSource

theorem plain_toJson (s : DataSource) : s.toJson.Plain :=
  Json.plain_record (by simp [IsolationLevel.plain_toJson, Properties.plain_toJson])

/-- A data source is read from what it is written as. -/
theorem ofJson?_toJson (s : DataSource) : ofJson? s.toJson = some s := by
  obtain ⟨fields, hfields, hget⟩ :=
    Json.fields?_record (j := s.toJson) rfl (show _ = fieldNames from rfl) (by decide)
  simp only [List.forall_mem_cons] at hget
  have htext := Json.nullable?_ofOption Json.text?_text nofun
  have hbool := Json.nullable?_ofOption Json.bool?_bool nofun
  simp [ofJson?, hfields, Json.Fields.withDefault, Json.Fields.required, hget, htext, hbool,
    Properties.ofJson?_toJson]

end DataSource

/-! ### Snapshots -/

namespace Duration

theorem plain_toJson (d : Duration) : d.toJson.Plain :=
  Json.plain_record (by simp)

/-- A duration is read from what it is written as, if its seconds fit into a word
    of 64 bits. -/
theorem ofJson?_toJson {d : Duration} (h : d.secs < UInt64.size) : ofJson? d.toJson = some d := by
  have hsub : d.subsecNanos < 1000000000 := Nat.mod_lt _ (by decide)
  have hword : d.subsecNanos < UInt32.size := Nat.lt_trans hsub (by decide)
  obtain ⟨secs, hsecs, hs⟩ := Json.exists_uint64? h
  obtain ⟨nanos, hnanos, hn⟩ := Json.exists_uint64? (Nat.lt_trans hsub (by decide))
  obtain ⟨fields, hfields, hget⟩ :=
    Json.exactFields?_record (j := d.toJson) rfl (show _ = fieldNames from rfl) (by decide)
  simp only [List.forall_mem_cons] at hget
  simp only [ofJson?, hfields, Json.Fields.required, hget, hsecs, hnanos, hs, hn,
    Option.bind_eq_bind, Option.bind_some, ofParts_secs_subsecNanos]
  exact if_pos ⟨hword, h⟩

end Duration

namespace Snapshot

/-- The spans of a snapshot have seconds that fit into a word of 64 bits. -/
structure Fits (s : Snapshot) : Prop where
  request : s.requestTime.secs < UInt64.size
  wait : s.waitTime.secs < UInt64.size
  checkout : s.checkoutTime.secs < UInt64.size
  overdue : s.overdueCheckoutTime.secs < UInt64.size

theorem plain_toJson (s : Snapshot) : s.toJson.Plain :=
  Json.plain_record (by simp [Duration.plain_toJson])

/-- A snapshot is read from what it is written as. -/
theorem ofJson?_toJson {s : Snapshot} (h : s.Fits) : ofJson? s.toJson = some s := by
  obtain ⟨fields, hfields, hget⟩ :=
    Json.fields?_record (j := s.toJson) rfl (show _ = fieldNames from rfl) (by decide)
  simp only [List.forall_mem_cons] at hget
  simp [ofJson?, hfields, Json.Fields.required, hget, Duration.ofJson?_toJson h.request,
    Duration.ofJson?_toJson h.wait, Duration.ofJson?_toJson h.checkout,
    Duration.ofJson?_toJson h.overdue]

end Snapshot

/-! ### Texts -/

/-- Policies, data sources and snapshots are read back from their compact JSON
    texts. -/
theorem reads_back :
    (∀ p : Policy, Policy.parseJson? p.toJson.compact = some p) ∧
    (∀ s : DataSource, DataSource.parseJson? s.toJson.compact = some s) ∧
    (∀ s : Snapshot, s.Fits → Snapshot.parseJson? s.toJson.compact = some s) := by
  refine ⟨fun p => ?_, fun s => ?_, fun s hs => ?_⟩
  · rw [Policy.parseJson?, Json.parse_compact p.plain_toJson]
    exact p.ofJson?_toJson
  · rw [DataSource.parseJson?, Json.parse_compact s.plain_toJson]
    exact s.ofJson?_toJson
  · rw [Snapshot.parseJson?, Json.parse_compact s.plain_toJson]
    exact Snapshot.ofJson?_toJson hs

/-- The statistics with the greatest counts and the longest spans of time. -/
def Snapshot.full : Snapshot :=
  let count := 18446744073709551615
  let span := .ofParts 18446744073709551615 999999999
  { idle := count, active := count, waiting := count, requestCount := count, requestTime := span,
    hadToWaitCount := count, waitTime := span, checkoutTime := span, claimedOverdueCount := count,
    overdueCheckoutTime := span, badConnectionCount := count }

theorem reads_back_full :
    Snapshot.full.Fits ∧
      Snapshot.parseJson? Snapshot.full.toJson.compact = some Snapshot.full := by
  have hfits : Snapshot.full.Fits := ⟨by decide, by decide, by decide, by decide⟩
  exact ⟨hfits, reads_back.2.2 _ hfits⟩

end LeasePool
