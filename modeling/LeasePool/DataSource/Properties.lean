/-!
# Driver properties

Named texts for the driver, kept in the order of their names, each name once.
So two collections with the same content are equal.

* `Properties.insert`: gives a name a value, replacing an earlier one.
-/

namespace LeasePool

/-- Named texts in the order of their names. -/
structure Properties where
  /-- The names with their values. -/
  entries : List (String × String)
  /-- The names ascend. -/
  ascending : entries.Pairwise fun a b => a.1 < b.1
  deriving DecidableEq

namespace Properties

/-- No properties. -/
def empty : Properties := ⟨[], .nil⟩

instance : Inhabited Properties := ⟨empty⟩

/-- The entries with a value for a name, at the place of the name. -/
def place (name value : String) : List (String × String) → List (String × String)
  | [] => [(name, value)]
  | e :: rest =>
    if name < e.1 then (name, value) :: e :: rest
    else if e.1 < name then e :: place name value rest
    else (name, value) :: rest

/-- Only the placed name can be new. -/
theorem mem_place {name value : String} {entries : List (String × String)} {e : String × String}
    (h : e ∈ place name value entries) : e = (name, value) ∨ e ∈ entries := by
  induction entries with
  | nil => simpa [place] using h
  | cons d rest ih =>
    simp only [place] at h
    split at h
    · simpa using h
    · split at h
      · rcases List.mem_cons.1 h with rfl | h
        · simp
        · rcases ih h with h | h <;> simp [h]
      · rcases List.mem_cons.1 h with rfl | h
        · simp
        · simp [h]

/-- The entries remain in the order of their names. -/
theorem pairwise_place (name value : String) {entries : List (String × String)}
    (h : entries.Pairwise fun a b => a.1 < b.1) :
    (place name value entries).Pairwise fun a b => a.1 < b.1 := by
  induction entries with
  | nil => simp [place]
  | cons e rest ih =>
    obtain ⟨he, hr⟩ := List.pairwise_cons.1 h
    simp only [place]
    split
    next hlt =>
      refine List.pairwise_cons.2 ⟨fun d hd => ?_, h⟩
      rcases List.mem_cons.1 hd with rfl | hd
      · exact hlt
      · exact String.lt_trans hlt (he d hd)
    next hge =>
      split
      next hlt =>
        refine List.pairwise_cons.2 ⟨fun d hd => ?_, ih hr⟩
        rcases mem_place hd with rfl | hd
        · exact hlt
        · exact he d hd
      next hle =>
        -- Neither name is smaller, so the names are the same.
        have heq : name = e.1 := String.le_antisymm (String.not_lt.1 hle) (String.not_lt.1 hge)
        exact List.pairwise_cons.2 ⟨fun d hd => heq ▸ he d hd, hr⟩

/-- The properties with a value for a name. -/
def insert (p : Properties) (name value : String) : Properties :=
  ⟨place name value p.entries, pairwise_place name value p.ascending⟩

/-- The properties that pairs give, the last pair for each name. -/
def ofList (pairs : List (String × String)) : Properties :=
  pairs.foldl (fun p e => p.insert e.1 e.2) empty

end Properties

end LeasePool
