/-!
# Tables of names

Names with what they stand for. Looking a name up after an insertion gives what was inserted under
that name and what was there under every other (`find?_insert`); a table holds each name that was
inserted once.
-/

namespace Haklang

/-- Names with what they stand for, the last one inserted first. -/
structure Table (α : Type) where
  /-- The names and what they stand for. -/
  entries : List (String × α) := []

namespace Table

variable {α : Type}

instance : Inhabited (Table α) := ⟨{}⟩

/-- What a name stands for. -/
def find? (t : Table α) (name : String) : Option α := t.entries.lookup name

/-- The table in which a name stands for `a`. -/
def insert (t : Table α) (name : String) (a : α) : Table α :=
  ⟨(name, a) :: t.entries.filter fun e ↦ e.1 != name⟩

/-- The names of the table. -/
def names (t : Table α) : List String := t.entries.map Prod.fst

@[simp] theorem find?_empty (name : String) : ({} : Table α).find? name = none := rfl

@[simp] theorem find?_insert_self (t : Table α) (name : String) (a : α) :
    (t.insert name a).find? name = some a := by
  simp [find?, insert]

theorem lookup_filter_of_ne {name other : String} (h : other ≠ name)
    (entries : List (String × α)) :
    (entries.filter fun e ↦ e.1 != name).lookup other = entries.lookup other := by
  induction entries with
  | nil => rfl
  | cons e rest ih =>
    obtain ⟨key, a⟩ := e
    by_cases hk : key = name
    · subst hk
      have : (other == key) = false := by simpa using h
      simp [ih, List.lookup_cons, this]
    · by_cases ho : other = key
      · subst ho
        simp [hk]
      · have : (other == key) = false := by simpa using ho
        simp [hk, List.lookup_cons, this, ih]

theorem find?_insert_of_ne (t : Table α) {name other : String} (h : other ≠ name) (a : α) :
    (t.insert name a).find? other = t.find? other := by
  have : (other == name) = false := by simpa using h
  simp [find?, insert, List.lookup_cons, this, lookup_filter_of_ne h]

/-- An insertion changes what the inserted name stands for and nothing else. -/
theorem find?_insert (t : Table α) (name other : String) (a : α) :
    (t.insert name a).find? other = if other = name then some a else t.find? other := by
  by_cases h : other = name
  · simp [h]
  · simp [h, find?_insert_of_ne]

theorem mem_names_iff {t : Table α} {name : String} :
    name ∈ t.names ↔ (t.find? name).isSome = true := by
  simp only [names, find?, List.lookup_isSome_iff, List.mem_map]
  constructor
  · rintro ⟨e, he, rfl⟩
    exact ⟨e, he, by simp⟩
  · rintro ⟨e, he, h⟩
    exact ⟨e, he, (by simpa using h : name = e.1).symm⟩

end Table

end Haklang
