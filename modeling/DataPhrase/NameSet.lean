/-
# Sorted sets of names

A set of names is listed in ascending order, each name once.
-/

namespace DataPhrase.NameSet

/-- The sorted list with one more name. -/
def insert (n : String) : List String → List String
  | [] => [n]
  | m :: r => if n = m then m :: r else if n < m then n :: m :: r else m :: insert n r

/-- The names of a list in ascending order, each once. -/
def ofList (names : List String) : List String :=
  names.foldl (fun set n => insert n set) []

theorem mem_insert {x n : String} {l : List String} : x ∈ insert n l ↔ x = n ∨ x ∈ l := by
  induction l with
  | nil => simp [insert]
  | cons m r ih =>
    unfold insert
    split
    · next h => subst h; simp
    · split
      · simp
      · simp only [List.mem_cons, ih]
        constructor
        · rintro (h | h | h) <;> simp [h]
        · rintro (h | h | h) <;> simp [h]

/-- The set holds exactly the names of the list. -/
theorem mem_ofList {x : String} {names : List String} : x ∈ ofList names ↔ x ∈ names := by
  have key : ∀ (l acc : List String),
      x ∈ l.foldl (fun set n => insert n set) acc ↔ x ∈ l ∨ x ∈ acc := by
    intro l
    induction l with
    | nil => simp
    | cons m r ih =>
      intro acc
      rw [List.foldl_cons, ih, mem_insert, List.mem_cons]
      constructor
      · rintro (h | h | h) <;> simp [h]
      · rintro ((h | h) | h) <;> simp [h]
  simpa [ofList] using key names []

end DataPhrase.NameSet
