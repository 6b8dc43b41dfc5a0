/-
# Values of rows

A row gives each of its columns a value. What the values are and how the functions of the
dictionary compute on them is left open: an algebra supplies it. A written name denotes the column
after its first point, so that `S.x` and `x` are one column.
-/
import DataPhrase.Proofs.Grammar.Names
import DataPhrase.Validation.Check

namespace DataPhrase.Rows

/-! ## Algebras -/

/-- What values are and how they are computed, tested, aggregated and ordered. The order is total
and transitive, but different values may be equal in it. -/
structure Algebra (V : Type) where
  missing : V
  literal : Literal → V
  metric : String → String → V
  star : V
  call : String → List V → V
  binary : ArithOp → V → V → V
  negate : V → V
  isNull : V → Bool
  compare : CompareOp → V → V → Option Bool
  holds : V → Option Bool
  aggregate : AggregateFn → List V → V
  le : V → V → Bool
  le_total : ∀ x y, (le x y || le y x) = true
  le_trans : ∀ x y z, le x y = true → le y z = true → le x z = true

/-! ## Rows -/

/-- A row: its columns in order, each with its value. -/
abbrev Row (V : Type) := List (String × V)

/-- The column that a written name denotes. -/
def columnOf (written : String) : String :=
  (Check.splitName written).2

variable {V : Type}

/-- The row with a column set: in place if it is there, behind the others if not. -/
def put (n : String) (v : V) : Row V → Row V
  | [] => [(n, v)]
  | (m, w) :: r => if m = n then (n, v) :: r else (m, w) :: put n v r

/-- Setting a column changes the value of that column only. -/
theorem lookup_put (r : Row V) (n : String) (v : V) (m : String) :
    (put n v r).lookup m = if m = n then some v else r.lookup m := by
  induction r with
  | nil =>
    rw [put, List.lookup_cons, List.lookup_nil]
    by_cases h : m = n
    · simp [h]
    · rw [if_neg h, beq_false_of_ne h]
  | cons c r ih =>
    obtain ⟨k, w⟩ := c
    rw [put]
    by_cases hk : k = n
    · subst hk
      rw [if_pos rfl, List.lookup_cons, List.lookup_cons]
      by_cases hm : m = k
      · simp [hm]
      · rw [beq_false_of_ne hm, if_neg hm]
    · rw [if_neg hk, List.lookup_cons, List.lookup_cons]
      by_cases hm : m = k
      · subst hm
        rw [if_neg hk]
        simp
      · rw [beq_false_of_ne hm]
        exact ih

namespace Algebra

variable (A : Algebra V)

/-- The value of a column, missing where the row does not have it. -/
def get (r : Row V) (n : String) : V :=
  (r.lookup n).getD A.missing

theorem get_put (r : Row V) (n : String) (v : V) (m : String) :
    A.get (put n v r) m = if m = n then v else A.get r m := by
  rw [Algebra.get, lookup_put]
  by_cases h : m = n
  · rw [if_pos h, if_pos h]
    rfl
  · rw [if_neg h, if_neg h]
    rfl

/-- The row cut down to the columns of a list of written names. -/
def project (fields : List String) (r : Row V) : Row V :=
  fields.map fun f => (columnOf f, A.get r (columnOf f))

theorem lookup_project (fields : List String) (r : Row V) (n : String) :
    (A.project fields r).lookup n =
      if n ∈ fields.map columnOf then some (A.get r n) else none := by
  induction fields with
  | nil => rfl
  | cons f fields ih =>
    rw [project, List.map_cons, List.lookup_cons, List.map_cons]
    by_cases h : n = columnOf f
    · subst h
      simp
    · rw [beq_false_of_ne h]
      show (A.project fields r).lookup n = _
      rw [ih]
      simp [h]

theorem get_project {fields : List String} {n : String} (h : n ∈ fields.map columnOf) (r : Row V) :
    A.get (A.project fields r) n = A.get r n := by
  rw [Algebra.get, lookup_project, if_pos h]
  rfl

/-- What stands behind a projected row does not change the values of its columns. -/
theorem get_project_append {fields : List String} {n : String} (h : n ∈ fields.map columnOf)
    (r q : Row V) : A.get (A.project fields r ++ q) n = A.get r n := by
  rw [Algebra.get, List.lookup_append, lookup_project, if_pos h]
  rfl

/-- A projection of a projection to at least its columns is a single projection. -/
theorem project_project {fields names : List String}
    (h : ∀ n ∈ names.map columnOf, n ∈ fields.map columnOf) (r : Row V) :
    A.project names (A.project fields r) = A.project names r := by
  unfold project
  refine List.map_congr_left fun f hf => ?_
  have hn : columnOf f ∈ fields.map columnOf := h _ (List.mem_map_of_mem hf)
  show (columnOf f, A.get (A.project fields r) (columnOf f)) = _
  rw [A.get_project hn]

/-! ## Expressions -/

mutual

/-- The value of an expression in a row. -/
def value (r : Row V) : Expr → V
  | .literal v => A.literal v
  | .field _ n => A.get r n
  | .metric s n => A.metric s n
  | .call n args => A.call n (values r args)
  | .binary op x y => A.binary op (value r x) (value r y)
  | .negate x => A.negate (value r x)
  | .star => A.star

/-- The values of a list of expressions in a row. -/
def values (r : Row V) : List Expr → List V
  | [] => []
  | e :: es => value r e :: values r es

end

mutual

/-- The value of an expression depends on the fields it mentions. -/
theorem value_congr {r q : Row V} (e : Expr) (h : ∀ n ∈ e.fieldNames, A.get r n = A.get q n) :
    A.value r e = A.value q e := by
  cases e with
  | literal v => rfl
  | field s n => exact h n (by simp [Expr.fieldNames, Expr.fields])
  | metric s n => rfl
  | call n args =>
    rw [value, value, values_congr args fun m hm => h m (by
      rwa [Expr.fieldNames, Expr.fields])]
  | binary op x y =>
    rw [value, value, value_congr x fun m hm => h m ?_, value_congr y fun m hm => h m ?_]
    · rw [Expr.fieldNames, Expr.fields, List.map_append]
      exact List.mem_append_right _ hm
    · rw [Expr.fieldNames, Expr.fields, List.map_append]
      exact List.mem_append_left _ hm
  | negate x => rw [value, value, value_congr x fun m hm => h m (by rwa [Expr.fieldNames, Expr.fields])]
  | star => rfl

theorem values_congr {r q : Row V} (es : List Expr)
    (h : ∀ n ∈ (Expr.fieldsAll es).map Prod.snd, A.get r n = A.get q n) :
    A.values r es = A.values q es := by
  cases es with
  | nil => rfl
  | cons e es =>
    rw [values, values, value_congr e fun m hm => h m ?_, values_congr es fun m hm => h m ?_]
    · rw [Expr.fieldsAll, List.map_append]
      exact List.mem_append_right _ hm
    · rw [Expr.fieldsAll, List.map_append]
      exact List.mem_append_left _ hm

end

/-! ## Conditions -/

/-- The conjunction of truth values: false if one is false, unknown if none is false and one is
unknown. -/
def conjunction (ts : List (Option Bool)) : Option Bool :=
  if some false ∈ ts then some false else if none ∈ ts then none else some true

/-- The alternative of truth values: true if one is true, unknown if none is true and one is
unknown. -/
def alternative (ts : List (Option Bool)) : Option Bool :=
  if some true ∈ ts then some true else if none ∈ ts then none else some false

theorem conjunction_eq_true {ts : List (Option Bool)} :
    conjunction ts = some true ↔ ∀ t ∈ ts, t = some true := by
  unfold conjunction
  constructor
  · intro h t ht
    split at h
    · cases h
    · next hf =>
      split at h
      · cases h
      · next hn =>
        rcases t with _ | _ | _
        · exact absurd ht hn
        · exact absurd ht hf
        · rfl
  · intro h
    have hf : some false ∉ ts := by
      intro hf
      cases h _ hf
    have hn : none ∉ ts := by
      intro hn
      cases h _ hn
    rw [if_neg hf, if_neg hn]

/-- The truth of a comparison. With null on the right, equality is a test for null. -/
def compared (r : Row V) (x : Expr) (op : CompareOp) (y : Expr) : Option Bool :=
  match op, y with
  | .eq, .literal .null => some (A.isNull (A.value r x))
  | .ne, .literal .null => some (!A.isNull (A.value r x))
  | _, _ => A.compare op (A.value r x) (A.value r y)

mutual

/-- The truth of a condition in a row: true, false or unknown. -/
def truth (r : Row V) : Condition → Option Bool
  | .comparison x op y => A.compared r x op y
  | .logical .and cs => conjunction (truths r cs)
  | .logical .or cs => alternative (truths r cs)
  | .not c => (truth r c).map (!·)
  | .call n args => A.holds (A.call n (A.values r args))

/-- The truth of each of a list of conditions. -/
def truths (r : Row V) : List Condition → List (Option Bool)
  | [] => []
  | c :: cs => truth r c :: truths r cs

end

/-- A filter keeps the row: the condition is true in it. -/
def keeps (c : Condition) (r : Row V) : Bool :=
  A.truth r c == some true

/-- The row is kept by all conditions of a list. -/
def keepsAll (cs : List Condition) (r : Row V) : Bool :=
  cs.all fun c => A.keeps c r

theorem truths_eq (r : Row V) (cs : List Condition) : A.truths r cs = cs.map (A.truth r) := by
  induction cs with
  | nil => rfl
  | cons c cs ih => rw [truths, ih, List.map_cons]

/-- A row is kept by a condition if it is kept by all conjuncts of the condition. -/
theorem keepsAll_conjuncts (c : Condition) (r : Row V) :
    A.keepsAll c.conjuncts r = A.keeps c r := by
  unfold Condition.conjuncts
  split
  · next cs =>
    rw [Bool.eq_iff_iff, keepsAll, List.all_eq_true, keeps, beq_iff_eq, truth,
      conjunction_eq_true, truths_eq, List.forall_mem_map]
    simp only [keeps, beq_iff_eq]
  · rw [keepsAll, List.all_cons, List.all_nil, Bool.and_true]

theorem keepsAll_append (cs ds : List Condition) (r : Row V) :
    A.keepsAll (cs ++ ds) r = (A.keepsAll cs r && A.keepsAll ds r) :=
  List.all_append

theorem compared_congr {r q : Row V} (x : Expr) (op : CompareOp) (y : Expr)
    (hx : A.value r x = A.value q x) (hy : A.value r y = A.value q y) :
    A.compared r x op y = A.compared q x op y := by
  unfold compared
  split
  · rw [hx]
  · rw [hx]
  · rw [hx, hy]

mutual

/-- The truth of a condition depends on the fields it mentions. -/
theorem truth_congr {r q : Row V} (c : Condition)
    (h : ∀ n ∈ c.fieldNames, A.get r n = A.get q n) : A.truth r c = A.truth q c := by
  cases c with
  | comparison x op y =>
    rw [truth, truth]
    refine A.compared_congr x op y ?_ ?_
    · refine A.value_congr x fun n hn => h n ?_
      simp only [Condition.fieldNames, Condition.fields, Condition.exprs, List.flatMap_cons,
        List.map_append, List.mem_append]
      exact Or.inl hn
    · refine A.value_congr y fun n hn => h n ?_
      simp only [Condition.fieldNames, Condition.fields, Condition.exprs, List.flatMap_cons,
        List.map_append, List.mem_append]
      exact Or.inr (Or.inl hn)
  | logical op cs =>
    have := truths_congr cs fun n hn => h n (by
      rwa [Condition.fieldNames, Condition.fields, Condition.exprs])
    cases op with
    | and => rw [truth, truth, this]
    | or => rw [truth, truth, this]
  | not c =>
    rw [truth, truth, truth_congr c fun n hn => h n (by
      rwa [Condition.fieldNames, Condition.fields, Condition.exprs])]
  | call n args =>
    rw [truth, truth, A.values_congr args fun m hm => h m ?_]
    rwa [Condition.fieldNames, Condition.fields, Condition.exprs, ← Expr.fieldsAll_eq]

theorem truths_congr {r q : Row V} (cs : List Condition)
    (h : ∀ n ∈ ((Condition.exprsAll cs).flatMap Expr.fields).map Prod.snd,
      A.get r n = A.get q n) : A.truths r cs = A.truths q cs := by
  cases cs with
  | nil => rfl
  | cons c cs =>
    rw [truths, truths, truth_congr c fun n hn => h n ?_, truths_congr cs fun n hn => h n ?_]
    · rw [Condition.exprsAll, List.flatMap_append, List.map_append]
      exact List.mem_append_right _ hn
    · rw [Condition.exprsAll, List.flatMap_append, List.map_append]
      exact List.mem_append_left _ hn

end

/-- Whether a row is kept depends on the fields of the condition. -/
theorem keeps_congr {r q : Row V} {c : Condition}
    (h : ∀ n ∈ c.fieldNames, A.get r n = A.get q n) : A.keeps c r = A.keeps c q := by
  rw [keeps, keeps, A.truth_congr c h]

/-! ## Calculations -/

/-- The row with a calculated column. -/
def calculate (r : Row V) (c : Calc) : Row V :=
  put c.aliasName (A.value r c.expression) r

/-- The row with calculated columns, from left to right. -/
def calculateAll (cs : List Calc) (r : Row V) : Row V :=
  cs.foldl A.calculate r

theorem calculateAll_append (cs ds : List Calc) (r : Row V) :
    A.calculateAll (cs ++ ds) r = A.calculateAll ds (A.calculateAll cs r) := by
  rw [calculateAll, List.foldl_append]
  rfl

/-- Calculations change the columns they are named for only. -/
theorem get_calculateAll {cs : List Calc} {n : String} (h : n ∉ cs.map Calc.aliasName)
    (r : Row V) : A.get (A.calculateAll cs r) n = A.get r n := by
  induction cs generalizing r with
  | nil => rfl
  | cons c cs ih =>
    rw [List.map_cons, List.mem_cons, not_or] at h
    show A.get (A.calculateAll cs (A.calculate r c)) n = _
    rw [ih h.2, calculate, A.get_put, if_neg h.1]

end Algebra

end DataPhrase.Rows
