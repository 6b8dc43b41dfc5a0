/-
# Names behind an aggregation

Behind an aggregation a row stands for a group, and a name has a value there only if it is a key of
the group or is computed for it. The checks compare names without their sources: a reference that
passes is a key or such an alias up to its source (`name_of_valid`), and it is one with its source
wherever nothing else has its name (`hasGroupValue_of_valid`).
-/
import DataPhrase.Proofs.Plan
import DataPhrase.Proofs.Statement.Parse
import DataPhrase.Proofs.Validation.Names
import DataPhrase.Proofs.Validation.Passes

namespace DataPhrase

namespace Check

variable {s : Statement} {p : Plan} {n : String}

/-! ## The check -/

/-- A name can be a group key by its column alone. -/
theorem isGrouped_iff :
    isGrouped p n = true ↔ (splitName n).2 ∈ p.group.map fun g => (splitName g).2 := by
  rw [isGrouped, List.any_eq_true, List.mem_map]
  constructor
  · rintro ⟨g, hg, h⟩
    refine ⟨g, hg, ?_⟩
    rcases (Bool.or_eq_true _ _).mp h with h | h
    · rw [beq_iff_eq.mp h]
    · exact beq_iff_eq.mp h
  · rintro ⟨g, hg, h⟩
    exact ⟨g, hg, (Bool.or_eq_true _ _).mpr (Or.inr (beq_iff_eq.mpr h))⟩

/-- The name can be read after aggregation: it is a group key or an alias that exists there. -/
def isKept (p : Plan) (n : String) : Bool :=
  isGrouped p n || p.postAliases.contains n || (p.windows.map Window.aliasName).contains n

theorem groupingFindings_eq_nil : groupingFindings s p = [] ↔
    (p.isAggregated = true → (s.pattern ≠ .arrowPipeline → droppedCalcs p = []) ∧
      ∀ n ∈ namesAfter s p, isKept p n = true) := by
  rw [groupingFindings]
  cases p.isAggregated with
  | false => simp
  | true =>
    simp only [Bool.not_true, Bool.false_eq_true, if_false, List.append_eq_nil_iff, isKept,
      List.map_eq_nil_iff, List.filter_eq_nil_iff, Bool.and_eq_true, Bool.not_eq_true', not_and,
      Bool.or_eq_true, forall_const]
    refine and_congr ?_ (forall₂_congr fun n _ => ?_)
    · split
      · next h => simp [h]
      · next h => simp [h]
    · cases isGrouped p n <;> cases p.postAliases.contains n <;> simp

end Check

/-! ## References with their sources -/

/-- Two references can be to the same column: they have one name, and not two sources. -/
def SameColumn (k r : FieldRef) : Prop :=
  k.2 = r.2 ∧ (k.1 = none ∨ r.1 = none ∨ k.1 = r.1)

instance (k r : FieldRef) : Decidable (SameColumn k r) :=
  inferInstanceAs (Decidable (_ ∧ _))

/-- What a window reads: its keys and its field. -/
def Window.references (w : Window) : List FieldRef :=
  (w.partitionBy ++ w.orderBy.map OrderItem.field).map Check.splitName ++
    (w.field.map Expr.fields).getD []

namespace Plan

variable {p : Plan} {r : FieldRef}

/-- What is read after aggregation: by the selection, the order and the windows, and by the
calculations and the parts of the filter that run there. -/
def referencesAfter (p : Plan) : List FieldRef :=
  (p.select.getD [] ++ p.order.map OrderItem.field).map Check.splitName ++
    p.windows.flatMap Window.references ++
    p.postCalcs.flatMap (fun c => c.expression.fields) ++ p.postFilter.flatMap Condition.fields

/-- The aliases that can be read after aggregation. -/
def lateAliases (p : Plan) : List String :=
  p.postAliases ++ p.windows.map Window.aliasName

/-- A group has a value for the reference: it is an alias that is computed for groups, or a key. -/
def HasGroupValue (p : Plan) (r : FieldRef) : Prop :=
  (r.1 = none ∧ r.2 ∈ p.lateAliases) ∨ ∃ g ∈ p.group, SameColumn (Check.splitName g) r

/-- The name of a reference says as much as the reference itself: it is no alias if the reference
has a source, and no key has it with another source. -/
structure IsTold (p : Plan) (r : FieldRef) : Prop where
  plain : IsPlain r.2
  aliases : r.1 ≠ none → r.2 ∉ p.lateAliases ∧ Check.joinName r ∉ p.lateAliases
  keys : ∀ g ∈ p.group, (Check.splitName g).2 = r.2 → SameColumn (Check.splitName g) r

instance (n : String) : Decidable (IsPlain n) :=
  inferInstanceAs (Decidable (¬ _))

instance (p : Plan) (r : FieldRef) : Decidable (p.HasGroupValue r) :=
  inferInstanceAs (Decidable (_ ∨ _))

theorem mem_lateAliases {n : String} :
    n ∈ p.lateAliases ↔ n ∈ p.postAliases ∨ n ∈ p.windows.map Window.aliasName :=
  List.mem_append

end Plan

namespace Check

variable {s : Statement} {d : Snapshot} {rules : Rules} {r : FieldRef}

/-- What is read after aggregation is checked by its name, or as it is written. -/
theorem exists_mem_namesAfter (h : r ∈ (Plan.ofStatement s).referencesAfter) :
    ∃ n ∈ namesAfter s (Plan.ofStatement s), n = r.2 ∨ splitName n = r := by
  have horder := Plan.order_ofStatement s
  generalize Plan.ofStatement s = p at h horder ⊢
  rw [namesAfter, ← horder]
  -- Keys are checked as they are written; what stands in an expression has lost its source.
  rcases List.mem_append.mp h with h | h
  · rcases List.mem_append.mp h with h | h
    · rcases List.mem_append.mp h with h | h
      · obtain ⟨n, hn, rfl⟩ := List.mem_map.mp h
        exact ⟨n, List.mem_append_left _ (List.mem_append_left _ (List.mem_append_left _ hn)),
          Or.inr rfl⟩
      · obtain ⟨w, hw, h⟩ := List.mem_flatMap.mp h
        suffices hs : ∃ n ∈ w.partitionBy ++ w.orderBy.map OrderItem.field ++
            (w.field.map Expr.fieldNames).getD [], n = r.2 ∨ splitName n = r by
          obtain ⟨n, hn, he⟩ := hs
          refine ⟨n, List.mem_append_left _ (List.mem_append_left _ (List.mem_append_right _ ?_)), he⟩
          exact List.mem_flatMap.mpr ⟨w, hw, hn⟩
        rcases List.mem_append.mp h with h | h
        · obtain ⟨n, hn, rfl⟩ := List.mem_map.mp h
          exact ⟨n, List.mem_append_left _ hn, Or.inr rfl⟩
        · refine ⟨r.2, List.mem_append_right _ ?_, Or.inl rfl⟩
          cases hf : w.field with
          | none =>
            rw [hf] at h
            cases h
          | some e =>
            rw [hf] at h
            exact List.mem_map_of_mem h
    · obtain ⟨c, hc, h⟩ := List.mem_flatMap.mp h
      refine ⟨r.2, List.mem_append_left _ (List.mem_append_right _ ?_), Or.inl rfl⟩
      exact List.mem_flatMap.mpr ⟨c, hc, List.mem_map_of_mem h⟩
  · obtain ⟨c, hc, h⟩ := List.mem_flatMap.mp h
    refine ⟨r.2, List.mem_append_right _ ?_, Or.inl rfl⟩
    exact List.mem_flatMap.mpr ⟨c, hc, List.mem_map_of_mem h⟩

/-- **Whatever a valid statement reads behind its aggregation has the name of an alias or the column
of a key.** -/
theorem name_of_valid (hv : (s.check d rules).valid = true)
    (ha : (Plan.ofStatement s).isAggregated = true)
    (hr : r ∈ (Plan.ofStatement s).referencesAfter) (hn : IsPlain r.2) :
    (r.2 ∈ (Plan.ofStatement s).lateAliases ∨ joinName r ∈ (Plan.ofStatement s).lateAliases) ∨
      ∃ g ∈ (Plan.ofStatement s).group, (splitName g).2 = r.2 := by
  obtain ⟨n, hmem, hname⟩ := exists_mem_namesAfter hr
  have hcolumn : (splitName n).2 = r.2 := by
    rcases hname with rfl | rfl
    · rw [splitName_of_isPlain hn]
    · rfl
  have hlate (h : n ∈ (Plan.ofStatement s).lateAliases) :
      r.2 ∈ (Plan.ofStatement s).lateAliases ∨ joinName r ∈ (Plan.ofStatement s).lateAliases := by
    rcases hname with rfl | rfl
    · exact Or.inl h
    · rw [joinName_splitName]
      exact Or.inr h
  have hkept := ((groupingFindings_eq_nil.mp (valid_iff.mp hv).grouping) ha).2 n hmem
  rw [isKept, Bool.or_eq_true, Bool.or_eq_true, List.contains_iff_mem, List.contains_iff_mem,
    or_assoc, ← Plan.mem_lateAliases, isGrouped_iff, List.mem_map] at hkept
  rcases hkept with ⟨g, hg, he⟩ | h
  · exact Or.inr ⟨g, hg, he.trans hcolumn⟩
  · exact Or.inl (hlate h)

/-- **Groups have values for all that a valid statement reads behind its aggregation, provided that
names tell the references apart.** -/
theorem hasGroupValue_of_valid (hv : (s.check d rules).valid = true)
    (ha : (Plan.ofStatement s).isAggregated = true)
    (ht : ∀ r ∈ (Plan.ofStatement s).referencesAfter, (Plan.ofStatement s).IsTold r) :
    ∀ r ∈ (Plan.ofStatement s).referencesAfter, (Plan.ofStatement s).HasGroupValue r := by
  intro r hr
  have hr' := ht r hr
  rcases name_of_valid hv ha hr hr'.plain with h | ⟨g, hg, he⟩
  · -- Without a source the name is the reference; with one it is told apart from every alias.
    by_cases hs : r.1 = none
    · refine Or.inl ⟨hs, ?_⟩
      have hj : joinName r = r.2 := by
        rw [show r = (none, r.2) from Prod.ext hs rfl]
        rfl
      rw [hj, or_self] at h
      exact h
    · obtain ⟨h1, h2⟩ := hr'.aliases hs
      rcases h with h | h
      · exact absurd h h1
      · exact absurd h h2
  · exact Or.inr ⟨g, hg, hr'.keys g hg he⟩

/-- The totals of the regions of a source with their halves and ranks. -/
def regionTotals : List Char :=
  ("transform A to T as sum(x) as t, t / 2 as h, rank() over (order by h) as p " ++
    "grouped by A.k where t > 1 ordered by A.k").toList

theorem hasGroupValue_regionTotals : ∃ s, Statement.parse regionTotals = .ok s ∧
    (s.check .empty {}).valid = true ∧ (Plan.ofStatement s).isAggregated = true ∧
    (Plan.ofStatement s).referencesAfter = [(some "A", "k"), (none, "h"), (none, "t"), (none, "t")] ∧
    ∀ r ∈ (Plan.ofStatement s).referencesAfter, (Plan.ofStatement s).HasGroupValue r := by
  obtain ⟨s, hs, h⟩ := exists_parse regionTotals
    (congrArg String.toList String.ofList_append.symm)
    (fun _ s => (s.check .empty {}).valid && (Plan.ofStatement s).isAggregated &&
      decide ((Plan.ofStatement s).referencesAfter =
        [(some "A", "k"), (none, "h"), (none, "t"), (none, "t")]) &&
      decide ((Plan.ofStatement s).lateAliases = ["t", "h", "p"]) &&
      decide ((Plan.ofStatement s).group = ["A.k"]))
    (by decide +kernel)
  simp only [Bool.and_eq_true, decide_eq_true_iff] at h
  obtain ⟨⟨⟨⟨hv, ha⟩, hr⟩, hl⟩, hg⟩ := h
  refine ⟨s, hs, hv, ha, hr, hasGroupValue_of_valid hv ha ?_⟩
  have htold : ∀ r ∈ [(some "A", "k"), (none, "h"), (none, "t"), (none, "t")],
      IsPlain r.2 ∧ (r.1 ≠ none → r.2 ∉ ["t", "h", "p"] ∧ joinName r ∉ ["t", "h", "p"]) ∧
        ∀ g ∈ ["A.k"], (splitName g).2 = r.2 → SameColumn (splitName g) r := by
    decide
  intro r hmem
  rw [hr] at hmem
  obtain ⟨hplain, haliases, hkeys⟩ := htold r hmem
  exact ⟨hplain, by rwa [hl], by rwa [hg]⟩

/-- The totals of the regions of one source in the order of the regions of another. -/
def foreignOrder : List Char :=
  ("transform A to T joined with B on A.id = B.id as sum(x) as total " ++
    "grouped by A.region ordered by B.region").toList

/-- The order of a valid statement can read a column of which groups have no value. -/
theorem not_hasGroupValue_foreignOrder : ∃ s, Statement.parse foreignOrder = .ok s ∧
    (s.check .empty {}).valid = true ∧ (Plan.ofStatement s).isAggregated = true ∧
    ∃ r ∈ (Plan.ofStatement s).referencesAfter, ¬ (Plan.ofStatement s).HasGroupValue r := by
  obtain ⟨s, hs, h⟩ := exists_parse foreignOrder
    (congrArg String.toList String.ofList_append.symm)
    (fun _ s => (s.check .empty {}).valid && (Plan.ofStatement s).isAggregated &&
      (Plan.ofStatement s).referencesAfter.any fun r =>
        decide (¬ (Plan.ofStatement s).HasGroupValue r))
    (by decide +kernel)
  simp only [Bool.and_eq_true, List.any_eq_true, decide_eq_true_iff] at h
  obtain ⟨⟨hv, ha⟩, hr⟩ := h
  exact ⟨s, hs, hv, ha, hr⟩

end Check

end DataPhrase
