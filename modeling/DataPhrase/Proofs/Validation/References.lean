/-
# References to known columns

Where the columns of all sources of a statement are registered, a reference can be looked up. In a
valid statement every reference without source resolves to an alias, a metric or a column. A
reference with a source is looked up in that source, but the checks neither ask whether the
statement has the source nor look further if an alias or a metric is called like the column; apart
from that it resolves as well (`resolves_iff_of_valid`).
-/
import DataPhrase.Proofs.Code.Computed
import DataPhrase.Proofs.Dictionary.Reachable
import DataPhrase.Proofs.Statement.Parse
import DataPhrase.Proofs.Validation.Names

namespace DataPhrase

/-! ## References -/

namespace Statement

/-- The fields that the filter mentions. -/
def filterFields (s : Statement) : List FieldRef :=
  (s.filter.map Condition.fields).getD []

/-- The names that the clauses behind the filter hold as text: the keys of the groups and of the
order, and the field of the period. -/
def clauseKeys (s : Statement) : List String :=
  s.group.getD [] ++ s.order.map OrderItem.field ++ (s.period.map Period.field).toList

/-- All that a statement refers to: in its operations, the conditions of its joins and the keys of
its windows among them, and in its clauses. -/
def references (s : Statement) : List FieldRef :=
  s.operations.flatMap Check.mentions ++ s.filterFields ++ s.clauseKeys.map Check.splitName

/-- The name can stand for a value without being a column: it is an alias of the statement, or a
registered metric has it. -/
def IsNamed (s : Statement) (d : Snapshot) (n : String) : Prop :=
  n ∈ s.aliases ∨ d.metrics n ≠ []

/-- A reference has something to stand for. Without a source that is an alias, a metric or a column
of one of the sources; with a source it is a column of that source, which is one of the
statement. -/
def Resolves (s : Statement) (d : Snapshot) : FieldRef → Prop
  | (none, n) => s.IsNamed d n ∨ ∃ q ∈ s.sources, d.hasColumn q n = true
  | (some q, n) => q ∈ s.sources ∧ d.hasColumn q n = true

instance (s : Statement) (d : Snapshot) (n : String) : Decidable (s.IsNamed d n) :=
  inferInstanceAs (Decidable (_ ∨ _))

instance (s : Statement) (d : Snapshot) : (r : FieldRef) → Decidable (s.Resolves d r)
  | (none, _) => inferInstanceAs (Decidable (_ ∨ _))
  | (some _, _) => inferInstanceAs (Decidable (_ ∧ _))

end Statement

namespace Check

variable {s : Statement} {d : Snapshot} {rules : Rules} {r : FieldRef}

/-! ## The check of one reference -/

theorem isNamed_iff : (s.aliases.contains r.2 || !(d.metrics r.2).isEmpty) = true ↔
    s.IsNamed d r.2 := by
  rw [Bool.or_eq_true, List.contains_iff_mem, Bool.not_eq_true', List.isEmpty_eq_false_iff]
  rfl

/-- The sources in which a reference is looked up: its own, or all of the statement. -/
def sourcesOf (s : Statement) : FieldRef → List String
  | (some q, _) => [q]
  | (none, _) => s.sources

/-- Nothing is found at a reference to known sources exactly if it is named otherwise or is a
column. -/
theorem fieldFindings_eq_nil_iff (hk : ∀ q ∈ sourcesOf s r, d.knowsSource q = true) :
    fieldFindings d s r = [] ↔ s.IsNamed d r.2 ∨ isColumn d s r = true := by
  have hfindings : fieldFindings d s r =
      if s.aliases.contains r.2 || !(d.metrics r.2).isEmpty then []
      else if (sourcesOf s r).all d.knowsSource && !isColumn d s r then
        [.unknownField (joinName r) (sourcesOf s r)]
      else [] := by
    obtain ⟨_ | q, n⟩ := r <;> rfl
  rw [← isNamed_iff, hfindings, List.all_eq_true.mpr hk]
  cases s.aliases.contains r.2 || !(d.metrics r.2).isEmpty <;> cases isColumn d s r <;> simp

/-- A reference at which nothing is found resolves, unless it has a source that the statement does
not have, or shares its name with an alias or a metric. -/
theorem resolves_iff_of_fieldFindings (hk : ∀ q ∈ s.sources, d.knowsSource q = true)
    (h : fieldFindings d s r = []) :
    s.Resolves d r ↔ ∀ q, r.1 = some q →
      q ∈ s.sources ∧ (s.IsNamed d r.2 → d.hasColumn q r.2 = true) := by
  obtain ⟨_ | q, n⟩ := r
  · -- Without a source the name is looked up in all sources of the statement, and all are known.
    refine iff_of_true ?_ fun q hq => by cases hq
    refine ((fieldFindings_eq_nil_iff (r := (none, n)) hk).mp h).imp_right fun hcolumn => ?_
    exact List.any_eq_true.mp hcolumn
  · constructor
    · rintro ⟨hq, hcolumn⟩ q' hq'
      obtain rfl := Option.some.inj hq'
      exact ⟨hq, fun _ => hcolumn⟩
    · intro hsource
      obtain ⟨hq, hnamed⟩ := hsource q rfl
      have hknown : ∀ q' ∈ sourcesOf s (some q, n), d.knowsSource q' = true := by
        simpa [sourcesOf] using hk q hq
      exact ⟨hq, ((fieldFindings_eq_nil_iff hknown).mp h).elim hnamed id⟩

/-! ## Valid statements -/

/-- An operation of a valid statement that reads a name before it is defined would be found, so the
column of each of its fields is looked for. -/
theorem fieldFindings_of_mem_mentions (hp : Passes s d) {op : Operation} (hop : op ∈ s.operations)
    (hr : r ∈ mentions op) : fieldFindings d s r = [] := by
  obtain ⟨before, after, hs⟩ := List.append_of_mem hop
  have hnone := operationFindings_of_operationsFindings hp.operations hs
  have hfound := List.flatMap_eq_nil_iff.mp hnone r hr
  split at hfound
  · cases hfound
  · exact hfound

theorem fieldFindings_of_mem_references (hp : Passes s d) (hr : r ∈ s.references)
    (hw : r ∈ s.filterFields → splitName (joinName r) = r) : fieldFindings d s r = [] := by
  rw [Statement.references, List.mem_append, List.mem_append] at hr
  rcases hr with (hr | hr) | hr
  · obtain ⟨op, hop, hr⟩ := List.mem_flatMap.mp hr
    exact fieldFindings_of_mem_mentions hp hop hr
  · -- The fields of the filter are written out and cut again before they are looked up.
    have hmem : joinName r ∈ clauseNames s := by
      rw [clauseNames, List.append_assoc, List.append_assoc]
      refine List.mem_append_left _ ?_
      rw [Statement.filterFields] at hr
      cases hf : s.filter with
      | none =>
        rw [hf] at hr
        cases hr
      | some c =>
        rw [hf] at hr
        exact List.mem_map_of_mem hr
    have hfound := hp.clauses _ hmem
    rwa [hw hr] at hfound
  · obtain ⟨n, hn, rfl⟩ := List.mem_map.mp hr
    refine hp.clauses n ?_
    rw [clauseNames, List.append_assoc, List.append_assoc]
    refine List.mem_append_right _ ?_
    rwa [Statement.clauseKeys, List.append_assoc] at hn

/-- **A reference of a valid statement between known sources resolves**, unless it has a source that
the statement does not have, or shares its name with an alias or a metric and is no column. The
fields of the filter are to be told by the way they are written. -/
theorem resolves_iff_of_valid (hv : (s.check d rules).valid = true)
    (hk : ∀ q ∈ s.sources, d.knowsSource q = true) (hr : r ∈ s.references)
    (hw : r ∈ s.filterFields → splitName (joinName r) = r) :
    s.Resolves d r ↔ ∀ q, r.1 = some q →
      q ∈ s.sources ∧ (s.IsNamed d r.2 → d.hasColumn q r.2 = true) :=
  resolves_iff_of_fieldFindings hk (fieldFindings_of_mem_references (valid_iff.mp hv) hr hw)

/-- Sales with the regions in which they are made. -/
def salesColumns : Snapshot :=
  ((((Snapshot.empty.put ⟨"S", "id", { category := .column }⟩).put
    ⟨"S", "x", { category := .column }⟩).put
    ⟨"B", "id", { category := .column }⟩).put ⟨"B", "region", { category := .column }⟩)

/-- The doubled sales of regions. -/
def regionSales : List Char :=
  ("transform S to T joined with B on S.id = B.id as x * 2 as y, sum(y) as t " ++
    "grouped by B.region where S.x > 1 ordered by t").toList

theorem resolves_regionSales : ∃ s, Statement.parse regionSales = .ok s ∧
    (s.check salesColumns {}).valid = true ∧
    (∀ q ∈ s.sources, salesColumns.knowsSource q = true) ∧
    (some "B", "region") ∈ s.references ∧
    (∀ r ∈ s.references, r ∈ s.filterFields → splitName (joinName r) = r) ∧
    ∀ r ∈ s.references, s.Resolves salesColumns r := by
  obtain ⟨s, hs, h⟩ := exists_parse regionSales
    (congrArg String.toList String.ofList_append.symm)
    (fun _ s => (s.check salesColumns {}).valid && s.sources.all salesColumns.knowsSource &&
      decide ((some "B", "region") ∈ s.references) &&
      (s.filterFields.all fun r => splitName (joinName r) == r) &&
      s.references.all fun r => r.1.all fun q =>
        decide (q ∈ s.sources) && decide (¬ s.IsNamed salesColumns r.2))
    (by decide +kernel)
  simp only [Bool.and_eq_true, List.all_eq_true, Option.all_eq_true, decide_eq_true_iff,
    beq_iff_eq] at h
  obtain ⟨⟨⟨⟨hv, hk⟩, hregion⟩, hw⟩, hsources⟩ := h
  refine ⟨s, hs, hv, hk, hregion, fun r _ => hw r, fun r hr => ?_⟩
  refine (resolves_iff_of_valid hv hk hr (hw r)).mpr fun q hq => ?_
  obtain ⟨hq, hnamed⟩ := hsources r hr q hq
  exact ⟨hq, fun hn => absurd hn hnamed⟩

/-- A source with one column. -/
def amounts : Snapshot :=
  Snapshot.empty.put ⟨"S", "x", { category := .column }⟩

/-- An alias read as if it were a column of the source. -/
def sourcedAlias : List Char :=
  "transform S to T as x * 2 as y, S.y + 1 as z".toList

/-- A valid statement can refer to a column that its only source, all of whose columns are known,
does not have. -/
theorem not_resolves_sourcedAlias : ∃ s, Statement.parse sourcedAlias = .ok s ∧
    amounts.Reachable ∧ (s.check amounts {}).valid = true ∧
    (∀ q ∈ s.sources, amounts.knowsSource q = true) ∧
    (some "S", "y") ∈ s.references ∧ ¬ s.Resolves amounts (some "S", "y") := by
  obtain ⟨s, hs, h⟩ := exists_parse sourcedAlias rfl
    (fun _ s => (s.check amounts {}).valid && s.sources.all amounts.knowsSource &&
      decide ((some "S", "y") ∈ s.references ∧ ¬ s.Resolves amounts (some "S", "y")))
    (by decide +kernel)
  simp only [Bool.and_eq_true, List.all_eq_true, decide_eq_true_iff] at h
  obtain ⟨⟨hv, hk⟩, hr, hresolves⟩ := h
  exact ⟨s, hs, Snapshot.Reachable.empty.put rfl, hv, hk, hr, hresolves⟩

end Check

end DataPhrase
