/-
# Statements that pass the checks

A statement is valid exactly if none of the checks that look for errors finds anything
(`valid_iff`). The checks of style only find warnings and play no part.
-/
import DataPhrase.Validation.Check

namespace DataPhrase

/-! ## Repeated findings -/

namespace Finding

variable {seen : List (IssueKind × String)} {l : List Finding}

/-- Leaving out repeated findings adds none. -/
theorem mem_of_mem_distinct {f : Finding} (h : f ∈ distinct seen l) : f ∈ l := by
  induction l generalizing seen with
  | nil => cases h
  | cons g l ih =>
    rw [distinct] at h
    split at h
    · rcases List.mem_cons.mp h with rfl | h
      · exact List.mem_cons_self
      · exact List.mem_cons_of_mem g (ih h)
    · split at h
      · exact List.mem_cons_of_mem g (ih h)
      · rcases List.mem_cons.mp h with rfl | h
        · exact List.mem_cons_self
        · exact List.mem_cons_of_mem g (ih h)

/-- Of the findings of a kind, one is kept or was seen before. -/
theorem exists_mem_distinct (seen : List (IssueKind × String)) {f : Finding} (h : f ∈ l) :
    (∃ g ∈ distinct seen l, g.kind = f.kind) ∨ ∃ k ∈ seen, k.1 = f.kind := by
  induction l generalizing seen with
  | nil => cases h
  | cons g l ih =>
    rw [distinct]
    rcases List.mem_cons.mp h with rfl | h
    · split
      · exact Or.inl ⟨f, List.mem_cons_self, rfl⟩
      · next s _ =>
        split
        · next hs =>
          right
          exact ⟨(f.kind, s), by simpa using hs, rfl⟩
        · exact Or.inl ⟨f, List.mem_cons_self, rfl⟩
    · split
      · rcases ih seen h with ⟨k, hk, he⟩ | hk
        · exact Or.inl ⟨k, List.mem_cons_of_mem g hk, he⟩
        · exact Or.inr hk
      · next s _ =>
        split
        · exact ih seen h
        · rcases ih ((g.kind, s) :: seen) h with ⟨k, hk, he⟩ | ⟨k, hk, he⟩
          · exact Or.inl ⟨k, List.mem_cons_of_mem g hk, he⟩
          · rcases List.mem_cons.mp hk with rfl | hk
            · exact Or.inl ⟨g, List.mem_cons_self, he⟩
            · exact Or.inr ⟨k, hk, he⟩

/-- Leaving out repeated findings leaves out no error altogether. -/
theorem any_isError_distinct : (distinct [] l).any isError = l.any isError := by
  rw [Bool.eq_iff_iff, List.any_eq_true, List.any_eq_true]
  constructor
  · rintro ⟨f, hf, he⟩
    exact ⟨f, mem_of_mem_distinct hf, he⟩
  · rintro ⟨f, hf, he⟩
    rcases exists_mem_distinct [] hf with ⟨g, hg, hk⟩ | ⟨k, hk, -⟩
    · refine ⟨g, hg, ?_⟩
      rw [isError, hk]
      exact he
    · cases hk

end Finding

namespace Check

/-! ## Kinds of findings -/

/-- Findings about the structure are errors. -/
theorem isError_of_structure {s : Statement} {f : Finding} (h : f ∈ structureFindings s) :
    f.isError = true := by
  unfold structureFindings at h
  rcases List.mem_append.mp h with h | h
  · split at h
    · obtain rfl := List.mem_singleton.mp h
      rfl
    · cases h
  · split at h
    · obtain rfl := List.mem_singleton.mp h
      rfl
    · cases h
    · obtain rfl := List.mem_singleton.mp h
      rfl
    · cases h

/-- Repeated aliases give findings of their own kind. -/
theorem kind_of_repeated {seen names : List String} {f : Finding}
    (h : f ∈ repeatedAliases seen names) : f.kind = .duplicateAlias := by
  induction names generalizing seen with
  | nil => cases h
  | cons n names ih =>
    rw [repeatedAliases] at h
    split at h
    · rcases List.mem_cons.mp h with rfl | h
      · rfl
      · exact ih h
    · exact ih h

/-- Fields give findings about unknown fields only. -/
theorem kind_of_field {d : Snapshot} {s : Statement} {r : FieldRef} {f : Finding}
    (h : f ∈ fieldFindings d s r) : f.kind = .unknownField := by
  unfold fieldFindings at h
  split at h
  · cases h
  · obtain ⟨sources, hs⟩ : ∃ sources, f ∈
        if sources.all d.knowsSource && !isColumn d s r then
          [Finding.unknownField (joinName r) sources] else [] := ⟨_, h⟩
    split at hs
    · obtain rfl := List.mem_singleton.mp hs
      rfl
    · cases hs

/-- Operations give findings about forward references only. -/
theorem kind_of_operations {d : Snapshot} {s : Statement} {before ops : List Operation}
    {f : Finding} (h : f ∈ operationsFindings d s before ops) :
    f.kind = .forwardReference ∨ f.kind = .unknownField := by
  induction ops generalizing before with
  | nil => cases h
  | cons op ops ih =>
    rw [operationsFindings] at h
    rcases List.mem_append.mp h with h | h
    · obtain ⟨r, -, h⟩ := List.mem_flatMap.mp h
      split at h
      · obtain rfl := List.mem_singleton.mp h
        exact Or.inl rfl
      · exact Or.inr (kind_of_field h)
    · exact ih h

/-- Stage scopes give findings about references out of scope only. -/
theorem kind_of_scope {st : Stage} {f : Finding} (h : f ∈ scopeFindings st) :
    f.kind = .outOfScopeReference := by
  unfold scopeFindings at h
  split at h
  · cases h
  · obtain ⟨r, -, rfl⟩ := List.mem_map.mp h
    rfl

/-- Stages give findings about forward references and the order of stages only. -/
theorem kind_of_stages {before stages : List Stage} {f : Finding}
    (h : f ∈ stagesFindings before stages) :
    f.kind = .forwardReference ∨ f.kind = .stageOrder := by
  induction stages generalizing before with
  | nil => cases h
  | cons st stages ih =>
    rw [stagesFindings] at h
    rcases List.mem_append.mp h with h | h
    · rcases List.mem_append.mp h with h | h
      · obtain ⟨r, -, h⟩ := List.mem_flatMap.mp h
        dsimp only at h
        split at h
        · cases h
        · split at h
          · obtain rfl := List.mem_singleton.mp h
            exact Or.inl rfl
          · cases h
      · split at h
        · obtain rfl := List.mem_singleton.mp h
          exact Or.inr rfl
        · cases h
    · exact ih h

theorem kind_of_filter {s : Statement} {p : Plan} {f : Finding}
    (h : f ∈ filterFindings s p) : f.kind = .implicitGroupingViolation := by
  unfold filterFindings at h
  split at h
  · cases h
  · obtain ⟨r, -, rfl⟩ := List.mem_map.mp h
    rfl

theorem kind_of_grouping {s : Statement} {p : Plan} {f : Finding}
    (h : f ∈ groupingFindings s p) : f.kind = .implicitGroupingViolation := by
  unfold groupingFindings at h
  split at h
  · cases h
  · rcases List.mem_append.mp h with h | h
    · split at h
      · cases h
      · obtain ⟨r, -, rfl⟩ := List.mem_map.mp h
        rfl
    · obtain ⟨r, -, rfl⟩ := List.mem_map.mp h
      rfl

theorem kind_of_nested {op : Operation} {f : Finding} (h : f ∈ nestedFindings op) :
    f.kind = .aggregateInExpression := by
  unfold nestedFindings at h
  split at h
  · obtain ⟨r, -, rfl⟩ := List.mem_map.mp h
    rfl
  · obtain ⟨r, -, rfl⟩ := List.mem_map.mp h
    rfl
  · cases h

theorem kind_of_window {s : Statement} {p : Plan} {f : Finding}
    (h : f ∈ windowFindings s p) : f.kind = .windowAliasReference := by
  obtain ⟨r, -, rfl⟩ := List.mem_map.mp h
  rfl

/-- The kinds that the checks of style find. -/
def styleKinds : List IssueKind :=
  [.unknownFunction, .aliasStyle, .clauseCount]

/-- Style findings have one of the kinds of style. -/
theorem kind_of_style {d : Snapshot} {rules : Rules} {s : Statement} {f : Finding}
    (h : f ∈ styleFindings d rules s) : f.kind ∈ styleKinds := by
  unfold styleFindings at h
  rcases List.mem_append.mp h with h | h
  · rcases List.mem_append.mp h with h | h
    · obtain ⟨r, -, rfl⟩ := List.mem_map.mp h
      exact List.mem_cons_self
    · obtain ⟨r, -, rfl⟩ := List.mem_map.mp h
      exact List.mem_cons_of_mem _ List.mem_cons_self
  · split at h
    · obtain rfl := List.mem_singleton.mp h
      simp [styleKinds, Finding.kind]
    · cases h

/-- Style findings are warnings. -/
theorem not_isError_of_style {d : Snapshot} {rules : Rules} {s : Statement} {f : Finding}
    (h : f ∈ styleFindings d rules s) : f.isError = false := by
  have hkinds : ∀ k ∈ styleKinds, (k.severity == .error) = false := by decide
  exact hkinds f.kind (kind_of_style h)

/-! ## Passing -/

/-- No check finds an error. -/
structure Passes (s : Statement) (d : Snapshot) : Prop where
  ends : structureFindings s = []
  aliases : repeatedAliases [] s.aliases = []
  operations : operationsFindings d s [] s.operations = []
  clauses : ∀ n ∈ clauseNames s, fieldFindings d s (splitName n) = []
  scope : ∀ st ∈ s.stages, scopeFindings st = []
  stages : stagesFindings [] s.stages = []
  filter : filterFindings s (Plan.ofStatement s) = []
  grouping : groupingFindings s (Plan.ofStatement s) = []
  nested : ∀ op ∈ s.operations, nestedFindings op = []
  windows : windowFindings s (Plan.ofStatement s) = []

/-- The findings that are errors, repetitions included. -/
def errorFindings (s : Statement) (d : Snapshot) : List Finding :=
  let p := Plan.ofStatement s
  structureFindings s ++ repeatedAliases [] s.aliases ++ operationsFindings d s [] s.operations ++
    (clauseNames s).flatMap (fun n => fieldFindings d s (splitName n)) ++
    s.stages.flatMap scopeFindings ++ stagesFindings [] s.stages ++ filterFindings s p ++
    groupingFindings s p ++ s.operations.flatMap nestedFindings ++ windowFindings s p

/-- All findings are the errors, then the warnings of style. -/
theorem allFindings_eq (s : Statement) (d : Snapshot) (rules : Rules) :
    allFindings s d rules = errorFindings s d ++ styleFindings d rules s :=
  rfl

/-- A statement passes exactly when it has no error. -/
theorem passes_iff {s : Statement} {d : Snapshot} : Passes s d ↔ errorFindings s d = [] := by
  simp only [errorFindings, List.append_eq_nil_iff, List.flatMap_eq_nil_iff]
  constructor
  · intro h
    exact ⟨⟨⟨⟨⟨⟨⟨⟨⟨h.ends, h.aliases⟩, h.operations⟩, h.clauses⟩, h.scope⟩, h.stages⟩, h.filter⟩,
      h.grouping⟩, h.nested⟩, h.windows⟩
  · rintro ⟨⟨⟨⟨⟨⟨⟨⟨⟨h1, h2⟩, h3⟩, h4⟩, h5⟩, h6⟩, h7⟩, h8⟩, h9⟩, h10⟩
    exact ⟨h1, h2, h3, h4, h5, h6, h7, h8, h9, h10⟩

/-- The kinds of errors that are about the inside of a statement, not about its ends. -/
def innerKinds : List IssueKind :=
  [.duplicateAlias, .forwardReference, .unknownField, .outOfScopeReference, .stageOrder,
   .implicitGroupingViolation, .aggregateInExpression, .windowAliasReference]

/-- A finding that is an error is about the ends of a statement, or has one of the other kinds. -/
theorem kind_of_errorFindings {s : Statement} {d : Snapshot} {f : Finding}
    (h : f ∈ errorFindings s d) : f ∈ structureFindings s ∨ f.kind ∈ innerKinds := by
  simp only [errorFindings, List.mem_append, List.mem_flatMap] at h
  obtain (((((((((h | h) | h) | ⟨n, -, h⟩) | ⟨st, -, h⟩) | h) | h) | h) | ⟨op, -, h⟩) | h) := h
  · exact Or.inl h
  · exact Or.inr (by simp [innerKinds, kind_of_repeated h])
  · rcases kind_of_operations h with h | h <;> exact Or.inr (by simp [innerKinds, h])
  · exact Or.inr (by simp [innerKinds, kind_of_field h])
  · exact Or.inr (by simp [innerKinds, kind_of_scope h])
  · rcases kind_of_stages h with h | h <;> exact Or.inr (by simp [innerKinds, h])
  · exact Or.inr (by simp [innerKinds, kind_of_filter h])
  · exact Or.inr (by simp [innerKinds, kind_of_grouping h])
  · exact Or.inr (by simp [innerKinds, kind_of_nested h])
  · exact Or.inr (by simp [innerKinds, kind_of_window h])

theorem isError_of_errorFindings {s : Statement} {d : Snapshot} {f : Finding}
    (h : f ∈ errorFindings s d) : f.isError = true := by
  have hkinds : ∀ k ∈ innerKinds, (k.severity == .error) = true := by decide
  rcases kind_of_errorFindings h with h | h
  · exact isError_of_structure h
  · exact hkinds f.kind h

/-- **A statement is valid exactly if it passes all checks that look for errors.** -/
theorem valid_iff {s : Statement} {d : Snapshot} {rules : Rules} :
    (s.check d rules).valid = true ↔ Passes s d := by
  simp only [Statement.check]
  rw [Finding.any_isError_distinct, Bool.not_eq_true', List.any_eq_false, passes_iff,
    allFindings_eq, List.eq_nil_iff_forall_not_mem]
  constructor
  · intro h f hf
    exact h f (List.mem_append_left _ hf) (isError_of_errorFindings hf)
  · intro h f hf he
    rcases List.mem_append.mp hf with hf | hf
    · exact h f hf
    · rw [not_isError_of_style hf] at he
      cases he

/-- The aliases of a list without repetitions are different from each other. -/
theorem repeatedAliases_eq_nil {seen names : List String} :
    repeatedAliases seen names = [] ↔ names.Nodup ∧ ∀ n ∈ names, n ∉ seen := by
  induction names generalizing seen with
  | nil => simp [repeatedAliases]
  | cons n names ih =>
    rw [repeatedAliases]
    split
    · next h =>
      have hn : n ∈ seen := by simpa using h
      simp [hn]
    · next h =>
      have hn : n ∉ seen := by simpa using h
      rw [ih, List.nodup_cons]
      constructor
      · rintro ⟨hd, hs⟩
        refine ⟨⟨fun hm => hs n hm List.mem_cons_self, hd⟩, ?_⟩
        intro m hm
        rcases List.mem_cons.mp hm with rfl | hm
        · exact hn
        · exact fun hs' => hs m hm (List.mem_cons_of_mem n hs')
      · rintro ⟨⟨hnm, hd⟩, hs⟩
        refine ⟨hd, ?_⟩
        intro m hm hmem
        rcases List.mem_cons.mp hmem with rfl | hmem
        · exact hnm hm
        · exact hs m (List.mem_cons_of_mem n hm) hmem

/-- The aliases of a statement that passes are different from each other. -/
theorem Passes.nodup {s : Statement} {d : Snapshot} (h : Passes s d) : s.aliases.Nodup :=
  (repeatedAliases_eq_nil.mp h.aliases).1

end Check

end DataPhrase
