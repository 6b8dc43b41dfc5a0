/-
# Names in what is read

The names of fields that the readers of expressions and conditions give are words, so they hold no
points; and what is read mentions no metrics.
-/
import DataPhrase.Proofs.Grammar.Condition

namespace DataPhrase

open Text Lexeme

/-! ## Plain names -/

/-- The name has a single part. -/
def IsPlain (n : String) : Prop :=
  '.' ∉ n.toList

/-- A word is a plain name. -/
theorem isPlain_of_wordAhead? {s w r : List Char} (h : wordAhead? s = some (w, r)) :
    IsPlain (String.ofList w) := by
  intro hd
  rw [String.toList_ofList] at hd
  have := isNameChar_of_wordAhead? h hd
  revert this
  decide

/-- A run of characters of names is a plain name. -/
theorem isPlain_of_takeWhile {c : Char} {t : List Char} (h : isNameStart c = true) :
    IsPlain (String.ofList (c :: t.takeWhile isNameChar)) := by
  intro hd
  rw [String.toList_ofList] at hd
  have : isNameChar '.' = true := by
    rcases List.mem_cons.mp hd with hc | ht
    · rw [hc]
      exact isNameChar_of_isNameStart h
    · exact List.all_eq_true.mp List.all_takeWhile _ ht
  revert this
  decide

/-- An identifier that was read has no point in it. -/
theorem isPlain_of_identifier {s r : List Char} {n : String} (h : (identifier s).Gives n r) :
    IsPlain n := by
  obtain ⟨w, hw, rfl⟩ := gives_identifier.mp h
  exact isPlain_of_wordAhead? hw

/-! ## Expressions -/

namespace Expr

/-- The expression mentions fields by plain names only, and no metrics. -/
structure IsWritten (e : Expr) : Prop where
  fields : ∀ f ∈ e.fields, IsPlain f.2 ∧ ∀ q ∈ f.1, IsPlain q
  metrics : e.metrics = []

theorem isWritten_literal (v : Literal) : (Expr.literal v).IsWritten :=
  ⟨by simp [Expr.fields], rfl⟩

theorem isWritten_star : Expr.star.IsWritten :=
  ⟨by simp [Expr.fields], rfl⟩

theorem isWritten_field {q : Option String} {n : String} (hn : IsPlain n)
    (hq : ∀ s ∈ q, IsPlain s) : (Expr.field q n).IsWritten := by
  refine ⟨?_, rfl⟩
  intro f hf
  rw [Expr.fields, List.mem_singleton] at hf
  subst hf
  exact ⟨hn, hq⟩

theorem IsWritten.negate {e : Expr} (h : e.IsWritten) : (Expr.negate e).IsWritten :=
  ⟨by rw [Expr.fields]; exact h.fields, by rw [Expr.metrics]; exact h.metrics⟩

theorem IsWritten.binary {op : ArithOp} {l r : Expr} (hl : l.IsWritten) (hr : r.IsWritten) :
    (Expr.binary op l r).IsWritten := by
  refine ⟨?_, ?_⟩
  · intro f hf
    rw [Expr.fields, List.mem_append] at hf
    rcases hf with hf | hf
    · exact hl.fields f hf
    · exact hr.fields f hf
  · rw [Expr.metrics, hl.metrics, hr.metrics]
    rfl

/-- The fields of a list of arguments are those of each argument in order. -/
theorem fieldsAll_eq (es : List Expr) : fieldsAll es = es.flatMap Expr.fields := by
  induction es with
  | nil => rfl
  | cons e es ih => rw [fieldsAll, ih, List.flatMap_cons]

/-- The metrics of a list of arguments are those of each argument in order. -/
theorem metricsAll_eq (es : List Expr) : metricsAll es = es.flatMap Expr.metrics := by
  induction es with
  | nil => rfl
  | cons e es ih => rw [metricsAll, ih, List.flatMap_cons]

theorem isWritten_call {n : String} {es : List Expr} (h : ∀ e ∈ es, e.IsWritten) :
    (Expr.call n es).IsWritten := by
  refine ⟨?_, ?_⟩
  · intro f hf
    rw [Expr.fields, fieldsAll_eq, List.mem_flatMap] at hf
    obtain ⟨e, he, hf⟩ := hf
    exact (h e he).fields f hf
  · rw [Expr.metrics, metricsAll_eq, List.flatMap_eq_nil_iff]
    intro e he
    exact (h e he).metrics

/-- The value of a part is written, provided that what stands to its left is. -/
def Part.IsWritten : Part → Prop
  | .sum e | .product e | .signed e | .operand e => e.IsWritten
  | .summands l e | .factors l e => l.IsWritten → e.IsWritten
  | .arguments es | .moreArguments es => ∀ e ∈ es, e.IsWritten

/-- Whatever a part of the expression grammar derives has only written names. -/
theorem Derives.isWritten {p : Part} {s r : List Char} (h : Derives p s r) : p.IsWritten := by
  induction h with
  | sum _ _ ihl ihe => exact ihe ihl
  | sumEnd => exact id
  | sumMore _ _ _ ihx ihe =>
    intro hl
    exact ihe (IsWritten.binary hl ihx)
  | product _ _ ihl ihe => exact ihe ihl
  | productEnd => exact id
  | productMore _ _ _ ihx ihe =>
    intro hl
    exact ihe (IsWritten.binary hl ihx)
  | negative => exact isWritten_literal _
  | negate _ _ _ _ ih => exact IsWritten.negate ih
  | unsigned _ _ ih => exact ih
  | group _ ih => exact ih
  | text => exact isWritten_literal _
  | number => exact isWritten_literal _
  | constant => exact isWritten_literal _
  | call _ _ _ _ ih => exact isWritten_call ih
  | qualified hc _ _ hd =>
    refine isWritten_field (isPlain_of_takeWhile hd) ?_
    intro q hq
    cases hq
    exact isPlain_of_takeWhile hc
  | plain hc =>
    refine isWritten_field (isPlain_of_takeWhile hc) ?_
    intro q hq
    cases hq
  | noArguments =>
    intro e he
    cases he
  | starArgument =>
    intro e he
    rw [List.mem_singleton] at he
    subst he
    exact isWritten_star
  | arguments _ _ _ _ ihe ihes => exact List.forall_mem_cons.mpr ⟨ihe, ihes⟩
  | argumentsEnd =>
    intro e he
    cases he
  | argumentsMore _ _ ihe ihes => exact List.forall_mem_cons.mpr ⟨ihe, ihes⟩

/-- The reader of expressions gives written expressions. -/
theorem isWritten_of_read {s r : List Char} {e : Expr} (h : (read s).Gives e r) : e.IsWritten :=
  (gives_read_iff.mp h).isWritten

/-- The names of the fields of a written expression are plain. -/
theorem IsWritten.isPlain {e : Expr} (h : e.IsWritten) {n : String} (hn : n ∈ e.fieldNames) :
    IsPlain n := by
  obtain ⟨f, hf, rfl⟩ := List.mem_map.mp hn
  exact (h.fields f hf).1

end Expr

/-! ## Conditions -/

namespace Condition

/-- The expressions of the condition are written, and none of its parts is a conjunction. -/
structure IsWritten (c : Condition) : Prop where
  exprs : ∀ e ∈ c.exprs, e.IsWritten
  parts : ∀ p ∈ c.conjuncts, p.conjuncts = [p]

/-- The expressions of a list of conditions are those of each condition in order. -/
theorem exprsAll_eq (cs : List Condition) : exprsAll cs = cs.flatMap Condition.exprs := by
  induction cs with
  | nil => rfl
  | cons c cs ih => rw [exprsAll, ih, List.flatMap_cons]

/-- The expressions of a condition are those of its conjuncts. -/
theorem exprs_eq_conjuncts (c : Condition) : c.exprs = c.conjuncts.flatMap Condition.exprs := by
  unfold Condition.conjuncts
  split
  · rw [Condition.exprs, exprsAll_eq]
  · rw [List.flatMap_cons, List.flatMap_nil, List.append_nil]

/-- A conjunction holds the expressions of its parts, also where it is a single part. -/
theorem exprs_and (cs : List Condition) : (and cs).exprs = cs.flatMap Condition.exprs := by
  have h : (cs.flatMap Condition.conjuncts).flatMap Condition.exprs =
      cs.flatMap Condition.exprs := by
    rw [List.flatMap_assoc]
    congr 1
    funext c
    exact (exprs_eq_conjuncts c).symm
  rw [← h]
  unfold and
  split
  · next c hc => rw [hc, List.flatMap_cons, List.flatMap_nil, List.append_nil]
  · rw [Condition.exprs, exprsAll_eq]

/-- What a conjunct reads is read by the condition. -/
theorem fieldNames_of_mem_conjuncts {c p : Condition} (h : p ∈ c.conjuncts) {n : String}
    (hn : n ∈ p.fieldNames) : n ∈ c.fieldNames := by
  rw [fieldNames, fields, exprs_eq_conjuncts]
  obtain ⟨f, hf, rfl⟩ := List.mem_map.mp hn
  obtain ⟨e, he, hf⟩ := List.mem_flatMap.mp hf
  exact List.mem_map_of_mem (List.mem_flatMap.mpr ⟨e, List.mem_flatMap.mpr ⟨p, h, he⟩, hf⟩)

/-- The parts of a conjunction are the parts of its parts. -/
theorem conjuncts_and {cs : List Condition} (h : ∀ c ∈ cs, c.IsWritten) :
    (and cs).conjuncts = cs.flatMap Condition.conjuncts := by
  unfold and
  split
  · next p hp =>
    have hm : p ∈ cs.flatMap Condition.conjuncts := by
      rw [hp]
      exact List.mem_singleton_self p
    obtain ⟨c, hc, hpc⟩ := List.mem_flatMap.mp hm
    rw [hp, (h c hc).parts p hpc]
  · rfl

theorem isWritten_and {cs : List Condition} (h : ∀ c ∈ cs, c.IsWritten) : (and cs).IsWritten := by
  refine ⟨?_, ?_⟩
  · intro e he
    rw [exprs_and, List.mem_flatMap] at he
    obtain ⟨c, hc, he⟩ := he
    exact (h c hc).exprs e he
  · intro p hp
    rw [conjuncts_and h, List.mem_flatMap] at hp
    obtain ⟨c, hc, hp⟩ := hp
    exact (h c hc).parts p hp

theorem isWritten_or {cs : List Condition} (h : ∀ c ∈ cs, c.IsWritten) : (or cs).IsWritten := by
  unfold or
  split
  · exact h _ (List.mem_singleton_self _)
  · refine ⟨?_, ?_⟩
    · intro e he
      rw [Condition.exprs, exprsAll_eq, List.mem_flatMap] at he
      obtain ⟨c, hc, he⟩ := he
      exact (h c hc).exprs e he
    · intro p hp
      obtain rfl := List.mem_singleton.mp hp
      rfl

/-- The value of a part is written. -/
def Part.IsWritten : Part → Prop
  | .disjunction c | .conjunction c | .negation c | .simple c => c.IsWritten
  | .alternatives cs | .conjuncts cs => ∀ c ∈ cs, c.IsWritten

/-- Whatever a part of the condition grammar derives has only written names. -/
theorem Derives.isWritten {p : Part} {s r : List Char} (h : Derives p s r) : p.IsWritten := by
  induction h with
  | disjunction _ _ ihc ihcs => exact isWritten_or (List.forall_mem_cons.mpr ⟨ihc, ihcs⟩)
  | alternativesEnd =>
    intro c hc
    cases hc
  | alternativesMore _ _ _ ihc ihcs => exact List.forall_mem_cons.mpr ⟨ihc, ihcs⟩
  | conjunction _ _ ihc ihcs => exact isWritten_and (List.forall_mem_cons.mpr ⟨ihc, ihcs⟩)
  | conjunctsEnd =>
    intro c hc
    cases hc
  | conjunctsMore _ _ _ ihc ihcs => exact List.forall_mem_cons.mpr ⟨ihc, ihcs⟩
  | not _ _ ih =>
    refine ⟨?_, ?_⟩
    · intro e he
      rw [Condition.exprs] at he
      exact ih.exprs e he
    · intro p hp
      obtain rfl := List.mem_singleton.mp hp
      rfl
  | group _ _ ih => exact ih
  | unnegated _ _ _ ih => exact ih
  | comparison hl _ he =>
    refine ⟨?_, ?_⟩
    · intro e he'
      rw [Condition.exprs] at he'
      rcases List.mem_cons.mp he' with rfl | he'
      · exact hl.isWritten
      · obtain rfl := List.mem_singleton.mp he'
        exact he.isWritten
    · intro p hp
      obtain rfl := List.mem_singleton.mp hp
      rfl
  | call he =>
    refine ⟨?_, ?_⟩
    · intro e he'
      have hw : Expr.IsWritten _ := he.isWritten
      refine ⟨?_, ?_⟩
      · intro f hf
        refine hw.fields f ?_
        rw [Expr.fields, Expr.fieldsAll_eq, List.mem_flatMap]
        exact ⟨e, he', hf⟩
      · have hm := hw.metrics
        rw [Expr.metrics, Expr.metricsAll_eq, List.flatMap_eq_nil_iff] at hm
        exact hm e he'
    · intro p hp
      obtain rfl := List.mem_singleton.mp hp
      rfl

/-- The reader of conditions gives written conditions. -/
theorem isWritten_of_read {s r : List Char} {c : Condition} (h : (read s).Gives c r) :
    c.IsWritten :=
  (gives_read_iff.mp ⟨r, h, rfl⟩).isWritten

/-- The names of the fields of written expressions are plain. -/
theorem isPlain_of_exprs {c : Condition} (h : ∀ e ∈ c.exprs, e.IsWritten) {n : String}
    (hn : n ∈ c.fieldNames) : IsPlain n := by
  obtain ⟨f, hf, rfl⟩ := List.mem_map.mp hn
  obtain ⟨e, he, hf⟩ := List.mem_flatMap.mp hf
  exact ((h e he).fields f hf).1

/-- The field names of a written condition have no point in them. -/
theorem IsWritten.isPlain {c : Condition} (h : c.IsWritten) {n : String} (hn : n ∈ c.fieldNames) :
    IsPlain n :=
  isPlain_of_exprs h.exprs hn

end Condition

end DataPhrase
