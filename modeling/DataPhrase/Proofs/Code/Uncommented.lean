/-
# Queries without comments

Where a query takes in a text of its statement, it is a name, a literal or a number, and everything
else is made of words, signs with blanks around them, and dates in quotes. So nothing in the query
of a statement that was read opens a comment, except that a negation can double a minus sign: the
query opens a comment exactly if one of its terms does that (`hasPair_of_parse`).
-/
import DataPhrase.Dictionary.Builtin
import DataPhrase.Proofs.Code.Doubled
import DataPhrase.Proofs.Code.Query
import DataPhrase.Proofs.Plan
import DataPhrase.Proofs.Statement.Parse
import DataPhrase.Proofs.Statement.Worded

namespace DataPhrase

open Code

namespace Sql

variable {d : Snapshot} {p : Plan} {q : Query} {as as' : Aliases} {n : String}

/-! ## Doubled signs in queries -/

/-- Somewhere in the call a minus sign is doubled. -/
def WindowCall.doublesMinus (c : WindowCall) : Bool :=
  c.field?.any Term.doublesMinus

/-- Somewhere in the window a minus sign is doubled. -/
def WindowTerm.doublesMinus (w : WindowTerm) : Bool :=
  w.call.doublesMinus || (w.partitionBy ++ w.orderBy.map Prod.fst).any Term.doublesMinus

/-- Somewhere in the column a minus sign is doubled. -/
def Column.doublesMinus : Column → Bool
  | .all | .plain _ => false
  | .term e _ => e.doublesMinus
  | .window w _ => w.doublesMinus

/-- Somewhere in the query a negation puts its sign in front of another minus sign. -/
def Query.doublesMinus (q : Query) : Bool :=
  q.columns.any Column.doublesMinus || q.joins.any (fun j => j.2.doublesMinus) ||
    q.filters.any Cond.doublesMinus || q.period.any (fun t => t.1.doublesMinus) ||
    q.group.any Term.doublesMinus || q.having.any Cond.doublesMinus

/-! ## Lists of texts -/

/-- Each of the texts starts and ends outside of quotes and opens no comment with a slash, and one
of them has two minus signs in a row exactly under the given condition. -/
structure PrintsAll (l : List String) (x : Prop) : Prop where
  each : ∀ s ∈ l, Prints s (HasPair '-' '-' s)
  some : (∃ s ∈ l, HasPair '-' '-' s) ↔ x

namespace PrintsAll

variable {l l' : List String} {s sep opening : String} {x y : Prop}

theorem nil : PrintsAll [] False := by
  constructor <;> simp

theorem congr (h : PrintsAll l x) (hxy : x ↔ y) : PrintsAll l y :=
  ⟨h.each, h.some.trans hxy⟩

/-- A list of one text doubles what the text does. -/
theorem singleton (h : Prints s x) : PrintsAll [s] x := by
  constructor
  · exact List.forall_mem_singleton.mpr (h.congr h.hasPair_iff.symm)
  · simpa using h.hasPair_iff

/-- Texts one behind another double what either of them does. -/
theorem append (h : PrintsAll l x) (h' : PrintsAll l' y) : PrintsAll (l ++ l') (x ∨ y) := by
  constructor
  · exact List.forall_mem_append.mpr ⟨h.each, h'.each⟩
  · simp only [List.mem_append, or_and_right, exists_or, h.some, h'.some]

/-- A list doubles a sign if one of its texts does. -/
theorem map {α : Type} {l : List α} {f : α → String} {D : α → Bool}
    (h : ∀ a ∈ l, Prints (f a) (D a = true)) : PrintsAll (l.map f) (l.any D = true) := by
  induction l with
  | nil =>
    rw [List.map_nil, List.any_nil, Bool.false_eq_true]
    exact nil
  | cons a l ih =>
    rw [List.forall_mem_cons] at h
    rw [List.any_cons, Bool.or_eq_true]
    exact (singleton h.1).append (ih h.2)

/-- Joined texts double what their parts do, if the separator has no sign. -/
theorem intercalate (h : PrintsAll l x) (hsep : Prints sep False) :
    Prints (sep.intercalate l) x := by
  have hall := hsep.intercalate (l := l) (f := id) h.each
  rw [List.map_id] at hall
  exact hall.congr h.some

theorem join (h : PrintsAll l x) : Prints (String.join l) x := by
  refine Prints.congr ?_ h.some
  have heach := h.each
  clear h
  induction l with
  | nil => exact Prints.empty.congr (by simp)
  | cons s l ih =>
    rw [List.forall_mem_cons] at heach
    rw [String.join_cons]
    exact (heach.1.append (ih heach.2)).congr (by simp)

/-- Texts behind an opening, or nothing. -/
theorem clause (h : PrintsAll l x) (ho : Prints opening False) (hsep : Prints sep False) :
    Prints (clause opening sep l) x := by
  rw [Sql.clause]
  split
  · next hnone =>
    rw [List.isEmpty_iff] at hnone
    subst hnone
    exact Prints.empty.congr (by rw [← h.some]; simp)
  · exact ho.left (h.intercalate hsep)

/-- A list of keys behind an opening, or nothing. -/
theorem keys {α : Type} {l : List α} {f : α → String} (h : PrintsAll (l.map f) x)
    (ho : Prints opening False) :
    PrintsAll (if l.isEmpty then [] else [opening ++ commas (l.map f)]) x := by
  cases l with
  | nil => exact h
  | cons a l => exact singleton (ho.left (h.intercalate (.of_harmless (by decide))))

end PrintsAll

/-! ## Text -/

/-- A number doubles no sign. -/
theorem prints_number (n : Nat) : Prints (toString n) False :=
  prints_spelled (isName_toString n).spelled

/-- A sort key doubles what its column does. -/
theorem prints_keyText {key : String} {x : Prop} (h : Prints key x) (dir : Direction) :
    Prints (keyText key dir) x := by
  cases dir with
  | asc => exact h
  | desc => exact h.right (.of_harmless (by decide))

/-- A window whose parts show their signs. -/
structure WindowShowsSigns (w : WindowTerm) : Prop where
  call : ∀ t ∈ w.call.field?, Prints (termText t) (t.doublesMinus = true)
  keys : ∀ t ∈ w.partitionBy ++ w.orderBy.map Prod.fst, Prints (termText t) (t.doublesMinus = true)

/-- The call of a window doubles what its field does. -/
theorem prints_windowCall {c : WindowCall}
    (h : ∀ t ∈ c.field?, Prints (termText t) (t.doublesMinus = true)) :
    Prints c.text (c.doublesMinus = true) := by
  have hword {s : String} (hs : s.toList.all isHarmless = true) :
      Prints s ((none : Option Term).any Term.doublesMinus = true) :=
    (Prints.of_harmless hs).congr (by simp)
  have hoffset (n : Nat) : Prints (if n = 1 then "" else ", " ++ toString n) False := by
    split
    · exact .empty
    · exact .left (.of_harmless (by decide)) (prints_number n)
  have hclose : Prints ")" False := .of_harmless (by decide)
  cases c with
  | rowNumber | rank | denseRank | percentRank => exact hword (by decide)
  | sum e => exact .around (.of_harmless (by decide)) (h e rfl) hclose
  | lag e n | lead e n =>
    -- The offset is a whole number, so it brings no sign with it.
    exact ((Prints.left (.of_harmless (by decide)) (h e rfl)).right (hoffset n)).right hclose

/-- A window doubles what its parts do. -/
theorem prints_windowTerm {w : WindowTerm} (h : WindowShowsSigns w) :
    Prints w.text (w.doublesMinus = true) := by
  obtain ⟨call, partitionBy, orderBy⟩ := w
  obtain ⟨hcall, hkeys⟩ := h
  rw [List.forall_mem_append, List.forall_mem_map] at hkeys
  have hspace : Prints " " False := .of_harmless (by decide)
  have hopening : Prints "PARTITION BY " False ∧ Prints "ORDER BY " False :=
    ⟨.of_harmless (by decide), .of_harmless (by decide)⟩
  have hpartition := (PrintsAll.map hkeys.1).keys hopening.1
  have horder := (PrintsAll.map (f := fun k => keyText (termText k.1) k.2) fun k hk =>
    prints_keyText (hkeys.2 k hk) k.2).keys hopening.2
  have hframe : PrintsAll call.frame False := by
    cases call with
    | sum e => exact .singleton (.of_harmless (by decide))
    | _ => exact .nil
  have hinner := ((hpartition.append horder).append hframe).intercalate hspace
  have hall := ((prints_windowCall hcall).between (b := " OVER (") (.of_harmless (by decide))
    hinner).right (b := ")") (.of_harmless (by decide))
  refine hall.congr ?_
  rw [WindowTerm.doublesMinus, Bool.or_eq_true, List.any_append, Bool.or_eq_true, or_false,
    List.any_map]
  exact Iff.rfl

/-- A column of a query doubles what its term does. -/
theorem prints_column {c : Column}
    (h : match c with
      | .all => True
      | .plain n => IsSpelled n
      | .term e a => ShowsSigns e ∧ IsSpelled a
      | .window w a => WindowShowsSigns w ∧ IsSpelled a) :
    Prints c.text (c.doublesMinus = true) := by
  have has {s : String} {x : Prop} (hs : Prints s x) {a : String} (ha : IsSpelled a) :
      Prints (s ++ " AS " ++ ident a) x :=
    (hs.right (.of_harmless (by decide))).right (prints_ident ha)
  cases c with
  | all => exact (Prints.of_harmless (by decide)).congr (by simp [Column.doublesMinus])
  | plain n => exact (prints_qualified h).congr (by simp [Column.doublesMinus])
  | term e a => exact has h.1.prints h.2
  | window w a => exact has (prints_windowTerm h.1) h.2

/-- A number of units in quotes. -/
theorem prints_interval (n : Nat) {w : String}
    (hw : Piece.leads (some '\'') (w.toList.map .char) = some none) :
    Prints ("INTERVAL '" ++ toString n ++ w) False := by
  have hnone : ∀ q ∈ (none : Option Char), isQuoteMark q = true :=
    fun q hq => absurd hq (Option.not_mem_none q)
  have hquote : ∀ q ∈ some '\'', isQuoteMark q = true := by
    rintro _ ⟨⟩
    rfl
  have hopening : Scans none "INTERVAL '".toList (some '\'') False :=
    scans_of_leads hnone (by decide)
  have hdigits : Scans (some '\'') (toString n).toList (some '\'') False := by
    refine .forall_mem fun c hc => .inside ?_
    rintro rfl
    exact absurd (isHarmless_of_isSpelled (isName_toString n).spelled hc) (by decide)
  rw [Prints, String.toList_append, String.toList_append]
  exact ((hopening.append hdigits).append (scans_of_leads hquote hw)).congr (by simp)

/-- The start of a period doubles no sign. -/
theorem prints_truncated (u : TimeUnit) :
    Prints ("DATE_TRUNC('" ++ u.name ++ "', CURRENT_DATE)") False := by
  have hnone : ∀ q ∈ (none : Option Char), isQuoteMark q = true :=
    fun q hq => absurd hq (Option.not_mem_none q)
  cases u <;> exact scans_of_leads hnone (by decide)

/-- **A period has its units and amounts in quotes, and a blank before every amount that it takes
away.** -/
theorem prints_periodText {field : String} {x : Prop} (h : Prints field x) (t : Period) :
    Prints (periodText field t) x := by
  have hinterval : Prints (intervalText t) False := by
    rw [intervalText]
    cases t.unit with
    | quarter => exact prints_interval _ (by decide)
    | _ =>
      simp only [String.append_assoc]
      rw [← String.append_assoc]
      exact prints_interval _ (by decide)
  have hstart := prints_truncated t.unit
  have hsince : Prints " >= " False := .of_harmless (by decide)
  have hbefore : Prints " < " False := .of_harmless (by decide)
  have hminus : Prints " - " False := ShowsSigns.prints_operator .subtract
  have hand : Prints " AND " False := .of_harmless (by decide)
  have hfrom :
      Prints (field ++ " >= " ++ ("DATE_TRUNC('" ++ t.unit.name ++ "', CURRENT_DATE)")) x :=
    (h.right hsince).right hstart
  rw [periodText]
  cases t.alignment with
  | calendar =>
    refine Prints.congr ?_ or_self_iff
    have hupTo := (((hfrom.right hminus).right hinterval).right hand).append h
    exact (hupTo.right hbefore).right hstart
  | rolling =>
    have htoday : Prints " >= CURRENT_DATE" False := .of_harmless (by decide)
    have htext : " >= CURRENT_DATE - " = " >= CURRENT_DATE" ++ " - " := by decide
    rw [htext]
    exact (h.right (htoday.left hminus)).right hinterval
  | toDate => exact hfrom

/-! ## Queries -/

/-- The parts of the query show their signs, and its sources and sort keys are spelled like names.
-/
structure QueryShowsSigns (q : Query) : Prop where
  columns : ∀ c ∈ q.columns, Prints c.text (c.doublesMinus = true)
  source : IsSpelled q.source
  joins : ∀ j ∈ q.joins, IsSpelled j.1 ∧ CondShowsSigns j.2
  filters : ∀ c ∈ q.filters, CondShowsSigns c
  period : ∀ t ∈ q.period, Prints (termText t.1) (t.1.doublesMinus = true)
  group : ∀ t ∈ q.group, Prints (termText t) (t.doublesMinus = true)
  having : ∀ c ∈ q.having, CondShowsSigns c
  order : ∀ o ∈ q.order, IsSpelled o.field

/-- A join doubles what its condition does. -/
theorem prints_join {j : String × Cond} (h : IsSpelled j.1 ∧ CondShowsSigns j.2) :
    Prints (" INNER JOIN " ++ qualified j.1 ++ " ON " ++ j.2.text style)
      (j.2.doublesMinus = true) := by
  have hinner : Prints " INNER JOIN " False := .of_harmless (by decide)
  have hon : Prints " ON " False := .of_harmless (by decide)
  exact ((hinner.left (prints_qualified h.1)).right hon).left h.2

/-- **The text of a query has two minus signs in a row exactly where the query doubles one.** -/
theorem prints_text (h : QueryShowsSigns q) : Prints q.text (q.doublesMinus = true) := by
  have hcomma : Prints ", " False := .of_harmless (by decide)
  have hand : Prints " AND " False := .of_harmless (by decide)
  have hselect : Prints "SELECT " False := .of_harmless (by decide)
  have hfrom : Prints " FROM " False := .of_harmless (by decide)
  have hwhere : Prints " WHERE " False := .of_harmless (by decide)
  have hgroupBy : Prints " GROUP BY " False := .of_harmless (by decide)
  have hhavingWord : Prints " HAVING " False := .of_harmless (by decide)
  have horderBy : Prints " ORDER BY " False := .of_harmless (by decide)
  have hcolumns := (PrintsAll.map h.columns).intercalate hcomma
  have hjoins := (PrintsAll.map fun j hj => prints_join (h.joins j hj)).join
  have hperiod : PrintsAll (q.period.map fun p => periodText (termText p.1) p.2).toList
      (q.period.any (fun t => t.1.doublesMinus) = true) := by
    cases hp : q.period with
    | none => exact PrintsAll.nil.congr (by simp)
    | some t => exact .singleton (prints_periodText (h.period t hp) t.2)
  have hfilters := ((PrintsAll.map fun c hc => (h.filters c hc).conjunct).append hperiod).clause
    hwhere hand
  have hgroup := (PrintsAll.map h.group).clause hgroupBy hcomma
  have hhaving := (PrintsAll.map fun c hc => (h.having c hc).conjunct).clause hhavingWord hand
  have horder := (PrintsAll.map (D := fun _ => false) fun o ho =>
    (prints_keyText (prints_qualified (h.order o ho)) o.direction).congr
      (by rw [Bool.false_eq_true])).clause horderBy hcomma
  have hall := (((((((hselect.left hcolumns).right hfrom).right (prints_qualified h.source)).append
    hjoins).append hfilters).append hgroup).append hhaving).append horder
  unfold Query.text
  refine Prints.congr (hall.right ?_) ?_
  · cases q.limit with
    | none => exact .empty
    | some n => exact .left (.of_harmless (by decide)) (prints_number n)
  · simp only [Query.doublesMinus, Bool.or_eq_true, List.any_eq_true, Bool.false_eq_true, and_false,
      exists_false, or_false, or_assoc]

end Sql

/-! ## Plans -/

/-- The functions of the dictionary have quiet templates for queries. -/
def Snapshot.IsQuiet (d : Snapshot) : Prop :=
  ∀ e ∈ d.entries, ∀ t ∈ e.template .sql, t.isQuiet = true

/-- The names in the plan are names, and its aliases, selections and sort keys are spelled like
names. -/
structure Plan.IsWorded (p : Plan) : Prop where
  source : IsSpelled p.source
  operations : ∀ op ∈ p.operations, op.IsWorded
  select : ∀ fields ∈ p.select, ∀ n ∈ fields, IsSpelled n
  filters : ∀ c ∈ p.preFilter ++ p.postFilter, c.IsWorded
  group : ∀ n ∈ p.group, IsName n
  order : ∀ o ∈ p.order, IsSpelled o.field
  period : ∀ t ∈ p.period, IsName t.field

/-- The aliases of a worded plan are spelled. -/
theorem Plan.IsWorded.aliases {p : Plan} (h : p.IsWorded) : ∀ n ∈ p.aliases, IsSpelled n := by
  rw [← Plan.filterMap_operations]
  intro n hn
  obtain ⟨op, hop, ha⟩ := List.mem_filterMap.mp hn
  exact (h.operations op hop).alias n ha

/-- A plan has the names of its statement. -/
theorem Statement.IsWorded.plan {s : Statement} (h : s.IsWorded) :
    (Plan.ofStatement s).IsWorded where
  source := by
    rw [Plan.source_ofStatement]
    exact h.source
  operations op hop :=
    h.operations op (List.mem_of_mem_filter ((Plan.operations_ofStatement s).mem_iff.mp hop))
  select fields hf n hn := h.operations _ (Plan.mem_of_select_ofStatement hf) n hn
  filters c hc := by
    obtain ⟨f, hf, hpart⟩ := Plan.exists_of_mem_filters hc
    exact (h.filter f hf).conjuncts c hpart
  group := by
    rw [Plan.group_ofStatement]
    exact h.group
  order := by
    rw [Plan.order_ofStatement]
    exact h.order
  period := by
    rw [Plan.period_ofStatement]
    exact h.period

namespace Sql

/-- The definitions of the aliases show their signs. -/
def AliasesShowSigns (as : Aliases) : Prop :=
  ∀ a ∈ as, ShowsSigns a.2.term

/-- The definition of an alias shows its signs. -/
theorem showsSigns_of_find? (h : AliasesShowSigns as) {x : AliasTerm} (hx : as.find? n = some x) :
    ShowsSigns x.term := by
  obtain ⟨a, ha, rfl⟩ := Option.map_eq_some_iff.mp hx
  exact h a (List.mem_of_find?_eq_some ha)

/-- The scope of aliases that show their signs shows them. -/
theorem scopeShowsSigns (hd : d.IsQuiet) (h : AliasesShowSigns as) :
    ScopeShowsSigns (scope d as) where
  field q n hq hn := by
    cases q with
    | some q => exact .column hq hn
    | none =>
      show ShowsSigns (as.field (none, n))
      rw [Aliases.field]
      split
      · next x hx =>
        have hterm := showsSigns_of_find? h hx
        split
        · exact hterm.group
        · exact hterm
      · exact .column hq hn
  template n t ht := by
    rw [functionTemplate] at ht
    split at ht
    · cases ht
    · next es hes =>
      split at ht
      · next x hx =>
        cases ht
        obtain ⟨e, he, hte⟩ := List.exists_of_findSome?_eq_some hx
        exact hd e (List.mem_of_mem_filter he) t hte
      · cases ht

/-- A name with its alias resolved doubles what its definition does. -/
theorem prints_written (h : AliasesShowSigns as) (hn : IsSpelled n) :
    Prints (termText (as.written n)) ((as.written n).doublesMinus = true) := by
  rw [Aliases.written]
  split
  · next x hx => exact (showsSigns_of_find? h hx).prints
  · exact (prints_qualified hn).congr (by rw [Term.doublesMinus, Bool.false_eq_true])

/-- Calculations add aliases that show their signs. -/
theorem aliasesShowSigns_defineCalcs (hd : d.IsQuiet) {cs : List Calc}
    (hcs : ∀ c ∈ cs, c.expression.IsWorded) (has : AliasesShowSigns as)
    (h : defineCalcs d as cs = .ok as') : AliasesShowSigns as' := by
  induction cs generalizing as with
  | nil =>
    cases h
    exact has
  | cons c cs ih =>
    obtain ⟨t, ht, h⟩ := defineCalcs_cons.mp h
    rw [List.forall_mem_cons] at hcs
    have hterm := showsSigns_ofExpr (scopeShowsSigns hd has) hcs.1 ht
    exact ih hcs.2 (List.forall_mem_cons.mpr ⟨hterm, has⟩) h

/-- An aggregate shows the signs of its field. -/
theorem showsSigns_aggregateTerm (hd : d.IsQuiet) (has : AliasesShowSigns as) {a : Aggregate}
    (ha : a.field.IsWorded) {t : Term} (h : aggregateTerm (scope d as) a = .ok t) :
    ShowsSigns t := by
  have hsc := scopeShowsSigns hd has
  obtain ⟨e, he, h⟩ := bind_eq_ok.mp h
  have hshown := showsSigns_ofExpr hsc ha he
  split at h
  · exact showsSigns_percentileTerm hsc hshown h
  · exact showsSigns_percentileTerm hsc hshown h
  · cases h
    split
    · exact .countRows
    · exact .aggregate .count hshown
  · cases h
    exact .aggregate _ hshown

/-- Aggregates add aliases that show their signs. -/
theorem aliasesShowSigns_defineAggregates (hd : d.IsQuiet) {l : List Aggregate}
    (hl : ∀ a ∈ l, a.field.IsWorded) (has : AliasesShowSigns as)
    (h : defineAggregates d as l = .ok as') : AliasesShowSigns as' := by
  induction l generalizing as with
  | nil =>
    cases h
    exact has
  | cons a l ih =>
    obtain ⟨t, ht, h⟩ := defineAggregates_cons.mp h
    rw [List.forall_mem_cons] at hl
    have hterm := showsSigns_aggregateTerm hd has hl.1 ht
    exact ih hl.2 (List.forall_mem_cons.mpr ⟨hterm, has⟩) h

/-- A window shows the signs of its parts. -/
theorem windowShowsSigns (hd : d.IsQuiet) (has : AliasesShowSigns as) {w : Window}
    (hw : w.operation.IsWorded) {t : WindowTerm} (h : windowTerm d as w = .ok t) :
    WindowShowsSigns t := by
  obtain ⟨⟨hfield, hpart, horder⟩, -⟩ := hw
  obtain ⟨hcall, hkeys⟩ := windowTerm_eq_ok h
  constructor
  · intro e he
    have hsettled := windowField_of_windowCall hcall he
    rw [windowField] at hsettled
    split at hsettled
    · next x hx => exact (showsSigns_ofExpr (scopeShowsSigns hd has) (hfield x hx) hsettled).prints
    · cases hsettled
  · rw [hkeys, List.forall_mem_map, List.forall_mem_append, List.forall_mem_map]
    exact ⟨fun n hn => prints_written has (hpart n hn).spelled,
      fun k hk => prints_written has (horder k hk).spelled⟩

/-- A column of a query is all of the source or the column of a name that the plan selects, groups
by or computes. -/
theorem exists_of_mem_columnsOf {f : String → Column} {c : Column} (h : c ∈ columnsOf p f) :
    c = .all ∨
      ∃ n, ((∃ fields ∈ p.select, n ∈ fields) ∨ n ∈ p.group ∨ n ∈ p.aliases) ∧ c = f n := by
  have hnames {l : List String} (hl : ∀ n ∈ l, (∃ fields ∈ p.select, n ∈ fields) ∨ n ∈ p.group ∨
      n ∈ p.aliases) (h : c ∈ l.map f) :
      ∃ n, ((∃ fields ∈ p.select, n ∈ fields) ∨ n ∈ p.group ∨ n ∈ p.aliases) ∧ c = f n := by
    obtain ⟨n, hn, rfl⟩ := List.mem_map.mp h
    exact ⟨n, hl n hn, rfl⟩
  rw [columnsOf] at h
  split at h
  · next fields hfields =>
    exact Or.inr (hnames (fun n hn => Or.inl ⟨fields, hfields, hn⟩) h)
  · rcases List.mem_append.mp h with h | h
    · split at h
      · refine Or.inr (hnames (fun n hn => Or.inr ?_) h)
        rw [List.append_assoc, List.mem_append] at hn
        exact hn.imp_right Plan.mem_aliases_of_postAliases
      · rcases List.mem_cons.mp h with rfl | h
        · exact Or.inl rfl
        · obtain ⟨x, hx, rfl⟩ := List.mem_map.mp h
          refine Or.inr ⟨x.aliasName, Or.inr (Or.inr ?_), rfl⟩
          exact List.mem_append_left _ (List.mem_append_left _ (List.mem_map_of_mem hx))
    · obtain ⟨w, hw, rfl⟩ := List.mem_map.mp h
      refine Or.inr ⟨w.aliasName, Or.inr (Or.inr ?_), rfl⟩
      exact List.mem_append_right _ (List.mem_map_of_mem hw)

/-- A named column doubles what its definition does. -/
theorem prints_columnOf (has : AliasesShowSigns as) {windows : List (String × WindowTerm)}
    (hw : ∀ w ∈ windows, WindowShowsSigns w.2) (hn : IsSpelled n) :
    Prints (column as windows n).text ((column as windows n).doublesMinus = true) := by
  rw [column]
  split
  · next x hx => exact prints_column ⟨showsSigns_of_find? has hx, hn⟩
  · split
    · next w hfound => exact prints_column ⟨hw w (List.mem_of_find?_eq_some hfound), hn⟩
    · exact prints_column hn

/-- A query has the sources of its plan. -/
theorem source_ofPlan (h : Query.ofPlan d p = .ok q) :
    q.source = p.source ∧ q.joins.map Prod.fst = p.joins.map Join.source := by
  unfold Query.ofPlan at h
  obtain ⟨rows, -, h⟩ := bind_eq_ok.mp h
  obtain ⟨groups, -, h⟩ := bind_eq_ok.mp h
  obtain ⟨as, -, h⟩ := bind_eq_ok.mp h
  obtain ⟨windows, -, h⟩ := bind_eq_ok.mp h
  obtain ⟨joins, hjoins, h⟩ := bind_eq_ok.mp h
  obtain ⟨filters, -, h⟩ := bind_eq_ok.mp h
  obtain ⟨having, -, h⟩ := bind_eq_ok.mp h
  cases h
  refine ⟨rfl, map_eq_of_mapM hjoins fun j x hx => ?_⟩
  obtain ⟨c, -, rfl⟩ := map_eq_ok.mp hx
  rfl

/-- **The query of a plan with names shows its signs.** -/
theorem queryShowsSigns (hd : d.IsQuiet) (hp : p.IsWorded) (h : Query.ofPlan d p = .ok q) :
    QueryShowsSigns q := by
  obtain ⟨rows, groups, as, windows, he⟩ := exists_emits h
  -- The definitions grow phase by phase, each from those before it.
  have hrows : AliasesShowSigns rows := by
    refine aliasesShowSigns_defineCalcs hd (fun c hc => ?_)
      (fun _ ha => (List.not_mem_nil ha).elim) he.calcs
    exact (hp.operations _ (Plan.mem_operations_of_preCalcs hc)).1
  have hgroups : AliasesShowSigns groups := by
    refine aliasesShowSigns_defineAggregates hd (fun a ha => ?_) hrows he.aggregates
    exact (hp.operations _ (Plan.mem_operations_of_aggregates ha)).1
  have has : AliasesShowSigns as := by
    refine aliasesShowSigns_defineCalcs hd (fun c hc => ?_) hgroups he.lateCalcs
    exact (hp.operations _ (Plan.mem_operations_of_postCalcs hc)).1
  have hsc := scopeShowsSigns hd has
  have hwindows : ∀ w ∈ windows, WindowShowsSigns w.2 := by
    intro w hw
    obtain ⟨x, hx, hterm⟩ := exists_mem_of_forall₂ he.terms (List.mem_reverse.mpr hw)
    exact windowShowsSigns hd has (hp.operations _ (Plan.mem_operations_of_windows hx)) hterm.1
  obtain ⟨hpre, hpost⟩ := List.forall_mem_append.mp hp.filters
  refine ⟨?_, ?_, ?_, ?_, ?_, ?_, ?_, ?_⟩
  · intro c hc
    rw [he.columns] at hc
    rcases exists_of_mem_columnsOf hc with rfl | ⟨n, hn, rfl⟩
    · exact prints_column trivial
    · refine prints_columnOf has hwindows ?_
      rcases hn with ⟨fields, hfields, hn⟩ | hn | hn
      · exact hp.select fields hfields n hn
      · exact (hp.group n hn).spelled
      · exact hp.aliases n hn
  · rw [(source_ofPlan h).1]
    exact hp.source
  · intro j hj
    obtain ⟨x, hx, hcond⟩ := exists_mem_of_forall₂ he.joins hj
    have hop := hp.operations _ (Plan.mem_operations_of_joins hx)
    have hsource : j.1 ∈ p.joins.map Join.source := by
      rw [← (source_ofPlan h).2]
      exact List.mem_map_of_mem hj
    obtain ⟨y, hy, hyj⟩ := List.mem_map.mp hsource
    refine ⟨?_, showsSigns_ofCondition hsc hop.2 hcond⟩
    rw [← hyj]
    exact (hp.operations _ (Plan.mem_operations_of_joins hy)).1
  · intro x hx
    obtain ⟨c, hc, hcond⟩ := exists_mem_of_forall₂ he.filters hx
    exact showsSigns_ofCondition hsc (hpre c hc) hcond
  · intro t ht
    rw [he.period] at ht
    obtain ⟨u, hu, rfl⟩ := Option.map_eq_some_iff.mp ht
    exact prints_written has (hp.period u hu).spelled
  · rw [he.group, List.forall_mem_map]
    exact fun n hn => prints_written has (hp.group n hn).spelled
  · intro x hx
    obtain ⟨c, hc, hcond⟩ := exists_mem_of_forall₂ he.having hx
    exact showsSigns_ofCondition hsc (hpost c hc) hcond
  · rw [he.order]
    exact hp.order

/-! ## Comments -/

/-- The templates of the built-in functions double no sign. -/
theorem isQuiet_withBuiltins : Snapshot.withBuiltins.IsQuiet := by
  have h : (Snapshot.builtins.all fun e => (e.template .sql).all Template.isQuiet) = true := by
    decide +kernel
  intro e he t ht
  have hentry := List.all_eq_true.mp h e he
  rw [Option.mem_def.mp ht] at hentry
  exact hentry

/-- **The query of a text opens no comment with a slash, and one with two minus signs exactly if a
negation in it puts its sign in front of another minus sign.** -/
theorem hasPair_of_parse {text : List Char} {s : Statement} {code : String}
    (hs : Statement.parse text = .ok s)
    (hcode : generate .withBuiltins (Plan.ofStatement s) = .ok code) :
    ∃ q, Query.ofPlan .withBuiltins (Plan.ofStatement s) = .ok q ∧ q.text = code ∧
      ¬ HasPair '/' '*' code ∧ (HasPair '-' '-' code ↔ q.doublesMinus = true) := by
  obtain ⟨q, hq, rfl⟩ := generate_eq_ok.mp hcode
  have hprints := prints_text
    (queryShowsSigns isQuiet_withBuiltins (isWorded_of_parse hs).plan hq)
  exact ⟨q, hq, rfl, hprints.not_slash, hprints.hasPair_iff⟩

/-- Differences of negative numbers and of negations, a quoted comment, and a period. -/
def quotedComment : List Char :=
  ("transform S to T as a - -1 as b, -(a - b) as c, -(x * -2) as e " ++
    "where note = '/* -- */' and -a < -c during last 2 quarters").toList

/-- A pair of minus signs in a literal opens no comment. -/
theorem hasPair_quotedComment : ∃ s, Statement.parse quotedComment = .ok s ∧
    ∃ code, generate .withBuiltins (Plan.ofStatement s) = .ok code ∧ ¬ OpensComment code := by
  obtain ⟨s, hs, h⟩ := exists_parse quotedComment
    (congrArg String.toList String.ofList_append.symm)
    (fun _ s => (Query.ofPlan .withBuiltins (Plan.ofStatement s)).toOption.any fun q =>
      !q.doublesMinus)
    (by decide +kernel)
  obtain ⟨q, hq, hquiet⟩ := (Option.any_eq_true _ _).mp h
  have hquery := eq_ok_of_toOption hq
  have hcode := generate_eq_ok.mpr ⟨q, hquery, rfl⟩
  refine ⟨s, hs, q.text, hcode, ?_⟩
  obtain ⟨q', hq', -, hslash, hdashes⟩ := hasPair_of_parse hs hcode
  obtain rfl := Except.ok.inj (hquery.symm.trans hq')
  rw [OpensComment, not_or, hdashes, Bool.not_eq_true, ← Bool.not_eq_true']
  exact ⟨hquiet, hslash⟩

/-- A negation of a negation. -/
def negatedTwice : List Char :=
  "transform S to T as -(-x) as d".toList

/-- The query of a text can open a comment. -/
theorem opensComment_negatedTwice : ∃ s, Statement.parse negatedTwice = .ok s ∧
    ∃ code, generate .withBuiltins (Plan.ofStatement s) = .ok code ∧ OpensComment code := by
  obtain ⟨s, hs, h⟩ := exists_parse negatedTwice rfl
    (fun _ s => (generate .withBuiltins (Plan.ofStatement s)).toOption.any fun code =>
      decide (OpensComment code))
    (by decide +kernel)
  obtain ⟨code, hcode, hopens⟩ := (Option.any_eq_true _ _).mp h
  exact ⟨s, hs, code, eq_ok_of_toOption hcode, of_decide_eq_true hopens⟩

end Sql

end DataPhrase
