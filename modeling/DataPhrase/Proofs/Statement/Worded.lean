/-
# Names in statements

Whatever the surface form, the names in a statement that is read are spelled in characters of names
and points. Aliases that are made up join words by underscores, so the same holds of them
(`isWorded_of_parse`).
-/
import DataPhrase.Proofs.Statement.Raw
import DataPhrase.Proofs.Statement.Spelling

namespace DataPhrase

open Text Lexeme

variable {s r text : List Char} {n m : String}

/-! ## Statements -/

/-- The names in the statement are names, and its aliases, selections and sort keys are spelled like
names. -/
structure Statement.IsWorded (st : Statement) : Prop where
  source : IsSpelled st.source
  operations : ∀ op ∈ st.operations, op.IsWorded
  filter : ∀ c ∈ st.filter, c.IsWorded
  group : ∀ n ∈ st.group.getD [], IsName n
  order : ∀ o ∈ st.order, IsSpelled o.field
  period : ∀ p ∈ st.period, IsName p.field

/-! ### Transform statements -/

namespace Transform

namespace Clauses

/-- The clauses have names. -/
structure IsWorded (c : Clauses) : Prop where
  joins : ∀ op ∈ c.joins, op.IsWorded
  operations : ∀ ops ∈ c.operations, ∀ op ∈ ops, op.IsWorded
  group : ∀ l ∈ c.group, ∀ n ∈ l, IsName n
  filter : ∀ x ∈ c.filter, x.IsWorded
  order : ∀ l ∈ c.order, ∀ o ∈ l, o.IsWorded
  select : ∀ l ∈ c.select, ∀ n ∈ l, IsName n
  period : ∀ p ∈ c.period, IsName p.field

variable {c d : Clauses}

/-- A clause that is read keeps the record of clauses worded. -/
theorem yields_readClause (hc : c.IsWorded) (kind : ClauseKind) :
    Yields IsWorded (c.readClause kind) := by
  cases kind with
  | join =>
    refine yields_andThen fun _ => yields_datasetName.bind fun n hn => yields_andThen fun _ => ?_
    refine Condition.yields_read.bind fun x hx => yields_pure { hc with joins := ?_ }
    exact List.forall_mem_append.mpr ⟨hc.joins, List.forall_mem_singleton.mpr ⟨hn.spelled, hx⟩⟩
  | operations =>
    exact Operation.yields_read.listOf.bind fun l hl =>
      yields_pure { hc with operations := by rintro _ ⟨⟩; exact hl }
  | group =>
    exact yields_andThen fun _ => yields_fieldList.bind fun l hl =>
      yields_pure { hc with group := by rintro _ ⟨⟩; exact hl }
  | filter =>
    exact Condition.yields_read.bind fun x hx =>
      yields_pure { hc with filter := by rintro _ ⟨⟩; exact hx }
  | order =>
    exact yields_andThen fun _ => yields_orderList.bind fun l hl =>
      yields_pure { hc with order := by rintro _ ⟨⟩; exact hl }
  | select =>
    exact yields_fieldList.bind fun l hl =>
      yields_pure { hc with select := by rintro _ ⟨⟩; exact hl }
  | period =>
    exact Period.yields_read.bind fun p hp =>
      yields_pure { hc with period := by rintro _ ⟨⟩; exact hp }
  | limit => exact yields_andThen fun _ => yields_pure { hc with }

/-- So do all clauses of a transform statement. -/
theorem yields_readAll (hc : c.IsWorded) : Yields IsWorded (readAll c) := by
  intro s d r h
  exact (gives_readAll.mp h).1.invariant
    (fun c kind s d r h hc => yields_readClause hc kind s d r h) hc

/-- The statement of worded clauses is worded. -/
theorem IsWorded.statement (hc : c.IsWorded) {source : String} (hs : IsSpelled source)
    (target : String) : (c.statement source target).IsWorded where
  source := hs
  operations := forall_operations hc.joins hc.operations
    (fun fields hf n hn => (hc.select fields hf n hn).spelled) source target
  filter := hc.filter
  group := by
    show ∀ n ∈ c.group.getD [], IsName n
    cases hg : c.group with
    | none => simp
    | some l => exact hc.group l hg
  order := by
    show ∀ o ∈ c.order.getD [], IsSpelled o.field
    cases ho : c.order with
    | none => simp
    | some l => exact fun o hl => (hc.order l ho o hl).spelled
  period := hc.period

end Clauses

/-- Transform statements are worded when they are read. -/
theorem yields_read : Yields Statement.IsWorded read := by
  unfold read
  refine yields_andThen fun _ => yields_datasetName.bind fun source hs => ?_
  refine yields_andThen fun _ => yields_andThen fun target => ?_
  have hempty : ({} : Clauses).IsWorded := by constructor <;> simp
  exact (Clauses.yields_readAll hempty).bind fun c hc => yields_pure (hc.statement hs.spelled target)

end Transform

/-! ### Pipelines -/

namespace Pipeline

theorem yields_operation {accept : Item → Bool} {what : Expected} :
    Yields Operation.IsWorded (operation accept what) := by
  unfold operation
  refine yields_andThen fun _ => Yields.bind (P := Item.IsWorded) ?_ fun item hi => ?_
  · refine Item.yields_read.refine fun i j hi h => ?_
    split at h
    · cases h
      exact hi
    · cases h
  · exact yields_requiredAlias.bind fun n hn => yields_pure (Operation.isWorded_named hi hn.spelled)

/-- What stands in the parentheses of a stage has names. -/
def StageBody.IsWorded : StageBody → Prop
  | .filter c => c.IsWorded
  | .group fields | .select fields => ∀ n ∈ fields, IsName n
  | .compute ops => ∀ op ∈ ops, op.IsWorded
  | .sort order => ∀ o ∈ order, o.IsWorded
  | .join source c => IsName source ∧ c.IsWorded
  | .during p => IsName p.field
  | .limit _ => True

theorem yields_operations {accept : Item → Bool} {what : Expected} :
    Yields (∀ op ∈ ·, op.IsWorded) (operations accept what) := by
  intro s ops r h
  obtain ⟨op, q, ops', p, hop, hp, -, rfl⟩ := gives_operations.mp h
  exact List.forall_mem_cons.mpr ⟨yields_operation _ _ _ hop, hp.forall yields_operation⟩

/-- The body of a stage is worded. -/
theorem yields_readBody (kind : StageKind) : Yields StageBody.IsWorded (readBody kind) := by
  cases kind with
  | filter => exact Condition.yields_read.bind fun c hc => yields_pure hc
  | group => exact yields_fieldList.bind fun l hl => yields_pure hl
  | select => exact yields_fieldList.bind fun l hl => yields_pure hl
  | sort => exact yields_orderList.bind fun l hl => yields_pure hl
  | join =>
    refine yields_datasetName.bind fun n hn => yields_andThen fun _ => ?_
    exact Condition.yields_read.bind fun c hc => yields_pure ⟨hn, hc⟩
  | during => exact Period.yields_read.bind fun p hp => yields_pure hp
  | limit => exact yields_andThen fun _ => yields_pure trivial
  | _ => exact yields_operations.bind fun l hl => yields_pure hl

/-- A stage that is read has a worded body. -/
theorem yields_written : Yields (fun w => w.body.IsWorded) written := by
  unfold written
  refine yields_andThen fun _ => yields_andThen fun named => ?_
  exact (yields_readBody named.2).bind fun body hb => yields_andThen fun _ => yields_pure hb

theorem isWorded_of_writtenStages {ws : List Written} (h : (writtenStages s).Gives ws r) :
    ∀ w ∈ ws, w.body.IsWorded := by
  induction s using writtenStages.induct generalizing ws r with
  | case1 s t hs _ _ ih =>
    obtain ⟨w, q, ws', hw, hws, rfl⟩ := (gives_writtenStages_arrow hs).mp h
    exact List.forall_mem_cons.mpr ⟨yields_written _ _ _ hw, ih q hw.suffix hws⟩
  | case2 s hs =>
    obtain ⟨rfl, -⟩ := (gives_writtenStages_end fun t ht => hs t ht).mp h
    exact fun _ hw => absurd hw List.not_mem_nil

/-- A stage more leaves the names of a statement names. -/
theorem Draft.isWorded_take {d : Draft} {w : Written} (hd : d.statement.IsWorded)
    (hw : w.body.IsWorded) : (d.take w).statement.IsWorded := by
  obtain ⟨name, kind, body⟩ := w
  have hops (ops : List Operation) (h : ∀ op ∈ ops, op.IsWorded) :
      ∀ op ∈ d.statement.operations ++ ops, op.IsWorded :=
    List.forall_mem_append.mpr ⟨hd.operations, h⟩
  cases body with
  | filter c =>
    refine { hd with filter := ?_ }
    rintro _ ⟨⟩
    cases hf : d.statement.filter with
    | none => exact hw
    | some old =>
      refine Condition.isWorded_and (List.forall_mem_cons.mpr ⟨hd.filter old hf, ?_⟩)
      exact List.forall_mem_singleton.mpr hw
  | group fields => exact { hd with group := hw }
  | compute ops => exact { hd with operations := hops ops hw }
  | select fields =>
    refine { hd with operations := hops _ (List.forall_mem_singleton.mpr ?_) }
    exact fun n hn => (hw n hn).spelled
  | sort order => exact { hd with order := fun o ho => (hw o ho).spelled }
  | join other c =>
    exact { hd with operations := hops _ (List.forall_mem_singleton.mpr ⟨hw.1.spelled, hw.2⟩) }
  | during p => exact { hd with period := by rintro _ ⟨⟩; exact hw }
  | limit k => exact { hd with }

/-- Pipelines are worded when they are read. -/
theorem isWorded_of_read {st : Statement} (h : (read text).Gives st []) : st.IsWorded := by
  obtain ⟨source, ws, hws, -, rfl⟩ := exists_stagesOf? h
  obtain ⟨q, r, hsource, hstages⟩ := gives_of_stagesOf? hws
  have hwords := isWorded_of_writtenStages hstages
  have hstart : (Draft.start source).statement.IsWorded := by
    refine ⟨(yields_datasetName _ _ _ hsource).spelled, ?_, ?_, ?_, ?_, ?_⟩ <;> simp [Draft.start]
  clear h hws hstages
  generalize Draft.start source = d at hstart ⊢
  induction ws generalizing d with
  | nil => exact hstart
  | cons w ws ih =>
    rw [List.forall_mem_cons] at hwords
    exact ih hwords.2 (d.take w) (Draft.isWorded_take hstart hwords.1)

end Pipeline

/-! ### Questions -/

namespace Question

/-- A name without its qualifier is still spelled. -/
theorem isSpelled_shortName (h : IsSpelled n) : IsSpelled (shortName n) := by
  intro c hc
  rw [shortName, String.toList_ofList, List.mem_reverse] at hc
  exact h c (List.mem_reverse.mp ((List.takeWhile_sublist _).subset hc))

/-- The field of a word with a dotted rest has a name, and so has its source. -/
theorem isWorded_fieldOf {w v : List Char} (hne : w ≠ []) (hw : ∀ c ∈ w, isNameChar c = true)
    (hv : IsDotted v) : (fieldOf (String.ofList (w ++ v))).IsWorded := by
  have hpoint : ∀ c ∈ w, (c != '.') = true := by
    intro c hc
    rw [bne_iff_ne]
    rintro rfl
    exact absurd (hw _ hc) (by decide)
  have hdrop : (w ++ v).dropWhile (· != '.') = v.dropWhile (· != '.') :=
    List.dropWhile_append_of_pos hpoint
  have htake : (w ++ v).takeWhile (· != '.') = w ++ v.takeWhile (· != '.') :=
    List.takeWhile_append_of_pos hpoint
  rw [fieldOf, String.toList_ofList, hdrop, htake]
  rcases hv.opening with rfl | ⟨c, u, rfl⟩
  · rw [List.append_nil]
    exact .field (fun q hq => absurd hq (Option.not_mem_none q)) (isName_ofList hne hw)
  · have hrest : IsName (String.ofList (c :: u)) := by
      refine ⟨fun d hd => hv.spelled d ?_, fun he => ?_⟩
      · rw [String.toList_ofList] at hd ⊢
        exact List.mem_cons_of_mem _ hd
      · exact List.cons_ne_nil c u (String.ofList_injective (he.trans String.ofList_nil.symm))
    refine .field ?_ hrest
    rintro _ ⟨⟩
    rw [List.takeWhile_cons_of_neg (by decide), List.append_nil]
    exact isName_ofList hne hw

/-- The name of an item that stands alone is one of a field. -/
def Asked.IsWorded : Asked → Prop
  | .operation op => op.IsWorded
  | .bare n => (fieldOf n).IsWorded ∧ IsSpelled n

/-- The operations that are asked for are worded. -/
theorem Asked.IsWorded.operations {a : Asked} (h : a.IsWorded) (keys : Option (List String)) :
    ∀ op ∈ a.operations keys, op.IsWorded := by
  intro op hop
  cases a with
  | operation x =>
    obtain rfl := List.mem_singleton.mp hop
    exact h
  | bare n =>
    cases keys with
    | none => cases hop
    | some keys =>
      rw [Asked.operations] at hop
      split at hop
      · cases hop
      · obtain rfl := List.mem_singleton.mp hop
        exact ⟨h.1, isSpelled_shortName h.2⟩

theorem Asked.IsWorded.selected {a : Asked} (h : a.IsWorded) : ∀ n ∈ a.selected, IsSpelled n := by
  intro n hn
  cases a with
  | operation op => exact Operation.IsWorded.alias h n (Option.mem_toList.mp hn)
  | bare m =>
    obtain rfl := List.mem_singleton.mp hn
    exact h.2

/-- The names of aggregates are spelled. -/
theorem isSpelled_aggregateName (f : AggregateFn) : IsSpelled f.name := by
  cases f <;>
  · rw [AggregateFn.name]
    decide

/-- The names of windows are spelled. -/
theorem isSpelled_windowName (f : WindowFn) : IsSpelled f.name := by
  cases f <;>
  · rw [WindowFn.name]
    decide

/-- A word that calls an aggregate is spelled like a name in lower case. -/
theorem isSpelled_lower {w : List Char} {f : AggregateFn}
    (h : AggregateFn.ofName? (String.ofList w) = some f) :
    IsSpelled (String.ofList (lower w)) := by
  obtain ⟨x, hx, -⟩ := Option.map_eq_some_iff.mp h
  have hsame := List.find?_some hx
  rw [sameWord, String.toList_ofList, beq_iff_eq] at hsame
  have hwords : (AggregateFn.words.all fun x => (lower x.1.toList).all isNameChar) = true := by
    decide
  have hchars := List.all_eq_true.mp hwords x (List.mem_of_find?_eq_some hx)
  rw [hsame] at hchars
  intro c hc
  rw [String.toList_ofList] at hc
  exact Or.inl (List.all_eq_true.mp hchars c hc)

/-- An alias that is made up is spelled. -/
theorem isSpelled_defaultAlias {function : String} (hf : IsSpelled function) {e : Expr}
    (he : e.IsWorded) : IsSpelled (defaultAlias function e) := by
  rw [defaultAlias]
  split
  · exact hf.append (by decide)
  · split
    · exact hf
    · refine (hf.append isSpelled_underscore).append ?_
      refine isSpelled_intercalate isSpelled_underscore fun n hn => ?_
      obtain ⟨r, hr, rfl⟩ := List.mem_map.mp hn
      exact (he.fields r hr).spelled

theorem yields_optionalAlias : Yields (fun a => ∀ n ∈ a, IsSpelled n) optionalAlias := by
  unfold optionalAlias
  refine yields_andThen fun _ => yields_ite ?_ (yields_pure fun _ hn => nomatch hn)
  refine yields_identifier.bind fun n hn => yields_pure ?_
  rintro _ ⟨⟩
  exact hn.spelled

/-- A name without points is a word. -/
theorem isWorded_bare {v : List Char} (hn : IsName n) (hp : IsPlain n) (hv : IsDotted v) :
    (Asked.bare (n ++ String.ofList v)).IsWorded := by
  have hne : n.toList ≠ [] := fun h => hn.ne_empty (String.toList_injective h)
  have hw : ∀ c ∈ n.toList, isNameChar c = true := by
    intro c hc
    refine (hn.spelled c hc).resolve_right ?_
    rintro rfl
    exact hp hc
  have hofList : n ++ String.ofList v = String.ofList (n.toList ++ v) := by
    rw [String.ofList_append, String.ofList_toList]
  refine ⟨?_, hn.spelled.append hv.spelled⟩
  rw [hofList]
  exact isWorded_fieldOf hne hw hv

/-- An item that is asked for is worded. -/
theorem isWorded_ofItem {item : Item} {a : Option String} {x : Asked}
    (h : Asked.ofItem (item, a) = .ok x) (hi : item.IsWorded) (hw : ∀ e ∈ item.exprs, e.IsWritten)
    (ha : ∀ n ∈ a, IsSpelled n) : x.IsWorded := by
  unfold Asked.ofItem at h
  split at h
  · next item' n heq =>
    cases heq
    cases h
    exact Operation.isWorded_named hi (ha n rfl)
  · next m heq =>
    cases heq
    cases h
    cases hi with
    | field _ hn =>
      have hwritten := hw _ (List.mem_singleton_self _)
      have hplain := (hwritten.fields (none, m) (List.mem_singleton_self _)).1
      have hbare := isWorded_bare hn hplain isDotted_nil
      rwa [show m ++ String.ofList [] = m from String.append_empty] at hbare
  · next q m heq =>
    cases heq
    cases h
    cases hi with
    | field hq hn =>
      have hwritten := hw _ (List.mem_singleton_self _)
      have hplain := (hwritten.fields (some q, m) (List.mem_singleton_self _)).2
      have hdotted : IsDotted ('.' :: m.toList) := by
        refine ⟨fun c hc => ?_, Or.inr ?_⟩
        · rw [String.toList_ofList, List.mem_cons] at hc
          rcases hc with rfl | hc
          · exact Or.inr rfl
          · exact hn.spelled c hc
        · have hne : m.toList ≠ [] := fun h => hn.ne_empty (String.toList_injective h)
          obtain ⟨c, u, hu⟩ := List.exists_cons_of_ne_nil hne
          exact ⟨c, u, by rw [hu]⟩
      have hjoin : q ++ "." ++ m = q ++ String.ofList ('.' :: m.toList) := by
        apply String.toList_injective
        simp
      rw [hjoin]
      exact isWorded_bare (hq q rfl) (hplain q rfl) hdotted
  · cases h
  · next f e heq =>
    cases heq
    cases h
    exact ⟨hi, isSpelled_defaultAlias (isSpelled_aggregateName f) hi⟩
  · next f e p o heq =>
    cases heq
    cases h
    refine ⟨hi, ?_⟩
    cases e with
    | none => exact isSpelled_windowName f
    | some e => exact isSpelled_defaultAlias (isSpelled_windowName f) (hi.1 e rfl)

/-- A spoken field is worded. -/
theorem yields_fieldOf : Yields (fun n => (fieldOf n).IsWorded ∧ IsName n) fieldName := by
  intro s n r h
  refine ⟨?_, yields_fieldName s n r h⟩
  obtain ⟨w, v, rfl, hne, hw, hv⟩ := exists_of_fieldName h
  exact isWorded_fieldOf hne hw hv

theorem yields_spokenRest {w : List Char} {f : AggregateFn}
    (hw : AggregateFn.ofName? (String.ofList w) = some f) :
    Yields Asked.IsWorded (spokenRest w f) := by
  unfold spokenRest
  refine yields_fieldOf.bind fun field hf => yields_optionalAlias.bind fun a ha => yields_pure ?_
  refine ⟨hf.1, ?_⟩
  cases a with
  | none =>
    exact ((isSpelled_lower hw).append isSpelled_underscore).append
      (isSpelled_shortName hf.2.spelled)
  | some a => exact ha a rfl

/-- Whatever a question asks for is worded. -/
theorem yields_asked : Yields Asked.IsWorded asked := by
  intro s x r h
  rcases asked_cases h with ⟨w, f, q, hf, -, h⟩ | ⟨-, item, a, q, hi, ha, hx⟩
  · exact yields_spokenRest hf _ _ _ h
  · exact isWorded_ofItem hx (Item.yields_read _ _ _ hi) (Item.isWritten_of_read hi)
      (yields_optionalAlias _ _ _ ha)

theorem yields_keysRest : Yields (∀ n ∈ ·, IsName n) keysRest := by
  intro s l r h
  obtain ⟨q, hl, -⟩ := gives_keysRest.mp h
  exact hl.forall yields_fieldName

namespace Clauses

/-- The clauses have names. -/
structure IsWorded (c : Clauses) : Prop where
  joins : ∀ op ∈ c.joins, op.IsWorded
  source : ∀ n ∈ c.source, IsName n
  group : ∀ l ∈ c.group, ∀ n ∈ l, IsName n
  filter : ∀ x ∈ c.filter, x.IsWorded
  order : ∀ l ∈ c.order, ∀ o ∈ l, o.IsWorded
  period : ∀ p ∈ c.period, IsName p.field

variable {c : Clauses}

/-- A clause that is read keeps the record of a question worded. -/
theorem yields_readClause (hc : c.IsWorded) (kind : ClauseKind) :
    Yields IsWorded (c.readClause kind) := by
  cases kind with
  | source =>
    exact yields_datasetName.bind fun n hn =>
      yields_pure { hc with source := by rintro _ ⟨⟩; exact hn }
  | group =>
    refine yields_fieldName.bind fun n hn => yields_keysRest.bind fun l hl => ?_
    refine yields_pure { hc with group := ?_ }
    rintro _ ⟨⟩
    exact List.forall_mem_cons.mpr ⟨hn, hl⟩
  | filter =>
    exact Condition.yields_read.bind fun x hx =>
      yields_pure { hc with filter := by rintro _ ⟨⟩; exact hx }
  | order =>
    exact yields_andThen fun _ => yields_orderList.bind fun l hl =>
      yields_pure { hc with order := by rintro _ ⟨⟩; exact hl }
  | period =>
    exact Period.yields_read.bind fun p hp =>
      yields_pure { hc with period := by rintro _ ⟨⟩; exact hp }
  | join =>
    refine yields_andThen fun _ => yields_datasetName.bind fun n hn => yields_andThen fun _ => ?_
    refine Condition.yields_read.bind fun x hx => yields_pure { hc with joins := ?_ }
    exact List.forall_mem_append.mpr ⟨hc.joins, List.forall_mem_singleton.mpr ⟨hn.spelled, hx⟩⟩

theorem yields_readAll (hc : c.IsWorded) : Yields IsWorded (readAll c) := by
  intro s d r h
  exact (gives_readAll.mp h).1.invariant
    (fun c kind s d r h hc => yields_readClause hc kind s d r h) hc

end Clauses

/-- The order of a question is spelled like names: it may be by an alias. -/
theorem isSpelled_orderOf {order : Option (List OrderItem)} (ho : ∀ l ∈ order, ∀ o ∈ l, o.IsWorded)
    {ops : List Operation} (hops : ∀ op ∈ ops, op.IsWorded) (limit : Option Nat) :
    ∀ o ∈ orderOf order limit ops, IsSpelled o.field := by
  intro o hmem
  unfold orderOf at hmem
  split at hmem
  · exact (ho _ rfl o hmem).spelled
  · cases hmem
  · obtain ⟨a, ha, rfl⟩ := Option.map_eq_some_iff.mp (Option.mem_toList.mp hmem)
    obtain ⟨op, hop, hal⟩ := List.exists_of_findSome?_eq_some ha
    cases op with
    | aggregate f e n =>
      cases hal
      exact (hops _ hop).2
    | _ => cases hal

/-- The statement of a question is worded if its parts are. -/
theorem isWorded_statement {c : Clauses} (hc : c.IsWorded) {items : List Asked}
    (hi : ∀ a ∈ items, a.IsWorded) {source : String} (hs : IsSpelled source)
    (limit : Option Nat) : (statement source limit items c).IsWorded := by
  have hselected : (Operation.select (items.flatMap Asked.selected)).IsWorded := by
    intro n hn
    obtain ⟨a, ha, hn⟩ := List.mem_flatMap.mp hn
    exact (hi a ha).selected n hn
  have hops := forall_operations hc.joins (fun a ha => (hi a ha).operations c.group) hselected
    source limit
  refine ⟨hs, hops, hc.filter, ?_, isSpelled_orderOf hc.order hops limit, hc.period⟩
  show ∀ n ∈ c.group.getD [], IsName n
  cases hg : c.group with
  | none => simp
  | some l => exact hc.group l hg

/-- Questions are worded when they are read. -/
theorem isWorded_of_read {st : Statement} (h : (read s).Gives st r) : st.IsWorded := by
  obtain ⟨_, limit, _, -, -, first, items, clauses, source, _, _, hf, hi, hc, hs, rfl⟩ :=
    gives_read.mp h
  obtain ⟨_, hi, -⟩ := gives_askedRest.mp hi
  have hempty : ({} : Clauses).IsWorded := by constructor <;> simp
  have hclauses := Clauses.yields_readAll hempty _ _ _ hc
  refine isWorded_statement hclauses ?_ (hclauses.source source hs).spelled limit
  exact List.forall_mem_cons.mpr ⟨yields_asked _ _ _ hf, hi.forall yields_asked⟩

end Question

/-! ### All statements -/

/-- **The names in a statement that a text makes are words with points between them.** -/
theorem isWorded_of_parse {st : Statement} (h : Statement.parse text = .ok st) : st.IsWorded := by
  obtain ⟨p, tokens, -, h⟩ := parse_eq_ok.mp h
  cases p with
  | transformTo => exact Transform.yields_read _ _ _ h
  | arrowPipeline => exact Pipeline.isWorded_of_read h
  | naturalQuery => exact Question.isWorded_of_read h

end DataPhrase
