/-
# How names are spelled

The names that the readers of expressions, conditions and items give are words, with points between
them: no name brings a quote, a blank or a sign with it. What holds of everything that a reader gives
is put together from its parts (`Yields`).
-/
import DataPhrase.Proofs.Reading.Behind
import DataPhrase.Proofs.Statement.Item
import DataPhrase.Statement.Phrase

namespace DataPhrase

open Text Lexeme

variable {s r text : List Char} {n m : String}

/-! ## Names -/

/-- The text is spelled in characters of names and points. -/
def IsSpelled (n : String) : Prop :=
  ∀ c ∈ n.toList, isNameChar c = true ∨ c = '.'

instance (n : String) : Decidable (IsSpelled n) :=
  decidable_of_iff (n.toList.all (fun c => isNameChar c || c == '.') = true) (by
    simp [IsSpelled, List.all_eq_true])

/-- The name is spelled in characters of names and points, and is not empty. -/
structure IsName (n : String) : Prop where
  spelled : IsSpelled n
  ne_empty : n ≠ ""

/-- Characters of names make a name again when put together. -/
theorem IsSpelled.append (hn : IsSpelled n) (hm : IsSpelled m) : IsSpelled (n ++ m) := by
  rw [IsSpelled, String.toList_append]
  exact List.forall_mem_append.mpr ⟨hn, hm⟩

/-- What holds of the parts and of the separator holds of the whole. -/
theorem forall_mem_intercalate {P : Char → Prop} {sep : String} (hs : ∀ c ∈ sep.toList, P c)
    {l : List String} (hl : ∀ n ∈ l, ∀ c ∈ n.toList, P c) : ∀ c ∈ (sep.intercalate l).toList, P c := by
  induction l with
  | nil =>
    rw [String.intercalate_nil]
    exact fun c hc => absurd hc List.not_mem_nil
  | cons n l ih =>
    rw [List.forall_mem_cons] at hl
    by_cases hne : l = []
    · rw [hne, String.intercalate_singleton]
      exact hl.1
    · rw [String.intercalate_cons_of_ne_nil hne, String.toList_append, String.toList_append]
      exact List.forall_mem_append.mpr ⟨List.forall_mem_append.mpr ⟨hl.1, hs⟩, ih hl.2⟩

/-- The parts of a joined text stand in it. -/
theorem mem_toList_intercalate {sep : String} {l : List String} (h : n ∈ l) {c : Char}
    (hc : c ∈ n.toList) : c ∈ (sep.intercalate l).toList := by
  induction l with
  | nil => cases h
  | cons m l ih =>
    by_cases hne : l = []
    · rw [hne, List.mem_singleton] at h
      rwa [hne, String.intercalate_singleton, ← h]
    · rw [String.intercalate_cons_of_ne_nil hne, String.toList_append, List.mem_append]
      rcases List.mem_cons.mp h with rfl | h
      · rw [String.toList_append]
        exact Or.inl (List.mem_append_left _ hc)
      · exact Or.inr (ih h)

/-- Joined names are spelled if the separator is. -/
theorem isSpelled_intercalate {sep : String} (hs : IsSpelled sep) {l : List String}
    (hl : ∀ n ∈ l, IsSpelled n) : IsSpelled (sep.intercalate l) :=
  forall_mem_intercalate hs hl

theorem isSpelled_underscore : IsSpelled "_" := by
  decide

/-- Only the beginning of a name tells it from other spelled texts. -/
theorem IsName.append (hn : IsName n) (hm : IsSpelled m) : IsName (n ++ m) :=
  ⟨hn.spelled.append hm, fun h => hn.ne_empty (String.append_eq_empty_iff.mp h).1⟩

/-- A word is a name. -/
theorem isName_ofList {w : List Char} (hne : w ≠ []) (h : ∀ c ∈ w, isNameChar c = true) :
    IsName (String.ofList w) := by
  refine ⟨fun c hc => ?_, fun he => hne ?_⟩
  · rw [String.toList_ofList] at hc
    exact Or.inl (h c hc)
  · rw [← String.toList_ofList (l := w), he]
    rfl

/-- The word in front of a text is a name. -/
theorem isName_of_wordAhead? {w : List Char} (h : wordAhead? s = some (w, r)) :
    IsName (String.ofList w) :=
  isName_ofList (ne_nil_of_wordAhead? h) fun _ hc => isNameChar_of_wordAhead? h hc

theorem isName_of_takeWhile {c : Char} {t : List Char} (h : isNameStart c = true) :
    IsName (String.ofList (c :: t.takeWhile isNameChar)) :=
  isName_ofList (List.cons_ne_nil _ _)
    (List.forall_mem_cons.mpr ⟨isNameChar_of_isNameStart h, List.all_eq_true.mp List.all_takeWhile⟩)

/-! ### Names with points -/

/-- The text behind the first word of a name: nothing, or a point with more behind it. -/
structure IsDotted (v : List Char) : Prop where
  spelled : IsSpelled (String.ofList v)
  opening : v = [] ∨ ∃ c u, v = '.' :: c :: u

theorem isDotted_nil : IsDotted [] :=
  ⟨fun _ hc => absurd hc List.not_mem_nil, Or.inl rfl⟩

/-- The dotted rest of a name is made of names. -/
theorem isDotted_dotted (s : List Char) : IsDotted (dotted s).value := by
  induction s using dotted.induct with
  | case1 c r hc _ _ ih =>
    rw [(dotted_cons hc).1]
    refine ⟨fun d hd => ?_, Or.inr ⟨c, _, rfl⟩⟩
    rw [String.toList_ofList, List.cons_append, List.cons_append, List.mem_cons,
      ← List.cons_append, List.mem_append] at hd
    rcases hd with rfl | hd | hd
    · exact Or.inr rfl
    · exact (isName_of_takeWhile (t := r) hc).spelled d (by rwa [String.toList_ofList])
    · exact ih.spelled d (by rwa [String.toList_ofList])
  | case2 c r hc =>
    rw [(dotted_of_not_point ?_).1]
    · exact isDotted_nil
    · rintro d q ⟨⟩
      exact Bool.eq_false_iff.mpr hc
  | case3 s hs =>
    rw [(dotted_of_not_point fun c r h => absurd h (hs c r)).1]
    exact isDotted_nil

/-- A name is a word with a dotted rest. -/
theorem exists_of_fieldName (h : (fieldName s).Gives n r) : ∃ w v, n = String.ofList (w ++ v) ∧
    w ≠ [] ∧ (∀ c ∈ w, isNameChar c = true) ∧ IsDotted v := by
  obtain ⟨w, q, hw, -, rfl⟩ := gives_fieldName.mp h
  refine ⟨w, _, ?_, ne_nil_of_wordAhead? hw, fun c hc => isNameChar_of_wordAhead? hw hc,
    isDotted_dotted q⟩
  rw [String.ofList_append]

/-! ## Readers -/

/-- Whatever the reader gives has the property. -/
def Yields {α : Type} (P : α → Prop) (p : Phrase α) : Prop :=
  ∀ s a r, (p s).Gives a r → P a

section Yields

variable {α β : Type} {P : α → Prop} {Q : β → Prop} {p p' : Phrase α}

theorem yields_any : Yields (fun _ => True) p := fun _ _ _ _ => trivial

/-- A value that is given without reading is yielded if it is good. -/
theorem yields_pure {a : α} (h : P a) : Yields P (pure a) := by
  intro s b r hb
  obtain ⟨rfl, -⟩ := Reader.gives_pure.mp hb
  exact h

/-- What is expected yields nothing at all. -/
theorem yields_expected {e : Expected} : Yields P (expected e) :=
  fun _ _ _ h => absurd h not_gives_expected

/-- Readers one behind the other yield what the second does. -/
theorem Yields.bind {f : α → Phrase β} (hp : Yields P p) (hf : ∀ a, P a → Yields Q (f a)) :
    Yields Q (p >>= f) := by
  intro s b r h
  obtain ⟨a, q, ha, hb⟩ := Reader.gives_bind.mp h
  exact hf a (hp s a q ha) q b r hb

/-- What follows a reader whose value does not matter. -/
theorem yields_andThen {f : α → Phrase β} (hf : ∀ a, Yields Q (f a)) : Yields Q (p >>= f) :=
  yields_any.bind fun a _ => hf a

theorem yields_ite {b : Bool} (hp : Yields P p) (hp' : Yields P p') :
    Yields P (if b then p else p') := by
  cases b with
  | true => exact hp
  | false => exact hp'

/-- A value that is settled is yielded if settling it keeps the property. -/
theorem Yields.refine {f : α → Except Cause β} (hp : Yields P p)
    (hf : ∀ a b, P a → f a = .ok b → Q b) : Yields Q (Reader.refine p f) := by
  intro s b r h
  obtain ⟨a, ha, hb⟩ := Reader.gives_refine.mp h
  exact hf a b (hp s a r ha) hb

/-- A list yields what its items yield. -/
theorem Yields.listOf (hp : Yields P p) : Yields (∀ a ∈ ·, P a) (listOf p) := by
  intro s l r h
  obtain ⟨a, q, l', ha, hl, rfl⟩ := gives_listOf.mp h
  exact List.forall_mem_cons.mpr ⟨hp _ _ _ ha, hl.forall hp⟩

end Yields

/-- Identifiers are names. -/
theorem yields_identifier : Yields IsName identifier := by
  intro s n r h
  obtain ⟨w, hw, rfl⟩ := gives_identifier.mp h
  exact isName_of_wordAhead? hw

/-- Names with points are names. -/
theorem yields_fieldName : Yields IsName fieldName := by
  intro s n r h
  obtain ⟨w, v, rfl, hne, hw, hv⟩ := exists_of_fieldName h
  rw [String.ofList_append]
  exact (isName_ofList hne hw).append hv.spelled

theorem yields_datasetName : Yields IsName datasetName :=
  fun s n r h => yields_fieldName s n r (gives_datasetName.mp h)

theorem yields_fieldList : Yields (∀ n ∈ ·, IsName n) fieldList :=
  yields_fieldName.listOf

/-! ## Expressions -/

namespace Expr

/-- The fields and functions of the expression have names, and it mentions no metrics. -/
inductive IsWorded : Expr → Prop where
  | literal (v : Literal) : IsWorded (.literal v)
  | field {q : Option String} {n : String} (hq : ∀ s ∈ q, IsName s) (hn : IsName n) :
    IsWorded (.field q n)
  | call {n : String} {es : List Expr} (hn : IsName n) (h : ∀ e ∈ es, IsWorded e) :
    IsWorded (.call n es)
  | binary (op : ArithOp) {l r : Expr} (hl : IsWorded l) (hr : IsWorded r) :
    IsWorded (.binary op l r)
  | negate {e : Expr} (h : IsWorded e) : IsWorded (.negate e)
  | star : IsWorded .star

/-- The value of a part has names, provided that what stands to its left has. -/
def Part.IsWorded : Part → Prop
  | .sum e | .product e | .signed e | .operand e => e.IsWorded
  | .summands l e | .factors l e => l.IsWorded → e.IsWorded
  | .arguments es | .moreArguments es => ∀ e ∈ es, e.IsWorded

/-- **What an expression derives is worded.** -/
theorem Derives.isWorded {p : Part} {s r : List Char} (h : Derives p s r) : p.IsWorded := by
  have hnone : ∀ e ∈ ([] : List Expr), e.IsWorded := fun _ he => absurd he List.not_mem_nil
  have hnoSource : ∀ q ∈ (none : Option String), IsName q := fun _ hq => nomatch hq
  induction h with
  | sum _ _ ihl ihe => exact ihe ihl
  | sumEnd => exact id
  | sumMore _ _ _ ihx ihe => exact fun hl => ihe (.binary _ hl ihx)
  | product _ _ ihl ihe => exact ihe ihl
  | productEnd => exact id
  | productMore _ _ _ ihx ihe => exact fun hl => ihe (.binary _ hl ihx)
  | negative => exact .literal _
  | negate _ _ _ _ ih => exact .negate ih
  | unsigned _ _ ih => exact ih
  | group _ ih => exact ih
  | text => exact .literal _
  | number => exact .literal _
  | constant => exact .literal _
  | call hc _ _ _ ih => exact .call (isName_of_takeWhile hc) ih
  | qualified hc _ _ hd =>
    refine .field ?_ (isName_of_takeWhile hd)
    rintro _ ⟨⟩
    exact isName_of_takeWhile hc
  | plain hc => exact .field hnoSource (isName_of_takeWhile hc)
  | noArguments => exact hnone
  | starArgument => exact List.forall_mem_singleton.mpr .star
  | arguments _ _ _ _ ihe ihes => exact List.forall_mem_cons.mpr ⟨ihe, ihes⟩
  | argumentsEnd => exact hnone
  | argumentsMore _ _ ihe ihes => exact List.forall_mem_cons.mpr ⟨ihe, ihes⟩

/-- Expressions that are read are worded. -/
theorem yields_read : Yields IsWorded read := fun _ _ _ h => (gives_read_iff.mp h).isWorded

/-- The fields of a worded expression are names. -/
theorem IsWorded.fields {e : Expr} (h : e.IsWorded) : ∀ f ∈ e.fields, IsName f.2 := by
  induction h with
  | literal | star => exact fun _ hf => absurd hf List.not_mem_nil
  | field _ hn => exact List.forall_mem_singleton.mpr hn
  | call _ _ ih =>
    intro f hf
    rw [Expr.fields, fieldsAll_eq, List.mem_flatMap] at hf
    obtain ⟨e, he, hf⟩ := hf
    exact ih e he f hf
  | binary _ _ _ ihl ihr => exact List.forall_mem_append.mpr ⟨ihl, ihr⟩
  | negate _ ih => exact ih

end Expr

/-! ## Conditions -/

namespace Condition

/-- The fields and functions of the condition have names, and it mentions no metrics. -/
inductive IsWorded : Condition → Prop where
  | comparison {l e : Expr} (op : CompareOp) (hl : l.IsWorded) (he : e.IsWorded) :
    IsWorded (.comparison l op e)
  | logical (op : LogicalOp) {cs : List Condition} (h : ∀ c ∈ cs, IsWorded c) :
    IsWorded (.logical op cs)
  | not {c : Condition} (h : IsWorded c) : IsWorded (.not c)
  | call {n : String} {es : List Expr} (h : (Expr.call n es).IsWorded) : IsWorded (.call n es)

/-- The conjuncts of a worded condition are worded. -/
theorem IsWorded.conjuncts {c : Condition} (h : c.IsWorded) : ∀ p ∈ c.conjuncts, p.IsWorded := by
  intro p hp
  unfold Condition.conjuncts at hp
  split at hp
  · cases h with
    | logical _ h => exact h p hp
  · obtain rfl := List.mem_singleton.mp hp
    exact h

theorem isWorded_and {cs : List Condition} (h : ∀ c ∈ cs, c.IsWorded) : (and cs).IsWorded := by
  have hall : ∀ p ∈ cs.flatMap Condition.conjuncts, p.IsWorded := by
    intro p hp
    obtain ⟨c, hc, hp⟩ := List.mem_flatMap.mp hp
    exact (h c hc).conjuncts p hp
  unfold and
  split
  · next p hp => exact hall p (hp ▸ List.mem_singleton_self p)
  · exact .logical _ hall

theorem isWorded_or {cs : List Condition} (h : ∀ c ∈ cs, c.IsWorded) : (or cs).IsWorded := by
  unfold or
  split
  · exact h _ (List.mem_singleton_self _)
  · exact .logical _ h

/-- The value of a part has names. -/
def Part.IsWorded : Part → Prop
  | .disjunction c | .conjunction c | .negation c | .simple c => c.IsWorded
  | .alternatives cs | .conjuncts cs => ∀ c ∈ cs, c.IsWorded

/-- **What a condition derives is worded.** -/
theorem Derives.isWorded {p : Part} {s r : List Char} (h : Derives p s r) : p.IsWorded := by
  have hnone : ∀ c ∈ ([] : List Condition), c.IsWorded := fun _ hc => absurd hc List.not_mem_nil
  induction h with
  | disjunction _ _ ihc ihcs => exact isWorded_or (List.forall_mem_cons.mpr ⟨ihc, ihcs⟩)
  | alternativesEnd => exact hnone
  | alternativesMore _ _ _ ihc ihcs => exact List.forall_mem_cons.mpr ⟨ihc, ihcs⟩
  | conjunction _ _ ihc ihcs => exact isWorded_and (List.forall_mem_cons.mpr ⟨ihc, ihcs⟩)
  | conjunctsEnd => exact hnone
  | conjunctsMore _ _ _ ihc ihcs => exact List.forall_mem_cons.mpr ⟨ihc, ihcs⟩
  | not _ _ ih => exact .not ih
  | group _ _ ih => exact ih
  | unnegated _ _ _ ih => exact ih
  | comparison hl _ he => exact .comparison _ hl.isWorded he.isWorded
  | call he => exact .call he.isWorded

theorem yields_read : Yields IsWorded read := fun _ _ r h => (gives_read_iff.mp ⟨r, h, rfl⟩).isWorded

end Condition

/-! ## Items and operations -/

/-- The sort key has a name. -/
def OrderItem.IsWorded (o : OrderItem) : Prop :=
  IsName o.field

theorem OrderItem.yields_read : Yields OrderItem.IsWorded OrderItem.read := by
  unfold OrderItem.read
  refine yields_fieldName.bind fun n hn => ?_
  refine yields_andThen fun _ => yields_ite (yields_pure hn) ?_
  refine yields_andThen fun _ => yields_ite (yields_pure hn) ?_
  refine yields_andThen fun _ => yields_ite (yields_pure hn) ?_
  exact yields_andThen fun _ => yields_ite (yields_pure hn) (yields_pure hn)

theorem yields_orderList : Yields (∀ o ∈ ·, o.IsWorded) orderList :=
  OrderItem.yields_read.listOf

namespace Item

/-- The expressions of the item and the keys of its rows have names. -/
def IsWorded : Item → Prop
  | .aggregate _ e | .calculate e => e.IsWorded
  | .window _ e p o => (∀ x ∈ e, x.IsWorded) ∧ (∀ n ∈ p, IsName n) ∧ ∀ k ∈ o, k.IsWorded

/-- The keys of a window are names. -/
theorem yields_overClause :
    Yields (fun x => (∀ n ∈ x.1, IsName n) ∧ ∀ k ∈ x.2, k.IsWorded) overClause := by
  unfold overClause
  have horder (p : List String) (hp : ∀ n ∈ p, IsName n) :
      Yields (fun x => (∀ n ∈ x.1, IsName n) ∧ ∀ k ∈ x.2, k.IsWorded) (do
        let o ← if (← eatWord "order") then do
            keyword "by"
            orderList
          else pure []
        mark ")"
        pure (p, o)) := by
    have hclose (o : List OrderItem) (ho : ∀ k ∈ o, k.IsWorded) :
        Yields (fun x => (∀ n ∈ x.1, IsName n) ∧ ∀ k ∈ x.2, k.IsWorded) (do mark ")"; pure (p, o)) :=
      yields_andThen fun _ => yields_pure ⟨hp, ho⟩
    refine yields_andThen fun _ => yields_ite ?_ ?_
    · exact yields_andThen fun _ => yields_orderList.bind hclose
    · exact (yields_pure (P := (∀ k ∈ ·, OrderItem.IsWorded k)) (by simp)).bind hclose
  refine yields_andThen fun _ => yields_andThen fun _ => yields_ite ?_ ?_
  · exact yields_andThen fun _ => yields_fieldList.bind horder
  · exact (yields_pure (P := (∀ n ∈ ·, IsName n)) (by simp)).bind horder

/-- What an expression computes has its names, and a window has no keys yet. -/
theorem isWorded_ofExpr {x : Expr} {i : Item} (h : ofExpr x = .ok i) (hx : x.IsWorded) :
    i.IsWorded := by
  have hnone : (∀ n ∈ ([] : List String), IsName n) ∧ ∀ k ∈ ([] : List OrderItem), k.IsWorded := by
    simp
  unfold ofExpr at h
  split at h
  · next n args =>
    have hargs : ∀ e ∈ args, e.IsWorded := by
      cases hx with
      | call _ h => exact h
    split at h
    · have hexprs {e : Expr} (he : e ∈ i.exprs) : e.IsWorded := by
        rcases exprs_ofAggregate h he with rfl | he
        · exact .star
        · exact hargs e he
      cases i with
      | aggregate f e => exact hexprs (List.mem_singleton_self e)
      | calculate e => exact hexprs (List.mem_singleton_self e)
      | window f e p o =>
        unfold ofAggregate at h
        repeat' split at h
        all_goals cases h
    · split at h
      · have hexprs {e : Expr} (he : e ∈ i.exprs) : e.IsWorded := hargs e (exprs_ofWindow h he)
        cases i with
        | aggregate f e => exact hexprs (List.mem_singleton_self e)
        | calculate e => exact hexprs (List.mem_singleton_self e)
        | window f e p o =>
          have hkeys : p = [] ∧ o = [] := by
            unfold ofWindow at h
            repeat' split at h
            all_goals first | cases h; exact ⟨rfl, rfl⟩ | cases h
          obtain ⟨rfl, rfl⟩ := hkeys
          exact ⟨fun x hx => hexprs (Option.mem_toList.mpr hx), hnone⟩
      · cases h
        exact hx
  · cases h
    exact hx

/-- Items that are read are worded. -/
theorem yields_read : Yields IsWorded read := by
  unfold read
  refine yields_andThen fun _ => Yields.bind (P := IsWorded) ?_ fun item hi => ?_
  · refine Expr.yields_read.refine fun e i he h => ?_
    split at h
    · next j hj =>
      cases h
      exact isWorded_ofExpr hj he
    · cases h
  · cases item with
    | window f e p o =>
      refine yields_andThen fun _ => yields_ite ?_ (yields_pure hi)
      exact yields_overClause.bind fun x hx => yields_pure ⟨hi.1, hx⟩
    | aggregate f e => exact yields_pure hi
    | calculate e => exact yields_pure hi

end Item

theorem yields_requiredAlias : Yields IsName requiredAlias := by
  unfold requiredAlias
  exact yields_andThen fun _ => yields_andThen fun _ => yields_ite yields_identifier yields_expected

namespace Operation

/-- The names in the operation are names, and its alias and selection are spelled like names. -/
def IsWorded : Operation → Prop
  | .aggregate _ e a | .calculate e a => e.IsWorded ∧ IsSpelled a
  | .window _ e p o a =>
    ((∀ x ∈ e, x.IsWorded) ∧ (∀ n ∈ p, IsName n) ∧ ∀ k ∈ o, k.IsWorded) ∧ IsSpelled a
  | .select fields => ∀ n ∈ fields, IsSpelled n
  | .join source c => IsSpelled source ∧ c.IsWorded

/-- Naming an item by a spelled text keeps it worded. -/
theorem isWorded_named {item : Item} (hi : item.IsWorded) (hn : IsSpelled n) :
    (item.named n).IsWorded := by
  cases item <;> exact ⟨hi, hn⟩

/-- The alias of a worded operation is spelled. -/
theorem IsWorded.alias {op : Operation} (h : op.IsWorded) : ∀ a ∈ op.alias?, IsSpelled a := by
  intro a ha
  cases op with
  | select | join => cases ha
  | _ =>
    cases ha
    exact h.2

/-- Operations that are read are worded. -/
theorem yields_read : Yields IsWorded Operation.read := by
  unfold Operation.read
  refine Item.yields_read.bind fun item hi => yields_requiredAlias.bind fun n hn => ?_
  exact yields_pure (isWorded_named hi hn.spelled)

end Operation

/-- The field of a period is a name. -/
theorem Period.yields_read : Yields (fun p => IsName p.field) Period.read := by
  unfold Period.read
  have hdefault : IsName Period.defaultField := ⟨by decide, by decide⟩
  refine yields_andThen fun _ => yields_andThen fun _ => yields_andThen fun _ => yields_ite ?_ ?_
  · exact yields_fieldName.bind fun n hn => yields_pure hn
  · exact (yields_pure (P := IsName) hdefault).bind fun n hn => yields_pure hn

end DataPhrase
