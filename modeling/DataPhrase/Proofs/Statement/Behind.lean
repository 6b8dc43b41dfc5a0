/-
# Lists and items with more text behind

What the readers of names, sort keys and aggregates give does not change when the text goes on with
something quiet. The reader of a whole clause then takes the same off a text of its own and off the
same text inside a statement (`Takes`).
-/
import DataPhrase.Proofs.Grammar.Behind
import DataPhrase.Proofs.Pipeline.Stages
import DataPhrase.Proofs.Statement.Question

namespace DataPhrase

open Text Lexeme

variable {α β : Type} {p : Phrase α} {a : α} {q r s t u : List Char}

/-! ## Readers that keep what is behind -/

/-- What the reader gives does not change when `t` is put behind the text. -/
def Appends (p : Phrase α) (t : List Char) : Prop :=
  ∀ s a r, (p s).Gives a r → (p (s ++ t)).Gives a (r ++ t)

/-- A reader that takes nothing does so whatever follows. -/
theorem appends_pure (a : α) : Appends (pure a : Phrase α) t := by
  intro s b r h
  obtain ⟨rfl, rfl⟩ := Reader.gives_pure.mp h
  exact Reader.gives_pure.mpr ⟨rfl, rfl⟩

/-- What follows two readers follows the second. -/
theorem Appends.bind {f : α → Phrase β} (hp : Appends p t) (hf : ∀ a, Appends (f a) t) :
    Appends (p >>= f) t := by
  intro s b r h
  obtain ⟨a, q, ha, hb⟩ := Reader.gives_bind.mp h
  exact Reader.gives_bind.mpr ⟨a, q ++ t, hp s a q ha, hf a q b r hb⟩

/-- Both branches of a choice may bear what follows. -/
theorem appends_ite {b : Bool} {p' : Phrase α} (hp : Appends p t) (hp' : Appends p' t) :
    Appends (if b = true then p else p') t := by
  cases b with
  | true => exact hp
  | false => exact hp'

/-- A keyword that is not in front of the appended text does not appear by appending it. -/
theorem appends_eatWord {k : String} (ht : Tight t) (hk : after? k t = none) :
    Appends (eatWord k) t := by
  intro s b r h
  rcases gives_eatWord.mp h with ⟨ha, rfl⟩ | ⟨ha, rfl, rfl⟩
  · exact gives_eatWord.mpr (Or.inl ⟨after?_append ht ha, rfl⟩)
  · exact gives_eatWord.mpr (Or.inr ⟨after?_append_of_none ht hk ha, rfl, rfl⟩)

/-- A sort key is read the same with a quiet text behind it. -/
theorem appends_orderItem (ht : Quiet t) : Appends OrderItem.read t := by
  unfold OrderItem.read
  refine Appends.bind (fun s n r h => fieldName_append ht.tight h) fun n => ?_
  refine Appends.bind (appends_eatWord ht.tight (ht.words "desc" (by decide))) fun _ => ?_
  refine appends_ite (appends_pure _) ?_
  refine Appends.bind (appends_eatWord ht.tight (ht.words "descending" (by decide))) fun _ => ?_
  refine appends_ite (appends_pure _) ?_
  refine Appends.bind (appends_eatWord ht.tight (ht.words "asc" (by decide))) fun _ => ?_
  refine appends_ite (appends_pure _) ?_
  refine Appends.bind (appends_eatWord ht.tight (ht.words "ascending" (by decide))) fun _ => ?_
  exact appends_ite (appends_pure _) (appends_pure _)

/-! ## Calls -/

namespace Expr

/-- A group or a call of `n` is in front. -/
def OpensCall (n : String) (s : List Char) : Prop :=
  (∃ u, s = '(' :: u) ∨ ∃ r u, wordAhead? s = some (n.toList, r) ∧ trim r = '(' :: u

/-- If the part has a call of `n` as its value, a call is in front; if the value stands to the
left of a sum or a product that is a call, there is nothing to its right. -/
def Part.Opens (s : List Char) : Part → Prop
  | .sum e | .product e | .signed e | .operand e => ∀ n es, e = .call n es → OpensCall n s
  | .summands l e | .factors l e => ∀ n es, e = .call n es → l = e
  | _ => True

/-- Every derivation begins as its part may. -/
theorem Derives.opens {p : Part} (h : Derives p s r) : p.Opens s := by
  induction h with
  | sum _ _ ihl ihe | product _ _ ihl ihe =>
    intro n es he
    exact ihl n es ((ihe n es he).trans he)
  | sumEnd | productEnd => exact fun _ _ _ => rfl
  | sumMore _ _ _ _ ihe | productMore _ _ _ _ ihe =>
    intro n es he
    have := ihe n es he
    rw [he] at this
    cases this
  | negative | negate | text | number | constant | qualified | plain =>
    intro n es he
    cases he
  | unsigned _ _ ihe => exact ihe
  | group _ _ => exact fun n es _ => Or.inl ⟨_, rfl⟩
  | @call c t u r es hc hv hu hes _ =>
    intro n es' he
    cases he
    refine Or.inr ⟨t.dropWhile isNameChar, u, ?_, hu⟩
    have hb : isBlank c = false := by
      rw [Bool.eq_false_iff]
      intro hb
      rw [not_isNameStart_of_isBlank hb] at hc
      cases hc
    rw [wordAhead?, trim_cons_of_not_isBlank hb]
    simp only [hc, if_true, String.toList_ofList]
  | noArguments | starArgument | arguments | argumentsEnd | argumentsMore => trivial

/-- Blanks in front of an expression do not count. -/
theorem gives_read_trim {e : Expr} : (read (trim s)).Gives e r ↔ (read s).Gives e r := by
  rw [gives_read_iff, gives_read_iff, trim_trim]

/-- A text that is read as a call has a call in front. -/
theorem opensCall_of_read {n : String} {es : List Expr} (h : (read s).Gives (.call n es) r) :
    OpensCall n (trim s) :=
  (gives_read_iff.mp h).opens n es rfl

end Expr

/-! ## Aggregates -/

/-- An aggregate with its alias is in front of the text. -/
def AggregateAhead (s : List Char) (f : AggregateFn) (e : Expr) (n : String) (r : List Char) :
    Prop :=
  ∃ x q u, (Expr.read s).Gives x q ∧ Item.ofExpr x = .ok (.aggregate f e) ∧
    after? "as" q = some u ∧ (identifier u).Gives n r

variable {f : AggregateFn} {e : Expr} {n : String} {ops : List Operation}

theorem aggregateAhead_trim : AggregateAhead (trim s) f e n r ↔ AggregateAhead s f e n r := by
  unfold AggregateAhead
  simp only [Expr.gives_read_trim]

/-- An item is an aggregate exactly if its expression is the call of one. -/
theorem gives_aggregateItem : (Item.read s).Gives (.aggregate f e) q ↔
    ∃ x, (Expr.read s).Gives x q ∧ Item.ofExpr x = .ok (.aggregate f e) := by
  rw [Item.gives_read]
  constructor
  · rintro ⟨x, i, q', hx, hi, hc⟩
    cases i with
    | aggregate f' e' =>
      obtain ⟨he, rfl⟩ := hc
      cases he
      exact ⟨x, Expr.gives_read_trim.mp hx, hi⟩
    | window f' e' p o =>
      rcases hc with ⟨_, _, _, -, -, h⟩ | ⟨-, h, -⟩ <;> cases h
    | calculate e' =>
      cases hc.1
  · rintro ⟨x, hx, hi⟩
    exact ⟨x, _, q, Expr.gives_read_trim.mpr hx, hi, rfl, rfl⟩

/-- A list of operations reads an aggregate exactly if one is in front. -/
theorem gives_aggregate :
    (Operation.read s).Gives (.aggregate f e n) r ↔ AggregateAhead s f e n r := by
  rw [gives_operation]
  constructor
  · rintro ⟨item, m, q, hi, hn, h⟩
    cases item with
    | aggregate f' e' =>
      cases h
      obtain ⟨x, hx, hf⟩ := gives_aggregateItem.mp hi
      obtain ⟨u, hu, hn⟩ := gives_requiredAlias.mp hn
      exact ⟨x, q, u, hx, hf, hu, hn⟩
    | window f' e' p o => cases h
    | calculate e' => cases h
  · rintro ⟨x, q, u, hx, hf, hu, hn⟩
    exact ⟨.aggregate f e, n, q, gives_aggregateItem.mpr ⟨x, hx, hf⟩,
      gives_requiredAlias.mpr ⟨u, hu, hn⟩, rfl⟩

/-- So does a stage that aggregates. -/
theorem Pipeline.gives_aggregate {what : Expected} (h : AggregateAhead s f e n r) :
    (Pipeline.operation Item.isAggregate what s).Gives (.aggregate f e n) r := by
  obtain ⟨x, q, u, hx, hf, hu, hn⟩ := aggregateAhead_trim.mpr h
  exact Pipeline.gives_operation.mpr ⟨.aggregate f e, n, q, gives_aggregateItem.mpr ⟨x, hx, hf⟩,
    rfl, gives_requiredAlias.mpr ⟨u, hu, hn⟩, rfl⟩

/-- What an aggregate is read from has a call of an aggregate in front. -/
theorem AggregateAhead.opensCall (h : AggregateAhead s f e n r) :
    ∃ m g, Expr.OpensCall m (trim s) ∧ AggregateFn.ofName? m = some g := by
  obtain ⟨x, q, u, hx, hf, -, -⟩ := h
  unfold Item.ofExpr at hf
  split at hf
  · next m args =>
    split at hf
    · next g hg => exact ⟨m, g, Expr.opensCall_of_read hx, hg⟩
    · split at hf
      · next w _ =>
        unfold Item.ofWindow at hf
        split at hf <;> first | cases hf | (split at hf <;> cases hf)
      · cases hf
  · cases hf

/-- An aggregate stays in front when a quiet text is put behind. -/
theorem AggregateAhead.append (ht : Quiet t) (h : AggregateAhead s f e n r) :
    AggregateAhead (s ++ t) f e n (r ++ t) := by
  obtain ⟨x, q, u, hx, hf, hu, hn⟩ := h
  exact ⟨x, glue q t, u ++ t, Expr.read_append ht hx, hf, Condition.after?_glue ht.tight hu,
    identifier_append ht.tight hn⟩

/-! ## Texts of a clause -/

/-- The reader takes `a` off the whole text, up to blanks behind it. -/
def Accepts (p : Phrase α) (s : List Char) (a : α) : Prop :=
  ∃ r, (p s).Gives a r ∧ trim r = []

/-- The reader takes `a` off every text that is `s` with something quiet behind it, up to blanks in
front of the text and of what it leaves. -/
def Takes (p : Phrase α) (s : List Char) (a : α) : Prop :=
  ∀ t u, Quiet t → trim u = trim (s ++ t) → ∃ r, (p u).Gives a r ∧ trim r = trim t

/-- Behind blanks a text begins with the appended one. -/
theorem trim_append_of_blank (h : trim r = []) : trim (r ++ t) = trim t := by
  rw [trim_append, h, glue_nil]

/-- The word in front depends on the trimmed text only. -/
theorem wordAhead?_congr (h : trim u = trim s) : wordAhead? u = wordAhead? s := by
  rw [← wordAhead?_trim, h, wordAhead?_trim]

theorem after?_congr {k : String} (h : trim u = trim s) : after? k u = after? k s := by
  rw [← after?_trim, h, after?_trim]

theorem fieldName_congr (h : trim u = trim s) (hn : (fieldName s).Gives n r) :
    (fieldName u).Gives n r := by
  rw [gives_fieldName, ← wordAhead?_congr h, ← gives_fieldName] at hn
  exact hn

/-- So does a sort key. -/
theorem orderItem_congr {o : OrderItem} (h : trim u = trim s) (ho : (OrderItem.read s).Gives o r) :
    (OrderItem.read u).Gives o r := by
  obtain ⟨n, q, hn, ho⟩ := Reader.gives_bind.mp ho
  exact Reader.gives_bind.mpr ⟨n, q, fieldName_congr h hn, ho⟩

theorem AggregateAhead.congr (h : trim u = trim s) (ha : AggregateAhead s f e n r) :
    AggregateAhead u f e n r := by
  rw [← aggregateAhead_trim, h, aggregateAhead_trim]
  exact ha

/-- **A list is read inside a statement item by item**, also by a reader with other separators. -/
theorem Accepts.repeats {l : List α} {b : Phrase β} {g : α → β}
    {c : List Char → Option (List Char)} (h : Accepts (listOf p) s l)
    (hu : trim u = trim (s ++ t))
    (hsep : ∀ s v, commaAfterGap s = some v → c (s ++ t) = some (v ++ t))
    (hstop : ∀ r, trim r = [] → c (r ++ t) = none)
    (hp : ∀ a ∈ l, ∀ s r v, (p s).Gives a r → trim v = trim (s ++ t) → (b v).Gives (g a) (r ++ t)) :
    ∃ a q l' r, (b u).Gives a q ∧ Repeats c b q l' r ∧ a :: l' = l.map g ∧ trim r = trim t := by
  obtain ⟨r, h, hr⟩ := h
  obtain ⟨a, q, l', ha, hl, rfl⟩ := gives_listOf.mp h
  rw [List.forall_mem_cons] at hp
  refine ⟨g a, q ++ t, l'.map g, r ++ t, hp.1 s q u ha hu, ?_, rfl, trim_append_of_blank hr⟩
  exact hl.append hsep (hstop r hr) fun a ha s r h => hp.2 a ha s r _ h rfl

/-- A list is read from any text that begins with it, in front of a quiet one. -/
theorem takes_listOf {l : List α} (h : Accepts (listOf p) s l)
    (hp : ∀ t, Quiet t → ∀ a ∈ l, ∀ s r v, (p s).Gives a r → trim v = trim (s ++ t) →
      (p v).Gives a (r ++ t)) : Takes (listOf p) s l := by
  intro t u ht hu
  obtain ⟨a, q, l', r, ha, hl, hal, hr⟩ := h.repeats (g := id) hu
    (fun _ _ h => commaAfterGap_append h)
    (fun _ h => commaAfterGap_append_of_blank h ht.comma) (hp t ht)
  rw [List.map_id] at hal
  exact ⟨r, gives_listOf.mpr ⟨a, q, l', ha, hl, hal⟩, hr⟩

/-! ## Readers that keep their value -/

/-- The reader takes the same off the text with `t` behind, whatever blanks are in front. -/
def Exact (t : List Char) (p : Phrase α) : Prop :=
  ∀ s a r u, (p s).Gives a r → trim u = trim (s ++ t) → (p u).Gives a (r ++ t)

/-- The reader takes the same off texts in which the scan for a condition ends with `t` behind, up to
blanks in front of the text and of what it leaves. -/
def Keeps (t : List Char) (p : Phrase α) : Prop :=
  ∀ s a r u, Condition.ScanEnds s → (p s).Gives a r → trim u = trim (s ++ t) →
    ∃ q, (p u).Gives a q ∧ trim q = trim (r ++ t)

/-- A reader that is exact keeps what it takes. -/
theorem Exact.keeps (h : Exact t p) : Keeps t p :=
  fun s a r u _ hr hu => ⟨_, h s a r u hr hu, rfl⟩

theorem Exact.appends (h : Exact t p) : Appends p t :=
  fun s a r hr => h s a r _ hr rfl

theorem keeps_pure (a : α) : Keeps t (pure a : Phrase α) := by
  intro s b r u _ h hu
  obtain ⟨rfl, rfl⟩ := Reader.gives_pure.mp h
  exact ⟨u, Reader.gives_pure.mpr ⟨rfl, rfl⟩, hu⟩

/-- Readers that keep what they take can be put one behind the other. -/
theorem Keeps.bind {f : α → Phrase β} (hp : Keeps t p) (hf : ∀ a, Keeps t (f a)) :
    Keeps t (p >>= f) := by
  intro s b r u hs h hu
  obtain ⟨a, q, ha, hb⟩ := Reader.gives_bind.mp h
  obtain ⟨v, hv, hvq⟩ := hp s a q u hs ha hu
  obtain ⟨x, hx, hxr⟩ := hf a q b r v (hs.of_suffix ha.suffix) hb hvq
  exact ⟨x, Reader.gives_bind.mpr ⟨a, v, hv, hx⟩, hxr⟩

/-- A keyword is read exactly. -/
theorem exact_keyword (ht : Tight t) (k : String) : Exact t (keyword k) := by
  intro s _ r u h hu
  rw [gives_keyword] at h ⊢
  rw [after?_congr hu]
  exact after?_append ht h

/-- A name is read exactly. -/
theorem exact_fieldName (ht : Tight t) : Exact t fieldName :=
  fun _ _ _ _ h hu => fieldName_congr hu (fieldName_append ht h)

theorem exact_datasetName (ht : Tight t) : Exact t datasetName := by
  intro s n r u h hu
  rw [gives_datasetName] at h ⊢
  exact exact_fieldName ht s n r u h hu

/-- A sort key is read exactly in front of a quiet text. -/
theorem exact_orderItem (ht : Quiet t) : Exact t OrderItem.read :=
  fun _ _ _ _ h hu => orderItem_congr hu (appends_orderItem ht _ _ _ h)

/-- A list of exact items is read exactly. -/
theorem exact_listOf (ht : Quiet t) (hp : Exact t p) : Exact t (listOf p) := by
  intro s l r u h hu
  obtain ⟨a, q, l', ha, hl, rfl⟩ := gives_listOf.mp h
  refine gives_listOf.mpr ⟨a, q ++ t, l', hp s a q u ha hu, ?_, rfl⟩
  have hend : commaAfterGap r = none := by
    clear h ha hu
    induction hl with
    | stop h => exact h
    | next _ _ _ ih => exact ih
  have happend : Repeats commaAfterGap p (q ++ t) (l'.map id) (r ++ t) :=
    hl.append (fun _ _ h => commaAfterGap_append h)
      (commaAfterGap_append_of_none ht.comma hend) fun a _ s r h => hp s a r (s ++ t) h rfl
  rw [List.map_id] at happend
  exact happend

/-- A condition is kept in front of a quiet text. -/
theorem keeps_condition (ht : Quiet t) : Keeps t Condition.read := by
  intro s c r u hs h hu
  obtain ⟨q, hq, hqt⟩ := Condition.read_append ht hs h
  have hd := Condition.gives_read_iff.mp ⟨q, hq, rfl⟩
  rw [← hu] at hd
  obtain ⟨v, hv, hvq⟩ := Condition.gives_read_iff.mpr hd
  refine ⟨v, hv, hvq.trans (hqt.trans ?_)⟩
  rw [trim_append]

/-! ## Readers of clauses -/

/-- An exact reader takes the whole text. -/
theorem Exact.takes (hp : ∀ t, Quiet t → Exact t p) (h : Accepts p s a) : Takes p s a := by
  obtain ⟨r, h, hr⟩ := h
  exact fun t u ht hu => ⟨r ++ t, hp t ht s a r u h hu, trim_append_of_blank hr⟩

theorem Keeps.takes (hp : ∀ t, Quiet t → Keeps t p) (hs : Condition.ScanEnds s)
    (h : Accepts p s a) : Takes p s a := by
  obtain ⟨r, h, hr⟩ := h
  intro t u ht hu
  obtain ⟨q, hq, hqr⟩ := hp t ht s a r u hs h hu
  exact ⟨q, hq, hqr.trans (trim_append_of_blank hr)⟩

theorem takes_datasetName (h : Accepts datasetName s n) : Takes datasetName s n :=
  Exact.takes (fun _ ht => exact_datasetName ht.tight) h

/-- A list of names is taken as a whole. -/
theorem takes_fieldList {keys : List String} (h : Accepts fieldList s keys) :
    Takes fieldList s keys :=
  Exact.takes (fun _ ht => exact_listOf ht (exact_fieldName ht.tight)) h

/-- A list of sort keys is taken as a whole. -/
theorem takes_orderList {order : List OrderItem} (h : Accepts orderList s order) :
    Takes orderList s order :=
  Exact.takes (fun _ ht => exact_listOf ht (exact_orderItem ht)) h

/-- A condition without backslashes is taken as a whole. -/
theorem takes_condition {c : Condition} (h : Accepts Condition.read s c) (hb : '\\' ∉ s) :
    Takes Condition.read s c :=
  Keeps.takes (fun _ ht => keeps_condition ht) (Condition.scanEnds_of_plain hb) h

/-- The operation is an aggregate. -/
def Operation.IsAggregate (op : Operation) : Prop :=
  ∃ f e n, op = .aggregate f e n

instance : DecidablePred Operation.IsAggregate
  | .aggregate f e n => isTrue ⟨f, e, n, rfl⟩
  | .window _ _ _ _ _ => isFalse nofun
  | .calculate _ _ => isFalse nofun
  | .select _ => isFalse nofun
  | .join _ _ => isFalse nofun

/-- A list of aggregates is taken as a whole. -/
theorem takes_operationList (h : Accepts operationList s ops) (ha : ∀ op ∈ ops, op.IsAggregate) :
    Takes operationList s ops := by
  refine takes_listOf h ?_
  intro t ht op hop s r v hr hv
  obtain ⟨f, e, n, rfl⟩ := ha op hop
  exact gives_aggregate.mpr (((gives_aggregate.mp hr).append ht).congr hv)

theorem takes_operations (what : Expected) (h : Accepts operationList s ops)
    (ha : ∀ op ∈ ops, op.IsAggregate) : Takes (Pipeline.operations Item.isAggregate what) s ops := by
  intro t u ht hu
  obtain ⟨op, q, ops', r, hop, hl, hal, hr⟩ := h.repeats (g := id)
    (b := Pipeline.operation Item.isAggregate what) hu (fun _ _ h => commaAfterBlanks_append h)
    (fun _ h => commaAfterBlanks_append_of_blank h ht.comma) (by
      intro op hop s r v hr hv
      obtain ⟨f, e, n, rfl⟩ := ha op hop
      exact Pipeline.gives_aggregate (((gives_aggregate.mp hr).append ht).congr hv))
  rw [List.map_id] at hal
  exact ⟨trim r, Pipeline.gives_operations.mpr ⟨op, q, ops', r, hop, hl, rfl, hal⟩,
    by rw [trim_trim, hr]⟩

/-! ## Lists of questions -/

namespace Question

/-- An aggregate is not one of the words that open something else in a question. -/
theorem sameWord_of_ofName? {m : String} {g : AggregateFn} (h : AggregateFn.ofName? m = some g) :
    sameWord m.toList "top".toList = false := by
  rw [Bool.eq_false_iff]
  intro hm
  rw [sameWord, beq_iff_eq] at hm
  have hnone : AggregateFn.words.find? (fun w => lower w.1.toList == lower "top".toList) = none := by
    decide
  simp only [AggregateFn.ofName?, sameWord, hm, hnone] at h
  cases h

/-- No aggregate is called `top`. -/
theorem after?_top (h : AggregateAhead s f e n r) : after? "top" s = none := by
  obtain ⟨m, g, ho, hg⟩ := h.opensCall
  rw [← after?_trim]
  rcases ho with ⟨u, hu⟩ | ⟨q, u, hw, hu⟩
  · rw [hu]
    rfl
  · rw [after?, hw]
    exact if_neg (by rw [sameWord_of_ofName? hg]; exact Bool.false_ne_true)

/-- A call is not an aggregate with a field. -/
theorem spokenAhead?_of_opensCall {n : String} (h : Expr.OpensCall n (trim s)) :
    spokenAhead? s = none := by
  unfold spokenAhead?
  rw [← wordAhead?_trim]
  rcases h with ⟨u, hu⟩ | ⟨q, u, hw, hu⟩
  · rw [hu]
    rfl
  · have hp : peekWord q = [] := by
      rw [peekWord_eq, ← wordAhead?_trim, hu]
      rfl
    rw [hw]
    dsimp only
    rw [hp]
    split
    · rfl
    · exact if_pos rfl

/-- An aggregate in front is what a question asks for. -/
theorem gives_asked (h : AggregateAhead s f e n r) :
    (asked s).Gives (.operation (.aggregate f e n)) r := by
  obtain ⟨m, g, ho, -⟩ := h.opensCall
  obtain ⟨x, q, u, hx, hf, hu, hn⟩ := h
  exact (gives_asked_item (spokenAhead?_of_opensCall ho)).mpr ⟨.aggregate f e, some n, q,
    gives_aggregateItem.mpr ⟨x, hx, hf⟩, gives_optionalAlias.mpr (Or.inl ⟨u, n, hu, hn, rfl⟩), rfl⟩

section Separator

variable {accept : List Char → List Char → Bool}

theorem separator_append {v : List Char} (h : commaAfterGap s = some v) :
    separator accept (s ++ t) = some (v ++ t) :=
  separator_of_comma (commaAfterBlanks_eq_some.mp (commaAfterBlanks_append h))

/-- In front of something quiet, a list ends if only `and` can stand for a comma. -/
theorem separator_append_of_blank (ht : Quiet t) (hr : trim r = [])
    (h : ∀ w q, accept w q = true → sameWord w "and".toList = true) :
    separator accept (r ++ t) = none := by
  have hrt : trim (r ++ t) = trim t := trim_append_of_blank hr
  rw [separator_of_not_comma (by rw [hrt]; exact ht.comma), wordAhead?_congr hrt]
  cases hw : wordAhead? t with
  | none => rfl
  | some x =>
    obtain ⟨w, q⟩ := x
    have hand := after?_eq_none.mp (ht.words "and" (by decide)) w q hw
    refine if_neg fun ha => ?_
    rw [h w q ha] at hand
    cases hand

end Separator

/-- The items of a question. -/
def itemList : Phrase (List Asked) := do
  let first ← asked
  let rest ← askedRest
  pure (first :: rest)

/-- The group keys of a question. -/
def keyList : Phrase (List String) := do
  let first ← fieldName
  let rest ← keysRest
  pure (first :: rest)

/-- A list of aggregates is taken as the items of a question. -/
theorem takes_itemList (h : Accepts operationList s ops) (ha : ∀ op ∈ ops, op.IsAggregate) :
    Takes itemList s (ops.map .operation) := by
  intro t u ht hu
  obtain ⟨a, q, l, r, hfirst, hl, hal, hr⟩ := h.repeats (g := Asked.operation) (b := asked) hu
    (fun _ _ h => separator_append h)
    (fun _ h => separator_append_of_blank ht h fun _ _ => id) (by
      intro op hop s r v hr hv
      obtain ⟨f, e, n, rfl⟩ := ha op hop
      exact gives_asked (((gives_aggregate.mp hr).append ht).congr hv))
  refine ⟨trim r, ?_, by rw [trim_trim, hr]⟩
  exact Reader.gives_bind.mpr ⟨a, q, hfirst, Reader.gives_bind.mpr ⟨l, trim r,
    gives_askedRest.mpr ⟨r, hl, rfl⟩, Reader.gives_pure.mpr ⟨hal, rfl⟩⟩⟩

/-- A list of names is taken as the keys of a question. -/
theorem takes_keyList {keys : List String} (h : Accepts fieldList s keys) :
    Takes keyList s keys := by
  intro t u ht hu
  obtain ⟨k, q, l, r, hfirst, hl, hkl, hr⟩ := h.repeats (g := id) (c := keySeparator) hu
    (fun _ _ h => separator_append h)
    (fun _ h => separator_append_of_blank ht h fun w q hacc => by
      rw [Bool.and_eq_true, Bool.and_eq_true] at hacc
      exact hacc.1.1)
    fun _ _ _ _ _ h hv => fieldName_congr hv (fieldName_append ht.tight h)
  rw [List.map_id] at hkl
  refine ⟨trim r, ?_, by rw [trim_trim, hr]⟩
  exact Reader.gives_bind.mpr ⟨k, q, hfirst, Reader.gives_bind.mpr ⟨l, trim r,
    gives_keysRest.mpr ⟨r, hl, rfl⟩, Reader.gives_pure.mpr ⟨hkl, rfl⟩⟩⟩

/-- Aggregates are not taken for a number of rows. -/
theorem after?_top_of_accepts (h : Accepts operationList s ops)
    (ha : ∀ op ∈ ops, op.IsAggregate) (ht : Quiet t) (hu : trim u = trim (s ++ t)) :
    after? "top" u = none := by
  obtain ⟨r, h, -⟩ := h
  obtain ⟨op, q, l, hop, -, rfl⟩ := gives_listOf.mp h
  obtain ⟨f, e, n, rfl⟩ := ha op List.mem_cons_self
  exact after?_top (((gives_aggregate.mp hop).append ht).congr hu)

end Question

end DataPhrase
