/-
# Texts with clauses behind

The readers of windows, periods, numbers of rows and joins keep their value when the text goes on
with something quiet. Together with the readers of lists and conditions they give the value of a
clause wherever the clause stands.
-/
import DataPhrase.Proofs.Statement.Behind
import DataPhrase.Proofs.Statement.ClauseParts
import DataPhrase.Proofs.Statement.Pieces
import Mathlib.Data.List.TakeWhile

namespace DataPhrase

open Text Lexeme

variable {α β : Type} {p : Phrase α} {a : α} {k : String} {q r s t u v w : List Char}

/-! ## Texts that are not blank -/

theorem trim_ne_nil_of_suffix (h : r <:+ s) (hr : trim r ≠ []) : trim s ≠ [] := by
  intro hs
  rw [trim, List.dropWhile_eq_nil_iff] at hs
  exact hr (List.dropWhile_eq_nil_iff.mpr fun c hc => hs c (h.subset hc))

theorem trim_append_of_ne_nil (h : trim s ≠ []) : trim (s ++ t) = trim s ++ t := by
  obtain ⟨c, u, hs⟩ := List.exists_cons_of_ne_nil h
  rw [trim_append, hs, glue_cons, List.cons_append]

/-! ## Numbers and periods -/

/-- A whole number is read exactly. -/
theorem exact_integer (ht : Tight t) : Exact t integer := by
  intro s n r u h hu
  obtain ⟨_, _, hs, h⟩ := Reader.gives_bind.mp h
  rw [gives_skipBlanks] at hs
  subst hs
  obtain ⟨ds, hds, hn⟩ := Reader.gives_refine.mp h
  obtain ⟨rfl, rfl⟩ := Reader.gives_takeWhile.mp hds
  -- a number has a digit
  have hne : trim s ≠ [] := by
    intro hnil
    rw [hnil] at hn
    cases hn
  obtain ⟨h1, h2⟩ := takeWhile_append_tight (s := trim s) (p := isDigit) ht
    (fun c hc => by simpa using forall_isBlank (p := fun c => !isDigit c) (by decide +kernel) hc)
    (by decide)
  refine Reader.gives_bind.mpr ⟨(), trim u, gives_skipBlanks.mpr rfl, ?_⟩
  rw [hu, trim_append_of_ne_nil hne]
  exact Reader.gives_refine.mpr ⟨_, Reader.gives_takeWhile.mpr ⟨h1, h2⟩, hn⟩

namespace Period

/-- A special word is read exactly. -/
theorem exact_ofWord (ht : Tight t) (f : List Char → Option α) (e : Expected) :
    Exact t (ofWord f e) := by
  intro s a r u h hu
  obtain ⟨w, hw, ha⟩ := gives_ofWord.mp h
  refine gives_ofWord.mpr ⟨w, ?_, ha⟩
  rw [wordAhead?_congr hu]
  exact wordAhead?_append ht hw

/-- The number of units is read in front of whatever follows. -/
theorem readAmount_append (ht : Tight t) (hs : trim s ≠ []) {alignment : Alignment} {n : Nat}
    (h : (readAmount alignment s).Gives n r) :
    (readAmount alignment (s ++ t)).Gives n (r ++ t) := by
  obtain ⟨_, _, htrim, h⟩ := Reader.gives_bind.mp h
  rw [gives_skipBlanks] at htrim
  subst htrim
  obtain ⟨_, _, hlook, h⟩ := Reader.gives_bind.mp h
  obtain ⟨rfl, rfl⟩ := Reader.gives_look.mp hlook
  refine Reader.gives_bind.mpr ⟨(), _, gives_skipBlanks.mpr rfl, ?_⟩
  rw [trim_append_of_ne_nil hs]
  refine Reader.gives_bind.mpr ⟨_, _, Reader.gives_look.mpr ⟨rfl, rfl⟩, ?_⟩
  have hhead : (trim s ++ t).head? = (trim s).head? := by
    obtain ⟨c, v, hv⟩ := List.exists_cons_of_ne_nil hs
    rw [hv]
    rfl
  simp only [hhead]
  split at h
  · next hdigit =>
    rw [if_pos hdigit]
    obtain ⟨m, q, hm, h⟩ := Reader.gives_bind.mp h
    refine Reader.gives_bind.mpr ⟨m, q ++ t, exact_integer ht _ _ _ _ hm rfl, ?_⟩
    split at h
    · next hbound =>
      rw [if_pos hbound]
      obtain ⟨rfl, rfl⟩ := Reader.gives_pure.mp h
      exact Reader.gives_pure.mpr ⟨rfl, rfl⟩
    · exact absurd h not_gives_expected
  · next hdigit =>
    rw [if_neg hdigit]
    obtain ⟨rfl, rfl⟩ := Reader.gives_pure.mp h
    exact Reader.gives_pure.mpr ⟨rfl, rfl⟩

/-- The field of a period stays the same if it is not named behind the period. -/
theorem appends_field (ht : Tight t) (husing : after? "using" t = none) (f : String → Period) :
    Appends (do
      let field ← if (← eatWord "using") then fieldName else pure defaultField
      pure (f field) : Phrase Period) t :=
  (appends_eatWord ht husing).bind fun _ => appends_ite
    (Appends.bind (fun _ _ _ h => fieldName_append ht h) fun _ => appends_pure _)
    ((appends_pure _).bind fun _ => appends_pure _)

/-- A period starts with a word. -/
theorem exists_wordAhead?_of_read {x : Period} (h : (read s).Gives x r) :
    ∃ y, wordAhead? s = some y := by
  obtain ⟨_, _, htrim, h⟩ := Reader.gives_bind.mp h
  rw [gives_skipBlanks] at htrim
  subst htrim
  obtain ⟨_, _, hphrase, -⟩ := Reader.gives_bind.mp h
  obtain ⟨_, v, ha, -⟩ := Reader.gives_bind.mp (Reader.gives_withText.mp hphrase).1
  rw [readAnchor_eq] at ha
  obtain ⟨w, hw, -⟩ := gives_ofWord.mp ha
  rw [wordAhead?_trim] at hw
  exact ⟨_, hw⟩

/-- A period is read exactly, unless `using` follows. -/
theorem exact_read (ht : Tight t) (husing : after? "using" t = none) : Exact t read := by
  intro s x r u h hu
  have hs : trim s ≠ [] := trim_ne_nil_of_wordAhead? (exists_wordAhead?_of_read h).choose_spec
  obtain ⟨_, _, htrim, h⟩ := Reader.gives_bind.mp h
  rw [gives_skipBlanks] at htrim
  subst htrim
  obtain ⟨⟨⟨alignment, amount, unit⟩, phrase⟩, q, hphrase, h⟩ := Reader.gives_bind.mp h
  obtain ⟨hlength, htext⟩ := Reader.gives_withText.mp hphrase
  obtain ⟨_, v, ha, hlength⟩ := Reader.gives_bind.mp hlength
  obtain ⟨_, w, hn, hlength⟩ := Reader.gives_bind.mp hlength
  obtain ⟨_, q', hunit, hlength⟩ := Reader.gives_bind.mp hlength
  obtain ⟨hvalue, rfl⟩ := Reader.gives_pure.mp hlength
  rw [readAnchor_eq] at ha
  rw [readUnit_eq] at hunit
  -- the unit is a word, so the text is not blank in front of it
  have hv : trim v ≠ [] := by
    obtain ⟨_, hw, -⟩ := gives_ofWord.mp hunit
    exact trim_ne_nil_of_suffix hn.suffix (trim_ne_nil_of_wordAhead? hw)
  refine Reader.gives_bind.mpr ⟨(), trim s ++ t, ?_, ?_⟩
  · rw [gives_skipBlanks, hu, trim_append_of_ne_nil hs]
  · refine Reader.gives_bind.mpr ⟨((alignment, amount, unit), phrase), q' ++ t,
      Reader.gives_withText.mpr ⟨?_, ?_⟩, appends_field ht husing _ _ _ _ h⟩
    · rw [readAnchor_eq, readUnit_eq]
      exact Reader.gives_bind.mpr ⟨_, v ++ t, exact_ofWord ht _ _ _ _ _ _ ha rfl,
        Reader.gives_bind.mpr ⟨_, w ++ t, readAmount_append ht hv hn,
        Reader.gives_bind.mpr ⟨_, q' ++ t, exact_ofWord ht _ _ _ _ _ _ hunit rfl,
        Reader.gives_pure.mpr ⟨hvalue, rfl⟩⟩⟩⟩
    · rw [← List.append_assoc, htext]

end Period

/-! ## Items -/

namespace Item

/-- A part of a window: after the word `k`, the keys that `p` reads. -/
def overPart (k : String) (p : Phrase (List α)) : Phrase (List α) := do
  if (← eatWord k) then
    keyword "by"
    p
  else pure []

/-- A part of a window is read in front of a quiet text. -/
theorem overPart_append {p : Phrase (List α)} (ht : Quiet t) (hp : Exact t p)
    (hs : trim s ≠ []) {l : List α} (h : (overPart k p s).Gives l r) :
    (overPart k p (s ++ t)).Gives l (r ++ t) := by
  obtain ⟨b, q, hb, h⟩ := Reader.gives_bind.mp h
  rcases gives_eatWord.mp hb with ⟨hk, rfl⟩ | ⟨hk, rfl, rfl⟩
  · obtain ⟨_, v, hby, h⟩ := Reader.gives_bind.mp h
    have hk' := gives_eatWord.mpr (Or.inl ⟨after?_append ht.tight hk, rfl⟩)
    exact Reader.gives_bind.mpr ⟨true, q ++ t, hk', Reader.gives_bind.mpr ⟨(), v ++ t,
      exact_keyword ht.tight "by" _ _ _ _ hby rfl, hp _ _ _ _ h rfl⟩⟩
  · obtain ⟨rfl, rfl⟩ := Reader.gives_pure.mp h
    have hk' := gives_eatWord.mpr (Or.inr ⟨after?_append_of_ne_nil ht.tight hs hk, rfl, rfl⟩)
    exact Reader.gives_bind.mpr ⟨false, s ++ t, hk', Reader.gives_pure.mpr ⟨rfl, rfl⟩⟩

/-- The parentheses behind `over` hold two parts. -/
theorem overClause_eq : overClause = (do
    mark "("
    let partitionBy ← overPart "partition" fieldList
    let orderBy ← overPart "order" orderList
    mark ")"
    pure (partitionBy, orderBy)) := by
  have hite : ∀ {β γ : Type} (b : Bool) (p q : Phrase β) (f : β → Phrase γ),
      ((if b = true then p else q) >>= f) = if b = true then p >>= f else q >>= f := by
    intro β γ b p q f
    cases b <;> rfl
  simp only [overClause, overPart, bind_assoc, hite]

/-- A mark that is there is there in front of whatever follows. -/
theorem mark_append {m : String} (hm : m.toList ≠ []) (h : (mark m s).Gives () r) :
    (mark m (s ++ t)).Gives () (r ++ t) := by
  rw [gives_mark] at h ⊢
  rw [trim_append_of_ne_nil (by rw [h]; exact List.append_ne_nil_of_left_ne_nil hm r), h,
    List.append_assoc]

/-- What stands behind the parenthesis of a window changes nothing in it. -/
theorem overClause_append (ht : Quiet t) {x : List String × List OrderItem}
    (h : (overClause s).Gives x r) : (overClause (s ++ t)).Gives x (r ++ t) := by
  rw [overClause_eq] at h ⊢
  obtain ⟨_, q, hopen, h⟩ := Reader.gives_bind.mp h
  obtain ⟨partitionBy, v, hpartition, h⟩ := Reader.gives_bind.mp h
  obtain ⟨orderBy, w, horder, h⟩ := Reader.gives_bind.mp h
  obtain ⟨_, u, hclose, h⟩ := Reader.gives_bind.mp h
  obtain ⟨rfl, rfl⟩ := Reader.gives_pure.mp h
  -- the closing parenthesis is still ahead
  have hw : trim w ≠ [] := by
    rw [gives_mark.mp hclose]
    exact List.cons_ne_nil _ _
  have hv : trim v ≠ [] := trim_ne_nil_of_suffix horder.suffix hw
  have hq : trim q ≠ [] := trim_ne_nil_of_suffix hpartition.suffix hv
  exact Reader.gives_bind.mpr ⟨(), q ++ t, mark_append (by decide) hopen,
    Reader.gives_bind.mpr ⟨partitionBy, v ++ t,
      overPart_append ht (exact_listOf ht (exact_fieldName ht.tight)) hq hpartition,
    Reader.gives_bind.mpr ⟨orderBy, w ++ t,
      overPart_append ht (exact_listOf ht (exact_orderItem ht)) hv horder,
    Reader.gives_bind.mpr ⟨(), u ++ t, mark_append (by decide) hclose,
      Reader.gives_pure.mpr ⟨rfl, rfl⟩⟩⟩⟩⟩

/-- The text is the call of a window function and nothing else. -/
def IsBare (s : List Char) : Prop :=
  ∃ e i q, (Expr.read s).Gives e q ∧ ofExpr e = .ok i ∧ i.isWindow = true ∧ trim q = []

/-- What stands behind an item covers no other rows, unless it goes on with `over` behind a call. -/
theorem covers_glue (ht : Quiet t) {item i : Item} (h : Covers q item r i) (hq : trim q = q)
    (hover : after? "over" t = none ∨ i.isWindow = false ∨ trim q ≠ []) :
    ∃ v, Covers (glue q t) item v i ∧ trim v = trim (r ++ t) := by
  have hglue : trim (glue q t) = trim (q ++ t) := by
    rw [← hq, ← trim_append, trim_trim, hq]
  cases i with
  | window f e p o =>
    rcases h with ⟨u, p', o', hu, hx, rfl⟩ | ⟨hnone, rfl, rfl⟩
    · exact ⟨r ++ t, Or.inl ⟨u ++ t, p', o', Condition.after?_glue ht.tight hu,
        overClause_append ht hx, rfl⟩, rfl⟩
    · refine ⟨glue q t, Or.inr ⟨?_, rfl, rfl⟩, hglue⟩
      rcases hover with hover | hwindow | hne
      · exact Condition.after?_glue_of_none ht.tight hover hnone
      · cases hwindow
      · rw [← after?_trim, hglue, after?_trim]
        exact after?_append_of_ne_nil ht.tight hne hnone
  | aggregate f e =>
    obtain ⟨rfl, rfl⟩ := h
    exact ⟨glue q t, ⟨rfl, rfl⟩, hglue⟩
  | calculate e =>
    obtain ⟨rfl, rfl⟩ := h
    exact ⟨glue q t, ⟨rfl, rfl⟩, hglue⟩

/-- An item stays the same, unless an `over` behind the call of a window function takes it on. -/
theorem read_append (ht : Quiet t) {item : Item} (h : (read s).Gives item r)
    (hover : after? "over" t = none ∨ ¬ IsBare s) (hu : trim u = trim (s ++ t)) :
    ∃ v, (read u).Gives item v ∧ trim v = trim (r ++ t) := by
  obtain ⟨e, i, q, he, hi, hc⟩ := gives_read.mp h
  rw [Expr.gives_read_trim] at he
  have hq : trim q = q := (Expr.gives_read_iff.mp he).trim_rest trim_trim
  have hwindow : after? "over" t = none ∨ i.isWindow = false ∨ trim q ≠ [] := by
    refine hover.imp_right fun hbare => ?_
    by_contra hopen
    rw [not_or, Bool.not_eq_false, not_not] at hopen
    exact hbare ⟨e, i, q, he, hi, hopen.1, hopen.2⟩
  obtain ⟨v, hv, hvr⟩ := covers_glue ht hc hq hwindow
  refine ⟨v, gives_read.mpr ⟨e, i, glue q t, ?_, hi, hv⟩, hvr⟩
  rw [hu, Expr.gives_read_trim]
  exact Expr.read_append ht he

/-- What covers an item is in front of it. -/
theorem Covers.suffix {item i : Item} (h : Covers q item r i) : r <:+ q := by
  cases i with
  | window f e p o =>
    rcases h with ⟨u, _, _, hu, hx, -⟩ | ⟨-, -, rfl⟩
    · exact hx.suffix.trans (after?_suffix hu)
    · exact List.suffix_refl q
  | aggregate f e => exact h.2 ▸ List.suffix_refl q
  | calculate e => exact h.2 ▸ List.suffix_refl q

/-- An item with more behind it is no bare call. -/
theorem not_isBare_of_read {item : Item} (h : (read s).Gives item r) (hr : trim r ≠ []) :
    ¬ IsBare s := by
  rintro ⟨e, i, q, he, hi, -, hq⟩
  obtain ⟨e', i', q', he', -, hc⟩ := gives_read.mp h
  rw [Expr.gives_read_trim] at he'
  obtain rfl := he.rest_unique he'
  exact trim_ne_nil_of_suffix hc.suffix hr hq

end Item

/-- An operation ends with its alias. -/
theorem exact_operation (ht : Quiet t) : Exact t Operation.read := by
  intro s op r u h hu
  obtain ⟨item, n, q, hi, hn, rfl⟩ := gives_operation.mp h
  obtain ⟨x, hx, hnx⟩ := gives_requiredAlias.mp hn
  have hne : trim q ≠ [] := by
    obtain ⟨w, hw, -⟩ := after?_eq_some.mp hx
    exact trim_ne_nil_of_wordAhead? hw
  obtain ⟨v, hv, hvq⟩ := Item.read_append ht hi (Or.inr (Item.not_isBare_of_read hi hne)) hu
  refine gives_operation.mpr ⟨item, n, v, hv, gives_requiredAlias.mpr ⟨x ++ t, ?_, ?_⟩, rfl⟩
  · rw [after?_congr hvq]
    exact after?_append ht.tight hx
  · exact identifier_append ht.tight hnx

/-! ## Keys of questions -/

namespace Question

/-- The text ends, or a word in front opens a clause. -/
def endsItem (s : List Char) : Bool :=
  (peekWord s).isEmpty || isOneOf clauseWords (peekWord s)

theorem peekWord_congr (h : trim u = trim s) : peekWord u = peekWord s := by
  rw [peekWord_eq, peekWord_eq, wordAhead?_congr h]

/-- What follows ends an item where nothing else does. -/
theorem endsItem_append (ht : Tight t) (hend : endsItem t = true) :
    endsItem (s ++ t) = endsItem s := by
  by_cases hs : trim s = []
  · have hnil : peekWord s = [] := by
      rw [peekWord_congr (s := []) hs]
      rfl
    rw [endsItem, endsItem, peekWord_congr (trim_append_of_blank hs), hnil]
    exact hend
  · have hword : peekWord (s ++ t) = peekWord s := by
      rw [peekWord_eq, peekWord_eq]
      cases hw : wordAhead? s with
      | none => rw [wordAhead?_append_of_none hs hw]
      | some x => rw [wordAhead?_append ht hw]; rfl
    rw [endsItem, endsItem, hword]

/-- What follows adds no items to a list in front. -/
theorem separator_append_quiet {accept : List Char → List Char → Bool} (ht : Quiet t)
    (haccept : ∀ w r, accept w (r ++ t) = accept w r)
    (hand : ∀ w r, accept w r = true → sameWord w "and".toList = true)
    (hu : trim u = trim (s ++ t)) :
    separator accept u = (separator accept s).map (· ++ t) := by
  have hcongr : separator accept u = separator accept (s ++ t) := by
    rw [separator, separator, hu, wordAhead?_congr hu]
  rw [hcongr]
  by_cases hs : trim s = []
  · rw [separator_append_of_blank ht hs hand, separator, hs, ← wordAhead?_trim, hs]
    rfl
  · by_cases hcomma : ∃ v, trim s = ',' :: v
    · obtain ⟨v, hv⟩ := hcomma
      rw [separator_of_comma hv, separator_of_comma (t := v ++ t)]
      · rfl
      · rw [trim_append_of_ne_nil hs, hv]
        rfl
    · have hcomma' : ∀ v, trim (s ++ t) ≠ ',' :: v := by
        obtain ⟨c, v, hv⟩ := List.exists_cons_of_ne_nil hs
        intro x hx
        rw [trim_append_of_ne_nil hs, hv, List.cons_append, List.cons.injEq] at hx
        exact hcomma ⟨v, by rw [hv, hx.1]⟩
      rw [separator_of_not_comma fun v hv => hcomma ⟨v, hv⟩, separator_of_not_comma hcomma']
      cases hw : wordAhead? s with
      | none => rw [wordAhead?_append_of_none hs hw]; rfl
      | some x =>
        rw [wordAhead?_append ht.tight hw]
        dsimp only
        rw [haccept]
        split <;> rfl

/-- The separator of items does not depend on what follows. -/
theorem itemSeparator_append (ht : Quiet t) (hu : trim u = trim (s ++ t)) :
    itemSeparator u = (itemSeparator s).map (· ++ t) :=
  separator_append_quiet ht (fun _ _ => rfl) (fun _ _ h => h) hu

/-- The separator of keys does not depend on what follows, if that ends items. -/
theorem keySeparator_append (ht : Quiet t) (hend : endsItem t = true)
    (hu : trim u = trim (s ++ t)) : keySeparator u = (keySeparator s).map (· ++ t) := by
  refine separator_append_quiet ht (fun w r => ?_) (fun w r h => ?_) hu
  · have := endsItem_append (s := r) ht.tight hend
    rw [endsItem, endsItem] at this
    rw [Bool.and_assoc, Bool.and_assoc, ← Bool.not_or, ← Bool.not_or, this]
  · rw [Bool.and_eq_true, Bool.and_eq_true] at h
    exact h.1.1

/-- Further keys are kept in front of what ends items. -/
theorem keeps_keysRest (ht : Quiet t) (hend : endsItem t = true) : Keeps t keysRest := by
  rintro s l r u - h hu
  obtain ⟨q, hq, rfl⟩ := gives_keysRest.mp h
  suffices ∃ x, Repeats keySeparator fieldName u l x ∧ trim x = trim (q ++ t) by
    obtain ⟨x, hx, hxq⟩ := this
    refine ⟨trim x, gives_keysRest.mpr ⟨x, hx, rfl⟩, ?_⟩
    rw [trim_trim, hxq, trim_append, trim_append, trim_trim]
  clear h
  induction hq generalizing u with
  | stop hs =>
    refine ⟨u, .stop ?_, hu⟩
    rw [keySeparator_append ht hend hu, hs]
    rfl
  | @next s v q r n l hs ha _ ih =>
    obtain ⟨x, hx, hxr⟩ := ih (q ++ t) rfl
    refine ⟨x, .next ?_ (exact_fieldName ht.tight _ _ _ _ ha rfl) hx, hxr⟩
    rw [keySeparator_append ht hend hu, hs]
    rfl

end Question

/-! ## Clauses -/

/-- A text that can stand behind the clauses of a form: nothing, or a blank and a further clause. -/
def ClauseForm.Follows {C K : Type} (f : ClauseForm C K) (t : List Char) : Prop :=
  t = [] ∨ ∃ c u w q k, t = c :: u ∧ isBlank c = true ∧ wordAhead? u = some (w, q) ∧
    f.kindOf? w = some k

theorem ClauseForm.Follows.tight {C K : Type} {f : ClauseForm C K} (h : f.Follows t) : Tight t := by
  obtain rfl | ⟨c, u, w, q, k, rfl, hc, -, -⟩ := h
  · exact tight_nil
  · exact tight_cons hc

section Words

variable {C K : Type} {f : ClauseForm C K} (words : List (String × K))

/-- Words that open no clause are not in front of what follows. -/
theorem ClauseForm.Follows.after?_eq_none
    (hkind : ∀ w, f.kindOf? w = (words.find? fun x => sameWord w x.1.toList).map Prod.snd)
    (h : f.Follows t) {k : String}
    (hk : words.all (fun x => !sameWord x.1.toList k.toList) = true) : after? k t = none := by
  obtain rfl | ⟨c, u, w, q, kind, rfl, hc, hw, hkw⟩ := h
  · rfl
  · rw [Lexeme.after?_eq_none]
    intro w' q' hw'
    rw [← wordAhead?_trim, trim_cons_of_isBlank hc, wordAhead?_trim, hw] at hw'
    cases hw'
    rw [hkind] at hkw
    obtain ⟨x, hx, -⟩ := Option.map_eq_some_iff.mp hkw
    have hsame := List.find?_some hx
    have hother := List.all_eq_true.mp hk x (List.mem_of_find?_eq_some hx)
    rw [sameWord, beq_iff_eq] at hsame
    rw [Bool.not_eq_true'] at hother
    rw [sameWord, hsame]
    exact hother

/-- What can follow a clause is quiet, as no word in it goes on with an operand. -/
theorem ClauseForm.Follows.quiet
    (hkind : ∀ w, f.kindOf? w = (words.find? fun x => sameWord w x.1.toList).map Prod.snd)
    (h : f.Follows t)
    (hk : ∀ k ∈ tiedWords, words.all (fun x => !sameWord x.1.toList k.toList) = true) :
    Quiet t := by
  have hwords : ∀ k ∈ tiedWords, after? k t = none :=
    fun k hm => h.after?_eq_none words hkind (hk k hm)
  obtain rfl | ⟨c, u, w, q, kind, rfl, hc, hw, hkw⟩ := h
  · exact quiet_nil
  · refine quiet_of_word hc hw (List.all_eq_true.mpr fun k hm => ?_)
    have := Lexeme.after?_eq_none.mp (hwords k hm) w q ?_
    · rw [this]
      rfl
    · rw [← wordAhead?_trim, trim_cons_of_isBlank hc, wordAhead?_trim, hw]

end Words

namespace Transform

/-- What can follow a clause of a transform statement is quiet. -/
theorem quiet_of_follows (h : Clauses.form.Follows t) : Quiet t :=
  h.quiet ClauseKind.words (fun _ => rfl) (by decide)

/-- **A clause says the same with further clauses behind it.** -/
theorem keeps_clause (h : Clauses.form.Follows t) (k : ClauseKind) : Keeps t (Clause.read k) := by
  have ht := quiet_of_follows h
  have husing : after? "using" t = none :=
    h.after?_eq_none ClauseKind.words (fun _ => rfl) (by decide)
  have hkeyword : ∀ k, Keeps t (keyword k) := fun k => (exact_keyword ht.tight k).keeps
  have hfields : Keeps t fieldList := (exact_listOf ht (exact_fieldName ht.tight)).keeps
  cases k with
  | join =>
    exact (hkeyword _).bind fun _ => (exact_datasetName ht.tight).keeps.bind fun _ =>
      (hkeyword _).bind fun _ => (keeps_condition ht).bind fun _ => keeps_pure _
  | operations => exact (exact_listOf ht (exact_operation ht)).keeps.bind fun _ => keeps_pure _
  | group => exact (hkeyword _).bind fun _ => hfields.bind fun _ => keeps_pure _
  | filter => exact (keeps_condition ht).bind fun _ => keeps_pure _
  | order =>
    exact (hkeyword _).bind fun _ =>
      (exact_listOf ht (exact_orderItem ht)).keeps.bind fun _ => keeps_pure _
  | select => exact hfields.bind fun _ => keeps_pure _
  | period => exact (Period.exact_read ht.tight husing).keeps.bind fun _ => keeps_pure _
  | limit => exact (exact_integer ht.tight).keeps.bind fun _ => keeps_pure _

end Transform

namespace Question

/-- What can follow a clause of a question is quiet. -/
theorem quiet_of_follows (h : Clauses.form.Follows t) : Quiet t :=
  h.quiet ClauseKind.words (fun _ => rfl) (by decide)

/-- What can follow a clause of a question ends its items. -/
theorem endsItem_of_follows (h : Clauses.form.Follows t) : endsItem t = true := by
  obtain rfl | ⟨c, u, w, q, k, rfl, hc, hw, hk⟩ := h
  · rfl
  · obtain ⟨x, hx, -⟩ := Option.map_eq_some_iff.mp (hk : ClauseKind.ofWord? w = some k)
    have hmem := List.mem_of_find?_eq_some hx
    have hsame := List.find?_some hx
    have hclause : ∀ y ∈ ClauseKind.words, y.1 ∈ clauseWords := by decide
    have hpeek : peekWord (c :: u) = w := by
      rw [peekWord_eq, ← wordAhead?_trim, trim_cons_of_isBlank hc, wordAhead?_trim, hw]
      rfl
    rw [endsItem, hpeek, Bool.or_eq_true]
    exact Or.inr (List.any_eq_true.mpr ⟨x.1, hclause x hmem, hsame⟩)

/-- **A clause says the same with further clauses behind it.** -/
theorem keeps_clause (h : Clauses.form.Follows t) (k : ClauseKind) : Keeps t (Clause.read k) := by
  have ht := quiet_of_follows h
  have husing : after? "using" t = none :=
    h.after?_eq_none ClauseKind.words (fun _ => rfl) (by decide)
  have hkeyword : ∀ k, Keeps t (keyword k) := fun k => (exact_keyword ht.tight k).keeps
  cases k with
  | source => exact (exact_datasetName ht.tight).keeps.bind fun _ => keeps_pure _
  | group =>
    exact (exact_fieldName ht.tight).keeps.bind fun _ =>
      (keeps_keysRest ht (endsItem_of_follows h)).bind fun _ => keeps_pure _
  | filter => exact (keeps_condition ht).bind fun _ => keeps_pure _
  | order =>
    exact (hkeyword _).bind fun _ =>
      (exact_listOf ht (exact_orderItem ht)).keeps.bind fun _ => keeps_pure _
  | period => exact (Period.exact_read ht.tight husing).keeps.bind fun _ => keeps_pure _
  | join =>
    exact (hkeyword _).bind fun _ => (exact_datasetName ht.tight).keeps.bind fun _ =>
      (hkeyword _).bind fun _ => (keeps_condition ht).bind fun _ => keeps_pure _

end Question

end DataPhrase
