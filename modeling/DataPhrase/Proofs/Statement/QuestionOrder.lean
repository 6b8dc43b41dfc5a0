/-
# Questions with their clauses in any order

Behind its items, a question is its clauses one after another, and what they add up to depends on
the order of the joins only. Where the items end in the call of a window function, a clause with
`over` cannot come first (`parse_reordered_iff`).
-/
import DataPhrase.Proofs.Statement.Classify
import DataPhrase.Proofs.Statement.ClauseOrder
import DataPhrase.Proofs.Statement.QuestionItems

namespace DataPhrase.Question

open Text Lexeme Clauses

variable {h p q r s t u : List Char} {limit : Option Nat} {items : List Asked}
  {xs ys : List (List Char)} {st : Statement}

/-! ## Verbs and items -/

theorem GivesLimit.append (ht : form.Follows t) (hl : GivesLimit p limit s) :
    GivesLimit (p ++ t) limit (s ++ t) := by
  have htop : after? "top" t = none :=
    ht.after?_eq_none ClauseKind.words (fun _ => rfl) (by decide)
  rcases hl with ⟨q, n, hq, hn, rfl⟩ | ⟨hp, rfl, rfl⟩
  · exact Or.inl ⟨q ++ t, n, after?_append ht.tight hq, exact_integer ht.tight q n s _ hn rfl, rfl⟩
  · exact Or.inr ⟨after?_append_of_none ht.tight htop hp, rfl, rfl⟩

theorem GivesLimit.unique {limit' : Option Nat} (hl : GivesLimit p limit s)
    (hl' : GivesLimit p limit' u) : limit = limit' ∧ s = u := by
  rcases hl with ⟨q, n, hq, hn, rfl⟩ | ⟨hp, rfl, rfl⟩
  · rcases hl' with ⟨q', n', hq', hn', rfl⟩ | ⟨hp', -, -⟩
    · rw [hq] at hq'
      cases hq'
      exact ⟨congrArg some (hn.value_unique hn'), hn.rest_unique hn'⟩
    · rw [hq] at hp'
      cases hp'
  · rcases hl' with ⟨q', n', hq', -, -⟩ | ⟨-, rfl, rfl⟩
    · rw [hp] at hq'
      cases hq'
    · exact ⟨rfl, rfl⟩

/-- The text is a verb, a number of rows if there is one, and the items `s`. -/
structure IsHead (h : List Char) (limit : Option Nat) (s : List Char) (items : List Asked) :
    Prop where
  opens : ∃ p, (readVerb h).Gives () p ∧ GivesLimit p limit s
  reads : Accepts itemList s items

/-- With clauses behind, a head is still the verb and the number of rows. -/
theorem IsHead.gives_read (hh : IsHead h limit s items) (ht : form.Follows t) :
    (read (h ++ t)).Gives st r ↔ GivesBody limit (s ++ t) st r := by
  obtain ⟨p, hverb, hl⟩ := hh.opens
  obtain ⟨w, hw, hone⟩ := gives_readVerb.mp hverb
  have hverb' : (readVerb (h ++ t)).Gives () (p ++ t) :=
    gives_readVerb.mpr ⟨w, wordAhead?_append ht.tight hw, hone⟩
  have hl' := hl.append ht
  rw [Question.gives_read]
  constructor
  · rintro ⟨p', limit', q, hp', hlimit, hbody⟩
    obtain rfl := hverb'.rest_unique hp'
    obtain ⟨rfl, rfl⟩ := hl'.unique hlimit
    exact hbody
  · exact fun hbody => ⟨p ++ t, limit, s ++ t, hverb', hl', hbody⟩

theorem givesBody_iff : GivesBody limit s st r ↔ ∃ l p c source, (itemList s).Gives l p ∧
    (readAll {} p).Gives c r ∧ c.source = some source ∧ statement source limit l c = st := by
  constructor
  · rintro ⟨first, rest, c, source, p, q, hf, hr, hc, hs, hst⟩
    exact ⟨first :: rest, q, c, source, Reader.gives_bind.mpr ⟨first, p, hf,
      Reader.gives_bind.mpr ⟨rest, q, hr, Reader.gives_pure.mpr ⟨rfl, rfl⟩⟩⟩, hc, hs, hst⟩
  · rintro ⟨l, q, c, source, hl, hc, hs, hst⟩
    obtain ⟨first, p, hf, hl⟩ := Reader.gives_bind.mp hl
    obtain ⟨rest, _, hr, hl⟩ := Reader.gives_bind.mp hl
    obtain ⟨rfl, rfl⟩ := Reader.gives_pure.mp hl
    exact ⟨first, rest, c, source, p, _, hf, hr, hc, hs, hst⟩

/-! ## Clauses with `over` -/

/-- The first clause is a period behind `over`. -/
def opensOver (xs : List (List Char)) : Bool :=
  xs.head?.any fun x => (after? "over" x).isSome

theorem after?_over_inRow (hxs : ∀ x ∈ xs, form.IsClause {} x) (hover : opensOver xs = false) :
    after? "over" (inRow xs) = none := by
  cases xs with
  | nil => rfl
  | cons x xs =>
    rw [List.forall_mem_cons] at hxs
    obtain ⟨w, q, -, -, -, hw, -⟩ := hxs.1
    have hnone : after? "over" x = none := by simpa [opensOver] using hover
    rw [after?_congr trim_inRow_cons]
    exact after?_append_of_ne_nil (ClauseForm.follows_inRow hxs.2).tight
      (trim_ne_nil_of_wordAhead? hw) hnone

theorem ofWord?_of_sameWord {w : List Char} {k : String} (hw : sameWord w k.toList = true) :
    ClauseKind.ofWord? w = ClauseKind.ofWord? k.toList := by
  rw [sameWord, beq_iff_eq] at hw
  simp only [ClauseKind.ofWord?, sameWord, hw]

/-- A period follows `over`, and no parenthesis. -/
theorem exists_over_inRow (hxs : ∀ x ∈ xs, form.IsClause {} x) (hover : opensOver xs = true) :
    ∃ u, after? "over" (inRow xs) = some u ∧ ∀ v, trim u ≠ '(' :: v := by
  cases xs with
  | nil => cases hover
  | cons x xs =>
    rw [List.forall_mem_cons] at hxs
    obtain ⟨w, q, k, c, r, hw, hk, hc, -⟩ := hxs.1
    obtain ⟨q', hq'⟩ := Option.isSome_iff_exists.mp (hover : (after? "over" x).isSome = true)
    obtain ⟨w', hw', hsame⟩ := after?_eq_some.mp hq'
    rw [hw] at hw'
    cases hw'
    have hkind : form.kindOf? w = some .period := ofWord?_of_sameWord hsame
    rw [hk, Option.some.injEq] at hkind
    subst hkind
    obtain ⟨period, v, hperiod, -⟩ := Reader.gives_bind.mp hc
    obtain ⟨y, hy⟩ := Period.exists_wordAhead?_of_read hperiod
    have htight := (ClauseForm.follows_inRow hxs.2).tight
    refine ⟨q ++ inRow xs, ?_, fun v hv => ?_⟩
    · rw [after?_congr trim_inRow_cons]
      exact after?_append htight hq'
    · have hword := wordAhead?_append htight hy
      rw [← wordAhead?_trim, hv] at hword
      cases hword

/-! ## Questions -/

/-- What the clauses add up to. -/
def clausesOf (xs : List (List Char)) : Clauses :=
  (xs.filterMap parts.value?).foldl add {}

/-- **Items with clauses behind them are read**, unless the items end in a call and the clauses open
with `over`. -/
theorem givesBody_inRow (hitems : Accepts itemList s items) (hxs : form.AreClauses {} .join xs)
    (hscan : ∀ x ∈ xs, Condition.ScanEnds x) : GivesBody limit (s ++ inRow xs) st [] ↔
      ¬ (EndsInCall s ∧ opensOver xs = true) ∧ ∃ source, (clausesOf xs).source = some source ∧
        statement source limit items (clausesOf xs) = st := by
  have hfollows := ClauseForm.follows_inRow hxs.clause
  by_cases hcall : EndsInCall s ∧ opensOver xs = true
  · obtain ⟨u, hu, hparen⟩ := exists_over_inRow hxs.clause hcall.2
    refine iff_of_false ?_ fun hn => hn.1 hcall
    rw [givesBody_iff]
    rintro ⟨l, p, c, source, hl, -⟩
    exact hcall.1.not_itemList hfollows hu hparen rfl hl
  · have hover : after? "over" (inRow xs) = none ∨ ¬ EndsInCall s := by
      by_cases hopens : opensOver xs = true
      · exact Or.inr fun hends => hcall ⟨hends, hopens⟩
      · exact Or.inl (after?_over_inRow hxs.clause (by simpa using hopens))
    obtain ⟨v, hv, hvt⟩ := itemList_append hfollows hitems hover rfl
    have hfree : ∀ k, ({} : Clauses).has k = false := by
      intro k
      cases k <;> rfl
    have hrun := parts.run_inRow (fun t ht k => keeps_clause ht k) hxs hscan
      (fun _ _ k _ => hfree k) hvt
    have hclauses : (readAll {} v).Gives (clausesOf xs) [] := gives_readAll.mpr ⟨hrun, rfl⟩
    rw [givesBody_iff, and_iff_right hcall]
    constructor
    · rintro ⟨l, p, c, source, hl, hc, hs, hst⟩
      obtain rfl := hv.rest_unique hl
      obtain rfl := hv.value_unique hl
      obtain rfl := hclauses.value_unique hc
      exact ⟨source, hs, hst⟩
    · rintro ⟨source, hs, hst⟩
      exact ⟨items, v, _, source, hv, hclauses, hs, hst⟩

/-- A question whose verb stands in front of a gap stands alone if no words in it look like the
header of a transform statement. -/
theorem standsAlone_of_verb {w : List Char} (hverb : (readVerb (w ++ p)).Gives () p)
    (hw : w.all (fun c => !isBlank c) = true) (hp : p.head?.any isGap = true)
    (hform : (tokenize (w ++ p)).toOption.all (fun ts => !decide (Token.ShowsTransform ts)) = true) :
    Pattern.StandsAlone .naturalQuery (w ++ p) := by
  refine ⟨fun u _ r hu hr c hc hblank => ?_, fun r hr => ?_, fun ts hts => ?_⟩
  · obtain rfl := hr.rest_unique hverb
    obtain rfl : w = u := List.append_cancel_right hu
    have := List.all_eq_true.mp hw c hc
    rw [hblank] at this
    cases this
  · obtain rfl := hr.rest_unique hverb
    exact hp
  · rw [hts] at hform
    simpa [Except.toOption] using hform

/-- **The clauses of a question may come in any order that keeps the order of the joins**, unless
its items end in the call of a window function and the first clause opens with `over`. -/
theorem parse_reordered_iff (hh : IsHead h limit s items) (hxs : form.AreClauses {} .join xs)
    (hscan : ∀ x ∈ xs, Condition.ScanEnds x) (hst : readWhole read (h ++ inRow xs) = .ok st)
    (hperm : ys.Perm xs) (hjoins : ys.filter (fun x => form.kindAhead? x = some .join) =
      xs.filter (fun x => form.kindAhead? x = some .join)) :
    (readWhole read (h ++ inRow ys) = .ok st ↔ ¬ (EndsInCall s ∧ opensOver ys = true)) ∧
      (Pattern.StandsAlone .naturalQuery (h ++ inRow ys) →
        (Statement.parse (h ++ inRow ys) = .ok st ↔ ¬ (EndsInCall s ∧ opensOver ys = true))) := by
  have hys := hxs.perm hperm
  have hscan' : ∀ y ∈ ys, Condition.ScanEnds y := fun y hy => hscan y (hperm.mem_iff.mp hy)
  have hvalues : clausesOf ys = clausesOf xs :=
    ClauseForm.Parts.foldl_values_eq (p := parts) hxs hperm hjoins {}
  rw [readWhole_eq_ok, hh.gives_read (ClauseForm.follows_inRow hxs.clause),
    givesBody_inRow hh.reads hxs hscan] at hst
  have hread : readWhole read (h ++ inRow ys) = .ok st ↔
      ¬ (EndsInCall s ∧ opensOver ys = true) := by
    rw [readWhole_eq_ok, hh.gives_read (ClauseForm.follows_inRow hys.clause),
      givesBody_inRow hh.reads hys hscan', hvalues]
    exact and_iff_left hst.2
  refine ⟨hread, fun halone => ?_⟩
  rw [← hread]
  constructor
  · intro hparse
    obtain ⟨source, -, rfl⟩ := hst.2
    obtain ⟨pattern, -, -, hgrammar⟩ := parse_eq_ok.mp hparse
    obtain rfl : _ = pattern := pattern_of_grammar hgrammar
    exact readWhole_eq_ok.mpr hgrammar
  · exact fun hwhole => parse_of_readWhole .naturalQuery hwhole halone

/-- Clauses of which the last opens with `over`. -/
def monthClauses : List (List Char) :=
  ["from S", "joined with T on k = j", "over last month"].map String.toList

theorem areClauses_month : form.AreClauses {} .join monthClauses :=
  ClauseForm.Parts.areClauses_of_values (p := parts) {} (by decide +kernel) (by decide)

/-- A verb with a number of rows and items. -/
def topHead : List Char :=
  "show".toList ++ (" top".toList ++ (" 5".toList ++ " count(*)".toList))

/-- Behind other items, the clauses can change places. -/
theorem parse_reordered_iff_top : ∃ items st,
    IsHead topHead (some 5) " count(*)".toList items ∧
    form.AreClauses {} .join monthClauses.reverse ∧
    (∀ x ∈ monthClauses.reverse, Condition.ScanEnds x) ∧
    readWhole read (topHead ++ inRow monthClauses.reverse) = .ok st ∧
    monthClauses.Perm monthClauses.reverse ∧
    Pattern.StandsAlone .naturalQuery (topHead ++ inRow monthClauses) ∧
    readWhole read (topHead ++ inRow monthClauses) = .ok st ∧
    Statement.parse (topHead ++ inRow monthClauses) = .ok st := by
  obtain ⟨items, hitems⟩ : ∃ items, whole? itemList " count(*)".toList = some items :=
    Option.isSome_iff_exists.mp (by decide +kernel)
  have hhead : IsHead topHead (some 5) " count(*)".toList items := by
    refine ⟨⟨_, gives_readVerb.mpr ⟨"show".toList, rfl, rfl⟩,
      Or.inl ⟨" 5".toList ++ " count(*)".toList, 5, rfl, ?_, rfl⟩⟩, whole?_eq_some.mp hitems⟩
    exact ⟨List.suffix_append _ _, rfl⟩
  have hclauses : form.AreClauses {} .join monthClauses.reverse :=
    areClauses_month.perm (List.reverse_perm _)
  have hplain : ∀ x ∈ monthClauses.reverse, '\\' ∉ x := by decide
  have hscan : ∀ x ∈ monthClauses.reverse, Condition.ScanEnds x :=
    fun x hx => Condition.scanEnds_of_plain (hplain x hx)
  obtain ⟨st, hst⟩ := Option.isSome_iff_exists.mp (show
    (readWhole read (topHead ++ inRow monthClauses.reverse)).toOption.isSome = true by
      decide +kernel)
  have hread := eq_ok_of_toOption hst
  have hperm : monthClauses.Perm monthClauses.reverse := (List.reverse_perm _).symm
  have halone : Pattern.StandsAlone .naturalQuery (topHead ++ inRow monthClauses) :=
    standsAlone_of_verb (w := "show".toList) (gives_readVerb.mpr ⟨"show".toList, rfl, rfl⟩)
      (by decide) rfl (by decide +kernel)
  have hover : ¬ (EndsInCall " count(*)".toList ∧ opensOver monthClauses = true) :=
    fun hn => absurd hn.2 (by decide)
  have h := parse_reordered_iff hhead hclauses hscan hread hperm (by decide)
  exact ⟨items, st, hhead, hclauses, hscan, hread, hperm, halone, h.1.mpr hover,
    (h.2 halone).mpr hover⟩

/-- Behind the call of a window function, they cannot. -/
theorem not_parse_reordered_rank : ∃ items st,
    IsHead "show rank()".toList none " rank()".toList items ∧
    form.AreClauses {} .join monthClauses ∧ (∀ x ∈ monthClauses, '\\' ∉ x) ∧
    monthClauses.reverse.Perm monthClauses ∧
    monthClauses.reverse.filter (fun x => form.kindAhead? x = some .join) =
      monthClauses.filter (fun x => form.kindAhead? x = some .join) ∧
    Statement.parse ("show rank()".toList ++ inRow monthClauses) = .ok st ∧
    Statement.parse ("show rank()".toList ++ inRow monthClauses.reverse) ≠ .ok st := by
  have hitems : (whole? itemList " rank()".toList).isSome = true := by decide +kernel
  obtain ⟨items, hitems⟩ := Option.isSome_iff_exists.mp hitems
  have hhead : IsHead "show rank()".toList none " rank()".toList items :=
    ⟨⟨" rank()".toList, gives_readVerb.mpr ⟨"show".toList, rfl, rfl⟩, Or.inr ⟨rfl, rfl, rfl⟩⟩,
      whole?_eq_some.mp hitems⟩
  have hparse : (Statement.parse ("show rank()".toList ++ inRow monthClauses)).toOption.isSome ∧
      (Statement.parse ("show rank()".toList ++ inRow monthClauses.reverse)).toOption = none := by
    decide +kernel
  obtain ⟨st, hst⟩ := Option.isSome_iff_exists.mp hparse.1
  refine ⟨items, st, hhead, areClauses_month, by decide, List.reverse_perm _, by decide,
    eq_ok_of_toOption hst, fun hn => ?_⟩
  rw [hn] at hparse
  cases hparse.2

end DataPhrase.Question
