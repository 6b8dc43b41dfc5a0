/-
# Items of questions with clauses behind

What an item asks for does not depend on the clause that follows, with one exception: behind the
call of a window function, `over` is taken for the rows that the window covers (`EndsInCall`).
-/
import DataPhrase.Proofs.Statement.Following

namespace DataPhrase

open Text Lexeme

variable {q r s t u x : List Char}

namespace Item

/-- A bare call is a call. -/
theorem IsBare.opensCall (h : IsBare s) : ∃ n, Expr.OpensCall n (trim s) := by
  obtain ⟨e, i, q, he, hi, hwindow, -⟩ := h
  unfold ofExpr at hi
  split at hi
  · exact ⟨_, Expr.opensCall_of_read he⟩
  · cases hi
    cases hwindow

/-- Behind a bare call, `over` has to be followed by a parenthesis. -/
theorem IsBare.not_read (h : IsBare s) (ht : Quiet t) (hover : after? "over" t = some x)
    (hx : ∀ v, trim x ≠ '(' :: v) (hu : trim u = trim (s ++ t)) {item : Item} :
    ¬ (read u).Gives item r := by
  intro hread
  obtain ⟨e, i, q, he, hi, hwindow, hq⟩ := h
  obtain ⟨e', i', q', he', hi', hc⟩ := gives_read.mp hread
  have happend := Expr.read_append ht he
  rw [hu, Expr.gives_read_trim] at he'
  obtain rfl := happend.value_unique he'
  obtain rfl := happend.rest_unique he'
  rw [hi] at hi'
  cases hi'
  rw [Expr.gives_read_trim.symm] at he
  rw [← (Expr.gives_read_iff.mp he).trim_rest trim_trim, hq, glue_nil] at hc
  cases i with
  | window f e p o =>
    rcases hc with ⟨v, _, _, hv, hrows, -⟩ | ⟨hnone, -⟩
    · rw [after?_trim, hover] at hv
      cases hv
      rw [overClause_eq] at hrows
      obtain ⟨_, y, hopen, -⟩ := Reader.gives_bind.mp hrows
      exact hx y (gives_mark.mp hopen)
    · rw [after?_trim, hover] at hnone
      cases hnone
  | aggregate f e => cases hwindow
  | calculate e => cases hwindow

end Item

namespace Question

/-! ## One item -/

theorem spokenAhead?_append (ht : Tight t) (hend : endsItem t = true) (hs : trim s ≠ [])
    (hu : trim u = trim (s ++ t)) :
    spokenAhead? u = (spokenAhead? s).map fun x => (x.1, x.2 ++ t) := by
  unfold spokenAhead?
  rw [wordAhead?_congr hu]
  cases hw : wordAhead? s with
  | none => rw [wordAhead?_append_of_none hs hw]; rfl
  | some x =>
    obtain ⟨w, q⟩ := x
    have hends := endsItem_append (s := q) ht hend
    rw [endsItem, endsItem] at hends
    rw [wordAhead?_append ht hw]
    dsimp only
    cases AggregateFn.ofName? (String.ofList w) with
    | none => rfl
    | some f =>
      dsimp only
      rw [hends]
      split <;> rfl

/-- No clause is taken for an alias. -/
theorem optionalAlias_append (ht : Clauses.form.Follows t) {a : Option String}
    (h : (optionalAlias s).Gives a r) (hu : trim u = trim (s ++ t)) :
    ∃ v, (optionalAlias u).Gives a v ∧ trim v = trim (r ++ t) := by
  have has : after? "as" t = none :=
    ht.after?_eq_none ClauseKind.words (fun _ => rfl) (by decide)
  rcases gives_optionalAlias.mp h with ⟨q, n, hq, hn, rfl⟩ | ⟨hs, rfl, rfl⟩
  · refine ⟨r ++ t, gives_optionalAlias.mpr (Or.inl ⟨q ++ t, n, ?_, ?_, rfl⟩), rfl⟩
    · rw [after?_congr hu]
      exact after?_append ht.tight hq
    · exact identifier_append ht.tight hn
  · refine ⟨u, gives_optionalAlias.mpr (Or.inr ⟨?_, rfl, rfl⟩), hu⟩
    rw [after?_congr hu]
    exact after?_append_of_none ht.tight has hs

theorem spokenRest_append (ht : Clauses.form.Follows t) {w : List Char} {f : AggregateFn}
    {a : Asked} (h : (spokenRest w f s).Gives a r) :
    ∃ v, (spokenRest w f (s ++ t)).Gives a v ∧ trim v = trim (r ++ t) := by
  obtain ⟨field, p, hfield, h⟩ := Reader.gives_bind.mp h
  obtain ⟨n, q, hn, h⟩ := Reader.gives_bind.mp h
  obtain ⟨rfl, rfl⟩ := Reader.gives_pure.mp h
  obtain ⟨v, hv, hvq⟩ := optionalAlias_append ht hn rfl
  exact ⟨v, Reader.gives_bind.mpr ⟨field, p ++ t, fieldName_append ht.tight hfield,
    Reader.gives_bind.mpr ⟨n, v, hv, Reader.gives_pure.mpr ⟨rfl, rfl⟩⟩⟩, hvq⟩

/-- There is something to an item. -/
theorem trim_ne_nil_of_asked {a : Asked} (h : (asked s).Gives a r) : trim s ≠ [] := by
  intro hs
  have hspoken : spokenAhead? s = none := by
    rw [spokenAhead?, ← wordAhead?_trim, hs]
    rfl
  obtain ⟨item, n, q, hi, -, -⟩ := (gives_asked_item hspoken).mp h
  obtain ⟨e, i, p, he, -, -⟩ := Item.gives_read.mp hi
  rw [Expr.gives_read_iff, trim_trim, hs] at he
  exact he.ne_nil rfl rfl

/-- An item with more behind it is no bare call. -/
theorem not_isBare_of_asked {a : Asked} (h : (asked s).Gives a r) (hr : trim r ≠ []) :
    ¬ Item.IsBare s := by
  intro hbare
  obtain ⟨n, hcall⟩ := hbare.opensCall
  obtain ⟨item, m, q, hi, hm, -⟩ := (gives_asked_item (spokenAhead?_of_opensCall hcall)).mp h
  exact Item.not_isBare_of_read hi (trim_ne_nil_of_suffix hm.suffix hr) hbare

/-- **An item asks for the same with a clause behind it**, unless it is a bare call and `over`
follows. -/
theorem asked_append (ht : Clauses.form.Follows t) {a : Asked} (h : (asked s).Gives a r)
    (hover : after? "over" t = none ∨ ¬ Item.IsBare s) (hu : trim u = trim (s ++ t)) :
    ∃ v, (asked u).Gives a v ∧ trim v = trim (r ++ t) := by
  have hspoken := spokenAhead?_append ht.tight (endsItem_of_follows ht) (trim_ne_nil_of_asked h) hu
  cases hs : spokenAhead? s with
  | some x =>
    rw [gives_asked_iff, hs] at h
    rw [hs] at hspoken
    obtain ⟨v, hv, hvr⟩ := spokenRest_append ht h
    refine ⟨v, ?_, hvr⟩
    rw [gives_asked_iff, hspoken]
    exact hv
  | none =>
    rw [hs] at hspoken
    obtain ⟨item, n, q, hi, hn, ha⟩ := (gives_asked_item hs).mp h
    obtain ⟨p, hp, hpq⟩ := Item.read_append (quiet_of_follows ht) hi hover hu
    obtain ⟨v, hv, hvr⟩ := optionalAlias_append ht hn hpq
    exact ⟨v, (gives_asked_item hspoken).mpr ⟨item, n, p, hp, hv, ha⟩, hvr⟩

/-- No item is read where `over` follows a bare call and no parenthesis follows `over`. -/
theorem not_asked_of_isBare (ht : Clauses.form.Follows t) (hs : Item.IsBare s)
    (hover : after? "over" t = some x) (hx : ∀ v, trim x ≠ '(' :: v)
    (hu : trim u = trim (s ++ t)) {a : Asked} : ¬ (asked u).Gives a r := by
  intro h
  obtain ⟨n, hcall⟩ := hs.opensCall
  have hne : trim s ≠ [] := by
    rcases hcall with ⟨v, hv⟩ | ⟨q, v, hw, -⟩
    · rw [hv]
      exact List.cons_ne_nil _ _
    · rw [wordAhead?_trim] at hw
      exact trim_ne_nil_of_wordAhead? hw
  have hspoken := spokenAhead?_append ht.tight (endsItem_of_follows ht) hne hu
  rw [spokenAhead?_of_opensCall hcall] at hspoken
  obtain ⟨item, m, q, hi, -, -⟩ := (gives_asked_item hspoken).mp h
  exact hs.not_read (quiet_of_follows ht) hover hx hu hi

/-! ## All items -/

/-- The text is a list of items of which the last is the call of a window function and nothing
else. -/
inductive EndsInCall : List Char → Prop
  | last {s : List Char} (h : Item.IsBare s) : EndsInCall s
  | next {s r u : List Char} {a : Asked} (ha : (asked s).Gives a r)
      (hsep : itemSeparator r = some u) (h : EndsInCall u) : EndsInCall s

theorem gives_itemList {l : List Asked} : (itemList s).Gives l r ↔ ∃ a q l' p,
    (asked s).Gives a q ∧ Repeats itemSeparator asked q l' p ∧ trim p = r ∧ a :: l' = l := by
  constructor
  · intro h
    obtain ⟨a, q, ha, h⟩ := Reader.gives_bind.mp h
    obtain ⟨l', v, hl, h⟩ := Reader.gives_bind.mp h
    obtain ⟨rfl, rfl⟩ := Reader.gives_pure.mp h
    obtain ⟨p, hp, hr⟩ := gives_askedRest.mp hl
    exact ⟨a, q, l', p, ha, hp, hr, rfl⟩
  · rintro ⟨a, q, l', p, ha, hp, rfl, rfl⟩
    exact Reader.gives_bind.mpr ⟨a, q, ha, Reader.gives_bind.mpr ⟨l', trim p,
      gives_askedRest.mpr ⟨p, hp, rfl⟩, Reader.gives_pure.mpr ⟨rfl, rfl⟩⟩⟩

theorem trim_ne_nil_of_itemSeparator (h : itemSeparator r = some u) : trim r ≠ [] := by
  intro hr
  rw [itemSeparator, separator_of_not_comma (by rw [hr]; exact fun u => (List.cons_ne_nil _ u).symm),
    ← wordAhead?_trim, hr] at h
  cases h

/-- **Items ask for the same with clauses behind them**, unless they end in a bare call and `over`
follows. -/
theorem itemList_append (ht : Clauses.form.Follows t) {l : List Asked} (h : Accepts itemList s l)
    (hover : after? "over" t = none ∨ ¬ EndsInCall s) (hu : trim u = trim (s ++ t)) :
    ∃ v, (itemList u).Gives l v ∧ trim v = trim t := by
  obtain ⟨_, h, hend⟩ := h
  obtain ⟨a, q, l', p, ha, hl, rfl, rfl⟩ := gives_itemList.mp h
  rw [trim_trim] at hend
  suffices ∃ v w, (asked u).Gives a v ∧ Repeats itemSeparator asked v l' w ∧ trim w = trim t by
    obtain ⟨v, w, hv, hw, hwt⟩ := this
    exact ⟨trim w, gives_itemList.mpr ⟨a, v, l', w, hv, hw, rfl, rfl⟩, by rw [trim_trim, hwt]⟩
  clear h
  induction hl generalizing s a u with
  | stop hsep =>
    -- the last item is bare only if the items end in a call
    obtain ⟨v, hv, hvr⟩ := asked_append ht ha (hover.imp_right fun hs hbare => hs (.last hbare)) hu
    refine ⟨v, v, hv, .stop ?_, hvr.trans (trim_append_of_blank hend)⟩
    rw [itemSeparator_append (quiet_of_follows ht) hvr, hsep]
    rfl
  | next hsep hb _ ih =>
    have hbare := not_isBare_of_asked ha (trim_ne_nil_of_itemSeparator hsep)
    obtain ⟨v, hv, hvr⟩ := asked_append ht ha (Or.inr hbare) hu
    obtain ⟨x, w, hx, hw, hwt⟩ :=
      ih (hover.imp_right fun hs hcall => hs (.next ha hsep hcall)) rfl _ hb hend
    refine ⟨v, w, hv, .next ?_ hx hw, hwt⟩
    rw [itemSeparator_append (quiet_of_follows ht) hvr, hsep]
    rfl

/-- No items are read where `over` follows a bare call and no parenthesis follows `over`. -/
theorem EndsInCall.not_itemList (h : EndsInCall s) (ht : Clauses.form.Follows t)
    (hover : after? "over" t = some x) (hx : ∀ v, trim x ≠ '(' :: v)
    (hu : trim u = trim (s ++ t)) {l : List Asked} : ¬ (itemList u).Gives l r := by
  intro hl
  induction h generalizing u l with
  | last hs =>
    obtain ⟨a, _, _, _, ha, -⟩ := gives_itemList.mp hl
    exact not_asked_of_isBare ht hs hover hx hu ha
  | @next s q v a ha hsep _ ih =>
    obtain ⟨b, y, l', p, hb, hrest, rfl, rfl⟩ := gives_itemList.mp hl
    have hbare := not_isBare_of_asked ha (trim_ne_nil_of_itemSeparator hsep)
    obtain ⟨y', hy', hyr⟩ := asked_append ht ha (Or.inr hbare) hu
    obtain rfl := hy'.rest_unique hb
    have hsep' := itemSeparator_append (quiet_of_follows ht) hyr
    rw [hsep, Option.map_some] at hsep'
    cases hrest with
    | stop hnone =>
      rw [hsep'] at hnone
      cases hnone
    | next hsome hc hrest =>
      rw [hsep'] at hsome
      cases hsome
      exact ih rfl (gives_itemList.mpr ⟨_, _, _, _, hc, hrest, rfl, rfl⟩)

end Question

end DataPhrase
