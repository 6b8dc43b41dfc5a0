/-
# Pieces of statements with other gaps

What the readers of words, names, lists, items and periods take off a text does not depend on its
gaps. A period keeps the characters it is read from, and of these the words are the same.
-/
import DataPhrase.Proofs.Gaps.Grammar
import DataPhrase.Proofs.Statement.Pieces
import DataPhrase.Statement.Item
import DataPhrase.Statement.Phrase
import Mathlib.Data.List.SplitBy

namespace DataPhrase

open Text Lexeme

variable {α β : Type} {p : Phrase α} {c : Char} {s s' t r b q w : List Char}

/-! ## One reader behind another -/

/-- A reader that takes nothing does not see the blanks. -/
theorem carries_pure (a : α) : Carries (pure a : Phrase α) := by
  intro s s' b r hs h
  obtain ⟨rfl, rfl⟩ := Reader.gives_pure.mp h
  exact ⟨s', Reader.gives_pure.mpr ⟨rfl, rfl⟩, hs⟩

theorem carries_expected (e : Expected) : Carries (expected e : Phrase α) :=
  fun _ _ _ _ _ h => absurd h not_gives_expected

/-- Readers that do not see the blanks can be put one behind the other. -/
theorem Carries.bind {f : α → Phrase β} (hp : Carries p) (hf : ∀ a, Carries (f a)) :
    Carries (p >>= f) := by
  intro s s' b r hs h
  obtain ⟨a, q, ha, hb⟩ := Reader.gives_bind.mp h
  obtain ⟨q', ha', hq⟩ := hp s hs ha
  obtain ⟨r', hb', hr⟩ := hf a q hq hb
  exact ⟨r', Reader.gives_bind.mpr ⟨a, q', ha', hb'⟩, hr⟩

/-- Settling the value of a reader does not bring the blanks in. -/
theorem Carries.refine {f : α → Except Cause β} (hp : Carries p) : Carries (p.refine f) := by
  intro s s' b r hs h
  obtain ⟨a, ha, hf⟩ := Reader.gives_refine.mp h
  obtain ⟨r', ha', hr⟩ := hp s hs ha
  exact ⟨r', Reader.gives_refine.mpr ⟨a, ha', hf⟩, hr⟩

/-- Both branches of a choice may not see the blanks. -/
theorem carries_ite {b : Bool} {p' : Phrase α} (hp : Carries p) (hp' : Carries p') :
    Carries (if b = true then p else p') := by
  cases b with
  | true => exact hp
  | false => exact hp'

/-- What is read after a look at the text that does not see its gaps. -/
theorem Carries.look {f : List Char → Phrase β} (hf : ∀ t, Carries (f t))
    (hlook : ∀ {s s'}, Respaced .outside s s' → f s = f s') : Carries (Reader.look >>= f) := by
  intro s s' b r hs h
  obtain ⟨_, _, hl, hb⟩ := Reader.gives_bind.mp h
  obtain ⟨rfl, rfl⟩ := Reader.gives_look.mp hl
  obtain ⟨r', hb', hr⟩ := hf s s hs hb
  rw [hlook hs] at hb'
  exact ⟨r', Reader.gives_bind.mpr ⟨s', s', Reader.gives_look.mpr ⟨rfl, rfl⟩, hb'⟩, hr⟩

/-! ## Words, marks and names -/

theorem carries_skipBlanks : Carries skipBlanks := by
  intro s s' a r hs h
  rw [gives_skipBlanks] at h
  subst h
  exact ⟨_, gives_skipBlanks.mpr rfl, hs.trim⟩

theorem carries_eatWord (k : String) : Carries (eatWord k) := by
  intro s s' b r hs h
  rcases gives_eatWord.mp h with ⟨ha, rfl⟩ | ⟨hn, rfl, rfl⟩
  · obtain ⟨r', ha', hr⟩ := hs.after?_some ha
    exact ⟨r', gives_eatWord.mpr (Or.inl ⟨ha', rfl⟩), hr⟩
  · exact ⟨s', gives_eatWord.mpr (Or.inr ⟨hs.after?_none hn, rfl, rfl⟩), hs⟩

/-- A keyword is found whatever the blanks in front of it. -/
theorem carries_keyword (k : String) : Carries (keyword k) := by
  intro s s' a r hs h
  obtain ⟨r', ha, hr⟩ := hs.after?_some (gives_keyword.mp h)
  exact ⟨r', gives_keyword.mpr ha, hr⟩

/-- A mark is found whatever the blanks in front of it. -/
theorem carries_mark {m : String} (hm : m.toList.all isOrdinary = true) : Carries (mark m) := by
  intro s s' a r hs h
  have ht := hs.trim
  rw [gives_mark.mp h] at ht
  obtain ⟨r', hs', hr⟩ := ht.front hm
  exact ⟨r', gives_mark.mpr hs', hr⟩

theorem carries_identifier : Carries identifier := by
  intro s s' n r hs h
  obtain ⟨w, hw, hn⟩ := gives_identifier.mp h
  obtain ⟨r', hw', hr⟩ := hs.wordAhead?_some hw
  exact ⟨r', gives_identifier.mpr ⟨w, hw', hn⟩, hr⟩

/-- A name holds no blanks. -/
theorem carries_fieldName : Carries fieldName := by
  intro s s' n r hs h
  obtain ⟨w, q, hw, rfl, hn⟩ := gives_fieldName.mp h
  obtain ⟨q', hw', hq⟩ := hs.wordAhead?_some hw
  obtain ⟨hvalue, hrest⟩ := hq.dotted
  rw [hvalue] at hn
  exact ⟨_, gives_fieldName.mpr ⟨w, q', hw', rfl, hn⟩, hrest⟩

theorem carries_datasetName : Carries datasetName := by
  intro s s' n r hs h
  obtain ⟨r', hn, hr⟩ := carries_fieldName s hs (gives_datasetName.mp h)
  exact ⟨r', gives_datasetName.mpr hn, hr⟩

theorem carries_digits : Carries (Reader.takeWhile isDigit : Phrase (List Char)) := by
  intro s s' ds r hs h
  obtain ⟨rfl, rfl⟩ := Reader.gives_takeWhile.mp h
  obtain ⟨htake, hdrop⟩ := hs.span fun _ => isOrdinary_of_isDigit
  exact ⟨_, Reader.gives_takeWhile.mpr ⟨htake.symm, rfl⟩, hdrop⟩

/-- A whole number holds no blanks. -/
theorem carries_integer : Carries integer :=
  carries_skipBlanks.bind fun _ => carries_digits.refine

/-! ## Lists -/

/-- A comma is in front, blanks before it skipped. -/
def AtComma (s : List Char) : Prop :=
  ∃ t, trim s = ',' :: t

/-- What the reader takes off a text does not depend on gaps, unless it stops in front of a
comma. -/
def CarriesOrStops (p : Phrase α) : Prop :=
  ∀ ⦃s s' : List Char⦄ ⦃a : α⦄ ⦃r : List Char⦄, Respaced .outside s s' → (p s).Gives a r →
    (∃ r', (p s').Gives a r' ∧ Respaced .outside r r') ∨ AtComma r

/-- The reader gives nothing in front of a comma. -/
def RefusesComma (p : Phrase α) : Prop :=
  ∀ ⦃s : List Char⦄ ⦃a : α⦄ ⦃r : List Char⦄, AtComma s → ¬ (p s).Gives a r

/-- A reader that never sees the blanks may do without stopping. -/
theorem Carries.orStops (hp : Carries p) : CarriesOrStops p :=
  fun s _ _ _ hs h => Or.inl (hp s hs h)

/-- A list that stops in front of a comma does not go unnoticed. -/
theorem CarriesOrStops.bind {f : α → Phrase β} (hp : CarriesOrStops p) (hf : ∀ a, Carries (f a))
    (hr : ∀ a, RefusesComma (f a)) : Carries (p >>= f) := by
  intro s s' b r hs h
  obtain ⟨a, q, ha, hb⟩ := Reader.gives_bind.mp h
  rcases hp hs ha with ⟨q', ha', hq⟩ | hcomma
  · obtain ⟨r', hb', hrest⟩ := hf a q hq hb
    exact ⟨r', Reader.gives_bind.mpr ⟨a, q', ha', hb'⟩, hrest⟩
  · exact absurd hb (hr a hcomma)

/-- Mapping what a reader gives changes nothing about gaps. -/
theorem CarriesOrStops.map (hp : CarriesOrStops p) (f : α → β) :
    CarriesOrStops (p >>= fun a => pure (f a)) := by
  intro s s' b r hs h
  obtain ⟨a, q, ha, hb⟩ := Reader.gives_bind.mp h
  obtain ⟨rfl, rfl⟩ := Reader.gives_pure.mp hb
  refine (hp hs ha).imp_left ?_
  rintro ⟨q', ha', hq⟩
  exact ⟨q', Reader.gives_bind.mpr ⟨a, q', ha', Reader.gives_pure.mpr ⟨rfl, rfl⟩⟩, hq⟩

/-- A reader may stop where one in front of it does not. -/
theorem Carries.bind_orStops {f : α → Phrase β} (hp : Carries p)
    (hf : ∀ a, CarriesOrStops (f a)) : CarriesOrStops (p >>= f) := by
  intro s s' b r hs h
  obtain ⟨a, q, ha, hb⟩ := Reader.gives_bind.mp h
  obtain ⟨q', ha', hq⟩ := hp s hs ha
  refine (hf a hq hb).imp_left ?_
  rintro ⟨r', hb', hr⟩
  exact ⟨r', Reader.gives_bind.mpr ⟨a, q', ha', hb'⟩, hr⟩

/-- What refuses a comma in front refuses it before anything else. -/
theorem RefusesComma.bind {f : α → Phrase β} (hp : RefusesComma p) : RefusesComma (p >>= f) := by
  intro s b r hs h
  obtain ⟨a, q, ha, -⟩ := Reader.gives_bind.mp h
  exact hp hs ha

theorem refusesComma_pure_bind {a : α} {f : α → Phrase β} (hf : RefusesComma (f a)) :
    RefusesComma (pure a >>= f) := by
  intro s b r hs h
  obtain ⟨_, _, ha, hb⟩ := Reader.gives_bind.mp h
  obtain ⟨rfl, rfl⟩ := Reader.gives_pure.mp ha
  exact hf hs hb

/-- Where a closing parenthesis is due there is no comma. -/
theorem refusesComma_close : RefusesComma (mark ")") := by
  rintro s a r ⟨t, ht⟩ h
  have hclose : trim s = ')' :: r := gives_mark.mp h
  rw [ht] at hclose
  cases hclose

/-- No word is in front of a comma. -/
theorem AtComma.wordAhead? (hs : AtComma s) : wordAhead? s = none := by
  obtain ⟨t, ht⟩ := hs
  rw [Lexeme.wordAhead?, ht]
  exact if_neg (by decide)

theorem refusesComma_eatWord {k : String} {f : Bool → Phrase β} (hf : RefusesComma (f false)) :
    RefusesComma (eatWord k >>= f) := by
  intro s b r hs h
  obtain ⟨x, q, hx, hb⟩ := Reader.gives_bind.mp h
  rcases gives_eatWord.mp hx with ⟨ha, -⟩ | ⟨-, rfl, rfl⟩
  · rw [after?, hs.wordAhead?] at ha
    cases ha
  · exact hf hs hb

/-- Items behind separators are read off both texts where the separators stand in both, unless they
stop at a place `Q`. -/
theorem Lexeme.Repeats.respaced {sep : List Char → Option (List Char)} {l : List α}
    {Q : List Char → Prop} (h : Repeats sep p s l r) (hp : Carries p)
    (hsep : ∀ {s s'}, Respaced .outside s s' → (sep s = none ∧ (sep s' = none ∨ Q s)) ∨
      ∃ t t', sep s = some t ∧ sep s' = some t' ∧ Respaced .outside t t')
    (hs : Respaced .outside s s') :
    (∃ r', Repeats sep p s' l r' ∧ Respaced .outside r r') ∨ Q r := by
  induction h generalizing s' with
  | stop h =>
    rcases hsep hs with ⟨-, hn | hq⟩ | ⟨t, t', ht, -⟩
    · exact Or.inl ⟨s', .stop hn, hs⟩
    · exact Or.inr hq
    · rw [h] at ht
      cases ht
  | next h ha _ ih =>
    rcases hsep hs with ⟨hn, -⟩ | ⟨t, t', ht, ht', hrest⟩
    · rw [h] at hn
      cases hn
    · obtain rfl := Option.some.inj (h.symm.trans ht)
      obtain ⟨q', ha', hq⟩ := hp _ hrest ha
      refine (ih hq).imp_left ?_
      rintro ⟨r', hl, hr⟩
      exact ⟨r', .next ht' ha' hl, hr⟩

/-- Items behind separators that stand in both texts or in none are read off both. -/
theorem Lexeme.Repeats.respaced_all {sep : List Char → Option (List Char)} {l : List α}
    (h : Repeats sep p s l r) (hp : Carries p)
    (hsep : ∀ {s s'}, Respaced .outside s s' → (sep s = none ∧ sep s' = none) ∨
      ∃ t t', sep s = some t ∧ sep s' = some t' ∧ Respaced .outside t t')
    (hs : Respaced .outside s s') : ∃ r', Repeats sep p s' l r' ∧ Respaced .outside r r' := by
  refine (h.respaced (Q := fun _ => False) hp (fun hs => ?_) hs).resolve_right id
  exact (hsep hs).imp_left (And.imp_right Or.inl)

/-- A list does not see the blanks, as long as what follows it is no comma. -/
theorem Carries.listOf (hp : Carries p) : CarriesOrStops (listOf p) := by
  intro s s' l r hs h
  obtain ⟨a, q, l', ha, hl, rfl⟩ := gives_listOf.mp h
  obtain ⟨q', ha', hq⟩ := hp s hs ha
  refine (hl.respaced (Q := AtComma) hp Respaced.commaAfterGap hq).imp_left ?_
  rintro ⟨r', hl', hr⟩
  exact ⟨r', gives_listOf.mpr ⟨a, q', l', ha', hl', rfl⟩, hr⟩

/-! ## Items -/

/-- A sort key does not see the blanks. -/
theorem carries_orderItem : Carries OrderItem.read := by
  unfold OrderItem.read
  refine carries_fieldName.bind fun _ => ?_
  refine (carries_eatWord _).bind fun _ => carries_ite (carries_pure _) ?_
  refine (carries_eatWord _).bind fun _ => carries_ite (carries_pure _) ?_
  refine (carries_eatWord _).bind fun _ => carries_ite (carries_pure _) ?_
  exact (carries_eatWord _).bind fun _ => carries_ite (carries_pure _) (carries_pure _)

/-- A list of fields is read alike in other gaps, or stops in front of a comma. -/
theorem carriesOrStops_fieldList : CarriesOrStops fieldList :=
  carries_fieldName.listOf

/-- A list of sort keys is read alike in other gaps, or stops in front of a comma. -/
theorem carriesOrStops_orderList : CarriesOrStops orderList :=
  carries_orderItem.listOf

/-- The parentheses behind `over` do not see the blanks. -/
theorem carries_overClause : Carries Item.overClause := by
  unfold Item.overClause
  refine (carries_mark (by decide)).bind fun _ => ?_
  -- From the back: the closing parenthesis, the sort keys before it, the partition keys before
  -- them. What follows a list takes no comma.
  have hclose : ∀ p o, Carries (do mark ")"; pure (p, o) : Phrase (List String × List OrderItem)) :=
    fun _ _ => (carries_mark (by decide)).bind fun _ => carries_pure _
  have hrefuses : ∀ p o, RefusesComma (do
      mark ")"
      pure (p, o) : Phrase (List String × List OrderItem)) :=
    fun _ _ => refusesComma_close.bind
  have horder : ∀ p, Carries (do
      let o ← if (← eatWord "order") then do
          keyword "by"
          orderList
        else pure []
      mark ")"
      pure (p, o) : Phrase (List String × List OrderItem)) := by
    intro p
    refine (carries_eatWord _).bind fun _ => carries_ite ?_ ?_
    · refine (carries_keyword _).bind fun _ => ?_
      exact carriesOrStops_orderList.bind (hclose p) (hrefuses p)
    · exact (carries_pure _).bind (hclose p)
  refine (carries_eatWord _).bind fun _ => carries_ite ?_ ?_
  · refine (carries_keyword _).bind fun _ => carriesOrStops_fieldList.bind horder fun p => ?_
    refine refusesComma_eatWord ?_
    rw [if_neg Bool.false_ne_true]
    exact refusesComma_pure_bind (hrefuses p [])
  · exact (carries_pure _).bind horder

/-- An item does not see the blanks. -/
theorem carries_item : Carries Item.read := by
  unfold Item.read
  refine carries_skipBlanks.bind fun _ => Expr.carries_read.refine.bind fun item => ?_
  cases item with
  | window f e p o =>
    refine (carries_eatWord _).bind fun _ => carries_ite ?_ (carries_pure _)
    exact carries_overClause.bind fun _ => carries_pure _
  | aggregate f e => exact carries_pure _
  | calculate e => exact carries_pure _

/-- A required alias is read alike in other gaps. -/
theorem carries_requiredAlias : Carries requiredAlias := by
  unfold requiredAlias
  refine carries_skipBlanks.bind fun _ => (carries_eatWord _).bind fun _ => ?_
  exact carries_ite carries_identifier (carries_expected _)

/-- A named operation is read alike in other gaps. -/
theorem carries_operation : Carries Operation.read := by
  unfold Operation.read
  exact carries_item.bind fun _ => carries_requiredAlias.bind fun _ => carries_pure _

/-! ## Words of a text -/

/-- A run of characters that are all blanks or all none stands apart from what follows it. -/
theorem splitBy_run {x : Bool} (hw : ∀ c ∈ w, isBlank c = x) (hne : w ≠ [])
    (hq : ∀ c ∈ q.head?, isBlank c = !x) :
    ((w ++ q).splitBy fun a b => isBlank a == isBlank b) =
      w :: q.splitBy fun a b => isBlank a == isBlank b := by
  have hrun : w.splitBy (fun a b => isBlank a == isBlank b) = [w] := by
    refine List.splitBy_of_isChain hne ?_
    refine List.Pairwise.isChain (List.pairwise_iff_forall_sublist.mpr ?_)
    intro a b hab
    rw [hw a (hab.subset List.mem_cons_self),
      hw b (hab.subset (List.mem_cons_of_mem a List.mem_cons_self)), beq_self_eq_true]
  rw [List.splitBy_append, hrun, List.singleton_append]
  intro a ha c hc
  rw [hw a (List.mem_of_mem_getLast? ha), hq c hc]
  cases x <;> rfl

/-- A word in front of blanks is the first of the words. -/
theorem words_of_word (hw : ∀ c ∈ w, isBlank c = false) (hne : w ≠ [])
    (hq : ∀ c ∈ q.head?, isBlank c = true) : words (w ++ q) = w :: words q := by
  have hkeep : w.any isBlank = false := by
    rw [List.any_eq_false]
    intro c hc
    rw [hw c hc]
    exact Bool.false_ne_true
  rw [words, splitBy_run hw hne hq, List.filter_cons, hkeep]
  rfl

/-- Blanks in front are between words. -/
theorem words_of_blanks (hb : ∀ c ∈ b, isBlank c = true) (hq : ∀ c ∈ q.head?, isBlank c = false) :
    words (b ++ q) = words q := by
  cases b with
  | nil => rfl
  | cons c b =>
    have hdrop : (c :: b).any isBlank = true := by
      rw [List.any_cons, hb c List.mem_cons_self, Bool.true_or]
    rw [words, splitBy_run hb (List.cons_ne_nil c b) hq, List.filter_cons, hdrop]
    rfl

/-- Blanks in front of a text are in no word. -/
theorem words_trim (s : List Char) : words (trim s) = words s := by
  have h := words_of_blanks (b := s.takeWhile isBlank) (q := trim s)
    (List.all_eq_true.mp List.all_takeWhile) (fun c hc => by
      obtain ⟨t, ht⟩ := List.head?_eq_some_iff.mp hc
      exact not_isBlank_of_trim ht)
  rw [trim, List.takeWhile_append_dropWhile] at h
  exact h.symm

/-- A text without blanks in front starts with a word. -/
theorem exists_word (h : trim s = c :: t) : ∃ u v, c :: t = u ++ v ∧ u ≠ [] ∧
    (∀ d ∈ u, isBlank d = false) ∧ (∀ d ∈ v.head?, isBlank d = true) ∧ v.length < s.length := by
  have hc : (!isBlank c) = true := by rw [not_isBlank_of_trim h, Bool.not_false]
  refine ⟨(c :: t).takeWhile (!isBlank ·), (c :: t).dropWhile (!isBlank ·), ?_, ?_, ?_, ?_, ?_⟩
  · exact List.takeWhile_append_dropWhile.symm
  · rw [List.takeWhile_cons_of_pos (p := fun d => !isBlank d) hc]
    exact List.cons_ne_nil _ _
  · intro d hd
    have := List.all_eq_true.mp List.all_takeWhile d hd
    rwa [Bool.not_eq_true'] at this
  · intro d hd
    have := List.head?_dropWhile_not (!isBlank ·) (c :: t)
    rw [Option.mem_def.mp hd] at this
    simpa using this
  · rw [List.dropWhile_cons_of_pos (p := fun d => !isBlank d) hc]
    exact Nat.lt_of_le_of_lt (List.dropWhile_suffix _).length_le (length_lt_of_trim h)

/-- Blanks part words. -/
theorem words_append_blanks (hb : ∀ c ∈ b, isBlank c = true) (hne : b ≠ []) :
    words (s ++ (b ++ q)) = words s ++ words q := by
  -- The recursion goes from word to word of the text in front.
  induction hl : s.length using Nat.strongRecOn generalizing s with
  | ind n ih =>
    subst hl
    rw [← words_trim, ← words_trim s, trim_append]
    cases hs : trim s with
    | nil =>
      have hblanks : trim (b ++ q) = trim q := List.dropWhile_append_of_pos hb
      rw [glue_nil, hblanks, words_trim]
      rfl
    | cons c t =>
      obtain ⟨u, v, huv, hne', hu, hv, hlt⟩ := exists_word hs
      have hparted : ∀ d ∈ (v ++ (b ++ q)).head?, isBlank d = true := by
        cases v with
        | nil =>
          obtain ⟨d, b', rfl⟩ := List.exists_cons_of_ne_nil hne
          simpa using hb d List.mem_cons_self
        | cons d v => exact hv
      rw [glue_cons, ← List.cons_append, huv, List.append_assoc, words_of_word hu hne' hparted,
        words_of_word hu hne' hv, ih v.length hlt rfl, List.cons_append]

/-- Wherever the one text stands, the other one would leave the same words. -/
def SameWords (u u' : List Char) : Prop :=
  ∀ p q, words (p ++ (u ++ q)) = words (p ++ (u' ++ q))

theorem SameWords.refl (u : List Char) : SameWords u u :=
  fun _ _ => rfl

/-- Texts with the same words can be put one behind the other. -/
theorem SameWords.append {u u' v v' : List Char} (hu : SameWords u u') (hv : SameWords v v') :
    SameWords (u ++ v) (u' ++ v') := by
  intro p q
  have hleft := hu p (v ++ q)
  have hright := hv (p ++ u') q
  rw [List.append_assoc, List.append_assoc] at hright
  rw [List.append_assoc, hleft, hright, List.append_assoc]

/-- Texts that differ in their blanks only have the same words. -/
theorem SameWords.words_eq {u u' : List Char} (h : SameWords u u') : words u = words u' := by
  have := h [] []
  rwa [List.nil_append, List.nil_append, List.append_nil, List.append_nil] at this

/-- The blanks in front leave the same words. -/
theorem Respaced.sameWords_blanks (h : Respaced .outside s s') :
    SameWords (s.takeWhile isBlank) (s'.takeWhile isBlank) := by
  intro p q
  have hblank : ∀ u : List Char, ∀ c ∈ u.takeWhile isBlank, isBlank c = true :=
    fun _ => List.all_eq_true.mp List.all_takeWhile
  have hempty : s.takeWhile isBlank = [] ↔ s'.takeWhile isBlank = [] := by
    rcases h.cases_front with ⟨rfl, rfl⟩ | ⟨g, t, g', t', hg, hg', rfl, rfl⟩ |
      ⟨c, t, t', -, rfl, rfl, -⟩
    · exact Iff.rfl
    · rw [List.takeWhile_cons_of_pos (Token.isBlank_of_isGap hg),
        List.takeWhile_cons_of_pos (Token.isBlank_of_isGap hg')]
      exact iff_of_false (List.cons_ne_nil _ _) (List.cons_ne_nil _ _)
    · rw [List.takeWhile_cons, List.takeWhile_cons]
      split
      · exact iff_of_false (List.cons_ne_nil _ _) (List.cons_ne_nil _ _)
      · exact Iff.rfl
  by_cases hne : s.takeWhile isBlank = []
  · rw [hne, hempty.mp hne]
  · rw [words_append_blanks (hblank s) hne, words_append_blanks (hblank s') (mt hempty.mpr hne)]

/-! ## Periods -/

/-- What the reader takes off a text does not depend on gaps, and neither do the words of what it
takes. -/
def CarriesWords (p : Phrase α) : Prop :=
  ∀ ⦃s s' : List Char⦄ ⦃a : α⦄ ⦃r : List Char⦄, Respaced .outside s s' → (p s).Gives a r →
    ∃ u u' r', (p s').Gives a r' ∧ Respaced .outside r r' ∧ u ++ r = s ∧ u' ++ r' = s' ∧
      SameWords u u'

theorem carriesWords_pure (a : α) : CarriesWords (pure a : Phrase α) := by
  intro s s' b r hs h
  obtain ⟨rfl, rfl⟩ := Reader.gives_pure.mp h
  exact ⟨[], [], s', Reader.gives_pure.mpr ⟨rfl, rfl⟩, hs, rfl, rfl, .refl []⟩

/-- Readers that keep the words they take can be put one behind the other. -/
theorem CarriesWords.bind {f : α → Phrase β} (hp : CarriesWords p) (hf : ∀ a, CarriesWords (f a)) :
    CarriesWords (p >>= f) := by
  intro s s' b r hs h
  obtain ⟨a, q, ha, hb⟩ := Reader.gives_bind.mp h
  obtain ⟨u, u', q', ha', hq, rfl, rfl, hu⟩ := hp hs ha
  obtain ⟨v, v', r', hb', hr, rfl, rfl, hv⟩ := hf a hq hb
  exact ⟨u ++ v, u' ++ v', r', Reader.gives_bind.mpr ⟨a, _, ha', hb'⟩, hr,
    List.append_assoc u v r, List.append_assoc u' v' r', hu.append hv⟩

/-- Checking what a reader gives changes nothing about its words. -/
theorem CarriesWords.refine {f : α → Except Cause β} (hp : CarriesWords p) :
    CarriesWords (p.refine f) := by
  intro s s' b r hs h
  obtain ⟨a, ha, hf⟩ := Reader.gives_refine.mp h
  obtain ⟨u, u', r', ha', hrest⟩ := hp hs ha
  exact ⟨u, u', r', Reader.gives_refine.mpr ⟨a, ha', hf⟩, hrest⟩

theorem carriesWords_skipBlanks : CarriesWords skipBlanks := by
  intro s s' a r hs h
  rw [gives_skipBlanks] at h
  subst h
  exact ⟨_, _, _, gives_skipBlanks.mpr rfl, hs.trim, List.takeWhile_append_dropWhile,
    List.takeWhile_append_dropWhile, hs.sameWords_blanks⟩

theorem carriesWords_digits : CarriesWords (Reader.takeWhile isDigit : Phrase (List Char)) := by
  intro s s' ds r hs h
  obtain ⟨r', h', hr⟩ := carries_digits s hs h
  obtain ⟨rfl, rfl⟩ := Reader.gives_takeWhile.mp h
  obtain ⟨htake, rfl⟩ := Reader.gives_takeWhile.mp h'
  refine ⟨_, _, _, h', hr, List.takeWhile_append_dropWhile, List.takeWhile_append_dropWhile, ?_⟩
  rw [htake]
  exact .refl _

/-- An amount is read alike in other gaps, with the same words. -/
theorem carriesWords_integer : CarriesWords integer :=
  carriesWords_skipBlanks.bind fun _ => carriesWords_digits.refine

/-- What the reader keeps of its text has the same words. -/
theorem exists_of_withText {a : α} {u : List Char} (hp : CarriesWords p)
    (hs : Respaced .outside s s') (h : (p.withText s).Gives (a, u) r) :
    ∃ u' r', (p.withText s').Gives (a, u') r' ∧ Respaced .outside r r' ∧ words u = words u' := by
  rw [Reader.gives_withText] at h
  obtain ⟨v, v', r', ha, hr, hv, hv', hwords⟩ := hp hs h.1
  obtain rfl := List.append_cancel_right (h.2.trans hv.symm)
  exact ⟨v', r', Reader.gives_withText.mpr ⟨ha, hv'⟩, hr, hwords.words_eq⟩

namespace Period

/-- Special words are kept as they are. -/
theorem carriesWords_ofWord (f : List Char → Option α) (e : Expected) :
    CarriesWords (ofWord f e) := by
  intro s s' a r hs h
  obtain ⟨w, hw, ha⟩ := gives_ofWord.mp h
  obtain ⟨r', hw', hr⟩ := hs.wordAhead?_some hw
  refine ⟨s.takeWhile isBlank ++ w, s'.takeWhile isBlank ++ w, r',
    gives_ofWord.mpr ⟨w, hw', ha⟩, hr, ?_, ?_, hs.sameWords_blanks.append (.refl w)⟩
  · rw [List.append_assoc, ← append_wordAhead? hw]
    exact List.takeWhile_append_dropWhile
  · rw [List.append_assoc, ← append_wordAhead? hw']
    exact List.takeWhile_append_dropWhile

/-- Whether a digit follows does not depend on the blanks. -/
theorem looksAhead_startsNumber : LooksAhead fun s => s.head?.any isDigit where
  two _ _ _ := rfl
  gap c t hc := by
    rcases Token.eq_of_isGap hc with rfl | rfl | rfl | rfl | rfl <;> rfl
  beforeGap _ _ _ _ := rfl

/-- The number of units is kept as it is. -/
theorem carriesWords_readAmount (a : Alignment) : CarriesWords (readAmount a) := by
  unfold readAmount
  refine carriesWords_skipBlanks.bind fun _ => ?_
  intro s s' n r hs h
  obtain ⟨_, _, hl, h⟩ := Reader.gives_bind.mp h
  obtain ⟨rfl, rfl⟩ := Reader.gives_look.mp hl
  have hinner : CarriesWords (if a ≠ .toDate ∧ s.head?.any isDigit then do
      let n ← integer
      if 1 ≤ n ∧ n ≤ maxAmount then pure n else expected .periodLength
    else pure 1 : Phrase Nat) := by
    split
    · refine carriesWords_integer.bind fun n => ?_
      split
      · exact carriesWords_pure n
      · exact fun _ _ _ _ _ h => absurd h not_gives_expected
    · exact carriesWords_pure 1
  obtain ⟨u, u', r', h', hrest⟩ := hinner hs h
  rw [looksAhead_startsNumber.eq hs] at h'
  exact ⟨u, u', r', Reader.gives_bind.mpr ⟨s', s', Reader.gives_look.mpr ⟨rfl, rfl⟩, h'⟩, hrest⟩

/-- **A period keeps its phrase whatever the gaps in it are.** -/
theorem carries_read : Carries Period.read := by
  have hphrase : CarriesWords (do
      let alignment ← readAnchor
      let amount ← readAmount alignment
      let unit ← readUnit
      pure (alignment, amount, unit) : Phrase (Alignment × Nat × TimeUnit)) := by
    rw [readAnchor_eq, readUnit_eq]
    refine (carriesWords_ofWord _ _).bind fun a => (carriesWords_readAmount a).bind fun _ => ?_
    exact (carriesWords_ofWord _ _).bind fun _ => carriesWords_pure _
  have hfield : ∀ f : String → Period, Carries (do
      let field ← if (← eatWord "using") then fieldName else pure defaultField
      pure (f field) : Phrase Period) := by
    intro f
    refine (carries_eatWord _).bind fun _ => carries_ite ?_ ?_
    · exact carries_fieldName.bind fun _ => carries_pure _
    · exact (carries_pure _).bind fun _ => carries_pure _
  unfold Period.read
  refine carries_skipBlanks.bind fun _ => ?_
  intro s s' x r hs h
  obtain ⟨⟨⟨a, n, unit⟩, text⟩, q, hq, h⟩ := Reader.gives_bind.mp h
  obtain ⟨text', q', hq', hrest, hwords⟩ := exists_of_withText hphrase hs hq
  obtain ⟨r', h', hr⟩ := hfield (fun field =>
    ⟨String.ofList (normalizePhrase text), n, unit, a, field⟩) q hrest h
  refine ⟨r', Reader.gives_bind.mpr ⟨((a, n, unit), text'), q', hq', ?_⟩, hr⟩
  rw [normalizePhrase, hwords, ← normalizePhrase] at h'
  exact h'

end Period

end DataPhrase
