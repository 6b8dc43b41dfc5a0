/-
# Where a period is written

The period of a statement is read from a phrase of its text: an anchor word, digits if there is a
number, and a unit. The phrase stands outside of literals and as whole words (`isIn_of_parse`), and
blanks have to stand behind the anchor only: the unit can follow its number at once.
-/
import DataPhrase.Proofs.Statement.Following
import DataPhrase.Proofs.Statement.Parse
import DataPhrase.Proofs.Token.Masked

namespace DataPhrase

open Text Lexeme Token

variable {α : Type} {p : Period} {c : Char} {s t r q v w : List Char}

/-! ## Blanks and the ends of words -/

/-- No blank goes on with a word. -/
theorem not_inWord_of_isBlank (h : isBlank c = true) : inWord (some c) = false := by
  have := forall_isBlank (p := fun c => !(isAnyDigit c || c == '_' ||
    (decide (0x80 ≤ c.toNat) && (inRuns markRuns c.toNat || inRuns connectorRuns c.toNat ||
      c.toNat == 0x200C || c.toNat == 0x200D)))) (by decide +kernel) h
  rw [Bool.not_eq_true'] at this
  rw [inWord, isWordChar, not_isLetter_of_isBlank h, Bool.false_or, this]

/-- Behind a word, blanks stand in front of the next word or number. -/
theorem takeWhile_ne_nil (hs : NameEnds s) (ht : ∃ c ∈ (trim s).head?, isNameChar c = true) :
    s.takeWhile isBlank ≠ [] := by
  intro hnil
  have hs' := takeWhile_append_trim s
  rw [hnil, List.nil_append] at hs'
  obtain ⟨c, hc, hname⟩ := ht
  rw [hs'] at hc
  rw [hs c hc] at hname
  cases hname

/-- Nothing is ahead, or a word, or the parenthesis that closes a stage. -/
def Halts (s : List Char) : Prop :=
  trim s = [] ∨ (∃ x, wordAhead? s = some x) ∨ ∃ t, trim s = ')' :: t

/-- Where a name ends and the text goes on like this, no word goes on. -/
theorem Halts.inWord_eq (h : Halts s) (hs : NameEnds s) : inWord s.head? = false := by
  cases s with
  | nil => rfl
  | cons c s =>
    cases hc : isBlank c with
    | true => exact not_inWord_of_isBlank hc
    | false =>
      have htrim := trim_cons_of_not_isBlank (s := s) hc
      rcases h with h | ⟨⟨w, q⟩, hw⟩ | ⟨t, h⟩
      · rw [htrim] at h
        cases h
      · have hname : isNameChar c = true := by
          have htext := append_wordAhead? hw
          obtain ⟨d, w, rfl⟩ := List.exists_cons_of_ne_nil (ne_nil_of_wordAhead? hw)
          rw [htrim] at htext
          obtain rfl := (List.cons.inj htext).1
          exact isNameChar_of_wordAhead? hw List.mem_cons_self
        rw [hs c rfl] at hname
        cases hname
      · rw [htrim] at h
        obtain rfl := (List.cons.inj h).1
        show isWordChar ')' = false
        decide

/-! ## The phrase of a period -/

namespace Period

/-- The period is written as these characters: an anchor word, blanks, digits and blanks if there is
a number, and the word of a unit. -/
inductive IsWritten (p : Period) : List Char → Prop
  | mk {anchor gap digits blanks unit : List Char}
      (hanchor : anchor? anchor = some p.alignment) (hsolid : ∀ c ∈ anchor, isNameChar c = true)
      (hgap : gap ≠ []) (hblank : ∀ c ∈ gap, isBlank c = true)
      (hdigits : ∀ c ∈ digits, isDigit c = true) (hblanks : ∀ c ∈ blanks, isBlank c = true)
      (hnone : digits = [] → blanks = []) (hunit : TimeUnit.ofWord? unit = some p.unit)
      (hphrase : p.phrase = String.ofList
        (normalizePhrase (anchor ++ (gap ++ (digits ++ (blanks ++ unit)))))) :
      IsWritten p (anchor ++ (gap ++ (digits ++ (blanks ++ unit))))

/-- The number of units is read from digits, behind blanks. -/
theorem digits_of_readAmount {a : Alignment} {n : Nat} (h : (readAmount a s).Gives n r) :
    ∃ ds, trim s = ds ++ r ∧ ∀ c ∈ ds, isDigit c = true := by
  obtain ⟨_, _, htrim, h⟩ := Reader.gives_bind.mp h
  rw [gives_skipBlanks] at htrim
  subst htrim
  obtain ⟨_, _, hlook, h⟩ := Reader.gives_bind.mp h
  obtain ⟨rfl, rfl⟩ := Reader.gives_look.mp hlook
  split at h
  · obtain ⟨n, q, hn, h⟩ := Reader.gives_bind.mp h
    obtain ⟨_, _, hskip, hn⟩ := Reader.gives_bind.mp hn
    rw [gives_skipBlanks, trim_trim] at hskip
    subst hskip
    obtain ⟨ds, hds, -⟩ := Reader.gives_refine.mp hn
    obtain ⟨rfl, rfl⟩ := Reader.gives_takeWhile.mp hds
    split at h
    · obtain ⟨-, rfl⟩ := Reader.gives_pure.mp h
      exact ⟨_, List.takeWhile_append_dropWhile.symm, List.all_eq_true.mp List.all_takeWhile⟩
    · exact absurd h not_gives_expected
  · obtain ⟨-, rfl⟩ := Reader.gives_pure.mp h
    exact ⟨[], rfl, List.forall_mem_nil _⟩

/-- The anchor, the number and the unit are read behind one another; the field behind `using` is no
part of the phrase. -/
theorem parts_of_read (h : (read s).Gives p r) : ∃ phrase q n v x, phrase ++ q = trim s ∧
    (ofWord anchor? .timePeriod (trim s)).Gives p.alignment v ∧
    (readAmount p.alignment v).Gives n x ∧ (ofWord TimeUnit.ofWord? .timeUnit x).Gives p.unit q ∧
    p.phrase = String.ofList (normalizePhrase phrase) ∧
    (q = r ∨ ∃ y, after? "using" q = some y) := by
  obtain ⟨_, _, htrim, h⟩ := Reader.gives_bind.mp h
  rw [gives_skipBlanks] at htrim
  subst htrim
  obtain ⟨⟨⟨alignment, n, unit⟩, phrase⟩, _, hphrase, h⟩ := Reader.gives_bind.mp h
  obtain ⟨hlength, htext⟩ := Reader.gives_withText.mp hphrase
  obtain ⟨_, v, hanchor, hlength⟩ := Reader.gives_bind.mp hlength
  obtain ⟨_, x, hn, hlength⟩ := Reader.gives_bind.mp hlength
  obtain ⟨_, q, hunit, hlength⟩ := Reader.gives_bind.mp hlength
  obtain ⟨he, rfl⟩ := Reader.gives_pure.mp hlength
  cases he
  rw [readAnchor_eq] at hanchor
  rw [readUnit_eq] at hunit
  obtain ⟨b, y, hb, h⟩ := Reader.gives_bind.mp h
  rcases gives_eatWord.mp hb with ⟨husing, rfl⟩ | ⟨-, rfl, rfl⟩
  · rw [if_pos rfl] at h
    obtain ⟨field, _, -, h⟩ := Reader.gives_bind.mp h
    obtain ⟨rfl, -⟩ := Reader.gives_pure.mp h
    exact ⟨phrase, q, n, v, x, htext, hanchor, hn, hunit, rfl, Or.inr ⟨y, husing⟩⟩
  · rw [if_neg Bool.false_ne_true] at h
    obtain ⟨field, _, hfield, h⟩ := Reader.gives_bind.mp h
    obtain ⟨-, rfl⟩ := Reader.gives_pure.mp hfield
    obtain ⟨rfl, rfl⟩ := Reader.gives_pure.mp h
    exact ⟨phrase, q, n, v, x, htext, hanchor, hn, hunit, rfl, Or.inl rfl⟩

/-- **A period is read from a phrase behind blanks**, and no word goes on behind the phrase. -/
theorem isWritten_of_read (h : (read s).Gives p r) (hr : Halts r) :
    ∃ w t, trim s = w ++ t ∧ p.IsWritten w ∧ inWord t.head? = false := by
  obtain ⟨phrase, q, n, v, x, htext, ha, hn, hu, hphrase, hq⟩ := parts_of_read h
  obtain ⟨anchor, hword, hanchor⟩ := gives_ofWord.mp ha
  obtain ⟨unit, hunitWord, hunit⟩ := gives_ofWord.mp hu
  obtain ⟨digits, htrim, hdigits⟩ := digits_of_readAmount hn
  have hs : trim s = anchor ++ v := by
    rw [← append_wordAhead? hword, trim_trim]
  have hx : x.takeWhile isBlank ++ (unit ++ q) = x := by
    rw [← append_wordAhead? hunitWord, takeWhile_append_trim]
  have hparts :
      phrase = anchor ++ (v.takeWhile isBlank ++ (digits ++ (x.takeWhile isBlank ++ unit))) := by
    have happend : phrase ++ q = anchor ++
        (v.takeWhile isBlank ++ (digits ++ (x.takeWhile isBlank ++ unit))) ++ q :=
      calc phrase ++ q = anchor ++ v := htext.trans hs
        _ = anchor ++
            (v.takeWhile isBlank ++ (digits ++ (x.takeWhile isBlank ++ (unit ++ q)))) := by
          rw [hx, ← htrim, takeWhile_append_trim]
        _ = _ := by simp only [List.append_assoc]
    exact List.append_cancel_right happend
  -- without a number the blanks behind the anchor are all there are
  have hnone : digits = [] → x.takeWhile isBlank = [] := by
    rintro rfl
    rw [List.nil_append] at htrim
    rw [← htrim]
    cases hd : trim v with
    | nil => rfl
    | cons d y =>
      exact List.takeWhile_cons_of_neg (by rw [not_isBlank_of_trim hd]; exact Bool.false_ne_true)
  have hgap : v.takeWhile isBlank ≠ [] := by
    refine takeWhile_ne_nil (nameEnds_of_wordAhead? hword) ?_
    rw [htrim]
    cases digits with
    | cons d ds => exact ⟨d, rfl, isNameChar_of_isDigit (hdigits d List.mem_cons_self)⟩
    | nil =>
      rw [hnone rfl, List.nil_append] at hx
      obtain ⟨d, y, rfl⟩ := List.exists_cons_of_ne_nil (ne_nil_of_wordAhead? hunitWord)
      rw [← hx]
      exact ⟨d, rfl, isNameChar_of_wordAhead? hunitWord List.mem_cons_self⟩
  have hhalts : Halts q := by
    rcases hq with rfl | ⟨y, husing⟩
    · exact hr
    · obtain ⟨k, hk, -⟩ := after?_eq_some.mp husing
      exact Or.inr (Or.inl ⟨_, hk⟩)
  refine ⟨phrase, q, htext.symm, ?_, hhalts.inWord_eq (nameEnds_of_wordAhead? hunitWord)⟩
  rw [hparts] at hphrase ⊢
  exact .mk hanchor (fun c hc => isNameChar_of_wordAhead? hword hc) hgap
    (isBlank_of_mem_takeWhile v) hdigits (isBlank_of_mem_takeWhile x) hnone hunit hphrase

/-! ## Places of a period -/

/-- The period is written in the text, outside of literals and as whole words, behind a
character. -/
def IsIn (s : List Char) (p : Period) : Prop :=
  ∃ a w r, s = a ++ (w ++ r) ∧ p.IsWritten w ∧ ClosesLiterals a ∧
    (∃ c ∈ a.getLast?, isWordChar c = false) ∧ inWord r.head? = false

/-- A period in a tail that starts outside of literals is in the text. -/
theorem IsIn.of_startsOutside (h : IsIn r p) (hs : StartsOutside s r) : IsIn s p := by
  obtain ⟨a, w, t, rfl, hw, ha, ⟨c, hc, hword⟩, ht⟩ := h
  obtain ⟨u, rfl, hu⟩ := hs
  refine ⟨u ++ a, w, t, (List.append_assoc u a _).symm, hw, hu.append ha, ⟨c, ?_, hword⟩, ht⟩
  rw [List.getLast?_append, Option.mem_def.mp hc]
  rfl

/-- A period that is read behind a word is written in what follows the word. -/
theorem isIn_of_word (hs : NameEnds s) (h : (read s).Gives p r) (hr : Halts r) : IsIn s p := by
  obtain ⟨w, t, hw, hwritten, ht⟩ := isWritten_of_read h hr
  have hne : s.takeWhile isBlank ≠ [] := by
    obtain ⟨⟨v, q⟩, hv⟩ := exists_wordAhead?_of_read h
    refine takeWhile_ne_nil hs ?_
    rw [append_wordAhead? hv]
    obtain ⟨d, v, rfl⟩ := List.exists_cons_of_ne_nil (ne_nil_of_wordAhead? hv)
    exact ⟨d, rfl, isNameChar_of_wordAhead? hv List.mem_cons_self⟩
  refine ⟨s.takeWhile isBlank, w, t, ?_, hwritten, .of_plain fun c hc => ?_, ?_, ht⟩
  · rw [← hw, takeWhile_append_trim]
  · exact not_isQuote_of_isBlank (isBlank_of_mem_takeWhile s c hc)
  · refine ⟨_, List.getLast?_eq_some_getLast hne, ?_⟩
    exact not_inWord_of_isBlank (isBlank_of_mem_takeWhile s _ (List.getLast_mem hne))

/-- A period that is read behind a parenthesis is written there. -/
theorem isIn_of_open (h : (read s).Gives p r) (hr : Halts r) : IsIn ('(' :: s) p := by
  obtain ⟨w, t, hw, hwritten, ht⟩ := isWritten_of_read h hr
  have hplain : ∀ c ∈ '(' :: s.takeWhile isBlank, isQuote c = false := by
    refine List.forall_mem_cons.mpr ⟨by decide, fun c hc => ?_⟩
    exact not_isQuote_of_isBlank (isBlank_of_mem_takeWhile s c hc)
  refine ⟨'(' :: s.takeWhile isBlank, w, t, ?_, hwritten, .of_plain hplain, ?_, ht⟩
  · rw [← hw, List.cons_append, takeWhile_append_trim]
  · refine ⟨_, List.getLast?_eq_some_getLast (List.cons_ne_nil _ _), ?_⟩
    rcases List.mem_cons.mp (List.getLast_mem (List.cons_ne_nil '(' (s.takeWhile isBlank)))
      with hlast | hlast
    · rw [hlast]
      decide
    · exact not_inWord_of_isBlank (isBlank_of_mem_takeWhile s _ hlast)

end Period

/-! ## Clauses -/

/-- Where a reader that takes whole pieces stops, one is outside of literals. -/
theorem Spanning.startsOutside {x : Phrase α} (hx : Spanning x) {a : α}
    (h : (x s).Gives a r) : StartsOutside s r := by
  have hr := takeWhile_append_trim r
  rw [← hr]
  refine (hx s a r h).startsOutside.of_append ?_ fun c hc => ?_
  · rw [hr]
    exact h.suffix
  · exact not_isQuote_of_isBlank (isBlank_of_mem_takeWhile r c hc)

/-- What stands behind a word starts outside of literals. -/
theorem startsOutside_of_wordAhead? (h : wordAhead? s = some (w, r)) : StartsOutside s r :=
  (Condition.spans_wordAhead h).startsOutside

namespace ClauseForm

variable {C K A : Type} {f : ClauseForm C K} {d e : C}

/-- Clauses start where the text ends, goes on with a word or closes a stage. -/
theorem Run.halts (h : f.Run d s e) : Halts s := by
  cases h with
  | stop hs => exact Or.inl hs
  | next hw => exact Or.inr (Or.inl ⟨_, hw⟩)

/-- A period that the clauses add is written in their text. -/
theorem Run.isIn [DecidableEq K] (parts : f.Parts A) (hf : ∀ d k, Spanning (f.read d k))
    {get : C → Option Period}
    (hget : ∀ d k a s r, (parts.read k s).Gives a r → get (parts.add d a) = get d ∨
      ∃ p, get (parts.add d a) = some p ∧ (Period.read s).Gives p r)
    (h : f.Run d s e) (hp : get e = some p) : get d = some p ∨ Period.IsIn s p := by
  -- By induction on the run: a period is there already, or the clause in front adds it, or one of
  -- the clauses behind.
  induction h with
  | stop => exact Or.inl hp
  | @next d d' e k s w q u hw hk hc hd h ih =>
    have hq := startsOutside_of_wordAhead? hw
    rcases ih hp with hd' | hin
    · rw [parts.read_eq] at hd
      obtain ⟨a, _, ha, hpure⟩ := Reader.gives_bind.mp hd
      obtain ⟨rfl, rfl⟩ := Reader.gives_pure.mp hpure
      rcases hget d k a _ _ ha with hsame | ⟨p', hp', hread⟩
      · exact Or.inl (hsame.symm.trans hd')
      · rw [hp', Option.some.injEq] at hd'
        subst hd'
        exact Or.inr ((Period.isIn_of_word (nameEnds_of_wordAhead? hw) hread
          h.halts).of_startsOutside hq)
    · exact Or.inr (hin.of_startsOutside (hq.trans ((hf d k).startsOutside hd)))

end ClauseForm

namespace Transform

/-- The period of the clauses changes only by a clause that holds it. -/
theorem Clause.period_add {d : Clauses} {k : ClauseKind} {a : Clause}
    (h : (Clause.read k s).Gives a r) : (d.add a).period = d.period ∨
      ∃ p, (d.add a).period = some p ∧ (Period.read s).Gives p r := by
  have hkind := Clause.yields_kind k s a r h
  cases a with
  | period p =>
    obtain rfl : k = .period := hkind.symm
    obtain ⟨p', _, hp, hpure⟩ := Reader.gives_bind.mp h
    obtain ⟨he, rfl⟩ := Reader.gives_pure.mp hpure
    cases he
    exact Or.inr ⟨p, rfl, hp⟩
  | _ => exact Or.inl rfl

/-- The period of a transform statement is written in its text. -/
theorem isIn_of_read {st : Statement} (h : (read s).Gives st []) (hp : st.period = some p) :
    p.IsIn s := by
  obtain ⟨_, q₁, h₁, h⟩ := Reader.gives_bind.mp h
  obtain ⟨source, q₂, h₂, h⟩ := Reader.gives_bind.mp h
  obtain ⟨_, q₃, h₃, h⟩ := Reader.gives_bind.mp h
  obtain ⟨target, q₄, h₄, h⟩ := Reader.gives_bind.mp h
  obtain ⟨clauses, _, h₅, h⟩ := Reader.gives_bind.mp h
  obtain ⟨rfl, rfl⟩ := Reader.gives_pure.mp h
  have hrun := (Clauses.gives_readAll.mp h₅).1
  have hclauses : clauses.period = some p := hp
  rcases hrun.isIn Clauses.parts Clauses.spanning_readClause
    (fun _ _ _ _ _ => Clause.period_add) hclauses with hnone | hin
  · cases hnone
  · exact hin.of_startsOutside ((((spanning_keyword _).startsOutside h₁).trans
      (spanning_datasetName.startsOutside h₂)).trans (((spanning_keyword _).startsOutside h₃).trans
      (spanning_datasetName.startsOutside h₄)))

end Transform

namespace Question

theorem Clause.period_add {d : Clauses} {k : ClauseKind} {a : Clause}
    (h : (Clause.read k s).Gives a r) : (d.add a).period = d.period ∨
      ∃ p, (d.add a).period = some p ∧ (Period.read s).Gives p r := by
  have hkind := Clause.yields_kind k s a r h
  cases a with
  | period p =>
    obtain rfl : k = .period := hkind.symm
    obtain ⟨p', _, hp, hpure⟩ := Reader.gives_bind.mp h
    obtain ⟨he, rfl⟩ := Reader.gives_pure.mp hpure
    cases he
    exact Or.inr ⟨p, rfl, hp⟩
  | _ => exact Or.inl rfl

/-- What stands behind a limit starts outside of literals. -/
theorem startsOutside_of_limit {limit : Option Nat} (h : GivesLimit s limit r) :
    StartsOutside s r := by
  rcases h with ⟨q, n, hq, hn, -⟩ | ⟨-, -, rfl⟩
  · exact (Condition.spans_after hq).startsOutside.trans (spanning_integer.startsOutside hn)
  · exact ⟨[], rfl, closesLiterals_nil⟩

/-- The period of a question is written in its text. -/
theorem isIn_of_read {st : Statement} (h : (read s).Gives st []) (hp : st.period = some p) :
    p.IsIn s := by
  obtain ⟨q₁, limit, q₂, hverb, hlimit, hbody⟩ := gives_read.mp h
  obtain ⟨first, items, clauses, source, q₃, q₄, hfirst, hitems, hclauses, -, rfl⟩ := hbody
  obtain ⟨w, hw, -⟩ := gives_readVerb.mp hverb
  have hrun := (Clauses.gives_readAll.mp hclauses).1
  have hperiod : clauses.period = some p := hp
  rcases hrun.isIn Clauses.parts Clauses.spanning_readClause
    (fun _ _ _ _ _ => Clause.period_add) hperiod with hnone | hin
  · cases hnone
  · exact hin.of_startsOutside (((startsOutside_of_wordAhead? hw).trans
      (startsOutside_of_limit hlimit)).trans ((spanning_asked.startsOutside hfirst).trans
      (spanning_askedRest.startsOutside hitems)))

end Question

/-! ## Stages -/

namespace Pipeline

/-- What stands in the parentheses of a stage is a period only if a period is read. -/
theorem gives_during {kind : StageKind} (h : (readBody kind s).Gives (.during p) r) :
    (Period.read s).Gives p r := by
  cases kind with
  | during =>
    obtain ⟨p', _, hp, h⟩ := Reader.gives_bind.mp h
    obtain ⟨he, rfl⟩ := Reader.gives_pure.mp h
    cases he
    exact hp
  | join =>
    obtain ⟨_, _, -, h⟩ := Reader.gives_bind.mp h
    obtain ⟨_, _, -, h⟩ := Reader.gives_bind.mp h
    obtain ⟨_, _, -, h⟩ := Reader.gives_bind.mp h
    cases (Reader.gives_pure.mp h).1
  | _ =>
    obtain ⟨_, _, -, h⟩ := Reader.gives_bind.mp h
    cases (Reader.gives_pure.mp h).1

theorem startsOutside_trim (s : List Char) : StartsOutside s (trim s) :=
  spans_trim.startsOutside

/-- A stage that is a period is written in its parentheses. -/
theorem isIn_of_written {x : Written} (h : (written s).Gives x r) (hx : x.body = .during p) :
    p.IsIn s := by
  obtain ⟨_, u, hu, h⟩ := Reader.gives_bind.mp h
  rw [gives_skipBlanks] at hu
  subst hu
  obtain ⟨named, v, hv, h⟩ := Reader.gives_bind.mp h
  obtain ⟨name, y, hy, hv⟩ := Reader.gives_bind.mp hv
  obtain ⟨_, z, hz, hv⟩ := Reader.gives_bind.mp hv
  obtain ⟨rfl, rfl⟩ := Reader.gives_pure.mp hv
  obtain ⟨body, t, hbody, h⟩ := Reader.gives_bind.mp h
  obtain ⟨_, w, hclose, h⟩ := Reader.gives_bind.mp h
  obtain ⟨rfl, rfl⟩ := Reader.gives_pure.mp h
  obtain rfl : body = .during p := hx
  have hname := spanning_identifier.refine.startsOutside hy
  have hopen : trim y = '(' :: z := gives_mark.mp hz
  have hin := Period.isIn_of_open (gives_during hbody) (Or.inr (Or.inr ⟨w, gives_mark.mp hclose⟩))
  exact hin.of_startsOutside (((startsOutside_trim s).trans hname).trans
    (hopen ▸ startsOutside_trim y))

/-- The period of one of the stages is written in their text. -/
theorem isIn_of_writtenStages {ws : List Written} (h : (writtenStages s).Gives ws r)
    (hp : ∃ x ∈ ws, x.body = .during p) : p.IsIn s := by
  induction s using writtenStages.induct generalizing ws r with
  | case1 s t hs _ _ ih =>
    obtain ⟨x, q, ws', hx, hws, rfl⟩ := (gives_writtenStages_arrow hs).mp h
    have harrow : StartsOutside s t := by
      have hplain : StartsOutside ('-' :: '>' :: t) t :=
        startsOutside_of_plain (v := ['-', '>'])
          (List.forall_mem_cons.mpr ⟨by decide, List.forall_mem_singleton.mpr (by decide)⟩)
      exact (startsOutside_trim s).trans (hs ▸ hplain)
    obtain ⟨y, hy, hbody⟩ := hp
    rcases List.mem_cons.mp hy with rfl | hy
    · exact (isIn_of_written hx hbody).of_startsOutside harrow
    · exact (ih q hx.suffix hws ⟨y, hy, hbody⟩).of_startsOutside
        (harrow.trans (spanning_written.startsOutside hx))
  | case2 s hs =>
    obtain ⟨rfl, -⟩ := (gives_writtenStages_end fun t ht => hs t ht).mp h
    obtain ⟨y, hy, -⟩ := hp
    cases hy

/-- The period of a pipeline is that of one of its stages. -/
theorem period_foldl {d : Draft} {ws : List Written}
    (h : (ws.foldl Draft.take d).statement.period = some p) :
    d.statement.period = some p ∨ ∃ x ∈ ws, x.body = .during p := by
  induction ws generalizing d with
  | nil => exact Or.inl h
  | cons x ws ih =>
    rcases ih h with htake | ⟨y, hy, hbody⟩
    · -- the stage in front gave the period: no other kind of stage changes it
      obtain ⟨name, kind, body⟩ := x
      cases body with
      | during p' =>
        have hp : some p' = some p := htake
        obtain rfl := Option.some.inj hp
        exact Or.inr ⟨_, List.mem_cons_self, rfl⟩
      | _ => exact Or.inl htake
    · exact Or.inr ⟨y, List.mem_cons_of_mem x hy, hbody⟩

/-- The period of a pipeline is written in its text. -/
theorem isIn_of_read {st : Statement} (h : (read s).Gives st []) (hp : st.period = some p) :
    p.IsIn s := by
  obtain ⟨source, ws, hstages, -, rfl⟩ := exists_stagesOf? h
  obtain ⟨q, r, hq, hws⟩ := gives_of_stagesOf? hstages
  rcases period_foldl hp with hnone | hx
  · cases hnone
  · exact (isIn_of_writtenStages hws hx).of_startsOutside (spanning_datasetName.startsOutside hq)

end Pipeline

/-- **The period of a statement is written in its text**, outside of literals and as whole words. -/
theorem isIn_of_parse {st : Statement} (h : Statement.parse s = .ok st) (hp : st.period = some p) :
    p.IsIn s := by
  obtain ⟨pattern, tokens, -, hread⟩ := parse_eq_ok.mp h
  cases pattern with
  | transformTo => exact Transform.isIn_of_read hread hp
  | arrowPipeline => exact Pipeline.isIn_of_read hread hp
  | naturalQuery => exact Question.isIn_of_read hread hp

end DataPhrase
