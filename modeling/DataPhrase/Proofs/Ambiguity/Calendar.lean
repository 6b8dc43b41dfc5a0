/-
# Calendar phrases in a text

A calendar phrase is a word such as `last`, blanks, a number with blanks behind it if there is one,
and a unit in the singular or the plural, all in any case. No phrase begins inside another one, so
the scan of a text finds every phrase that stands in it as whole words, each at its place
(`mem_scan`).
-/
import DataPhrase.Ambiguity.Detect
import DataPhrase.Proofs.Reading.Lexeme
import Mathlib.Data.List.Chain
import Mathlib.Data.List.Forall2

namespace DataPhrase

open Text Lexeme

variable {s r a : List Char} {c k : Char} {w : String} {ws : List String}

/-! ## Letters in any case -/

namespace Text

/-- The code points of the ASCII letters, and of the two other characters that fold to one. -/
def letterCodes : List Nat :=
  List.range' 65 26 ++ List.range' 97 26 ++ [0x17F, 0x212A]

/-- What folds to a small ASCII letter is in the list. -/
theorem mem_letterCodes {n : Nat} (h : 97 ≤ foldCode n) (h' : foldCode n ≤ 122) :
    n ∈ letterCodes := by
  have hruns : ∀ r ∈ foldRuns, r.2.2.2 ≤ 122 →
      r ∈ [(0x41, 0x5A, 1, 0x61), (0x17F, 0x17F, 1, 0x73), (0x212A, 0x212A, 1, 0x6B)] := by
    decide +kernel
  have hmem : 65 ≤ n ∧ n < 91 ∨ 97 ≤ n ∧ n < 123 ∨ n = 0x17F ∨ n = 0x212A → n ∈ letterCodes := by
    simp only [letterCodes, List.mem_append, List.mem_range'_1, List.mem_cons, List.not_mem_nil,
      or_false]
    omega
  apply hmem
  unfold foldCode at h h'
  split at h
  · next r hr =>
    simp only [hr] at h'
    have hin := List.find?_some hr
    simp only [Bool.and_eq_true, decide_eq_true_iff] at hin
    have hr := hruns r (List.mem_of_find?_eq_some hr) (by omega)
    simp only [List.mem_cons, List.not_mem_nil, or_false] at hr
    rcases hr with rfl | rfl | rfl <;> dsimp only at h h' hin <;> omega
  · next hr =>
    simp only [hr] at h'
    omega

/-- A small letter is its own folding. -/
theorem foldCode_of_isLower (hk : k.isLower = true) : foldCode k.toNat = k.toNat ∧
    97 ≤ k.toNat ∧ k.toNat ≤ 122 := by
  have hfold : ∀ n ∈ List.range' 97 26, foldCode n = n := by decide +kernel
  have hk : 97 ≤ k.toNat ∧ k.toNat ≤ 122 := by
    obtain ⟨hlow, hhigh⟩ := (Bool.and_eq_true _ _).mp hk
    exact ⟨of_decide_eq_true hlow, of_decide_eq_true hhigh⟩
  exact ⟨hfold _ (List.mem_range'_1.mpr (by omega)), hk⟩

/-- A property of every code point in the list is one of all characters that stand for a small
letter. -/
theorem forall_letter {p : Char → Bool} (hp : ∀ n ∈ letterCodes, p (Char.ofNat n) = true)
    (hk : k.isLower = true) (h : sameFolded k c = true) : p c = true := by
  obtain ⟨hfold, hrange⟩ := foldCode_of_isLower hk
  rw [sameFolded, hfold, beq_iff_eq] at h
  have := hp c.toNat (mem_letterCodes (by omega) (by omega))
  rwa [Char.ofNat_toNat] at this

/-! ## Words in any case -/

/-- The word is written in any case. -/
def Spells (w : String) (s : List Char) : Prop :=
  List.Forall₂ (fun k c => sameFolded k c = true) w.toList s

/-- A word is taken off a text letter by letter, whatever their case. -/
theorem afterFolded_eq_some {w : List Char} : afterFolded w s = some r ↔
    ∃ a, List.Forall₂ (fun k c => sameFolded k c = true) w a ∧ s = a ++ r := by
  induction w generalizing s with
  | nil =>
    rw [afterFolded, Option.some.injEq]
    constructor
    · rintro rfl
      exact ⟨[], .nil, rfl⟩
    · rintro ⟨a, ha, rfl⟩
      cases ha
      rfl
  | cons k w ih =>
    cases s with
    | nil =>
      refine iff_of_false nofun ?_
      rintro ⟨a, ha, hs⟩
      cases ha
      cases hs
    | cons c s =>
      rw [afterFolded]
      split
      · next hc =>
        rw [ih]
        constructor
        · rintro ⟨a, ha, rfl⟩
          exact ⟨c :: a, .cons hc ha, rfl⟩
        · rintro ⟨a, ha, hs⟩
          cases ha with
          | cons hc ha =>
            cases hs
            exact ⟨_, ha, rfl⟩
      · next hc =>
        refine iff_of_false nofun ?_
        rintro ⟨a, ha, hs⟩
        cases ha with
        | cons hc' ha =>
          cases hs
          exact hc hc'

/-- All letters of the word are small ones. -/
def IsSmall (w : String) : Prop :=
  w.toList ≠ [] ∧ ∀ k ∈ w.toList, k.isLower = true

instance (w : String) : Decidable (IsSmall w) :=
  decidable_of_iff (w.toList ≠ [] ∧ w.toList.all Char.isLower = true)
    (by rw [IsSmall, List.all_eq_true])

/-- What holds of all spellings of small letters holds of a spelled word. -/
theorem Spells.forall {p : Char → Bool} (h : Spells w s) (hw : IsSmall w)
    (hp : ∀ n ∈ letterCodes, p (Char.ofNat n) = true) : ∀ c ∈ s, p c = true := by
  obtain ⟨-, hw⟩ := hw
  rw [Spells] at h
  generalize w.toList = w at h hw
  induction h with
  | nil => exact List.forall_mem_nil _
  | cons hc _ ih =>
    rw [List.forall_mem_cons] at hw ⊢
    exact ⟨forall_letter hp hw.1 hc, ih hw.2⟩

/-- What the first character of a text folds to. -/
def front (s : List Char) : Option Nat :=
  s.head?.map fun c => foldCode c.toNat

/-- Every spelling of a word begins with the same folded letter. -/
theorem Spells.front_eq (h : Spells w s) : front s = front w.toList := by
  rw [Spells] at h
  generalize w.toList = w at h
  cases h with
  | nil => rfl
  | cons hc _ => exact congrArg some (beq_iff_eq.mp hc).symm

/-- A spelled word is not empty. -/
theorem Spells.ne_nil (h : Spells w s) (hw : IsSmall w) : s ≠ [] := by
  rintro rfl
  rw [Spells, List.forall₂_nil_right_iff] at h
  exact hw.1 h

/-- The first letter is that of the part in front. -/
theorem front_append (ha : a ≠ []) : front (a ++ r) = front a := by
  obtain ⟨c, a, rfl⟩ := List.exists_cons_of_ne_nil ha
  rfl

end Text

namespace CalendarPhrase

/-- The words start with different small letters. -/
def AreApart (ws : List String) : Prop :=
  (∀ w ∈ ws, IsSmall w) ∧ ∀ w ∈ ws, ∀ w' ∈ ws, front w.toList = front w'.toList → w = w'

/-- Words that differ in their first letters are told apart. -/
theorem afterAny_eq_some (hws : AreApart ws) :
    afterAny ws s = some r ↔ ∃ w ∈ ws, ∃ a, Spells w a ∧ s = a ++ r := by
  constructor
  · intro h
    obtain ⟨w, hw, h⟩ := List.exists_of_findSome?_eq_some h
    exact ⟨w, hw, afterFolded_eq_some.mp h⟩
  · rintro ⟨w, hw, a, ha, rfl⟩
    have hfound : afterFolded w.toList (a ++ r) = some r := afterFolded_eq_some.mpr ⟨a, ha, rfl⟩
    cases h : afterAny ws (a ++ r) with
    | none =>
      rw [afterAny, List.findSome?_eq_none_iff] at h
      rw [h w hw] at hfound
      cases hfound
    | some q =>
      -- another word in front would start with the same letter
      obtain ⟨w', hw', h⟩ := List.exists_of_findSome?_eq_some h
      obtain ⟨a', ha', hs⟩ := afterFolded_eq_some.mp h
      have hfront : front w.toList = front w'.toList := by
        rw [← Spells.front_eq ha, ← Spells.front_eq ha', ← front_append (r := r)
          (Spells.ne_nil ha (hws.1 w hw)), hs, front_append (Spells.ne_nil ha' (hws.1 w' hw'))]
      obtain rfl := hws.2 w hw w' hw' hfront
      rw [hfound] at h
      exact h.symm

/-! ## Blanks and numbers -/

/-- A run of blanks. -/
def IsBlanks (s : List Char) : Prop :=
  s ≠ [] ∧ ∀ c ∈ s, isBlank c = true

/-- A number with blanks behind it, or nothing. -/
def IsCount (s : List Char) : Prop :=
  s = [] ∨ ∃ ds g, s = ds ++ g ∧ ds ≠ [] ∧ (∀ c ∈ ds, isAnyDigit c = true) ∧ IsBlanks g

/-- A digit of any script is no blank. -/
theorem not_isBlank_of_isAnyDigit (h : isAnyDigit c = true) : isBlank c = false := by
  rw [Bool.eq_false_iff]
  intro hb
  have := forall_isBlank (p := fun c => !isAnyDigit c) (by decide +kernel) hb
  rw [h] at this
  cases this

/-- Dropping a run of a class stops behind it. -/
theorem dropWhile_run {p : Char → Bool} {g q : List Char} (hg : ∀ c ∈ g, p c = true)
    (hq : ∀ c ∈ q.head?, p c = false) : (g ++ q).dropWhile p = q := by
  rw [List.dropWhile_append_of_pos hg]
  cases q with
  | nil => rfl
  | cons c q => exact List.dropWhile_cons_of_neg (by rw [hq c rfl]; exact Bool.false_ne_true)

/-- What is left begins with a character that was not skipped. -/
theorem head?_dropWhile {p : Char → Bool} (s : List Char) :
    ∀ c ∈ (s.dropWhile p).head?, p c = false := by
  intro c hc
  have h := List.head?_dropWhile_not p s
  rw [Option.mem_def.mp hc] at h
  simpa using h

/-- All blanks in front are taken, and there is at least one. -/
theorem afterBlanks_eq_some : afterBlanks s = some r ↔
    ∃ g, IsBlanks g ∧ s = g ++ r ∧ ∀ c ∈ r.head?, isBlank c = false := by
  cases s with
  | nil =>
    refine iff_of_false nofun ?_
    rintro ⟨g, ⟨hne, -⟩, hs, -⟩
    exact hne (List.append_eq_nil_iff.mp hs.symm).1
  | cons c s =>
    rw [afterBlanks]
    constructor
    · intro h
      split at h
      · next hc =>
        cases h
        have hc : isBlank c = true := hc
        refine ⟨(c :: s).takeWhile isBlank, ⟨?_, List.all_eq_true.mp List.all_takeWhile⟩,
          List.takeWhile_append_dropWhile.symm, head?_dropWhile _⟩
        rw [List.takeWhile_cons_of_pos hc]
        exact List.cons_ne_nil _ _
      · cases h
    · rintro ⟨g, ⟨hne, hg⟩, hs, hr⟩
      have hc : isBlank c = true := by
        obtain ⟨b, g, rfl⟩ := List.exists_cons_of_ne_nil hne
        cases hs
        exact hg c List.mem_cons_self
      have hfront : (c :: s).head?.any isBlank = true := hc
      rw [if_pos hfront, hs, dropWhile_run hg hr]

/-- Every text begins with a count, which may be empty. -/
theorem exists_count (s : List Char) : ∃ n, IsCount n ∧ s = n ++ afterNumber s := by
  rw [afterNumber]
  split
  · next hs =>
    cases h : afterBlanks (s.dropWhile isAnyDigit) with
    | none => exact ⟨[], Or.inl rfl, rfl⟩
    | some r =>
      obtain ⟨g, hg, hr, -⟩ := afterBlanks_eq_some.mp h
      refine ⟨s.takeWhile isAnyDigit ++ g, Or.inr ⟨_, _, rfl, ?_,
        List.all_eq_true.mp List.all_takeWhile, hg⟩, ?_⟩
      · cases s with
        | nil => cases hs
        | cons c s =>
          have hc : isAnyDigit c = true := hs
          rw [List.takeWhile_cons_of_pos hc]
          exact List.cons_ne_nil _ _
      · rw [List.append_assoc, Option.getD_some, ← hr, List.takeWhile_append_dropWhile]
  · exact ⟨[], Or.inl rfl, rfl⟩

/-- A count is taken as far as it goes. -/
theorem afterNumber_append {n : List Char} (hn : IsCount n)
    (hr : ∀ c ∈ r.head?, isBlank c = false ∧ isAnyDigit c = false) :
    afterNumber (n ++ r) = r := by
  rcases hn with rfl | ⟨ds, g, rfl, hne, hds, hg⟩
  · rw [List.nil_append, afterNumber]
    cases r with
    | nil => rfl
    | cons c r =>
      rw [if_neg]
      show ¬ isAnyDigit c = true
      rw [(hr c rfl).2]
      exact Bool.false_ne_true
  · have hstop : ∀ c ∈ (g ++ r).head?, isAnyDigit c = false := by
      obtain ⟨c, g, rfl⟩ := List.exists_cons_of_ne_nil hg.1
      rintro _ ⟨⟩
      rw [Bool.eq_false_iff]
      intro hc
      have := hg.2 c List.mem_cons_self
      rw [not_isBlank_of_isAnyDigit hc] at this
      cases this
    have hblanks : afterBlanks (g ++ r) = some r :=
      afterBlanks_eq_some.mpr ⟨g, hg, rfl, fun c hc => (hr c hc).1⟩
    rw [afterNumber, if_pos, List.append_assoc, dropWhile_run hds hstop, hblanks, Option.getD_some]
    obtain ⟨c, ds, rfl⟩ := List.exists_cons_of_ne_nil hne
    exact hds c List.mem_cons_self

/-! ## Plurals -/

/-- The ending of a plural, or nothing. -/
def IsEnding (s : List Char) : Prop :=
  s = [] ∨ Spells "s" s

/-- Every text begins with an ending, which may be empty. -/
theorem exists_ending (s : List Char) : ∃ p, IsEnding p ∧ s = p ++ afterPlural s := by
  rw [afterPlural]
  cases h : afterFolded ['s'] s with
  | none => exact ⟨[], Or.inl rfl, rfl⟩
  | some r =>
    obtain ⟨p, hp, hs⟩ := afterFolded_eq_some.mp h
    exact ⟨p, Or.inr hp, hs⟩

/-- A spelled word is made of characters of words. -/
theorem isWordChar_of_spells (h : Spells w s) (hw : IsSmall w) : ∀ c ∈ s, isWordChar c = true :=
  h.forall hw (by decide +kernel)

/-- An ending is taken where a word ends. -/
theorem afterPlural_append {p : List Char} (hp : IsEnding p) (hr : inWord r.head? = false) :
    afterPlural (p ++ r) = r := by
  rw [afterPlural]
  rcases hp with rfl | hp
  · cases h : afterFolded ['s'] ([] ++ r) with
    | none => rfl
    | some q =>
      -- an `s` would go on with the word
      obtain ⟨p, hp, rfl⟩ := afterFolded_eq_some.mp h
      have hs : Spells "s" p := hp
      have hne := hs.ne_nil (by decide)
      obtain ⟨c, p, rfl⟩ := List.exists_cons_of_ne_nil hne
      have hc := isWordChar_of_spells hs (by decide) c List.mem_cons_self
      rw [List.cons_append, List.head?_cons, inWord, hc] at hr
      cases hr
  · have hplural : afterFolded ['s'] (p ++ r) = some r := afterFolded_eq_some.mpr ⟨p, hp, rfl⟩
    rw [hplural, Option.getD_some]

/-! ## Phrases -/

/-- The words that open a phrase. -/
def anchors : List String :=
  ["last", "previous"]

/-- The units that a phrase can count. -/
def units : List String :=
  TimeUnit.all.map TimeUnit.name

/-- No two anchors begin with the same letter. -/
theorem areApart_anchors : AreApart anchors :=
  ⟨by decide +kernel, by decide +kernel⟩

/-- No two units begin with the same letter. -/
theorem areApart_units : AreApart units :=
  ⟨by decide +kernel, by decide +kernel⟩

/-- The text is a calendar phrase. -/
inductive IsPhrase : List Char → Prop
  | mk {anchor gap count unit ending : List Char} {k u : String}
      (hk : k ∈ anchors) (hanchor : Spells k anchor) (hgap : IsBlanks gap) (hcount : IsCount count)
      (hu : u ∈ units) (hunit : Spells u unit) (hending : IsEnding ending) :
      IsPhrase (anchor ++ (gap ++ (count ++ (unit ++ ending))))

/-- **A phrase is an anchor, blanks, a count if there is one, a unit and its ending.** -/
theorem after?_steps {b : Option Char} : after? b s = some r ↔ isBoundary b s.head? = true ∧
    ∃ r₁ r₂ r₃, afterAny anchors s = some r₁ ∧ afterBlanks r₁ = some r₂ ∧
      afterAny units (afterNumber r₂) = some r₃ ∧ afterPlural r₃ = r ∧ inWord r.head? = false := by
  unfold after?
  cases isBoundary b s.head? with
  | false => exact iff_of_false nofun nofun
  | true =>
    simp only [Bool.not_true, Bool.false_eq_true, if_false, Option.bind_eq_bind,
      Option.bind_eq_some_iff, true_and]
    constructor
    · rintro ⟨r₁, h₁, r₂, h₂, r₃, h₃, h⟩
      split at h
      · cases h
      · next hr =>
        cases h
        exact ⟨r₁, r₂, r₃, h₁, h₂, h₃, rfl, Bool.eq_false_iff.mpr hr⟩
    · rintro ⟨r₁, r₂, r₃, h₁, h₂, h₃, rfl, hr⟩
      exact ⟨r₁, h₁, r₂, h₂, r₃, h₃, by rw [if_neg (by rw [hr]; exact Bool.false_ne_true)]⟩

/-- A letter is in front of a word, and it is neither a blank nor a digit. -/
theorem front_of_spells (h : Spells w a) (hw : IsSmall w) : ∀ c ∈ (a ++ r).head?,
    isWordChar c = true ∧ isBlank c = false ∧ isAnyDigit c = false := by
  obtain ⟨c, a, rfl⟩ := List.exists_cons_of_ne_nil (h.ne_nil hw)
  rintro _ ⟨⟩
  have hc := h.forall (p := fun c => isWordChar c && !isBlank c && !isAnyDigit c) hw
    (by decide +kernel) c List.mem_cons_self
  rw [Bool.and_eq_true, Bool.and_eq_true, Bool.not_eq_true', Bool.not_eq_true', and_assoc] at hc
  exact hc

/-- A spelled word begins inside a word. -/
theorem inWord_of_spells (h : Spells w a) (hw : IsSmall w) : inWord (a ++ r).head? = true := by
  have hfront := front_of_spells (r := r) h hw
  obtain ⟨c, a, rfl⟩ := List.exists_cons_of_ne_nil (h.ne_nil hw)
  exact (hfront c rfl).1

theorem IsPhrase.inWord_front (h : IsPhrase a) : inWord (a ++ r).head? = true := by
  cases h with
  | mk hk hanchor =>
    rw [List.append_assoc]
    exact inWord_of_spells hanchor (areApart_anchors.1 _ hk)

/-- A number, or what follows it, starts with no blank. -/
theorem not_isBlank_of_count {n : List Char} (hn : IsCount n)
    (hr : ∀ c ∈ r.head?, isBlank c = false) : ∀ c ∈ (n ++ r).head?, isBlank c = false := by
  rcases hn with rfl | ⟨ds, g, rfl, hne, hds, -⟩
  · exact hr
  · obtain ⟨c, ds, rfl⟩ := List.exists_cons_of_ne_nil hne
    rintro _ ⟨⟩
    exact not_isBlank_of_isAnyDigit (hds c List.mem_cons_self)

/-- **What the search takes for a phrase is a calendar phrase in whole words**, and every such
phrase is found. -/
theorem after?_eq_some {b : Option Char} : after? b s = some r ↔
    ∃ w, IsPhrase w ∧ s = w ++ r ∧ inWord b = false ∧ inWord r.head? = false := by
  rw [after?_steps]
  constructor
  · rintro ⟨hb, r₁, r₂, r₃, h₁, h₂, h₃, rfl, hr⟩
    obtain ⟨k, hk, anchor, hanchor, rfl⟩ := (afterAny_eq_some areApart_anchors).mp h₁
    obtain ⟨gap, hgap, rfl, -⟩ := afterBlanks_eq_some.mp h₂
    obtain ⟨count, hcount, hnumber⟩ := exists_count r₂
    obtain ⟨u, hu, unit, hunit, hrest⟩ := (afterAny_eq_some areApart_units).mp h₃
    obtain ⟨ending, hending, hplural⟩ := exists_ending r₃
    refine ⟨_, .mk hk hanchor hgap hcount hu hunit hending, ?_, ?_, hr⟩
    · simp only [List.append_assoc]
      rw [← hplural, ← hrest, ← hnumber]
    · rw [isBoundary, inWord_of_spells hanchor (areApart_anchors.1 k hk)] at hb
      simpa using hb
  · rintro ⟨w, hw, rfl, hb, hr⟩
    refine ⟨by rw [isBoundary, hw.inWord_front, hb]; rfl, ?_⟩
    cases hw with
    | @mk anchor gap count unit ending k u hk hanchor hgap hcount hu hunit hending =>
      have hfront := front_of_spells (r := ending ++ r) hunit (areApart_units.1 u hu)
      have hblank := not_isBlank_of_count hcount fun c hc => (hfront c hc).2.1
      simp only [List.append_assoc]
      exact ⟨gap ++ (count ++ (unit ++ (ending ++ r))), count ++ (unit ++ (ending ++ r)),
        ending ++ r, (afterAny_eq_some areApart_anchors).mpr ⟨k, hk, anchor, hanchor, rfl⟩,
        afterBlanks_eq_some.mpr ⟨gap, hgap, rfl, hblank⟩,
        (afterAny_eq_some areApart_units).mpr ⟨u, hu, unit, hunit,
          afterNumber_append hcount fun c hc => (hfront c hc).2⟩,
        afterPlural_append hending hr, hr⟩

/-! ## No phrase inside another -/

/-- A phrase can begin with the character. -/
def opens (c : Char) : Bool :=
  anchors.any fun k => front [c] == front k.toList

/-- Behind the first character no phrase begins inside the text. -/
def IsQuiet (s : List Char) : Prop :=
  s.IsChain fun b c => opens c = true → isWordChar b = true

/-- The first letter of a small word is a small letter. -/
theorem exists_front (hw : IsSmall w) : ∃ n, front w.toList = some n ∧ 97 ≤ n ∧ n ≤ 122 := by
  obtain ⟨hne, hw⟩ := hw
  obtain ⟨k, v, hv⟩ := List.exists_cons_of_ne_nil hne
  obtain ⟨hfold, hrange⟩ := foldCode_of_isLower (hw k (by rw [hv]; exact List.mem_cons_self))
  refine ⟨foldCode k.toNat, by rw [hv]; rfl, ?_⟩
  rw [hfold]
  exact hrange

/-- No phrase begins with a digit. -/
theorem not_opens_of_isAnyDigit (h : isAnyDigit c = true) : opens c = false := by
  have hletters : ∀ n ∈ letterCodes, isAnyDigit (Char.ofNat n) = false := by decide +kernel
  rw [Bool.eq_false_iff]
  intro hopens
  obtain ⟨k, hk, hfront⟩ := List.any_eq_true.mp hopens
  obtain ⟨n, hn, hrange⟩ := exists_front (areApart_anchors.1 k hk)
  rw [hn, beq_iff_eq] at hfront
  have hfold : foldCode c.toNat = n := Option.some.inj hfront
  have hc := hletters c.toNat (mem_letterCodes (by omega) (by omega))
  rw [Char.ofNat_toNat, h] at hc
  cases hc

/-- No phrase begins with a blank. -/
theorem not_opens_of_isBlank (h : isBlank c = true) : opens c = false := by
  have := forall_isBlank (p := fun c => !opens c) (by decide +kernel) h
  rwa [Bool.not_eq_true'] at this

/-- No phrase begins inside a word. -/
theorem isQuiet_of_words (h : ∀ c ∈ s, isWordChar c = true) : IsQuiet s := by
  refine (List.pairwise_iff_forall_sublist.mpr fun {b c} hbc _ => ?_).isChain
  exact h b (hbc.subset List.mem_cons_self)

/-- No phrase begins where none of the letters can open one. -/
theorem isQuiet_of_not_opens (h : ∀ c ∈ s, opens c = false) : IsQuiet s := by
  refine (List.pairwise_iff_forall_sublist.mpr fun {b c} hbc hc => ?_).isChain
  rw [h c (hbc.subset (List.mem_cons_of_mem b List.mem_cons_self))] at hc
  cases hc

theorem not_opens_of_count (h : IsCount s) : ∀ c ∈ s, opens c = false := by
  rcases h with rfl | ⟨ds, g, rfl, -, hds, hg⟩
  · exact List.forall_mem_nil _
  · intro c hc
    rcases List.mem_append.mp hc with hc | hc
    · exact not_opens_of_isAnyDigit (hds c hc)
    · exact not_opens_of_isBlank (hg.2 c hc)

/-- No phrase begins with a unit. -/
theorem not_opens_of_unit {u : String} (hu : u ∈ units) (h : Spells u a) :
    ∀ c ∈ (a ++ r).head?, opens c = false := by
  have hapart : ∀ u ∈ units, ∀ k ∈ anchors, front u.toList ≠ front k.toList := by decide +kernel
  obtain ⟨c, a, rfl⟩ := List.exists_cons_of_ne_nil (h.ne_nil (areApart_units.1 u hu))
  rintro _ ⟨⟩
  rw [Bool.eq_false_iff]
  intro hopens
  obtain ⟨k, hk, hfront⟩ := List.any_eq_true.mp hopens
  rw [beq_iff_eq] at hfront
  exact hapart u hu k hk (h.front_eq.symm.trans hfront)

theorem isWordChar_of_ending (h : IsEnding s) : ∀ c ∈ s, isWordChar c = true := by
  rcases h with rfl | h
  · exact List.forall_mem_nil _
  · exact isWordChar_of_spells h (by decide)

/-- No phrase begins inside another. -/
theorem IsPhrase.isQuiet (h : IsPhrase s) : IsQuiet s := by
  cases h with
  | @mk anchor gap count unit ending k u hk hanchor hgap hcount hu hunit hending =>
    have hword := isWordChar_of_spells hanchor (areApart_anchors.1 k hk)
    have hbetween : ∀ c ∈ gap ++ count, opens c = false := by
      intro c hc
      rcases List.mem_append.mp hc with hc | hc
      · exact not_opens_of_isBlank (hgap.2 c hc)
      · exact not_opens_of_count hcount c hc
    have hunitWord : ∀ c ∈ unit ++ ending, isWordChar c = true := by
      intro c hc
      rcases List.mem_append.mp hc with hc | hc
      · exact isWordChar_of_spells hunit (areApart_units.1 u hu) c hc
      · exact isWordChar_of_ending hending c hc
    have hrest : IsQuiet (gap ++ count ++ (unit ++ ending)) := by
      refine List.isChain_append.mpr ⟨isQuiet_of_not_opens hbetween, isQuiet_of_words hunitWord, ?_⟩
      intro b _ c hc hopens
      rw [not_opens_of_unit hu hunit c hc] at hopens
      cases hopens
    rw [← List.append_assoc gap]
    refine List.isChain_append.mpr ⟨isQuiet_of_words hword, hrest, ?_⟩
    exact fun b hb _ _ _ => hword b (List.mem_of_mem_getLast? hb)

/-- A phrase begins with a letter that opens one. -/
theorem IsPhrase.opens_front (h : IsPhrase a) : ∀ c ∈ (a ++ r).head?, opens c = true := by
  cases h with
  | @mk anchor gap count unit ending k u hk hanchor =>
    obtain ⟨c, anchor, rfl⟩ := List.exists_cons_of_ne_nil
      (hanchor.ne_nil (areApart_anchors.1 k hk))
    rintro _ ⟨⟩
    exact List.any_eq_true.mpr ⟨k, hk, beq_iff_eq.mpr hanchor.front_eq⟩

/-- A phrase is not empty. -/
theorem IsPhrase.ne_nil (h : IsPhrase a) : a ≠ [] := by
  rintro rfl
  have := h.inWord_front (r := [])
  cases this

/-- **A phrase that begins behind the start of another one begins behind its end.** -/
theorem IsPhrase.length_le {v w t r a : List Char} (hv : IsPhrase v) (hw : IsPhrase w)
    (h : v ++ t = a ++ (w ++ r)) (hne : a ≠ []) (ha : inWord a.getLast? = false) :
    v.length ≤ a.length := by
  rcases List.append_eq_append_iff.mp h with ⟨u, rfl, -⟩ | ⟨u, rfl, hrest⟩
  · rw [List.length_append]
    exact Nat.le_add_right _ _
  · cases u with
    | nil => exact (congrArg List.length (List.append_nil a)).le
    | cons c u =>
      -- the second phrase would begin inside the first one, so a word would go on there
      have hopens : opens c = true := hw.opens_front (r := r) c (by rw [hrest]; rfl)
      have hlast : a.getLast? = some (a.getLast hne) := List.getLast?_eq_some_getLast hne
      have hword := (List.isChain_append.mp hv.isQuiet).2.2 _ hlast c rfl hopens
      rw [hlast, inWord, hword] at ha
      cases ha

/-! ## The scan -/

/-- The phrase `w` stands in the text behind `a`, as whole words, where `b` is the character before
the text. -/
def Stands (b : Option Char) (s a w : List Char) : Prop :=
  ∃ r, s = a ++ (w ++ r) ∧ IsPhrase w ∧ inWord (lastOr b a) = false ∧ inWord r.head? = false

/-- A phrase stands at the start of a text if it is in front there. -/
theorem stands_nil {b : Option Char} {v : List Char} :
    Stands b s [] v ↔ ∃ t, after? b s = some t ∧ s = v ++ t := by
  constructor
  · rintro ⟨t, hs, hv, hb, ht⟩
    exact ⟨t, after?_eq_some.mpr ⟨v, hv, hs, hb, ht⟩, hs⟩
  · rintro ⟨t, h, hs⟩
    obtain ⟨w, hw, hs', hb, ht⟩ := after?_eq_some.mp h
    obtain rfl := List.append_cancel_right (hs.symm.trans hs')
    exact ⟨t, hs, hw, hb, ht⟩

theorem lastOr_cons (b : Option Char) (c : Char) (a : List Char) :
    lastOr b (c :: a) = lastOr (some c) a := by
  cases a with
  | nil => rfl
  | cons d a =>
    have hne : d :: a ≠ [] := List.cons_ne_nil d a
    rw [lastOr, lastOr, List.getLast?_cons_cons, List.getLast?_eq_some_getLast hne]

theorem lastOr_none (a : List Char) : lastOr none a = a.getLast? := by
  rw [lastOr]
  cases a.getLast? <;> rfl

/-- A phrase stands behind a character if it stands in what follows it. -/
theorem stands_cons {b : Option Char} {v : List Char} :
    Stands b (c :: s) (c :: a) v ↔ Stands (some c) s a v := by
  simp only [Stands, lastOr_cons, List.cons_append, List.cons.injEq, true_and]

/-- Behind the first character the places of phrases are those of the rest. -/
theorem exists_stands_cons {b : Option Char} {offset skip : Nat} {m : Nat × List Char} :
    (∃ a, Stands (some c) s a m.2 ∧ m.1 = offset + c.utf8Size + byteCount a ∧ skip ≤ a.length) ↔
      ∃ a, a ≠ [] ∧ Stands b (c :: s) a m.2 ∧ m.1 = offset + byteCount a ∧
        skip + 1 ≤ a.length := by
  constructor
  · rintro ⟨a, ha, hoffset, hskip⟩
    refine ⟨c :: a, List.cons_ne_nil c a, stands_cons.mpr ha, ?_, Nat.succ_le_succ hskip⟩
    rw [hoffset, byteCount_cons, Nat.add_assoc]
  · rintro ⟨a, hne, ha, hoffset, hskip⟩
    obtain ⟨d, a, rfl⟩ := List.exists_cons_of_ne_nil hne
    obtain rfl : c = d := by
      obtain ⟨r, hs, -⟩ := ha
      exact (List.cons.inj hs).1
    refine ⟨a, stands_cons.mp ha, ?_, Nat.le_of_succ_le_succ hskip⟩
    rw [hoffset, byteCount_cons, Nat.add_assoc]

/-- **The scan finds the phrases that stand in the text as whole words**, each at its place. -/
theorem mem_scan {b : Option Char} {offset skip : Nat} {m : Nat × List Char} :
    m ∈ scan b offset skip s ↔
      ∃ a, Stands b s a m.2 ∧ m.1 = offset + byteCount a ∧ skip ≤ a.length := by
  induction s generalizing b offset skip with
  | nil =>
    rw [scan]
    refine iff_of_false List.not_mem_nil ?_
    rintro ⟨a, ⟨r, hs, hw, -⟩, -⟩
    exact hw.ne_nil (List.append_eq_nil_iff.mp (List.append_eq_nil_iff.mp hs.symm).2).1
  | cons c s ih =>
    cases skip with
    | succ skip =>
      rw [scan, ih, exists_stands_cons (b := b)]
      constructor
      · rintro ⟨a, -, h⟩
        exact ⟨a, h⟩
      · rintro ⟨a, ha, hoffset, hskip⟩
        exact ⟨a, List.ne_nil_of_length_pos (by omega), ha, hoffset, hskip⟩
    | zero =>
      rw [scan]
      cases h : after? b (c :: s) with
      | none =>
        dsimp only
        rw [ih, exists_stands_cons (b := b)]
        constructor
        · rintro ⟨a, -, ha, hoffset, -⟩
          exact ⟨a, ha, hoffset, Nat.zero_le _⟩
        · rintro ⟨a, ha, hoffset, -⟩
          have hne : a ≠ [] := by
            rintro rfl
            obtain ⟨t, ht, -⟩ := stands_nil.mp ha
            rw [h] at ht
            cases ht
          exact ⟨a, hne, ha, hoffset, List.length_pos_iff.mpr hne⟩
      | some t =>
        obtain ⟨v, hv, hs, hb, ht⟩ := after?_eq_some.mp h
        have htake : (c :: s).take ((c :: s).length - t.length) = v := by
          rw [hs, List.length_append, Nat.add_sub_cancel, List.take_left]
        have hlen : (c :: s).length - t.length = v.length := by
          rw [hs, List.length_append, Nat.add_sub_cancel]
        have hpos : 1 ≤ v.length := List.length_pos_iff.mpr hv.ne_nil
        dsimp only
        rw [htake, hlen, List.mem_cons, ih, exists_stands_cons (b := b),
          Nat.sub_add_cancel hpos]
        constructor
        · rintro (rfl | ⟨a, -, ha, hoffset, -⟩)
          · exact ⟨[], stands_nil.mpr ⟨t, h, hs⟩, rfl, Nat.zero_le _⟩
          · exact ⟨a, ha, hoffset, Nat.zero_le _⟩
        · rintro ⟨a, ha, hoffset, -⟩
          by_cases hne : a = []
          · subst hne
            obtain ⟨t', ht', hs'⟩ := stands_nil.mp ha
            rw [h] at ht'
            cases ht'
            left
            exact Prod.ext hoffset (List.append_cancel_right (hs'.symm.trans hs))
          · -- the phrase begins behind the one in front
            refine Or.inr ⟨a, hne, ha, hoffset, ?_⟩
            obtain ⟨r, hs', hw, hlast, -⟩ := ha
            rw [lastOr, List.getLast?_eq_some_getLast hne] at hlast
            refine hv.length_le hw (hs.symm.trans hs') hne ?_
            rw [List.getLast?_eq_some_getLast hne]
            exact hlast

/-- The phrases of a text are found in order. -/
theorem pairwise_scan {b : Option Char} {offset skip : Nat} :
    (scan b offset skip s).Pairwise fun m n => m.1 < n.1 := by
  induction s generalizing b offset skip with
  | nil => exact .nil
  | cons c s ih =>
    cases skip with
    | succ skip => exact ih
    | zero =>
      rw [scan]
      cases after? b (c :: s) with
      | none => exact ih
      | some t =>
        refine List.pairwise_cons.mpr ⟨fun m hm => ?_, ih⟩
        obtain ⟨a, -, hoffset, -⟩ := mem_scan.mp hm
        have hpos := c.utf8Size_pos
        dsimp only
        omega

end CalendarPhrase

end DataPhrase
