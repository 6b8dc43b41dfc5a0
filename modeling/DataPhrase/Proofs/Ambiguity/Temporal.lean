/-
# The site of a calendar period

A period that is aligned with the calendar has one site, at the first place outside of literals
where its phrase stands as whole words, provided that a blank stands behind its number
(`DigitsSpaced`). The reader of periods lets the unit follow the number at once; the search for
phrases does not, and such a period has no site at all.
-/
import DataPhrase.Proofs.Ambiguity.Calendar
import DataPhrase.Proofs.Ambiguity.Canonical
import DataPhrase.Proofs.Gaps.Pieces
import DataPhrase.Proofs.Statement.Periods
import Mathlib.Data.Nat.Find
import Mathlib.Order.Bounds.Basic

namespace DataPhrase

open Text Lexeme Token CalendarPhrase

variable {text s r a b g u v w : List Char} {c : Char} {p : Period} {phrase : String} {o : Nat}

/-! ## Words in small letters -/

/-- A digit of a statement is a digit of any script. -/
theorem isAnyDigit_of_isDigit (h : isDigit c = true) : isAnyDigit c = true :=
  (Bool.or_eq_true _ _).mpr (Or.inl h)

/-- Making letters small changes only capitals. -/
theorem toLower_cases (c : Char) :
    c.toLower = c ∨ ∃ n ∈ List.range' 65 26, c = Char.ofNat n := by
  by_cases h : 65 ≤ c.toNat ∧ c.toNat < 91
  · refine Or.inr ⟨c.toNat, List.mem_range'_1.mpr (by omega), (Char.ofNat_toNat c).symm⟩
  · left
    unfold Char.toLower
    rw [dif_neg]
    rintro ⟨hlow, hhigh⟩
    have hlow : 65 ≤ c.toNat := UInt32.le_iff_toNat_le.mp hlow
    have hhigh : c.toNat ≤ 90 := UInt32.le_iff_toNat_le.mp hhigh
    exact h ⟨hlow, by omega⟩

/-- A letter and its small form are the same in any case. -/
theorem sameFolded_toLower (c : Char) : sameFolded c.toLower c = true := by
  have hcapital : ∀ n ∈ List.range' 65 26,
      sameFolded (Char.ofNat n).toLower (Char.ofNat n) = true := by decide +kernel
  rcases toLower_cases c with h | ⟨n, hn, rfl⟩
  · rw [h]
    exact beq_self_eq_true _
  · exact hcapital n hn

theorem toLower_of_isAnyDigit (h : isAnyDigit c = true) : c.toLower = c := by
  have hcapital : ∀ n ∈ List.range' 65 26, isAnyDigit (Char.ofNat n) = false := by decide +kernel
  rcases toLower_cases c with h' | ⟨n, hn, rfl⟩
  · exact h'
  · rw [hcapital n hn] at h
    cases h

/-- Digits stay in small letters. -/
theorem lower_of_isAnyDigit (h : ∀ c ∈ s, isAnyDigit c = true) : lower s = s := by
  refine (List.map_congr_left fun c hc => ?_).trans (List.map_id s)
  exact toLower_of_isAnyDigit (h c hc)

/-- A text whose small form is a word spells the word. -/
theorem spells_of_lower {k : String} (h : lower a = k.toList) : Spells k a := by
  rw [Spells, ← h, lower, List.forall₂_map_left_iff, List.forall₂_same]
  exact fun c _ => sameFolded_toLower c

/-- The letters of a word in any case are neither blanks nor digits, nor are their small ones. -/
theorem Text.Spells.letters {k : String} (h : Spells k a) (hk : IsSmall k) : ∀ c ∈ a,
    isBlank c = false ∧ isQuote c = false ∧ isBlank c.toLower = false ∧
      isAnyDigit c.toLower = false := by
  intro c hc
  have := h.forall (p := fun c =>
    !isBlank c && (!isQuote c && (!isBlank c.toLower && !isAnyDigit c.toLower))) hk
    (by decide +kernel) c hc
  simpa only [Bool.and_eq_true, Bool.not_eq_true'] using this

/-! ## Normal forms -/

/-- A run without blanks is one word. -/
theorem words_word (ha : ∀ c ∈ a, isBlank c = false) (hne : a ≠ []) : words a = [a] := by
  have h := words_of_word (q := []) ha hne nofun
  rwa [List.append_nil] at h

/-- Two words with blanks between them are normalized to one blank. -/
theorem normalizePhrase_two (ha : ∀ c ∈ a, isBlank c = false) (hne : a ≠ []) (hg : IsBlanks g)
    (hb : ∀ c ∈ b, isBlank c = false) (hneb : b ≠ []) :
    normalizePhrase (a ++ (g ++ b)) = lower a ++ ' ' :: lower b := by
  rw [normalizePhrase, words_append_blanks hg.2 hg.1, words_word ha hne, words_word hb hneb]
  simp only [List.singleton_append, List.map_cons, List.map_nil, List.intercalate_cons_cons,
    List.intercalate_singleton, List.append_assoc]

/-- So are three words. -/
theorem normalizePhrase_three {g' : List Char} (ha : ∀ c ∈ a, isBlank c = false) (hne : a ≠ [])
    (hg : IsBlanks g) (hv : ∀ c ∈ v, isBlank c = false) (hnev : v ≠ []) (hg' : IsBlanks g')
    (hb : ∀ c ∈ b, isBlank c = false) (hneb : b ≠ []) :
    normalizePhrase (a ++ (g ++ (v ++ (g' ++ b)))) =
      lower a ++ ' ' :: (lower v ++ ' ' :: lower b) := by
  rw [normalizePhrase, words_append_blanks hg.2 hg.1, words_append_blanks hg'.2 hg'.1,
    words_word ha hne, words_word hv hnev, words_word hb hneb]
  simp only [List.singleton_append, List.map_cons, List.map_nil, List.intercalate_cons_cons,
    List.intercalate_singleton, List.append_assoc]

/-- No digit stands directly before anything but a further digit or a blank. -/
def DigitsSpaced (s : List Char) : Prop :=
  s.IsChain fun b c => isAnyDigit b = true → isAnyDigit c = true ∨ isBlank c = true

instance (s : List Char) : Decidable (DigitsSpaced s) :=
  inferInstanceAs (Decidable (List.IsChain _ s))

/-- A text without digits has blanks behind all of them. -/
theorem digitsSpaced_of_forall (h : ∀ c ∈ s, isAnyDigit c = false) : DigitsSpaced s := by
  refine (List.pairwise_iff_forall_sublist.mpr fun {b c} hbc hb => ?_).isChain
  rw [h b (hbc.subset List.mem_cons_self)] at hb
  cases hb

theorem digitsSpaced_of_digits (h : ∀ c ∈ s, isAnyDigit c = true) : DigitsSpaced s := by
  refine (List.pairwise_iff_forall_sublist.mpr fun {b c} hbc _ => Or.inl ?_).isChain
  exact h c (hbc.subset (List.mem_cons_of_mem b List.mem_cons_self))

/-- Digits are spaced across a blank. -/
theorem DigitsSpaced.append (hu : DigitsSpaced u) (hv : DigitsSpaced v) :
    DigitsSpaced (u ++ ' ' :: v) := by
  refine List.isChain_append.mpr ⟨hu, List.isChain_cons.mpr ⟨fun _ _ h => ?_, hv⟩, ?_⟩
  · exact absurd h (by decide)
  · rintro _ _ _ ⟨⟩ _
    exact Or.inr (by decide)

/-- A letter directly behind a digit leaves it without a blank. -/
theorem not_digitsSpaced_of_letter {d : Char} (hd : isAnyDigit d = true)
    (hc : isAnyDigit c = false) (hb : isBlank c = false) : ¬ DigitsSpaced (u ++ d :: c :: v) := by
  intro h
  rcases (List.isChain_append_cons_cons.mp h).2.1 hd with h | h
  · rw [hc] at h
    cases h
  · rw [hb] at h
    cases h

/-- A spelled word has no digits. -/
theorem digitsSpaced_lower {k : String} (h : Spells k a) (hk : IsSmall k) :
    DigitsSpaced (lower a) := by
  refine digitsSpaced_of_forall fun c hc => ?_
  obtain ⟨d, hd, rfl⟩ := List.mem_map.mp hc
  exact (h.letters hk d hd).2.2.2

/-! ## Calendar phrases -/

namespace CalendarPhrase

/-- An ending is made of letters. -/
theorem letters_of_ending (h : IsEnding a) : ∀ c ∈ a,
    isBlank c = false ∧ isQuote c = false ∧ isBlank c.toLower = false ∧
      isAnyDigit c.toLower = false := by
  rcases h with rfl | h
  · exact List.forall_mem_nil _
  · exact h.letters (by decide)

theorem not_isQuote_of_isAnyDigit (h : isAnyDigit c = true) : isQuote c = false := by
  rw [Bool.eq_false_iff]
  intro hc
  simp only [isQuote, Bool.or_eq_true, beq_iff_eq] at hc
  rcases hc with rfl | rfl <;> revert h <;> decide

/-- There are no quotes in a phrase. -/
theorem IsPhrase.not_isQuote (h : IsPhrase w) : ∀ c ∈ w, isQuote c = false := by
  have hblanks : ∀ {g}, IsBlanks g → ∀ c ∈ g, isQuote c = false :=
    fun hg c hc => not_isQuote_of_isBlank (hg.2 c hc)
  cases h with
  | @mk anchor gap count unit ending k u hk hanchor hgap hcount hu hunit hending =>
    have hcounted : ∀ c ∈ count, isQuote c = false := by
      rcases hcount with rfl | ⟨ds, g, rfl, -, hds, hg⟩
      · exact List.forall_mem_nil _
      · exact List.forall_mem_append.mpr
          ⟨fun c hc => not_isQuote_of_isAnyDigit (hds c hc), hblanks hg⟩
    simp only [List.forall_mem_append]
    exact ⟨fun c hc => (hanchor.letters (areApart_anchors.1 k hk) c hc).2.1, hblanks hgap, hcounted,
      fun c hc => (hunit.letters (areApart_units.1 u hu) c hc).2.1,
      fun c hc => (letters_of_ending hending c hc).2.1⟩

/-- In the normal form of a phrase a blank stands behind the number. -/
theorem IsPhrase.digitsSpaced (h : IsPhrase w) : DigitsSpaced (normalizePhrase w) := by
  cases h with
  | @mk anchor gap count unit ending k u hk hanchor hgap hcount hu hunit hending =>
    have hk := areApart_anchors.1 k hk
    have hu := areApart_units.1 u hu
    have hletters : ∀ c ∈ unit ++ ending,
        isBlank c = false ∧ isQuote c = false ∧ isBlank c.toLower = false ∧
          isAnyDigit c.toLower = false :=
      List.forall_mem_append.mpr ⟨hunit.letters hu, letters_of_ending hending⟩
    have hne : unit ++ ending ≠ [] := List.append_ne_nil_of_left_ne_nil (hunit.ne_nil hu) ending
    have hspaced : DigitsSpaced (lower (unit ++ ending)) := by
      refine digitsSpaced_of_forall fun c hc => ?_
      obtain ⟨d, hd, rfl⟩ := List.mem_map.mp hc
      exact (hletters d hd).2.2.2
    have hanchorBlank := fun c hc => (hanchor.letters hk c hc).1
    have hunitBlank := fun c hc => (hletters c hc).1
    rcases hcount with rfl | ⟨ds, g, rfl, hneds, hds, hg⟩
    · rw [List.nil_append, normalizePhrase_two hanchorBlank (hanchor.ne_nil hk) hgap hunitBlank hne]
      exact (digitsSpaced_lower hanchor hk).append hspaced
    · rw [List.append_assoc ds, normalizePhrase_three hanchorBlank (hanchor.ne_nil hk) hgap
        (fun c hc => not_isBlank_of_isAnyDigit (hds c hc)) hneds hg hunitBlank hne,
        lower_of_isAnyDigit hds]
      exact (digitsSpaced_lower hanchor hk).append ((digitsSpaced_of_digits hds).append hspaced)

end CalendarPhrase

/-! ## Phrases of periods -/

namespace Period

/-- The words that stand for calendar alignment open phrases. -/
theorem spells_of_anchor? (h : anchor? a = some .calendar) : ∃ k ∈ anchors, Spells k a := by
  unfold anchor? at h
  dsimp only at h
  split at h
  · next hword =>
    rcases hword with hword | hword
    · exact ⟨"last", List.mem_cons_self, spells_of_lower hword⟩
    · exact ⟨"previous", List.mem_cons_of_mem _ List.mem_cons_self, spells_of_lower hword⟩
  · split at h
    · cases h
    · split at h <;> cases h

/-- The word of a unit is its name, or the name with an ending. -/
theorem spells_of_ofWord? {x : TimeUnit} (h : TimeUnit.ofWord? w = some x) :
    ∃ a e, w = a ++ e ∧ x.name ∈ units ∧ Spells x.name a ∧ IsEnding e := by
  unfold TimeUnit.ofWord? at h
  have hname := List.find?_some h
  have hunit : x.name ∈ units := List.mem_map_of_mem (List.mem_of_find?_eq_some h)
  rw [beq_iff_eq] at hname
  split at hname
  · next hlast =>
    rcases List.eq_nil_or_concat w with rfl | ⟨a, c, rfl⟩
    · cases hlast
    · rw [List.concat_eq_append] at hlast hname ⊢
      rw [lower, List.map_append, List.map_singleton] at hlast hname
      rw [List.getLast?_concat, Option.some.injEq] at hlast
      rw [List.dropLast_concat] at hname
      refine ⟨a, [c], rfl, hunit, spells_of_lower hname.symm, Or.inr (spells_of_lower ?_)⟩
      rw [lower, List.map_singleton, hlast]
      rfl
  · exact ⟨w, [], (List.append_nil w).symm, hunit, spells_of_lower hname.symm, Or.inl rfl⟩

/-- **What a calendar period is written as is a calendar phrase**, or the unit follows the number at
once. -/
theorem IsWritten.isPhrase_or (h : p.IsWritten w) (ha : p.alignment = .calendar) :
    p.phrase = String.ofList (normalizePhrase w) ∧
      (IsPhrase w ∨ ¬ DigitsSpaced (normalizePhrase w)) := by
  cases h with
  | @mk anchor gap digits blanks unit hanchor hsolid hgap hblank hdigits hblanks hnone hunit
      hphrase =>
    refine ⟨hphrase, ?_⟩
    rw [ha] at hanchor
    obtain ⟨k, hk, hanchor⟩ := spells_of_anchor? hanchor
    obtain ⟨u, e, rfl, hu, hunit, hending⟩ := spells_of_ofWord? hunit
    have hisBlanks : IsBlanks gap := ⟨hgap, hblank⟩
    have hcounted := fun c hc => isAnyDigit_of_isDigit (hdigits c hc)
    by_cases hspace : digits = [] ∨ blanks ≠ []
    · left
      have hcount : IsCount (digits ++ blanks) := by
        by_cases hd : digits = []
        · rw [hnone hd, hd]
          exact Or.inl rfl
        · exact Or.inr ⟨digits, blanks, rfl, hd, hcounted, hspace.resolve_left hd, hblanks⟩
      rw [← List.append_assoc digits]
      exact .mk hk hanchor hisBlanks hcount hu hunit hending
    · right
      rw [not_or, not_not] at hspace
      obtain ⟨hd, rfl⟩ := hspace
      have hk := areApart_anchors.1 k hk
      have hu := areApart_units.1 _ hu
      have hletters := hunit.letters hu
      obtain ⟨c, u', rfl⟩ := List.exists_cons_of_ne_nil (hunit.ne_nil hu)
      have hsolid : ∀ d ∈ digits ++ (c :: u' ++ e), isBlank d = false := by
        simp only [List.forall_mem_append]
        exact ⟨fun d hd => not_isBlank_of_isAnyDigit (hcounted d hd),
          fun d hd => (hletters d hd).1, fun d hd => (letters_of_ending hending d hd).1⟩
      rw [List.nil_append, normalizePhrase_two (fun c hc => (hanchor.letters hk c hc).1)
        (hanchor.ne_nil hk) hisBlanks hsolid (List.append_ne_nil_of_left_ne_nil hd _)]
      -- the last digit stands directly before the first letter of the unit
      obtain ⟨ds, d, rfl⟩ : ∃ ds d, digits = ds ++ [d] :=
        ⟨_, _, (List.dropLast_concat_getLast hd).symm⟩
      have hnormal : lower anchor ++ ' ' :: lower (ds ++ [d] ++ (c :: u' ++ e)) =
          lower anchor ++ ' ' :: lower ds ++ d.toLower :: c.toLower :: lower (u' ++ e) := by
        simp only [lower, List.map_append, List.map_cons, List.append_assoc, List.cons_append,
          List.nil_append]
      have hdigit := hcounted d (List.mem_append_right ds List.mem_cons_self)
      obtain ⟨-, -, hblank, hletter⟩ := hletters c List.mem_cons_self
      rw [hnormal, toLower_of_isAnyDigit hdigit]
      exact not_digitsSpaced_of_letter hdigit hletter hblank

end Period

/-! ## Places of phrases -/

namespace CalendarPhrase

/-- The phrase `w` stands in the text behind `a`, outside of literals and as whole words. -/
def StandsOutside (text a w : List Char) : Prop :=
  ∃ r, text = a ++ (w ++ r) ∧ IsPhrase w ∧ ClosesLiterals a ∧ inWord a.getLast? = false ∧
    inWord r.head? = false

/-- A phrase that reads as `phrase` stands in the text at the byte, outside of literals and as whole
words. -/
def StandsAt (text : List Char) (phrase : String) (n : Nat) : Prop :=
  ∃ a w, StandsOutside text a w ∧ String.ofList (normalizePhrase w) = phrase ∧ byteCount a = n

/-- A phrase stands in the masked text where it stands in the text outside of literals. -/
theorem stands_mask : Stands none (mask text) a w ↔ ∃ u, StandsOutside text u w ∧ mask u = a := by
  have hmask (hw : IsPhrase w) (b : List Char) := mask_eq_append (s := text) (a := a) (b := b)
    (fun c hc => ?_) hw.ne_nil hw.not_isQuote
  · constructor
    · rintro ⟨b, hs, hw, ha, hb⟩
      obtain ⟨u, r, htext, hu, rfl, rfl⟩ := (hmask hw b).mp hs
      rw [lastOr_none, hu.getLast?_mask] at ha
      rw [head?_mask] at hb
      exact ⟨u, ⟨r, htext, hw, hu, ha, hb⟩, rfl⟩
    · rintro ⟨u, ⟨r, htext, hw, hu, ha, hr⟩, rfl⟩
      refine ⟨mask r, (hmask hw _).mpr ⟨u, r, htext, hu, rfl, rfl⟩, hw, ?_, ?_⟩
      · rw [lastOr_none, hu.getLast?_mask]
        exact ha
      · rw [head?_mask]
        exact hr
  · -- a phrase starts with a letter, not with a blank
    rintro rfl
    have hword := hw.inWord_front (r := [])
    rw [List.append_nil, Option.mem_def.mp hc] at hword
    revert hword
    decide

/-- **The phrases that are found are those that stand outside of literals.** -/
theorem mem_scan_mask {m : Nat × List Char} : m ∈ scan none 0 0 (mask text) ↔
    ∃ a, StandsOutside text a m.2 ∧ m.1 = byteCount a := by
  rw [mem_scan]
  constructor
  · rintro ⟨a, ha, hoffset, -⟩
    obtain ⟨u, hu, rfl⟩ := stands_mask.mp ha
    rw [mask, byteCount_maskFrom, Nat.zero_add] at hoffset
    exact ⟨u, hu, hoffset⟩
  · rintro ⟨u, hu, hoffset⟩
    refine ⟨mask u, stands_mask.mpr ⟨u, hu, rfl⟩, ?_, Nat.zero_le _⟩
    rw [mask, byteCount_maskFrom, Nat.zero_add]
    exact hoffset

/-- In an ascending list the first entry of a kind is the least one. -/
theorem find?_fst_eq_some {α : Type} {l : List (Nat × α)} {f : Nat × α → Bool}
    (hl : l.Pairwise fun m n => m.1 < n.1) :
    (l.find? f).map Prod.fst = some o ↔ IsLeast {n | ∃ m ∈ l, f m = true ∧ m.1 = n} o := by
  have hleast : ∀ m, l.find? f = some m →
      IsLeast {n | ∃ m ∈ l, f m = true ∧ m.1 = n} m.1 := by
    intro m hm
    obtain ⟨hf, front, behind, rfl, hfront⟩ := List.find?_eq_some_iff_append.mp hm
    refine ⟨⟨m, List.mem_of_find?_eq_some hm, hf, rfl⟩, ?_⟩
    rintro _ ⟨m', hm', hf', rfl⟩
    rcases List.mem_append.mp hm' with h | h
    · have := hfront m' h
      rw [hf'] at this
      cases this
    · rcases List.mem_cons.mp h with rfl | h
      · exact le_rfl
      · exact (List.rel_of_pairwise_cons (List.pairwise_append.mp hl).2.1 h).le
  rw [Option.map_eq_some_iff]
  constructor
  · rintro ⟨m, hm, rfl⟩
    exact hleast m hm
  · intro ho
    obtain ⟨m, hm, hf, -⟩ := ho.1
    cases hfound : l.find? f with
    | none => exact absurd hf (List.find?_eq_none.mp hfound m hm)
    | some m' => exact ⟨m', rfl, (hleast m' hfound).unique ho⟩

/-- **The search finds the first place where the phrase stands outside of literals.** -/
theorem find?_eq_some : find? text phrase = some o ↔ IsLeast {n | StandsAt text phrase n} o := by
  have hstands : {n | StandsAt text phrase n} = {n | ∃ m ∈ scan none 0 0 (mask text),
      (String.ofList (normalizePhrase m.2) == phrase) = true ∧ m.1 = n} := by
    ext n
    constructor
    · rintro ⟨a, w, ha, hw, rfl⟩
      exact ⟨(byteCount a, w), mem_scan_mask.mpr ⟨a, ha, rfl⟩, beq_iff_eq.mpr hw, rfl⟩
    · rintro ⟨m, hm, hphrase, rfl⟩
      obtain ⟨a, ha, hoffset⟩ := mem_scan_mask.mp hm
      exact ⟨a, m.2, ha, beq_iff_eq.mp hphrase, hoffset.symm⟩
  rw [hstands, find?, find?_fst_eq_some pairwise_scan]

/-- The search finds a phrase that stands somewhere. -/
theorem exists_find? {n : Nat} (h : StandsAt text phrase n) : ∃ o, find? text phrase = some o := by
  classical
  have hex : ∃ n, StandsAt text phrase n := ⟨n, h⟩
  exact ⟨Nat.find hex, find?_eq_some.mpr ⟨Nat.find_spec hex, fun _ hm => Nat.find_min' hex hm⟩⟩

end CalendarPhrase

/-! ## Sites of periods -/

variable {st : Statement} {d : Snapshot}

/-- The temporal sites are the site of the period. -/
theorem temporal_detect : (detect text st d).filter (fun site => site.kind == .temporal) =
    (st.period.bind (Site.ofPeriod? text)).toList := by
  have hperm := (List.mergeSort_perm ((st.period.bind (Site.ofPeriod? text)).toList ++
    st.plainNames.filterMap (Site.ofName? text st d)) Site.before).filter
      fun site => site.kind == .temporal
  have hnames : (st.plainNames.filterMap (Site.ofName? text st d)).filter
      (fun site => site.kind == .temporal) = [] := by
    rw [List.filter_eq_nil_iff]
    intro site hsite hkind
    obtain ⟨n, -, hn⟩ := List.mem_filterMap.mp hsite
    exact Site.kind_of_ofName? hn (beq_iff_eq.mp hkind)
  rw [List.filter_append, hnames, List.append_nil] at hperm
  rw [detect]
  cases h : st.period.bind (Site.ofPeriod? text) with
  | none =>
    rw [h] at hperm
    exact List.perm_nil.mp hperm
  | some site =>
    obtain ⟨p, -, hp⟩ := Option.bind_eq_some_iff.mp h
    obtain ⟨_, rfl⟩ := Site.eq_of_ofPeriod? hp
    rw [h] at hperm
    exact List.perm_singleton.mp hperm

/-- The site of a period that is aligned with the calendar and whose phrase is found at `o`. -/
def Site.ofPhrase (phrase : String) (o : Nat) : Site :=
  ⟨.temporal, phrase, some o, [Alignment.calendar.name, Alignment.rolling.name]⟩

/-- A calendar period has a site if its phrase is found. -/
theorem Site.ofPeriod?_of_calendar (ha : p.alignment = .calendar) : Site.ofPeriod? text p =
    (CalendarPhrase.find? text p.phrase).map (Site.ofPhrase p.phrase) :=
  if_pos ha

/-- A calendar period stands somewhere outside of literals, or the unit follows its number at
once. -/
theorem standsAt_or_of_parse (hs : Statement.parse text = .ok st) (hp : st.period = some p)
    (ha : p.alignment = .calendar) :
    (∃ n, StandsAt text p.phrase n) ∨ ¬ DigitsSpaced p.phrase.toList := by
  obtain ⟨a, w, r, htext, hw, hclosed, ⟨c, hc, hword⟩, hr⟩ := isIn_of_parse hs hp
  obtain ⟨hphrase, h⟩ := hw.isPhrase_or ha
  refine h.imp (fun hisPhrase => ?_) fun hspaced => ?_
  · refine ⟨byteCount a, a, w, ⟨r, htext, hisPhrase, hclosed, ?_, hr⟩, hphrase.symm, rfl⟩
    rw [Option.mem_def.mp hc]
    exact hword
  · rwa [hphrase, String.toList_ofList]

/-- A phrase that is found has blanks behind its digits. -/
theorem CalendarPhrase.StandsAt.digitsSpaced {n : Nat} (h : StandsAt text phrase n) :
    DigitsSpaced phrase.toList := by
  obtain ⟨a, w, ⟨r, -, hw, -⟩, rfl, -⟩ := h
  rw [String.toList_ofList]
  exact hw.digitsSpaced

/-- **A period that is aligned with the calendar has one site if a blank stands behind its number,
and none if not.** The site is at the first place where the phrase stands outside of literals. -/
theorem temporal_detect_calendar (hs : Statement.parse text = .ok st) (hp : st.period = some p)
    (ha : p.alignment = .calendar) (d : Snapshot) :
    (DigitsSpaced p.phrase.toList → ∃ o, IsLeast {n | StandsAt text p.phrase n} o ∧
      (detect text st d).filter (fun site => site.kind == .temporal) =
        [Site.ofPhrase p.phrase o]) ∧
    (¬ DigitsSpaced p.phrase.toList →
      (detect text st d).filter (fun site => site.kind == .temporal) = []) := by
  rw [temporal_detect, hp, Option.bind_some, Site.ofPeriod?_of_calendar ha]
  constructor
  · intro hspaced
    obtain ⟨n, hn⟩ := (standsAt_or_of_parse hs hp ha).resolve_right (not_not.mpr hspaced)
    obtain ⟨o, ho⟩ := exists_find? hn
    exact ⟨o, find?_eq_some.mp ho, by rw [ho]; rfl⟩
  · intro hspaced
    cases h : CalendarPhrase.find? text p.phrase with
    | none => rfl
    | some o => exact absurd (find?_eq_some.mp h).1.digitsSpaced hspaced

/-- A question about a period with a blank behind its number. -/
def recentQuestion : List Char :=
  "show revenue from S over last 3 months".toList

theorem temporal_detect_calendar_recentQuestion : ∃ st p, Statement.parse recentQuestion = .ok st ∧
    st.period = some p ∧ p.alignment = .calendar ∧ DigitsSpaced p.phrase.toList ∧
    ∃ o, IsLeast {n | StandsAt recentQuestion p.phrase n} o ∧
      (detect recentQuestion st .empty).filter (fun site => site.kind == .temporal) =
        [Site.ofPhrase p.phrase o] := by
  obtain ⟨st, hs, h⟩ := exists_parse recentQuestion rfl
    (fun _ st => decide (st.period.map (fun p => (p.alignment, p.phrase)) =
      some (.calendar, "last 3 months")))
    (by decide +kernel)
  obtain ⟨p, hp, h⟩ := Option.map_eq_some_iff.mp (of_decide_eq_true h)
  obtain ⟨ha, hphrase⟩ := Prod.mk.inj h
  have hspaced : DigitsSpaced p.phrase.toList := by
    rw [hphrase]
    decide
  exact ⟨st, p, hs, hp, ha, hspaced, (temporal_detect_calendar hs hp ha .empty).1 hspaced⟩

/-- The same question with the unit directly behind the number. -/
def gluedQuestion : List Char :=
  "show revenue from S over last 3months".toList

/-- **A period whose unit follows its number at once goes unnoticed.** -/
theorem temporal_detect_gluedQuestion : ∃ st p, Statement.parse gluedQuestion = .ok st ∧
    st.period = some p ∧ p.alignment = .calendar ∧
    ∀ d, (detect gluedQuestion st d).filter (fun site => site.kind == .temporal) = [] := by
  obtain ⟨st, hs, h⟩ := exists_parse gluedQuestion rfl
    (fun _ st => decide (st.period.map (fun p => (p.alignment, p.phrase)) =
      some (.calendar, "last 3months")))
    (by decide +kernel)
  obtain ⟨p, hp, h⟩ := Option.map_eq_some_iff.mp (of_decide_eq_true h)
  obtain ⟨ha, hphrase⟩ := Prod.mk.inj h
  have hnone : CalendarPhrase.find? gluedQuestion "last 3months" = none := by decide +kernel
  refine ⟨st, p, hs, hp, ha, fun d => ?_⟩
  rw [temporal_detect, hp, Option.bind_some, Site.ofPeriod?_of_calendar ha, hphrase, hnone]
  rfl

end DataPhrase
