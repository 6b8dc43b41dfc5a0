/-
# Places of names

A name stands at a byte of a text if it is written there in any case, between two boundaries of
words, and with none of its characters between the quotes of a literal. The search for a name goes
over the masked text and finds the first such byte of the text itself (`locate_eq_some_iff`): a name
has neither blanks nor quotes, so it can be read neither across a literal nor out of the blanks that
are put for one, and masking keeps the neighbours of what stands outside.
-/
import DataPhrase.Dictionary.Entry
import DataPhrase.Proofs.Ambiguity.Calendar
import DataPhrase.Proofs.Token.Agreement
import Mathlib.Data.Nat.Find
import Mathlib.Order.Bounds.Basic

namespace DataPhrase

open Text Token
open CalendarPhrase (lastOr_none lastOr_cons)

variable {a r s u w text : List Char} {c k q : Char} {n o p : Nat} {before : Option Char}
  {word : String}

/-! ## Whole literals -/

/-- Every literal that opens in the text closes in it. -/
def IsWhole (u : List Char) : Prop :=
  ∃ ls, Holds 0 u ls

/-- A literal that closes is taken off, and whole literals are behind it. -/
theorem exists_literalRest_of_foldl (h : s.foldl MaskState.step (.inside q) = .outside) :
    ∃ x, literalRest q s = some x ∧ ClosesLiterals x.rest := by
  fun_induction literalRest q s with
  | case1 => cases h
  | case2 => cases h
  | case3 c r ih =>
    obtain ⟨x, hx, hrest⟩ := ih h
    exact ⟨_, congrArg (Option.map _) hx, hrest⟩
  | case4 r h1 h2 =>
    refine ⟨_, rfl, ?_⟩
    rw [List.foldl_cons, MaskState.step, if_neg (ne_backslash_of_not h1 h2), if_pos rfl] at h
    exact h
  | case5 c r h1 h2 hc ih =>
    rw [List.foldl_cons, MaskState.step, if_neg (ne_backslash_of_not h1 h2), if_neg hc] at h
    obtain ⟨x, hx, hrest⟩ := ih h
    exact ⟨_, congrArg (Option.map _) hx, hrest⟩

theorem exists_holds (h : ClosesLiterals u) (n : Nat) : ∃ ls, Holds n u ls := by
  induction hk : u.length using Nat.strongRecOn generalizing u n with
  | ind k ih =>
    cases u with
    | nil => exact ⟨[], .nil n⟩
    | cons c u =>
      rw [ClosesLiterals, List.foldl_cons] at h
      cases hc : isQuote c with
      | false =>
        rw [MaskState.step_outside hc] at h
        obtain ⟨ls, hls⟩ := ih u.length (by rw [← hk]; exact Nat.lt_succ_self _) h _ rfl
        exact ⟨ls, .plain hc hls⟩
      | true =>
        rw [MaskState.step_quote hc] at h
        obtain ⟨x, hx, hrest⟩ := exists_literalRest_of_foldl h
        obtain ⟨v, hv, hvalue, hu⟩ := exists_isQuoted hx
        have hlen : x.rest.length < k := by
          have := x.suffix.length_le
          rw [← hk, List.length_cons]
          omega
        obtain ⟨ls, hls⟩ := ih _ hlen hrest (n + byteCount (c :: x.value)) rfl
        have hsplit : c :: u = (c :: x.value) ++ x.rest := by
          rw [hvalue, List.cons_append, List.append_assoc]
          exact congrArg (c :: ·) hu
        rw [hsplit]
        exact ⟨_, .literal (isLiteral_of_literalRest hc hx) hls⟩

theorem Token.Holds.closesLiterals {ls : List Range} (h : Holds n u ls) : ClosesLiterals u := by
  induction h with
  | nil => exact closesLiterals_nil
  | plain hc _ ih => exact (closesLiterals_singleton hc).append ih
  | literal hw _ ih => exact (closesLiterals_of_isLiteral hw).append ih

/-- The scan for quotes ends outside of literals behind whole ones only. -/
theorem isWhole_iff : IsWhole u ↔ ClosesLiterals u :=
  ⟨fun ⟨_, h⟩ => h.closesLiterals, fun h => exists_holds h 0⟩

/-- The character `c` behind `a` does not stand between the quotes of a literal: all literals in
front of it are closed, or it closes the last one. Between the quotes of a literal that is never
closed is all that follows its opening quote. -/
def IsOutside (a : List Char) (c : Char) : Prop :=
  IsWhole a ∨ IsWhole (a ++ [c])

/-- Text without quotes is outside of literals if its start is. -/
theorem forall_isOutside_iff (hne : w ≠ []) (hw : ∀ c ∈ w, isQuote c = false) :
    (∀ u c v, w = u ++ c :: v → IsOutside (a ++ u) c) ↔ ClosesLiterals a := by
  constructor
  · intro h
    obtain ⟨c, w, rfl⟩ := List.exists_cons_of_ne_nil hne
    have hfront := h [] c w rfl
    rw [IsOutside, List.append_nil, isWhole_iff, isWhole_iff] at hfront
    rcases hfront with hfront | hfront
    · exact hfront
    · exact hfront.of_append (List.forall_mem_singleton.mpr (hw c List.mem_cons_self))
  · rintro ha u c v rfl
    refine Or.inl (isWhole_iff.mpr (ha.append (.of_plain fun d hd => ?_)))
    exact hw d (List.mem_append_left _ hd)

/-! ## Characters of names -/

/-- No letter folds to a sign, a digit or a capital of ASCII. -/
theorem Text.foldCode_of_lt (h : foldCode n < 0x61) : foldCode n = n := by
  have hruns : ∀ r ∈ foldRuns, 0x61 ≤ r.2.2.2 := by decide +kernel
  unfold foldCode at h ⊢
  split at h
  · next r hr =>
    have := hruns r (List.mem_of_find?_eq_some hr)
    omega
  · rfl

/-- What is written for a character of a name is neither a blank nor a quote. -/
theorem not_mark_of_sameFolded (hk : isNameChar k = true) (h : sameFolded k c = true) :
    c ≠ ' ' ∧ isQuote c = false := by
  rw [sameFolded, beq_iff_eq] at h
  have hsame (m : Char) (hm : foldCode m.toNat = m.toNat) (hlt : m.toNat < 0x61)
      (hnot : isNameChar m = false) : c ≠ m := by
    rintro rfl
    rw [hm] at h
    have hfold := foldCode_of_lt (h.trans_lt hlt)
    obtain rfl : k = c := Char.toNat_inj.mp (hfold.symm.trans h)
    rw [hk] at hnot
    cases hnot
  refine ⟨hsame ' ' (by decide) (by decide) (by decide), ?_⟩
  rw [isQuote, Bool.or_eq_false_iff, beq_eq_false_iff_ne, beq_eq_false_iff_ne]
  exact ⟨hsame '"' (by decide) (by decide) (by decide),
    hsame '\'' (by decide) (by decide) (by decide)⟩

theorem Text.Spells.forall_written {subject : String} (h : Spells subject w)
    (hname : ∀ k ∈ subject.toList, isNameChar k = true) :
    ∀ c ∈ w, c ≠ ' ' ∧ isQuote c = false := by
  rw [Spells] at h
  generalize subject.toList = l at h hname
  induction h with
  | nil => exact List.forall_mem_nil _
  | cons hc _ ih =>
    rw [List.forall_mem_cons] at hname ⊢
    exact ⟨not_mark_of_sameFolded hname.1 hc, ih hname.2⟩

/-! ## The search for a word -/

/-- The word stands in the text behind `a`, in any case and between two boundaries of words, where
`before` is the character before the text. -/
def IsFound (word : String) (before : Option Char) (s a : List Char) : Prop :=
  ∃ w r, s = a ++ (w ++ r) ∧ Spells word w ∧
    isBoundary (lastOr before a) (w ++ r).head? = true ∧
    isBoundary (lastOr (lastOr before a) w) r.head? = true

theorem startsWord_iff : startsWord word.toList before s = true ↔ IsFound word before s [] := by
  rw [startsWord, Bool.and_eq_true]
  constructor
  · rintro ⟨hfront, h⟩
    split at h
    · next r hr =>
      obtain ⟨w, hw, rfl⟩ := afterFolded_eq_some.mp hr
      rw [List.length_append, Nat.add_sub_cancel, List.take_left] at h
      exact ⟨w, r, rfl, hw, hfront, h⟩
    · cases h
  · rintro ⟨w, r, rfl, hw, hfront, h⟩
    have hr : afterFolded word.toList (w ++ r) = some r := afterFolded_eq_some.mpr ⟨w, hw, rfl⟩
    refine ⟨hfront, ?_⟩
    rw [List.nil_append, hr]
    dsimp only
    rw [List.length_append, Nat.add_sub_cancel, List.take_left]
    exact h

theorem isFound_cons : IsFound word before (c :: s) (c :: a) ↔ IsFound word (some c) s a := by
  simp only [IsFound, lastOr_cons, List.cons_append, List.cons.injEq, true_and]

/-- The search gives the least byte at which the word stands. -/
theorem findWord_eq_some : findWord word.toList before o s = some p ↔
    IsLeast {n | ∃ a, IsFound word before s a ∧ o + byteCount a = n} p := by
  -- At the front it is least.
  have hhere {s : List Char} {before : Option Char} {o : Nat}
      (h : startsWord word.toList before s = true) :
      IsLeast {n | ∃ a, IsFound word before s a ∧ o + byteCount a = n} o := by
    refine ⟨⟨[], startsWord_iff.mp h, rfl⟩, ?_⟩
    rintro _ ⟨a, -, rfl⟩
    exact Nat.le_add_right o _
  induction s generalizing before o with
  | nil =>
    rw [findWord]
    split
    · next h =>
      rw [Option.some.injEq]
      exact ⟨fun ho => ho ▸ hhere h, (hhere h).unique⟩
    · next h =>
      refine iff_of_false nofun ?_
      rintro ⟨⟨a, ha, -⟩, -⟩
      obtain rfl : a = [] := by
        obtain ⟨w, r, hs, -⟩ := ha
        exact (List.append_eq_nil_iff.mp hs.symm).1
      exact h (startsWord_iff.mpr ha)
  | cons c s ih =>
    rw [findWord]
    split
    · next h =>
      rw [Option.some.injEq]
      exact ⟨fun ho => ho ▸ hhere h, (hhere h).unique⟩
    · next h =>
      -- The word does not stand at the front, so it stands in what follows or not at all.
      have hbehind : {n | ∃ a, IsFound word before (c :: s) a ∧ o + byteCount a = n} =
          {n | ∃ a, IsFound word (some c) s a ∧ o + c.utf8Size + byteCount a = n} := by
        ext n
        constructor
        · rintro ⟨a, ha, rfl⟩
          cases a with
          | nil => exact absurd (startsWord_iff.mpr ha) h
          | cons d a =>
            obtain rfl : c = d := by
              obtain ⟨w, r, hs, -⟩ := ha
              exact (List.cons.inj hs).1
            exact ⟨a, isFound_cons.mp ha, by rw [byteCount_cons, Nat.add_assoc]⟩
        · rintro ⟨a, ha, rfl⟩
          exact ⟨c :: a, isFound_cons.mpr ha, by rw [byteCount_cons, Nat.add_assoc]⟩
      rw [hbehind]
      exact ih

/-! ## Places -/

/-- The name stands at byte `n` of the text: in any case, between two boundaries of words, and with
no character between the quotes of a literal. -/
def OccursAt (subject : String) (text : List Char) (n : Nat) : Prop :=
  ∃ a w r, text = a ++ (w ++ r) ∧ byteCount a = n ∧ Spells subject w ∧
    isBoundary a.getLast? (w ++ r).head? = true ∧ isBoundary (a ++ w).getLast? r.head? = true ∧
    ∀ u c v, w = u ++ c :: v → IsOutside (a ++ u) c

/-- The last character before a place, or of what stands there. -/
theorem lastOr_getLast? (hne : w ≠ []) (b : Option Char) :
    lastOr b w = (a ++ w).getLast? := by
  rw [lastOr, List.getLast?_append_of_ne_nil a hne, List.getLast?_eq_some_getLast hne]

/-- **A name stands in the masked text where it stands in the text outside of literals.** -/
theorem exists_isFound_mask {subject : String} (hs : isIdentifier subject = true) :
    (∃ b, IsFound subject none (mask text) b ∧ byteCount b = n) ↔ OccursAt subject text n := by
  obtain ⟨k, ks, hsubject, -, hname⟩ := isIdentifier_iff.mp hs
  rw [← hsubject] at hname
  have hne {w : List Char} (hw : Spells subject w) : w ≠ [] := by
    rintro rfl
    rw [Spells, hsubject] at hw
    cases hw
  have hmask {w : List Char} (hw : Spells subject w) (b r : List Char) :=
    mask_eq_append (s := text) (a := b) (b := r)
      (fun c hc => (hw.forall_written hname c (List.mem_of_mem_head? hc)).1) (hne hw)
      fun c hc => (hw.forall_written hname c hc).2
  have hhead {w : List Char} (hw : Spells subject w) (r : List Char) :
      (w ++ mask r).head? = (w ++ r).head? := by
    obtain ⟨c, w, rfl⟩ := List.exists_cons_of_ne_nil (hne hw)
    rfl
  constructor
  · rintro ⟨b, ⟨w, q, htext, hw, hfront, hend⟩, rfl⟩
    obtain ⟨a, r, rfl, ha, rfl, rfl⟩ := (hmask hw b q).mp htext
    rw [lastOr_none, ha.getLast?_mask, hhead hw] at hfront
    rw [lastOr_getLast? (hne hw) (a := a), head?_mask] at hend
    refine ⟨a, w, r, rfl, (byteCount_maskFrom _ a).symm, hw, hfront, hend, ?_⟩
    exact (forall_isOutside_iff (hne hw) fun c hc => (hw.forall_written hname c hc).2).mpr ha
  · rintro ⟨a, w, r, htext, rfl, hw, hfront, hend, hout⟩
    have ha : ClosesLiterals a :=
      (forall_isOutside_iff (hne hw) fun c hc => (hw.forall_written hname c hc).2).mp hout
    refine ⟨mask a, ⟨w, mask r, (hmask hw _ _).mpr ⟨a, r, htext, ha, rfl, rfl⟩, hw, ?_, ?_⟩,
      byteCount_maskFrom _ a⟩
    · rw [lastOr_none, ha.getLast?_mask, hhead hw]
      exact hfront
    · rw [lastOr_getLast? (hne hw) (a := a), head?_mask]
      exact hend

/-- **The place of a name is the first byte at which it stands in the text**, as a whole word and
outside of literals; there is none exactly if it stands nowhere. -/
theorem locate_eq_some_iff {subject : String} (hs : isIdentifier subject = true)
    (text : List Char) :
    (∀ p, locate text subject.toList = some p ↔ IsLeast {n | OccursAt subject text n} p) ∧
      ((locate text subject.toList).isSome = true ↔ ∃ n, OccursAt subject text n) := by
  have hleast (p : Nat) : locate text subject.toList = some p ↔
      IsLeast {n | OccursAt subject text n} p := by
    rw [locate, findWord_eq_some]
    simp only [Nat.zero_add, exists_isFound_mask hs]
  refine ⟨hleast, ?_⟩
  rw [Option.isSome_iff_exists]
  constructor
  · rintro ⟨p, hp⟩
    exact ⟨p, ((hleast p).mp hp).1⟩
  · intro hex
    classical
    exact ⟨Nat.find hex, (hleast _).mpr ⟨Nat.find_spec hex, fun _ hm => Nat.find_min' hex hm⟩⟩

/-- The name `k` in literals, within other words, and at last as the sign of the kelvin. -/
def kelvins : List Char :=
  "\"k\\\" é\"'k'ké.k_ \"\"\u212a, k".toList

theorem locate_eq_some_iff_kelvins : isIdentifier "k" = true ∧
    locate kelvins "k".toList = some 20 ∧ IsLeast {n | OccursAt "k" kelvins n} 20 := by
  have hs : isIdentifier "k" = true := by decide
  have hfound : locate kelvins "k".toList = some 20 := by decide +kernel
  exact ⟨hs, hfound, ((locate_eq_some_iff hs kelvins).1 20).mp hfound⟩

end DataPhrase
