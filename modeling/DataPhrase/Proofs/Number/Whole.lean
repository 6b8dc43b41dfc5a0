/-
# Whole numbers

A whole number below `2 ^ 53` is written with exactly its decimal digits: no other whole number
reads back as it, so the shortest text leaves out nothing but zeros at the end, which are filled up.
-/
import DataPhrase.Lexeme
import DataPhrase.Number.Shortest
import Mathlib.Algebra.Order.Group.Nat
import Mathlib.Data.Nat.Log
import Mathlib.Tactic.Ring

namespace DataPhrase.Number

/-! ## Values -/

/-- The integer that the number is, if it is one. -/
def toInt? (x : Number) : Option Int :=
  if x.isFinite && units x.place % unitsPerOne == 0 then
    some (if x.negative then -((units x.place / unitsPerOne : Nat) : Int)
      else ((units x.place / unitsPerOne : Nat) : Int))
  else none

/-- The number is an integer and is spelled out: its text is a minus sign, where it has one, and the
decimal digits of the integer. -/
def IsSpelled (x : Number) : Prop :=
  ∃ ds : List Char, ds ≠ [] ∧ (∀ c ∈ ds, Text.isDigit c = true) ∧
    x.text = (if x.negative then '-' :: ds else ds) ∧
    x.toInt? = some (if x.negative then -(Lexeme.natOfDigits ds : Int) else Lexeme.natOfDigits ds)

/-! ## Places of whole numbers -/

/-- One in units as a power with a named exponent, which no step evaluates. -/
theorem unitsPerOne_eq : ∃ w, w = 1074 ∧ unitsPerOne = 2 ^ w := by
  unfold unitsPerOne
  generalize 1074 = w
  exact ⟨w, rfl, Nat.pow_eq⟩

theorem binade_eq : binade = 2 ^ 52 :=
  Nat.pow_eq

theorem unitsPerOne_pos : 0 < unitsPerOne := by
  obtain ⟨w, -, hw⟩ := unitsPerOne_eq
  rw [hw]
  exact Nat.two_pow_pos w

/-- Only the first place is that of zero. -/
theorem units_pos {p : Nat} (h : 0 < p) : 0 < units p := by
  unfold units
  split
  · exact h
  · have hb : 0 < binade := Nat.pow_pos (by omega)
    exact Nat.mul_pos (by omega) (Nat.pow_pos (by omega))

theorem unitsPerOne_eq_mul {k : Nat} (hk : k ≤ 52) :
    unitsPerOne = 2 ^ (52 - k) * 2 ^ (k + 1022) := by
  obtain ⟨w, hw, hunits⟩ := unitsPerOne_eq
  rw [hunits, ← pow_add, show 52 - k + (k + 1022) = w by omega]

theorem roundDivEven_mul (q : Nat) {d : Nat} (hd : 0 < d) : roundDivEven (q * d) d = q := by
  unfold roundDivEven
  simp only [Nat.mul_div_cancel q hd, Nat.mul_mod_left, Nat.mul_zero, if_pos hd]

theorem log2_mul_unitsPerOne {n : Nat} (h : 0 < n) :
    Nat.log2 (n * unitsPerOne) = Nat.log2 n + 1074 := by
  have hle := Nat.log2_self_le h.ne'
  have hlt := Nat.lt_log2_self (n := n)
  obtain ⟨w, hw, hunits⟩ := unitsPerOne_eq
  rw [hunits, ← hw, Nat.log2_eq_iff (Nat.mul_pos h (Nat.two_pow_pos _)).ne', pow_add,
    Nat.add_right_comm, pow_add 2 (n.log2 + 1)]
  exact ⟨Nat.mul_le_mul_right _ hle, Nat.mul_lt_mul_of_pos_right hlt (Nat.two_pow_pos _)⟩

/-- A whole number below `2 ^ 53` moved to the length of a mantissa. -/
theorem mantissa_bounds {n : Nat} (h : 0 < n) (hn : n < 2 ^ 53) :
    binade ≤ n * 2 ^ (52 - Nat.log2 n) ∧ n * 2 ^ (52 - Nat.log2 n) < 2 * binade := by
  have hk : Nat.log2 n < 53 := (Nat.log2_lt h.ne').mpr hn
  have hle := Nat.log2_self_le h.ne'
  have hlt := Nat.lt_log2_self (n := n)
  have hsplit : 2 ^ Nat.log2 n * 2 ^ (52 - Nat.log2 n) = binade := by
    rw [binade_eq, ← pow_add]
    congr 1
    omega
  constructor
  · rw [← hsplit]
    exact Nat.mul_le_mul_right _ hle
  · rw [← hsplit, ← Nat.mul_assoc, ← Nat.pow_succ']
    exact Nat.mul_lt_mul_of_pos_right hlt (Nat.two_pow_pos _)

/-- The place of a whole number below `2 ^ 53`, by its binary exponent. -/
theorem placeOfUnits_of_lt {n : Nat} (h : 0 < n) (hn : n < 2 ^ 53) :
    placeOfUnits (n * unitsPerOne) 1 =
      (Nat.log2 n + 1022) * binade + n * 2 ^ (52 - Nat.log2 n) := by
  have hk : Nat.log2 n < 53 := (Nat.log2_lt h.ne').mpr hn
  obtain ⟨-, hlt⟩ := mantissa_bounds h hn
  have hround : roundDivEven (n * unitsPerOne) (1 * Nat.pow 2 (Nat.log2 n + 1022)) =
      n * 2 ^ (52 - Nat.log2 n) := by
    rw [unitsPerOne_eq_mul (Nat.le_of_lt_succ hk), ← Nat.mul_assoc, Nat.one_mul]
    exact roundDivEven_mul _ (Nat.two_pow_pos _)
  have hbelow : (Nat.log2 n + 1022) * binade + n * 2 ^ (52 - Nat.log2 n) ≤ infinitePlace := by
    have hmul : (Nat.log2 n + 1022) * binade ≤ 1074 * binade := Nat.mul_le_mul_right _ (by omega)
    unfold infinitePlace
    omega
  unfold placeOfUnits
  simp only [Nat.div_one, log2_mul_unitsPerOne h, show Nat.log2 n + 1074 - 52 = Nat.log2 n + 1022 by omega]
  rw [hround, min_eq_right hbelow]

/-- A whole number below `2 ^ 53` is exactly the value at its place. -/
theorem units_placeOfUnits {n : Nat} (h : 0 < n) (hn : n < 2 ^ 53) :
    units (placeOfUnits (n * unitsPerOne) 1) = n * unitsPerOne := by
  have hk : Nat.log2 n < 53 := (Nat.log2_lt h.ne').mpr hn
  obtain ⟨hle, hlt⟩ := mantissa_bounds h hn
  obtain ⟨m, hm⟩ := Nat.exists_eq_add_of_le hle
  have hmlt : m < binade := by omega
  have hpos : 0 < binade := by omega
  have hplace : placeOfUnits (n * unitsPerOne) 1 = m + binade * (Nat.log2 n + 1023) := by
    rw [placeOfUnits_of_lt h hn, hm]
    ring
  have hnot : ¬ m + binade * (Nat.log2 n + 1023) < binade := by
    have : binade * 1 ≤ binade * (Nat.log2 n + 1023) := Nat.mul_le_mul_left _ (by omega)
    omega
  rw [hplace, units, if_neg hnot, Nat.add_mul_mod_self_left, Nat.mod_eq_of_lt hmlt,
    Nat.add_mul_div_left _ _ hpos, Nat.div_eq_of_lt hmlt, ← hm,
    unitsPerOne_eq_mul (Nat.le_of_lt_succ hk), ← Nat.mul_assoc,
    show 0 + (Nat.log2 n + 1023) - 1 = Nat.log2 n + 1022 by omega]
  rfl

/-- From `2 ^ 53` on the places are larger. -/
theorem le_placeOfUnits {n : Nat} (h : 2 ^ 53 ≤ n) :
    1076 * binade ≤ placeOfUnits (n * unitsPerOne) 1 := by
  have hn : 0 < n := Nat.lt_of_lt_of_le (Nat.two_pow_pos 53) h
  have hk : 53 ≤ Nat.log2 n := (Nat.le_log2 hn.ne').mpr h
  have hle := Nat.log2_self_le hn.ne'
  obtain ⟨w, hw, hunits⟩ := unitsPerOne_eq
  have hround : binade ≤ roundDivEven (n * unitsPerOne) (1 * Nat.pow 2 (Nat.log2 n + 1022)) := by
    have hdiv : binade ≤ n * unitsPerOne / (1 * Nat.pow 2 (Nat.log2 n + 1022)) := by
      rw [Nat.one_mul]
      show binade ≤ n * unitsPerOne / 2 ^ (Nat.log2 n + 1022)
      rw [Nat.le_div_iff_mul_le (Nat.two_pow_pos _), hunits, binade_eq, ← pow_add, show 52 + (Nat.log2 n + 1022) = Nat.log2 n + w by omega, pow_add]
      exact Nat.mul_le_mul_right _ hle
    unfold roundDivEven
    simp only
    split
    · exact hdiv
    · split
      · exact Nat.le_succ_of_le hdiv
      · split
        · exact hdiv
        · exact Nat.le_succ_of_le hdiv
  have hshift : 1075 * binade ≤ (Nat.log2 n + 1022) * binade := Nat.mul_le_mul_right _ (by omega)
  unfold placeOfUnits
  simp only [Nat.div_one, log2_mul_unitsPerOne hn,
    show Nat.log2 n + 1074 - 52 = Nat.log2 n + 1022 by omega]
  refine le_min ?_ ?_
  · unfold infinitePlace
    exact Nat.mul_le_mul_right _ (by decide)
  · omega

/-- And so are the values at them. -/
theorem le_units {p : Nat} (h : 1076 * binade ≤ p) : 2 ^ 53 * unitsPerOne ≤ units p := by
  have hpos : 0 < binade := by
    rw [binade_eq]
    exact Nat.two_pow_pos 52
  have hnot : ¬ p < binade := by omega
  have hdiv : 1076 ≤ p / binade := (Nat.le_div_iff_mul_le hpos).mpr h
  obtain ⟨w, hw, hunits⟩ := unitsPerOne_eq
  have hsplit : 2 ^ 53 * unitsPerOne = binade * 2 ^ (w + 1) := by
    rw [hunits, binade_eq, ← pow_add, ← pow_add, show 53 + w = 52 + (w + 1) by omega]
  rw [hsplit, units, if_neg hnot]
  exact Nat.mul_le_mul (Nat.le_add_right _ _) (Nat.pow_le_pow_right (by decide) (by omega))

/-- No other whole number shares the place of one below `2 ^ 53`. -/
theorem eq_of_placeOfUnits_eq {m n : Nat} (hn : n < 2 ^ 53) {p : Nat}
    (hp : units p = n * unitsPerOne) (h : placeOfUnits (m * unitsPerOne) 1 = p) : m = n := by
  have hpos := unitsPerOne_pos
  rcases Nat.lt_or_ge m (2 ^ 53) with hm | hm
  · rcases Nat.eq_zero_or_pos m with rfl | hzero
    · have hzero : placeOfUnits (0 * unitsPerOne) 1 = 0 := by
        rw [Nat.zero_mul]
        decide
      rw [← h, hzero, units, if_pos (by decide)] at hp
      exact ((Nat.mul_eq_zero.mp hp.symm).resolve_right hpos.ne').symm
    · rw [← h, units_placeOfUnits hzero hm] at hp
      exact Nat.eq_of_mul_eq_mul_right hpos hp
  · have hle := le_units (h ▸ le_placeOfUnits hm)
    rw [hp] at hle
    exact absurd (Nat.le_of_mul_le_mul_right hle hpos) (by omega)

/-! ## Shortest decimals -/

/-- The decimal is the whole number `n`. -/
structure Decimal.IsWhole (x : Decimal) (n : Nat) : Prop where
  exponent : 0 ≤ x.exponent
  value : x.digits * 10 ^ x.exponent.toNat = n

theorem Decimal.isWhole_mk {a k n : Nat} (h : a * 10 ^ k = n) : Decimal.IsWhole ⟨a, k⟩ n :=
  ⟨Int.natCast_nonneg k, h⟩

theorem Decimal.place_mk (a k : Nat) :
    Decimal.place ⟨a, k⟩ = placeOfUnits (a * 10 ^ k * unitsPerOne) 1 := by
  unfold Decimal.place Decimal.ratio
  rw [if_pos (Int.natCast_nonneg k), Int.toNat_natCast]
  rfl

section Grid

variable {n p : Nat} (hn : n < 2 ^ 53) (hp : units p = n * unitsPerOne)

include hn hp

/-- On a grid of whole numbers only the number itself reads back. -/
theorem isWhole_of_onGrid {tie : Tie} {k : Nat} {x : Decimal} (h : onGrid tie p k = some x) :
    x.IsWhole n := by
  have hread : ∀ a : Nat, Decimal.place ⟨a, k⟩ = p → Decimal.IsWhole ⟨a, k⟩ n := fun a ha =>
    Decimal.isWhole_mk (eq_of_placeOfUnits_eq hn hp ((Decimal.place_mk a k).symm.trans ha))
  unfold onGrid at h
  simp only [if_pos (Int.natCast_nonneg k), Int.toNat_natCast] at h
  split at h
  · next hdvd =>
    have hvalue := Nat.div_mul_cancel (Nat.dvd_of_mod_eq_zero hdvd)
    rw [hp, ← Nat.mul_assoc, Nat.mul_right_comm] at hvalue
    obtain rfl := Option.some.inj h
    rw [hp]
    exact Decimal.isWhole_mk (Nat.eq_of_mul_eq_mul_right unitsPerOne_pos hvalue)
  · split at h
    · next hbelow _ =>
      obtain rfl := Option.some.inj h
      exact hread _ (of_decide_eq_true hbelow).1
    · next _ habove =>
      obtain rfl := Option.some.inj h
      exact hread _ (of_decide_eq_true habove)
    · cases h
    · next hbelow habove =>
      have hboth := And.intro (hread _ (of_decide_eq_true hbelow).1) (hread _ (of_decide_eq_true habove))
      split at h
      · obtain rfl := Option.some.inj h
        exact hboth.1
      · split at h
        · obtain rfl := Option.some.inj h
          exact hboth.2
        · cases tie with
          | up =>
            obtain rfl := Option.some.inj h
            exact hboth.2
          | even =>
            simp only at h
            split at h
            · obtain rfl := Option.some.inj h
              exact hboth.1
            · obtain rfl := Option.some.inj h
              exact hboth.2

omit hn in
/-- The number lies on the grid of all whole numbers. -/
theorem onGrid_zero (tie : Tie) : ∃ x, onGrid tie p 0 = some x := by
  have hdvd : units p % (unitsPerOne * Nat.pow 10 (0 : Int).toNat) = 0 := by
    have hone : Nat.pow 10 (0 : Int).toNat = 1 := rfl
    rw [hp, hone, Nat.mul_one]
    exact Nat.mul_mod_left n unitsPerOne
  unfold onGrid
  simp only [if_pos (Int.le_refl 0), if_pos hdvd]
  exact ⟨_, rfl⟩

/-- The search ends at the latest on the grid of all whole numbers. -/
theorem isWhole_of_firstHit (tie : Tie) {leading : Int} {digits tries k : Nat}
    (hk : leading - digits + 1 = k) (htries : k < tries) :
    ∃ x, firstHit tie p leading digits tries = some x ∧ x.IsWhole n := by
  induction tries generalizing digits k with
  | zero => omega
  | succ tries ih =>
    rw [firstHit, hk]
    cases hgrid : onGrid tie p k with
    | some x => exact ⟨x, rfl, isWhole_of_onGrid hn hp hgrid⟩
    | none =>
      cases k with
      | zero =>
        obtain ⟨x, hx⟩ := onGrid_zero hp tie
        rw [Int.natCast_zero, hx] at hgrid
        cases hgrid
      | succ k => exact ih (k := k) (by omega) (by omega)

end Grid

/-- Zeros at the end of the digits become part of the exponent. -/
theorem Decimal.IsWhole.trim {x : Decimal} {n : Nat} (h : x.IsWhole n) (tries : Nat) :
    (x.trim tries).IsWhole n := by
  induction tries generalizing x with
  | zero => exact h
  | succ tries ih =>
    rw [Decimal.trim]
    split
    · next hzero =>
      refine ih ⟨Int.add_nonneg h.exponent (by decide), ?_⟩
      have hdiv := Nat.div_mul_cancel (Nat.dvd_of_mod_eq_zero hzero.1)
      have hstep : (x.exponent + 1).toNat = x.exponent.toNat + 1 :=
        Int.toNat_add h.exponent (by decide)
      show x.digits / 10 * 10 ^ (x.exponent + 1).toNat = n
      rw [hstep, pow_succ', ← Nat.mul_assoc, hdiv]
      exact h.value
    · exact h

/-- The shortest decimal of a whole number below `2 ^ 53` is the number. -/
theorem isWhole_shortest {n p : Nat} (hn : n < 2 ^ 53) (hp : units p = n * unitsPerOne) (tie : Tie) :
    (shortest tie p).IsWhole n := by
  unfold shortest
  split
  · next hzero =>
    rw [hzero, units, if_pos (by decide)] at hp
    rw [(Nat.mul_eq_zero.mp hp.symm).resolve_right unitsPerOne_pos.ne']
    exact ⟨Int.le_refl 0, rfl⟩
  · next hzero =>
    have hone : 0 < n := by
      have hpos := units_pos (Nat.pos_of_ne_zero hzero)
      rw [hp] at hpos
      exact Nat.pos_of_mul_pos_right hpos
    have hdigits : 0 < digitCount n ∧ digitCount n ≤ 16 :=
      ⟨Nat.length_toDigits_pos, (Nat.length_toDigits_le_iff (by decide) (by decide)).mpr
        (Nat.lt_trans hn (by decide))⟩
    have hleading : leadingExponent p = (digitCount n : Int) - 1 := by
      unfold leadingExponent
      simp only [hp]
      rw [if_pos (Nat.le_mul_of_pos_left _ hone), Nat.mul_div_cancel _ unitsPerOne_pos]
    have hfirst : ∃ x, firstHit tie p (leadingExponent p) 1 17 = some x ∧ x.IsWhole n :=
      isWhole_of_firstHit hn hp tie (k := digitCount n - 1) (by omega) (by omega)
    obtain ⟨x, hx, hwhole⟩ := hfirst
    rw [hx]
    exact hwhole.trim 17

/-! ## Digits -/

theorem natOfDigits_digitChars (n : Nat) : Lexeme.natOfDigits (digitChars n) = n :=
  Nat.ofDigitChars_toDigits (by decide) (by decide)

theorem natOfDigits_append_zeros (ds : List Char) (k : Nat) :
    Lexeme.natOfDigits (ds ++ List.replicate k '0') = Lexeme.natOfDigits ds * 10 ^ k := by
  induction k with
  | zero => rw [List.replicate_zero, List.append_nil, pow_zero, Nat.mul_one]
  | succ k ih =>
    rw [List.replicate_succ', ← List.append_assoc, Lexeme.natOfDigits, List.foldl_append]
    show 10 * Lexeme.natOfDigits (ds ++ List.replicate k '0') + 0 = _
    rw [ih]
    ring

/-- Every integer below `2 ^ 53` is spelled out. -/
theorem isSpelled_of_lt {x : Number} {n : Int} (h : x.toInt? = some n) (hn : n.natAbs < 2 ^ 53) :
    x.IsSpelled := by
  have hint := h
  unfold toInt? at hint
  split at hint
  · next hwhole =>
    obtain ⟨hfinite, hdvd⟩ := Bool.and_eq_true_iff.mp hwhole
    have hvalue := Nat.div_mul_cancel (Nat.dvd_of_mod_eq_zero (beq_iff_eq.mp hdvd))
    have habs : n.natAbs = units x.place / unitsPerOne := by
      rw [← Option.some.inj hint]
      split
      · rw [Int.natAbs_neg, Int.natAbs_natCast]
      · rw [Int.natAbs_natCast]
    have hshortest := isWhole_shortest (n := n.natAbs) hn (by rw [habs, hvalue]) .up
    have hpositional : positional (shortest .up x.place) =
        digitChars (shortest .up x.place).digits ++
          List.replicate (shortest .up x.place).exponent.toNat '0' := by
      rw [positional, if_pos hshortest.exponent]
    have hread : Lexeme.natOfDigits (positional (shortest .up x.place)) =
        units x.place / unitsPerOne := by
      rw [hpositional, natOfDigits_append_zeros, natOfDigits_digitChars, hshortest.value, habs]
    refine ⟨positional (shortest .up x.place), ?_, ?_, ?_, ?_⟩
    · rw [hpositional]
      exact List.append_ne_nil_of_left_ne_nil Nat.toDigits_ne_nil _
    · intro c hc
      rw [hpositional, List.mem_append] at hc
      rcases hc with hc | hc
      · exact Nat.isDigit_of_mem_toDigits (by decide) (by decide) hc
      · rw [List.eq_of_mem_replicate hc]
        decide
    · rw [text, if_pos hfinite]
    · rw [hread, h, hint]
  · cases hint

end DataPhrase.Number
