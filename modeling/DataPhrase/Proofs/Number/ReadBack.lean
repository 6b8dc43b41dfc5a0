/-
# Decimals that read back

The text of every finite number reads back as that number. A decimal that differs from a value by
less than one part in `2 * 10 ^ 16` rounds to it (`placeOfUnits_of_near`), and of the two
neighbours of the value on the grid of seventeen digits one is that near, so that the search for the
shortest decimal never comes out empty.
-/
import DataPhrase.Expr.Reader
import DataPhrase.Proofs.Number.Whole
import Mathlib.Data.List.TakeWhile

namespace DataPhrase.Number

/-! ## Rounding -/

/-- A quotient within less than a half of a whole number is rounded to it. -/
theorem roundDivEven_of_near {n d q : Nat} (hlow : 2 * (q * d) < 2 * n + d)
    (hhigh : 2 * n < 2 * (q * d) + d) : roundDivEven n d = q := by
  have hd : 0 < d := by omega
  have hdiv := Nat.div_add_mod n d
  have hmod := Nat.mod_lt n hd
  have hcomm := Nat.mul_comm d (n / d)
  rcases Nat.lt_or_ge n (q * d) with hlt | hge
  · have hk : n / d + 1 = q := by
      have hupper : n / d < q := (Nat.div_lt_iff_lt_mul hd).mpr hlt
      have hlower : q ≤ n / d + 1 := by
        by_contra hcon
        have hmul : (n / d + 2) * d ≤ q * d := Nat.mul_le_mul_right d (by omega)
        rw [Nat.add_mul] at hmul
        omega
      omega
    rw [← hk, Nat.add_mul, Nat.one_mul] at hlow
    unfold roundDivEven
    simp only
    rw [if_neg (by omega), if_pos (by omega), hk]
  · have hk : n / d = q := by
      refine Nat.le_antisymm ?_ ((Nat.le_div_iff_mul_le hd).mpr hge)
      refine Nat.lt_succ_iff.mp ((Nat.div_lt_iff_lt_mul hd).mpr ?_)
      rw [Nat.succ_mul]
      omega
    rw [hk] at hdiv hcomm
    unfold roundDivEven
    simp only
    rw [if_pos (by omega), hk]

/-- Rounding depends on the quotient only. -/
theorem roundDivEven_mul_left {c : Nat} (hc : 0 < c) (n d : Nat) :
    roundDivEven (c * n) (c * d) = roundDivEven n d := by
  unfold roundDivEven
  simp only [Nat.mul_div_mul_left n d hc, Nat.mul_mod_mul_left, Nat.mul_left_comm 2 c,
    Nat.mul_lt_mul_left hc]

/-- The place of a fraction does not change when both parts are multiplied. -/
theorem placeOfUnits_mul_left {c : Nat} (hc : 0 < c) (n d : Nat) :
    placeOfUnits (c * n) (c * d) = placeOfUnits n d := by
  unfold placeOfUnits
  simp only [Nat.mul_div_mul_left n d hc, Nat.mul_assoc c d, roundDivEven_mul_left hc]

/-- A magnitude between two powers of two, rounded to the spacing there. -/
theorem placeOfUnits_eq {n d s q : Nat} (hd : 0 < d) (hs : s = 0 ∨ 2 ^ 52 * (d * 2 ^ s) ≤ n)
    (hs' : n < 2 ^ 53 * (d * 2 ^ s)) (hlow : 2 * (q * (d * 2 ^ s)) < 2 * n + d * 2 ^ s)
    (hhigh : 2 * n < 2 * (q * (d * 2 ^ s)) + d * 2 ^ s)
    (hinf : s * binade + q ≤ infinitePlace) : placeOfUnits n d = s * binade + q := by
  have hupper : n / d < 2 ^ (53 + s) := by
    rw [Nat.div_lt_iff_lt_mul hd, pow_add]
    calc n < 2 ^ 53 * (d * 2 ^ s) := hs'
      _ = 2 ^ 53 * 2 ^ s * d := by ring
  have hshift : Nat.log2 (n / d) - 52 = s := by
    rcases hs with rfl | hs
    · rcases Nat.eq_zero_or_pos (n / d) with hzero | hpos
      · rw [hzero]
        rfl
      · have := (Nat.log2_lt hpos.ne').mpr hupper
        omega
    · have hlower : 2 ^ (52 + s) ≤ n / d := by
        rw [Nat.le_div_iff_mul_le hd, pow_add]
        calc 2 ^ 52 * 2 ^ s * d = 2 ^ 52 * (d * 2 ^ s) := by ring
          _ ≤ n := hs
      have hpos : 0 < n / d := Nat.lt_of_lt_of_le (Nat.two_pow_pos _) hlower
      have hle := (Nat.le_log2 hpos.ne').mpr hlower
      have hlt := (Nat.log2_lt hpos.ne').mpr hupper
      omega
  have hround : roundDivEven n (d * Nat.pow 2 s) = q := roundDivEven_of_near hlow hhigh
  unfold placeOfUnits
  simp only [hshift]
  rw [hround, min_eq_right hinf]

/-! ## Magnitudes near a value -/

/-- A place is a spacing, the exponent of which is `s`, and a mantissa. -/
theorem exists_mantissa (p : Nat) : ∃ s m, p = s * binade + m ∧ units p = m * 2 ^ s ∧
    m < 2 * binade ∧ (s = 0 ∨ binade ≤ m) := by
  have hb : 0 < binade := Nat.pow_pos (by omega)
  have hdiv := Nat.div_add_mod p binade
  have hmod := Nat.mod_lt p hb
  unfold units
  split
  · exact ⟨0, p, by omega, by rw [pow_zero, Nat.mul_one], by omega, Or.inl rfl⟩
  · next hp =>
    have hone : 1 ≤ p / binade := (Nat.le_div_iff_mul_le hb).mpr (by omega)
    refine ⟨p / binade - 1, binade + p % binade, ?_, rfl, by omega, Or.inr (by omega)⟩
    have hsplit : binade * (p / binade) = (p / binade - 1) * binade + binade := by
      rw [Nat.mul_comm, ← Nat.succ_mul]
      congr 1
      omega
    omega

/-- The parts of a value among which one has to be missed for it to be told from its neighbours. -/
def parts : Nat := 20000000000000000

/-- **What differs from the value of a place by no more than one of its parts is rounded to it.** -/
theorem placeOfUnits_of_near {n d p : Nat} (hd : 0 < d) (hp : p < infinitePlace) (hpos : 0 < p)
    (hlow : parts * (units p * d) ≤ parts * n + units p * d)
    (hhigh : parts * n ≤ parts * (units p * d) + units p * d) : placeOfUnits n d = p := by
  obtain ⟨s, m, hplace, hunits, hm, hs⟩ := exists_mantissa p
  have hbinade : binade = 4503599627370496 := by rw [binade_eq]; norm_num
  have hstep : 0 < d * 2 ^ s := Nat.mul_pos hd (Nat.two_pow_pos s)
  have hone : 1 ≤ m := by
    rcases hs with rfl | hs <;> omega
  have hvalue : units p * d = m * (d * 2 ^ s) := by rw [hunits]; ring
  have hle : m * (d * 2 ^ s) ≤ (2 * binade - 1) * (d * 2 ^ s) :=
    Nat.mul_le_mul_right _ (by omega)
  rw [hvalue, parts] at hlow hhigh
  rw [hbinade] at hle
  by_cases hbelow : s = 0 ∨ 2 ^ 52 * (d * 2 ^ s) ≤ n
  · rw [hplace]
    refine placeOfUnits_eq hd hbelow ?_ ?_ ?_ (by omega)
    · norm_num at hle ⊢
      omega
    · norm_num at hle
      omega
    · norm_num at hle
      omega
  · -- Just below a power of two the spacing is half of that at the power.
    rw [not_or, Nat.not_le] at hbelow
    obtain ⟨hne, hlt⟩ := hbelow
    obtain ⟨t, rfl⟩ : ∃ t, s = t + 1 := Nat.exists_eq_succ_of_ne_zero hne
    have hmantissa : m = binade := by
      refine Nat.le_antisymm ?_ (hs.resolve_left hne)
      by_contra hcon
      have hmore : (binade + 1) * (d * 2 ^ (t + 1)) ≤ m * (d * 2 ^ (t + 1)) :=
        Nat.mul_le_mul_right _ (by omega)
      rw [hbinade] at hmore
      norm_num at hmore hlt
      omega
    have hhalf : d * 2 ^ (t + 1) = 2 * (d * 2 ^ t) := by rw [pow_succ]; ring
    rw [hmantissa, hbinade, hhalf] at hlow hhigh
    rw [hhalf] at hlt
    have hstep' : 0 < d * 2 ^ t := Nat.mul_pos hd (Nat.two_pow_pos t)
    have htwice : t * binade + 2 * binade = p := by
      rw [hplace, hmantissa, Nat.add_mul, Nat.one_mul, Nat.two_mul, Nat.add_assoc]
    rw [← htwice]
    refine placeOfUnits_eq hd (Or.inr ?_) ?_ ?_ ?_ (by omega)
    · norm_num at hlt ⊢
      omega
    · norm_num at hlt ⊢
      omega
    · rw [hbinade]
      omega
    · rw [hbinade]
      norm_num at hlt
      omega

/-! ## Grids -/

/-- The value at place `p` is the fraction `n / d` in steps of the grid of multiples of `10 ^ e`. -/
structure IsSteps (p : Nat) (e : Int) (n d : Nat) : Prop where
  numerator : n = if 0 ≤ e then units p else units p * Nat.pow 10 (-e).toNat
  denominator : d = if 0 ≤ e then unitsPerOne * Nat.pow 10 e.toNat else unitsPerOne

theorem IsSteps.pos {p n d : Nat} {e : Int} (h : IsSteps p e n d) : 0 < d := by
  rw [h.denominator]
  split
  · exact Nat.mul_pos unitsPerOne_pos (Nat.pow_pos (by decide))
  · exact unitsPerOne_pos

/-- The neighbour that is taken of a value of `n / d` steps, where `b` and `c` tell whether the one
below and the one above read back. -/
def pick (tie : Tie) (n d : Nat) (below above : Decimal) (b c : Bool) : Option Decimal :=
  if n % d = 0 then some below
  else
    match b, c with
    | true, false => some below
    | false, true => some above
    | false, false => none
    | true, true =>
      if 2 * (n % d) < d then some below
      else if d < 2 * (n % d) then some above
      else match tie with
        | .up => some above
        | .even => if (n / d) % 2 = 0 then some below else some above

/-- What is picked is below and exact or reading back, or above and reading back. -/
theorem of_pick {tie : Tie} {n d : Nat} {below above x : Decimal} {b c : Bool}
    (h : pick tie n d below above b c = some x) :
    x = below ∧ (n % d = 0 ∨ b = true) ∨ x = above ∧ c = true := by
  unfold pick at h
  split at h
  · next hdvd => exact Or.inl ⟨(Option.some.inj h).symm, Or.inl hdvd⟩
  · split at h
    · exact Or.inl ⟨(Option.some.inj h).symm, Or.inr rfl⟩
    · exact Or.inr ⟨(Option.some.inj h).symm, rfl⟩
    · cases h
    · have hboth : x = below ∨ x = above := by
        split at h
        · exact Or.inl (Option.some.inj h).symm
        · split at h
          · exact Or.inr (Option.some.inj h).symm
          · cases tie with
            | up => exact Or.inr (Option.some.inj h).symm
            | even =>
              simp only at h
              split at h
              · exact Or.inl (Option.some.inj h).symm
              · exact Or.inr (Option.some.inj h).symm
      exact hboth.imp (fun hx => ⟨hx, Or.inr rfl⟩) fun hx => ⟨hx, rfl⟩

/-- One of two choices is taken when either is allowed. -/
theorem isSome_pick {b c : Bool} (h : b = true ∨ c = true) (tie : Tie) (n d : Nat)
    (below above : Decimal) : (pick tie n d below above b c).isSome = true := by
  unfold pick
  split
  · rfl
  · split
    · rfl
    · rfl
    · simp at h
    · split
      · rfl
      · split
        · rfl
        · cases tie with
          | up => rfl
          | even =>
            simp only
            split <;> rfl

/-- A grid is searched by what its two neighbours of the value read as. -/
theorem IsSteps.onGrid_eq {p n d : Nat} {e : Int} (h : IsSteps p e n d) (tie : Tie) :
    onGrid tie p e = pick tie n d ⟨n / d, e⟩ ⟨n / d + 1, e⟩
      (decide (Decimal.place ⟨n / d, e⟩ = p ∧ n / d ≠ 0))
      (decide (Decimal.place ⟨n / d + 1, e⟩ = p)) := by
  obtain ⟨hn, hd⟩ := h
  obtain ⟨x, hx⟩ : ∃ x, onGrid tie p e = x := ⟨_, rfl⟩
  rw [hx]
  unfold onGrid at hx
  -- The two decisions are put aside: what they decide must not be computed.
  rcases Int.lt_or_le e 0 with he | he
  · rw [if_neg (Int.not_le.mpr he)] at hn hd
    simp only [if_neg (Int.not_le.mpr he)] at hx
    rw [← hn, ← hd] at hx
    generalize decide (Decimal.place ⟨n / d, e⟩ = p ∧ n / d ≠ 0) = b,
      decide (Decimal.place ⟨n / d + 1, e⟩ = p) = c at hx ⊢
    cases b <;> cases c <;> exact hx.symm
  · rw [if_pos he] at hn hd
    simp only [if_pos he] at hx
    rw [← hn, ← hd] at hx
    generalize decide (Decimal.place ⟨n / d, e⟩ = p ∧ n / d ≠ 0) = b,
      decide (Decimal.place ⟨n / d + 1, e⟩ = p) = c at hx ⊢
    cases b <;> cases c <;> exact hx.symm

/-- Every place and exponent has a fraction that counts the steps. -/
theorem exists_isSteps (p : Nat) (e : Int) : ∃ n d, IsSteps p e n d :=
  ⟨_, _, rfl, rfl⟩

section Grid

variable {p : Nat} (hp : p < infinitePlace) (hpos : 0 < p) {tie : Tie} {e : Int}

include hp hpos

/-- A point of a grid that is near enough reads back. -/
theorem IsSteps.place_of_near {n d a : Nat} (h : IsSteps p e n d)
    (hlow : parts * n ≤ parts * (a * d) + n) (hhigh : parts * (a * d) ≤ parts * n + n) :
    Decimal.place ⟨a, e⟩ = p := by
  obtain ⟨rfl, rfl⟩ := h
  rw [Decimal.place, Decimal.ratio]
  rcases Int.lt_or_le e 0 with he | he
  · rw [if_neg (Int.not_le.mpr he)] at hlow hhigh ⊢
    rw [if_neg (Int.not_le.mpr he)] at hlow hhigh
    exact placeOfUnits_of_near (Nat.pow_pos (by decide)) hp hpos hlow hhigh
  · rw [if_pos he] at hlow hhigh ⊢
    rw [if_pos he] at hlow hhigh
    have hcomm : a * Nat.pow 10 e.toNat * unitsPerOne = a * (unitsPerOne * Nat.pow 10 e.toNat) :=
      (Nat.mul_assoc _ _ _).trans (congrArg (a * ·) (Nat.mul_comm _ _))
    refine placeOfUnits_of_near Nat.one_pos hp hpos ?_ ?_
    · rewrite [Nat.mul_one (units p), hcomm]
      exact hlow
    · rewrite [Nat.mul_one (units p), hcomm]
      exact hhigh

/-- What is found on a grid reads back. -/
theorem place_of_onGrid {x : Decimal} (h : onGrid tie p e = some x) : x.place = p := by
  obtain ⟨n, d, hsteps⟩ := exists_isSteps p e
  rw [hsteps.onGrid_eq] at h
  obtain ⟨rfl, hdvd | hbelow⟩ | ⟨rfl, habove⟩ := of_pick h
  · have hvalue := Nat.div_mul_cancel (Nat.dvd_of_mod_eq_zero hdvd)
    refine hsteps.place_of_near hp hpos ?_ ?_ <;>
    · rw [hvalue]
      omega
  · exact (of_decide_eq_true hbelow).1
  · exact of_decide_eq_true habove

/-- On a grid whose steps are at most `10 ^ -16` of the value something is found. -/
theorem IsSteps.isSome_onGrid {n d : Nat} (h : IsSteps p e n d) (hstep : 10000000000000000 * d ≤ n) :
    (onGrid tie p e).isSome = true := by
  have hd := h.pos
  have hdiv := Nat.div_add_mod n d
  have hmod := Nat.mod_lt n hd
  have hcomm := Nat.mul_comm d (n / d)
  rw [h.onGrid_eq]
  -- One of the two neighbours is within half a step.
  refine isSome_pick ?_ tie n d _ _
  rw [decide_eq_true_eq, decide_eq_true_eq]
  rcases Nat.lt_or_ge d (2 * (n % d)) with hlt | hge
  · refine Or.inr (h.place_of_near hp hpos ?_ ?_)
    · rw [parts, Nat.add_mul]
      omega
    · rw [parts, Nat.add_mul]
      omega
  · have hdigits := Nat.div_pos (Nat.le_trans (Nat.le_mul_of_pos_left _ (by decide)) hstep) hd
    refine Or.inl ⟨h.place_of_near hp hpos ?_ ?_, hdigits.ne'⟩
    · rw [parts]
      omega
    · rw [parts]
      omega

/-- The search finds what reads back, at the latest on the grid of seventeen digits. -/
theorem place_of_firstHit {leading : Int} {digits tries : Nat}
    (hlast : (onGrid tie p (leading - 16)).isSome = true) (hsum : digits + tries = 18)
    (htries : 0 < tries) : ∃ x, firstHit tie p leading digits tries = some x ∧ x.place = p := by
  induction tries generalizing digits with
  | zero => omega
  | succ tries ih =>
    rw [firstHit]
    cases hgrid : onGrid tie p (leading - digits + 1) with
    | some x => exact ⟨x, rfl, place_of_onGrid hp hpos hgrid⟩
    | none =>
      rcases Nat.eq_zero_or_pos tries with rfl | hmore
      · rw [show leading - digits + 1 = leading - 16 by omega] at hgrid
        rw [hgrid] at hlast
        cases hlast
      · exact ih (by omega) hmore

end Grid

/-! ## The leading digit -/

/-- The value is at least `10 ^ e`. -/
structure ReachesPower (p : Nat) (e : Int) : Prop where
  whole : 0 ≤ e → unitsPerOne * 10 ^ e.toNat ≤ units p
  part : e < 0 → unitsPerOne ≤ units p * 10 ^ (-e).toNat

/-- A number reaches the power `-k` of ten if `10 ^ k` times as much is at least one. -/
theorem reachesPower_neg {p k : Nat} (h : unitsPerOne ≤ units p * 10 ^ k) :
    ReachesPower p (-(k : Int)) := by
  refine ⟨fun hk => ?_, fun _ => ?_⟩
  · obtain rfl : k = 0 := by omega
    rewrite [pow_zero, Nat.mul_one (units p)] at h
    rewrite [Int.natCast_zero, Int.neg_zero, Int.toNat_zero, pow_zero, Nat.mul_one unitsPerOne]
    exact h
  · rwa [Int.neg_neg, Int.toNat_natCast]

/-- Powers of ten grow a little faster than the guess assumes. -/
theorem two_pow_le_guess {k : Nat} (hk : k < 1075) :
    2 ^ (k + 1) ≤ 10 ^ (k * 30103 / 100000 + 2) := by
  have h : ∀ k < 1075, 2 ^ (k + 1) ≤ 10 ^ (k * 30103 / 100000 + 2) := by decide +kernel
  exact h k hk

/-- A number of so many digits is at least the power of ten with one digit less zeros. -/
theorem pow_digitCount_le {q : Nat} (hq : 0 < q) : 10 ^ (digitCount q - 1) ≤ q := by
  rcases Nat.eq_zero_or_pos (digitCount q - 1) with hzero | hpos
  · rw [hzero]
    exact hq
  · by_contra hlt
    have hcount := (Nat.length_toDigits_le_iff (by decide) hpos).mpr (Nat.lt_of_not_le hlt)
    have hself : digitCount q = (Nat.toDigits 10 q).length := rfl
    omega

/-- A number above one reaches the power of ten of its whole part. -/
theorem reachesPower_of_one_le {p : Nat} (hone : unitsPerOne ≤ units p) :
    ReachesPower p ((digitCount (units p / unitsPerOne) : Int) - 1) := by
  have hcount : 0 < digitCount (units p / unitsPerOne) := Nat.length_toDigits_pos
  have hlow := (Nat.le_div_iff_mul_le unitsPerOne_pos).mp
    (pow_digitCount_le (Nat.div_pos hone unitsPerOne_pos))
  generalize digitCount (units p / unitsPerOne) = k at hcount hlow ⊢
  refine ⟨fun _ => ?_, fun hneg => absurd hneg (by omega)⟩
  rw [show ((k : Int) - 1).toNat = k - 1 by omega]
  exact Nat.le_trans (Nat.le_of_eq (Nat.mul_comm _ _)) hlow

/-- The guess is at most two less than what is needed. -/
theorem one_le_mul_guess {p : Nat} (hpos : 0 < p) :
    unitsPerOne ≤
      units p * 10 ^ (Nat.log2 (unitsPerOne / units p) * 30103 / 100000 + 2) := by
  obtain ⟨w, hw, hunits⟩ := unitsPerOne_eq
  have hlog : Nat.log2 (unitsPerOne / units p) < 1075 := by
    rcases Nat.eq_zero_or_pos (unitsPerOne / units p) with hzero | hquotient
    · rw [hzero]
      decide
    · rw [Nat.log2_lt hquotient.ne', hunits, show 1075 = w + 1 by omega, pow_succ]
      have := Nat.div_le_self (2 ^ w) (units p)
      have := Nat.two_pow_pos w
      omega
  have hquotient : unitsPerOne / units p < 2 ^ (Nat.log2 (unitsPerOne / units p) + 1) :=
    Nat.lt_log2_self
  calc unitsPerOne ≤ units p * 2 ^ (Nat.log2 (unitsPerOne / units p) + 1) := by
        rw [Nat.mul_comm]
        exact Nat.le_of_lt ((Nat.div_lt_iff_lt_mul (units_pos hpos)).mp hquotient)
    _ ≤ _ := Nat.mul_le_mul_left (units p) (two_pow_le_guess hlog)

/-- Every positive number reaches the power of its leading digit. -/
theorem reachesPower_leadingExponent {p : Nat} (hpos : 0 < p) :
    ReachesPower p (leadingExponent p) := by
  unfold leadingExponent
  extract_lets u guess
  by_cases hone : unitsPerOne ≤ u
  · rw [if_pos hone]
    exact reachesPower_of_one_le hone
  · rw [if_neg hone]
    have hguess : unitsPerOne ≤ u * 10 ^ (guess + 2) := one_le_mul_guess hpos
    clear_value guess
    split
    · next h => exact reachesPower_neg h
    · split
      · next h => exact reachesPower_neg h
      · exact reachesPower_neg hguess

/-- Seventeen digits are fine enough. -/
theorem IsSteps.fine {p n d : Nat} {e : Int} (h : IsSteps p (e - 16) n d)
    (hpower : ReachesPower p e) : 10000000000000000 * d ≤ n := by
  obtain ⟨hn, hd⟩ := h
  obtain ⟨hwhole, hpart⟩ := hpower
  change n = if 0 ≤ e - 16 then units p else units p * 10 ^ (-(e - 16)).toNat at hn
  change d = if 0 ≤ e - 16 then unitsPerOne * 10 ^ (e - 16).toNat else unitsPerOne at hd
  have hsixteen : (10000000000000000 : Nat) = 10 ^ 16 := by norm_num
  generalize unitsPerOne = one at hd hwhole hpart
  rw [hn, hd, hsixteen]
  rcases Int.lt_or_le e 0 with he | he
  · rw [if_neg (by omega), if_neg (by omega), show (-(e - 16)).toNat = (-e).toNat + 16 by omega, pow_add]
    calc 10 ^ 16 * one ≤ 10 ^ 16 * (units p * 10 ^ (-e).toNat) := Nat.mul_le_mul_left _ (hpart he)
      _ = units p * (10 ^ (-e).toNat * 10 ^ 16) := by rw [Nat.mul_comm, Nat.mul_assoc]
  · rcases Int.lt_or_le (e - 16) 0 with he' | he'
    · rw [if_neg (by omega), if_neg (by omega)]
      have hsplit : 16 = e.toNat + (-(e - 16)).toNat := by omega
      calc 10 ^ 16 * one = one * 10 ^ e.toNat * 10 ^ (-(e - 16)).toNat := by
            rw [Nat.mul_assoc, ← pow_add, ← hsplit, Nat.mul_comm]
        _ ≤ units p * 10 ^ (-(e - 16)).toNat := Nat.mul_le_mul_right _ (hwhole he)
    · rw [if_pos he', if_pos he']
      have hsplit : e.toNat = 16 + (e - 16).toNat := by omega
      calc 10 ^ 16 * (one * 10 ^ (e - 16).toNat) = one * 10 ^ e.toNat := by
            rw [hsplit, pow_add, Nat.mul_left_comm]
        _ ≤ units p := hwhole he

/-! ## Shortest decimals -/

/-- A power of ten is the same in the digits and in the exponent. -/
theorem Decimal.place_succ (a : Nat) (e : Int) :
    Decimal.place ⟨a, e + 1⟩ = Decimal.place ⟨a * 10, e⟩ := by
  rw [Decimal.place, Decimal.place, Decimal.ratio, Decimal.ratio]
  simp only [Nat.pow_eq]
  generalize unitsPerOne = one
  rcases Int.lt_or_le e 0 with he | he
  · rw [if_neg (Int.not_le.mpr he)]
    obtain ⟨k, hk⟩ : ∃ k, (-e).toNat = k + 1 := Nat.exists_eq_succ_of_ne_zero (by omega)
    rw [hk, pow_succ']
    rcases Int.lt_or_le (e + 1) 0 with he' | he'
    · rw [if_neg (Int.not_le.mpr he'), show (-(e + 1)).toNat = k by omega, Nat.mul_right_comm,
        Nat.mul_comm (a * one), placeOfUnits_mul_left (by decide)]
    · rw [if_pos he', show (e + 1).toNat = 0 by omega, show k = 0 by omega, pow_zero, Nat.mul_one,
        Nat.mul_right_comm, Nat.mul_comm (a * one)]
      exact (placeOfUnits_mul_left (by decide) _ 1).symm
  · rw [if_pos he, if_pos (by omega), show (e + 1).toNat = e.toNat + 1 by omega, pow_succ',
      Nat.mul_assoc a 10]

/-- Zeros that are cut do not count. -/
theorem Decimal.place_trim (x : Decimal) (tries : Nat) : (x.trim tries).place = x.place := by
  induction tries generalizing x with
  | zero => rfl
  | succ tries ih =>
    rw [Decimal.trim]
    split
    · next hzero =>
      rw [ih, place_succ, Nat.div_mul_cancel (Nat.dvd_of_mod_eq_zero hzero.1)]
    · rfl

/-- **The shortest decimal of a finite number reads back as it.** -/
theorem place_shortest {p : Nat} (hp : p < infinitePlace) (tie : Tie) :
    (shortest tie p).place = p := by
  unfold shortest
  split
  · next hzero =>
    rw [hzero]
    decide +kernel
  · next hne =>
    have hpos := Nat.pos_of_ne_zero hne
    have hpower := reachesPower_leadingExponent hpos
    generalize leadingExponent p = e at hpower ⊢
    obtain ⟨n, d, hsteps⟩ := exists_isSteps p (e - 16)
    have hfine : 10000000000000000 * d ≤ n := hsteps.fine hpower
    have hhit : ∃ x, firstHit tie p e 1 17 = some x ∧ x.place = p :=
      place_of_firstHit hp hpos (hsteps.isSome_onGrid hp hpos hfine) rfl (by decide)
    obtain ⟨x, hx, hplace⟩ := hhit
    rw [hx]
    exact (x.place_trim 17).trans hplace

/-! ## Notation -/

section Notation

open Text Lexeme DataPhrase.Expr

/-- A leading zero counts nothing. -/
theorem natOfDigits_zero_cons (ds : List Char) : natOfDigits ('0' :: ds) = natOfDigits ds := rfl

/-- Leading zeros count nothing. -/
theorem natOfDigits_zeros_append (k : Nat) (ds : List Char) :
    natOfDigits (List.replicate k '0' ++ ds) = natOfDigits ds := by
  induction k with
  | zero => rfl
  | succ k ih => rw [List.replicate_succ, List.cons_append, natOfDigits_zero_cons, ih]

theorem isDigit_of_mem_digitChars {n : Nat} {c : Char} (h : c ∈ digitChars n) : isDigit c = true :=
  Nat.isDigit_of_mem_toDigits (by decide) (by decide) h

theorem isDigit_of_mem_zeros {k : Nat} {c : Char} (h : c ∈ List.replicate k '0') :
    isDigit c = true := by
  rw [List.eq_of_mem_replicate h]
  decide

/-- Digits alone are read as a whole number. -/
theorem numberOf?_whole {ds : List Char} (h : ∀ c ∈ ds, isDigit c = true) :
    numberOf? ds = some (ofNat (natOfDigits ds)) := by
  unfold numberOf?
  rw [List.takeWhile_eq_self_iff.mpr h, List.dropWhile_eq_nil_iff.mpr h]

/-- Digits with a point among them are read as a decimal. -/
theorem numberOf?_point {ds places : List Char} (hds : ∀ c ∈ ds, isDigit c = true)
    (hplaces : ∀ c ∈ places, isDigit c = true) :
    numberOf? (ds ++ '.' :: places) =
      some (ofDecimal (natOfDigits (ds ++ places)) places.length) := by
  have htake : (ds ++ '.' :: places).takeWhile isDigit = ds := by
    rw [List.takeWhile_append_of_pos hds, List.takeWhile_cons_of_neg (by decide), List.append_nil]
  have hdrop : (ds ++ '.' :: places).dropWhile isDigit = '.' :: places := by
    rw [List.dropWhile_append_of_pos hds, List.dropWhile_cons_of_neg (by decide)]
  unfold numberOf?
  rw [htake, hdrop]
  simp only [List.all_eq_true.mpr hplaces, if_true]

/-- A decimal in positional notation is read as what it rounds to. -/
theorem numberOf?_positional (x : Decimal) : numberOf? (positional x) = some ⟨false, x.place⟩ := by
  obtain ⟨a, e⟩ := x
  have hdigits : ∀ c ∈ digitChars a, isDigit c = true := fun c hc => isDigit_of_mem_digitChars hc
  unfold positional Decimal.place Decimal.ratio
  simp only
  split
  · next he =>
    rw [numberOf?_whole, natOfDigits_append_zeros, natOfDigits_digitChars]
    · rfl
    · intro c hc
      exact (List.mem_append.mp hc).elim (hdigits c) isDigit_of_mem_zeros
  · next he =>
    split
    · next hcut =>
      rw [numberOf?_point (fun c hc => hdigits c (List.mem_of_mem_take hc))
        (fun c hc => hdigits c (List.mem_of_mem_drop hc)), List.take_append_drop,
        natOfDigits_digitChars, List.length_drop,
        show (digitChars a).length - ((digitChars a).length - (-e).toNat) = (-e).toNat by omega]
      rfl
    · next hcut =>
      have hzeros : ∀ c ∈ List.replicate ((-e).toNat - (digitChars a).length) '0' ++ digitChars a,
          isDigit c = true := fun c hc =>
        (List.mem_append.mp hc).elim isDigit_of_mem_zeros (hdigits c)
      have hzero : ∀ c ∈ ['0'], isDigit c = true := List.forall_mem_singleton.mpr rfl
      have hread := numberOf?_point hzero hzeros
      rw [List.singleton_append, List.singleton_append, natOfDigits_zero_cons,
        natOfDigits_zeros_append, natOfDigits_digitChars, List.length_append, List.length_replicate,
        show (-e).toNat - (digitChars a).length + (digitChars a).length = (-e).toNat by omega] at hread
      exact hread

/-- The notation consists of digits and points and starts with a digit. -/
theorem positional_spelling (x : Decimal) :
    ∃ c r, positional x = c :: r ∧ isDigit c = true ∧ ∀ d ∈ positional x, isNumberChar d = true := by
  obtain ⟨a, e⟩ := x
  have hnumber : ∀ {c}, isDigit c = true → isNumberChar c = true := fun h => by
    rw [isNumberChar, h, Bool.true_or]
  have hdigits : ∀ c ∈ digitChars a, isDigit c = true := fun c hc => isDigit_of_mem_digitChars hc
  obtain ⟨c, r, hcr⟩ : ∃ c r, digitChars a = c :: r :=
    List.exists_cons_of_ne_nil Nat.toDigits_ne_nil
  have hc : isDigit c = true := hdigits c (hcr ▸ List.mem_cons_self)
  unfold positional
  simp only
  split
  · refine ⟨c, r ++ List.replicate e.toNat '0', by rw [hcr]; rfl, hc, fun d hd => hnumber ?_⟩
    exact (List.mem_append.mp hd).elim (hdigits d) isDigit_of_mem_zeros
  · split
    · next he hcut =>
      obtain ⟨k, hk⟩ : ∃ k, (digitChars a).length - (-e).toNat = k + 1 :=
        Nat.exists_eq_succ_of_ne_zero (by omega)
      refine ⟨c, r.take k ++ '.' :: (digitChars a).drop (k + 1), by rw [hk, hcr]; rfl, hc, ?_⟩
      intro d hd
      obtain hd | hd := List.mem_append.mp hd
      · exact hnumber (hdigits d (List.mem_of_mem_take hd))
      obtain rfl | hd := List.mem_cons.mp hd
      · decide
      · exact hnumber (hdigits d (List.mem_of_mem_drop hd))
    · refine ⟨'0', _, rfl, by decide, ?_⟩
      intro d hd
      obtain rfl | hd := List.mem_cons.mp hd
      · decide
      obtain rfl | hd := List.mem_cons.mp hd
      · decide
      exact hnumber ((List.mem_append.mp hd).elim isDigit_of_mem_zeros (hdigits d))

/-- The text of a number in generated code without its sign. -/
def unsignedText (x : Number) : List Char :=
  if x.isFinite then positional (shortest .up x.place) else ['i', 'n', 'f']

theorem text_eq (x : Number) :
    x.text = if x.negative then '-' :: x.unsignedText else x.unsignedText := rfl

/-- **The text of a finite number, without its sign, reads back as its magnitude.** -/
theorem numberOf?_unsignedText {x : Number} (h : x.isFinite = true) :
    numberOf? x.unsignedText = some ⟨false, x.place⟩ := by
  rw [unsignedText, if_pos h, numberOf?_positional, place_shortest (of_decide_eq_true h)]

/-- The text of a finite number without its sign starts with a digit. -/
theorem head?_unsignedText {x : Number} (h : x.isFinite = true) :
    x.unsignedText.head?.any isDigit = true := by
  obtain ⟨c, r, hcr, hc, -⟩ := positional_spelling (shortest .up x.place)
  rw [unsignedText, if_pos h, hcr, List.head?_cons, Option.any_some, hc]

end Notation

end DataPhrase.Number
