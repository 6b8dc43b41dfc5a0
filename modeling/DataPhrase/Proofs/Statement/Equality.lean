/-
# Equality of statements

Equality of expressions, conditions and statements is decidable, so that statements that are read
from a text can be compared by computation.
-/
import DataPhrase.Statement.Basic

namespace DataPhrase

/-! ## Expressions -/

namespace Expr

mutual

/-- Comparing two expressions. -/
def same : Expr → Expr → Bool
  | .literal v, .literal w => v == w
  | .field q n, .field r m => q == r && n == m
  | .metric s n, .metric t m => s == t && n == m
  | .call n as, .call m bs => n == m && sameAll as bs
  | .binary op l r, .binary op' l' r' => op == op' && l.same l' && r.same r'
  | .negate e, .negate f => e.same f
  | .star, .star => true
  | _, _ => false

/-- Comparing two lists of expressions. -/
def sameAll : List Expr → List Expr → Bool
  | [], [] => true
  | a :: as, b :: bs => a.same b && sameAll as bs
  | _, _ => false

end

mutual

theorem same_iff (a b : Expr) : a.same b = true ↔ a = b := by
  cases a <;> cases b <;> simp [same]
  case call.call n as m bs => rw [sameAll_iff]; simp
  case binary.binary op l r op' l' r' => rw [same_iff l l', same_iff r r', and_assoc]
  case negate.negate e f => exact same_iff e f

theorem sameAll_iff (as bs : List Expr) : sameAll as bs = true ↔ as = bs := by
  cases as <;> cases bs <;> simp [sameAll]
  case cons.cons a as b bs => rw [same_iff, sameAll_iff]

end

instance : DecidableEq Expr :=
  fun a b => decidable_of_iff (a.same b = true) (same_iff a b)

end Expr

/-! ## Conditions -/

namespace Condition

mutual

/-- Comparing two conditions. -/
def same : Condition → Condition → Bool
  | .comparison l op r, .comparison l' op' r' => l == l' && op == op' && r == r'
  | .logical op cs, .logical op' cs' => op == op' && sameAll cs cs'
  | .not c, .not d => c.same d
  | .call n as, .call m bs => n == m && as == bs
  | _, _ => false

/-- Comparing two lists of conditions. -/
def sameAll : List Condition → List Condition → Bool
  | [], [] => true
  | a :: as, b :: bs => a.same b && sameAll as bs
  | _, _ => false

end

mutual

theorem same_iff (a b : Condition) : a.same b = true ↔ a = b := by
  cases a <;> cases b <;> simp [same]
  case comparison.comparison => rw [and_assoc]
  case logical.logical op cs op' cs' => rw [sameAll_iff]; simp
  case not.not c d => exact same_iff c d

theorem sameAll_iff (as bs : List Condition) : sameAll as bs = true ↔ as = bs := by
  cases as <;> cases bs <;> simp [sameAll]
  case cons.cons a as b bs => rw [same_iff, sameAll_iff]

end

instance : DecidableEq Condition :=
  fun a b => decidable_of_iff (a.same b = true) (same_iff a b)

end Condition

/-! ## Statements -/

deriving instance DecidableEq for Operation

deriving instance DecidableEq for Statement

end DataPhrase
