/-
# The normal form of conditions

In a condition that is read, a connective joins two conditions at least, and a conjunction has no
conjunction among its children, however deep it lies (`isNormal_of_read`). The conjuncts of such a
condition are its finest split: none of them splits further, and the condition is their conjunction.
-/
import DataPhrase.Proofs.Grammar.Names
import DataPhrase.Proofs.Printing.Condition

namespace DataPhrase.Condition

variable {a c : Condition} {cs : List Condition} {op : LogicalOp}

/-! ## Nodes -/

mutual

/-- The condition and all conditions inside it. -/
def nodes : Condition → List Condition
  | .comparison l op r => [.comparison l op r]
  | .logical op cs => .logical op cs :: nodesAll cs
  | .not c => .not c :: c.nodes
  | .call n args => [.call n args]

/-- The nodes of a list of conditions. -/
def nodesAll : List Condition → List Condition
  | [] => []
  | c :: r => c.nodes ++ nodesAll r

end

theorem nodesAll_eq (cs : List Condition) : nodesAll cs = cs.flatMap nodes := by
  induction cs with
  | nil => rfl
  | cons c cs ih => rw [nodesAll, ih, List.flatMap_cons]

/-! ## The normal form -/

/-- A connective joins two conditions at least, and none of those of a conjunction is one. -/
def IsFlat : Condition → Prop
  | .logical op cs => 2 ≤ cs.length ∧ (op = .and → ∀ c ∈ cs, c.connective? ≠ some .and)
  | _ => True

/-- Every node of the condition is flat. -/
def IsNormal (c : Condition) : Prop :=
  ∀ a ∈ c.nodes, a.IsFlat

theorem isNormal_logical : (logical op cs).IsNormal ↔
    (logical op cs).IsFlat ∧ ∀ c ∈ cs, c.IsNormal := by
  rw [IsNormal, nodes, nodesAll_eq, List.forall_mem_cons]
  refine and_congr_right fun _ => ?_
  constructor
  · intro h c hc a ha
    exact h a (List.mem_flatMap.mpr ⟨c, hc, ha⟩)
  · intro h a ha
    obtain ⟨c, hc, ha⟩ := List.mem_flatMap.mp ha
    exact h c hc a ha

theorem isNormal_not : (not c).IsNormal ↔ c.IsNormal := by
  rw [IsNormal, nodes, List.forall_mem_cons]
  exact and_iff_right trivial

theorem isNormal_comparison (l r : Expr) (op : CompareOp) : (comparison l op r).IsNormal :=
  List.forall_mem_singleton.mpr trivial

theorem isNormal_call (n : String) (es : List Expr) : (call n es).IsNormal :=
  List.forall_mem_singleton.mpr trivial

/-! ## Conjuncts -/

/-- A condition is the conjunction of its conjuncts: those of a conjunction are two at least, and
another condition is its only one. -/
theorem IsNormal.conjuncts_cases (h : c.IsNormal) :
    (2 ≤ c.conjuncts.length ∧ c = .logical .and c.conjuncts) ∨ c.conjuncts = [c] := by
  by_cases hc : c.connective? = some .and
  · left
    cases c with
    | logical op cs =>
      cases op with
      | and => exact ⟨(isNormal_logical.mp h).1.1, rfl⟩
      | or => cases hc
    | _ => cases hc
  · exact Or.inr (conjuncts_of_connective? hc)

theorem IsNormal.conjuncts_ne_nil (h : c.IsNormal) : c.conjuncts ≠ [] := by
  intro hnil
  rcases h.conjuncts_cases with ⟨hlength, -⟩ | hone
  · rw [hnil] at hlength
    exact absurd hlength (by decide)
  · rw [hnil] at hone
    cases hone

/-- The conjuncts of a normal condition are normal, and none is a conjunction. -/
theorem IsNormal.of_mem_conjuncts (h : c.IsNormal) (ha : a ∈ c.conjuncts) :
    a.IsNormal ∧ a.connective? ≠ some .and := by
  by_cases hc : c.connective? = some .and
  · cases c with
    | logical op cs =>
      cases op with
      | and =>
        obtain ⟨⟨-, hflat⟩, hall⟩ := isNormal_logical.mp h
        exact ⟨hall a ha, hflat rfl a ha⟩
      | or => cases hc
    | _ => cases hc
  · rw [conjuncts_of_connective? hc, List.mem_singleton] at ha
    rw [ha]
    exact ⟨h, hc⟩

/-- No conjunct of a normal condition splits further. -/
theorem IsNormal.conjuncts_conjunct (h : c.IsNormal) (ha : a ∈ c.conjuncts) : a.conjuncts = [a] :=
  conjuncts_of_connective? (h.of_mem_conjuncts ha).2

/-- A normal condition is the conjunction of its conjuncts. -/
theorem IsNormal.and_conjuncts (h : c.IsNormal) : and c.conjuncts = c := by
  rcases h.conjuncts_cases with ⟨hlength, hand⟩ | hone
  · rw [and_of_connective? (fun a ha => (h.of_mem_conjuncts ha).2) hlength, ← hand]
  · rw [hone, and, List.flatMap_singleton, hone]

/-! ## What keeps the form -/

/-- A conjunction of normal conditions is normal: its children are their conjuncts. -/
theorem isNormal_and (hne : cs ≠ []) (h : ∀ c ∈ cs, c.IsNormal) : (and cs).IsNormal := by
  have hparts : ∀ a ∈ cs.flatMap conjuncts, a.IsNormal ∧ a.connective? ≠ some .and := by
    intro a ha
    obtain ⟨c, hc, ha⟩ := List.mem_flatMap.mp ha
    exact (h c hc).of_mem_conjuncts ha
  have hflat : cs.flatMap conjuncts ≠ [] := by
    obtain ⟨c, cs, rfl⟩ := List.exists_cons_of_ne_nil hne
    rw [List.flatMap_cons]
    exact List.append_ne_nil_of_left_ne_nil (h c List.mem_cons_self).conjuncts_ne_nil _
  unfold and
  split
  · next a ha =>
    exact (hparts a (by rw [ha]; exact List.mem_singleton_self a)).1
  · next hmany =>
    have hlength : 2 ≤ (cs.flatMap conjuncts).length := by
      obtain ⟨a, as, has⟩ := List.exists_cons_of_ne_nil hflat
      cases as with
      | nil => exact absurd has (hmany a)
      | cons b bs => simp [has]
    exact isNormal_logical.mpr
      ⟨⟨hlength, fun _ a ha => (hparts a ha).2⟩, fun a ha => (hparts a ha).1⟩

theorem isNormal_or (hne : cs ≠ []) (h : ∀ c ∈ cs, c.IsNormal) : (or cs).IsNormal := by
  unfold or
  split
  · exact h _ (List.mem_singleton_self _)
  · next hmany =>
    have hlength : 2 ≤ cs.length := by
      obtain ⟨a, as, rfl⟩ := List.exists_cons_of_ne_nil hne
      cases as with
      | nil => exact absurd rfl (hmany a)
      | cons b bs => simp
    exact isNormal_logical.mpr ⟨⟨hlength, nofun⟩, h⟩

/-! ## Reading -/

/-- The value of a part is normal. -/
def Part.IsNormal : Part → Prop
  | .disjunction c | .conjunction c | .negation c | .simple c => c.IsNormal
  | .alternatives cs | .conjuncts cs => ∀ c ∈ cs, c.IsNormal

theorem Derives.isNormal {p : Part} {s r : List Char} (h : Derives p s r) : p.IsNormal := by
  induction h with
  | disjunction _ _ ihc ihcs =>
    exact isNormal_or (List.cons_ne_nil _ _) (List.forall_mem_cons.mpr ⟨ihc, ihcs⟩)
  | conjunction _ _ ihc ihcs =>
    exact isNormal_and (List.cons_ne_nil _ _) (List.forall_mem_cons.mpr ⟨ihc, ihcs⟩)
  | alternativesEnd => exact fun _ hc => absurd hc List.not_mem_nil
  | conjunctsEnd => exact fun _ hc => absurd hc List.not_mem_nil
  | alternativesMore _ _ _ ihc ihcs => exact List.forall_mem_cons.mpr ⟨ihc, ihcs⟩
  | conjunctsMore _ _ _ ihc ihcs => exact List.forall_mem_cons.mpr ⟨ihc, ihcs⟩
  | not _ _ ih => exact isNormal_not.mpr ih
  | group _ _ ih => exact ih
  | unnegated _ _ _ ih => exact ih
  | comparison => exact isNormal_comparison _ _ _
  | call => exact isNormal_call _ _

/-- **The reader of conditions gives conditions in normal form.** -/
theorem isNormal_of_read {s r : List Char} (h : (read s).Gives c r) : c.IsNormal :=
  (gives_read_iff.mp ⟨r, h, rfl⟩).isNormal

end DataPhrase.Condition
