/-
# Dictionary calls in queries

The text of a dictionary call is its template with the texts of the arguments in its places, and it
is put as it is into what surrounds the call. No parentheses are added on the way: the text reads
back as the template with the whole arguments in its places, as one operand of what surrounds it,
exactly if the arguments and the template bind tightly enough where they are put and no comment
opens.
-/
import DataPhrase.Dictionary.Builtin
import DataPhrase.Proofs.Code.Comments
import DataPhrase.Proofs.Code.Readable

namespace DataPhrase.Sql

open Code

/-! ## Reading queries -/

/-- The tree that a text is read as. A text of which a comment hides a part has none. -/
def read? (s : String) : Option Tree :=
  if OpensComment s then none else dialect.read? s

/-- The tree that an expression is meant to be read as. -/
def exprTree? (sc : Scope) (e : Expr) : Option Tree :=
  (Term.ofExpr sc e).toOption.bind tree?

theorem exprTree?_of_ofExpr {sc : Scope} {e : Expr} {t : Term} (h : Term.ofExpr sc e = .ok t) :
    exprTree? sc e = tree? t := by
  rw [exprTree?, h]
  rfl

/-- A term is read as it is meant exactly if its operands bind tightly enough and no comment opens. -/
theorem read?_termText_iff {t : Term} {g : Tree} (h : tree? t = some g) :
    read? (termText t) = some g ↔
      g.IsGrouped ArithOp.precedence ∧ ¬ OpensComment (termText t) := by
  have hread : dialect.read? (termText t) = some g ↔ g.IsGrouped ArithOp.precedence :=
    Dialect.read?_eq_some_iff (marks?_text dialect_spells t h)
  rw [read?, ← hread]
  split
  · next hopens => simp [hopens]
  · next hopens => simp [hopens]

/-! ## Places -/

/-- What surrounds an operand: nothing, an operation with its other operand, or a negation. -/
inductive Place where
  | alone
  | first (op : ArithOp) (other : Expr)
  | second (op : ArithOp) (other : Expr)
  | negated
  deriving Repr

namespace Place

/-- The expression in its place. -/
def expr : Place → Expr → Expr
  | .alone, e => e
  | .first op other, e => .binary op e other
  | .second op other, e => .binary op other e
  | .negated, e => .negate e

/-- The other operand. -/
def other? : Place → Option Expr
  | .first _ other | .second _ other => some other
  | .alone | .negated => none

/-- The tree of the other operand of an operation, in the parentheses that it is written in. -/
def otherTree? (sc : Scope) (op : ArithOp) (right : Bool) (other : Expr) : Option Tree :=
  (Term.ofExpr sc other).toOption.bind fun o => (tree? o).map (Tree.operand op right o.root?)

/-- The tree of an operand in its place. The operand has no parentheses of its own. -/
def tree? (sc : Scope) : Place → Tree → Option Tree
  | .alone, e => some e
  | .first op other, e => (otherTree? sc op true other).map (.binary (.op op) e)
  | .second op other, e => (otherTree? sc op false other).map (.binary (.op op) · e)
  | .negated, e => some (.negate e)

theorem otherTree?_of_ofExpr {sc : Scope} {other : Expr} {o : Term} {b : Tree}
    (ho : Term.ofExpr sc other = .ok o) (hb : Sql.tree? o = some b) (op : ArithOp) (right : Bool) :
    otherTree? sc op right other = some (Tree.operand op right o.root? b) := by
  rw [otherTree?, ho]
  exact congrArg (Option.map _) hb

/-- What settles with a tree does so in its place. -/
theorem exists_tree? {sc : Scope} {p : Place} {e : Expr} {t : Term} {a : Tree}
    (hother : ∀ o ∈ p.other?, o.IsReadable sc) (ht : Term.ofExpr sc e = .ok t)
    (hroot : t.root? = none) (ha : Sql.tree? t = some a) :
    ∃ x g, Term.ofExpr sc (p.expr e) = .ok x ∧ p.tree? sc a = some g ∧ Sql.tree? x = some g := by
  have ha' : t.tree? dialect style = some a := ha
  cases p with
  | alone => exact ⟨t, a, ht, rfl, ha⟩
  | first op other =>
    obtain ⟨o, ho, hotree⟩ := exists_tree?_ofExpr other (hother other rfl)
    obtain ⟨b, hb⟩ := Option.isSome_iff_exists.mp hotree
    have hb' : o.tree? dialect style = some b := hb
    refine ⟨.binary op t o, .binary (.op op) a (Tree.operand op true o.root? b), ?_, ?_, ?_⟩
    · rw [expr, Term.ofExpr, ht, ho]
      rfl
    · rw [tree?, otherTree?_of_ofExpr ho hb, Option.map_some]
    · rw [Sql.tree?, Term.tree?, ha', hb', hroot]
      rfl
  | second op other =>
    obtain ⟨o, ho, hotree⟩ := exists_tree?_ofExpr other (hother other rfl)
    obtain ⟨b, hb⟩ := Option.isSome_iff_exists.mp hotree
    have hb' : o.tree? dialect style = some b := hb
    refine ⟨.binary op o t, .binary (.op op) (Tree.operand op false o.root? b) a, ?_, ?_, ?_⟩
    · rw [expr, Term.ofExpr, ht, ho]
      rfl
    · rw [tree?, otherTree?_of_ofExpr ho hb, Option.map_some]
    · rw [Sql.tree?, Term.tree?, ha', hb', hroot]
      rfl
  | negated =>
    refine ⟨.negate t, .negate a, ?_, rfl, ?_⟩
    · rw [expr, Term.ofExpr, ht]
      rfl
    · rw [Sql.tree?, Term.tree?, ha', hroot]
      rfl

end Place

/-! ## Dictionary calls -/

/-- Readable arguments settle to terms with their trees. -/
theorem exists_trees? {sc : Scope} {args : List Expr} (h : ∀ a ∈ args, a.IsReadable sc) :
    ∃ ts, Term.ofExprs sc args = .ok ts ∧ (∀ t ∈ ts, (tree? t).isSome = true) ∧
      ∀ i, (ts.map tree?).getD i none = args[i]?.bind (exprTree? sc) := by
  induction args with
  | nil => exact ⟨[], rfl, by simp, fun i => rfl⟩
  | cons a args ih =>
    rw [List.forall_mem_cons] at h
    obtain ⟨t, ht, htree⟩ := exists_tree?_ofExpr a h.1
    obtain ⟨ts, hts, htrees, hget⟩ := ih h.2
    refine ⟨t :: ts, ?_, List.forall_mem_cons.mpr ⟨htree, htrees⟩, ?_⟩
    · rw [Term.ofExprs, ht, hts]
      rfl
    · intro i
      cases i with
      | zero => exact (exprTree?_of_ofExpr ht).symm
      | succ i => exact hget i

/-- **A dictionary call reads back as its template with the whole arguments in its places, as one
operand of what surrounds it, exactly if in that tree every operand binds tightly enough for its place
and no comment opens.** -/
theorem read?_dictionaryCall_iff {dictionary : Snapshot} {as : Aliases} {n : String} {t : Template}
    {args : List Expr} {place : Place} {e : Tree}
    (htemplate : functionTemplate (scope dictionary as) n = .ok (some t))
    (htree : dialect.readPieces? t.pieces = some e)
    (harity : t.missing? args.length = none)
    (hargs : ∀ a ∈ args, a.IsReadable (scope dictionary as))
    (hother : ∀ o ∈ place.other?, o.IsReadable (scope dictionary as)) :
    ∃ x g, Term.ofExpr (scope dictionary as) (place.expr (.call n args)) = .ok x ∧
      ((e.fill? fun i => args[i]?.bind (exprTree? (scope dictionary as))).bind
        (place.tree? (scope dictionary as))) = some g ∧
      (read? (termText x) = some g ↔
        g.IsGrouped ArithOp.precedence ∧ ¬ OpensComment (termText x)) := by
  obtain ⟨ts, hts, htrees, hget⟩ := exists_trees? hargs
  have hcall := ofExpr_call htemplate hts harity
  have hlength : t.missing? ts.length = none := by rwa [length_ofExprs hts]
  obtain ⟨a, ha⟩ := Option.isSome_iff_exists.mp (isSome_tree?_template htree hlength htrees)
  have hfill : (e.fill? fun i => args[i]?.bind (exprTree? (scope dictionary as))) = some a := by
    rw [← ha, tree?, Term.tree?, htree, trees?_eq_map]
    exact congrArg e.fill? (funext fun i => (hget i).symm)
  obtain ⟨x, g, hx, hg, hxg⟩ := Place.exists_tree? hother hcall rfl ha
  refine ⟨x, g, hx, ?_, read?_termText_iff hxg⟩
  rw [hfill]
  exact hg

/-! ## A margin -/

/-- The template `({0} - {1}) / {0}`. -/
def marginTemplate : Template :=
  ⟨"(\x7b0\x7d - \x7b1\x7d) / \x7b0\x7d"⟩

/-- A dictionary with the function `margin`. -/
def marginDictionary : Snapshot :=
  ⟨1, [Snapshot.entry "finance" "margin" marginTemplate.text marginTemplate.text
    marginTemplate.text]⟩

/-- The tree of the template, filled. -/
def marginTree (a b : Tree) : Tree :=
  .binary (.op .divide) (.group (.binary (.op .subtract) a b)) a

theorem functionTemplate_margin :
    functionTemplate (scope marginDictionary []) "margin" = .ok (some marginTemplate) :=
  eq_ok_of_toOption (by decide +kernel)

theorem readPieces?_marginTemplate :
    dialect.readPieces? marginTemplate.pieces =
      some (marginTree (.atom (.hole 0)) (.atom (.hole 1))) := by
  decide +kernel

theorem missing?_marginTemplate : marginTemplate.missing? 2 = none := by
  decide +kernel

/-- An identifier is readable where it is no alias. -/
theorem isReadable_plain {dictionary : Snapshot} {n : String} (h : isIdentifier n = true) :
    (Expr.plain n).IsReadable (scope dictionary []) := by
  refine ⟨?_, nofun, rfl⟩
  intro r hr
  obtain rfl := List.mem_singleton.mp hr
  exact isSome_tree?_column nofun h

/-- The call `margin(a, b)` in front of `+ x`. -/
theorem read?_dictionaryCall_margin :
    functionTemplate (scope marginDictionary []) "margin" = .ok (some marginTemplate) ∧
      dialect.readPieces? marginTemplate.pieces =
        some (marginTree (.atom (.hole 0)) (.atom (.hole 1))) ∧
      marginTemplate.missing? [Expr.plain "a", Expr.plain "b"].length = none ∧
      (∀ a ∈ [Expr.plain "a", Expr.plain "b"], a.IsReadable (scope marginDictionary [])) ∧
      (∀ o ∈ (Place.first .add (.plain "x")).other?, o.IsReadable (scope marginDictionary [])) ∧
      ∃ x g, Term.ofExpr (scope marginDictionary [])
          ((Place.first .add (.plain "x")).expr (.call "margin" [.plain "a", .plain "b"])) = .ok x ∧
        (((marginTree (.atom (.hole 0)) (.atom (.hole 1))).fill? fun i =>
            [Expr.plain "a", Expr.plain "b"][i]?.bind (exprTree? (scope marginDictionary []))).bind
          ((Place.first .add (.plain "x")).tree? (scope marginDictionary []))) = some g ∧
        (read? (termText x) = some g ↔
          g.IsGrouped ArithOp.precedence ∧ ¬ OpensComment (termText x)) := by
  have hname : ∀ n ∈ ["a", "b", "x"], isIdentifier n = true := by decide +kernel
  have hargs : ∀ a ∈ [Expr.plain "a", Expr.plain "b"],
      a.IsReadable (scope marginDictionary []) := by
    rw [List.forall_mem_cons, List.forall_mem_singleton]
    exact ⟨isReadable_plain (hname "a" (by decide)), isReadable_plain (hname "b" (by decide))⟩
  have hother : ∀ o ∈ (Place.first .add (.plain "x")).other?,
      o.IsReadable (scope marginDictionary []) := by
    rintro _ ⟨⟩
    exact isReadable_plain (hname "x" (by decide))
  exact ⟨functionTemplate_margin, readPieces?_marginTemplate, missing?_marginTemplate, hargs, hother,
    read?_dictionaryCall_iff functionTemplate_margin readPieces?_marginTemplate
      missing?_marginTemplate hargs hother⟩

/-- A word as a tree. -/
def word (s : String) : Tree :=
  .atom (.word s.toList)

/-- As the second operand of a product the call loses its template: `x * margin(a, b)` is read as the
quotient of a product. -/
theorem read?_ne_of_marginProduct :
    ∃ t, Term.ofExpr (scope marginDictionary [])
        (.binary .multiply (.plain "x") (.call "margin" [.plain "a", .plain "b"])) = .ok t ∧
      termText t = "x * (a - b) / a" ∧
      ((marginTree (.atom (.hole 0)) (.atom (.hole 1))).fill? fun i =>
        [Expr.plain "a", Expr.plain "b"][i]?.bind (exprTree? (scope marginDictionary []))) =
          some (marginTree (word "a") (word "b")) ∧
      read? (termText t) =
        some (.binary (.op .divide)
          (.binary (.op .multiply) (word "x")
            (.group (.binary (.op .subtract) (word "a") (word "b")))) (word "a")) ∧
      read? (termText t) ≠
        some (.binary (.op .multiply) (word "x") (marginTree (word "a") (word "b"))) := by
  have htext : termText (.binary .multiply (.column none "x")
      (.template marginTemplate [.column none "a", .column none "b"])) = "x * (a - b) / a" := by
    decide +kernel
  have hread : read? "x * (a - b) / a" =
      some (.binary (.op .divide)
        (.binary (.op .multiply) (word "x")
          (.group (.binary (.op .subtract) (word "a") (word "b")))) (word "a")) := by
    decide +kernel
  refine ⟨.binary .multiply (.column none "x")
    (.template marginTemplate [.column none "a", .column none "b"]), ?_, htext, ?_,
    (congrArg read? htext).trans hread, ?_⟩
  · have hcall : Term.ofExpr (scope marginDictionary [])
        (.call "margin" [.plain "a", .plain "b"]) =
          .ok (.template marginTemplate [.column none "a", .column none "b"]) :=
      ofExpr_call functionTemplate_margin rfl missing?_marginTemplate
    rw [Term.ofExpr, hcall]
    rfl
  · decide +kernel
  · rw [htext, hread]
    -- The root is the division here and the multiplication there.
    rintro ⟨⟩

end DataPhrase.Sql
