/-
# Intended trees

A term says by its own structure how its text is meant to be read: an operand is one operand, a
template has the tree of its own text with the trees of its arguments in its places, and only the
parts without structure are what their texts read as. The text of a term has the marks of this tree,
so it is read as intended exactly if every operand binds tightly enough for the place where it is
put.
-/
import DataPhrase.Code.Resolve
import DataPhrase.Proofs.Code.Arithmetic
import DataPhrase.Proofs.Code.Marks
import DataPhrase.Proofs.Number.ReadBack

namespace DataPhrase.Code

/-! ## Dialects -/

/-- How a dialect is read: whether the sign of a remainder is doubled, and how tightly operations
bind. -/
structure Dialect where
  doubled : Bool
  rank : ArithOp → Nat

namespace Dialect

/-- The tree that pieces are read as. -/
def readPieces? (dl : Dialect) (ps : List Piece) : Option Tree :=
  (marks? dl.doubled ps).bind (Tree.read? dl.rank)

/-- The tree that a text is read as. -/
def read? (dl : Dialect) (s : String) : Option Tree :=
  dl.readPieces? (piecesOfText s)

/-- Pieces that were read into a tree have the marks of the tree, and the tree is grouped by rank.
-/
theorem marks?_of_readPieces? {dl : Dialect} {ps : List Piece} {e : Tree}
    (h : dl.readPieces? ps = some e) :
    marks? dl.doubled ps = some e.marks ∧ e.IsGrouped dl.rank := by
  obtain ⟨ms, hms, hread⟩ := Option.bind_eq_some_iff.mp h
  obtain ⟨rfl, hgrouped⟩ := Tree.read?_eq_some_iff.mp hread
  exact ⟨hms, hgrouped⟩

/-- A text with the marks of a tree is read as it exactly if the tree is grouped. -/
theorem read?_eq_some_iff {dl : Dialect} {s : String} {e : Tree}
    (h : marks? dl.doubled (piecesOfText s) = some e.marks) :
    dl.read? s = some e ↔ e.IsGrouped dl.rank := by
  rw [read?, readPieces?, h, Option.bind_some, Tree.read?_eq_some_iff]
  exact and_iff_right rfl

/-- The dialect writes the signs of operations that it reads. -/
def Spells (dl : Dialect) (st : Style) : Prop :=
  ∀ op, (st.operator op).toList = signText dl.doubled op

end Dialect

/-! ## Trees with open places -/

namespace Tree

/-- The tree with other trees in the places that are left open; none if one is missing. -/
def fill? (f : Nat → Option Tree) : Tree → Option Tree
  | .atom (.hole i) => f i
  | .atom a => some (.atom a)
  | .star => some .star
  | .void => some .void
  | .group e => (e.fill? f).map .group
  | .beside l r => (l.fill? f).bind fun a => (r.fill? f).map (.beside a)
  | .negate e => (e.fill? f).map .negate
  | .binary s l r => (l.fill? f).bind fun a => (r.fill? f).map (.binary s a)

/-- The marks of a filled tree are those of the tree, filled. -/
theorem marks_fill? {f : Nat → Option Tree} {filled : Nat → List Mark} {e g : Tree}
    (hfilled : ∀ i a, f i = some a → filled i = a.marks) (h : e.fill? f = some g) :
    g.marks = e.marks.flatMap (Mark.subst filled) := by
  induction e generalizing g with
  | atom a =>
    cases a with
    | hole i =>
      rw [marks, List.flatMap_singleton, Mark.subst, hfilled i g h]
    | word w => cases h; rfl
    | quoted q w => cases h; rfl
  | star => cases h; rfl
  | void => cases h; rfl
  | group e ih =>
    obtain ⟨a, ha, rfl⟩ := Option.map_eq_some_iff.mp h
    simp [marks, ih ha, Mark.subst]
  | beside l r ihl ihr =>
    obtain ⟨a, ha, h⟩ := Option.bind_eq_some_iff.mp h
    obtain ⟨b, hb, rfl⟩ := Option.map_eq_some_iff.mp h
    rw [marks, marks, List.flatMap_append, ihl ha, ihr hb]
  | negate e ih =>
    obtain ⟨a, ha, rfl⟩ := Option.map_eq_some_iff.mp h
    simp [marks, ih ha, Mark.subst, Mark.minus]
  | binary s l r ihl ihr =>
    obtain ⟨a, ha, h⟩ := Option.bind_eq_some_iff.mp h
    obtain ⟨b, hb, rfl⟩ := Option.map_eq_some_iff.mp h
    simp [marks, ihl ha, ihr hb, Mark.subst]

/-- Every place of a tree that can be filled has a tree. -/
theorem exists_of_fill? {f : Nat → Option Tree} {e g : Tree} (h : e.fill? f = some g) {i : Nat}
    (hi : Mark.atom (.hole i) ∈ e.marks) : ∃ a, f i = some a := by
  induction e generalizing g with
  | atom a =>
    rw [marks, List.mem_singleton] at hi
    cases hi
    exact ⟨g, h⟩
  | star => simp [marks] at hi
  | void => simp [marks] at hi
  | group e ih =>
    obtain ⟨a, ha, -⟩ := Option.map_eq_some_iff.mp h
    exact ih ha (by simpa [marks] using hi)
  | beside l r ihl ihr =>
    obtain ⟨a, ha, h⟩ := Option.bind_eq_some_iff.mp h
    obtain ⟨b, hb, -⟩ := Option.map_eq_some_iff.mp h
    exact (List.mem_append.mp hi).elim (ihl ha) (ihr hb)
  | negate e ih =>
    obtain ⟨a, ha, -⟩ := Option.map_eq_some_iff.mp h
    exact ih ha (by simpa [marks, Mark.minus] using hi)
  | binary s l r ihl ihr =>
    obtain ⟨a, ha, h⟩ := Option.bind_eq_some_iff.mp h
    obtain ⟨b, hb, -⟩ := Option.map_eq_some_iff.mp h
    have hmem : Mark.atom (.hole i) ∈ l.marks ∨ Mark.atom (.hole i) ∈ r.marks := by
      simpa [marks] using hi
    exact hmem.elim (ihl ha) (ihr hb)

/-- A tree is filled where each of its placeholders is. -/
theorem isSome_fill? {f : Nat → Option Tree} {e : Tree}
    (h : ∀ i, Mark.atom (.hole i) ∈ e.marks → (f i).isSome = true) :
    (e.fill? f).isSome = true := by
  induction e with
  | atom a =>
    cases a with
    | hole i => exact h i List.mem_cons_self
    | _ => rfl
  | star => rfl
  | void => rfl
  | group e ih =>
    rw [fill?, Option.isSome_map]
    exact ih fun i hi => h i (by simp [marks, hi])
  | beside l r ihl ihr =>
    rw [fill?, Option.isSome_bind, Option.any_eq_true]
    obtain ⟨a, ha⟩ := Option.isSome_iff_exists.mp (ihl fun i hi => h i (by simp [marks, hi]))
    exact ⟨a, ha, by rw [Option.isSome_map]; exact ihr fun i hi => h i (by simp [marks, hi])⟩
  | negate e ih =>
    rw [fill?, Option.isSome_map]
    exact ih fun i hi => h i (by simp [marks, hi])
  | binary s l r ihl ihr =>
    rw [fill?, Option.isSome_bind, Option.any_eq_true]
    obtain ⟨a, ha⟩ := Option.isSome_iff_exists.mp (ihl fun i hi => h i (by simp [marks, hi]))
    exact ⟨a, ha, by rw [Option.isSome_map]; exact ihr fun i hi => h i (by simp [marks, hi])⟩

/-- Trees parted by commas, which group to the left. -/
def commas : Tree → List Tree → Tree
  | a, [] => a
  | a, b :: r => commas (.binary .comma a b) r

/-- The arguments of a call in their parentheses. -/
def arguments : List Tree → Tree
  | [] => .void
  | a :: r => .group (commas a r)

/-- The marks of a list of arguments are those of each one with commas between. -/
theorem marks_commas (a : Tree) (r : List Tree) :
    (commas a r).marks = a.marks ++ r.flatMap fun b => .sign .comma :: b.marks := by
  induction r generalizing a with
  | nil => exact (List.append_nil _).symm
  | cons b r ih =>
    rw [commas, ih, marks, List.flatMap_cons, List.append_assoc]

/-- An operand in the parentheses that it is written in. -/
def operand (parent : ArithOp) (right : Bool) (child : Option ArithOp) (e : Tree) : Tree :=
  match child with
  | some c => if needsParens c parent right then .group e else e
  | none => e

end Tree

/-! ## Trees of terms -/

section

variable (dl : Dialect) (st : Style)

mutual

/-- The tree that the text of a term is meant to have. -/
def Term.tree? : Term → Option Tree
  | .call n args =>
    (dl.read? n).bind fun f =>
      ((Term.trees? args).mapM id).map fun as => .beside f (Tree.arguments as)
  | .template t args =>
    (dl.readPieces? t.pieces).bind fun e => e.fill? fun i => (Term.trees? args).getD i none
  | .binary op l r =>
    (Term.tree? l).bind fun a => (Term.tree? r).map fun b =>
      .binary (.op op) (Tree.operand op false l.root? a) (Tree.operand op true r.root? b)
  | .negate e => (Term.tree? e).map fun a => .negate (if e.root?.isSome then .group a else a)
  | .group e => (Term.tree? e).map .group
  | e => dl.read? (e.text st)

/-- The trees of a list of terms. -/
def Term.trees? : List Term → List (Option Tree)
  | [] => []
  | e :: r => Term.tree? e :: Term.trees? r

end

end

/-! ## Numbers -/

/-- The tree of a number: a word, behind a minus sign if the number has one. -/
def Tree.number (x : Number) : Tree :=
  if x.negative then .negate (.atom (.word x.unsignedText)) else .atom (.word x.unsignedText)

theorem Tree.isGrouped_number {rank : ArithOp → Nat} (x : Number) :
    (Tree.number x).IsGrouped rank := by
  unfold Tree.number
  split
  · exact ⟨trivial, rfl⟩
  · trivial

theorem Tree.sign?_number (x : Number) : (Tree.number x).sign? = none := by
  unfold Tree.number
  split <;> rfl

theorem isRunChar_of_isNumberChar {c : Char} (h : Expr.isNumberChar c = true) :
    isRunChar c = true := by
  rw [Expr.isNumberChar, Bool.or_eq_true] at h
  obtain hdigit | hpoint := h
  · have hc : c.isDigit = true := hdigit
    simp [isRunChar, Text.isNameChar, Text.isAlphanumeric, hc]
  · rw [isRunChar, hpoint, Bool.or_true]

/-- A printed number is one mark. -/
theorem marks?_number {doubled : Bool} (x : Number) :
    marks? doubled (piecesOfText (String.ofList x.text)) = some (Tree.number x).marks := by
  have hword : marks? doubled (x.unsignedText.map .char) = some [.atom (.word x.unsignedText)] := by
    unfold Number.unsignedText
    split
    · obtain ⟨c, r, hcr, -, hall⟩ :=
        Number.positional_spelling (Number.shortest .up x.place)
      refine marks?_word (hcr ▸ List.cons_ne_nil c r) fun d hd => ?_
      exact isRunChar_of_isNumberChar (hall d hd)
    · exact marks?_word (by decide) (List.all_eq_true.mp (by decide))
  rw [piecesOfText, String.toList_ofList, Number.text_eq]
  unfold Tree.number
  split
  · rw [List.map_cons, marks?_minus, hword]
    rfl
  · exact hword

/-! ## Marks of terms -/

section Text

variable {dl : Dialect} {st : Style}

/-- Parentheses around a text stand around its marks. -/
theorem marks?_parens {s : String} {ms : List Mark}
    (h : marks? dl.doubled (piecesOfText s) = some ms) :
    marks? dl.doubled (piecesOfText (parens s)) = some (.opening :: ms ++ [.closing]) := by
  rw [parens, piecesOfText_append, piecesOfText_append]
  exact marks?_group h

/-- An operand is written in the parentheses that its tree has. -/
theorem marks?_operandText {t : Term} {e : Tree} {text : String}
    (h : marks? dl.doubled (piecesOfText text) = some e.marks) (parent : ArithOp) (right : Bool) :
    marks? dl.doubled (piecesOfText (operandText parent right t text)) =
      some (Tree.operand parent right t.root? e).marks := by
  cases t with
  | binary child l r =>
    show marks? _ (piecesOfText (if needsParens child parent right then parens text else text)) =
      some (if needsParens child parent right then Tree.group e else e).marks
    split
    · exact marks?_parens h
    · exact h
  | _ => exact h

/-- Texts parted by commas behind the first one. -/
theorem marks?_commas {s : String} {a : Tree} {ss : List String} {as : List Tree}
    (hs : marks? dl.doubled (piecesOfText s) = some a.marks)
    (hss : List.Forall₂ (fun s a => marks? dl.doubled (piecesOfText s) = some a.marks) ss as) :
    marks? dl.doubled (piecesOfText (commas (s :: ss))) = some (Tree.commas a as).marks := by
  rw [Tree.marks_commas]
  induction hss generalizing s a with
  | nil =>
    rw [commas, String.intercalate_singleton, List.flatMap_nil, List.append_nil]
    exact hs
  | @cons s' a' ss' as' hs' _ ih =>
    rw [commas, String.intercalate_cons_of_ne_nil (List.cons_ne_nil _ _), piecesOfText_append,
      piecesOfText_append, List.append_assoc, List.flatMap_cons]
    refine marks?_append hs (apart_cons (by decide)) ?_
    show marks? dl.doubled (.char ',' :: .char ' ' :: piecesOfText (commas (s' :: ss'))) = _
    rw [marks?_sign (a := .sign .comma) (by cases dl.doubled <;> rfl), marks?_blank, ih hs']
    rfl

/-- Texts with the marks of their trees, where there are any. -/
abbrev Match (dl : Dialect) : List String → List (Option Tree) → Prop :=
  List.Forall₂ fun s o => ∀ a ∈ o, marks? dl.doubled (piecesOfText s) = some a.marks

/-- Texts that match trees pairwise have those trees' marks. -/
theorem Match.of_mapM {ss : List String} {os : List (Option Tree)} {as : List Tree}
    (h : Match dl ss os) (has : os.mapM id = some as) :
    List.Forall₂ (fun s a => marks? dl.doubled (piecesOfText s) = some a.marks) ss as := by
  induction h generalizing as with
  | nil =>
    cases has
    exact .nil
  | cons hs _ ih =>
    rw [List.mapM_cons] at has
    obtain ⟨a, ha, has⟩ := Option.bind_eq_some_iff.mp has
    obtain ⟨as', has', heq⟩ := Option.bind_eq_some_iff.mp has
    cases heq
    exact .cons (hs a ha) (ih has')

/-- One text of a matching list has the marks of its tree. -/
theorem Match.get {ss : List String} {os : List (Option Tree)} (h : Match dl ss os) {i : Nat}
    {a : Tree} (ha : os.getD i none = some a) :
    marks? dl.doubled (piecesOfText (ss.getD i "")) = some a.marks := by
  induction h generalizing i with
  | nil => cases ha
  | cons hs _ ih =>
    cases i with
    | zero => exact hs a ha
    | succ i => exact ih ha

/-- A call printed from matching arguments has the marks of the call. -/
theorem marks?_call {n : String} {f : Tree} {ss : List String} {os : List (Option Tree)}
    {as : List Tree} (hf : marks? dl.doubled (piecesOfText n) = some f.marks) (hss : Match dl ss os)
    (has : os.mapM id = some as) :
    marks? dl.doubled (piecesOfText (n ++ parens (commas ss))) =
      some (Tree.beside f (Tree.arguments as)).marks := by
  have hapart : Apart (piecesOfText (parens (commas ss))) := by
    rw [parens, piecesOfText_append, piecesOfText_append]
    exact apart_cons (by decide)
  rw [piecesOfText_append]
  refine marks?_append hf hapart ?_
  cases hss.of_mapM has with
  | nil => cases dl.doubled <;> rfl
  | cons hs hr => exact marks?_parens (marks?_commas hs hr)

/-- A template filled with matching arguments has the marks of the filled tree. -/
theorem marks?_template {t : Template} {e g : Tree} {ss : List String} {os : List (Option Tree)}
    (he : dl.readPieces? t.pieces = some e) (hss : Match dl ss os)
    (hg : (e.fill? fun i => os.getD i none) = some g) :
    marks? dl.doubled (piecesOfText (t.fill ss)) = some g.marks := by
  have hargs : ∀ i, Mark.atom (.hole i) ∈ e.marks →
      marks? dl.doubled (piecesOfText (ss.getD i "")) =
        some (((os.getD i none).map Tree.marks).getD []) := by
    intro i hi
    obtain ⟨a, ha⟩ := Tree.exists_of_fill? hg hi
    rw [ha]
    exact hss.get ha
  rw [piecesOfText_fill, marks?,
    marksFrom?_fillPieces (Dialect.marks?_of_readPieces? he).1 Open.noConfusion hargs]
  refine congrArg some (Tree.marks_fill? ?_ hg).symm
  intro i a ha
  rw [ha]
  rfl

/-- A printed operation has the marks of its two sides with its sign between. -/
theorem marks?_binaryText (hst : dl.Spells st) (op : ArithOp) {s t : String} {a b : Tree}
    (hs : marks? dl.doubled (piecesOfText s) = some a.marks)
    (ht : marks? dl.doubled (piecesOfText t) = some b.marks) :
    marks? dl.doubled (piecesOfText (s ++ " " ++ st.operator op ++ " " ++ t)) =
      some (Tree.binary (.op op) a b).marks := by
  have hop : piecesOfText (st.operator op) = (signText dl.doubled op).map .char :=
    congrArg (List.map Piece.char) (hst op)
  rw [piecesOfText_append, piecesOfText_append, piecesOfText_append, piecesOfText_append, hop,
    List.append_assoc, List.append_assoc, List.append_assoc]
  exact marks?_binary op hs ht

/-- A printed negation has the marks of the negated tree. -/
theorem marks?_negateText {t : Term} {a : Tree}
    (h : marks? dl.doubled (piecesOfText (t.text st)) = some a.marks) :
    marks? dl.doubled (piecesOfText ((Term.negate t).text st)) =
      some (Tree.negate (if t.root?.isSome then .group a else a)).marks := by
  rw [Term.text_negate, piecesOfText_append]
  show marks? _ (.char '-' :: piecesOfText _) = some (.minus :: Tree.marks _)
  rw [marks?_minus]
  split
  · rw [marks?_parens h]
    rfl
  · rw [h]
    rfl

mutual

/-- The text of a term has the marks of its tree. -/
theorem marks?_text (hst : dl.Spells st) (t : Term) {e : Tree} (h : t.tree? dl st = some e) :
    marks? dl.doubled (piecesOfText (t.text st)) = some e.marks := by
  cases t with
  | call n args =>
    obtain ⟨f, hf, h⟩ := Option.bind_eq_some_iff.mp h
    obtain ⟨as, has, rfl⟩ := Option.map_eq_some_iff.mp h
    exact marks?_call (Dialect.marks?_of_readPieces? hf).1 (marks?_texts hst args) has
  | template t args =>
    obtain ⟨f, hf, h⟩ := Option.bind_eq_some_iff.mp h
    exact marks?_template hf (marks?_texts hst args) h
  | binary op l r =>
    obtain ⟨a, ha, h⟩ := Option.bind_eq_some_iff.mp h
    obtain ⟨b, hb, rfl⟩ := Option.map_eq_some_iff.mp h
    exact marks?_binaryText hst op (marks?_operandText (marks?_text hst l ha) op false)
      (marks?_operandText (marks?_text hst r hb) op true)
  | negate e =>
    obtain ⟨a, ha, rfl⟩ := Option.map_eq_some_iff.mp h
    exact marks?_negateText (marks?_text hst e ha)
  | group e =>
    obtain ⟨a, ha, rfl⟩ := Option.map_eq_some_iff.mp h
    exact marks?_parens (marks?_text hst e ha)
  | _ => exact (Dialect.marks?_of_readPieces? h).1

/-- The texts of a list of terms match their trees. -/
theorem marks?_texts (hst : dl.Spells st) (ts : List Term) :
    Match dl (Term.texts st ts) (Term.trees? dl st ts) := by
  cases ts with
  | nil => exact .nil
  | cons t r => exact .cons (fun e he => marks?_text hst t he) (marks?_texts hst r)

end

end Text

end DataPhrase.Code
