/-
# Readable expressions

Constants, names, operations and calls of functions settle to terms that have a tree: the texts of
constants and names are read as atoms, whatever is quoted in them, and the rest is put together from
its parts.
-/
import DataPhrase.Proofs.Code.Intended
import DataPhrase.Proofs.Code.Settles
import DataPhrase.Proofs.Statement.Raw

namespace DataPhrase

open Code Text

namespace Sql

/-! ## Queries -/

/-- How queries are read. -/
def dialect : Dialect where
  doubled := false
  rank := ArithOp.precedence

theorem dialect_spells : dialect.Spells style := by
  intro op
  cases op <;> rfl

/-- The tree that a term is meant to be read as. -/
def tree? (t : Term) : Option Tree :=
  t.tree? dialect style

/-- The trees of a list of terms are those of each term. -/
theorem trees?_eq_map (ts : List Term) : Term.trees? dialect style ts = ts.map tree? := by
  induction ts with
  | nil => rfl
  | cons t r ih => rw [Term.trees?, ih]; rfl

/-! ## Atoms -/

/-- Atoms that stand beside each other. -/
def besides (a : Atom) (as : List Atom) : Tree :=
  as.foldl (fun e b => .beside e (.atom b)) (.atom a)

theorem marks_foldl_beside (e : Tree) (as : List Atom) :
    (as.foldl (fun e b => Tree.beside e (.atom b)) e).marks = e.marks ++ as.map .atom := by
  induction as generalizing e with
  | nil => exact (List.append_nil _).symm
  | cons a as ih =>
    rw [List.foldl_cons, ih, Tree.marks, List.append_assoc]
    rfl

theorem isGrouped_foldl_beside {rank : ArithOp → Nat} {e : Tree} (he : e.IsGrouped rank)
    (hc : e.isCompact = true) (as : List Atom) :
    (as.foldl (fun e b => Tree.beside e (.atom b)) e).IsGrouped rank := by
  induction as generalizing e with
  | nil => exact he
  | cons a as ih =>
    have hbeside : (Tree.beside e (.atom a)).IsGrouped rank := ⟨he, trivial, hc, rfl⟩
    exact ih hbeside rfl

/-- A text of atoms has a tree. -/
theorem read?_of_atoms {s : String} (a : Atom) (as : List Atom)
    (h : marks? false (piecesOfText s) = some (.atom a :: as.map .atom)) :
    dialect.read? s = some (besides a as) := by
  have hmarks : (besides a as).marks = .atom a :: as.map .atom := marks_foldl_beside (.atom a) as
  have hgrouped : (besides a as).IsGrouped ArithOp.precedence :=
    isGrouped_foldl_beside (e := .atom a) trivial rfl as
  rw [← hmarks] at h
  exact (Dialect.read?_eq_some_iff h).mpr hgrouped

/-- A text in quotes, in which quotes are doubled. -/
theorem marksFrom?_doubledText (w s : List Char) :
    marksFrom? false (.quoted '\'' w)
      ((s.flatMap fun c => if c = '\'' then ['\'', '\''] else [c]).map .char ++ [.char '\'']) =
        some [.atom (.quoted '\'' (w ++ s))] := by
  induction s generalizing w with
  | nil =>
    rw [List.append_nil]
    rfl
  | cons c s ih =>
    rw [List.flatMap_cons, List.map_append, List.append_assoc]
    split
    · next hc =>
      subst hc
      show marksFrom? false (.quoted '\'' w) (.char '\'' :: .char '\'' :: _) = _
      rw [marksFrom?_doubled (by decide)]
      refine (ih (w ++ ['\''])).trans ?_
      rw [List.append_assoc]
      rfl
    · next hc =>
      show marksFrom? false (.quoted '\'' w) (.char c :: _) = _
      rw [marksFrom?_quoted w hc]
      refine (ih (w ++ [c])).trans ?_
      rw [List.append_assoc]
      rfl

/-- A string in single quotes is one mark. -/
theorem marks?_quoteText (s : String) :
    marks? false (piecesOfText (quoteText s)) = some [.atom (.quoted '\'' s.toList)] := by
  have hquoted := marksFrom?_doubledText [] s.toList
  rw [← marks?_quote (by decide)] at hquoted
  have hquote : piecesOfText "'" = [.char '\''] := rfl
  rw [quoteText, piecesOfText_append, piecesOfText_append, hquote, piecesOfText,
    String.toList_ofList]
  exact hquoted

/-! ## Names -/

section Names

variable {n m : String}

/-- A text that enclosed in double quotes is one atom. -/
theorem marksFrom?_enclosed {ps : List Piece} (w : List Char) {v : List Char}
    (hv : ∀ c ∈ v, isRunChar c = true)
    (h : ∀ p ∈ ps.head?, ∃ c, p = .char c ∧ isQuoteMark c = false) :
    marksFrom? false (.quoted '"' w) (v.map .char ++ .char '"' :: ps) =
      (marks? false ps).map (.atom (.quoted '"' (w ++ v)) :: ·) := by
  induction v generalizing w with
  | nil =>
    rw [List.append_nil]
    exact marksFrom?_closing w h
  | cons c v ih =>
    rw [List.forall_mem_cons] at hv
    have hc : c ≠ '"' := by
      rintro rfl
      exact absurd hv.1 (by decide)
    rw [List.map_cons, List.cons_append, marksFrom?_quoted w hc, ih _ hv.2, List.append_assoc]
    rfl

/-- An identifier, which may be quoted, in front of what opens no quotes. -/
theorem marks?_ident_quoted {ps : List Piece} (hn : ∀ c ∈ n.toList, isRunChar c = true)
    (h : ∀ p ∈ ps.head?, ∃ c, p = .char c ∧ isQuoteMark c = false) :
    marks? false (piecesOfText ("\"" ++ n ++ "\"") ++ ps) =
      (marks? false ps).map (.atom (.quoted '"' n.toList) :: ·) := by
  rw [piecesOfText_append, piecesOfText_append, List.append_assoc, List.append_assoc]
  show marks? false (.char '"' :: _) = _
  rw [marks?_quote (by decide)]
  exact marksFrom?_enclosed [] hn h

/-- A name in double quotes is one mark. -/
theorem marks?_quotedIdent (hn : ∀ c ∈ n.toList, isRunChar c = true) :
    marks? false (piecesOfText ("\"" ++ n ++ "\"")) = some [.atom (.quoted '"' n.toList)] := by
  have hquoted : marks? false (piecesOfText ("\"" ++ n ++ "\"") ++ []) =
      some [.atom (.quoted '"' n.toList)] := marks?_ident_quoted hn (by simp)
  rwa [List.append_nil] at hquoted

/-- An identifier behind a run that may be a part of its word. -/
theorem exists_marks?_ident_behind (hn : ∀ c ∈ n.toList, isRunChar c = true) {w : List Char}
    (hne : w ≠ []) (hw : ∀ c ∈ w, isRunChar c = true) : ∃ (a : Atom) (as : List Atom),
      marks? false (w.map .char ++ piecesOfText (ident n)) = some (.atom a :: as.map .atom) := by
  unfold ident
  split
  · refine ⟨.word w, [.quoted '"' n.toList], ?_⟩
    rw [marks?_word_append hne hw, marks?_quotedIdent hn]
    · rfl
    · rw [piecesOfText_append, piecesOfText_append]
      rintro p ⟨⟩
      exact ⟨'"', rfl, by decide⟩
  · refine ⟨.word (w ++ n.toList), [], ?_⟩
    rw [piecesOfText, ← List.map_append]
    refine marks?_word (by simp [hne]) ?_
    exact List.forall_mem_append.mpr ⟨hw, hn⟩

theorem isRunChar_of_isIdentifier (h : isIdentifier n = true) :
    n.toList ≠ [] ∧ ∀ c ∈ n.toList, isRunChar c = true := by
  obtain ⟨c, cs, hn, -, hcs⟩ := isIdentifier_iff.mp h
  rw [hn]
  exact ⟨List.cons_ne_nil c cs, fun d hd => isRunChar_of_isNameChar (hcs d hd)⟩

/-- An emitted identifier is one mark, quoted or bare. -/
theorem exists_marks?_ident (h : isIdentifier n = true) :
    ∃ a : Atom, marks? false (piecesOfText (ident n)) = some [.atom a] := by
  obtain ⟨hne, hn⟩ := isRunChar_of_isIdentifier h
  unfold ident
  split
  · exact ⟨_, marks?_quotedIdent hn⟩
  · exact ⟨_, marks?_word hne hn⟩

/-- An identifier has one part. -/
theorem qualified_of_isIdentifier (h : isIdentifier n = true) : qualified n = ident n := by
  have hdot : '.' ∉ n.toList := by
    obtain ⟨c, cs, hn, -, hcs⟩ := isIdentifier_iff.mp h
    rw [hn]
    exact fun hmem => absurd (hcs _ hmem) (by decide)
  have hparts : nameParts n = [n] := by
    rw [nameParts, List.splitOn_eq_singleton hdot, List.map_singleton, String.ofList_toList]
  rw [qualified, hparts, List.map_singleton, String.intercalate_singleton]

/-- A field with or without a qualifier is read as atoms. -/
theorem isSome_tree?_column {q : Option String} (hq : ∀ m ∈ q, isIdentifier m = true)
    (hn : isIdentifier n = true) : (tree? (.column q n)).isSome = true := by
  have hread : ∀ {s} (a : Atom) (as : List Atom), (Term.column q n).text style = s →
      marks? false (piecesOfText s) = some (.atom a :: as.map .atom) →
      (tree? (.column q n)).isSome = true := by
    intro s a as htext hmarks
    have htree : tree? (.column q n) = dialect.read? ((Term.column q n).text style) := by
      cases q <;> rfl
    rw [htree, htext, read?_of_atoms a as hmarks]
    rfl
  cases q with
  | none =>
    obtain ⟨a, ha⟩ := exists_marks?_ident hn
    exact hread a [] rfl ha
  | some m =>
    have htext : (Term.column (some m) n).text style = ident m ++ "." ++ ident n := by
      show qualified m ++ "." ++ ident n = _
      rw [qualified_of_isIdentifier (hq m rfl)]
    obtain ⟨hmne, hm⟩ := isRunChar_of_isIdentifier (hq m rfl)
    obtain ⟨-, hn'⟩ := isRunChar_of_isIdentifier hn
    unfold ident at htext
    split at htext
    · obtain ⟨a, as, hmarks⟩ := exists_marks?_ident_behind hn' (w := ['.']) (by simp)
        (List.forall_mem_singleton.mpr rfl)
      refine hread (.quoted '"' m.toList) (a :: as) htext ?_
      rw [piecesOfText_append, piecesOfText_append, List.append_assoc,
        marks?_ident_quoted hm]
      · show (marks? false (['.'].map .char ++ piecesOfText (ident n))).map _ = _
        rw [hmarks]
        rfl
      · rintro p ⟨⟩
        exact ⟨'.', rfl, by decide⟩
    · have hdot : ∀ c ∈ m.toList ++ ['.'], isRunChar c = true :=
        List.forall_mem_append.mpr ⟨hm, List.forall_mem_singleton.mpr rfl⟩
      obtain ⟨a, as, hmarks⟩ := exists_marks?_ident_behind hn' (by simp) hdot
      refine hread a as htext ?_
      rw [piecesOfText_append, piecesOfText_append]
      rw [List.map_append] at hmarks
      exact hmarks

end Names

/-! ## Expressions -/

/-- Every literal has a tree. -/
theorem isSome_tree?_literal (v : Literal) : (tree? (.literal v)).isSome = true := by
  cases v with
  | number x =>
    have hread : dialect.read? (String.ofList x.text) = some (Tree.number x) :=
      (Dialect.read?_eq_some_iff (marks?_number x)).mpr (Tree.isGrouped_number x)
    show (dialect.read? (String.ofList x.text)).isSome = true
    rw [hread]
    rfl
  | text s =>
    have hread := read?_of_atoms (.quoted '\'' s.toList) [] (marks?_quoteText s)
    show (dialect.read? (quoteText s)).isSome = true
    rw [hread]
    rfl
  | boolean b => cases b <;> decide
  | null => decide

/-- A call of a function with a readable template and enough arguments, or of a plain name that is
no function of the dictionary. -/
inductive CallIsReadable (sc : Scope) (n : String) (given : Nat) : Prop where
  | template (t : Template) (e : Tree) (found : functionTemplate sc n = .ok (some t))
      (read : dialect.readPieces? t.pieces = some e) (arity : t.missing? given = none)
  | plain (found : functionTemplate sc n = .ok none) (name : isIdentifier n = true)

end Sql

/-- All fields and calls of the expression can be read, and it mentions no metrics. -/
structure Expr.IsReadable (sc : Scope) (e : Expr) : Prop where
  fields : ∀ r ∈ e.fields, (Sql.tree? (sc.field r)).isSome = true
  calls : ∀ c ∈ e.calls, Sql.CallIsReadable sc c.1 c.2.length
  metrics : e.metrics = []

namespace Sql

/-- A template that the dialect reads has a tree wherever no argument is missing. -/
theorem isSome_tree?_template {t : Template} {e : Tree} {ts : List Term}
    (hread : dialect.readPieces? t.pieces = some e) (harity : t.missing? ts.length = none)
    (hts : ∀ t ∈ ts, (tree? t).isSome = true) : (tree? (.template t ts)).isSome = true := by
  have hfill : ((e.fill? fun i => (Term.trees? dialect style ts).getD i none)).isSome = true := by
    refine Tree.isSome_fill? fun i hi => ?_
    have hhole := mem_holes_of_marksFrom? (Dialect.marks?_of_readPieces? hread).1 hi
    have hlt : i < ts.length := by
      have hmissing := List.find?_eq_none.mp harity i hhole
      simpa using hmissing
    rw [trees?_eq_map, List.getD_eq_getElem?_getD, List.getElem?_map,
      List.getElem?_eq_getElem hlt]
    exact hts _ (List.getElem_mem hlt)
  rw [tree?, Term.tree?, hread]
  exact hfill

/-- A call of a named function has a tree. -/
theorem isSome_tree?_call {n : String} (hn : isIdentifier n = true) {ts : List Term}
    (hts : ∀ t ∈ ts, (tree? t).isSome = true) : (tree? (.call n ts)).isSome = true := by
  obtain ⟨hne, hrun⟩ := isRunChar_of_isIdentifier hn
  have hread : dialect.read? n = some (besides (.word n.toList) []) :=
    read?_of_atoms _ [] (marks?_word hne hrun)
  have htrees : ((Term.trees? dialect style ts).mapM id).isSome = true := by
    rw [trees?_eq_map]
    induction ts with
    | nil => rfl
    | cons t r ih =>
      rw [List.forall_mem_cons] at hts
      obtain ⟨e, he⟩ := Option.isSome_iff_exists.mp hts.1
      obtain ⟨es, hes⟩ := Option.isSome_iff_exists.mp (ih hts.2)
      rw [List.map_cons, List.mapM_cons, he, hes]
      rfl
  rw [tree?, Term.tree?, hread, Option.bind_some, Option.isSome_map]
  exact htrees

section Calls

variable {sc : Scope} {n : String} {t : Template} {args : List Expr} {ts : List Term}

/-- A call with a template settles to it. -/
theorem ofExpr_call (htemplate : functionTemplate sc n = .ok (some t))
    (hargs : Term.ofExprs sc args = .ok ts) (harity : t.missing? args.length = none) :
    Term.ofExpr sc (.call n args) = .ok (.template t ts) := by
  rw [← length_ofExprs hargs] at harity
  rw [Term.ofExpr, hargs]
  show callTerm sc n ts = _
  rw [callTerm, htemplate]
  show applyTemplate n t ts = _
  rw [applyTemplate, harity]

/-- A readable call settles to a term with a tree. -/
theorem CallIsReadable.exists_tree? (h : CallIsReadable sc n args.length)
    (hargs : Term.ofExprs sc args = .ok ts) (hts : ∀ t ∈ ts, (tree? t).isSome = true) :
    ∃ x, Term.ofExpr sc (.call n args) = .ok x ∧ (tree? x).isSome = true := by
  cases h with
  | template t e found read arity =>
    refine ⟨.template t ts, ofExpr_call found hargs arity, isSome_tree?_template read ?_ hts⟩
    rwa [length_ofExprs hargs]
  | plain found name =>
    refine ⟨.call n ts, ?_, isSome_tree?_call name hts⟩
    rw [Term.ofExpr, hargs]
    show callTerm sc n ts = _
    rw [callTerm, found]
    rfl

end Calls

/-- An operation has a tree where both sides do. -/
theorem isSome_tree?_operation {op : ArithOp} {l r : Term} (hl : (tree? l).isSome = true)
    (hr : (tree? r).isSome = true) : (tree? (.binary op l r)).isSome = true := by
  obtain ⟨a, ha⟩ := Option.isSome_iff_exists.mp hl
  obtain ⟨b, hb⟩ := Option.isSome_iff_exists.mp hr
  have ha' : l.tree? dialect style = some a := ha
  have hb' : r.tree? dialect style = some b := hb
  rw [tree?, Term.tree?, ha', hb']
  rfl

mutual

/-- A readable expression settles to a term with a tree. -/
theorem exists_tree?_ofExpr {sc : Scope} (e : Expr) (h : e.IsReadable sc) :
    ∃ t, Term.ofExpr sc e = .ok t ∧ (tree? t).isSome = true := by
  cases e with
  | literal v => exact ⟨_, rfl, isSome_tree?_literal v⟩
  | field q n => exact ⟨_, rfl, h.fields (q, n) (List.mem_singleton_self _)⟩
  | metric s n => exact absurd h.metrics (List.cons_ne_nil _ _)
  | call n args =>
    have hcall := h.calls (n, args) List.mem_cons_self
    obtain ⟨ts, hts, htrees⟩ := exists_trees?_ofExprs args h.fields
      (fun c hc => h.calls c (List.mem_cons_of_mem _ hc)) h.metrics
    exact hcall.exists_tree? hts htrees
  | binary op l r =>
    obtain ⟨hfields, hcalls, hmetrics⟩ := h
    rw [Expr.fields, List.forall_mem_append] at hfields
    rw [Expr.calls, List.forall_mem_append] at hcalls
    rw [Expr.metrics, List.append_eq_nil_iff] at hmetrics
    obtain ⟨tl, hl, hltree⟩ := exists_tree?_ofExpr l ⟨hfields.1, hcalls.1, hmetrics.1⟩
    obtain ⟨tr, hr, hrtree⟩ := exists_tree?_ofExpr r ⟨hfields.2, hcalls.2, hmetrics.2⟩
    refine ⟨.binary op tl tr, ?_, isSome_tree?_operation hltree hrtree⟩
    rw [Term.ofExpr, hl, hr]
    rfl
  | negate e =>
    obtain ⟨t, ht, htree⟩ := exists_tree?_ofExpr e ⟨h.fields, h.calls, h.metrics⟩
    refine ⟨.negate t, ?_, ?_⟩
    · rw [Term.ofExpr, ht]
      rfl
    · rw [tree?, Term.tree?, Option.isSome_map]
      exact htree
  | star => exact ⟨.star, rfl, by decide⟩

/-- Arguments have trees where their fields and the calls in them do. -/
theorem exists_trees?_ofExprs {sc : Scope} (es : List Expr)
    (hfields : ∀ r ∈ Expr.fieldsAll es, (tree? (sc.field r)).isSome = true)
    (hcalls : ∀ c ∈ Expr.callsAll es, CallIsReadable sc c.1 c.2.length)
    (hmetrics : Expr.metricsAll es = []) :
    ∃ ts, Term.ofExprs sc es = .ok ts ∧ ∀ t ∈ ts, (tree? t).isSome = true := by
  cases es with
  | nil => exact ⟨[], rfl, by simp⟩
  | cons e r =>
    rw [Expr.fieldsAll, List.forall_mem_append] at hfields
    rw [Expr.callsAll, List.forall_mem_append] at hcalls
    rw [Expr.metricsAll, List.append_eq_nil_iff] at hmetrics
    obtain ⟨t, ht, htree⟩ := exists_tree?_ofExpr e ⟨hfields.1, hcalls.1, hmetrics.1⟩
    obtain ⟨ts, hts, htrees⟩ := exists_trees?_ofExprs r hfields.2 hcalls.2 hmetrics.2
    refine ⟨t :: ts, ?_, List.forall_mem_cons.mpr ⟨htree, htrees⟩⟩
    rw [Term.ofExprs, ht, hts]
    rfl

end

end Sql

end DataPhrase
