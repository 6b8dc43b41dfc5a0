/-
# Arithmetic read back

An arithmetic text is cut into symbols, and the symbols are read from left to right: a sign behind
an operand first closes the waiting operations that bind at least as tightly as itself, a minus sign
before an operand negates that operand alone. How tightly an operation binds is left to the dialect.
Both are single passes; what the second gives is a formula with an exact value.
-/
import DataPhrase.Proofs.Reading.Lexeme
import DataPhrase.Expr.Basic
import Mathlib.Logic.Function.Iterate

namespace DataPhrase

/-- The value of an operation on integers. A quotient is cut towards zero and the remainder goes
with it; there is none by zero. -/
def ArithOp.apply? : ArithOp → Int → Int → Option Int
  | .add, a, b => some (a + b)
  | .subtract, a, b => some (a - b)
  | .multiply, a, b => some (a * b)
  | .divide, a, b => if b = 0 then none else some (a.tdiv b)
  | .modulo, a, b => if b = 0 then none else some (a.tmod b)

namespace Code

open Text

/-! ## Symbols -/

/-- A symbol of an arithmetic text. -/
inductive Symbol where
  | number (digits : List Char)
  | name (n : String)
  | sign (op : ArithOp)
  | opening
  | closing
  deriving DecidableEq, Repr

namespace Symbol

/-- A run of letters, digits, underscores and points is a number if it starts with a digit. -/
def ofRun (w : List Char) : Symbol :=
  if w.head?.any isDigit then .number w else .name (String.ofList w)

/-- The symbols of one character, without the minus sign. -/
def marks : List (Char × Symbol) :=
  [('(', .opening), (')', .closing), ('+', .sign .add), ('*', .sign .multiply),
   ('/', .sign .divide), ('%', .sign .modulo)]

end Symbol

/-- A character of a run. -/
def isRunChar (c : Char) : Bool :=
  isNameChar c || c == '.'

/-- What the text before a character leaves unfinished. -/
inductive Unfinished where
  | nothing
  | run (w : List Char)
  | quoted (w : List Char)
  | minus
  | comment
  deriving DecidableEq, Repr

namespace Unfinished

/-- The first character behind a finished symbol. Where two minus signs open a comment, one of them
has to wait for what follows it. -/
def start (comments : Bool) (c : Char) : Option (Unfinished × List Symbol) :=
  if c = ' ' then some (.nothing, [])
  else if isRunChar c then some (.run [c], [])
  else if c = '"' then some (.quoted [], [])
  else if c = '-' then
    some (if comments then (.minus, []) else (.nothing, [.sign .subtract]))
  else (Symbol.marks.find? fun m => m.1 == c).map fun m => (.nothing, [m.2])

/-- One more character, with the symbols it finishes. -/
def step (comments : Bool) : Unfinished → Char → Option (Unfinished × List Symbol)
  | .nothing, c => start comments c
  | .run w, c =>
    if isRunChar c then some (.run (w ++ [c]), [])
    else (start comments c).map fun x => (x.1, Symbol.ofRun w :: x.2)
  | .quoted w, c =>
    some (if c = '"' then (.nothing, [.name (String.ofList w)]) else (.quoted (w ++ [c]), []))
  | .minus, c =>
    if c = '-' then some (.comment, [])
    else (start comments c).map fun x => (x.1, .sign .subtract :: x.2)
  | .comment, c => some (if c = '\n' then .nothing else .comment, [])

/-- The end of the text. -/
def finish : Unfinished → Option (List Symbol)
  | .nothing | .comment => some []
  | .run w => some [Symbol.ofRun w]
  | .quoted _ => none
  | .minus => some [.sign .subtract]

/-- The symbols of a text that goes on from an unfinished one. -/
def symbols? (comments : Bool) : Unfinished → List Char → Option (List Symbol)
  | u, [] => u.finish
  | u, c :: r => (u.step comments c).bind fun x => (symbols? comments x.1 r).map (x.2 ++ ·)

end Unfinished

/-- The symbols of a text. With comments, two minus signs in a row hide the rest of a line. -/
def symbols? (comments : Bool) (s : String) : Option (List Symbol) :=
  Unfinished.symbols? comments .nothing s.toList

/-! ## Formulas -/

/-- An arithmetic formula over digits and names. -/
inductive Formula where
  | number (digits : List Char)
  | name (n : String)
  | binary (op : ArithOp) (left right : Formula)
  | negate (e : Formula)
  deriving DecidableEq, Repr

/-- An integer for every assignment of integers to names under which there is one. -/
abbrev Value := (String → Int) → Option Int

/-- The value of an operation on two values. -/
def Value.binary (op : ArithOp) (a b : Value) : Value :=
  fun env => (a env).bind fun x => (b env).bind fun y => op.apply? x y

/-- The value with the other sign. -/
def Value.negate (a : Value) : Value :=
  fun env => (a env).map (-·)

/-- The value of a formula. A number has one if it is made of digits only. -/
def Formula.value : Formula → Value
  | .number ds => fun _ => if ds.all isDigit then some (Lexeme.natOfDigits ds) else none
  | .name n => fun env => some (env n)
  | .binary op l r => Value.binary op l.value r.value
  | .negate e => Value.negate e.value

/-! ## Reading -/

/-- Operations that wait for their right operand, the innermost first. -/
abbrev Pending := List (Formula × ArithOp)

/-- Close the operations that bind at least as tightly as `least`. -/
def Pending.close (rank : ArithOp → Nat) (least : Nat) : Pending → Formula → Pending × Formula
  | [], e => ([], e)
  | (l, op) :: p, e =>
    if least ≤ rank op then Pending.close rank least p (.binary op l e) else ((l, op) :: p, e)

/-- The reader stands before an operand, with minus signs already read, or behind one. What waits
outside of the open parentheses is kept together with the minus signs before each of them. -/
inductive ReadState where
  | before (outer : List (Nat × Pending)) (pending : Pending) (minuses : Nat)
  | behind (outer : List (Nat × Pending)) (pending : Pending) (e : Formula)

namespace ReadState

variable (rank : ArithOp → Nat)

/-- Read one symbol. -/
def step : ReadState → Symbol → Option ReadState
  | .before o p m, .number ds => some (.behind o p (Formula.negate^[m] (.number ds)))
  | .before o p m, .name n => some (.behind o p (Formula.negate^[m] (.name n)))
  | .before o p m, .sign .subtract => some (.before o p (m + 1))
  | .before o p m, .opening => some (.before ((m, p) :: o) [] 0)
  | .behind o p e, .sign op =>
    let closed := p.close rank (rank op) e
    some (.before o ((closed.2, op) :: closed.1) 0)
  | .behind ((m, q) :: o) p e, .closing => some (.behind o q (Formula.negate^[m] (p.close rank 0 e).2))
  | _, _ => none

/-- The formula that has been read. -/
def formula? : ReadState → Option Formula
  | .behind [] p e => some (p.close rank 0 e).2
  | _ => none

end ReadState

/-- The formula that symbols are read as. -/
def Formula.ofSymbols? (rank : ArithOp → Nat) (ss : List Symbol) : Option Formula :=
  (ss.foldlM (ReadState.step rank) (.before [] [] 0)).bind (ReadState.formula? rank)

/-- The formula that a text is read as. -/
def Formula.read? (rank : ArithOp → Nat) (comments : Bool) (s : String) : Option Formula :=
  (symbols? comments s).bind (Formula.ofSymbols? rank)

/-! ## Symbols of texts -/

/-- A text that does not go on with a run. -/
def StandsApart (s : List Char) : Prop :=
  ∀ c ∈ s.head?, isRunChar c = false

/-- The text has these symbols, whatever stands apart behind it. -/
def Lexes (comments : Bool) (s : List Char) (ss : List Symbol) : Prop :=
  ∀ r, StandsApart r →
    Unfinished.symbols? comments .nothing (s ++ r) =
      (Unfinished.symbols? comments .nothing r).map (ss ++ ·)

section Lexing

variable {comments : Bool} {s t : List Char} {ss ts : List Symbol}

/-- Lexing a text with one more character is one step and the rest. -/
theorem symbols?_cons (u : Unfinished) (c : Char) (r : List Char) :
    Unfinished.symbols? comments u (c :: r) =
      (u.step comments c).bind fun x => (Unfinished.symbols? comments x.1 r).map (x.2 ++ ·) := rfl

/-- A symbol that the next character finishes comes first. -/
theorem symbols?_of_step {u : Unfinished} {a : Symbol} {r : List Char} (hfinish : u.finish = some [a])
    (hstep : ∀ c ∈ r.head?, u.step comments c =
      (Unfinished.start comments c).map fun x => (x.1, a :: x.2)) :
    Unfinished.symbols? comments u r =
      (Unfinished.symbols? comments .nothing r).map (a :: ·) := by
  cases r with
  | nil => exact hfinish
  | cons c r =>
    rw [symbols?_cons, symbols?_cons, hstep c rfl]
    show ((Unfinished.start comments c).map _).bind _ = ((Unfinished.start comments c).bind _).map _
    cases Unfinished.start comments c with
    | none => rfl
    | some x =>
      show (Unfinished.symbols? comments x.1 r).map _ =
        ((Unfinished.symbols? comments x.1 r).map _).map _
      rw [Option.map_map]
      rfl

/-- A run ends where the text behind it stands apart, and becomes one symbol. -/
theorem symbols?_run (w : List Char) {r : List Char} (h : StandsApart r) :
    Unfinished.symbols? comments (.run w) r =
      (Unfinished.symbols? comments .nothing r).map (Symbol.ofRun w :: ·) := by
  refine symbols?_of_step rfl fun c hc => ?_
  simp only [Unfinished.step, h c hc, Bool.false_eq_true, if_false]

/-- The characters of a run all go to the same symbol. -/
theorem symbols?_run_append (w v : List Char) {r : List Char} (hv : ∀ c ∈ v, isRunChar c = true)
    (h : StandsApart r) :
    Unfinished.symbols? comments (.run w) (v ++ r) =
      (Unfinished.symbols? comments .nothing r).map (Symbol.ofRun (w ++ v) :: ·) := by
  induction v generalizing w with
  | nil => rw [List.append_nil, List.nil_append, symbols?_run w h]
  | cons c v ih =>
    rw [List.forall_mem_cons] at hv
    have hstep : Unfinished.step comments (.run w) c = some (.run (w ++ [c]), []) := by
      simp only [Unfinished.step, hv.1, if_true]
    rw [List.cons_append, symbols?_cons, hstep, List.append_cons w c v, ← ih (w ++ [c]) hv.2]
    show (Unfinished.symbols? comments (.run (w ++ [c])) (v ++ r)).map _ = _
    exact Option.map_id_apply

/-- A quoted name ends at the next quote mark. -/
theorem symbols?_quoted (w v : List Char) {r : List Char} (hv : ∀ c ∈ v, c ≠ '"') :
    Unfinished.symbols? comments (.quoted w) (v ++ '"' :: r) =
      (Unfinished.symbols? comments .nothing r).map (.name (String.ofList (w ++ v)) :: ·) := by
  induction v generalizing w with
  | nil => rw [List.append_nil, List.nil_append]; rfl
  | cons c v ih =>
    rw [List.forall_mem_cons] at hv
    have hstep : Unfinished.step comments (.quoted w) c = some (.quoted (w ++ [c]), []) := by
      simp only [Unfinished.step, if_neg hv.1]
    rw [List.cons_append, symbols?_cons, hstep, List.append_cons w c v, ← ih (w ++ [c]) hv.2]
    show (Unfinished.symbols? comments (.quoted (w ++ [c])) (v ++ '"' :: r)).map _ = _
    exact Option.map_id_apply

/-- A character that is a symbol. -/
theorem symbols?_mark {c : Char} (a : Symbol)
    (hstart : Unfinished.start comments c = some (.nothing, [a])) (r : List Char) :
    Unfinished.symbols? comments .nothing (c :: r) =
      (Unfinished.symbols? comments .nothing r).map (a :: ·) := by
  rw [symbols?_cons, Unfinished.step, hstart]
  rfl

/-- A blank between symbols is no symbol. -/
theorem symbols?_blank (r : List Char) :
    Unfinished.symbols? comments .nothing (' ' :: r) =
      Unfinished.symbols? comments .nothing r := by
  have hstart : Unfinished.start comments ' ' = some (.nothing, []) := rfl
  rw [symbols?_cons, Unfinished.step, hstart]
  exact Option.map_id_apply

theorem standsApart_cons {c : Char} {r : List Char} (h : isRunChar c = false) :
    StandsApart (c :: r) := by
  intro d hd
  rwa [← Option.some.inj hd]

/-- A run of name and number characters is one symbol. -/
theorem lexes_run {w : List Char} (hne : w ≠ []) (hw : ∀ c ∈ w, isRunChar c = true) :
    Lexes comments w [Symbol.ofRun w] := by
  intro r hr
  obtain ⟨c, v, rfl⟩ := List.exists_cons_of_ne_nil hne
  rw [List.forall_mem_cons] at hw
  have hc : c ≠ ' ' := by
    rintro rfl
    exact absurd hw.1 (by decide)
  have hstart : Unfinished.start comments c = some (.run [c], []) := by
    rw [Unfinished.start, if_neg hc, if_pos hw.1]
  rw [List.cons_append, symbols?_cons, Unfinished.step, hstart]
  show (Unfinished.symbols? comments (.run [c]) (v ++ r)).map _ = _
  rw [symbols?_run_append [c] v hw.2 hr]
  exact Option.map_id_apply

/-- A name in quote marks is one symbol. -/
theorem lexes_quoted {w : List Char} (hw : ∀ c ∈ w, c ≠ '"') :
    Lexes comments ('"' :: w ++ ['"']) [.name (String.ofList w)] := by
  intro r _
  have hstart : Unfinished.start comments '"' = some (.quoted [], []) := rfl
  rw [List.cons_append, List.cons_append, List.append_assoc, symbols?_cons, Unfinished.step, hstart]
  show (Unfinished.symbols? comments (.quoted []) (w ++ '"' :: r)).map _ = _
  rw [symbols?_quoted [] w hw]
  exact Option.map_id_apply

/-- A text in parentheses. -/
theorem Lexes.parens (h : Lexes comments s ss) :
    Lexes comments ('(' :: s ++ [')']) (.opening :: ss ++ [.closing]) := by
  intro r _
  have hopening : Unfinished.start comments '(' = some (.nothing, [.opening]) := rfl
  have hclosing : Unfinished.start comments ')' = some (.nothing, [.closing]) := rfl
  rw [List.cons_append, List.cons_append, List.append_assoc, List.singleton_append,
    symbols?_mark _ hopening, h _ (standsApart_cons (by decide)), symbols?_mark _ hclosing,
    Option.map_map, Option.map_map]
  congr 1
  funext x
  simp

/-- A minus sign, which no second one turns into a comment. -/
theorem symbols?_minus {r : List Char} (h : comments = true → r.head? ≠ some '-') :
    Unfinished.symbols? comments .nothing ('-' :: r) =
      (Unfinished.symbols? comments .nothing r).map (.sign .subtract :: ·) := by
  cases hc : comments with
  | false => exact symbols?_mark (.sign .subtract) rfl r
  | true =>
    have hstart : Unfinished.start true '-' = some (.minus, []) := rfl
    rw [symbols?_cons, Unfinished.step, hstart]
    show (Unfinished.symbols? true .minus r).map _ = _
    rw [symbols?_of_step (a := .sign .subtract) rfl]
    · exact Option.map_id_apply
    · intro c hcr
      have : c ≠ '-' := fun hcm => h hc (hcm ▸ hcr)
      simp only [Unfinished.step, if_neg this]

/-- A sign with a blank behind it is one symbol. -/
theorem symbols?_sign (op : ArithOp) (r : List Char) :
    Unfinished.symbols? comments .nothing (op.symbol.toList ++ ' ' :: r) =
      (Unfinished.symbols? comments .nothing r).map (.sign op :: ·) := by
  rw [← symbols?_blank r]
  cases op with
  | add => exact symbols?_mark (.sign .add) rfl (' ' :: r)
  | subtract => exact symbols?_minus (r := ' ' :: r) fun _ => by rw [List.head?_cons]; decide
  | multiply => exact symbols?_mark (.sign .multiply) rfl (' ' :: r)
  | divide => exact symbols?_mark (.sign .divide) rfl (' ' :: r)
  | modulo => exact symbols?_mark (.sign .modulo) rfl (' ' :: r)

/-- A minus in front of a text is one more symbol, unless a second minus behind it opens a comment.
-/
theorem Lexes.negate (h : Lexes comments s ss)
    (hminus : comments = true → ∀ r, (s ++ r).head? ≠ some '-') :
    Lexes comments ('-' :: s) (.sign .subtract :: ss) := by
  intro r hr
  rw [List.cons_append, symbols?_minus fun hc => hminus hc r, h r hr, Option.map_map]
  rfl

/-- Two texts with the sign of an operation between them. -/
theorem Lexes.binary (op : ArithOp) (hs : Lexes comments s ss) (ht : Lexes comments t ts) :
    Lexes comments (s ++ ' ' :: (op.symbol.toList ++ ' ' :: t)) (ss ++ .sign op :: ts) := by
  intro r hr
  rw [List.append_assoc, List.cons_append, List.append_assoc, List.cons_append,
    hs _ (standsApart_cons (by decide)), symbols?_blank, symbols?_sign, ht r hr, Option.map_map,
    Option.map_map]
  congr 1
  funext x
  simp

end Lexing

/-! ## Values of symbols -/

section Reading

variable {rank : ArithOp → Nat}

/-- Read symbols one by one. -/
def ReadState.run (rank : ArithOp → Nat) (st : ReadState) (ss : List Symbol) : Option ReadState :=
  ss.foldlM (ReadState.step rank) st

/-- The machine reads one list of symbols behind another by going on from where the first left it.
-/
theorem ReadState.run_append (st : ReadState) (ss ts : List Symbol) :
    st.run rank (ss ++ ts) = (st.run rank ss).bind (ReadState.run rank · ts) :=
  List.foldlM_append

theorem ReadState.run_cons (st : ReadState) (a : Symbol) (ss : List Symbol) :
    st.run rank (a :: ss) = (ReadState.step rank st a).bind (ReadState.run rank · ss) :=
  List.foldlM_cons

/-- The symbols are one operand with this value: nothing in them waits for what follows. -/
def IsOperand (rank : ArithOp → Nat) (ss : List Symbol) (v : Value) : Prop :=
  ∀ o p m, ∃ e : Formula, e.value = v ∧
    ReadState.run rank (.before o p m) ss = some (.behind o p (Formula.negate^[m] e))

/-- The symbols have operations that bind at least as tightly as `k`. Once these are closed, what
waited before them with a looser sign still waits, and they have this value, together with `w` if
it waits right in front of them. -/
def IsChain (rank : ArithOp → Nat) (k : Nat) (w : Option (Formula × ArithOp)) (ss : List Symbol)
    (v : Value) : Prop :=
  ∀ o p, (∀ q ∈ p, rank q.2 < k) → ∃ q e, ∃ f : Formula, f.value = v ∧
    ReadState.run rank (.before o (w.toList ++ p) 0) ss = some (.behind o q e) ∧
    Pending.close rank k q e = (p, f)

variable {k : Nat} {w : Option (Formula × ArithOp)} {ss ts : List Symbol} {u v : Value}

/-- Closing at a rank above every pending sign changes nothing. -/
theorem Pending.close_of_lt {p : Pending} (h : ∀ q ∈ p, rank q.2 < k) (e : Formula) :
    p.close rank k e = (p, e) := by
  cases p with
  | nil => rfl
  | cons q p => rw [Pending.close, if_neg (Nat.not_le.mpr (h q List.mem_cons_self))]

/-- Closing tight operations first changes nothing. -/
theorem Pending.close_close {j : Nat} (h : j ≤ k) (p : Pending) (e : Formula) :
    (p.close rank k e).1.close rank j (p.close rank k e).2 = p.close rank j e := by
  induction p generalizing e with
  | nil => rfl
  | cons q p ih =>
    rw [Pending.close]
    split
    · next hq => rw [ih, Pending.close, if_pos (Nat.le_trans h hq)]
    · rfl

/-- At the end everything is closed. -/
theorem Pending.close_zero {p : Pending} {e f : Formula} (h : p.close rank k e = ([], f)) :
    (p.close rank 0 e).2 = f := by
  rw [← Pending.close_close (Nat.zero_le k), h]
  rfl

/-- A number is an operand. -/
theorem IsOperand.number (ds : List Char) : IsOperand rank [.number ds] (Formula.number ds).value :=
  fun _ _ _ => ⟨.number ds, rfl, rfl⟩

/-- A name is an operand. -/
theorem IsOperand.name (n : String) : IsOperand rank [.name n] (Formula.name n).value :=
  fun _ _ _ => ⟨.name n, rfl, rfl⟩

/-- An operand is a chain of signs at every rank. -/
theorem IsOperand.chain (h : IsOperand rank ss v) : IsChain rank k none ss v := by
  intro o p hp
  obtain ⟨e, he, hrun⟩ := h o p 0
  exact ⟨p, e, e, he, hrun, Pending.close_of_lt hp e⟩

/-- Behind a looser sign, tighter operations are closed first. -/
theorem IsChain.behind {op : ArithOp} (h : IsChain rank k none ss v) (hop : rank op < k)
    (x : Formula) :
    IsChain rank (rank op) (some (x, op)) ss (Value.binary op x.value v) := by
  intro o p hp
  have hbelow : ∀ q ∈ (x, op) :: p, rank q.2 < k := by
    rw [List.forall_mem_cons]
    exact ⟨hop, fun q hq => Nat.lt_trans (hp q hq) hop⟩
  obtain ⟨q, e, f, hf, hrun, hclose⟩ := h o ((x, op) :: p) hbelow
  refine ⟨q, e, .binary op x f, congrArg _ hf, hrun, ?_⟩
  rw [← Pending.close_close (Nat.le_of_lt hop), hclose, Pending.close, if_pos (Nat.le_refl _),
    Pending.close_of_lt hp]

/-- A chain at one rank is a chain at every lower one. -/
theorem IsChain.mono {j : Nat} (h : IsChain rank k none ss v) (hj : j ≤ k) :
    IsChain rank j none ss v := by
  intro o p hp
  obtain ⟨q, e, f, hf, hrun, hclose⟩ := h o p fun q hq => Nat.lt_of_lt_of_le (hp q hq) hj
  refine ⟨q, e, f, hf, hrun, ?_⟩
  rw [← Pending.close_close hj, hclose, Pending.close_of_lt hp]

/-- A sign closes the chain before it and waits for the one behind it. -/
theorem IsChain.binary {op : ArithOp} (hs : IsChain rank (rank op) w ss u)
    (ht : ∀ x : Formula, IsChain rank (rank op) (some (x, op)) ts (Value.binary op x.value v)) :
    IsChain rank (rank op) w (ss ++ .sign op :: ts) (Value.binary op u v) := by
  intro o p hp
  obtain ⟨q, e, x, hx, hrun, hclose⟩ := hs o p hp
  obtain ⟨q', e', f, hf, hrun', hclose'⟩ := ht x o p hp
  refine ⟨q', e', f, hf.trans (congrArg (Value.binary op · v) hx), ?_, hclose'⟩
  rw [ReadState.run_append, hrun, Option.bind_some, ReadState.run_cons]
  show ReadState.run rank (.before o (((q.close rank (rank op) e).2, op) ::
    (q.close rank (rank op) e).1) 0) ts = _
  rw [hclose]
  exact hrun'

/-- Parentheses make one operand of a chain. -/
theorem IsChain.parens (h : IsChain rank k none ss v) :
    IsOperand rank (.opening :: ss ++ [.closing]) v := by
  intro o p m
  obtain ⟨q, e, f, hf, hrun, hclose⟩ := h ((m, p) :: o) [] (by simp)
  refine ⟨f, hf, ?_⟩
  have hrun' : ReadState.run rank (.before ((m, p) :: o) [] 0) ss =
    some (.behind ((m, p) :: o) q e) := hrun
  rw [List.cons_append, ReadState.run_cons]
  show ReadState.run rank (.before ((m, p) :: o) [] 0) (ss ++ [.closing]) = _
  rw [ReadState.run_append, hrun', ← Pending.close_zero hclose]
  rfl

/-- A minus sign negates the operand behind it. -/
theorem IsOperand.negate (h : IsOperand rank ss v) :
    IsOperand rank (.sign .subtract :: ss) (Value.negate v) := by
  intro o p m
  obtain ⟨e, he, hrun⟩ := h o p (m + 1)
  exact ⟨.negate e, congrArg Value.negate he, hrun⟩

/-- Symbols that are a chain are read, as a formula with its value. -/
theorem IsChain.ofSymbols? (h : IsChain rank k none ss v) :
    ∃ f, Formula.ofSymbols? rank ss = some f ∧ f.value = v := by
  obtain ⟨q, e, f, hf, hrun, hclose⟩ := h [] [] (by simp)
  refine ⟨f, ?_, hf⟩
  have hrun' : ss.foldlM (ReadState.step rank) (.before [] [] 0) = some (.behind [] q e) := hrun
  rw [Formula.ofSymbols?, hrun', ← Pending.close_zero hclose]
  rfl

end Reading

end Code

end DataPhrase
