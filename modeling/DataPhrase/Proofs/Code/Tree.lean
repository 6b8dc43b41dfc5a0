/-
# Trees of terms

A term of target code is cut into marks, and the marks are read with a rank for every operation. The
tree of a term keeps its parentheses, so that its marks can be told from it. Reading goes through
the marks once and gives the tree that has these marks and binds as the ranks say; there is no
other such tree (`Tree.read?_eq_some_iff`).
-/
import DataPhrase.Expr.Basic
import Mathlib.Data.List.Basic
import Mathlib.Logic.Function.Iterate

namespace DataPhrase.Code

/-! ## Marks -/

/-- What stands for itself: a run of letters and digits, a text in quotes, or a place that is left
open. -/
inductive Atom where
  | word (w : List Char)
  | quoted (quote : Char) (w : List Char)
  | hole (i : Nat)
  deriving DecidableEq, Repr

/-- A sign between two operands. -/
inductive Sign where
  | comma
  | op (o : ArithOp)
  deriving DecidableEq, Repr

/-- A mark of a term. -/
inductive Mark where
  | atom (a : Atom)
  | sign (s : Sign)
  | opening
  | closing
  deriving DecidableEq, Repr

/-- How tightly a sign binds; a comma does less so than any operation. -/
def Sign.rank (rank : ArithOp → Nat) : Sign → Nat
  | .comma => 0
  | .op o => rank o + 1

/-- The sign of a difference and of a negation. -/
def Mark.minus : Mark := .sign (.op .subtract)

/-! ## Trees -/

/-- A term with its parentheses. A call is a name with parentheses beside it, which may be empty; a
star stands for all columns. -/
inductive Tree where
  | atom (a : Atom)
  | star
  | void
  | group (e : Tree)
  | beside (l r : Tree)
  | negate (e : Tree)
  | binary (s : Sign) (l r : Tree)
  deriving DecidableEq, Repr

namespace Tree

/-- The marks of a tree. -/
def marks : Tree → List Mark
  | .atom a => [.atom a]
  | .star => [.sign (.op .multiply)]
  | .void => [.opening, .closing]
  | .group e => .opening :: e.marks ++ [.closing]
  | .beside l r => l.marks ++ r.marks
  | .negate e => .minus :: e.marks
  | .binary s l r => l.marks ++ .sign s :: r.marks

/-- The sign at the top that no parentheses enclose. -/
def sign? : Tree → Option Sign
  | .binary s _ _ => some s
  | _ => none

/-- The tree can stand beside another one that is in front of it. -/
def isUnit : Tree → Bool
  | .atom _ | .void | .group _ => true
  | _ => false

/-- The tree has no open sign: it is a unit, a star, or units beside one another. -/
def isCompact : Tree → Bool
  | .negate _ | .binary _ _ _ => false
  | _ => true

/-- A sign at the top of the tree binds at least as tightly as `k`. -/
def AtLeast (rank : ArithOp → Nat) (k : Nat) (e : Tree) : Prop :=
  ∀ s ∈ e.sign?, k ≤ s.rank rank

instance (rank : ArithOp → Nat) (k : Nat) (e : Tree) : Decidable (e.AtLeast rank k) :=
  inferInstanceAs (Decidable (∀ s ∈ e.sign?, k ≤ s.rank rank))

/-- Every operand binds tightly enough for the place where it stands. Of two signs that bind equally
the left one is inside. -/
def IsGrouped (rank : ArithOp → Nat) : Tree → Prop
  | .atom _ | .star | .void => True
  | .group e => e.IsGrouped rank
  | .beside l r => l.IsGrouped rank ∧ r.IsGrouped rank ∧ l.isCompact = true ∧ r.isUnit = true
  | .negate e => e.IsGrouped rank ∧ e.sign? = none
  | .binary s l r => l.IsGrouped rank ∧ r.IsGrouped rank ∧
    l.AtLeast rank (s.rank rank) ∧ r.AtLeast rank (s.rank rank + 1)

instance decidableIsGrouped (rank : ArithOp → Nat) : (e : Tree) → Decidable (e.IsGrouped rank)
  | .atom _ | .star | .void => isTrue trivial
  | .group e => decidableIsGrouped rank e
  | .beside l r =>
    have := decidableIsGrouped rank l
    have := decidableIsGrouped rank r
    inferInstanceAs (Decidable (_ ∧ _ ∧ _ ∧ _))
  | .negate e =>
    have := decidableIsGrouped rank e
    inferInstanceAs (Decidable (_ ∧ _))
  | .binary _ l r =>
    have := decidableIsGrouped rank l
    have := decidableIsGrouped rank r
    inferInstanceAs (Decidable (_ ∧ _ ∧ _ ∧ _))

/-! ## Reading -/

/-- Signs that wait for their right operand, the innermost first. -/
abbrev Pending := List (Tree × Sign)

/-- Close the signs that bind at least as tightly as `least`. -/
def Pending.close (rank : ArithOp → Nat) (least : Nat) : Pending → Tree → Pending × Tree
  | [], e => ([], e)
  | (l, s) :: p, e =>
    if least ≤ s.rank rank then Pending.close rank least p (.binary s l e) else ((l, s) :: p, e)

/-- What waits outside of an open parenthesis: signs, minus signs directly in front, and what the
parenthesis stands beside. -/
structure Frame where
  pending : Pending
  minuses : Nat
  head : Option Tree

/-- What a parenthesis becomes in the place where it was opened. -/
def Frame.inside (f : Frame) (e : Tree) : Tree :=
  match f.head with
  | some l => .beside l e
  | none => e

/-- The reader stands before an operand or behind one, with the minus signs that were read in front
of it. -/
inductive State where
  | before (outer : List Frame) (pending : Pending) (minuses : Nat)
  | behind (outer : List Frame) (pending : Pending) (minuses : Nat) (e : Tree)

namespace State

variable (rank : ArithOp → Nat)

/-- Read one mark. -/
def step : State → Mark → Option State
  | .before o p m, .atom a => some (.behind o p m (.atom a))
  | .before o p m, .sign (.op .subtract) => some (.before o p (m + 1))
  | .before o p m, .sign (.op .multiply) => some (.behind o p m .star)
  | .before o p m, .opening => some (.before (⟨p, m, none⟩ :: o) [] 0)
  | .before (f :: o) [] 0, .closing => some (.behind o f.pending f.minuses (f.inside .void))
  | .behind o p m e, .atom a => some (.behind o p m (.beside e (.atom a)))
  | .behind o p m e, .opening => some (.before (⟨p, m, some e⟩ :: o) [] 0)
  | .behind o p m e, .sign s =>
    let closed := p.close rank (s.rank rank) (negate^[m] e)
    some (.before o ((closed.2, s) :: closed.1) 0)
  | .behind (f :: o) p m e, .closing =>
    some (.behind o f.pending f.minuses (f.inside (.group (p.close rank 0 (negate^[m] e)).2)))
  | _, _ => none

/-- Read marks one by one. -/
def run (st : State) (ms : List Mark) : Option State :=
  ms.foldlM (step rank) st

/-- The tree that has been read. -/
def tree? : State → Option Tree
  | .behind [] p m e => some (p.close rank 0 (negate^[m] e)).2
  | _ => none

end State

/-- The tree that marks are read as. -/
def read? (rank : ArithOp → Nat) (ms : List Mark) : Option Tree :=
  (State.run rank (.before [] [] 0) ms).bind (State.tree? rank)

variable {rank : ArithOp → Nat} {k : Nat} {e : Tree} {ms : List Mark}

/-- The machine reads one list of marks behind another by going on from where the first left it. -/
theorem State.run_append (st : State) (ms ns : List Mark) :
    st.run rank (ms ++ ns) = (st.run rank ms).bind (State.run rank · ns) :=
  List.foldlM_append

theorem State.run_cons (st : State) (a : Mark) (ms : List Mark) :
    st.run rank (a :: ms) = (State.step rank st a).bind (State.run rank · ms) :=
  List.foldlM_cons

theorem State.run_singleton (st : State) (a : Mark) : st.run rank [a] = State.step rank st a := by
  rw [run_cons]
  cases State.step rank st a <;> rfl

/-- Closing at a rank above every pending sign changes nothing. -/
theorem Pending.close_of_lt {p : Pending} (h : ∀ q ∈ p, q.2.rank rank < k) (e : Tree) :
    p.close rank k e = (p, e) := by
  cases p with
  | nil => rfl
  | cons q p => rw [Pending.close, if_neg (Nat.not_le.mpr (h q List.mem_cons_self))]

/-- Closing tight signs first changes nothing. -/
theorem Pending.close_close {j : Nat} (h : j ≤ k) (p : Pending) (e : Tree) :
    (p.close rank k e).1.close rank j (p.close rank k e).2 = p.close rank j e := by
  induction p generalizing e with
  | nil => rfl
  | cons q p ih =>
    rw [Pending.close]
    split
    · next hq => rw [ih, Pending.close, if_pos (Nat.le_trans h hq)]
    · rfl

/-! ## Grouped trees are read -/

theorem sign?_of_isCompact (h : e.isCompact = true) : e.sign? = none := by
  cases e with
  | binary s l r => cases h
  | _ => rfl

/-- How the marks of a grouped tree are read: a compact tree is read as it is, a unit joins what
stands in front of it, a negation is read with its minus signs apart, and the signs of any other tree
are closed with it, while looser ones in front of it keep waiting. -/
structure IsRead (rank : ArithOp → Nat) (e : Tree) : Prop where
  compact : e.isCompact = true → ∀ o p m,
    State.run rank (.before o p m) e.marks = some (.behind o p m e)
  unit : e.isUnit = true → ∀ o p m l,
    State.run rank (.behind o p m l) e.marks = some (.behind o p m (.beside l e))
  closed : e.sign? = none → ∀ o p m, ∃ n f,
    State.run rank (.before o p m) e.marks = some (.behind o p n f) ∧
      negate^[n] f = negate^[m] e
  chain : ∀ k o p, e.AtLeast rank k → (∀ q ∈ p, q.2.rank rank < k) → ∃ q m f,
    State.run rank (.before o p 0) e.marks = some (.behind o q m f) ∧
      q.close rank k (negate^[m] f) = (p, e)

namespace IsRead

/-- A tree without open signs at its top closes nothing in front of it. -/
theorem chain_of_closed
    (h : ∀ o p m, ∃ n f, State.run rank (.before o p m) e.marks = some (.behind o p n f) ∧
      negate^[n] f = negate^[m] e) (k : Nat) (o : List Frame) (p : Pending)
    (hp : ∀ q ∈ p, q.2.rank rank < k) : ∃ q m f,
      State.run rank (.before o p 0) e.marks = some (.behind o q m f) ∧
        q.close rank k (negate^[m] f) = (p, e) := by
  obtain ⟨n, f, hrun, hf⟩ := h o p 0
  refine ⟨p, n, f, hrun, ?_⟩
  rw [hf]
  exact Pending.close_of_lt hp e

theorem of_compact
    (h : ∀ o p m, State.run rank (.before o p m) e.marks = some (.behind o p m e))
    (hunit : e.isUnit = true → ∀ o p m l,
      State.run rank (.behind o p m l) e.marks = some (.behind o p m (.beside l e))) :
    e.IsRead rank where
  compact _ := h
  unit := hunit
  closed _ o p m := ⟨m, e, h o p m, rfl⟩
  chain k o p _ hp := chain_of_closed (fun o p m => ⟨m, e, h o p m, rfl⟩) k o p hp

/-- Parentheses are read up to the closing one, whatever they stand beside. -/
theorem run_group (h : e.IsRead rank) (f : Frame) (o : List Frame) :
    State.run rank (.before (f :: o) [] 0) (e.marks ++ [.closing]) =
      some (.behind o f.pending f.minuses (f.inside (.group e))) := by
  obtain ⟨q, m, g, hrun, hclose⟩ := h.chain 0 (f :: o) [] (fun _ _ => Nat.zero_le _) (by simp)
  rw [State.run_append, hrun, Option.bind_some, State.run_singleton, State.step, hclose]

/-- A group is read as one tree. -/
theorem group (h : e.IsRead rank) : (Tree.group e).IsRead rank := by
  refine of_compact (fun o p m => ?_) fun _ o p m l => ?_
  · rw [marks, List.cons_append, State.run_cons]
    exact h.run_group ⟨p, m, none⟩ o
  · rw [marks, List.cons_append, State.run_cons]
    exact h.run_group ⟨p, m, some l⟩ o

/-- Two trees side by side are read as one. -/
theorem beside {l r : Tree} (hl : l.IsRead rank) (hr : r.IsRead rank)
    (hcompact : l.isCompact = true) (hunit : r.isUnit = true) : (Tree.beside l r).IsRead rank := by
  refine of_compact (fun o p m => ?_) (nomatch ·)
  rw [marks, State.run_append, hl.compact hcompact, Option.bind_some]
  exact hr.unit hunit o p m l

/-- A negation of a tree without a sign at its root is read as one. -/
theorem negate (h : e.IsRead rank) (hsign : e.sign? = none) : (Tree.negate e).IsRead rank := by
  have hclosed : ∀ o p m, ∃ n f,
      State.run rank (.before o p m) (Tree.negate e).marks = some (.behind o p n f) ∧
        Tree.negate^[n] f = Tree.negate^[m] (.negate e) := fun o p m => h.closed hsign o p (m + 1)
  refine ⟨(nomatch ·), (nomatch ·), fun _ => hclosed, ?_⟩
  exact fun k o p _ hp => chain_of_closed hclosed k o p hp

/-- A sign closes what is as tight in front of it, and waits for what is tighter behind it. -/
theorem binary {s : Sign} {l r : Tree} (hl : l.IsRead rank) (hr : r.IsRead rank)
    (hleft : l.AtLeast rank (s.rank rank)) (hright : r.AtLeast rank (s.rank rank + 1)) :
    (Tree.binary s l r).IsRead rank := by
  refine ⟨(nomatch ·), (nomatch ·), (nomatch ·), ?_⟩
  intro k o p hk hp
  have hks : k ≤ s.rank rank := hk s rfl
  obtain ⟨q, m, f, hrun, hclose⟩ := hl.chain (s.rank rank) o p hleft fun q hq =>
    Nat.lt_of_lt_of_le (hp q hq) hks
  have hbelow : ∀ q ∈ (l, s) :: p, q.2.rank rank < s.rank rank + 1 := by
    rw [List.forall_mem_cons]
    refine ⟨Nat.lt_succ_self _, fun q hq => ?_⟩
    have := hp q hq
    omega
  obtain ⟨q', m', f', hrun', hclose'⟩ := hr.chain (s.rank rank + 1) o ((l, s) :: p) hright hbelow
  refine ⟨q', m', f', ?_, ?_⟩
  · rw [marks, State.run_append, hrun, Option.bind_some, State.run_cons, State.step, hclose]
    exact hrun'
  · rw [← Pending.close_close (Nat.le_succ_of_le hks), hclose', Pending.close, if_pos hks,
      Pending.close_of_lt hp]

end IsRead

/-- A tree grouped by rank is read back as it is. -/
theorem IsGrouped.isRead (h : e.IsGrouped rank) : e.IsRead rank := by
  induction e with
  | atom a => exact .of_compact (fun _ _ _ => rfl) fun _ _ _ _ _ => rfl
  | star => exact .of_compact (fun _ _ _ => rfl) (nomatch ·)
  | void => exact .of_compact (fun _ _ _ => rfl) fun _ _ _ _ _ => rfl
  | group e ih => exact (ih h).group
  | beside l r ihl ihr => exact (ihl h.1).beside (ihr h.2.1) h.2.2.1 h.2.2.2
  | negate e ih => exact (ih h.1).negate h.2
  | binary s l r ihl ihr => exact (ihl h.1).binary (ihr h.2.1) h.2.2.1 h.2.2.2

/-- The marks of a grouped tree are read as it. -/
theorem read?_marks (h : e.IsGrouped rank) : read? rank e.marks = some e := by
  obtain ⟨q, m, f, hrun, hclose⟩ := h.isRead.chain 0 [] [] (fun _ _ => Nat.zero_le _) (by simp)
  rw [read?, hrun, Option.bind_some, State.tree?, hclose]

/-! ## What is read is grouped -/

/-- The trees that wait for right operands are grouped, and inner signs bind more tightly. -/
def Pending.IsGrouped (rank : ArithOp → Nat) (p : Pending) : Prop :=
  (∀ q ∈ p, q.1.IsGrouped rank ∧ q.1.AtLeast rank (q.2.rank rank)) ∧
    p.Pairwise fun q q' => q'.2.rank rank < q.2.rank rank

/-- The marks of what waits, the outermost first. -/
def Pending.marks : Pending → List Mark
  | [] => []
  | (l, s) :: p => Pending.marks p ++ l.marks ++ [.sign s]

/-- An operand can stand behind the innermost sign that waits. -/
def Pending.Takes (rank : ArithOp → Nat) (p : Pending) (e : Tree) : Prop :=
  ∀ q ∈ p.head?, e.AtLeast rank (q.2.rank rank + 1)

/-- Closing signs keeps the marks, and what it leaves is grouped. -/
theorem Pending.close_isGrouped {p : Pending} (hp : p.IsGrouped rank) (he : e.IsGrouped rank)
    (htakes : p.Takes rank e) (hk : e.AtLeast rank k) :
    (p.close rank k e).1.IsGrouped rank ∧ (p.close rank k e).2.IsGrouped rank ∧
      (p.close rank k e).2.AtLeast rank k ∧ (∀ q ∈ (p.close rank k e).1, q.2.rank rank < k) ∧
      (p.close rank k e).1.marks ++ (p.close rank k e).2.marks = p.marks ++ e.marks := by
  induction p generalizing e with
  | nil => exact ⟨hp, he, hk, by simp [close], rfl⟩
  | cons q p ih =>
    obtain ⟨l, s⟩ := q
    obtain ⟨hall, hsorted⟩ := hp
    rw [List.forall_mem_cons] at hall
    rw [List.pairwise_cons] at hsorted
    rw [close]
    split
    · next hs =>
      have hbinary : (Tree.binary s l e).IsGrouped rank :=
        ⟨hall.1.1, he, hall.1.2, htakes _ rfl⟩
      have htakes' : Pending.Takes rank p (.binary s l e) := by
        rintro q hq _ ⟨⟩
        exact hsorted.1 q (List.mem_of_mem_head? hq)
      have hk' : (Tree.binary s l e).AtLeast rank k := by
        rintro _ ⟨⟩
        exact hs
      obtain ⟨h1, h2, h3, h4, h5⟩ := ih ⟨hall.2, hsorted.2⟩ hbinary htakes' hk'
      refine ⟨h1, h2, h3, h4, ?_⟩
      rw [h5, marks, Tree.marks]
      simp
    · next hs =>
      refine ⟨⟨List.forall_mem_cons.mpr hall, List.pairwise_cons.mpr hsorted⟩, he, hk, ?_, rfl⟩
      rw [List.forall_mem_cons]
      exact ⟨Nat.lt_of_not_le hs, fun q hq => Nat.lt_trans (hsorted.1 q hq) (Nat.lt_of_not_le hs)⟩

/-- A negated unit or row of units is an operand of any sign. -/
theorem isGrouped_negate (he : e.IsGrouped rank) (hc : e.isCompact = true) (m : Nat) :
    (negate^[m] e).IsGrouped rank ∧ (negate^[m] e).sign? = none ∧
      (negate^[m] e).marks = List.replicate m .minus ++ e.marks := by
  induction m with
  | zero => exact ⟨he, sign?_of_isCompact hc, rfl⟩
  | succ m ih =>
    rw [Function.iterate_succ_apply']
    refine ⟨⟨ih.1, ih.2.1⟩, rfl, ?_⟩
    rw [marks, ih.2.2, List.replicate_succ, List.cons_append]

theorem atLeast_of_sign? (h : e.sign? = none) : e.AtLeast rank k := by
  intro s hs
  rw [h] at hs
  cases hs

/-- The marks of what waits outside of a parenthesis, the parenthesis included. -/
def Frame.marks (f : Frame) : List Mark :=
  f.pending.marks ++ List.replicate f.minuses .minus ++ (f.head.map Tree.marks).getD [] ++ [.opening]

/-- What waits outside of a parenthesis is grouped. -/
def Frame.IsGrouped (rank : ArithOp → Nat) (f : Frame) : Prop :=
  f.pending.IsGrouped rank ∧ ∀ l ∈ f.head, l.IsGrouped rank ∧ l.isCompact = true

/-- A parenthesis joins what it stands beside. -/
theorem Frame.inside_isGrouped {f : Frame} (hf : f.IsGrouped rank) (he : e.IsGrouped rank)
    (hu : e.isUnit = true) : (f.inside e).IsGrouped rank ∧ (f.inside e).isCompact = true ∧
      (f.inside e).marks = (f.head.map Tree.marks).getD [] ++ e.marks := by
  obtain ⟨p, m, head⟩ := f
  cases head with
  | none =>
    refine ⟨he, ?_, rfl⟩
    cases e <;> first | rfl | cases hu
  | some l =>
    obtain ⟨hl, hc⟩ := hf.2 l rfl
    exact ⟨⟨hl, he, hc, hu⟩, rfl, rfl⟩

namespace State

/-- The marks that have been read. -/
def marks : State → List Mark
  | .before o p m => o.reverse.flatMap Frame.marks ++ p.marks ++ List.replicate m .minus
  | .behind o p m e => o.reverse.flatMap Frame.marks ++ p.marks ++ List.replicate m .minus ++ e.marks

/-- All that has been read is grouped. -/
def IsGrouped (rank : ArithOp → Nat) : State → Prop
  | .before o p _ => (∀ f ∈ o, f.IsGrouped rank) ∧ p.IsGrouped rank
  | .behind o p _ e => (∀ f ∈ o, f.IsGrouped rank) ∧ p.IsGrouped rank ∧ e.IsGrouped rank ∧
    e.isCompact = true

/-- What stands behind the minus signs closes the signs that wait. -/
theorem close_isGrouped {o : List Frame} {p : Pending} {m : Nat}
    (h : (State.behind o p m e).IsGrouped rank) (k : Nat) :
    (p.close rank k (negate^[m] e)).1.IsGrouped rank ∧
      (p.close rank k (negate^[m] e)).2.IsGrouped rank ∧
      (p.close rank k (negate^[m] e)).2.AtLeast rank k ∧
      (∀ q ∈ (p.close rank k (negate^[m] e)).1, q.2.rank rank < k) ∧
      (p.close rank k (negate^[m] e)).1.marks ++ (p.close rank k (negate^[m] e)).2.marks =
        p.marks ++ List.replicate m .minus ++ e.marks := by
  obtain ⟨-, hp, he, hc⟩ := h
  obtain ⟨hgrouped, hsign, hmarks⟩ := isGrouped_negate he hc m
  have hclose := Pending.close_isGrouped (k := k) hp hgrouped
    (fun q _ => atLeast_of_sign? hsign) (atLeast_of_sign? hsign)
  rwa [hmarks, ← List.append_assoc] at hclose

/-- One mark keeps what has been read grouped. -/
theorem step_isGrouped {st st' : State} {a : Mark} (h : st.IsGrouped rank)
    (hstep : st.step rank a = some st') : st'.IsGrouped rank ∧ st'.marks = st.marks ++ [a] := by
  have hempty : Pending.IsGrouped rank [] := ⟨by simp, .nil⟩
  unfold step at hstep
  split at hstep
  · cases hstep
    exact ⟨⟨h.1, h.2, trivial, rfl⟩, rfl⟩
  · cases hstep
    refine ⟨h, ?_⟩
    simp [marks, List.replicate_succ', Mark.minus]
  · cases hstep
    exact ⟨⟨h.1, h.2, trivial, rfl⟩, rfl⟩
  · cases hstep
    refine ⟨⟨List.forall_mem_cons.mpr ⟨⟨h.2, by simp⟩, h.1⟩, hempty⟩, ?_⟩
    simp [marks, Frame.marks, Pending.marks]
  · next f o =>
    cases hstep
    obtain ⟨hf, ho⟩ := List.forall_mem_cons.mp h.1
    obtain ⟨hin, hc, hmarks⟩ := f.inside_isGrouped hf (e := .void) trivial rfl
    refine ⟨⟨ho, hf.1, hin, hc⟩, ?_⟩
    simp [marks, hmarks, Frame.marks, Pending.marks, Tree.marks]
  · cases hstep
    refine ⟨⟨h.1, h.2.1, ⟨h.2.2.1, trivial, h.2.2.2, rfl⟩, rfl⟩, ?_⟩
    simp [marks, Tree.marks]
  · cases hstep
    refine ⟨⟨List.forall_mem_cons.mpr ⟨⟨h.2.1, ?_⟩, h.1⟩, hempty⟩, ?_⟩
    · rintro _ ⟨⟩
      exact h.2.2
    · simp [marks, Frame.marks, Pending.marks]
  · next o p m e s =>
    cases hstep
    obtain ⟨hp, he, hleast, hbelow, hmarks⟩ := close_isGrouped h (s.rank rank)
    refine ⟨⟨h.1, ?_, ?_⟩, ?_⟩
    · exact List.forall_mem_cons.mpr ⟨⟨he, hleast⟩, hp.1⟩
    · exact List.pairwise_cons.mpr ⟨hbelow, hp.2⟩
    · simp only [marks, Pending.marks, List.append_assoc, List.replicate_zero, List.append_nil] at hmarks ⊢
      rw [← List.append_assoc (Pending.marks _), hmarks]
      simp
  · next f o p m e =>
    cases hstep
    obtain ⟨hp, he, hleast, hbelow, hmarks⟩ := close_isGrouped h 0
    obtain ⟨hf, ho⟩ := List.forall_mem_cons.mp h.1
    obtain ⟨hin, hc, hinside⟩ := f.inside_isGrouped hf (e := .group _) he rfl
    refine ⟨⟨ho, hf.1, hin, hc⟩, ?_⟩
    have hnil : (p.close rank 0 (negate^[m] e)).1 = [] :=
      List.eq_nil_iff_forall_not_mem.mpr fun q hq => Nat.not_lt_zero _ (hbelow q hq)
    rw [hnil] at hmarks
    simp only [marks, hinside, Tree.marks, Pending.marks, List.nil_append] at hmarks ⊢
    rw [hmarks]
    simp [Frame.marks]
  · cases hstep

/-- Whatever the machine reads is grouped by rank and keeps every mark. -/
theorem run_isGrouped {st st' : State} {ms : List Mark} (h : st.IsGrouped rank)
    (hrun : st.run rank ms = some st') : st'.IsGrouped rank ∧ st'.marks = st.marks ++ ms := by
  induction ms generalizing st with
  | nil =>
    cases hrun
    exact ⟨h, (List.append_nil _).symm⟩
  | cons a ms ih =>
    rw [run_cons, Option.bind_eq_some_iff] at hrun
    obtain ⟨st₁, hstep, hrun⟩ := hrun
    obtain ⟨h₁, hmarks₁⟩ := step_isGrouped h hstep
    obtain ⟨h', hmarks⟩ := ih h₁ hrun
    refine ⟨h', ?_⟩
    rw [hmarks, hmarks₁, List.append_assoc, List.singleton_append]

end State

/-- **Marks are read as a tree exactly if they are its marks and it is grouped.** -/
theorem read?_eq_some_iff : read? rank ms = some e ↔ e.marks = ms ∧ e.IsGrouped rank := by
  constructor
  · intro h
    obtain ⟨st, hrun, htree⟩ := Option.bind_eq_some_iff.mp h
    have hstart : (State.before [] [] 0).IsGrouped rank := ⟨by simp, by simp, .nil⟩
    obtain ⟨hst, hmarks⟩ := State.run_isGrouped hstart hrun
    unfold State.tree? at htree
    split at htree
    · next p m f =>
      cases htree
      obtain ⟨-, hgrouped, -, hbelow, hclosed⟩ := State.close_isGrouped hst 0
      have hnil : (p.close rank 0 (negate^[m] f)).1 = [] :=
        List.eq_nil_iff_forall_not_mem.mpr fun q hq => Nat.not_lt_zero _ (hbelow q hq)
      rw [hnil] at hclosed
      refine ⟨?_, hgrouped⟩
      simp only [State.marks, Pending.marks, List.nil_append, List.reverse_nil, List.flatMap_nil,
        List.replicate_zero] at hclosed hmarks
      rw [hclosed, hmarks]
    · cases htree
  · rintro ⟨rfl, h⟩
    exact read?_marks h

end Tree

end DataPhrase.Code
