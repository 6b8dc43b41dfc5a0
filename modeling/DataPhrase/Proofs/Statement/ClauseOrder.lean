/-
# Clauses in any order

Clauses that are each read to their end on their own are read in every order behind each other, and
what they add up to depends on the order of the joins only. The proof is the same for every form of
clauses: what follows a clause changes nothing in it (`Keeps`), and values of different kinds can be
added in any order (`foldl_eq_of_filter_eq`).
-/
import DataPhrase.Proofs.Statement.Following

namespace DataPhrase

open Text Lexeme

/-! ## Values in any order -/

/-- **What values add up to depends on the order of values of one kind only**, where values of
different kinds can change places. -/
theorem foldl_eq_of_filter_eq {A C K : Type} [DecidableEq K] {add : C → A → C} {kind : A → K}
    (hadd : ∀ c a b, kind a ≠ kind b → add (add c a) b = add (add c b) a) {as bs : List A}
    (h : ∀ k, as.filter (fun a => kind a = k) = bs.filter (fun a => kind a = k)) (c : C) :
    as.foldl add c = bs.foldl add c := by
  induction as generalizing bs c with
  | nil =>
    cases bs with
    | nil => rfl
    | cons b bs =>
      have hb := h (kind b)
      rw [List.filter_cons, if_pos (decide_eq_true rfl)] at hb
      cases hb
  | cons a as ih =>
    have ha := h (kind a)
    rw [List.filter_cons, if_pos (decide_eq_true rfl)] at ha
    obtain ⟨l, r, rfl, hl, -, hr⟩ := List.filter_eq_cons_iff.mp ha.symm
    -- the first value of its kind moves to the front
    have hfront : ∀ (l : List A) (c : C), (∀ x ∈ l, kind x ≠ kind a) →
        l.foldl add (add c a) = add (l.foldl add c) a := by
      intro l
      induction l with
      | nil => exact fun _ _ => rfl
      | cons x l ihl =>
        intro c hx
        rw [List.forall_mem_cons] at hx
        rw [List.foldl_cons, List.foldl_cons, hadd c a x (Ne.symm hx.1), ihl _ hx.2]
    have hne : ∀ x ∈ l, kind x ≠ kind a := fun x hx => by simpa using hl x hx
    rw [List.foldl_cons, List.foldl_append, List.foldl_cons, ← hfront l c hne, ← List.foldl_append]
    refine ih (fun k => ?_) _
    have hk := h k
    by_cases hka : kind a = k
    · subst hka
      rw [List.filter_append, List.filter_eq_nil_iff.mpr hl, hr, List.nil_append]
    · rw [List.filter_cons_of_neg (by simpa using hka), List.filter_append,
        List.filter_cons_of_neg (by simpa using hka), ← List.filter_append] at hk
      exact hk

/-! ## Texts of clauses -/

/-- The texts one after another, each behind a blank. -/
def inRow (xs : List (List Char)) : List Char :=
  xs.flatMap (' ' :: ·)

theorem trim_inRow_cons {x : List Char} {xs : List (List Char)} :
    trim (inRow (x :: xs)) = trim (x ++ inRow xs) :=
  trim_cons_of_isBlank (by decide)

/-- What the reader takes off the whole text, up to blanks behind it. -/
def whole? {α : Type} (p : Phrase α) (s : List Char) : Option α :=
  match p s with
  | .ok x => if trim x.rest = [] then some x.value else none
  | .error _ => none

theorem whole?_eq_some {α : Type} {p : Phrase α} {s : List Char} {a : α} :
    whole? p s = some a ↔ Accepts p s a := by
  unfold whole? Accepts
  cases p s with
  | error e =>
    refine iff_of_false (Option.some_ne_none a).symm ?_
    rintro ⟨r, h, -⟩
    exact Outcome.not_gives_error h
  | ok x =>
    dsimp only
    constructor
    · intro h
      split at h
      · next hx =>
        obtain rfl := Option.some.inj h
        exact ⟨x.rest, Outcome.gives_ok.mpr ⟨rfl, rfl⟩, hx⟩
      · cases h
    · rintro ⟨r, h, hr⟩
      obtain ⟨rfl, rfl⟩ := Outcome.gives_ok.mp h
      exact if_pos hr

namespace ClauseForm

variable {C K A : Type} {f : ClauseForm C K} {c : C} {join : K} {x u : List Char}
  {xs ys : List (List Char)} {a : A}

/-- The kind of clause that the first word of a text opens. -/
def kindAhead? (f : ClauseForm C K) (x : List Char) : Option K :=
  (wordAhead? x).bind fun w => f.kindOf? w.1

/-- The text is one clause: behind its first word, a clause of the kind is read to the end. -/
def IsClause (f : ClauseForm C K) (c : C) (x : List Char) : Prop :=
  ∃ w q k d r, wordAhead? x = some (w, q) ∧ f.kindOf? w = some k ∧ (f.read c k q).Gives d r ∧
    trim r = []

/-- What is collected when the clauses are read each on its own: one after another adds what it says
to the record of those in front of it. -/
inductive Collects (f : ClauseForm C K) : C → List (List Char) → C → Prop
  | nil (c : C) : Collects f c [] c
  | cons {c d e : C} {x w q r : List Char} {xs : List (List Char)} {k : K}
      (word : wordAhead? x = some (w, q)) (kind : f.kindOf? w = some k)
      (reads : (f.read c k q).Gives d r) (ends : trim r = []) (rest : Collects f d xs e) :
      Collects f c (x :: xs) e

/-- The texts are clauses, at most one of each kind other than `join`. -/
structure AreClauses (f : ClauseForm C K) (c : C) (join : K) (xs : List (List Char)) : Prop where
  clause : ∀ x ∈ xs, f.IsClause c x
  once : xs.Pairwise fun x y => f.kindAhead? x = f.kindAhead? y → f.kindAhead? x = some join

theorem AreClauses.perm (h : f.AreClauses c join xs) (hp : ys.Perm xs) :
    f.AreClauses c join ys where
  clause x hx := h.clause x (hp.mem_iff.mp hx)
  once := by
    refine (hp.pairwise_iff ?_).mpr h.once
    intro x y hxy heq
    rw [heq]
    exact hxy heq.symm

/-- Clauses can follow a clause. -/
theorem follows_inRow (h : ∀ x ∈ xs, f.IsClause c x) : f.Follows (inRow xs) := by
  induction xs with
  | nil => exact Or.inl rfl
  | cons x xs ih =>
    rw [List.forall_mem_cons] at h
    obtain ⟨w, q, k, -, -, hw, hk, -⟩ := h.1
    exact Or.inr ⟨' ', x ++ inRow xs, w, q ++ inRow xs, k, rfl, by decide,
      wordAhead?_append (ih h.2).tight hw, hk⟩

namespace Parts

variable [DecidableEq K] (p : f.Parts A)

/-- The value of the text of a clause. -/
def value? (x : List Char) : Option A :=
  (wordAhead? x).bind fun w => (f.kindOf? w.1).bind fun k => whole? (p.read k) w.2

theorem value?_eq_some : p.value? x = some a ↔ ∃ w q, wordAhead? x = some (w, q) ∧
    f.kindOf? w = some (p.kind a) ∧ Accepts (p.read (p.kind a)) q a := by
  rw [value?, Option.bind_eq_some_iff]
  constructor
  · rintro ⟨⟨w, q⟩, hw, h⟩
    obtain ⟨k, hk, h⟩ := Option.bind_eq_some_iff.mp h
    obtain ⟨r, ha, hr⟩ := whole?_eq_some.mp h
    obtain rfl := p.yields_kind k _ _ _ ha
    exact ⟨w, q, hw, hk, r, ha, hr⟩
  · rintro ⟨w, q, hw, hk, ha⟩
    exact ⟨(w, q), hw, Option.bind_eq_some_iff.mpr ⟨_, hk, whole?_eq_some.mpr ha⟩⟩

variable {p}

theorem kindAhead?_of_value? (h : p.value? x = some a) : f.kindAhead? x = some (p.kind a) := by
  obtain ⟨w, q, hw, hk, -⟩ := p.value?_eq_some.mp h
  rw [kindAhead?, hw]
  exact hk

theorem exists_value?_of_isClause (h : f.IsClause c x) : ∃ a, p.value? x = some a := by
  obtain ⟨w, q, k, d, r, hw, hk, hd, hr⟩ := h
  rw [p.read_eq] at hd
  obtain ⟨a, v, ha, h⟩ := Reader.gives_bind.mp hd
  obtain ⟨rfl, rfl⟩ := Reader.gives_pure.mp h
  obtain rfl := p.yields_kind k _ _ _ ha
  exact ⟨a, p.value?_eq_some.mpr ⟨w, q, hw, hk, v, ha, hr⟩⟩

theorem isClause_of_value? (c : C) (h : (p.value? x).isSome = true) : f.IsClause c x := by
  obtain ⟨a, ha⟩ := Option.isSome_iff_exists.mp h
  obtain ⟨w, q, hw, hk, r, hr, hend⟩ := p.value?_eq_some.mp ha
  refine ⟨w, q, _, p.add c a, r, hw, hk, ?_, hend⟩
  rw [p.read_eq]
  exact Reader.gives_bind.mpr ⟨a, r, hr, Reader.gives_pure.mpr ⟨rfl, rfl⟩⟩

/-- Texts with values are clauses. -/
theorem areClauses_of_values (c : C) (hvalues : (xs.all fun x => (p.value? x).isSome) = true)
    (honce : xs.Pairwise fun x y =>
      f.kindAhead? x = f.kindAhead? y → f.kindAhead? x = some p.join) :
    f.AreClauses c p.join xs where
  clause x hx := isClause_of_value? c (List.all_eq_true.mp hvalues x hx)
  once := honce

/-- What is collected from clauses is what their values add up to. -/
theorem collects_values (h : ∀ x ∈ xs, f.IsClause c x) (d : C) :
    f.Collects d xs ((xs.filterMap p.value?).foldl p.add d) := by
  induction xs generalizing d with
  | nil => exact .nil d
  | cons x xs ih =>
    rw [List.forall_mem_cons] at h
    obtain ⟨a, ha⟩ := exists_value?_of_isClause (p := p) h.1
    obtain ⟨w, q, hw, hk, r, hr, hend⟩ := p.value?_eq_some.mp ha
    rw [List.filterMap_cons_some ha, List.foldl_cons]
    refine .cons hw hk ?_ hend (ih h.2 _)
    rw [p.read_eq]
    exact Reader.gives_bind.mpr ⟨a, r, hr, Reader.gives_pure.mpr ⟨rfl, rfl⟩⟩

/-- The values of one kind are those of the texts that begin with a word of the kind. -/
theorem filter_values (xs : List (List Char)) (k : K) :
    (xs.filterMap p.value?).filter (fun a => p.kind a = k) =
      (xs.filter fun x => f.kindAhead? x = some k).filterMap p.value? := by
  induction xs with
  | nil => rfl
  | cons x xs ih =>
    cases hx : p.value? x with
    | none =>
      rw [List.filterMap_cons_none hx, ih, List.filter_cons]
      split
      · rw [List.filterMap_cons_none hx]
      · rfl
    | some a =>
      rw [List.filterMap_cons_some hx, List.filter_cons, List.filter_cons, ih,
        kindAhead?_of_value? hx]
      by_cases ha : p.kind a = k
      · rw [if_pos (decide_eq_true ha), if_pos (decide_eq_true (congrArg some ha)),
          List.filterMap_cons_some hx]
      · rw [if_neg (by simpa using ha), if_neg (by simpa using ha)]

/-- Of a kind other than the joins there is one clause at most. -/
theorem filter_eq_of_perm (h : f.AreClauses c join xs) (hp : ys.Perm xs) {k : K} (hk : k ≠ join) :
    ys.filter (fun x => f.kindAhead? x = some k) = xs.filter (fun x => f.kindAhead? x = some k) := by
  have hperm := hp.filter fun x => f.kindAhead? x = some k
  have honce := h.once.filter fun x => f.kindAhead? x = some k
  cases hxs : xs.filter fun x => f.kindAhead? x = some k with
  | nil =>
    rw [hxs] at hperm
    exact hperm.eq_nil
  | cons x l =>
    rw [hxs] at hperm honce
    cases l with
    | nil => exact List.perm_singleton.mp hperm
    | cons y l =>
      have hmem : ∀ z ∈ x :: y :: l, f.kindAhead? z = some k := by
        rw [← hxs]
        exact fun z hz => of_decide_eq_true (List.mem_filter.mp hz).2
      have hx := hmem x List.mem_cons_self
      have hy := hmem y (List.mem_cons_of_mem _ List.mem_cons_self)
      have hjoin := List.rel_of_pairwise_cons honce List.mem_cons_self (hx.trans hy.symm)
      rw [hx] at hjoin
      exact absurd (Option.some.inj hjoin) hk

/-- What clauses add up to depends on the order of the joins only. -/
theorem foldl_values_eq (h : f.AreClauses c p.join xs) (hp : ys.Perm xs)
    (hjoins : ys.filter (fun x => f.kindAhead? x = some p.join) =
      xs.filter (fun x => f.kindAhead? x = some p.join)) (c : C) :
    (ys.filterMap p.value?).foldl p.add c = (xs.filterMap p.value?).foldl p.add c := by
  refine foldl_eq_of_filter_eq p.add_comm (fun k => ?_) c
  rw [filter_values, filter_values]
  by_cases hk : k = p.join
  · rw [hk, hjoins]
  · rw [filter_eq_of_perm h hp hk]

/-! ## Reading clauses in a row -/

/-- **Clauses that are read on their own are read in a row.** -/
theorem run_inRow (hkeeps : ∀ t, f.Follows t → ∀ k, Keeps t (p.read k))
    (h : f.AreClauses c p.join xs) (hscan : ∀ x ∈ xs, Condition.ScanEnds x) {d : C}
    (hfree : ∀ x ∈ xs, ∀ k, f.kindAhead? x = some k → f.has d k = false)
    (hu : trim u = trim (inRow xs)) : f.Run d u ((xs.filterMap p.value?).foldl p.add d) := by
  induction xs generalizing d u with
  | nil => exact .stop hu
  | cons x xs ih =>
    obtain ⟨hclause, honce⟩ := h
    rw [List.forall_mem_cons] at hclause hscan hfree
    rw [List.pairwise_cons] at honce
    obtain ⟨a, ha⟩ := exists_value?_of_isClause (p := p) hclause.1
    obtain ⟨w, q, hw, hk, r, hr, hend⟩ := p.value?_eq_some.mp ha
    have hfollows := follows_inRow hclause.2
    have hword : wordAhead? u = some (w, q ++ inRow xs) := by
      rw [wordAhead?_congr hu]
      exact wordAhead?_append hfollows.tight hw
    obtain ⟨v, hv, hvr⟩ := hkeeps _ hfollows _ q a r (q ++ inRow xs)
      (hscan.1.of_suffix (wordAhead?_suffix hw)) hr rfl
    rw [trim_append_of_blank hend] at hvr
    have hkind := kindAhead?_of_value? ha
    rw [List.filterMap_cons_some ha, List.foldl_cons]
    refine .next hword hk (hfree.1 _ hkind) ?_
      (ih ⟨hclause.2, honce.2⟩ hscan.2 (fun y hy k hyk => ?_) hvr)
    · rw [p.read_eq]
      exact Reader.gives_bind.mpr ⟨a, v, hv, Reader.gives_pure.mpr ⟨rfl, rfl⟩⟩
    · -- only a further join is of the kind of the clause that was added
      rw [p.has_add, hfree.2 y hy k hyk, Bool.false_or, Bool.and_eq_false_iff]
      by_cases hsame : p.kind a = k
      · right
        have hjoin := honce.1 y hy (by rw [hkind, hyk, hsame])
        rw [hkind, hsame] at hjoin
        rw [Option.some.inj hjoin, beq_self_eq_true]
        rfl
      · left
        exact beq_eq_false_iff_ne.mpr hsame

end Parts

end ClauseForm

end DataPhrase
