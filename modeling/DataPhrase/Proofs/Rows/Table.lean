/-
# Sorting and grouping rows

Rows are sorted stably by a list of keys, and reduced to one row for each tuple of values of the
group keys. Both commute with filters that read no more than they keep.
-/
import DataPhrase.Proofs.Rows.Value

namespace DataPhrase.Rows

/-! ## Stable sorting -/

section Sorting

variable {α : Type} {le : α → α → Bool} (trans : ∀ a b c, le a b = true → le b c = true → le a c = true)
  (total : ∀ a b, (le a b || le b a) = true)

include trans total

/-- Sorting one element more puts it in front of the elements that it is not behind. -/
theorem exists_mergeSort_cons (a : α) (l : List α) :
    ∃ l₁ l₂, (a :: l).mergeSort le = l₁ ++ a :: l₂ ∧ l.mergeSort le = l₁ ++ l₂ ∧
      (∀ b ∈ l₁, le a b = false) ∧ ∀ b ∈ l₂, le a b = true := by
  obtain ⟨l₁, l₂, h, h', h₁⟩ := List.mergeSort_cons trans total a l
  refine ⟨l₁, l₂, h, h', ?_, ?_⟩
  · intro b hb
    simpa using h₁ b hb
  · intro b hb
    have hs := List.pairwise_mergeSort trans total (a :: l)
    rw [h] at hs
    exact (List.pairwise_cons.mp (List.pairwise_append.mp hs).2.1).1 b hb

omit trans total in
/-- A list is cut in one way only into elements with a property and elements without it. -/
theorem append_cut_unique {p : α → Bool} {l₁ l₂ m₁ m₂ : List α} (h : l₁ ++ l₂ = m₁ ++ m₂)
    (hl₁ : ∀ b ∈ l₁, p b = false) (hl₂ : ∀ b ∈ l₂, p b = true) (hm₁ : ∀ b ∈ m₁, p b = false)
    (hm₂ : ∀ b ∈ m₂, p b = true) : l₁ = m₁ ∧ l₂ = m₂ := by
  induction l₁ generalizing m₁ with
  | nil =>
    cases m₁ with
    | nil => exact ⟨rfl, h⟩
    | cons b m₁ =>
      have hb := hm₁ b List.mem_cons_self
      rw [hl₂ b (by rw [show l₂ = b :: (m₁ ++ m₂) from h]; exact List.mem_cons_self)] at hb
      cases hb
  | cons a l₁ ih =>
    cases m₁ with
    | nil =>
      have ha := hl₁ a List.mem_cons_self
      rw [hm₂ a (by rw [show m₂ = a :: (l₁ ++ l₂) from h.symm]; exact List.mem_cons_self)] at ha
      cases ha
    | cons b m₁ =>
      rw [List.cons_append, List.cons_append, List.cons.injEq] at h
      obtain ⟨rfl, h⟩ := h
      obtain ⟨rfl, rfl⟩ := ih h (fun b hb => hl₁ b (List.mem_cons_of_mem _ hb))
        (fun b hb => hm₁ b (List.mem_cons_of_mem _ hb))
      exact ⟨rfl, rfl⟩

/-- **Stability**: sorting commutes with filtering. -/
theorem filter_mergeSort (p : α → Bool) (l : List α) :
    (l.mergeSort le).filter p = (l.filter p).mergeSort le := by
  induction l with
  | nil => simp
  | cons a l ih =>
    obtain ⟨l₁, l₂, h, h', hl₁, hl₂⟩ := exists_mergeSort_cons trans total a l
    rw [h', List.filter_append] at ih
    rw [h, List.filter_append]
    cases ha : p a with
    | false => rw [List.filter_cons_of_neg (by simp [ha]), List.filter_cons_of_neg (by simp [ha]), ih]
    | true =>
      rw [List.filter_cons_of_pos ha, List.filter_cons_of_pos ha]
      obtain ⟨m₁, m₂, hm, hm', hm₁, hm₂⟩ := exists_mergeSort_cons trans total a (l.filter p)
      rw [hm'] at ih
      obtain ⟨h₁, h₂⟩ := append_cut_unique ih
        (fun b hb => hl₁ b (List.mem_filter.mp hb).1) (fun b hb => hl₂ b (List.mem_filter.mp hb).1)
        hm₁ hm₂
      rw [hm, h₁, h₂]

end Sorting

/-- A filter may be applied before or after repetitions are left out. -/
theorem eraseDups_filter {α : Type} [BEq α] [LawfulBEq α] (p : α → Bool) (l : List α) :
    (l.filter p).eraseDups = l.eraseDups.filter p := by
  induction hn : l.length using Nat.strongRecOn generalizing l with
  | _ n ih =>
    cases l with
    | nil => rfl
    | cons a l =>
      have hlt : (l.filter fun b => !b == a).length < n := by
        have := List.length_filter_le (fun b => !b == a) l
        rw [List.length_cons] at hn
        omega
      have ih' := ih _ hlt (l.filter fun b => !b == a) rfl
      rw [List.eraseDups_cons, List.filter_cons]
      cases ha : p a with
      | true =>
        rw [if_pos rfl, List.eraseDups_cons, List.filter_cons_of_pos ha, ← ih', List.filter_filter,
          List.filter_filter]
        simp only [Bool.and_comm]
      | false =>
        rw [if_neg Bool.false_ne_true, List.filter_cons_of_neg (by simp [ha]), ← ih',
          List.filter_filter]
        congr 1
        refine List.filter_congr fun b hb => ?_
        cases hb' : p b with
        | false => rfl
        | true =>
          have hne : b ≠ a := by
            rintro rfl
            rw [ha] at hb'
            cases hb'
          simp [hne]

namespace Algebra

variable {V : Type} (A : Algebra V)

/-! ## Sorting rows -/

/-- The first value comes no later than the second in a direction. -/
def keyLe (d : Direction) (x y : V) : Bool :=
  match d with
  | .asc => A.le x y
  | .desc => A.le y x

theorem keyLe_total (d : Direction) (x y : V) : (A.keyLe d x y || A.keyLe d y x) = true := by
  cases d with
  | asc => exact A.le_total x y
  | desc => exact A.le_total y x

theorem keyLe_trans (d : Direction) (x y z : V) (h : A.keyLe d x y = true)
    (h' : A.keyLe d y z = true) : A.keyLe d x z = true := by
  cases d with
  | asc => exact A.le_trans x y z h h'
  | desc => exact A.le_trans z y x h' h

/-- The first row comes no later than the second by the sort keys, an earlier key first. -/
def rowLe : List OrderItem → Row V → Row V → Bool
  | [], _, _ => true
  | o :: order, r, q =>
    let x := A.get r (columnOf o.field)
    let y := A.get q (columnOf o.field)
    A.keyLe o.direction x y && (!A.keyLe o.direction y x || rowLe order r q)

theorem rowLe_total (order : List OrderItem) (r q : Row V) :
    (A.rowLe order r q || A.rowLe order q r) = true := by
  induction order with
  | nil => rfl
  | cons o order ih =>
    have ht := A.keyLe_total o.direction (A.get r (columnOf o.field)) (A.get q (columnOf o.field))
    rw [rowLe, rowLe]
    cases h : A.keyLe o.direction (A.get r (columnOf o.field)) (A.get q (columnOf o.field)) with
    | false =>
      rw [h] at ht
      simp only [Bool.false_or] at ht
      simp [ht]
    | true =>
      cases h' : A.keyLe o.direction (A.get q (columnOf o.field)) (A.get r (columnOf o.field)) with
      | false => simp
      | true => simpa using ih

theorem rowLe_trans (order : List OrderItem) (r q u : Row V) (h : A.rowLe order r q = true)
    (h' : A.rowLe order q u = true) : A.rowLe order r u = true := by
  induction order with
  | nil => rfl
  | cons o order ih =>
    simp only [rowLe, Bool.and_eq_true, Bool.or_eq_true, Bool.not_eq_true'] at h h' ⊢
    obtain ⟨hrq, h⟩ := h
    obtain ⟨hqu, h'⟩ := h'
    refine ⟨A.keyLe_trans _ _ _ _ hrq hqu, ?_⟩
    cases hur : A.keyLe o.direction (A.get u (columnOf o.field)) (A.get r (columnOf o.field)) with
    | false => exact Or.inl rfl
    | true =>
      right
      have hqr := A.keyLe_trans _ _ _ _ hqu hur
      have huq := A.keyLe_trans _ _ _ _ hur hrq
      rw [hqr] at h
      rw [huq] at h'
      exact ih (by simpa using h) (by simpa using h')

/-- The rows sorted by the keys; rows that are equal in them keep their order. -/
def sort (order : List OrderItem) (rows : List (Row V)) : List (Row V) :=
  rows.mergeSort (A.rowLe order)

theorem sort_nil (rows : List (Row V)) : A.sort [] rows = rows := by
  refine List.mergeSort_of_pairwise ?_
  exact List.pairwise_of_forall fun _ _ => rfl

theorem filter_sort (order : List OrderItem) (p : Row V → Bool) (rows : List (Row V)) :
    (A.sort order rows).filter p = A.sort order (rows.filter p) :=
  filter_mergeSort (A.rowLe_trans order) (A.rowLe_total order) p rows

theorem rowLe_congr {order : List OrderItem} {f : Row V → Row V}
    (h : ∀ n ∈ order.map fun o => columnOf o.field, ∀ r, A.get (f r) n = A.get r n)
    (r q : Row V) : A.rowLe order (f r) (f q) = A.rowLe order r q := by
  induction order with
  | nil => rfl
  | cons o order ih =>
    have ho := h (columnOf o.field) List.mem_cons_self
    rw [rowLe, rowLe, ho r, ho q, ih fun n hn => h n (List.mem_cons_of_mem _ hn)]

/-- What leaves the sort keys alone may be done before or after sorting. -/
theorem map_sort {order : List OrderItem} {f : Row V → Row V}
    (h : ∀ n ∈ order.map fun o => columnOf o.field, ∀ r, A.get (f r) n = A.get r n)
    (rows : List (Row V)) : (A.sort order rows).map f = A.sort order (rows.map f) :=
  List.map_mergeSort fun r _ q _ => (A.rowLe_congr h r q).symm

/-! ## Grouping rows -/

variable [DecidableEq V]

/-- The value of an aggregate over rows. -/
def reduced (rows : List (Row V)) (a : Aggregate) : String × V :=
  (a.aliasName, A.aggregate a.function (rows.map fun r => A.value r a.field))

/-- The rows reduced to one for each tuple of values of the keys, in the order of first occurrence,
or to exactly one row if there are no keys. -/
def reduce (keys : List String) (aggregates : List Aggregate) (rows : List (Row V)) :
    List (Row V) :=
  match keys with
  | [] => [aggregates.map (A.reduced rows)]
  | keys =>
    (rows.map (A.project keys)).eraseDups.map fun head =>
      head ++ aggregates.map (A.reduced (rows.filter fun r => A.project keys r == head))

theorem reduce_of_ne_nil {keys : List String} (h : keys ≠ []) (aggregates : List Aggregate)
    (rows : List (Row V)) : A.reduce keys aggregates rows =
      (rows.map (A.project keys)).eraseDups.map fun head =>
        head ++ aggregates.map (A.reduced (rows.filter fun r => A.project keys r == head)) := by
  cases keys with
  | nil => exact absurd rfl h
  | cons k keys => rfl

/-- **A filter that reads only group keys may be applied before or after grouping.** -/
theorem filter_reduce {keys : List String} (hk : keys ≠ []) (aggregates : List Aggregate)
    {p : Row V → Bool} (hp : ∀ r q, p (A.project keys r ++ q) = p r) (rows : List (Row V)) :
    (A.reduce keys aggregates rows).filter p = A.reduce keys aggregates (rows.filter p) := by
  have hhead : ∀ r, p (A.project keys r) = p r := by
    intro r
    have := hp r []
    rwa [List.append_nil] at this
  rw [A.reduce_of_ne_nil hk, A.reduce_of_ne_nil hk]
  have hf : (rows.filter p).map (A.project keys) = (rows.map (A.project keys)).filter p := by
    rw [List.filter_map]
    congr 1
    exact List.filter_congr fun r _ => (hhead r).symm
  rw [hf, eraseDups_filter, List.filter_map]
  have hm : ∀ head ∈ (rows.map (A.project keys)).eraseDups, ∃ r, head = A.project keys r := by
    intro head hh
    obtain ⟨r, -, rfl⟩ := List.mem_map.mp (List.mem_eraseDups.mp hh)
    exact ⟨r, rfl⟩
  have hc : (rows.map (A.project keys)).eraseDups.filter (p ∘ fun head =>
      head ++ aggregates.map (A.reduced (rows.filter fun r => A.project keys r == head))) =
      (rows.map (A.project keys)).eraseDups.filter p := by
    refine List.filter_congr fun head hh => ?_
    obtain ⟨r, rfl⟩ := hm head hh
    show p (A.project keys r ++ _) = _
    rw [hp, hhead]
  rw [hc]
  refine List.map_congr_left fun head hh => ?_
  obtain ⟨hh, hph⟩ := List.mem_filter.mp hh
  -- every row of a group that is kept is kept
  have hg : (rows.filter p).filter (fun r => A.project keys r == head) =
      rows.filter fun r => A.project keys r == head := by
    rw [List.filter_filter]
    refine List.filter_congr fun r _ => ?_
    cases he : A.project keys r == head with
    | false => rfl
    | true =>
      rw [beq_iff_eq] at he
      rw [Bool.true_and, ← hhead r, he, hph]
  rw [hg]

end Algebra

end DataPhrase.Rows
