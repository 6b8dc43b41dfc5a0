/-
# Clauses inside statements

What a clause reads off a text of its own it reads inside a statement, and reading goes on behind
it. There is one lemma for each clause, and one for all stages of a pipeline.
-/
import DataPhrase.Proofs.Statement.Behind
import DataPhrase.Proofs.Statement.ClauseRun

namespace DataPhrase

open Text Lexeme

variable {α : Type} {q r s t u v w : List Char}

theorem trim_space : trim (" ".toList ++ s) = trim s :=
  trim_cons_of_isBlank (by decide)

/-- A word that is followed by more in front is still there when the text goes on. -/
theorem wordAhead?_append_of_cons {c : Char} (h : wordAhead? s = some (w, c :: r)) :
    wordAhead? (s ++ t) = some (w, c :: r ++ t) := by
  unfold wordAhead? at h ⊢
  rw [trim_append]
  cases hs : trim s with
  | nil =>
    rw [hs] at h
    cases h
  | cons d q =>
    rw [hs] at h
    dsimp only at h
    split at h
    · next hd =>
      rw [Option.some.injEq, Prod.mk.injEq] at h
      obtain ⟨rfl, hr⟩ := h
      have hlen : (q.takeWhile isNameChar).length ≠ q.length := by
        intro hlen
        have := congrArg List.length (List.takeWhile_append_dropWhile (p := isNameChar) (l := q))
        rw [hr, List.length_append, List.length_cons] at this
        omega
      rw [glue_cons]
      dsimp only
      rw [if_pos hd, List.takeWhile_append, if_neg hlen, List.dropWhile_append, hr]
      rfl
    · cases h

/-- The words open a clause: a blank, and a word that is none of the tied ones. -/
def isLead (k : List Char) : Bool :=
  k.head?.any isBlank && match wordAhead? k with
    | some (w, _ :: _) => tiedWords.all fun k => !sameWord w k.toList
    | _ => false

/-- The first words of a clause are quiet, whatever the clause is. -/
theorem quiet_of_isLead (h : isLead s = true) : Quiet (s ++ t) := by
  rw [isLead, Bool.and_eq_true] at h
  obtain ⟨hb, hw⟩ := h
  cases s with
  | nil => cases hb
  | cons c s =>
    split at hw
    · next w d r hs =>
      rw [← wordAhead?_trim, trim_cons_of_isBlank hb, wordAhead?_trim] at hs
      exact quiet_of_word hb (wordAhead?_append_of_cons hs) hw
    · cases hw

theorem quiet_arrow : Quiet (' ' :: '-' :: '>' :: t) where
  tight := tight_cons (by decide)
  sum := rfl
  product := rfl
  name := rfl
  comma := nofun
  sign := rfl
  words := fun _ _ => rfl

/-! ## Going on -/

namespace ClauseForm

variable {C K : Type} {c : C} {kind : K}

/-- With the clauses `c` in front of `s`, reading goes on at `u` with the clauses `d`. -/
def GoesOn (f : ClauseForm C K) (c : C) (s : List Char) (d : C) (u : List Char) : Prop :=
  ∀ e, f.Run d u e → f.Run c s e

/-- A clause that opens with the words `k` and is read by `p` adds what `p` reads, and reading goes
on behind it. -/
theorem goesOn (f : ClauseForm C K) {k : String} {p : Phrase α} {a : α} {g : α → C}
    {q : List Char → List Char} (hp : Takes p v a) (ht : Quiet t)
    (hs : trim s = trim (k.toList ++ (v ++ t)))
    (hw : ∀ x, wordAhead? (k.toList ++ x) = some (w, q x)) (hk : f.kindOf? w = some kind)
    (hc : f.has c kind = false)
    (hg : ∀ x u, (p (" ".toList ++ x)).Gives a u → (f.read c kind (q x)).Gives (g a) u) :
    ∃ u, trim u = trim t ∧ f.GoesOn c s (g a) u := by
  obtain ⟨u, hu, hut⟩ := hp t (" ".toList ++ (v ++ t)) ht trim_space
  exact ⟨u, hut, fun _ h => .next ((wordAhead?_congr hs).trans (hw (v ++ t))) hk hc (hg _ u hu) h⟩

end ClauseForm

/-! ## Transform statements -/

namespace Transform.Clauses

variable {c : Clauses}

/-- Reading goes on behind the operations of a transform statement. -/
theorem goesOn_operations {ops : List Operation} (hc : c.operations = none)
    (hp : Takes operationList v ops) (ht : Quiet t)
    (hs : trim s = trim (" as ".toList ++ (v ++ t))) :
    ∃ u, trim u = trim t ∧ form.GoesOn c s { c with operations := some ops } u := by
  refine form.goesOn (w := "as".toList) (g := fun ops => { c with operations := some ops })
    (q := (" ".toList ++ ·)) hp ht hs (fun _ => rfl) rfl ?_ ?_
  · show c.operations.isSome = false
    rw [hc]
    rfl
  · intro x u hu
    exact Reader.gives_bind.mpr ⟨ops, u, hu, Reader.gives_pure.mpr ⟨rfl, rfl⟩⟩

/-- Reading goes on behind its grouping. -/
theorem goesOn_group {keys : List String} (hc : c.group = none) (hp : Takes fieldList v keys)
    (ht : Quiet t) (hs : trim s = trim (" grouped by ".toList ++ (v ++ t))) :
    ∃ u, trim u = trim t ∧ form.GoesOn c s { c with group := some keys } u := by
  refine form.goesOn (w := "grouped".toList) (g := fun keys => { c with group := some keys })
    (q := (" by ".toList ++ ·)) hp ht hs (fun _ => rfl) rfl ?_ ?_
  · show c.group.isSome = false
    rw [hc]
    rfl
  · intro x u hu
    refine Reader.gives_bind.mpr ⟨(), " ".toList ++ x, gives_keyword.mpr rfl, ?_⟩
    exact Reader.gives_bind.mpr ⟨keys, u, hu, Reader.gives_pure.mpr ⟨rfl, rfl⟩⟩

/-- Reading goes on behind its filter. -/
theorem goesOn_filter {a : Condition} (hc : c.filter = none) (hp : Takes Condition.read v a)
    (ht : Quiet t) (hs : trim s = trim (" where ".toList ++ (v ++ t))) :
    ∃ u, trim u = trim t ∧ form.GoesOn c s { c with filter := some a } u := by
  refine form.goesOn (w := "where".toList) (g := fun a => { c with filter := some a })
    (q := (" ".toList ++ ·)) hp ht hs (fun _ => rfl) rfl ?_ ?_
  · show c.filter.isSome = false
    rw [hc]
    rfl
  · intro x u hu
    exact Reader.gives_bind.mpr ⟨a, u, hu, Reader.gives_pure.mpr ⟨rfl, rfl⟩⟩

/-- Reading goes on behind its order. -/
theorem goesOn_order {order : List OrderItem} (hc : c.order = none) (hp : Takes orderList v order)
    (ht : Quiet t) (hs : trim s = trim (" ordered by ".toList ++ (v ++ t))) :
    ∃ u, trim u = trim t ∧ form.GoesOn c s { c with order := some order } u := by
  refine form.goesOn (w := "ordered".toList) (g := fun order => { c with order := some order })
    (q := (" by ".toList ++ ·)) hp ht hs (fun _ => rfl) rfl ?_ ?_
  · show c.order.isSome = false
    rw [hc]
    rfl
  · intro x u hu
    refine Reader.gives_bind.mpr ⟨(), " ".toList ++ x, gives_keyword.mpr rfl, ?_⟩
    exact Reader.gives_bind.mpr ⟨order, u, hu, Reader.gives_pure.mpr ⟨rfl, rfl⟩⟩

end Transform.Clauses

/-! ## Questions -/

namespace Question

namespace Clauses

variable {c : Clauses}

/-- Reading goes on behind the source of a question. -/
theorem goesOn_source {source : String} (hc : c.source = none) (hp : Takes datasetName v source)
    (ht : Quiet t) (hs : trim s = trim (" from ".toList ++ (v ++ t))) :
    ∃ u, trim u = trim t ∧ form.GoesOn c s { c with source := some source } u := by
  refine form.goesOn (w := "from".toList) (g := fun source => { c with source := some source })
    (q := (" ".toList ++ ·)) hp ht hs (fun _ => rfl) rfl ?_ ?_
  · show c.source.isSome = false
    rw [hc]
    rfl
  · intro x u hu
    exact Reader.gives_bind.mpr ⟨source, u, hu, Reader.gives_pure.mpr ⟨rfl, rfl⟩⟩

/-- Reading goes on behind its grouping. -/
theorem goesOn_group {keys : List String} (hc : c.group = none) (hp : Takes keyList v keys)
    (ht : Quiet t) (hs : trim s = trim (" by ".toList ++ (v ++ t))) :
    ∃ u, trim u = trim t ∧ form.GoesOn c s { c with group := some keys } u := by
  refine form.goesOn (w := "by".toList) (g := fun keys => { c with group := some keys })
    (q := (" ".toList ++ ·)) hp ht hs (fun _ => rfl) rfl ?_ ?_
  · show c.group.isSome = false
    rw [hc]
    rfl
  · intro x u hu
    obtain ⟨first, q, hfirst, h⟩ := Reader.gives_bind.mp hu
    obtain ⟨rest, q', hrest, h⟩ := Reader.gives_bind.mp h
    obtain ⟨rfl, rfl⟩ := Reader.gives_pure.mp h
    exact Reader.gives_bind.mpr ⟨first, q, hfirst, Reader.gives_bind.mpr ⟨rest, q', hrest,
      Reader.gives_pure.mpr ⟨rfl, rfl⟩⟩⟩

/-- Reading goes on behind its filter. -/
theorem goesOn_filter {a : Condition} (hc : c.filter = none) (hp : Takes Condition.read v a)
    (ht : Quiet t) (hs : trim s = trim (" where ".toList ++ (v ++ t))) :
    ∃ u, trim u = trim t ∧ form.GoesOn c s { c with filter := some a } u := by
  refine form.goesOn (w := "where".toList) (g := fun a => { c with filter := some a })
    (q := (" ".toList ++ ·)) hp ht hs (fun _ => rfl) rfl ?_ ?_
  · show c.filter.isSome = false
    rw [hc]
    rfl
  · intro x u hu
    exact Reader.gives_bind.mpr ⟨a, u, hu, Reader.gives_pure.mpr ⟨rfl, rfl⟩⟩

/-- Reading goes on behind its order. -/
theorem goesOn_order {order : List OrderItem} (hc : c.order = none) (hp : Takes orderList v order)
    (ht : Quiet t) (hs : trim s = trim (" ordered by ".toList ++ (v ++ t))) :
    ∃ u, trim u = trim t ∧ form.GoesOn c s { c with order := some order } u := by
  refine form.goesOn (w := "ordered".toList) (g := fun order => { c with order := some order })
    (q := (" by ".toList ++ ·)) hp ht hs (fun _ => rfl) rfl ?_ ?_
  · show c.order.isSome = false
    rw [hc]
    rfl
  · intro x u hu
    refine Reader.gives_bind.mpr ⟨(), " ".toList ++ x, gives_keyword.mpr rfl, ?_⟩
    exact Reader.gives_bind.mpr ⟨order, u, hu, Reader.gives_pure.mpr ⟨rfl, rfl⟩⟩

end Clauses

end Question

/-! ## Stages -/

namespace Pipeline

variable {k : StageKind} {b : StageBody} {ws : List Written}

/-- A stage is read behind its arrow, and reading goes on behind its closing parenthesis. -/
theorem gives_stages (hs : trim s = '-' :: '>' :: q) (hw : wordAhead? q = some (w, '(' :: v))
    (hk : StageKind.ofName? (String.ofList (lower w)) = some k)
    (hb : (readBody k v).Gives b u) (hu : trim u = ')' :: t)
    (h : (writtenStages t).Gives ws r) :
    (writtenStages s).Gives (⟨String.ofList (lower w), k, b⟩ :: ws) r := by
  refine (gives_writtenStages_arrow hs).mpr ⟨_, t, ws, ?_, h, rfl⟩
  refine Reader.gives_bind.mpr ⟨(), trim q, gives_skipBlanks.mpr rfl, ?_⟩
  refine Reader.gives_bind.mpr ⟨(String.ofList (lower w), k), v, ?_, ?_⟩
  · refine Reader.gives_bind.mpr ⟨(String.ofList (lower w), k), '(' :: v, ?_, ?_⟩
    · refine Reader.gives_refine.mpr ⟨String.ofList w, ?_, ?_⟩
      · exact gives_identifier.mpr ⟨w, by rw [wordAhead?_trim, hw], rfl⟩
      · simp only [String.toList_ofList, hk]
    · exact Reader.gives_bind.mpr ⟨(), v, gives_mark.mpr rfl, Reader.gives_pure.mpr ⟨rfl, rfl⟩⟩
  · refine Reader.gives_bind.mpr ⟨b, u, hb, ?_⟩
    exact Reader.gives_bind.mpr ⟨(), t, gives_mark.mpr hu, Reader.gives_pure.mpr ⟨rfl, rfl⟩⟩

end Pipeline

end DataPhrase
