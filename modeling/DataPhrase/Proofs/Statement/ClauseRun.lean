/-
# Clause after clause

Transform statements and questions end in clauses, each opened by a word and read until the text is
used up. A form of clauses has its own words and readers; what a whole reading does is the same for
every form (`ClauseForm.Run`), so what each clause preserves is preserved by all of them.
-/
import DataPhrase.Proofs.Reading.Lexeme
import DataPhrase.Statement.Question
import DataPhrase.Statement.Transform

namespace DataPhrase

open Text Lexeme

variable {C K : Type}

/-- A form of clauses, collected in a record `C`. -/
structure ClauseForm (C K : Type) where
  /-- The kind of clause that a word opens. -/
  kindOf? : List Char → Option K
  /-- There can be no further clause of the kind. -/
  has : C → K → Bool
  /-- Read a clause of the kind behind its first word. -/
  read : C → K → Phrase C
  /-- What is missing where no word opens a clause. -/
  what : Expected

namespace ClauseForm

variable {f : ClauseForm C K} {go : C → Phrase C} {c d e : C} {s r : List Char}

/-- Stop at the end of the text, or read one clause and go on with `go`. -/
def round (f : ClauseForm C K) (go : C → Phrase C) (c : C) : Phrase C := fun s =>
  if (trim s).isEmpty then .done c (trim s) (trim_suffix s)
  else
    match nextWord s with
    | none => .stop (.unexpected (some f.what)) (trim s) (trim_suffix s)
    | some x =>
      match f.kindOf? x.1.value with
      | none => .stop (.unexpected (some f.what)) (trim s) (trim_suffix s)
      | some kind =>
        if f.has c kind then .stop .duplicateClause (trim s) (trim_suffix s)
        else ((f.read c kind x.1.rest).andThen fun d r _ => go d r).widen x.1.suffix

/-- From the clauses `c` on, the text `s` is read clause after clause to its end. -/
inductive Run (f : ClauseForm C K) : C → List Char → C → Prop
  | stop {c : C} {s : List Char} (hs : trim s = []) : Run f c s c
  | next {c d e : C} {kind : K} {s w q u : List Char} (hw : wordAhead? s = some (w, q))
      (hk : f.kindOf? w = some kind) (hc : f.has c kind = false)
      (hd : (f.read c kind q).Gives d u) (h : Run f d u e) : Run f c s e

/-- A property that each clause preserves is preserved by all of them. -/
theorem Run.invariant {P : C → Prop} (h : f.Run c s d)
    (hP : ∀ c kind s d r, (f.read c kind s).Gives d r → P c → P d) (hc : P c) : P d := by
  induction h with
  | stop => exact hc
  | next _ _ _ hd _ ih => exact ih (hP _ _ _ _ _ hd hc)

/-! ## One round -/

theorem gives_round_of_nil (hs : trim s = []) :
    (f.round go c s).Gives d r ↔ d = c ∧ r = [] := by
  rw [round, if_pos (by rw [hs]; rfl), Outcome.gives_done, hs]
  exact and_congr eq_comm eq_comm

/-- Where a word stands in front, it opens a clause that can stand here. -/
theorem gives_round_of_word {w q : List Char} (hw : wordAhead? s = some (w, q)) :
    (f.round go c s).Gives d r ↔ ∃ kind e u, f.kindOf? w = some kind ∧ f.has c kind = false ∧
      (f.read c kind q).Gives e u ∧ (go e u).Gives d r := by
  have hs := trim_ne_nil_of_wordAhead? hw
  rcases nextWord_cases s with ⟨-, hn⟩ | ⟨x, hx, hxw⟩
  · rw [hw] at hn
    cases hn
  · rw [hw, Option.some.injEq, Prod.mk.injEq] at hxw
    obtain ⟨rfl, rfl⟩ := hxw
    rw [round, if_neg (by simpa using hs), hx]
    dsimp only
    cases hk : f.kindOf? x.1.value with
    | none => simp
    | some kind =>
      cases hc : f.has c kind with
      | true =>
        dsimp only
        rw [if_pos hc]
        refine iff_of_false Outcome.not_gives_stop ?_
        rintro ⟨_, e, u, hkind, hfree, -⟩
        cases hkind
        rw [hc] at hfree
        cases hfree
      | false =>
        dsimp only
        rw [if_neg (by rw [hc]; exact Bool.false_ne_true), Outcome.gives_widen,
          Outcome.gives_andThen]
        constructor
        · rintro ⟨e, u, -, he, h⟩
          exact ⟨kind, e, u, rfl, hc, he, h⟩
        · rintro ⟨_, e, u, hkind, -, he, h⟩
          cases hkind
          exact ⟨e, u, he.suffix, he, h⟩

theorem not_gives_round (hs : trim s ≠ []) (hw : wordAhead? s = none) :
    ¬ (f.round go c s).Gives d r := by
  rcases nextWord_cases s with ⟨hn, -⟩ | ⟨x, -, hx⟩
  · rw [round, if_neg (by simpa using hs), hn]
    exact Outcome.not_gives_stop
  · rw [hw] at hx
    cases hx

/-! ## All rounds -/

/-- A reader that goes round after round gives what a run gives, and leaves nothing. -/
theorem gives_iff_run (hgo : ∀ c, go c = f.round go c) :
    (go c s).Gives d r ↔ f.Run c s d ∧ r = [] := by
  constructor
  · intro h
    induction hn : s.length using Nat.strongRecOn generalizing c s with
    | _ n ih =>
      rw [hgo] at h
      by_cases hs : trim s = []
      · obtain ⟨rfl, rfl⟩ := (gives_round_of_nil hs).mp h
        exact ⟨.stop hs, rfl⟩
      · cases hw : wordAhead? s with
        | none => exact absurd h (not_gives_round hs hw)
        | some x =>
          obtain ⟨kind, e, u, hk, hc, he, h⟩ := (gives_round_of_word hw).mp h
          have hlen := length_lt_of_wordAhead? hw
          have hu := he.suffix.length_le
          obtain ⟨hrun, rfl⟩ := ih u.length (by omega) h rfl
          exact ⟨.next hw hk hc he hrun, rfl⟩
  · rintro ⟨h, rfl⟩
    induction h with
    | stop hs =>
      rw [hgo]
      exact (gives_round_of_nil hs).mpr ⟨rfl, rfl⟩
    | next hw hk hc hd _ ih =>
      rw [hgo]
      exact (gives_round_of_word hw).mpr ⟨_, _, _, hk, hc, hd, ih⟩

end ClauseForm

/-! ## The two forms -/

namespace Transform.Clauses

/-- The clauses of a transform statement. -/
def form : ClauseForm Clauses ClauseKind where
  kindOf? := ClauseKind.ofWord?
  has := has
  read := readClause
  what := .transformClause

theorem readAll_eq (c : Clauses) : readAll c = form.round readAll c := by
  funext s
  rw [readAll.eq_def]
  unfold ClauseForm.round
  cases nextWord s with
  | none => rfl
  | some x =>
    dsimp only [form]
    cases ClauseKind.ofWord? x.1.value <;> rfl

variable {c d : Clauses} {s r : List Char}

theorem gives_readAll : (readAll c s).Gives d r ↔ form.Run c s d ∧ r = [] :=
  ClauseForm.gives_iff_run readAll_eq

/-- What a clause adds to the clauses in front of it, and where it was read. -/
inductive Adds (c : Clauses) : Clauses → Prop
  | join (other : String) {x : Condition} {s r : List Char} (h : (Condition.read s).Gives x r) :
    Adds c { c with joins := c.joins ++ [.join other x] }
  | operations {ops : List Operation} {s r : List Char} (h : (operationList s).Gives ops r) :
    Adds c { c with operations := some ops }
  | group (fields : List String) : Adds c { c with group := some fields }
  | filter {x : Condition} {s r : List Char} (h : (Condition.read s).Gives x r) :
    Adds c { c with filter := some x }
  | order (order : List OrderItem) : Adds c { c with order := some order }
  | select (fields : List String) : Adds c { c with select := some fields }
  | period {p : Period} {s r : List Char} (h : (Period.read s).Gives p r) :
    Adds c { c with period := some p }
  | limit (n : Nat) : Adds c { c with limit := some n }

theorem adds_of_readClause {kind : ClauseKind} (h : (c.readClause kind s).Gives d r) :
    c.Adds d := by
  cases kind with
  | join =>
    obtain ⟨_, _, -, h⟩ := Reader.gives_bind.mp h
    obtain ⟨other, _, -, h⟩ := Reader.gives_bind.mp h
    obtain ⟨_, _, -, h⟩ := Reader.gives_bind.mp h
    obtain ⟨x, _, hx, h⟩ := Reader.gives_bind.mp h
    obtain ⟨rfl, -⟩ := Reader.gives_pure.mp h
    exact .join other hx
  | operations =>
    obtain ⟨ops, _, hops, h⟩ := Reader.gives_bind.mp h
    obtain ⟨rfl, -⟩ := Reader.gives_pure.mp h
    exact .operations hops
  | group =>
    obtain ⟨_, _, -, h⟩ := Reader.gives_bind.mp h
    obtain ⟨fields, _, -, h⟩ := Reader.gives_bind.mp h
    obtain ⟨rfl, -⟩ := Reader.gives_pure.mp h
    exact .group fields
  | filter =>
    obtain ⟨x, _, hx, h⟩ := Reader.gives_bind.mp h
    obtain ⟨rfl, -⟩ := Reader.gives_pure.mp h
    exact .filter hx
  | order =>
    obtain ⟨_, _, -, h⟩ := Reader.gives_bind.mp h
    obtain ⟨order, _, -, h⟩ := Reader.gives_bind.mp h
    obtain ⟨rfl, -⟩ := Reader.gives_pure.mp h
    exact .order order
  | select =>
    obtain ⟨fields, _, -, h⟩ := Reader.gives_bind.mp h
    obtain ⟨rfl, -⟩ := Reader.gives_pure.mp h
    exact .select fields
  | period =>
    obtain ⟨p, _, hp, h⟩ := Reader.gives_bind.mp h
    obtain ⟨rfl, -⟩ := Reader.gives_pure.mp h
    exact .period hp
  | limit =>
    obtain ⟨n, _, -, h⟩ := Reader.gives_bind.mp h
    obtain ⟨rfl, -⟩ := Reader.gives_pure.mp h
    exact .limit n

/-- What no clause breaks holds of all clauses that are read. -/
theorem invariant_of_readAll {P : Clauses → Prop} (h : (readAll c s).Gives d r)
    (hP : ∀ c d, c.Adds d → P c → P d) (hc : P c) : P d :=
  (gives_readAll.mp h).1.invariant (fun c _ _ d _ h => hP c d (adds_of_readClause h)) hc

/-- What holds of the joins, of the operations and of the selection among the clauses holds of every
operation of the statement. -/
theorem forall_operations {Q : Operation → Prop} (hjoins : ∀ op ∈ c.joins, Q op)
    (hops : ∀ ops ∈ c.operations, ∀ op ∈ ops, Q op)
    (hselect : ∀ fields ∈ c.select, Q (.select fields)) (source target : String) :
    ∀ op ∈ (c.statement source target).operations, Q op := by
  refine List.forall_mem_append.mpr ⟨List.forall_mem_append.mpr ⟨hjoins, ?_⟩, ?_⟩
  · cases ho : c.operations with
    | none => exact fun _ hop => absurd hop List.not_mem_nil
    | some ops => exact hops ops ho
  · intro op hop
    obtain ⟨fields, hf, rfl⟩ := Option.map_eq_some_iff.mp (Option.mem_toList.mp hop)
    exact hselect fields hf

end Transform.Clauses

namespace Question.Clauses

/-- The clauses of a question. -/
def form : ClauseForm Clauses ClauseKind where
  kindOf? := ClauseKind.ofWord?
  has := has
  read := readClause
  what := .queryClause

theorem readAll_eq (c : Clauses) : readAll c = form.round readAll c := by
  funext s
  rw [readAll.eq_def]
  unfold ClauseForm.round
  cases nextWord s with
  | none => rfl
  | some x =>
    dsimp only [form]
    cases ClauseKind.ofWord? x.1.value <;> rfl

variable {c d : Clauses} {s r : List Char}

theorem gives_readAll : (readAll c s).Gives d r ↔ form.Run c s d ∧ r = [] :=
  ClauseForm.gives_iff_run readAll_eq

/-- What a clause adds to the clauses in front of it, and where it was read. -/
inductive Adds (c : Clauses) : Clauses → Prop
  | source {n : String} {s r : List Char} (h : (datasetName s).Gives n r) :
    Adds c { c with source := some n }
  | group (fields : List String) : Adds c { c with group := some fields }
  | filter {x : Condition} {s r : List Char} (h : (Condition.read s).Gives x r) :
    Adds c { c with filter := some x }
  | order (order : List OrderItem) : Adds c { c with order := some order }
  | period {p : Period} {s r : List Char} (h : (Period.read s).Gives p r) :
    Adds c { c with period := some p }
  | join (other : String) {x : Condition} {s r : List Char} (h : (Condition.read s).Gives x r) :
    Adds c { c with joins := c.joins ++ [.join other x] }

theorem adds_of_readClause {kind : ClauseKind} (h : (c.readClause kind s).Gives d r) :
    c.Adds d := by
  cases kind with
  | source =>
    obtain ⟨n, _, hn, h⟩ := Reader.gives_bind.mp h
    obtain ⟨rfl, -⟩ := Reader.gives_pure.mp h
    exact .source hn
  | group =>
    obtain ⟨first, _, -, h⟩ := Reader.gives_bind.mp h
    obtain ⟨rest, _, -, h⟩ := Reader.gives_bind.mp h
    obtain ⟨rfl, -⟩ := Reader.gives_pure.mp h
    exact .group (first :: rest)
  | filter =>
    obtain ⟨x, _, hx, h⟩ := Reader.gives_bind.mp h
    obtain ⟨rfl, -⟩ := Reader.gives_pure.mp h
    exact .filter hx
  | order =>
    obtain ⟨_, _, -, h⟩ := Reader.gives_bind.mp h
    obtain ⟨order, _, -, h⟩ := Reader.gives_bind.mp h
    obtain ⟨rfl, -⟩ := Reader.gives_pure.mp h
    exact .order order
  | period =>
    obtain ⟨p, _, hp, h⟩ := Reader.gives_bind.mp h
    obtain ⟨rfl, -⟩ := Reader.gives_pure.mp h
    exact .period hp
  | join =>
    obtain ⟨_, _, -, h⟩ := Reader.gives_bind.mp h
    obtain ⟨other, _, -, h⟩ := Reader.gives_bind.mp h
    obtain ⟨_, _, -, h⟩ := Reader.gives_bind.mp h
    obtain ⟨x, _, hx, h⟩ := Reader.gives_bind.mp h
    obtain ⟨rfl, -⟩ := Reader.gives_pure.mp h
    exact .join other hx

/-- What no clause breaks holds of all clauses that are read. -/
theorem invariant_of_readAll {P : Clauses → Prop} (h : (readAll c s).Gives d r)
    (hP : ∀ c d, c.Adds d → P c → P d) (hc : P c) : P d :=
  (gives_readAll.mp h).1.invariant (fun c _ _ d _ h => hP c d (adds_of_readClause h)) hc

end Question.Clauses

/-- What holds of the joins, of the operations that are asked for and of a selection of them holds
of every operation of the question. -/
theorem Question.forall_operations {Q : Operation → Prop} {c : Clauses} {items : List Asked}
    (hjoins : ∀ op ∈ c.joins, Q op) (hitems : ∀ a ∈ items, ∀ op ∈ a.operations c.group, Q op)
    (hselect : Q (.select (items.flatMap Asked.selected))) (source : String)
    (limit : Option Nat) : ∀ op ∈ (statement source limit items c).operations, Q op := by
  refine List.forall_mem_append.mpr ⟨List.forall_mem_append.mpr ⟨hjoins, ?_⟩, ?_⟩
  · intro op hop
    obtain ⟨a, ha, hop⟩ := List.mem_flatMap.mp hop
    exact hitems a ha op hop
  · rw [selection]
    split
    · exact List.forall_mem_singleton.mpr hselect
    · exact fun _ hop => absurd hop List.not_mem_nil

end DataPhrase
