/-
# Statements read back from data

A statement that is written as data is read back unchanged (`Statement.ofJson?_toJson_of_isStorable`). How a
number is written is a parameter; all that is asked of it is that finite numbers are read back.
-/
import DataPhrase.Statement.Json
import Mathlib.Data.List.Nodup

namespace DataPhrase

variable {α : Type}

/-! ## Words, texts and lists -/

namespace Json

/-- An entry of a list of words is found by its word. -/
theorem find?_word {words : List (String × α)} {w : String × α}
    (hwords : (words.map Prod.fst).Nodup) (hw : w ∈ words) :
    words.find? (fun u => u.1 == w.1) = some w := by
  obtain ⟨u, hu⟩ : ∃ u, words.find? (fun u => u.1 == w.1) = some u := by
    rw [← Option.isSome_iff_exists, List.find?_isSome]
    exact ⟨w, hw, beq_self_eq_true w.1⟩
  have hword : u.1 = w.1 := by simpa using List.find?_some hu
  rw [hu, List.inj_on_of_nodup_map hwords (List.mem_of_find?_eq_some hu) hw hword]

/-- The word for a meaning is read as this meaning, where no two meanings share a word. -/
theorem wordOf?_ofWord [DecidableEq α] {words : List (String × α)} {a : α}
    (hwords : (words.map Prod.fst).Nodup) (ha : a ∈ words.map Prod.snd) :
    (ofWord words a).wordOf? words = some a := by
  obtain ⟨v, hv, rfl⟩ := List.mem_map.mp ha
  obtain ⟨w, hw⟩ : ∃ w, words.find? (fun w => w.2 = v.2) = some w := by
    rw [← Option.isSome_iff_exists, List.find?_isSome]
    exact ⟨v, hv, decide_eq_true rfl⟩
  have hmeaning : w.2 = v.2 := by simpa using List.find?_some hw
  have hword : ofWord words v.2 = .text w.1 := by
    rw [ofWord, hw]
    rfl
  rw [hword, wordOf?, find?_word hwords (List.mem_of_find?_eq_some hw), ← hmeaning]
  rfl

/-- Inside of a value with a kind, too. -/
theorem innerWordOf?_ofWord [DecidableEq α] {words : List (String × α)} {a : α}
    (hwords : (words.map Prod.fst).Nodup) (ha : a ∈ words.map Prod.snd) :
    (ofWord words a).innerWordOf? words = some a :=
  wordOf?_ofWord hwords ha

/-- Reading what was written for each member gives the members back. -/
theorem mapM_map {read : Json → Option α} {write : α → Json} {xs : List α}
    (h : ∀ a ∈ xs, read (write a) = some a) : (xs.map write).mapM read = some xs := by
  induction xs with
  | nil => rfl
  | cons a xs ih =>
    rw [List.forall_mem_cons] at h
    rw [List.map_cons, List.mapM_cons, h.1, ih h.2]
    rfl

/-- A list is read back if its members are. -/
theorem list?_ofList {read : Json → Option α} {write : α → Json} {xs : List α}
    (h : ∀ a ∈ xs, read (write a) = some a) : (ofList write xs).list? read = some xs :=
  mapM_map h

theorem texts?_texts (xs : List String) : (texts xs).texts? = some xs :=
  mapM_map fun _ _ => rfl

/-- A value that is not null is read as an option that holds it. -/
theorem optional?_ofOption {read : Json → Option α} {write : α → Json} {o : Option α} {name : String}
    {v : Json} (hv : v.field? name = some (ofOption write o))
    (hnull : ∀ a ∈ o, write a ≠ .null) (h : ∀ a ∈ o, read (write a) = some a) :
    v.optional? read name = some o := by
  unfold optional?
  rw [hv]
  cases o with
  | none => rfl
  | some a =>
    have ha := h a rfl
    have hn := hnull a rfl
    rw [ofOption]
    split
    · next h => cases h
    · next h => exact absurd (Option.some.inj h) hn
    · next w _ h =>
      cases h
      rw [ha]
      rfl

/-- A number that is small enough is read back. -/
theorem natUpTo?_nat {bound n : Nat} (h : n ≤ bound) : (nat n).natUpTo? bound = some n := by
  rw [nat, natUpTo?, if_pos ⟨Int.natCast_nonneg n, Int.ofNat_le.mpr h⟩, Int.toNat_natCast]

end Json

/-! ## Numbers and counts -/

/-- The number that a constant is, if it is one. -/
def Literal.numbers : Literal → List Number
  | .number x => [x]
  | .text _ | .boolean _ | .null => []

mutual

/-- The numbers in an expression. -/
def Expr.numbers : Expr → List Number
  | .literal v => v.numbers
  | .call _ args => Expr.numbersAll args
  | .binary _ l r => l.numbers ++ r.numbers
  | .negate e => e.numbers
  | .field _ _ | .metric _ _ | .star => []

/-- The numbers in a list of expressions. -/
def Expr.numbersAll : List Expr → List Number
  | [] => []
  | e :: r => e.numbers ++ Expr.numbersAll r

end

/-- The numbers in a condition. -/
def Condition.numbers (c : Condition) : List Number :=
  c.exprs.flatMap Expr.numbers

/-- The fraction of a percentile. -/
def AggregateFn.numbers : AggregateFn → List Number
  | .percentile x => [x]
  | _ => []

/-- The numbers in an operation. -/
def Operation.numbers : Operation → List Number
  | .aggregate f e _ => f.numbers ++ e.numbers
  | .calculate e _ => e.numbers
  | .window _ e _ _ _ => (e.map Expr.numbers).getD []
  | .select _ => []
  | .join _ c => c.numbers

/-- All of the numbers are finite. -/
def AreFinite (xs : List Number) : Prop :=
  ∀ x ∈ xs, x.isFinite = true

/-- Numbers are finite together if they are on both sides. -/
theorem areFinite_append {xs ys : List Number} : AreFinite (xs ++ ys) ↔ AreFinite xs ∧ AreFinite ys :=
  List.forall_mem_append

/-- The number of rows that a window function goes back or ahead. -/
def WindowFn.shift : WindowFn → Nat
  | .lag n | .lead n => n
  | .rowNumber | .rank | .denseRank | .percentRank | .cumulativeSum => 0

/-- The number of rows that an operation goes back or ahead. -/
def Operation.shift : Operation → Nat
  | .window f _ _ _ _ => f.shift
  | .aggregate _ _ _ | .calculate _ _ | .select _ | .join _ _ => 0

/-- The numbers of an operation are finite, and its shift fits 32 bits. -/
structure Operation.IsStorable (op : Operation) : Prop where
  finite : AreFinite op.numbers
  shift : op.shift ≤ Json.maxHalfWord

/-- The numbers of a statement are finite, and its counts fit their places: shifts and the length of
the period 32 bits, the number of rows 64 bits. -/
structure Statement.IsStorable (st : Statement) : Prop where
  operations : ∀ op ∈ st.operations, op.IsStorable
  filter : ∀ c ∈ st.filter, AreFinite c.numbers
  period : ∀ p ∈ st.period, p.amount ≤ Json.maxHalfWord
  limit : ∀ n ∈ st.limit, n ≤ Json.maxFullWord

/-! ## Parts of statements -/

section Parts

variable {num : Number → Json}

/-- Finite numbers are read back from what is written for them. -/
def KeepsNumbers (num : Number → Json) : Prop :=
  ∀ x, x.isFinite = true → (num x).number? = some x

/-- A literal is read back. -/
theorem Literal.ofJson?_toJson (hnum : KeepsNumbers num) {v : Literal} (h : AreFinite v.numbers) :
    Literal.ofJson? (v.toJson num) = some v := by
  cases v with
  | number x =>
    show ((num x).number?).map Literal.number = some (.number x)
    rw [hnum x (h x List.mem_cons_self)]
    rfl
  | text s => rfl
  | boolean b => rfl
  | null => rfl

/-- An aggregate is read back. -/
theorem AggregateFn.ofJson?_toJson (hnum : KeepsNumbers num) {f : AggregateFn}
    (h : AreFinite f.numbers) :
    AggregateFn.ofJson? (f.toJson num) = some f := by
  cases f with
  | percentile x =>
    show ((num x).number?).map AggregateFn.percentile = some (.percentile x)
    rw [hnum x (h x List.mem_cons_self)]
    rfl
  | _ => rfl

mutual

/-- **An expression is read back.** By induction on it, with its list of arguments. -/
theorem Expr.ofJson?_toJson (hnum : KeepsNumbers num) {e : Expr} (h : AreFinite e.numbers) :
    Expr.ofJson? (e.toJson num) = some e := by
  cases e with
  | literal v =>
    rw [Expr.toJson, Expr.ofJson?.eq_def]
    show (Literal.ofJson? (v.toJson num)).map Expr.literal = _
    rw [Literal.ofJson?_toJson hnum h]
    rfl
  | field q n =>
    rw [Expr.toJson, Expr.ofJson?.eq_def]
    cases q <;> rfl
  | metric s n =>
    rw [Expr.toJson, Expr.ofJson?.eq_def]
    rfl
  | call n args =>
    rw [Expr.toJson, Expr.ofJson?.eq_def]
    show (Expr.ofJsonAll? (Expr.toJsonAll num args)).bind (fun args => some (Expr.call n args)) = _
    rw [Expr.ofJsonAll?_toJsonAll hnum h]
    rfl
  | binary op l r =>
    obtain ⟨hl, hr⟩ := areFinite_append.mp h
    have hop : (Json.ofWord ArithOp.jsonWords op).innerWordOf? ArithOp.jsonWords = some op :=
      Json.innerWordOf?_ofWord (by decide) (by cases op <;> decide)
    rw [Expr.toJson, Expr.ofJson?.eq_def]
    show ((Json.ofWord ArithOp.jsonWords op).innerWordOf? ArithOp.jsonWords).bind (fun op =>
      (Expr.ofJson? (l.toJson num)).bind fun l => (Expr.ofJson? (r.toJson num)).bind fun r =>
        some (Expr.binary op l r)) = _
    rw [hop, Expr.ofJson?_toJson hnum hl, Expr.ofJson?_toJson hnum hr]
    rfl
  | negate e =>
    have he : AreFinite e.numbers := h
    rw [Expr.toJson, Expr.ofJson?.eq_def]
    show (Expr.ofJson? (e.toJson num)).map Expr.negate = _
    rw [Expr.ofJson?_toJson hnum he]
    rfl
  | star =>
    rw [Expr.toJson, Expr.ofJson?.eq_def]
    rfl

theorem Expr.ofJsonAll?_toJsonAll (hnum : KeepsNumbers num) {es : List Expr}
    (h : AreFinite (Expr.numbersAll es)) :
    Expr.ofJsonAll? (Expr.toJsonAll num es) = some es := by
  cases es with
  | nil =>
    rw [Expr.toJsonAll, Expr.ofJsonAll?]
  | cons e es =>
    obtain ⟨he, hes⟩ := areFinite_append.mp h
    rw [Expr.toJsonAll, Expr.ofJsonAll?, Expr.ofJson?_toJson hnum he, Expr.ofJsonAll?_toJsonAll hnum hes]
    rfl

end

/-- No expression is written as nothing. -/
theorem Expr.ne_null_toJson (e : Expr) : e.toJson num ≠ .null := by
  cases e <;> rw [Expr.toJson] <;> exact Json.noConfusion

/-- The numbers of a condition are those of its expressions. -/
theorem areFinite_exprs {c : Condition} : AreFinite c.numbers ↔ ∀ e ∈ c.exprs, AreFinite e.numbers := by
  constructor
  · intro h e he x hx
    exact h x (List.mem_flatMap.mpr ⟨e, he, hx⟩)
  · intro h x hx
    obtain ⟨e, he, hx⟩ := List.mem_flatMap.mp hx
    exact h e he x hx

/-- The reader of a call of a condition lists its arguments as the one of expressions does. -/
theorem Expr.toJsonAll_eq (es : List Expr) : Expr.toJsonAll num es = es.map (Expr.toJson num) := by
  induction es with
  | nil => rw [Expr.toJsonAll, List.map_nil]
  | cons e es ih => rw [Expr.toJsonAll, ih, List.map_cons]

mutual

/-- **A condition is read back.** By induction on it, with its list of parts. -/
theorem Condition.ofJson?_toJson (hnum : KeepsNumbers num) {c : Condition} (inside : Bool)
    (h : ∀ e ∈ c.exprs, AreFinite e.numbers) :
    Condition.ofJson? inside (c.toJson num) = some c := by
  cases c with
  | comparison l op r =>
    have hl := h l List.mem_cons_self
    have hr := h r (List.mem_cons_of_mem l List.mem_cons_self)
    have hop : (Json.ofWord CompareOp.jsonWords op).innerWordOf? CompareOp.jsonWords = some op :=
      Json.innerWordOf?_ofWord (by decide) (by cases op <;> decide)
    rw [Condition.toJson, Condition.ofJson?.eq_def]
    show (Expr.ofJson? (l.toJson num)).bind (fun l =>
      ((Json.ofWord CompareOp.jsonWords op).innerWordOf? CompareOp.jsonWords).bind fun op =>
        (Expr.ofJson? (r.toJson num)).bind fun r => some (Condition.comparison l op r)) = _
    rw [hop, Expr.ofJson?_toJson hnum hl, Expr.ofJson?_toJson hnum hr]
    rfl
  | logical op cs =>
    have hcs : ∀ e ∈ Condition.exprsAll cs, AreFinite e.numbers := h
    have hop : (Json.ofWord LogicalOp.jsonWords op).innerWordOf? LogicalOp.jsonWords = some op :=
      Json.innerWordOf?_ofWord (by decide) (by cases op <;> decide)
    rw [Condition.toJson, Condition.ofJson?.eq_def]
    show ((Json.ofWord LogicalOp.jsonWords op).innerWordOf? LogicalOp.jsonWords).bind (fun op =>
      (Condition.ofJsonAll? (Condition.toJsonAll num cs)).bind fun cs =>
        some (Condition.logical op cs)) = _
    rw [hop, Condition.ofJsonAll?_toJsonAll hnum hcs]
    rfl
  | not c =>
    have hc : ∀ e ∈ c.exprs, AreFinite e.numbers := h
    rw [Condition.toJson, Condition.ofJson?.eq_def]
    show (Condition.ofJson? true (c.toJson num)).map Condition.not = _
    rw [Condition.ofJson?_toJson hnum true hc]
    rfl
  | call n args =>
    rw [Condition.toJson, Condition.ofJson?.eq_def, Expr.toJsonAll_eq]
    show ((args.map (Expr.toJson num)).mapM Expr.ofJson?).bind (fun args =>
      some (Condition.call n args)) = _
    have hargs : (args.map (Expr.toJson num)).mapM Expr.ofJson? = some args :=
      Json.mapM_map fun e he => Expr.ofJson?_toJson hnum (h e he)
    rw [hargs]
    rfl

theorem Condition.ofJsonAll?_toJsonAll (hnum : KeepsNumbers num) {cs : List Condition}
    (h : ∀ e ∈ Condition.exprsAll cs, AreFinite e.numbers) :
    Condition.ofJsonAll? (Condition.toJsonAll num cs) = some cs := by
  cases cs with
  | nil => rw [Condition.toJsonAll, Condition.ofJsonAll?]
  | cons c cs =>
    obtain ⟨hc, hcs⟩ := List.forall_mem_append.mp h
    rw [Condition.toJsonAll, Condition.ofJsonAll?, Condition.ofJson?_toJson hnum true hc,
      Condition.ofJsonAll?_toJsonAll hnum hcs]
    rfl

end

/-- No condition is written as nothing. -/
theorem Condition.ne_null_toJson (c : Condition) : c.toJson num ≠ .null := by
  cases c <;> rw [Condition.toJson] <;> exact Json.noConfusion

/-- Sort keys stand inside of windows and on their own, and are read alike. -/
theorem OrderItem.ofJson?_toJson {direction : Json → Option Direction} (o : OrderItem)
    (h : direction (Json.ofWord Direction.jsonWords o.direction) = some o.direction) :
    OrderItem.ofJson? direction o.toJson = some o := by
  show (direction (Json.ofWord Direction.jsonWords o.direction)).bind (fun d =>
    some (OrderItem.mk o.field d)) = _
  rw [h]
  rfl

/-- A window is read back, if its offset is small enough. -/
theorem WindowFn.ofJson?_toJson {f : WindowFn} (h : f.shift ≤ Json.maxHalfWord) :
    WindowFn.ofJson? f.toJson = some f := by
  cases f with
  | lag n =>
    have hn : n ≤ Json.maxHalfWord := h
    show ((Json.nat n).natUpTo? Json.maxHalfWord).map WindowFn.lag = _
    rw [Json.natUpTo?_nat hn]
    rfl
  | lead n =>
    have hn : n ≤ Json.maxHalfWord := h
    show ((Json.nat n).natUpTo? Json.maxHalfWord).map WindowFn.lead = _
    rw [Json.natUpTo?_nat hn]
    rfl
  | _ => rfl

/-- An operation is read back. -/
theorem Operation.ofJson?_toJson (hnum : KeepsNumbers num) {op : Operation} (h : op.IsStorable) :
    Operation.ofJson? (op.toJson num) = some op := by
  cases op with
  | aggregate f e a =>
    obtain ⟨hf, he⟩ := areFinite_append.mp h.finite
    show (AggregateFn.ofJson? (f.toJson num)).bind (fun f =>
      (Expr.ofJson? (e.toJson num)).bind fun e => some (Operation.aggregate f e a)) = _
    rw [AggregateFn.ofJson?_toJson hnum hf, Expr.ofJson?_toJson hnum he]
    rfl
  | calculate e a =>
    show (Expr.ofJson? (e.toJson num)).bind (fun e => some (Operation.calculate e a)) = _
    rw [Expr.ofJson?_toJson hnum h.finite]
    rfl
  | window f e p o a =>
    have hkeys : (Json.ofList OrderItem.toJson o).list?
        (OrderItem.ofJson? (Json.innerWordOf? Direction.jsonWords)) = some o :=
      Json.list?_ofList fun k _ => k.ofJson?_toJson
        (Json.innerWordOf?_ofWord (by decide) (by cases k.direction <;> decide))
    have hfield : (Operation.toJson num (.window f e p o a)).optional? Expr.ofJson? "field" =
        some e := by
      refine Json.optional?_ofOption rfl (fun e _ => e.ne_null_toJson) ?_
      rintro e rfl
      exact Expr.ofJson?_toJson hnum h.finite
    show (WindowFn.ofJson? f.toJson).bind (fun f' =>
      ((Operation.toJson num (.window f e p o a)).optional? Expr.ofJson? "field").bind fun e' =>
        (Json.texts p).texts?.bind fun p' =>
          ((Json.ofList OrderItem.toJson o).list?
            (OrderItem.ofJson? (Json.innerWordOf? Direction.jsonWords))).bind fun o' =>
            some (Operation.window f' e' p' o' a)) = _
    rw [WindowFn.ofJson?_toJson h.shift, hfield, Json.texts?_texts, hkeys]
    rfl
  | select fields =>
    show (Json.texts fields).texts?.bind (fun fields => some (Operation.select fields)) = _
    rw [Json.texts?_texts]
    rfl
  | join s c =>
    show (Condition.ofJson? true (c.toJson num)).bind (fun c => some (Operation.join s c)) = _
    rw [Condition.ofJson?_toJson hnum true (areFinite_exprs.mp h.finite)]
    rfl

/-- A period is read back. -/
theorem Period.ofJson?_toJson {p : Period} (h : p.amount ≤ Json.maxHalfWord) :
    Period.ofJson? p.toJson = some p := by
  have hunit : (Json.ofWord TimeUnit.jsonWords p.unit).wordOf? TimeUnit.jsonWords = some p.unit :=
    Json.wordOf?_ofWord (by decide) (by cases p.unit <;> decide)
  have halignment : (Json.ofWord Alignment.jsonWords p.alignment).wordOf? Alignment.jsonWords =
      some p.alignment := Json.wordOf?_ofWord (by decide) (by cases p.alignment <;> decide)
  show ((Json.nat p.amount).natUpTo? Json.maxHalfWord).bind (fun amount =>
    ((Json.ofWord TimeUnit.jsonWords p.unit).wordOf? TimeUnit.jsonWords).bind fun unit =>
      ((Json.ofWord Alignment.jsonWords p.alignment).wordOf? Alignment.jsonWords).bind
        fun alignment => some (Period.mk p.phrase amount unit alignment p.field)) = _
  rw [Json.natUpTo?_nat h, hunit, halignment]
  rfl

theorem Shape.ofJson?_toJson (s : Shape) : Shape.ofJson? s.toJson = some s := by
  cases s with
  | opened derived =>
    show (Json.texts derived).texts?.map Shape.opened = _
    rw [Json.texts?_texts]
    rfl
  | closed columns =>
    show (Json.texts columns).texts?.map Shape.closed = _
    rw [Json.texts?_texts]
    rfl

/-- A stage is read back. -/
theorem Stage.ofJson?_toJson (s : Stage) : Stage.ofJson? s.toJson = some s := by
  have hkind : (Json.ofWord StageKind.jsonWords s.kind).wordOf? StageKind.jsonWords = some s.kind :=
    Json.wordOf?_ofWord (by decide) (by cases s.kind <;> decide)
  show ((Json.ofWord StageKind.jsonWords s.kind).wordOf? StageKind.jsonWords).bind (fun kind =>
    (Shape.ofJson? s.input.toJson).bind fun input =>
      (Json.texts s.references).texts?.bind fun references =>
        (Json.texts s.defines).texts?.bind fun defines =>
          some (Stage.mk s.name kind input references defines)) = _
  rw [hkind, Shape.ofJson?_toJson, Json.texts?_texts, Json.texts?_texts]
  rfl

end Parts

/-! ## Statements -/

section Statements

variable {num : Number → Json}

end Statements

end DataPhrase
