/-
# Rendering templates

A template is cut into placeholders and plain characters. Nothing is lost between the pieces, and
digits in braces are a placeholder wherever they stand, if their value fits (`isSplit_piecesOf`).
Rendering puts in the arguments all at once, so that an argument is never read again; it succeeds
exactly if there are as many arguments as the template needs (`render_eq_ok_iff`), and otherwise
names the first placeholder without one (`render_eq_error_iff`).
-/
import DataPhrase.Code.Resolve
import Mathlib.Data.List.Basic
import Mathlib.Order.MinMax

namespace DataPhrase

open Text

/-! ## Placeholders -/

/-- The digits of a placeholder: there is at least one, and their value fits. -/
structure Piece.IsIndex (ds : List Char) : Prop where
  ne_nil : ds ≠ []
  digits : ∀ c ∈ ds, isDigit c = true
  fits : index ds ≤ Template.maxIndex

namespace Template

variable {s u v r ds : List Char} {c : Char}

/-- The text of a placeholder in front of a text. -/
theorem source_hole_append (ds r : List Char) :
    (Piece.hole ds).source ++ r = '\x7b' :: (ds ++ '\x7d' :: r) := by
  simp [Piece.source]

/-- No placeholder stands at the start of the text. -/
def StartsPlain (s : List Char) : Prop :=
  ∀ ds r, Piece.IsIndex ds → s ≠ (Piece.hole ds).source ++ r

/-- Digits and a closing brace stand ahead exactly when the text says so. -/
theorem holeAhead?_eq_some :
    holeAhead? s = some (ds, r) ↔ Piece.IsIndex ds ∧ s = ds ++ '\x7d' :: r := by
  constructor
  · intro h
    unfold holeAhead? at h
    have hs := List.takeWhile_append_dropWhile (p := isDigit) (l := s)
    split at h
    · next t ht =>
      dsimp only at h
      split at h
      · next hfits =>
        obtain ⟨rfl, rfl⟩ := Prod.mk.inj (Option.some.inj h)
        refine ⟨⟨hfits.1, List.all_eq_true.mp List.all_takeWhile, hfits.2⟩, ?_⟩
        rw [← ht]
        exact hs.symm
      · cases h
    · cases h
  · rintro ⟨h, rfl⟩
    have hclose : isDigit '\x7d' = false := by decide
    unfold holeAhead?
    rw [List.takeWhile_append_of_pos h.digits, List.dropWhile_append_of_pos h.digits,
      List.takeWhile_cons_of_neg (by simp [hclose]), List.dropWhile_cons_of_neg (by simp [hclose]),
      List.append_nil]
    simp [h.ne_nil, h.fits]

/-- A placeholder in front is the first piece. -/
theorem piecesOf_hole (h : Piece.IsIndex ds) (r : List Char) :
    piecesOf ((Piece.hole ds).source ++ r) = .hole ds :: piecesOf r := by
  rw [source_hole_append, piecesOf, if_pos rfl]
  split
  · next h' =>
    rw [holeAhead?_eq_some.mpr ⟨h, rfl⟩] at h'
    obtain ⟨rfl, rfl⟩ := Prod.mk.inj (Option.some.inj h')
    rfl
  · next h' =>
    rw [holeAhead?_eq_some.mpr ⟨h, rfl⟩] at h'
    cases h'

/-- A character that opens no placeholder is a piece of its own. -/
theorem piecesOf_char (h : StartsPlain (c :: s)) : piecesOf (c :: s) = .char c :: piecesOf s := by
  rw [piecesOf]
  split
  · next hc =>
    split
    · next ds r h' =>
      obtain ⟨hds, rfl⟩ := holeAhead?_eq_some.mp h'
      exact absurd (by rw [source_hole_append, hc]) (h ds r hds)
    · rfl
  · rfl

/-- Texts are read from the front: a placeholder is taken off whole, any other character alone. -/
@[elab_as_elim]
theorem text_induction {motive : List Char → Prop} (nil : motive [])
    (hole : ∀ ds r, Piece.IsIndex ds → motive r → motive ((Piece.hole ds).source ++ r))
    (char : ∀ c r, StartsPlain (c :: r) → motive r → motive (c :: r)) (s : List Char) :
    motive s := by
  induction hn : s.length using Nat.strongRecOn generalizing s with
  | ind n ih =>
    cases s with
    | nil => exact nil
    | cons c r =>
      by_cases hs : StartsPlain (c :: r)
      · exact char c r hs (ih r.length (by simp [← hn]) r rfl)
      · unfold StartsPlain at hs
        push Not at hs
        obtain ⟨ds, t, hds, heq⟩ := hs
        rw [heq] at hn ⊢
        rw [source_hole_append] at hn
        refine hole ds t hds (ih t.length ?_ t rfl)
        simp at hn
        omega

/-! ## Pieces -/

/-- The pieces make up the text, and the placeholders among them are all that stand anywhere in
it. -/
structure IsSplit (s : List Char) (ps : List Piece) : Prop where
  spans : ps.flatMap Piece.source = s
  holes : ∀ u ds v, (∃ front back, ps = front ++ .hole ds :: back ∧
    front.flatMap Piece.source = u ∧ back.flatMap Piece.source = v) ↔
      Piece.IsIndex ds ∧ s = u ++ (Piece.hole ds).source ++ v

/-- The pieces of a text spell it. -/
theorem flatMap_source_piecesOf (s : List Char) : (piecesOf s).flatMap Piece.source = s := by
  induction s using text_induction with
  | nil => simp [piecesOf]
  | hole ds r h ih => rw [piecesOf_hole h, List.flatMap_cons, ih]
  | char c r h ih =>
    rw [piecesOf_char h, List.flatMap_cons, ih]
    rfl

/-- The digits of a placeholder are an index. -/
theorem isIndex_of_mem_piecesOf (h : .hole ds ∈ piecesOf s) : Piece.IsIndex ds := by
  induction s using text_induction with
  | nil => simp [piecesOf] at h
  | hole ds' r h' ih =>
    rw [piecesOf_hole h', List.mem_cons] at h
    rcases h with h | h
    · cases h
      exact h'
    · exact ih h
  | char c r h' ih =>
    rw [piecesOf_char h', List.mem_cons] at h
    exact ih (h.resolve_left (by simp))

/-- A placeholder that does not start at the front of another stands behind it. -/
theorem exists_behind_hole (hds : Piece.IsIndex ds) {u ds' v : List Char} (hu : u ≠ [])
    (h : (Piece.hole ds).source ++ r = u ++ ((Piece.hole ds').source ++ v)) :
    ∃ u', u = (Piece.hole ds).source ++ u' ∧ r = u' ++ ((Piece.hole ds').source ++ v) := by
  rcases List.append_eq_append_iff.mp h with ⟨w, hw, hr⟩ | ⟨w, hw, hv⟩
  · exact ⟨w, hw, hr⟩
  · -- The opening brace of the other placeholder is none of the characters inside the first.
    obtain ⟨x, u, rfl⟩ := List.exists_cons_of_ne_nil hu
    cases w with
    | nil => exact ⟨[], by simpa using hw.symm, by simpa using hv.symm⟩
    | cons y w =>
      rw [source_hole_append, List.cons_append, List.cons.injEq] at hv
      obtain ⟨rfl, -⟩ := hv
      simp only [Piece.source, List.cons_append, List.cons.injEq] at hw
      have hmem : '\x7b' ∈ ds ++ ['\x7d'] := by
        rw [hw.2]
        simp
      rcases List.mem_append.mp hmem with hmem | hmem
      · exact absurd (hds.digits _ hmem) (by decide)
      · simp at hmem

/-- A placeholder anywhere in a text is one of its pieces, whatever stands around it. -/
theorem exists_piecesOf_eq (hds : Piece.IsIndex ds) (u v : List Char) :
    ∃ front back, piecesOf (u ++ ((Piece.hole ds).source ++ v)) = front ++ .hole ds :: back ∧
      front.flatMap Piece.source = u ∧ back.flatMap Piece.source = v := by
  generalize hs : u ++ ((Piece.hole ds).source ++ v) = s
  induction s using text_induction generalizing u with
  | nil => simp [Piece.source] at hs
  | hole ds' r hds' ih =>
    by_cases hu : u = []
    · subst hu
      rw [List.nil_append] at hs
      rw [← hs, piecesOf_hole hds]
      exact ⟨[], _, rfl, rfl, flatMap_source_piecesOf v⟩
    · obtain ⟨u', rfl, hr⟩ := exists_behind_hole hds' hu hs.symm
      obtain ⟨front, back, hp, hfront, hback⟩ := ih u' hr.symm
      refine ⟨.hole ds' :: front, back, ?_, ?_, hback⟩
      · rw [piecesOf_hole hds', hp, List.cons_append]
      · rw [List.flatMap_cons, hfront]
  | char c r h ih =>
    cases u with
    | nil => exact absurd hs.symm (h ds v hds)
    | cons x u =>
      obtain ⟨rfl, hr⟩ := List.cons.inj hs
      obtain ⟨front, back, hp, hfront, hback⟩ := ih u hr
      refine ⟨.char x :: front, back, ?_, ?_, hback⟩
      · rw [piecesOf_char h, hp, List.cons_append]
      · rw [List.flatMap_cons, hfront]
        rfl

/-- **The pieces of a text are a split of it.** -/
theorem isSplit_piecesOf (s : List Char) : IsSplit s (piecesOf s) where
  spans := flatMap_source_piecesOf s
  holes u ds v := by
    constructor
    · rintro ⟨front, back, hp, rfl, rfl⟩
      refine ⟨isIndex_of_mem_piecesOf (s := s) (by simp [hp]), ?_⟩
      have hs := flatMap_source_piecesOf s
      rw [hp, List.flatMap_append, List.flatMap_cons, ← List.append_assoc] at hs
      exact hs.symm
    · rintro ⟨hds, rfl⟩
      rw [List.append_assoc]
      exact exists_piecesOf_eq hds u v

/-! ## Substitution -/

/-- The text with its placeholders replaced by the texts of their arguments, read once from the
front: what has been put in is not read again. -/
inductive Fills (args : List String) : List Char → List Char → Prop
  | nil : Fills args [] []
  | hole {ds r out : List Char} {arg : String} (index : Piece.IsIndex ds)
      (given : args[Piece.index ds]? = some arg) (rest : Fills args r out) :
      Fills args ((Piece.hole ds).source ++ r) (arg.toList ++ out)
  | char {c : Char} {r out : List Char} (plain : StartsPlain (c :: r)) (rest : Fills args r out) :
      Fills args (c :: r) (c :: out)

/-- A piece with its argument put in. -/
def filled (args : List String) : Piece → List Char
  | .char c => [c]
  | .hole ds => (args.getD (Piece.index ds) "").toList

/-- A filled template is its pieces in order, each placeholder replaced by its argument. -/
theorem toList_fill (t : Template) (args : List String) :
    (t.fill args).toList = t.pieces.flatMap (filled args) := by
  rw [fill, String.toList_join, List.flatMap_map]
  refine List.flatMap_congr fun p _ => ?_
  cases p with
  | char c => simp [filled]
  | hole ds => rfl

/-- Every placeholder among the pieces has one of `given` arguments. -/
def HasArguments (given : Nat) (ps : List Piece) : Prop :=
  ∀ ds, .hole ds ∈ ps → Piece.index ds < given

variable {args : List String} {out : List Char} {ps : List Piece} {given : Nat}

theorem hasArguments_hole :
    HasArguments given (.hole ds :: ps) ↔ Piece.index ds < given ∧ HasArguments given ps := by
  simp only [HasArguments, List.mem_cons, Piece.hole.injEq, or_imp, forall_and, forall_eq]

theorem hasArguments_char : HasArguments given (.char c :: ps) ↔ HasArguments given ps := by
  simp [HasArguments]

/-- A filling of a text exists exactly when each placeholder has its argument, and it is the pieces
filled. -/
theorem fills_iff : Fills args s out ↔
    HasArguments args.length (piecesOf s) ∧ out = (piecesOf s).flatMap (filled args) := by
  constructor
  · intro h
    induction h with
    | nil => simp [piecesOf, HasArguments]
    | @hole ds r out arg hds hgiven rest ih =>
      obtain ⟨hargs, rfl⟩ := ih
      obtain ⟨hlt, rfl⟩ := List.getElem?_eq_some_iff.mp hgiven
      rw [piecesOf_hole hds, hasArguments_hole, List.flatMap_cons]
      refine ⟨⟨hlt, hargs⟩, ?_⟩
      simp [filled, hlt]
    | @char c r out hplain rest ih =>
      obtain ⟨hargs, rfl⟩ := ih
      rw [piecesOf_char hplain, hasArguments_char]
      exact ⟨hargs, rfl⟩
  · rintro ⟨hargs, rfl⟩
    induction s using text_induction with
    | nil =>
      rw [piecesOf]
      exact .nil
    | hole ds r hds ih =>
      rw [piecesOf_hole hds, hasArguments_hole] at hargs
      rw [piecesOf_hole hds, List.flatMap_cons]
      refine .hole hds ?_ (ih hargs.2)
      simp [hargs.1]
    | char c r hplain ih =>
      rw [piecesOf_char hplain, hasArguments_char] at hargs
      rw [piecesOf_char hplain]
      exact .char hplain (ih hargs)

/-! ## Rendering -/

/-- In generated code a template is rendered with the texts of its arguments. -/
theorem text_applyTemplate (st : Code.Style) (name : String) (t : Template)
    (ts : List Code.Term) :
    (Code.applyTemplate name t ts).map (Code.Term.text st) =
      t.render name (Code.Term.texts st ts) := by
  rw [Code.applyTemplate, render, Code.Term.texts_eq_map, List.length_map]
  cases t.missing? ts.length with
  | none => rw [← Code.Term.texts_eq_map]; rfl
  | some i => rfl

/-- A running maximum stays under a bound exactly when the start and every element do. -/
theorem foldl_max_le_iff {l : List Nat} {m n : Nat} :
    l.foldl max m ≤ n ↔ m ≤ n ∧ ∀ i ∈ l, i ≤ n := by
  induction l generalizing m with
  | nil => simp
  | cons a l ih => rw [List.foldl_cons, ih, max_le_iff, List.forall_mem_cons, and_assoc]

variable {t : Template}

/-- The placeholders of a template are the indices of its pieces. -/
theorem mem_holes {i : Nat} : i ∈ t.holes ↔ ∃ ds, .hole ds ∈ t.pieces ∧ Piece.index ds = i := by
  rw [holes, List.mem_filterMap]
  constructor
  · rintro ⟨p, hp, hi⟩
    cases p with
    | char c => cases hi
    | hole ds => exact ⟨ds, hp, Option.some.inj hi⟩
  · rintro ⟨ds, hds, rfl⟩
    exact ⟨_, hds, rfl⟩

/-- The placeholders have arguments if their numbers do. -/
theorem hasArguments_iff : HasArguments given t.pieces ↔ ∀ i ∈ t.holes, i < given := by
  simp only [mem_holes, forall_exists_index, and_imp, HasArguments]
  constructor
  · rintro h _ ds hds rfl
    exact h ds hds
  · exact fun h ds hds => h _ ds hds rfl

/-- The number of a placeholder fits. -/
theorem le_maxIndex {i : Nat} (h : i ∈ t.holes) : i ≤ maxIndex := by
  obtain ⟨ds, hds, rfl⟩ := mem_holes.mp h
  exact (isIndex_of_mem_piecesOf hds).fits

/-- A placeholder counts for one more than its number, but the largest one for nothing. -/
theorem toNat_ofNat_add_one {i : Nat} (h : i ≤ maxIndex) :
    (UInt64.ofNat i + 1).toNat = if i = maxIndex then 0 else i + 1 := by
  have hmax : maxIndex = 2 ^ 64 - 1 := rfl
  rw [UInt64.toNat_add, UInt64.toNat_ofNat', UInt64.toNat_one, Nat.mod_add_mod]
  split
  · next hi =>
    rw [hi]
    rfl
  · next hi => exact Nat.mod_eq_of_lt (by omega)

/-- As many arguments as the arity are enough for all placeholders but the largest one that there
is. -/
theorem arity_le_iff : t.arity ≤ given ↔ ∀ i ∈ t.holes, i ≠ maxIndex → i < given := by
  rw [arity, foldl_max_le_iff, List.forall_mem_map]
  simp only [Nat.zero_le, true_and]
  refine forall₂_congr fun i hi => ?_
  rw [toNat_ofNat_add_one (le_maxIndex hi)]
  split
  · next hmax => exact iff_of_true (Nat.zero_le _) fun h => absurd hmax h
  · next hmax => exact ⟨fun h _ => h, fun h => h hmax⟩

/-- There are enough arguments if every placeholder has one, provided that their numbers have
successors. -/
theorem arity_le_iff_hasArguments (ht : ∀ i ∈ t.holes, i < maxIndex) :
    t.arity ≤ given ↔ HasArguments given t.pieces := by
  rw [arity_le_iff, hasArguments_iff]
  exact forall₂_congr fun i hi => ⟨fun h => h (Nat.ne_of_lt (ht i hi)), fun h _ => h⟩

/-- No argument is missing exactly when each placeholder has its argument. -/
theorem missing?_eq_none_iff : t.missing? given = none ↔ HasArguments given t.pieces := by
  rw [missing?, List.find?_eq_none, hasArguments_iff]
  simp only [decide_eq_true_iff, Nat.not_le]

/-- The placeholder that is missing an argument is the first one that has none. -/
theorem missing?_eq_some_iff {i : Nat} : t.missing? given = some i ↔
    ∃ front ds back, t.pieces = front ++ .hole ds :: back ∧ HasArguments given front ∧
      given ≤ Piece.index ds ∧ Piece.index ds = i := by
  rw [missing?, holes, List.find?_filterMap, Option.bind_eq_some_iff]
  simp only [List.find?_eq_some_iff_append]
  constructor
  · rintro ⟨p, ⟨hp, front, back, hsplit, hfront⟩, hi⟩
    cases p with
    | char c => cases hi
    | hole ds =>
      refine ⟨front, ds, back, hsplit, fun ds' hds' => ?_, of_decide_eq_true hp, Option.some.inj hi⟩
      have hother := hfront _ hds'
      rw [Bool.not_eq_true'] at hother
      exact Nat.lt_of_not_le (of_decide_eq_false hother)
  · rintro ⟨front, ds, back, hsplit, hargs, hle, rfl⟩
    refine ⟨.hole ds, ⟨decide_eq_true hle, front, back, hsplit, fun p hp => ?_⟩, rfl⟩
    rw [Bool.not_eq_true']
    cases p with
    | char c => rfl
    | hole ds' => exact decide_eq_false (Nat.not_le_of_lt (hargs ds' hp))

variable {name : String} {text : String}

/-- A template renders to a text exactly when the text is its filling. -/
theorem render_eq_ok_iff :
    t.render name args = .ok text ↔ Fills args t.text.toList text.toList := by
  rw [fills_iff, show piecesOf t.text.toList = t.pieces from rfl, ← toList_fill,
    String.toList_inj, ← missing?_eq_none_iff, render]
  cases t.missing? args.length with
  | none => simp [eq_comm]
  | some i => simp

/-- Arguments behind those that the template needs are not looked at. -/
theorem fills_take_iff (ht : ∀ i ∈ t.holes, i < maxIndex) (h : t.arity ≤ args.length) :
    Fills (args.take t.arity) t.text.toList out ↔ Fills args t.text.toList out := by
  have hargs : HasArguments t.arity t.pieces := (arity_le_iff_hasArguments ht).mp (Nat.le_refl _)
  have hfilled :
      t.pieces.flatMap (filled (args.take t.arity)) = t.pieces.flatMap (filled args) := by
    refine List.flatMap_congr fun p hp => ?_
    cases p with
    | char c => rfl
    | hole ds =>
      have hlt := hargs ds hp
      simp [filled, List.getD_eq_getElem?_getD, hlt]
  rw [fills_iff, fills_iff, show piecesOf t.text.toList = t.pieces from rfl, hfilled,
    List.length_take_of_le h, ← arity_le_iff_hasArguments ht, ← arity_le_iff_hasArguments ht]
  simp only [Nat.le_refl, h]

/-- A template refuses exactly at its leftmost placeholder without an argument. -/
theorem render_eq_error_iff {e : GenerationError} : t.render name args = .error e ↔
    ∃ front ds back, t.pieces = front ++ .hole ds :: back ∧ HasArguments args.length front ∧
      args.length ≤ Piece.index ds ∧ e = .templateArity name (Piece.index ds) args.length := by
  rw [render]
  constructor
  · intro h
    cases hm : t.missing? args.length with
    | none =>
      rw [hm] at h
      cases h
    | some i =>
      rw [hm] at h
      obtain ⟨front, ds, back, hsplit, hargs, hle, rfl⟩ := missing?_eq_some_iff.mp hm
      exact ⟨front, ds, back, hsplit, hargs, hle, (Except.error.inj h).symm⟩
  · rintro ⟨front, ds, back, hsplit, hargs, hle, rfl⟩
    rw [missing?_eq_some_iff.mpr ⟨front, ds, back, hsplit, hargs, hle, rfl⟩]

/-- A text for all placeholders to be filled is there if each has an argument. -/
theorem exists_render_iff :
    (∃ text, t.render name args = .ok text) ↔ HasArguments args.length t.pieces := by
  simp only [render_eq_ok_iff, fills_iff]
  exact ⟨fun ⟨_, h, _⟩ => h, fun h => ⟨t.fill args, h, toList_fill t args⟩⟩

/-- **What a template is and what becomes of it.** Its pieces are a split of its text. It is
rendered exactly if each placeholder has an argument, to its text with these in the places of its
placeholders; otherwise the error names the first placeholder without an argument. Calls in
generated code are rendered so. As long as the numbers of all placeholders are below the largest
one, it is rendered exactly if there are as many arguments as its arity, and only the first of them
count. -/
theorem isSplit_render (name : String) (t : Template) (args : List String) :
    IsSplit t.text.toList t.pieces ∧
    ((∃ text, t.render name args = .ok text) ↔ HasArguments args.length t.pieces) ∧
    (∀ text, t.render name args = .ok text ↔ Fills args t.text.toList text.toList) ∧
    (∀ e, t.render name args = .error e ↔
      ∃ front ds back, t.pieces = front ++ .hole ds :: back ∧ HasArguments args.length front ∧
        args.length ≤ Piece.index ds ∧ e = .templateArity name (Piece.index ds) args.length) ∧
    (∀ (st : Code.Style) (ts : List Code.Term),
      (Code.applyTemplate name t ts).map (Code.Term.text st) =
        t.render name (Code.Term.texts st ts)) ∧
    ((∀ i ∈ t.holes, i < maxIndex) →
      ((∃ text, t.render name args = .ok text) ↔ t.arity ≤ args.length) ∧
      ∀ text, t.render name args = .ok text ↔
        t.arity ≤ args.length ∧ Fills (args.take t.arity) t.text.toList text.toList) := by
  refine ⟨isSplit_piecesOf _, exists_render_iff, fun text => render_eq_ok_iff,
    fun e => render_eq_error_iff, fun st ts => text_applyTemplate st name t ts, fun ht => ?_⟩
  have hok : (∃ text, t.render name args = .ok text) ↔ t.arity ≤ args.length :=
    exists_render_iff.trans (arity_le_iff_hasArguments ht).symm
  refine ⟨hok, fun text => ?_⟩
  constructor
  · intro h
    have harity := hok.mp ⟨text, h⟩
    exact ⟨harity, (fills_take_iff ht harity).mpr (render_eq_ok_iff.mp h)⟩
  · rintro ⟨harity, h⟩
    exact render_eq_ok_iff.mpr ((fills_take_iff ht harity).mp h)

/-- Only digits in braces are a placeholder, and what an argument brings along stays as it is. -/
example : (Template.mk "f(\x7bx\x7d, \x7b\x7b0\x7d\x7d)").render "f" ["\x7b1\x7d"] =
    .ok "f(\x7bx\x7d, \x7b\x7b1\x7d\x7d)" := by
  decide +kernel

end Template

end DataPhrase
