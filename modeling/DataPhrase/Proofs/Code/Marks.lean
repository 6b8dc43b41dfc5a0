/-
# Marks of texts

The text of a term, or of a template with its places left open, is cut into marks in one pass. What
is cut from a text does not change with what follows it, as long as that stands apart, so the marks
of a text that is put together are put together from the marks of its parts; in the same way the
marks of a filled template are those of the template with the marks of the arguments in its places.
-/
import DataPhrase.Dictionary.Template
import DataPhrase.Proofs.Code.Formula
import DataPhrase.Proofs.Code.Tree

namespace DataPhrase.Code

/-! ## Cutting -/

/-- A quote. Two of them inside of a text in quotes stand for one. -/
def isQuoteMark (c : Char) : Bool :=
  c == '\'' || c == '"'

/-- What the text before a piece leaves unfinished. -/
inductive Open where
  | nothing
  | word (w : List Char)
  | quoted (quote : Char) (w : List Char)
  | closed (quote : Char) (w : List Char)
  | hole
  | percent
  deriving DecidableEq, Repr

namespace Open

/-- The characters that are marks by themselves. -/
def signs : List (Char × Mark) :=
  [('(', .opening), (')', .closing), (',', .sign .comma), ('+', .sign (.op .add)),
   ('-', .minus), ('*', .sign (.op .multiply)), ('/', .sign (.op .divide)),
   ('%', .sign (.op .modulo))]

/-- The first character behind a finished mark. Where the sign of a remainder is doubled, the first
half of it waits for the second. -/
def start (doubled : Bool) (c : Char) : Option (Open × List Mark) :=
  if c = ' ' then some (.nothing, [])
  else if isRunChar c then some (.word [c], [])
  else if isQuoteMark c then some (.quoted c [], [])
  else if doubled ∧ c = '%' then some (.percent, [])
  else (signs.find? fun m => m.1 == c).map fun m => (.nothing, [m.2])

/-- One more piece, with the marks that it finishes. A place that is left open touches no word and
no quotes. -/
def step (doubled : Bool) : Open → Piece → Option (Open × List Mark)
  | .nothing, .char c => start doubled c
  | .nothing, .hole ds => some (.hole, [.atom (.hole (Piece.index ds))])
  | .word w, .char c =>
    if isRunChar c then some (.word (w ++ [c]), [])
    else (start doubled c).map fun x => (x.1, .atom (.word w) :: x.2)
  | .quoted q w, .char c => some (if c = q then (.closed q w, []) else (.quoted q (w ++ [c]), []))
  | .closed q w, .char c =>
    if isQuoteMark c ∧ c = q then some (.quoted q (w ++ [c]), [])
    else (start doubled c).map fun x => (x.1, .atom (.quoted q w) :: x.2)
  | .hole, .char c => if isRunChar c || isQuoteMark c then none else start doubled c
  | .percent, .char c => if c = '%' then some (.nothing, [.sign (.op .modulo)]) else none
  | _, .hole _ => none

/-- The end of the text. -/
def finish : Open → Option (List Mark)
  | .nothing | .hole => some []
  | .word w => some [.atom (.word w)]
  | .closed q w => some [.atom (.quoted q w)]
  | .quoted _ _ | .percent => none

end Open

/-- The marks of pieces that go on from an unfinished text. -/
def marksFrom? (doubled : Bool) : Open → List Piece → Option (List Mark)
  | u, [] => u.finish
  | u, p :: r => (u.step doubled p).bind fun x => (marksFrom? doubled x.1 r).map (x.2 ++ ·)

/-- The marks of pieces. -/
def marks? (doubled : Bool) (ps : List Piece) : Option (List Mark) :=
  marksFrom? doubled .nothing ps

/-- A text as pieces without places that are left open. -/
def piecesOfText (s : String) : List Piece :=
  s.toList.map .char

/-- The pieces of two texts in a row. -/
theorem piecesOfText_append (s t : String) :
    piecesOfText (s ++ t) = piecesOfText s ++ piecesOfText t := by
  rw [piecesOfText, String.toList_append, List.map_append]
  rfl

/-! ## Texts that are put together -/

/-- The pieces go on with nothing that could belong to a word or to a text in quotes. -/
def Apart (ps : List Piece) : Prop :=
  ∀ p ∈ ps.head?, ∃ c, p = .char c ∧ isRunChar c = false ∧ isQuoteMark c = false

theorem apart_nil : Apart [] := by
  intro p hp
  cases hp

theorem apart_cons {c : Char} {r : List Piece}
    (h : isRunChar c = false ∧ isQuoteMark c = false) : Apart (.char c :: r) := by
  intro p hp
  exact ⟨c, (Option.some.inj hp).symm, h⟩

section Marks

variable {doubled : Bool} {ps qs : List Piece} {ms ns : List Mark}

/-- Marking pieces with one more in front is one step and the rest. -/
theorem marksFrom?_cons (u : Open) (p : Piece) (r : List Piece) :
    marksFrom? doubled u (p :: r) =
      (u.step doubled p).bind fun x => (marksFrom? doubled x.1 r).map (x.2 ++ ·) := rfl

/-- What is unfinished yields its marks in front of those of a character that does not go on with
it. -/
theorem marksFrom?_of_step {u : Open} (hfinish : u.finish = some ms)
    (h : ∀ p ∈ ps.head?, ∃ c, p = .char c ∧
      u.step doubled (.char c) = (Open.start doubled c).map fun x => (x.1, ms ++ x.2)) :
    marksFrom? doubled u ps = (marks? doubled ps).map (ms ++ ·) := by
  cases ps with
  | nil =>
    show u.finish = (some []).map _
    rw [hfinish, Option.map_some, List.append_nil]
  | cons p r =>
    obtain ⟨c, rfl, hstep⟩ := h p rfl
    rw [marks?, marksFrom?_cons, marksFrom?_cons, hstep, Open.step]
    cases Open.start doubled c with
    | none => rfl
    | some x =>
      show (marksFrom? doubled x.1 r).map _ = ((marksFrom? doubled x.1 r).map _).map _
      rw [Option.map_map]
      congr 1
      funext l
      exact List.append_assoc ms x.2 l

/-- What stands apart finishes the mark in front of it. -/
theorem marksFrom?_of_finish {u : Open} (hfinish : u.finish = some ms) (h : Apart ps) :
    marksFrom? doubled u ps = (marks? doubled ps).map (ms ++ ·) := by
  refine marksFrom?_of_step hfinish fun p hp => ?_
  obtain ⟨c, rfl, hrun, hquote⟩ := h p hp
  refine ⟨c, rfl, ?_⟩
  cases u with
  | nothing =>
    cases hfinish
    exact Option.map_id_apply.symm
  | word w =>
    cases hfinish
    rw [Open.step, hrun, if_neg (by decide)]
    rfl
  | quoted q w => cases hfinish
  | closed q w =>
    cases hfinish
    rw [Open.step, hquote, if_neg (by simp)]
    rfl
  | hole =>
    cases hfinish
    rw [Open.step, hrun, hquote, if_neg (by decide)]
    exact Option.map_id_apply.symm
  | percent => cases hfinish

/-- The marks of a text do not change with what stands apart behind it. -/
theorem marksFrom?_append {u : Open} (h : marksFrom? doubled u ps = some ms) (hqs : Apart qs) :
    marksFrom? doubled u (ps ++ qs) = (marks? doubled qs).map (ms ++ ·) := by
  induction ps generalizing u ms with
  | nil => exact marksFrom?_of_finish h hqs
  | cons p r ih =>
    rw [marksFrom?_cons, Option.bind_eq_some_iff] at h
    obtain ⟨x, hstep, hrest⟩ := h
    obtain ⟨l, hl, rfl⟩ := Option.map_eq_some_iff.mp hrest
    rw [List.cons_append, marksFrom?_cons, hstep, Option.bind_some, ih hl, Option.map_map]
    congr 1
    funext l'
    exact (List.append_assoc x.2 l l').symm

/-- Marks of two stretches compose where the second stands apart. -/
theorem marks?_append (h : marks? doubled ps = some ms) (hqs : Apart qs)
    (h' : marks? doubled qs = some ns) : marks? doubled (ps ++ qs) = some (ms ++ ns) := by
  have happend := marksFrom?_append h hqs
  rwa [h', Option.map_some] at happend

/-! ## Parts of texts -/

/-- A blank is no mark. -/
theorem marks?_blank : marks? doubled (.char ' ' :: ps) = marks? doubled ps := by
  have hstart : Open.start doubled ' ' = some (.nothing, []) := rfl
  rw [marks?, marksFrom?_cons, Open.step, hstart]
  exact Option.map_id_apply

/-- A character that is a mark by itself is that mark. -/
theorem marks?_sign {c : Char} {a : Mark} (h : Open.start doubled c = some (.nothing, [a])) :
    marks? doubled (.char c :: ps) = (marks? doubled ps).map (a :: ·) := by
  rw [marks?, marksFrom?_cons, Open.step, h]
  rfl

/-- A minus is a mark of its own, also in front of another. -/
theorem marks?_minus : marks? doubled (.char '-' :: ps) = (marks? doubled ps).map (.minus :: ·) :=
  marks?_sign (by cases doubled <;> rfl)

/-- A text in parentheses. -/
theorem marks?_group (h : marks? doubled ps = some ms) :
    marks? doubled (.char '(' :: (ps ++ [Piece.char ')'])) =
      some (.opening :: (ms ++ [Mark.closing])) := by
  have hclosing : marks? doubled [.char ')'] = some [.closing] := by cases doubled <;> rfl
  rw [marks?_sign (a := .opening) (by cases doubled <;> rfl),
    marks?_append h (apart_cons (by decide)) hclosing]
  rfl

/-- The sign of an operation as a text. -/
def signText (doubled : Bool) (op : ArithOp) : List Char :=
  if doubled ∧ op = .modulo then ['%', '%'] else op.symbol.toList

/-- A printed sign is one mark. -/
theorem marks?_signText (op : ArithOp) :
    marks? doubled ((signText doubled op).map .char ++ ps) =
      (marks? doubled ps).map (.sign (.op op) :: ·) := by
  cases op with
  | add => cases doubled <;> exact marks?_sign rfl
  | subtract => cases doubled <;> exact marks?_minus
  | multiply => cases doubled <;> exact marks?_sign rfl
  | divide => cases doubled <;> exact marks?_sign rfl
  | modulo =>
    cases doubled with
    | false => exact marks?_sign rfl
    | true =>
      have hstart : Open.start true '%' = some (.percent, []) := rfl
      show marksFrom? true .nothing (.char '%' :: .char '%' :: ps) = _
      rw [marksFrom?_cons, Open.step, hstart, Option.bind_some, marksFrom?_cons]
      exact Option.map_id_apply

/-- Two texts with the sign of an operation between them. -/
theorem marks?_binary (op : ArithOp) (h : marks? doubled ps = some ms)
    (h' : marks? doubled qs = some ns) :
    marks? doubled (ps ++ .char ' ' :: ((signText doubled op).map .char ++ .char ' ' :: qs)) =
      some (ms ++ .sign (.op op) :: ns) := by
  refine marks?_append h (apart_cons (by decide)) ?_
  rw [marks?_blank, marks?_signText, marks?_blank, h', Option.map_some]

/-- A word goes on up to the first character that is not one of its own. -/
theorem marksFrom?_word (w : List Char) {v : List Char} (hv : ∀ c ∈ v, isRunChar c = true)
    (h : ∀ p ∈ ps.head?, ∃ c, p = .char c ∧ isRunChar c = false) :
    marksFrom? doubled (.word w) (v.map .char ++ ps) =
      (marks? doubled ps).map (.atom (.word (w ++ v)) :: ·) := by
  induction v generalizing w with
  | nil =>
    have hends : marksFrom? doubled (.word w) ps =
        (marks? doubled ps).map ([.atom (.word w)] ++ ·) := by
      refine marksFrom?_of_step rfl fun p hp => ?_
      obtain ⟨c, rfl, hc⟩ := h p hp
      exact ⟨c, rfl, by rw [Open.step, hc, if_neg Bool.false_ne_true]; rfl⟩
    rw [List.append_nil]
    exact hends
  | cons c v ih =>
    rw [List.forall_mem_cons] at hv
    rw [List.map_cons, List.cons_append, marksFrom?_cons, Open.step, if_pos hv.1, Option.bind_some,
      ih _ hv.2, List.append_assoc]
    exact Option.map_id_apply

/-- A word ends in front of the first character that is no part of one. -/
theorem marks?_word_append {w : List Char} (hne : w ≠ []) (hw : ∀ c ∈ w, isRunChar c = true)
    (h : ∀ p ∈ ps.head?, ∃ c, p = .char c ∧ isRunChar c = false) :
    marks? doubled (w.map .char ++ ps) =
      (marks? doubled ps).map (.atom (.word w) :: ·) := by
  obtain ⟨c, v, rfl⟩ := List.exists_cons_of_ne_nil hne
  rw [List.forall_mem_cons] at hw
  have hc : c ≠ ' ' := by
    rintro rfl
    exact absurd hw.1 (by decide)
  have hstart : Open.start doubled c = some (.word [c], []) := by
    rw [Open.start, if_neg hc, if_pos hw.1]
  rw [List.map_cons, List.cons_append, marks?, marksFrom?_cons, Open.step, hstart,
    Option.bind_some, marksFrom?_word [c] hw.2 h]
  exact Option.map_id_apply

/-- A run of letters, digits, underscores and points is one word. -/
theorem marks?_word {w : List Char} (hne : w ≠ []) (hw : ∀ c ∈ w, isRunChar c = true) :
    marks? doubled (w.map .char) = some [.atom (.word w)] := by
  have happend : marks? doubled (w.map .char ++ []) = some [.atom (.word w)] :=
    marks?_word_append hne hw (by simp)
  rwa [List.append_nil] at happend

/-- The opening quote of a text. -/
theorem marks?_quote {q : Char} (hq : isQuoteMark q = true) :
    marks? doubled (.char q :: ps) = marksFrom? doubled (.quoted q []) ps := by
  have hquote : q = '\'' ∨ q = '"' := by simpa [isQuoteMark] using hq
  have hstart : Open.start doubled q = some (.quoted q [], []) := by
    rcases hquote with rfl | rfl <;> rfl
  rw [marks?, marksFrom?_cons, Open.step, hstart]
  exact Option.map_id_apply

/-- Inside quote marks every other character goes into the literal. -/
theorem marksFrom?_quoted {q c : Char} (w : List Char) (hc : c ≠ q) :
    marksFrom? doubled (.quoted q w) (.char c :: ps) =
      marksFrom? doubled (.quoted q (w ++ [c])) ps := by
  rw [marksFrom?_cons, Open.step, if_neg hc]
  exact Option.map_id_apply

/-- Two quotes in a text in quotes stand for one. -/
theorem marksFrom?_doubled {q : Char} (hq : isQuoteMark q = true) (w : List Char) :
    marksFrom? doubled (.quoted q w) (.char q :: .char q :: ps) =
      marksFrom? doubled (.quoted q (w ++ [q])) ps := by
  rw [marksFrom?_cons, Open.step, if_pos rfl, Option.bind_some, marksFrom?_cons, Open.step,
    if_pos ⟨hq, rfl⟩, Option.bind_some, Option.map_map]
  exact Option.map_id_apply

/-- The closing quote of a text, behind which no quote stands. -/
theorem marksFrom?_closing {q : Char} (w : List Char)
    (h : ∀ p ∈ ps.head?, ∃ c, p = .char c ∧ isQuoteMark c = false) :
    marksFrom? doubled (.quoted q w) (.char q :: ps) =
      (marks? doubled ps).map (.atom (.quoted q w) :: ·) := by
  have hclosed : marksFrom? doubled (.closed q w) ps =
      (marks? doubled ps).map ([.atom (.quoted q w)] ++ ·) := by
    refine marksFrom?_of_step rfl fun p hp => ?_
    obtain ⟨c, rfl, hc⟩ := h p hp
    exact ⟨c, rfl, by rw [Open.step, hc, if_neg (by simp)]; rfl⟩
  rw [marksFrom?_cons, Open.step, if_pos rfl, Option.bind_some, hclosed]
  exact Option.map_id_apply

end Marks

/-! ## Filled templates -/

section Fill

variable {doubled : Bool}

/-- The pieces of a template with texts in its places. -/
def fillPieces (args : Nat → List Piece) (ps : List Piece) : List Piece :=
  ps.flatMap fun
    | .char c => [.char c]
    | .hole ds => args (Piece.index ds)

/-- A filled template as pieces. -/
theorem piecesOfText_fill (t : Template) (args : List String) :
    piecesOfText (t.fill args) =
      fillPieces (fun i => piecesOfText (args.getD i "")) t.pieces := by
  rw [Template.fill, piecesOfText, String.toList_join]
  induction t.pieces with
  | nil => rfl
  | cons p r ih =>
    rw [List.map_cons, List.flatMap_cons, List.map_append, ih]
    cases p with
    | char c => rw [String.toList_singleton]; rfl
    | hole ds => rfl

/-- The mark with other marks in the place of a place that is left open. -/
def Mark.subst (args : Nat → List Mark) : Mark → List Mark
  | .atom (.hole i) => args i
  | m => [m]

/-- Pieces that stand apart still do once filled. -/
theorem apart_fillPieces {args : Nat → List Piece} {ps : List Piece} (h : Apart ps) :
    Apart (fillPieces args ps) := by
  cases ps with
  | nil => exact apart_nil
  | cons p r =>
    obtain ⟨c, rfl, hc⟩ := h p rfl
    exact apart_cons hc

/-- What goes on behind a place stands apart from it. -/
theorem apart_of_marksFrom?_hole {ps : List Piece} {ms : List Mark}
    (h : marksFrom? doubled .hole ps = some ms) : Apart ps := by
  cases ps with
  | nil => exact apart_nil
  | cons p r =>
    cases p with
    | char c =>
      refine apart_cons ?_
      rw [marksFrom?_cons, Open.step, Option.bind_eq_some_iff] at h
      obtain ⟨x, hx, -⟩ := h
      split at hx
      · cases hx
      · next hc => simpa using hc
    | hole ds => cases h

section Subst

variable {args : Nat → List Mark} {u v : Open} {c : Char} {ms : List Mark}

/-- Starting a mark writes nothing that filling could change. -/
theorem subst_of_start (h : Open.start doubled c = some (v, ms)) :
    v ≠ .hole ∧ ms.flatMap (Mark.subst args) = ms := by
  unfold Open.start at h
  split at h
  · cases h
    exact ⟨nofun, rfl⟩
  split at h
  · cases h
    exact ⟨nofun, rfl⟩
  split at h
  · cases h
    exact ⟨nofun, rfl⟩
  split at h
  · cases h
    exact ⟨nofun, rfl⟩
  obtain ⟨m, hm, heq⟩ := Option.map_eq_some_iff.mp h
  cases heq
  have hsigns : ∀ m ∈ Open.signs, [m.2].flatMap (Mark.subst args) = [m.2] := by
    simp [Open.signs, Mark.subst, Mark.minus]
  exact ⟨nofun, hsigns m (List.mem_of_find?_eq_some hm)⟩

/-- The marks that a character finishes have no place that is left open. -/
theorem subst_of_step (h : u.step doubled (.char c) = some (v, ms)) :
    v ≠ .hole ∧ ms.flatMap (Mark.subst args) = ms := by
  -- A mark in front of those of the character is a word or a text in quotes.
  have hbehind : ∀ a, Mark.subst args (.atom a) = [.atom a] →
      (Open.start doubled c).map (fun x => (x.1, Mark.atom a :: x.2)) = some (v, ms) →
      v ≠ .hole ∧ ms.flatMap (Mark.subst args) = ms := by
    intro a ha hmap
    obtain ⟨x, hx, heq⟩ := Option.map_eq_some_iff.mp hmap
    cases heq
    have hstart : x.1 ≠ .hole ∧ x.2.flatMap (Mark.subst args) = x.2 := subst_of_start hx
    exact ⟨hstart.1, by rw [List.flatMap_cons, ha, hstart.2]; rfl⟩
  unfold Open.step at h
  cases u with
  | nothing => exact subst_of_start h
  | word w =>
    simp only at h
    split at h
    · cases h
      exact ⟨nofun, rfl⟩
    · exact hbehind _ rfl h
  | quoted q w =>
    simp only [Option.some.injEq] at h
    split at h
    · cases h
      exact ⟨nofun, rfl⟩
    · cases h
      exact ⟨nofun, rfl⟩
  | closed q w =>
    simp only at h
    split at h
    · cases h
      exact ⟨nofun, rfl⟩
    · exact hbehind _ rfl h
  | hole =>
    simp only at h
    split at h
    · cases h
    · exact subst_of_start h
  | percent =>
    simp only at h
    split at h
    · cases h
      exact ⟨nofun, rfl⟩
    · cases h

/-- Finishing a mark writes nothing that filling could change. -/
theorem subst_of_finish (h : u.finish = some ms) : ms.flatMap (Mark.subst args) = ms := by
  cases u <;> cases h <;> rfl

end Subst

/-- The marks of a filled template are those of the template with the marks of the arguments in its
places. -/
theorem marksFrom?_fillPieces {args : Nat → List Piece} {filled : Nat → List Mark} {u : Open}
    {ps : List Piece} {ms : List Mark} (h : marksFrom? doubled u ps = some ms) (hu : u ≠ .hole)
    (hargs : ∀ i, Mark.atom (.hole i) ∈ ms → marks? doubled (args i) = some (filled i)) :
    marksFrom? doubled u (fillPieces args ps) = some (ms.flatMap (Mark.subst filled)) := by
  induction ps generalizing u ms with
  | nil =>
    rw [subst_of_finish h]
    exact h
  | cons p r ih =>
    rw [marksFrom?_cons, Option.bind_eq_some_iff] at h
    obtain ⟨⟨v, ns⟩, hstep, hrest⟩ := h
    obtain ⟨l, hl, rfl⟩ := Option.map_eq_some_iff.mp hrest
    have hl' : ∀ i, Mark.atom (.hole i) ∈ l → marks? doubled (args i) = some (filled i) :=
      fun i hi => hargs i (List.mem_append_right _ hi)
    rw [List.flatMap_append]
    cases p with
    | char c =>
      have hmarks : v ≠ .hole ∧ ns.flatMap (Mark.subst filled) = ns := subst_of_step hstep
      show marksFrom? doubled u (.char c :: fillPieces args r) = _
      rw [marksFrom?_cons, hstep, Option.bind_some, ih hl hmarks.1 hl', hmarks.2]
      rfl
    | hole ds =>
      have hnothing : u = .nothing := by
        cases u <;> first | rfl | cases hstep
      subst hnothing
      cases hstep
      have hapart := apart_of_marksFrom?_hole hl
      have hrest' : marks? doubled r = some l := by
        have happend : marksFrom? doubled .hole r = (marks? doubled r).map ([] ++ ·) :=
          marksFrom?_of_finish rfl hapart
        rw [hl] at happend
        obtain ⟨l', hl', heq⟩ := Option.map_eq_some_iff.mp happend.symm
        rw [hl', ← heq]
        rfl
      show marks? doubled (args (Piece.index ds) ++ fillPieces args r) =
        some ((filled (Piece.index ds) ++ []) ++ l.flatMap (Mark.subst filled))
      rw [List.append_nil]
      exact marks?_append (hargs _ List.mem_cons_self) (apart_fillPieces hapart)
        (ih hrest' nofun hl')

/-- The places of the marks are places of the pieces. -/
theorem mem_holes_of_marksFrom? {u : Open} {ps : List Piece} {ms : List Mark}
    (h : marksFrom? doubled u ps = some ms) {i : Nat} (hi : Mark.atom (.hole i) ∈ ms) :
    i ∈ ps.filterMap Piece.hole? := by
  -- Marks that substitution does not change have no places.
  have hno : ∀ {ns : List Mark}, ns.flatMap (Mark.subst fun _ => []) = ns →
      Mark.atom (.hole i) ∉ ns := by
    intro ns hns hmem
    rw [← hns, List.mem_flatMap] at hmem
    obtain ⟨m, -, hm⟩ := hmem
    unfold Mark.subst at hm
    split at hm
    · cases hm
    · next hne => exact hne i (List.mem_singleton.mp hm).symm
  induction ps generalizing u ms with
  | nil => exact absurd hi (hno (subst_of_finish h))
  | cons p r ih =>
    rw [marksFrom?_cons, Option.bind_eq_some_iff] at h
    obtain ⟨⟨v, ns⟩, hstep, hrest⟩ := h
    obtain ⟨l, hl, rfl⟩ := Option.map_eq_some_iff.mp hrest
    rcases List.mem_append.mp hi with hi | hi
    · cases p with
      | char c => exact absurd hi (hno (subst_of_step hstep).2)
      | hole ds =>
        have hnothing : u = .nothing := by
          cases u <;> first | rfl | cases hstep
        subst hnothing
        cases hstep
        cases List.mem_singleton.mp hi
        exact List.mem_cons_self
    · have hmem := ih hl hi
      cases p with
      | char c => exact hmem
      | hole ds => exact List.mem_cons_of_mem _ hmem

end Fill

end DataPhrase.Code
