/-
# Settling a name

A reading of a statement puts an expression in the place of a field and a longer name in the place
of a name that is held as text. Here both are done to expressions, conditions and operations, with
what that does to the fields and calls they mention.
-/
import DataPhrase.Ambiguity.Candidate
import DataPhrase.Proofs.Validation.Names

namespace DataPhrase

/-! ## Settled names -/

/-- A name with what is put in its place: an expression where it is a field without source, a name
where it is held as text. -/
structure Settling where
  name : String
  expr : Expr
  written : String

namespace Settling

/-- What is put in the place of a field. -/
def field (m : Settling) : FieldRef → Option Expr :=
  replacing m.name m.expr

/-- What is put in the place of a name that is held as text. -/
def rename (m : Settling) (n : String) : String :=
  if n = m.name then m.written else n

variable {m : Settling} {n : String} {r : FieldRef}

/-- A move turns the bare name it is about into its expression. -/
theorem field_name : m.field (none, m.name) = some m.expr :=
  if_pos rfl

/-- A move leaves every other field alone. -/
theorem field_of_ne (h : r ≠ (none, m.name)) : m.field r = none := by
  obtain ⟨q, n⟩ := r
  cases q with
  | some q => rfl
  | none =>
    refine if_neg fun hn => ?_
    rw [hn] at h
    exact h rfl

/-- A move writes the name it is about in its new spelling. -/
theorem rename_name : m.rename m.name = m.written :=
  if_pos rfl

/-- A move leaves every other name alone. -/
theorem rename_of_ne (h : n ≠ m.name) : m.rename n = n :=
  if_neg h

end Settling

/-! ## Expressions -/

namespace Expr

variable {m : Settling} {e : Expr} {n : String} {r : FieldRef}

/-- The expression with the name settled. -/
def settle (m : Settling) (e : Expr) : Expr :=
  e.mapFields m.field

section Fields

variable (f : FieldRef → Option Expr)

/-- The fields that stand in the place of a field. -/
def fieldsAt (r : FieldRef) : List FieldRef :=
  match f r with
  | some e => e.fields
  | none => [r]

mutual

/-- Replacing fields in an expression replaces them in the list of its fields. -/
theorem fields_mapFields (e : Expr) : (e.mapFields f).fields = e.fields.flatMap (fieldsAt f) := by
  cases e with
  | literal v => rfl
  | field q n =>
    rw [mapFields, fields, List.flatMap_cons, List.flatMap_nil, List.append_nil, fieldsAt]
    cases f (q, n) <;> rfl
  | metric s n => rfl
  | call n args => rw [mapFields, fields, fields, fieldsAll_mapFields args]
  | binary op l r =>
    rw [mapFields, fields, fields, List.flatMap_append, fields_mapFields l, fields_mapFields r]
  | negate e => rw [mapFields, fields, fields, fields_mapFields e]
  | star => rfl

theorem fieldsAll_mapFields (es : List Expr) :
    fieldsAll (mapFieldsAll f es) = (fieldsAll es).flatMap (fieldsAt f) := by
  cases es with
  | nil => rfl
  | cons e es =>
    rw [mapFieldsAll, fieldsAll, fieldsAll, List.flatMap_append, fields_mapFields e,
      fieldsAll_mapFields es]

end

variable {f : FieldRef → Option Expr}

mutual

/-- If what is put in the place of fields has no calls, the calls keep their names. -/
theorem calls_mapFields (hf : ∀ r x, f r = some x → x.calls = []) (e : Expr) :
    (e.mapFields f).calls.map Prod.fst = e.calls.map Prod.fst := by
  cases e with
  | literal v => rfl
  | field q n =>
    rw [mapFields]
    cases hr : f (q, n) with
    | none => rfl
    | some x => rw [Option.getD_some, hf _ x hr, calls]
  | metric s n => rfl
  | call n args =>
    rw [mapFields, calls, calls, List.map_cons, List.map_cons, callsAll_mapFields hf args]
  | binary op l r =>
    rw [mapFields, calls, calls, List.map_append, List.map_append, calls_mapFields hf l,
      calls_mapFields hf r]
  | negate e => rw [mapFields, calls, calls, calls_mapFields hf e]
  | star => rfl

/-- Replacing fields by expressions without calls keeps the names of the calls. -/
theorem callsAll_mapFields (hf : ∀ r x, f r = some x → x.calls = []) (es : List Expr) :
    (callsAll (mapFieldsAll f es)).map Prod.fst = (callsAll es).map Prod.fst := by
  cases es with
  | nil => rfl
  | cons e es =>
    rw [mapFieldsAll, callsAll, callsAll, List.map_append, List.map_append, calls_mapFields hf e,
      callsAll_mapFields hf es]

end

end Fields

/-- A field of a settled expression is one of the expression, or stands in the place of the name. -/
theorem mem_fields_settle (h : r ∈ (e.settle m).fields) :
    r ∈ e.fields ∨ (none, m.name) ∈ e.fields ∧ r ∈ m.expr.fields := by
  rw [settle, fields_mapFields] at h
  obtain ⟨x, hx, hr⟩ := List.mem_flatMap.mp h
  by_cases hn : x = (none, m.name)
  · rw [hn, fieldsAt, Settling.field_name] at hr
    exact Or.inr ⟨hn ▸ hx, hr⟩
  · rw [fieldsAt, Settling.field_of_ne hn] at hr
    obtain rfl := List.mem_singleton.mp hr
    exact Or.inl hx

/-- Every other field is still there. -/
theorem mem_fields_settle_of_ne (h : r ∈ e.fields) (hr : r ≠ (none, m.name)) :
    r ∈ (e.settle m).fields := by
  rw [settle, fields_mapFields]
  refine List.mem_flatMap.mpr ⟨r, h, ?_⟩
  rw [fieldsAt, Settling.field_of_ne hr]
  exact List.mem_singleton_self r

end Expr

/-! ## Sound settling -/

/-- The reference is a registered column `n` of a source that has a plain name. -/
def IsMoved (d : Snapshot) (n : String) (r : FieldRef) : Prop :=
  ∃ q, r = (some q, n) ∧ IsPlain q ∧ d.hasColumn q n = true

/-- A plain name is settled on what mentions nothing but registered columns of that name. -/
structure Settling.Sound (m : Settling) (d : Snapshot) : Prop where
  plain : IsPlain m.name
  calls : m.expr.calls = []
  fields : ∀ r ∈ m.expr.fields, IsMoved d m.name r
  written : m.written = m.name ∨ ∃ q, m.written = q ++ "." ++ m.name ∧ IsPlain q ∧
    d.hasColumn q m.name = true

/-- The aliases are plain names, and none of them is settled. -/
def Settling.Avoids (m : Settling) (aliases : List String) : Prop :=
  ∀ a ∈ aliases, IsPlain a ∧ a ≠ m.name

/-- The lists hold the same plain names, apart from `n`. -/
def AgreeBut (n : String) (l l' : List String) : Prop :=
  ∀ x, IsPlain x → x ≠ n → (x ∈ l' ↔ x ∈ l)

namespace AgreeBut

variable {n : String} {l l' k k' post : List String}

theorem append (h : AgreeBut n l l') (h' : AgreeBut n k k') :
    AgreeBut n (l ++ k) (l' ++ k') := by
  intro x hx hn
  rw [List.mem_append, List.mem_append, h x hx hn, h' x hx hn]

/-- Lists agree but for a name when they agree element by element. -/
theorem flatMap {α β : Type} {as : List α} {f : α → List String} {g : α → β}
    {f' : β → List String} (h : ∀ a ∈ as, AgreeBut n (f a) (f' (g a))) :
    AgreeBut n (as.flatMap f) ((as.map g).flatMap f') := by
  intro x hx hn
  rw [List.mem_flatMap, List.mem_flatMap]
  constructor
  · rintro ⟨b, hb, hxb⟩
    obtain ⟨a, ha, rfl⟩ := List.mem_map.mp hb
    exact ⟨a, ha, (h a ha x hx hn).mp hxb⟩
  · rintro ⟨a, ha, hxa⟩
    exact ⟨g a, List.mem_map_of_mem ha, (h a ha x hx hn).mpr hxa⟩

/-- Two lists that agree but for a name hold the same other plain names. -/
theorem contains (h : AgreeBut n l l') {a : String} (ha : IsPlain a ∧ a ≠ n) :
    l'.contains a = l.contains a := by
  rw [Bool.eq_iff_iff, List.contains_iff_mem, List.contains_iff_mem, h a ha.1 ha.2]

/-- Either both lists mention one of the given names, or none does. -/
theorem any_contains (h : AgreeBut n l l') (hp : ∀ a ∈ post, IsPlain a ∧ a ≠ n) :
    l'.any post.contains = l.any post.contains := by
  rw [Bool.eq_iff_iff, List.any_eq_true, List.any_eq_true]
  constructor
  · rintro ⟨x, hx, hc⟩
    obtain ⟨h1, h2⟩ := hp x (List.contains_iff_mem.mp hc)
    exact ⟨x, (h x h1 h2).mp hx, hc⟩
  · rintro ⟨x, hx, hc⟩
    obtain ⟨h1, h2⟩ := hp x (List.contains_iff_mem.mp hc)
    exact ⟨x, (h x h1 h2).mpr hx, hc⟩

end AgreeBut

/-! ## Fields of what is settled -/

/-- The fields `l'` are those of `l` with `n` settled: what is new is a registered column that stands
in the place of `n`, and all other fields stay. -/
structure Settles (d : Snapshot) (n : String) (l l' : List FieldRef) : Prop where
  origin : ∀ r ∈ l', r ∈ l ∨ (none, n) ∈ l ∧ IsMoved d n r
  stays : ∀ r ∈ l, r ≠ (none, n) → r ∈ l'

namespace Settles

variable {d : Snapshot} {n : String} {l l' k k' : List FieldRef}

theorem refl (l : List FieldRef) : Settles d n l l :=
  ⟨fun _ h => Or.inl h, fun _ h _ => h⟩

/-- Settled lists of fields compose. -/
theorem append (h : Settles d n l l') (h' : Settles d n k k') : Settles d n (l ++ k) (l' ++ k') := by
  constructor
  · intro r hr
    rcases List.mem_append.mp hr with hr | hr
    · rcases h.origin r hr with hl | ⟨hl, hm⟩
      · exact Or.inl (List.mem_append_left _ hl)
      · exact Or.inr ⟨List.mem_append_left _ hl, hm⟩
    · rcases h'.origin r hr with hk | ⟨hk, hm⟩
      · exact Or.inl (List.mem_append_right _ hk)
      · exact Or.inr ⟨List.mem_append_right _ hk, hm⟩
  · intro r hr hn
    rcases List.mem_append.mp hr with hr | hr
    · exact List.mem_append_left _ (h.stays r hr hn)
    · exact List.mem_append_right _ (h'.stays r hr hn)

/-- Lists of fields are settled when they are settled element by element. -/
theorem flatMap {α β : Type} {as : List α} {f : α → List FieldRef} {g : α → β}
    {f' : β → List FieldRef} (h : ∀ a ∈ as, Settles d n (f a) (f' (g a))) :
    Settles d n (as.flatMap f) ((as.map g).flatMap f') := by
  induction as with
  | nil => exact refl []
  | cons a as ih =>
    rw [List.map_cons, List.flatMap_cons, List.flatMap_cons]
    rw [List.forall_mem_cons] at h
    exact h.1.append (ih h.2)

/-- Settling brings in no names. -/
theorem mem_of_mem_names (h : Settles d n l l') {x : String} (hx : x ∈ l'.map Prod.snd) :
    x ∈ l.map Prod.snd := by
  obtain ⟨r, hr, rfl⟩ := List.mem_map.mp hx
  rcases h.origin r hr with hl | ⟨hl, q, rfl, -⟩
  · exact List.mem_map_of_mem hl
  · exact List.mem_map.mpr ⟨_, hl, rfl⟩

/-- The only name that settling may take away is the one that is settled. -/
theorem agreeBut (h : Settles d n l l') : AgreeBut n (l.map Prod.snd) (l'.map Prod.snd) := by
  intro x _ hn
  refine ⟨h.mem_of_mem_names, fun hx => ?_⟩
  obtain ⟨r, hr, rfl⟩ := List.mem_map.mp hx
  refine List.mem_map_of_mem (h.stays r hr ?_)
  rintro rfl
  exact hn rfl

end Settles

namespace Settling.Sound

variable {m : Settling} {d : Snapshot}

/-- A sound move settles the fields of every expression. -/
theorem expr (hm : m.Sound d) (e : Expr) : Settles d m.name e.fields (e.settle m).fields := by
  constructor
  · intro r hr
    rcases Expr.mem_fields_settle hr with hl | ⟨hl, hx⟩
    · exact Or.inl hl
    · exact Or.inr ⟨hl, hm.fields r hx⟩
  · intro r hr hn
    exact Expr.mem_fields_settle_of_ne hr hn

/-- A name is either left alone or is the one moved, and then it is split as the move says. -/
theorem rename_cases (hm : m.Sound d) (n : String) : m.rename n = n ∨
    n = m.name ∧ IsMoved d m.name (Check.splitName (m.rename n)) := by
  by_cases hn : n = m.name
  · rw [hn, Settling.rename_name]
    rcases hm.written with hw | ⟨q, hw, hq, hc⟩
    · exact Or.inl hw
    · rw [hw, Check.splitName_qualified hq]
      exact Or.inr ⟨rfl, q, rfl, hq, hc⟩
  · exact Or.inl (Settling.rename_of_ne hn)

/-- A name that is held as text keeps its column. -/
theorem column_rename (hm : m.Sound d) (n : String) :
    (Check.splitName (m.rename n)).2 = (Check.splitName n).2 := by
  rcases hm.rename_cases n with h | ⟨rfl, q, h, -⟩
  · rw [h]
  · rw [h, Check.splitName_of_isPlain hm.plain]

/-- A sound move settles the names a statement holds as texts. -/
theorem written_names (hm : m.Sound d) (names : List String) :
    Settles d m.name (names.map Check.splitName) ((names.map m.rename).map Check.splitName) := by
  constructor
  · intro r hr
    rw [List.map_map] at hr
    obtain ⟨n, hn, rfl⟩ := List.mem_map.mp hr
    rcases hm.rename_cases n with h | ⟨rfl, h⟩
    · left
      show Check.splitName (m.rename n) ∈ _
      rw [h]
      exact List.mem_map_of_mem hn
    · right
      refine ⟨?_, h⟩
      rw [← Check.splitName_of_isPlain hm.plain]
      exact List.mem_map_of_mem hn
  · intro r hr hne
    obtain ⟨n, hn, rfl⟩ := List.mem_map.mp hr
    rw [List.map_map]
    have hnm : n ≠ m.name := by
      rintro rfl
      exact hne (Check.splitName_of_isPlain hm.plain)
    have : Check.splitName n = (Check.splitName ∘ m.rename) n := by
      rw [Function.comp_apply, Settling.rename_of_ne hnm]
    rw [this]
    exact List.mem_map_of_mem hn

/-- Apart from the settled name, the plain names among names held as text stay. -/
theorem agreeBut_rename (hm : m.Sound d) (names : List String) :
    AgreeBut m.name names (names.map m.rename) := by
  intro x hx hn
  constructor
  · intro h
    obtain ⟨n, hmem, rfl⟩ := List.mem_map.mp h
    rcases hm.rename_cases n with h | ⟨rfl, q, h, -⟩
    · rw [h]
      exact hmem
    · rw [Check.splitName_of_isPlain hx] at h
      cases h
  · intro h
    rw [← Settling.rename_of_ne hn]
    exact List.mem_map_of_mem h

end Settling.Sound

end DataPhrase
