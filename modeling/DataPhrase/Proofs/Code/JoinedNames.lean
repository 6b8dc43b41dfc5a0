/-
# Names of joined columns

A join merges its right key columns into the left ones, and marks what else two sources call alike.
Two registered columns should then have one name only if the joins merge them with one another.
The rules for names look at one key at a time, tell the columns to keep by their names alone and
have a single mark for all joined sources, so this needs three conditions, which are also sufficient
(`unambiguous_iff`). One join whose kept columns are registered meets them.
-/
import Mathlib.Logic.Relation
import DataPhrase.Code.Script
import DataPhrase.Proofs.Dictionary.Reachable
import DataPhrase.Proofs.Statement.Parse
import DataPhrase.Proofs.Validation.Names

namespace DataPhrase

/-- A column with its source. -/
abbrev SourceColumn := String × String

namespace Script

/-! ## Key equalities -/

/-- The ends of an equality between fields, in a join of `joined` to `source`: the one that is kept
and the one that merges into it. -/
def keyEnds? (source joined : String) : Condition → Option (FieldRef × FieldRef)
  | .comparison (.field lq ln) .eq (.field rq rn) =>
    if lq = some joined ∨ rq = some source then some ((rq, rn), (lq, ln))
    else some ((lq, ln), (rq, rn))
  | _ => none

/-- The pair of a key holds the names of its ends. -/
theorem keyPair?_eq (source joined : String) (c : Condition) :
    keyPair? source joined c = (keyEnds? source joined c).map fun e => (e.1.2, e.2.2) := by
  unfold keyPair?
  split
  · rw [keyEnds?]
    split <;> rfl
  · next hother =>
    rw [keyEnds?]
    · rfl
    · exact hother

/-- A reference stands for a column of the source it names, or of one of `sources` if it names
none. -/
def StandsFor (sources : List String) (r : FieldRef) (f : SourceColumn) : Prop :=
  (r.1 = some f.1 ∨ r.1 = none ∧ f.1 ∈ sources) ∧ r.2 = f.2

/-- A reference that names the only source, or none, stands for a column of it. -/
theorem StandsFor.source_eq {q : String} {r : FieldRef} {f : SourceColumn}
    (h : StandsFor [q] r f) (hr : r.1 = some q ∨ r.1 = none) : f.1 = q := by
  rcases h.1 with hf | ⟨-, hf⟩
  · rcases hr with hr | hr
    · exact Option.some.inj (hf.symm.trans hr)
    · rw [hr] at hf
      cases hf
  · exact List.mem_singleton.mp hf

end Script

namespace Plan

open Script

/-- A key of a join merges the column `f` of the joined source into the column `g`. Fields without
source are columns of the joined source at the end that merges, and of a source before it at the
end that is kept. -/
def Merges (p : Plan) (f g : SourceColumn) : Prop :=
  ∃ before j after, p.joins = before ++ j :: after ∧ ∃ c ∈ j.condition.conjuncts,
    ∃ e ∈ keyEnds? p.source j.source c,
      StandsFor [j.source] e.2 f ∧ StandsFor (p.source :: before.map Join.source) e.1 g

/-- A chain of keys joins the two columns. -/
def JoinedTo (p : Plan) : SourceColumn → SourceColumn → Prop :=
  Relation.EqvGen p.Merges

/-- All joins are on equalities between fields, one of which is of the joined source. -/
def JoinsByKeys (p : Plan) : Prop :=
  ∀ j ∈ p.joins, ∀ c ∈ j.condition.conjuncts,
    ∃ e ∈ keyEnds? p.source j.source c, e.2.1 = some j.source ∨ e.2.1 = none

instance (p : Plan) : Decidable p.JoinsByKeys :=
  inferInstanceAs (Decidable (∀ j ∈ p.joins, _))

/-- The end of an equality that merges is of the joined source. -/
theorem JoinsByKeys.merged {p : Plan} (hp : p.JoinsByKeys) {j : Join} (hj : j ∈ p.joins)
    {c : Condition} (hc : c ∈ j.condition.conjuncts) {e : FieldRef × FieldRef}
    (he : e ∈ keyEnds? p.source j.source c) : e.2.1 = some j.source ∨ e.2.1 = none := by
  obtain ⟨e', he', hmerged⟩ := hp j hj c hc
  rwa [Option.mem_unique he he']

/-- The keys of the joins. -/
def keys (p : Plan) : List JoinKey :=
  joinKeys p.source p.joins

variable {p : Plan} {k : JoinKey} {f g : SourceColumn}

theorem mapM_eq_filterMap {α β : Type} {f : α → Option β} {l : List α}
    (h : ∀ a ∈ l, ∃ b, f a = some b) : l.mapM f = some (l.filterMap f) := by
  induction l with
  | nil => rfl
  | cons a l ih =>
    rw [List.forall_mem_cons] at h
    obtain ⟨b, hb⟩ := h.1
    rw [List.mapM_cons, hb, ih h.2, List.filterMap_cons_some hb]
    rfl

/-- Every equality gives a key, and there are no others. -/
theorem mem_keys (hp : p.JoinsByKeys) : k ∈ p.keys ↔
    ∃ j ∈ p.joins, ∃ c ∈ j.condition.conjuncts, ∃ e ∈ keyEnds? p.source j.source c,
      (⟨j.source, e.1.2, e.2.2⟩ : JoinKey) = k := by
  -- No equality is turned down, so no join is left out for want of keys.
  have hpairs : ∀ j ∈ p.joins, keyPairs? p.source j =
      some (j.condition.conjuncts.filterMap (keyPair? p.source j.source)) := by
    intro j hj
    refine mapM_eq_filterMap fun c hc => ?_
    obtain ⟨e, he, -⟩ := hp j hj c hc
    rw [keyPair?_eq, Option.mem_def.mp he]
    exact ⟨_, rfl⟩
  rw [keys, joinKeys, List.mem_flatMap]
  refine exists_congr fun j => and_congr_right fun hj => ?_
  rw [hpairs j hj, Option.getD_some, List.mem_map]
  simp only [List.mem_filterMap, keyPair?_eq, Option.map_eq_some_iff, Option.mem_def]
  constructor
  · rintro ⟨_, ⟨c, hc, e, he, rfl⟩, hk⟩
    exact ⟨c, hc, e, he, hk⟩
  · rintro ⟨c, hc, e, he, hk⟩
    exact ⟨_, ⟨c, hc, e, he, rfl⟩, hk⟩

/-- Each key merges the right column of its source into one that has the left name. -/
theorem exists_merges (hp : p.JoinsByKeys) (hk : k ∈ p.keys) :
    ∃ a, p.Merges (k.source, k.right) a ∧ a.2 = k.left := by
  obtain ⟨j, hj, c, hc, e, he, rfl⟩ := (mem_keys hp).mp hk
  obtain ⟨before, after, hjoins⟩ := List.append_of_mem hj
  have hmerged := hp.merged hj hc he
  refine ⟨(e.1.1.getD p.source, e.1.2), ⟨before, j, after, hjoins, c, hc, e, he, ?_, ?_⟩, rfl⟩
  · exact ⟨hmerged.imp_right fun h => ⟨h, List.mem_singleton_self _⟩, rfl⟩
  · refine ⟨?_, rfl⟩
    cases e.1.1 with
    | none => exact Or.inr ⟨rfl, List.mem_cons_self⟩
    | some q => exact Or.inl rfl

/-- What is merged is so by a key. -/
theorem Merges.mem_keys (hp : p.JoinsByKeys) (h : p.Merges f g) : ⟨f.1, g.2, f.2⟩ ∈ p.keys := by
  obtain ⟨before, j, after, hjoins, c, hc, e, he, hmerged, -, hkept⟩ := h
  have hj : j ∈ p.joins := by simp [hjoins]
  refine (Plan.mem_keys hp).mpr ⟨j, hj, c, hc, e, he, ?_⟩
  rw [hmerged.source_eq (hp.merged hj hc he), hmerged.2, hkept]

/-- A column whose name is not that of a key is joined to no other. -/
theorem eq_of_joinedTo (hp : p.JoinsByKeys) (hf : ∀ k ∈ p.keys, k.left ≠ f.2 ∧ k.right ≠ f.2)
    (h : p.JoinedTo f g) : f = g := by
  -- Neither end of a merge is `f`, so along a chain being `f` is kept.
  have hkept : ∀ x y, p.JoinedTo x y → (x = f ↔ y = f) := by
    intro x y hxy
    induction hxy with
    | rel x y hm =>
      have hk := hf _ (hm.mem_keys hp)
      refine iff_of_false ?_ ?_
      · rintro rfl
        exact hk.2 rfl
      · rintro rfl
        exact hk.1 rfl
    | refl x => exact Iff.rfl
    | symm x y _ ih => exact ih.symm
    | trans x y z _ _ ih ih' => exact ih.trans ih'
  exact ((hkept f g h).mp rfl).symm

end Plan

namespace Script.Columns

variable {c : Columns} {d : Snapshot} {p : Plan} {f g a b : SourceColumn}

/-! ## How a column is called -/

/-- The column is registered, and its source takes part in the joins. -/
def Has (c : Columns) (f : SourceColumn) : Prop :=
  f.1 ∈ c.sources ∧ c.dictionary.hasColumn f.1 f.2 = true

/-- The key that decides on the name of a column. -/
def key? (c : Columns) (f : SourceColumn) : Option JoinKey :=
  c.keys.find? (hasKey f.1 f.2)

/-- The mark of a column that has no key. -/
def mark (c : Columns) (f : SourceColumn) : String :=
  if c.owners f.2 < 2 then "" else if f.1 = c.source then ".x" else ".y"

/-- What a column is called after the joins. -/
def nameOf (c : Columns) (f : SourceColumn) : String :=
  c.field (some f.1, f.2)

instance (c : Columns) (f : SourceColumn) : Decidable (c.Has f) :=
  inferInstanceAs (Decidable (_ ∧ _))

theorem nameOf_of_key {k : JoinKey} (h : c.key? f = some k) : c.nameOf f = k.left := by
  rw [key?] at h
  simp only [nameOf, field, h]

theorem nameOf_of_not_key (h : c.key? f = none) : c.nameOf f = f.2 ++ c.mark f := by
  rw [key?] at h
  simp only [nameOf, field, h, mark]
  split
  · exact (String.append_empty).symm
  · split <;> rfl

/-- The key of a column holds it on the right or has its name on the left. -/
theorem key?_eq_some {k : JoinKey} (h : c.key? f = some k) :
    k ∈ c.keys ∧ (f = (k.source, k.right) ∨ f.1 ≠ k.source ∧ f.2 = k.left) := by
  refine ⟨List.mem_of_find?_eq_some h, ?_⟩
  have hkey := List.find?_some h
  rw [hasKey] at hkey
  split at hkey
  · next hs => exact Or.inl (Prod.ext (beq_iff_eq.mp hs) (beq_iff_eq.mp hkey).symm)
  · next hs => exact Or.inr ⟨by simpa using hs, (beq_iff_eq.mp hkey).symm⟩

/-- A column without key is not merged. -/
theorem isMerged_eq_false (h : c.key? f = none) : c.isMerged f.1 f.2 = false := by
  rw [isMerged, List.any_eq_false]
  intro k hk
  have hnone := List.find?_eq_none.mp h k hk
  rw [hasKey] at hnone
  by_cases hs : f.1 = k.source
  · simpa [hs] using hnone
  · simp [Ne.symm hs]

/-- A column that is called like the left one of a key has a key, unless it is of the joined
source. -/
theorem key?_ne_none {k : JoinKey} (hk : k ∈ c.keys) (hsource : f.1 ≠ k.source)
    (hleft : f.2 = k.left) : c.key? f ≠ none := by
  intro hnone
  have hkey := List.find?_eq_none.mp hnone k hk
  simp [hasKey, hsource, hleft] at hkey

/-- Where two sources have columns of one name that are not merged, the name has two owners. -/
theorem two_le_owners (hf : c.Has f) (hg : c.Has g) (hmf : c.isMerged f.1 f.2 = false)
    (hmg : c.isMerged g.1 g.2 = false) (hname : f.2 = g.2) (hsource : f.1 ≠ g.1) :
    2 ≤ c.owners f.2 := by
  have h1 : f.1 ∈ c.sources.filter fun s =>
      c.dictionary.hasColumn s f.2 && !c.isMerged s f.2 :=
    List.mem_filter.mpr ⟨hf.1, by rw [hf.2, hmf]; rfl⟩
  have h2 : g.1 ∈ c.sources.filter fun s =>
      c.dictionary.hasColumn s f.2 && !c.isMerged s f.2 :=
    List.mem_filter.mpr ⟨hg.1, by rw [hname, hg.2, hmg]; rfl⟩
  rw [owners]
  generalize c.sources.filter _ = l at h1 h2
  match l with
  | [] => cases h1
  | [x] =>
    rw [List.mem_singleton] at h1 h2
    exact absurd (h1.trans h2.symm) hsource
  | _ :: _ :: _ => simp

/-- A mark is empty or starts with a point. -/
theorem takeWhile_mark (c : Columns) (f : SourceColumn) :
    (c.mark f).toList.takeWhile (· != '.') = [] := by
  rw [mark]
  split
  · rfl
  · split <;> rfl

/-- A plain name can be told from a mark behind it. -/
theorem append_inj_of_isPlain {n m s t : String} (hn : IsPlain n) (hm : IsPlain m)
    (hs : s.toList.takeWhile (· != '.') = []) (ht : t.toList.takeWhile (· != '.') = [])
    (h : n ++ s = m ++ t) : n = m ∧ s = t := by
  have hlist : n.toList ++ s.toList = m.toList ++ t.toList := by
    rw [← String.toList_append, ← String.toList_append, h]
  have hname : n.toList = m.toList := by
    have := congrArg (List.takeWhile (· != '.')) hlist
    rwa [List.takeWhile_append_of_pos (toList_ne_of_isPlain hn), hs, List.append_nil,
      List.takeWhile_append_of_pos (toList_ne_of_isPlain hm), ht, List.append_nil] at this
  rw [hname, List.append_cancel_left_eq] at hlist
  exact ⟨String.toList_injective hname, String.toList_injective hlist⟩

/-- Two columns without keys are called alike exactly if they are the same or both of joined
sources, which share one mark. -/
theorem nameOf_inj_of_not_key (hf : c.Has f) (hg : c.Has g) (hkf : c.key? f = none)
    (hkg : c.key? g = none) (hpf : IsPlain f.2) (hpg : IsPlain g.2) :
    c.nameOf f = c.nameOf g ↔
      f = g ∨ f.2 = g.2 ∧ f.1 ≠ c.source ∧ g.1 ≠ c.source := by
  rw [nameOf_of_not_key hkf, nameOf_of_not_key hkg]
  constructor
  · intro h
    obtain ⟨hname, hmark⟩ :=
      append_inj_of_isPlain hpf hpg (takeWhile_mark c f) (takeWhile_mark c g) h
    by_cases hsource : f.1 = g.1
    · exact Or.inl (Prod.ext hsource hname)
    · have hmany : ¬ c.owners f.2 < 2 := by
        have := two_le_owners hf hg (isMerged_eq_false hkf) (isMerged_eq_false hkg) hname hsource
        omega
      rw [mark, mark, ← hname, if_neg hmany, if_neg hmany] at hmark
      -- The main source is one of the two at most, and then it alone has the left mark.
      by_cases hsf : f.1 = c.source
      · have hsg : g.1 ≠ c.source := fun h => hsource (hsf.trans h.symm)
        simp [hsf, hsg] at hmark
      · by_cases hsg : g.1 = c.source
        · simp [hsf, hsg] at hmark
        · exact Or.inr ⟨hname, hsf, hsg⟩
  · rintro (rfl | ⟨hname, hsf, hsg⟩)
    · rfl
    · rw [mark, mark, if_neg hsf, if_neg hsg, hname]

/-! ## Ambiguous names -/

/-- Different registered columns have one name only if the keys join them. -/
def Unambiguous (d : Snapshot) (p : Plan) : Prop :=
  ∀ f g, (ofPlan d p).Has f → (ofPlan d p).Has g → f ≠ g →
    (ofPlan d p).nameOf f = (ofPlan d p).nameOf g → p.JoinedTo f g

/-- A column keeps its name for a key: it is the one into which a key merges a registered column,
or it is registered and called like it. -/
def Keeps (d : Snapshot) (p : Plan) (a : SourceColumn) : Prop :=
  ∃ f k, (ofPlan d p).Has f ∧ (ofPlan d p).key? f = some k ∧ a.2 = k.left ∧
    (f = (k.source, k.right) ∧ p.Merges f a ∨ f.1 ≠ k.source ∧ f = a)

/-- What it takes that names tell columns apart. -/
structure NamesApart (d : Snapshot) (p : Plan) : Prop where
  /-- The columns that keep one name are joined. A column that is called like a key only by chance
  keeps its name as well. -/
  kept : ∀ a b, Keeps d p a → Keeps d p b → a.2 = b.2 → p.JoinedTo a b
  /-- No other column has a name that is kept. A kept column that is not registered does not count
  as an owner, so that the joined source can have one of its name. -/
  free : ∀ a g, Keeps d p a → (ofPlan d p).Has g → (ofPlan d p).key? g = none →
    (ofPlan d p).nameOf g = a.2 → p.JoinedTo a g
  /-- No two joined sources share a name without a key. Their columns have the same mark. -/
  marked : ∀ f g, (ofPlan d p).Has f → (ofPlan d p).Has g → (ofPlan d p).key? f = none →
    (ofPlan d p).key? g = none → f.2 = g.2 → f.1 ≠ p.source → g.1 ≠ p.source → p.JoinedTo f g

/-- A column that keeps its name is joined to a registered one that has this name. -/
theorem Keeps.exists_has (h : Keeps d p a) :
    ∃ f, (ofPlan d p).Has f ∧ (ofPlan d p).nameOf f = a.2 ∧ p.JoinedTo f a := by
  obtain ⟨f, k, hf, hk, hleft, hjoined⟩ := h
  refine ⟨f, hf, (nameOf_of_key hk).trans hleft.symm, ?_⟩
  rcases hjoined with ⟨-, hmerges⟩ | ⟨-, rfl⟩
  · exact .rel _ _ hmerges
  · exact .refl _

/-- A registered column with a key is joined to one that keeps its name for the key. -/
theorem exists_keeps (hp : p.JoinsByKeys) {k : JoinKey} (hf : (ofPlan d p).Has f)
    (hk : (ofPlan d p).key? f = some k) :
    ∃ a, Keeps d p a ∧ a.2 = (ofPlan d p).nameOf f ∧ p.JoinedTo f a := by
  rw [nameOf_of_key hk]
  obtain ⟨hmem, rfl | ⟨hsource, hleft⟩⟩ := key?_eq_some hk
  · obtain ⟨a, hmerges, hleft⟩ := Plan.exists_merges hp hmem
    exact ⟨a, ⟨_, k, hf, hk, hleft, Or.inl ⟨rfl, hmerges⟩⟩, hleft, .rel _ _ hmerges⟩
  · exact ⟨f, ⟨f, k, hf, hk, hleft, Or.inr ⟨hsource, rfl⟩⟩, hleft, .refl _⟩

theorem isPlain_of_has (hd : d.Reachable) (h : (ofPlan d p).Has f) : IsPlain f.2 :=
  hd.isPlain_column h.2

theorem Unambiguous.joinedTo (h : Unambiguous d p) (hf : (ofPlan d p).Has f)
    (hg : (ofPlan d p).Has g) (hname : (ofPlan d p).nameOf f = (ofPlan d p).nameOf g) :
    p.JoinedTo f g := by
  by_cases hfg : f = g
  · rw [hfg]
    exact .refl _
  · exact h f g hf hg hfg hname

theorem Unambiguous.namesApart (hd : d.Reachable) (h : Unambiguous d p) : NamesApart d p where
  kept a b ha hb hab := by
    obtain ⟨f, hf, hfa, hja⟩ := ha.exists_has
    obtain ⟨g, hg, hgb, hjb⟩ := hb.exists_has
    have hjoined := h.joinedTo hf hg (by rw [hfa, hgb, hab])
    exact .trans _ _ _ (.symm _ _ hja) (.trans _ _ _ hjoined hjb)
  free a g ha hg _ hname := by
    obtain ⟨f, hf, hfa, hja⟩ := ha.exists_has
    exact .trans _ _ _ (.symm _ _ hja) (h.joinedTo hf hg (by rw [hfa, hname]))
  marked f g hf hg hkf hkg hname hsf hsg :=
    h.joinedTo hf hg ((nameOf_inj_of_not_key hf hg hkf hkg (isPlain_of_has hd hf)
      (isPlain_of_has hd hg)).mpr (Or.inr ⟨hname, hsf, hsg⟩))

/-- If one of two columns of a name has a key, they are joined: what keeps the name for it is joined
to the other, or to what keeps the name for the other. -/
theorem NamesApart.joinedTo_of_key (h : NamesApart d p) (hp : p.JoinsByKeys) {k : JoinKey}
    (hf : (ofPlan d p).Has f) (hg : (ofPlan d p).Has g) (hk : (ofPlan d p).key? f = some k)
    (hname : (ofPlan d p).nameOf f = (ofPlan d p).nameOf g) : p.JoinedTo f g := by
  obtain ⟨a, ha, hfa, hja⟩ := exists_keeps hp hf hk
  cases hkg : (ofPlan d p).key? g with
  | some l =>
    obtain ⟨b, hb, hgb, hjb⟩ := exists_keeps hp hg hkg
    have hjoined := h.kept a b ha hb (by rw [hfa, hgb, hname])
    exact .trans _ _ _ hja (.trans _ _ _ hjoined (.symm _ _ hjb))
  | none => exact .trans _ _ _ hja (h.free a g ha hg hkg (by rw [hfa, hname]))

theorem NamesApart.unambiguous (hd : d.Reachable) (hp : p.JoinsByKeys) (h : NamesApart d p) :
    Unambiguous d p := by
  intro f g hf hg hfg hname
  cases hkf : (ofPlan d p).key? f with
  | some k => exact h.joinedTo_of_key hp hf hg hkf hname
  | none =>
    cases hkg : (ofPlan d p).key? g with
    | some l => exact .symm _ _ (h.joinedTo_of_key hp hg hf hkg hname.symm)
    | none =>
      -- Names without keys are told apart by their marks, which joined sources share.
      rcases (nameOf_inj_of_not_key hf hg hkf hkg (isPlain_of_has hd hf)
        (isPlain_of_has hd hg)).mp hname with h' | ⟨hname, hsf, hsg⟩
      · exact absurd h' hfg
      · exact h.marked f g hf hg hkf hkg hname hsf hsg

/-- **Names of joined columns are unambiguous exactly if** columns that keep one name are joined, no
other column has a name that is kept, and no two joined sources share a name without a key. -/
theorem unambiguous_iff (hd : d.Reachable) (hp : p.JoinsByKeys) :
    Unambiguous d p ↔ NamesApart d p :=
  ⟨fun h => h.namesApart hd, fun h => h.unambiguous hd hp⟩

/-! ## One join -/

section OneJoin

variable {j : Join}

theorem source_of_mem_keys (hp : p.JoinsByKeys) (hj : p.joins = [j]) {k : JoinKey}
    (hk : k ∈ p.keys) : k.source = j.source := by
  obtain ⟨i, hi, c, hc, e, he, rfl⟩ := (Plan.mem_keys hp).mp hk
  rw [hj, List.mem_singleton] at hi
  rw [hi]

theorem source_of_has (hj : p.joins = [j]) (hf : (ofPlan d p).Has f) (hne : f.1 ≠ j.source) :
    f.1 = p.source := by
  have hmem : f.1 ∈ p.source :: p.joins.map Join.source := hf.1
  rw [hj] at hmem
  simpa [hne] using hmem

/-- The keys of the join keep columns of the main source that are registered. -/
def KeepsRegistered (d : Snapshot) (p : Plan) (j : Join) : Prop :=
  ∀ c ∈ j.condition.conjuncts, ∀ e ∈ keyEnds? p.source j.source c,
    (e.1.1 = some p.source ∨ e.1.1 = none) ∧ d.hasColumn p.source e.1.2 = true

instance (d : Snapshot) (p : Plan) (j : Join) : Decidable (KeepsRegistered d p j) :=
  inferInstanceAs (Decidable (∀ c ∈ j.condition.conjuncts, _))

/-- Nothing else keeps its name. -/
theorem Keeps.main (hp : p.JoinsByKeys) (hj : p.joins = [j]) (hkept : KeepsRegistered d p j)
    (ha : Keeps d p a) : a.1 = p.source ∧ (ofPlan d p).Has a := by
  obtain ⟨f, k, hf, hk, -, ⟨-, hmerges⟩ | ⟨hne, rfl⟩⟩ := ha
  · obtain ⟨before, i, after, hi, c, hc, e, he, -, hstands⟩ := hmerges
    -- The join is the first one, and before it there is the main source alone.
    obtain ⟨rfl, rfl⟩ : before = [] ∧ j = i := by
      rw [hj] at hi
      rcases before with _ | ⟨b, before⟩
      · exact ⟨rfl, (List.cons.inj hi).1⟩
      · simp at hi
    obtain ⟨hsource, hcolumn⟩ := hkept c hc e he
    have ha : a.1 = p.source := hstands.source_eq hsource
    refine ⟨ha, ?_, ?_⟩
    · rw [ha]
      exact List.mem_cons_self
    · rw [ha, ← hstands.2]
      exact hcolumn
  · rw [source_of_mem_keys hp hj (key?_eq_some hk).1] at hne
    exact ⟨source_of_has hj hf hne, hf⟩

/-- **After one join the names are apart** if the columns that its keys keep are registered. -/
theorem namesApart_of_join (hd : d.Reachable) (hp : p.JoinsByKeys) (hj : p.joins = [j])
    (hsource : j.source ≠ p.source) (hkept : KeepsRegistered d p j) : NamesApart d p where
  kept a b ha hb hab := by
    rw [Prod.ext ((ha.main hp hj hkept).1.trans (hb.main hp hj hkept).1.symm) hab]
    exact .refl _
  free a g ha hg hkg hname := by
    exfalso
    obtain ⟨hmain, hhas⟩ := ha.main hp hj hkept
    obtain ⟨f, k, -, hk, hleft, -⟩ := ha
    obtain ⟨hmem, -⟩ := key?_eq_some hk
    rw [nameOf_of_not_key hkg, ← String.append_empty (s := a.2)] at hname
    obtain ⟨hname, hmark⟩ := append_inj_of_isPlain (isPlain_of_has hd hg)
      (isPlain_of_has hd hhas) (takeWhile_mark _ g) rfl hname
    by_cases hg' : g.1 = j.source
    · -- The kept column stays as well, so the name has two owners and is marked.
      have hma : (ofPlan d p).isMerged a.1 a.2 = false := by
        rw [isMerged, List.any_eq_false]
        intro l hl
        have hs := source_of_mem_keys hp hj hl
        simp [hs, hmain, hsource]
      have htwo := two_le_owners hg hhas (isMerged_eq_false hkg) hma hname
        (by rw [hg', hmain]; exact hsource)
      rw [mark, if_neg (by omega)] at hmark
      split at hmark <;> exact absurd hmark (by decide)
    · refine key?_ne_none hmem ?_ (hname.trans hleft) hkg
      rwa [source_of_mem_keys hp hj hmem]
  marked f g hf hg _ _ hname hsf hsg := by
    have hjoined : ∀ x, (ofPlan d p).Has x → x.1 ≠ p.source → x.1 = j.source := by
      intro x hx hne
      by_contra h
      exact hne (source_of_has hj hx h)
    rw [Prod.ext ((hjoined f hf hsf).trans (hjoined g hg hsg).symm) hname]
    exact .refl _

end OneJoin

/-- Orders and customers, with columns of the same names. -/
def orderColumns : Snapshot :=
  (((((Snapshot.empty.put ⟨"Orders", "customer_id", { category := .column }⟩).put
    ⟨"Orders", "id", { category := .column }⟩).put
    ⟨"Orders", "region", { category := .column }⟩).put
    ⟨"Customers", "id", { category := .column }⟩).put
    ⟨"Customers", "customer_id", { category := .column }⟩).put
    ⟨"Customers", "region", { category := .column }⟩

/-- Orders with their customers. -/
def customerOrders : List Char :=
  "transform Orders to T joined with Customers on Customers.id = Orders.customer_id".toList

theorem unambiguous_customerOrders : ∃ s, Statement.parse customerOrders = .ok s ∧
    orderColumns.Reachable ∧ (Plan.ofStatement s).JoinsByKeys ∧
    (ofPlan orderColumns (Plan.ofStatement s)).nameOf ("Customers", "id") = "customer_id" ∧
    Unambiguous orderColumns (Plan.ofStatement s) := by
  obtain ⟨s, hs, h⟩ := exists_parse customerOrders rfl
    (fun _ s =>
      let p := Plan.ofStatement s
      decide p.JoinsByKeys && decide (p.joins.length = 1) &&
        (p.joins.all fun j => decide (j.source ≠ p.source ∧ KeepsRegistered orderColumns p j)) &&
        decide ((ofPlan orderColumns p).nameOf ("Customers", "id") = "customer_id"))
    (by decide +kernel)
  simp only [Bool.and_eq_true, List.all_eq_true, decide_eq_true_iff] at h
  obtain ⟨⟨⟨hp, hone⟩, hjoins⟩, hname⟩ := h
  have hd : orderColumns.Reachable :=
    (((((Snapshot.Reachable.empty.put rfl).put rfl).put rfl).put rfl).put rfl).put rfl
  obtain ⟨j, hj⟩ := List.length_eq_one_iff.mp hone
  obtain ⟨hsource, hkept⟩ := hjoins j (by simp [hj])
  have hapart := namesApart_of_join hd hp hj hsource hkept
  exact ⟨s, hs, hd, hp, hname, (unambiguous_iff hd hp).mpr hapart⟩

/-- Three sources, two of which have a region. -/
def regionColumns : Snapshot :=
  (Snapshot.empty.put ⟨"B", "region", { category := .column }⟩).put
    ⟨"C", "region", { category := .column }⟩

/-- The regions of two joined sources. -/
def joinedRegions : List Char :=
  ("transform A to T joined with B on A.id = B.id joined with C on A.id = C.id " ++
    "selecting B.region, C.region").toList

/-- Two columns that no key joins can have the same name. -/
theorem not_unambiguous_joinedRegions : ∃ s, Statement.parse joinedRegions = .ok s ∧
    regionColumns.Reachable ∧ s.sources.Nodup ∧ (Plan.ofStatement s).JoinsByKeys ∧
    ¬ Unambiguous regionColumns (Plan.ofStatement s) := by
  obtain ⟨s, hs, h⟩ := exists_parse joinedRegions
    (congrArg String.toList String.ofList_append.symm)
    (fun _ s =>
      let p := Plan.ofStatement s
      let c := ofPlan regionColumns p
      decide s.sources.Nodup && decide p.JoinsByKeys &&
        decide (c.Has ("B", "region")) && decide (c.Has ("C", "region")) &&
        decide (c.nameOf ("B", "region") = c.nameOf ("C", "region")) &&
        p.keys.all fun k => decide (k.left ≠ "region" ∧ k.right ≠ "region"))
    (by decide +kernel)
  simp only [Bool.and_eq_true, List.all_eq_true, decide_eq_true_iff] at h
  obtain ⟨⟨⟨⟨⟨hnodup, hp⟩, hb⟩, hc⟩, hname⟩, hkeys⟩ := h
  have hd : regionColumns.Reachable := (Snapshot.Reachable.empty.put rfl).put rfl
  refine ⟨s, hs, hd, hnodup, hp, fun hunambiguous => ?_⟩
  have hjoined := hunambiguous ("B", "region") ("C", "region") hb hc (by decide) hname
  have := Plan.eq_of_joinedTo (f := ("B", "region")) hp hkeys hjoined
  simp at this

end Script.Columns

end DataPhrase
