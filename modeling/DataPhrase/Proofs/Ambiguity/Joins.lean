/-
# What readings make of joins

A choice at the site of a name is also made where the name stands in the condition of a join, and
nothing looks at the other side of the comparison there. So a comparison of two keys can become a
comparison of a key with itself, and it does exactly where its sides merge: where they differ in
names only that stand opposite the column or the metric they are settled on.
-/
import DataPhrase.Proofs.Ambiguity.Counting
import DataPhrase.Proofs.Statement.Equality

namespace DataPhrase

variable {text : List Char} {s t : Statement} {d : Snapshot} {site : Site} {c : Candidate}

/-! ## Settled names -/

namespace Expr

/-- What a name can be settled on: a metric, or a field with its source. -/
inductive IsSettled : Expr → Prop
  | metric (sec n : String) : IsSettled (.metric sec n)
  | field (q n : String) : IsSettled (.field (some q) n)

/-- The expression with every field without source settled as `f` says. -/
def settleAll (f : String → Option Expr) (e : Expr) : Expr :=
  e.mapFields fun r => if r.1.isNone then f r.2 else none

section SettleAll

variable {f g : String → Option Expr} {e x : Expr} {n : String}

/-- A plain field becomes what is chosen for its name. -/
theorem settleAll_plain : (field none n).settleAll f = (f n).getD (field none n) :=
  rfl

/-- A settled expression stays as it is. -/
theorem settleAll_of_isSettled (h : e.IsSettled) : e.settleAll f = e := by
  cases h <;> rfl

variable (f) in
theorem settleAll_call (n : String) (args : List Expr) :
    (call n args).settleAll f = .call n (args.map (settleAll f)) := by
  have hall : ∀ es : List Expr, mapFieldsAll (fun r => if r.1.isNone then f r.2 else none) es =
      es.map (settleAll f) := by
    intro es
    induction es with
    | nil => rfl
    | cons e es ih => rw [mapFieldsAll, ih, List.map_cons, settleAll]
  rw [settleAll, mapFields, hall]

variable (f) in
theorem settleAll_binary (op : ArithOp) (l r : Expr) :
    (binary op l r).settleAll f = .binary op (l.settleAll f) (r.settleAll f) :=
  rfl

variable (f) in
theorem settleAll_negate (e : Expr) : (negate e).settleAll f = .negate (e.settleAll f) :=
  rfl

mutual

/-- Names that have been settled stay as they are when others are. -/
theorem settleAll_settleAll (hf : ∀ n x, f n = some x → x.IsSettled) (e : Expr) :
    (e.settleAll f).settleAll g = e.settleAll fun n => (f n).or (g n) := by
  cases e with
  | field q n =>
    cases q with
    | some q => rfl
    | none =>
      rw [settleAll_plain, settleAll_plain]
      cases hn : f n with
      | none => rfl
      | some x => exact settleAll_of_isSettled (hf n x hn)
  | call n args =>
    rw [settleAll_call, settleAll_call, settleAll_call, map_settleAll_settleAll hf args]
  | binary op l r =>
    rw [settleAll_binary, settleAll_binary, settleAll_binary, settleAll_settleAll hf l,
      settleAll_settleAll hf r]
  | negate e => rw [settleAll_negate, settleAll_negate, settleAll_negate, settleAll_settleAll hf e]
  | literal v => rfl
  | metric sec n => rfl
  | star => rfl

/-- Settling twice is settling with the first choice for each name. -/
theorem map_settleAll_settleAll (hf : ∀ n x, f n = some x → x.IsSettled) (es : List Expr) :
    (es.map (settleAll f)).map (settleAll g) = es.map (settleAll fun n => (f n).or (g n)) := by
  cases es with
  | nil => rfl
  | cons e es =>
    rw [List.map_cons, List.map_cons, List.map_cons, settleAll_settleAll hf e,
      map_settleAll_settleAll hf es]

end

mutual

/-- Nothing changes where no name is settled. -/
theorem settleAll_none (e : Expr) : e.settleAll (fun _ => none) = e := by
  cases e with
  | field q n => cases q <;> rfl
  | call n args => rw [settleAll_call, map_settleAll_none args]
  | binary op l r => rw [settleAll_binary, settleAll_none l, settleAll_none r]
  | negate e => rw [settleAll_negate, settleAll_none e]
  | literal v => rfl
  | metric sec n => rfl
  | star => rfl

/-- Without choices nothing is settled. -/
theorem map_settleAll_none (es : List Expr) : es.map (settleAll fun _ => none) = es := by
  cases es with
  | nil => rfl
  | cons e es => rw [List.map_cons, settleAll_none e, map_settleAll_none es]

end

end SettleAll

/-- The settling of one name. -/
theorem settle_eq_settleAll (m : Settling) (e : Expr) :
    e.settle m = e.settleAll fun n => if n = m.name then some m.expr else none := by
  rw [settle, settleAll]
  congr 1
  funext x
  obtain ⟨q, n⟩ := x
  cases q <;> rfl

/-! ## Merging -/

mutual

/-- Two expressions that are equal once names are settled as `f` says: they differ in names only,
each opposite what it is settled on or a name that is settled on the same. -/
inductive Merges (f : String → Option Expr) : Expr → Expr → Prop
  | same (e : Expr) : Merges f e e
  | left {n : String} {x : Expr} (h : f n = some x) : Merges f (.field none n) x
  | right {n : String} {x : Expr} (h : f n = some x) : Merges f x (.field none n)
  | both {n m : String} {x : Expr} (hn : f n = some x) (hm : f m = some x) :
      Merges f (.field none n) (.field none m)
  | call (n : String) {as bs : List Expr} (h : MergesAll f as bs) :
      Merges f (.call n as) (.call n bs)
  | binary (op : ArithOp) {a b a' b' : Expr} (h : Merges f a a') (h' : Merges f b b') :
      Merges f (.binary op a b) (.binary op a' b')
  | negate {a b : Expr} (h : Merges f a b) : Merges f (.negate a) (.negate b)

/-- The expressions of two lists merge one by one. -/
inductive MergesAll (f : String → Option Expr) : List Expr → List Expr → Prop
  | nil : MergesAll f [] []
  | cons {a b : Expr} {as bs : List Expr} (h : Merges f a b) (h' : MergesAll f as bs) :
      MergesAll f (a :: as) (b :: bs)

end

section Merging

variable {f : String → Option Expr} {a b x : Expr} {n : String}

mutual

/-- Expressions that merge are settled to one. -/
theorem Merges.settleAll_eq (hf : ∀ n x, f n = some x → x.IsSettled) {a b : Expr}
    (h : Merges f a b) : a.settleAll f = b.settleAll f := by
  cases h with
  | same => rfl
  | left h => rw [settleAll_plain, h, settleAll_of_isSettled (hf _ _ h), Option.getD_some]
  | right h => rw [settleAll_plain, h, settleAll_of_isSettled (hf _ _ h), Option.getD_some]
  | both hn hm => rw [settleAll_plain, settleAll_plain, hn, hm, Option.getD_some, Option.getD_some]
  | call n h => rw [settleAll_call, settleAll_call, h.map_settleAll_eq hf]
  | binary op h h' => rw [settleAll_binary, settleAll_binary, h.settleAll_eq hf, h'.settleAll_eq hf]
  | negate h => rw [settleAll_negate, settleAll_negate, h.settleAll_eq hf]

theorem MergesAll.map_settleAll_eq (hf : ∀ n x, f n = some x → x.IsSettled) {as bs : List Expr}
    (h : MergesAll f as bs) : as.map (settleAll f) = bs.map (settleAll f) := by
  cases h with
  | nil => rfl
  | cons h h' => rw [List.map_cons, List.map_cons, h.settleAll_eq hf, h'.map_settleAll_eq hf]

end

/-- The expression has no parts. -/
def IsLeaf : Expr → Prop
  | .call _ _ | .binary _ _ _ | .negate _ => False
  | .literal _ | .field _ _ | .metric _ _ | .star => True

/-- A settled leaf is a leaf. -/
theorem isLeaf_settleAll (hf : ∀ n x, f n = some x → x.IsSettled) (ha : a.IsLeaf) :
    (a.settleAll f).IsLeaf := by
  cases a with
  | field q n =>
    cases q with
    | some q => trivial
    | none =>
      rw [settleAll_plain]
      cases hn : f n with
      | none => trivial
      | some x => cases hf n x hn <;> trivial
  | call n args => exact ha
  | binary op l r => exact ha
  | negate e => exact ha
  | literal v => trivial
  | metric sec n => trivial
  | star => trivial

/-- What becomes a leaf is that leaf, or a name that is settled on it. -/
theorem eq_or_settled (hx : x.IsLeaf) (ha : a.settleAll f = x) :
    a = x ∨ ∃ n, a = .field none n ∧ f n = some x := by
  cases a with
  | field q n =>
    cases q with
    | some q => exact Or.inl ha
    | none =>
      rw [settleAll_plain] at ha
      cases hn : f n with
      | none =>
        rw [hn] at ha
        exact Or.inl ha
      | some y =>
        rw [hn] at ha
        exact Or.inr ⟨n, rfl, hn.trans (congrArg some ha)⟩
  | call n args =>
    subst ha
    cases hx
  | binary op l r =>
    subst ha
    cases hx
  | negate e =>
    subst ha
    cases hx
  | literal v => exact Or.inl ha
  | metric sec n => exact Or.inl ha
  | star => exact Or.inl ha

/-- Leaves that are settled to one merge. -/
theorem merges_of_isLeaf (hx : x.IsLeaf) (ha : a.settleAll f = x) (hb : b.settleAll f = x) :
    Merges f a b := by
  rcases eq_or_settled hx ha with rfl | ⟨n, rfl, hn⟩
  · rcases eq_or_settled hx hb with rfl | ⟨m, rfl, hm⟩
    · exact .same _
    · exact .right hm
  · rcases eq_or_settled hx hb with rfl | ⟨m, rfl, hm⟩
    · exact .left hn
    · exact .both hn hm

theorem merges_of_isLeaf_left (hf : ∀ n x, f n = some x → x.IsSettled) (ha : a.IsLeaf)
    (h : a.settleAll f = b.settleAll f) : Merges f a b :=
  merges_of_isLeaf (isLeaf_settleAll hf ha) rfl h.symm

theorem merges_of_isLeaf_right (hf : ∀ n x, f n = some x → x.IsSettled) (hb : b.IsLeaf)
    (h : a.settleAll f = b.settleAll f) : Merges f a b :=
  merges_of_isLeaf (isLeaf_settleAll hf hb) h rfl

mutual

/-- **Expressions that are settled to one merge.** By induction on the first, against every second.
-/
theorem merges_of_settleAll_eq (hf : ∀ n x, f n = some x → x.IsSettled) (a b : Expr)
    (h : a.settleAll f = b.settleAll f) : Merges f a b := by
  cases a with
  | call n as =>
    cases b with
    | call m bs =>
      rw [settleAll_call, settleAll_call] at h
      obtain ⟨rfl, hall⟩ := call.inj h
      exact .call n (mergesAll_of_map_settleAll_eq hf as bs hall)
    | binary op l r => cases h
    | negate e => cases h
    | _ => exact merges_of_isLeaf_right hf trivial h
  | binary op l r =>
    cases b with
    | binary op' l' r' =>
      obtain ⟨rfl, hl, hr⟩ := binary.inj h
      exact .binary op (merges_of_settleAll_eq hf l l' hl) (merges_of_settleAll_eq hf r r' hr)
    | call m bs => cases h
    | negate e => cases h
    | _ => exact merges_of_isLeaf_right hf trivial h
  | negate e =>
    cases b with
    | negate e' => exact .negate (merges_of_settleAll_eq hf e e' (negate.inj h))
    | call m bs => cases h
    | binary op l r => cases h
    | _ => exact merges_of_isLeaf_right hf trivial h
  | _ => exact merges_of_isLeaf_left hf trivial h

theorem mergesAll_of_map_settleAll_eq (hf : ∀ n x, f n = some x → x.IsSettled)
    (as bs : List Expr) (h : as.map (settleAll f) = bs.map (settleAll f)) :
    MergesAll f as bs := by
  cases as with
  | nil =>
    cases bs with
    | nil => exact .nil
    | cons b bs => cases h
  | cons a as =>
    cases bs with
    | nil => cases h
    | cons b bs =>
      obtain ⟨hab, hall⟩ := List.cons.inj h
      exact .cons (merges_of_settleAll_eq hf a b hab) (mergesAll_of_map_settleAll_eq hf as bs hall)

end

/-- Fields with different sources do not merge. -/
theorem Merges.source_eq {q r m : String} (h : Merges f (.field (some q) n) (.field (some r) m)) :
    q = r := by
  cases h
  rfl

/-- **Expressions are equal once names are settled where they merge**, and only there. -/
theorem settleAll_eq_iff (hf : ∀ n x, f n = some x → x.IsSettled) :
    a.settleAll f = b.settleAll f ↔ Merges f a b :=
  ⟨merges_of_settleAll_eq hf a b, fun h => h.settleAll_eq hf⟩

end Merging

end Expr

/-! ## Comparisons -/

/-- A comparison of two sides. -/
structure Comparison where
  left : Expr
  op : CompareOp
  right : Expr
  deriving DecidableEq

namespace Comparison

/-- The comparison with `f` applied to both sides. -/
def map (f : Expr → Expr) (k : Comparison) : Comparison :=
  ⟨f k.left, k.op, f k.right⟩

end Comparison

namespace Condition

mutual

/-- The comparisons in a condition, in the order it is written. -/
def comparisons : Condition → List Comparison
  | .comparison l op r => [⟨l, op, r⟩]
  | .logical _ cs => comparisonsAll cs
  | .not c => c.comparisons
  | .call _ _ => []

/-- The comparisons in a list of conditions. -/
def comparisonsAll : List Condition → List Comparison
  | [] => []
  | c :: r => c.comparisons ++ comparisonsAll r

end

mutual

/-- Changing expressions changes both sides of each comparison. -/
theorem comparisons_mapExprs (f : Expr → Expr) (c : Condition) :
    (c.mapExprs f).comparisons = c.comparisons.map (Comparison.map f) := by
  cases c with
  | comparison l op r => rfl
  | logical op cs => rw [mapExprs, comparisons, comparisons, comparisonsAll_mapExprsAll f cs]
  | not c => rw [mapExprs, comparisons, comparisons, comparisons_mapExprs f c]
  | call n args => rfl

theorem comparisonsAll_mapExprsAll (f : Expr → Expr) (cs : List Condition) :
    comparisonsAll (mapExprsAll f cs) = (comparisonsAll cs).map (Comparison.map f) := by
  cases cs with
  | nil => rfl
  | cons c cs =>
    rw [mapExprsAll, comparisonsAll, comparisonsAll, List.map_append, comparisons_mapExprs f c,
      comparisonsAll_mapExprsAll f cs]

end

end Condition

/-! ## Joins -/

/-- The condition of a join. -/
def Operation.joinedOn? : Operation → Option Condition
  | .join _ c => some c
  | _ => none

namespace Statement

/-- The conditions of the joins of a statement, in the order of the joins. -/
def joinConditions (s : Statement) : List Condition :=
  s.operations.filterMap Operation.joinedOn?

/-- The comparisons in the conditions of the joins of a statement. -/
def joinComparisons (s : Statement) : List Comparison :=
  s.joinConditions.flatMap Condition.comparisons

/-- The conditions of joins are settled one by one. -/
theorem joinConditions_settle (m : Settling) (s : Statement) :
    (s.settle m).joinConditions = s.joinConditions.map (Condition.settle m) := by
  have hop : Operation.joinedOn? ∘ Operation.settle m =
      fun op => op.joinedOn?.map (Condition.settle m) := by
    funext op
    cases op <;> rfl
  rw [joinConditions, operations_settle, List.filterMap_map, hop, joinConditions,
    List.map_filterMap]

/-- So are their comparisons. -/
theorem joinComparisons_settle (m : Settling) (s : Statement) :
    (s.settle m).joinComparisons = s.joinComparisons.map (Comparison.map (Expr.settle m)) := by
  have hc : ∀ c : Condition, (c.settle m).comparisons =
      c.comparisons.map (Comparison.map (Expr.settle m)) :=
    Condition.comparisons_mapExprs (Expr.settle m)
  rw [joinComparisons, joinConditions_settle, List.flatMap_map, joinComparisons, List.map_flatMap]
  simp only [hc]

end Statement

/-! ## Readings -/

/-- What a choice puts in the place of a name. -/
def Resolution.settles? (r : Resolution) (n : String) : Option Expr :=
  if n = r.subject then
    match r.kind with
    | .temporal => none
    | .metric => (cutMeaning r.meaning).map fun m => .metric m.1 m.2
    | .dimension => (cutMeaning r.meaning).map fun m => .field (some m.1) r.subject
  else none

/-- What the choices put in the place of a name. -/
def settledBy (rs : List Resolution) (n : String) : Option Expr :=
  rs.findSome? fun r => r.settles? n

/-- What a reading puts in the place of a name. -/
def Candidate.settles? (c : Candidate) : String → Option Expr :=
  settledBy c.resolutions

/-- What a resolution puts in is settled. -/
theorem Resolution.isSettled (r : Resolution) {n : String} {x : Expr} (h : r.settles? n = some x) :
    x.IsSettled := by
  rw [settles?] at h
  split at h
  · split at h
    · cases h
    · obtain ⟨m, -, rfl⟩ := Option.map_eq_some_iff.mp h
      exact .metric m.1 m.2
    · obtain ⟨m, -, rfl⟩ := Option.map_eq_some_iff.mp h
      exact .field m.1 r.subject
  · cases h

/-- What all resolutions put in is settled. -/
theorem isSettled_of_settledBy {rs : List Resolution} (n : String) (x : Expr)
    (h : settledBy rs n = some x) : x.IsSettled := by
  obtain ⟨r, -, hr⟩ := List.exists_of_findSome?_eq_some h
  exact r.isSettled hr

/-- The first resolution of a name decides. -/
theorem settledBy_cons (r : Resolution) (rs : List Resolution) :
    settledBy (r :: rs) = fun n => (r.settles? n).or (settledBy rs n) := by
  funext n
  rw [settledBy, List.findSome?_cons]
  cases r.settles? n <;> rfl

namespace Comparison

/-- The comparison with names settled as `f` says. -/
def settleAll (f : String → Option Expr) (k : Comparison) : Comparison :=
  k.map (Expr.settleAll f)

/-- A comparison without choices stays. -/
theorem settleAll_none (k : Comparison) : k.settleAll (fun _ => none) = k := by
  rw [settleAll, map, Expr.settleAll_none, Expr.settleAll_none]

theorem map_settleAll_none (ks : List Comparison) : ks.map (settleAll fun _ => none) = ks := by
  rw [show settleAll (fun _ => none) = id from funext settleAll_none, List.map_id]

/-- Comparisons settled twice are settled with the first choices. -/
theorem settleAll_settleAll {f : String → Option Expr} (hf : ∀ n x, f n = some x → x.IsSettled)
    (g : String → Option Expr) (k : Comparison) :
    (k.settleAll f).settleAll g = k.settleAll fun n => (f n).or (g n) := by
  rw [settleAll, settleAll, map, map, Expr.settleAll_settleAll hf, Expr.settleAll_settleAll hf]
  rfl

/-- Settling on one meaning is a choice for its name only. -/
theorem settleAll_of_settling (m : Settling) : map (Expr.settle m) =
    settleAll fun n => if n = m.name then some m.expr else none := by
  funext k
  rw [map, Expr.settle_eq_settleAll, Expr.settle_eq_settleAll]
  rfl

end Comparison

/-- **A choice at a site settles its name in the conditions of joins.** -/
theorem joinComparisons_choose (site : Site) (meaning : String) (t : Statement) :
    (site.choose meaning t).joinComparisons = t.joinComparisons.map
      (Comparison.settleAll (Resolution.settles? ⟨site.kind, site.subject, meaning⟩)) := by
  obtain ⟨kind, n, offset, meanings⟩ := site
  have hsame : ∀ f : String → Option Expr, (f = fun _ => none) →
      t.joinComparisons = t.joinComparisons.map (Comparison.settleAll f) := by
    rintro _ rfl
    exact (Comparison.map_settleAll_none _).symm
  cases kind with
  | temporal => exact hsame _ (funext fun _ => ite_self none)
  | metric =>
    cases hcut : cutMeaning meaning with
    | none =>
      rw [Site.choose, hcut]
      refine hsame _ (funext fun _ => ?_)
      rw [Resolution.settles?, hcut]
      exact ite_self none
    | some m =>
      rw [choose_metric rfl hcut, Statement.joinComparisons_settle,
        Comparison.settleAll_of_settling]
      congr 2
      funext x
      rw [Resolution.settles?, hcut]
      rfl
  | dimension =>
    cases hcut : cutMeaning meaning with
    | none =>
      rw [Site.choose, hcut]
      refine hsame _ (funext fun _ => ?_)
      rw [Resolution.settles?, hcut]
      exact ite_self none
    | some m =>
      rw [choose_dimension rfl hcut, Statement.joinComparisons_settle,
        Comparison.settleAll_of_settling]
      congr 2
      funext x
      rw [Resolution.settles?, hcut]
      rfl

/-- Choices one after another settle their names in the conditions of joins. -/
theorem joinComparisons_foldl (cs : List (Site × String)) (t : Statement) :
    (cs.foldl (fun t c => c.1.choose c.2 t) t).joinComparisons = t.joinComparisons.map
      (Comparison.settleAll (settledBy (cs.map fun c => ⟨c.1.kind, c.1.subject, c.2⟩))) := by
  induction cs generalizing t with
  | nil => exact (Comparison.map_settleAll_none _).symm
  | cons c cs ih =>
    rw [List.foldl_cons, ih, joinComparisons_choose, List.map_map, List.map_cons, settledBy_cons]
    congr 1
    funext k
    exact k.settleAll_settleAll (fun _ _ => Resolution.isSettled _) _

/-- A reading settles names in the conditions of joins. -/
theorem joinComparisons_of_mem_disambiguate (hc : c ∈ disambiguate text s d) :
    c.statement.joinComparisons = s.joinComparisons.map (Comparison.settleAll c.settles?) := by
  obtain ⟨choice, -, rfl⟩ := List.mem_map.mp hc
  exact joinComparisons_foldl _ s

/-- **What readings make of the comparisons in joins.** They stay comparisons of the same kind, and
one gets equal sides exactly where its sides merge under the choices of the reading. -/
theorem joinComparisons_reading (hc : c ∈ disambiguate text s d) :
    List.Forall₂ (fun k k' => k'.op = k.op ∧
        (k'.left = k'.right ↔ Expr.Merges c.settles? k.left k.right))
      s.joinComparisons c.statement.joinComparisons := by
  rw [joinComparisons_of_mem_disambiguate hc, List.forall₂_map_right_iff, List.forall₂_same]
  exact fun k _ => ⟨rfl, Expr.settleAll_eq_iff isSettled_of_settledBy⟩

/-- The question about the region of either source compares the two regions in each reading. -/
theorem joinComparisons_reading_regionQuestion :
    ∃ s c, Statement.parse regionQuestion = .ok s ∧ c ∈ disambiguate regionQuestion s regions ∧
      c.statement.joinComparisons.length = 1 ∧
      ∀ k ∈ c.statement.joinComparisons, k.left ≠ k.right := by
  obtain ⟨s, hs, h⟩ := exists_parse regionQuestion
    (congrArg String.toList String.ofList_append.symm)
    (fun _ s => decide (s.joinComparisons =
      [⟨.field (some "orders") "region", .eq, .field (some "customers") "region"⟩]))
    (by decide +kernel)
  obtain ⟨c, hc⟩ : ∃ c, c ∈ disambiguate regionQuestion s regions := exists_mem_disambiguate
  have hall := joinComparisons_reading hc
  rw [of_decide_eq_true h, List.forall₂_cons_left_iff] at hall
  obtain ⟨k, ks, ⟨-, hk⟩, hks, hjoins⟩ := hall
  obtain rfl := List.forall₂_nil_left_iff.mp hks
  refine ⟨s, c, hs, hc, by rw [hjoins]; rfl, fun k' hk' heq => ?_⟩
  rw [hjoins, List.mem_singleton] at hk'
  subst hk'
  exact absurd (hk.mp heq).source_eq (by decide)

/-- A statement that joins two sources on their regions, one of them written without source. -/
def joinedOnRegion : List Char :=
  ("transform orders to T joined with customers on region = customers.region " ++
    "as count(*) as n grouped by region").toList

/-- In a reading the region of the customers is compared with itself. -/
theorem merges_joinedOnRegion :
    ∃ s c, Statement.parse joinedOnRegion = .ok s ∧ regions.Reachable ∧
      c ∈ disambiguate joinedOnRegion s regions ∧
      s.joinComparisons = [⟨.plain "region", .eq, .field (some "customers") "region"⟩] ∧
      c.statement.joinComparisons =
        [⟨.field (some "customers") "region", .eq, .field (some "customers") "region"⟩] := by
  let region : Site := ⟨.dimension, "region", some 47, ["customers.region", "orders.region"]⟩
  obtain ⟨s, hs, h⟩ := exists_parse joinedOnRegion
    (congrArg String.toList String.ofList_append.symm)
    (fun text s => decide (s.period = none) &&
      decide (s.plainNames.filterMap (Site.ofName? text s regions) = [region]) &&
      decide (s.joinComparisons = [⟨.plain "region", .eq, .field (some "customers") "region"⟩]))
    (by decide +kernel)
  rw [Bool.and_eq_true, Bool.and_eq_true, decide_eq_true_iff, decide_eq_true_iff,
    decide_eq_true_iff] at h
  obtain ⟨⟨hperiod, hsites⟩, hjoins⟩ := h
  have hdetect : detect joinedOnRegion s regions = [region] := by
    rw [detect, hsites, hperiod]
    exact List.mergeSort_singleton region
  have hc : Candidate.ofChoice s [region] ["customers.region"] ∈
      disambiguate joinedOnRegion s regions := by
    rw [disambiguate, hdetect]
    exact List.mem_map_of_mem (by decide)
  refine ⟨s, _, hs, reachable_regions, hc, hjoins, ?_⟩
  rw [joinComparisons_of_mem_disambiguate hc, hjoins]
  show List.map (Comparison.settleAll (settledBy [⟨.dimension, "region", "customers.region"⟩])) _ = _
  decide +kernel

end DataPhrase
