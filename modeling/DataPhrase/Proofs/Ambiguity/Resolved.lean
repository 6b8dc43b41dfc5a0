/-
# What the readings leave open

A choice at the site of a name takes the name out of the expressions of a statement. Only a column
is also put in the place of a name that is held as text: no metric can be held there. In a reading
of a statement the sites of names are therefore settled, but for the metrics that the statement
groups by, sorts by or selects, which are as open as before (`mem_detect_reading_iff`).
-/
import DataPhrase.Proofs.Ambiguity.Counting

namespace DataPhrase

variable {text : List Char} {s t u : Statement} {d : Snapshot} {site : Site} {sites : List Site}
  {m : Settling} {n meaning : String} {c : Candidate}

/-! ## Where names stand -/

namespace Operation

/-- The fields in the expressions of an operation other than a join. -/
def readFields : Operation → List FieldRef
  | .aggregate _ e _ => e.fields
  | .calculate e _ => e.fields
  | .window _ e _ _ _ => (e.map Expr.fields).getD []
  | .select _ => []
  | .join _ _ => []

/-- The names that an operation holds as text. -/
def heldNames : Operation → List String
  | .window _ _ partitionBy orderBy _ => partitionBy ++ orderBy.map OrderItem.field
  | .select fields => fields
  | _ => []

end Operation

namespace Statement

/-- The fields in the expressions of a statement, those of joins left out. -/
def readFields (s : Statement) : List FieldRef :=
  s.operations.flatMap Operation.readFields ++ (s.filter.map Condition.fields).getD []

/-- The names that a statement holds as text: selected names, the keys of windows, group keys and
sort keys. -/
def heldNames (s : Statement) : List String :=
  s.operations.flatMap Operation.heldNames ++ s.group.getD [] ++ s.order.map OrderItem.field

end Statement

/-- The plain names of a list of fields are the names without a qualifier. -/
theorem mem_plainNames {fs : List FieldRef} : n ∈ plainNames fs ↔ (none, n) ∈ fs := by
  rw [plainNames, List.mem_filterMap]
  constructor
  · rintro ⟨⟨q, x⟩, hmem, hx⟩
    cases q with
    | none =>
      obtain rfl := Option.some.inj hx
      exact hmem
    | some q => cases hx
  · exact fun hmem => ⟨_, hmem, rfl⟩

theorem mem_plainNames_getD {α : Type} {o : Option α} {f : α → List FieldRef} :
    n ∈ (o.map fun a => plainNames (f a)).getD [] ↔ (none, n) ∈ (o.map f).getD [] := by
  cases o with
  | none => exact iff_of_false List.not_mem_nil List.not_mem_nil
  | some a => exact mem_plainNames

/-- The plain names of an operation are those it reads and those it holds as texts. -/
theorem Operation.mem_plainNames {op : Operation} :
    n ∈ op.plainNames ↔ (none, n) ∈ op.readFields ∨ n ∈ op.heldNames := by
  cases op with
  | aggregate f e a => exact DataPhrase.mem_plainNames.trans (or_iff_left List.not_mem_nil).symm
  | calculate e a => exact DataPhrase.mem_plainNames.trans (or_iff_left List.not_mem_nil).symm
  | window f e p o a =>
    rw [plainNames, List.append_assoc, List.mem_append]
    exact or_congr_left mem_plainNames_getD
  | select fields => exact (or_iff_right List.not_mem_nil).symm
  | join source c =>
    exact iff_of_false List.not_mem_nil (not_or.mpr ⟨List.not_mem_nil, List.not_mem_nil⟩)

/-- The plain names stand in expressions or are held as text. -/
theorem Statement.mem_plainNames : n ∈ s.plainNames ↔
    ((none, n) ∈ s.readFields ∨ n ∈ s.heldNames) ∧ IsPlain n ∧ n ∉ s.aliases := by
  have hplain : ((!n.toList.contains '.' && !s.aliases.contains n) = true) ↔
      IsPlain n ∧ n ∉ s.aliases := by
    rw [Bool.and_eq_true, Bool.not_eq_true', Bool.not_eq_true', ← Bool.not_eq_true,
      ← Bool.not_eq_true, List.contains_iff_mem, List.contains_iff_mem]
    rfl
  have hops : n ∈ s.operations.flatMap Operation.plainNames ↔
      (none, n) ∈ s.operations.flatMap Operation.readFields ∨
        n ∈ s.operations.flatMap Operation.heldNames := by
    simp only [List.mem_flatMap, Operation.mem_plainNames, and_or_left, exists_or]
  rw [plainNames, mem_firstUses, List.mem_filter, hplain, List.mem_append, List.mem_append,
    List.mem_append, hops, mem_plainNames_getD, readFields, heldNames, List.mem_append,
    List.mem_append, List.mem_append]
  refine and_congr_left fun _ => ?_
  simp only [or_assoc, or_comm, or_left_comm]

/-! ## Settled names -/

section Settled

variable (hm : ∀ r ∈ m.expr.fields, r.1 ≠ none)
include hm

/-- A name that is settled on an expression with sources is no longer read. -/
theorem Expr.mem_fields_settle_iff {e : Expr} :
    (none, n) ∈ (e.settle m).fields ↔ (none, n) ∈ e.fields ∧ n ≠ m.name := by
  rw [settle, fields_mapFields, List.mem_flatMap]
  constructor
  · rintro ⟨r, hr, h⟩
    by_cases hname : r = (none, m.name)
    · rw [hname, fieldsAt, Settling.field_name] at h
      exact absurd rfl (hm _ h)
    · rw [fieldsAt, Settling.field_of_ne hname] at h
      obtain rfl := List.mem_singleton.mp h
      refine ⟨hr, ?_⟩
      rintro rfl
      exact hname rfl
  · rintro ⟨hr, hne⟩
    refine ⟨_, hr, ?_⟩
    rw [fieldsAt, Settling.field_of_ne (fun h => hne (congrArg Prod.snd h))]
    exact List.mem_singleton_self _

theorem Expr.mem_getD_fields_settle_iff {e : Option Expr} :
    (none, n) ∈ ((e.map (Expr.settle m)).map Expr.fields).getD [] ↔
      (none, n) ∈ (e.map Expr.fields).getD [] ∧ n ≠ m.name := by
  cases e with
  | none => exact iff_of_false List.not_mem_nil fun h => List.not_mem_nil h.1
  | some e => exact mem_fields_settle_iff hm

/-- Settling a condition takes away the bare name it is about, and no other. -/
theorem Condition.mem_fields_settle_iff {c : Condition} :
    (none, n) ∈ (c.settle m).fields ↔ (none, n) ∈ c.fields ∧ n ≠ m.name := by
  rw [fields, fields, settle, exprs_mapExprs, List.flatMap_map, List.mem_flatMap, List.mem_flatMap]
  simp only [Expr.mem_fields_settle_iff hm]
  constructor
  · rintro ⟨e, he, h, hne⟩
    exact ⟨⟨e, he, h⟩, hne⟩
  · rintro ⟨⟨e, he, h⟩, hne⟩
    exact ⟨e, he, h, hne⟩

/-- Settling an operation takes away the bare name it is about, and no other. -/
theorem Operation.mem_readFields_settle {op : Operation} :
    (none, n) ∈ (op.settle m).readFields ↔ (none, n) ∈ op.readFields ∧ n ≠ m.name := by
  cases op with
  | aggregate f e a => exact Expr.mem_fields_settle_iff hm
  | calculate e a => exact Expr.mem_fields_settle_iff hm
  | window f e p o a => exact Expr.mem_getD_fields_settle_iff hm
  | select fields => exact iff_of_false List.not_mem_nil fun h => List.not_mem_nil h.1
  | join source c => exact iff_of_false List.not_mem_nil fun h => List.not_mem_nil h.1

/-- Settling a statement takes away the bare name it is about, and no other. -/
theorem Statement.mem_readFields_settle :
    (none, n) ∈ (s.settle m).readFields ↔ (none, n) ∈ s.readFields ∧ n ≠ m.name := by
  have hops : (none, n) ∈ (s.settle m).operations.flatMap Operation.readFields ↔
      (none, n) ∈ s.operations.flatMap Operation.readFields ∧ n ≠ m.name := by
    rw [operations_settle, List.flatMap_map, List.mem_flatMap, List.mem_flatMap]
    simp only [Operation.mem_readFields_settle hm]
    constructor
    · rintro ⟨op, hop, h, hne⟩
      exact ⟨⟨op, hop, h⟩, hne⟩
    · rintro ⟨⟨op, hop, h⟩, hne⟩
      exact ⟨op, hop, h, hne⟩
  have hfilter : (none, n) ∈ ((s.settle m).filter.map Condition.fields).getD [] ↔
      (none, n) ∈ (s.filter.map Condition.fields).getD [] ∧ n ≠ m.name := by
    rw [filter_settle]
    cases s.filter with
    | none => exact iff_of_false List.not_mem_nil fun h => List.not_mem_nil h.1
    | some c => exact Condition.mem_fields_settle_iff hm
  rw [readFields, readFields, List.mem_append, List.mem_append, hops, hfilter, or_and_right]

end Settled

/-- Settling rewrites the names an operation holds. -/
theorem Operation.heldNames_settle (op : Operation) :
    (op.settle m).heldNames = op.heldNames.map m.rename := by
  cases op with
  | window f e p o a =>
    show p.map m.rename ++ (o.map fun k => { k with field := m.rename k.field }).map _ = _
    rw [map_field_rename, ← List.map_append]
    rfl
  | _ => rfl

/-- Settling rewrites the names a statement holds. -/
theorem Statement.heldNames_settle (s : Statement) :
    (s.settle m).heldNames = s.heldNames.map m.rename := by
  have hops : (s.settle m).operations.flatMap Operation.heldNames =
      (s.operations.flatMap Operation.heldNames).map m.rename := by
    rw [operations_settle, List.flatMap_map, List.map_flatMap]
    simp only [Operation.heldNames_settle]
  have horder : (s.settle m).order.map OrderItem.field =
      (s.order.map OrderItem.field).map m.rename :=
    Operation.map_field_rename s.order
  rw [heldNames, heldNames, hops, group_settle, horder, List.map_append, List.map_append]

/-- A name for which a longer one is written is no longer held. -/
theorem Statement.mem_heldNames_settle (hw : ¬ IsPlain m.written) (hn : IsPlain n) :
    n ∈ (s.settle m).heldNames ↔ n ∈ s.heldNames ∧ n ≠ m.name := by
  rw [heldNames_settle, List.mem_map]
  constructor
  · rintro ⟨x, hx, rfl⟩
    by_cases hname : x = m.name
    · rw [hname, Settling.rename_name] at hn
      exact absurd hn hw
    · rw [Settling.rename_of_ne hname]
      exact ⟨hx, hname⟩
  · rintro ⟨h, hne⟩
    exact ⟨n, h, Settling.rename_of_ne hne⟩

/-! ## Choices -/

/-- What choices at sites change of a statement that reads and holds names: a name with a site is no
longer read, and no longer held if it is a column. -/
structure Resolves (sites : List Site) (s t : Statement) : Prop where
  aliases : t.aliases = s.aliases
  sources : t.sources = s.sources
  reads : ∀ n, (none, n) ∈ t.readFields ↔
    (none, n) ∈ s.readFields ∧ ∀ site ∈ sites, site.kind ≠ .temporal → n ≠ site.subject
  holds : ∀ n, IsPlain n → (n ∈ t.heldNames ↔
    n ∈ s.heldNames ∧ ∀ site ∈ sites, site.kind = .dimension → n ≠ site.subject)

namespace Resolves

/-- Nothing is resolved where there is no site. -/
theorem refl (s : Statement) : Resolves [] s s where
  aliases := rfl
  sources := rfl
  reads _ := (and_iff_left fun _ h => absurd h List.not_mem_nil).symm
  holds _ _ := (and_iff_left fun _ h => absurd h List.not_mem_nil).symm

/-- Resolving one site and then the others resolves them all. -/
theorem cons (h : Resolves [site] s t) (h' : Resolves sites t u) :
    Resolves (site :: sites) s u where
  aliases := h'.aliases.trans h.aliases
  sources := h'.sources.trans h.sources
  reads n := by
    rw [h'.reads, h.reads, List.forall_mem_singleton, List.forall_mem_cons, and_assoc]
  holds n hn := by
    rw [h'.holds n hn, h.holds n hn, List.forall_mem_singleton, List.forall_mem_cons, and_assoc]

end Resolves

/-- Realigning periods resolves a temporal site. -/
theorem resolves_realign (hk : site.kind = .temporal) (f : Period → Period) :
    Resolves [site] t (t.realign f) where
  aliases := rfl
  sources := rfl
  reads _ := by
    rw [List.forall_mem_singleton]
    exact (and_iff_left fun h => absurd hk h).symm
  holds _ _ := by
    rw [List.forall_mem_singleton, hk]
    exact (and_iff_left nofun).symm

/-- Naming the section resolves the site of a metric. -/
theorem resolves_metric (hk : site.kind = .metric) (sec metric : String) :
    Resolves [site] t (t.settle (.onMetric site.subject sec metric)) where
  aliases := t.aliases_settle
  sources := t.sources_settle
  reads n := by
    rw [Statement.mem_readFields_settle (fun _ h => absurd h List.not_mem_nil),
      List.forall_mem_singleton, hk]
    exact and_congr_right fun _ => ⟨fun hne _ => hne, fun hne => hne nofun⟩
  holds n _ := by
    rw [Statement.heldNames_settle, Settling.rename_onMetric, List.map_id,
      List.forall_mem_singleton, hk]
    exact (and_iff_left nofun).symm

/-- Naming the source resolves the site of a column. -/
theorem resolves_column (hk : site.kind = .dimension) (source : String)
    (hw : ¬ IsPlain meaning) : Resolves [site] t
      (t.settle ⟨site.subject, .field (some source) site.subject, meaning⟩) where
  aliases := t.aliases_settle
  sources := t.sources_settle
  reads n := by
    have hsourced : ∀ r ∈ (Expr.field (some source) site.subject).fields, r.1 ≠ none := by
      intro r hr
      obtain rfl := List.mem_singleton.mp hr
      exact Option.some_ne_none source
    rw [Statement.mem_readFields_settle hsourced, List.forall_mem_singleton, hk]
    exact and_congr_right fun _ => ⟨fun hne _ => hne, fun hne => hne nofun⟩
  holds n hn := by
    rw [Statement.mem_heldNames_settle hw hn, List.forall_mem_singleton]
    exact and_congr_right fun _ => ⟨fun hne _ => hne, fun hne => hne hk⟩

/-- A name with a source in front is not plain. -/
theorem not_isPlain_qualified (q n : String) : ¬ IsPlain (q ++ "." ++ n) := by
  intro h
  refine h ?_
  rw [String.toList_append, String.toList_append]
  exact List.mem_append_left _ (List.mem_append_right _ (List.mem_singleton_self _))

/-- A name with a source in front can be cut. -/
theorem exists_cutMeaning (q n : String) : ∃ x y, cutMeaning (q ++ "." ++ n) = some (x, y) := by
  rw [cutMeaning]
  split
  · next hnil =>
    have hplain : IsPlain (q ++ "." ++ n) := fun h =>
      absurd (List.dropWhile_eq_nil_iff.mp hnil _ h) (by decide)
    exact absurd hplain (not_isPlain_qualified q n)
  · exact ⟨_, _, rfl⟩

/-- **Choosing a meaning at a detected site resolves the site.** -/
theorem resolves_choose (h : site ∈ detect text s d) (hm : meaning ∈ site.meanings)
    (t : Statement) : Resolves [site] t (site.choose meaning t) := by
  rcases mem_detect.mp h with ⟨p, -, hp⟩ | ⟨n, -, hsite⟩
  · obtain ⟨offset, rfl⟩ := Site.eq_of_ofPeriod? hp
    exact resolves_realign rfl _
  · rcases Site.eq_of_ofName? hsite with ⟨-, rfl⟩ | ⟨-, rfl⟩
    · obtain ⟨e, -, rfl⟩ := List.mem_map.mp (List.mem_mergeSort.mp hm)
      obtain ⟨sec, metric, hcut⟩ := exists_cutMeaning e.sectionName e.name
      rw [Entry.id, choose_metric rfl hcut]
      exact resolves_metric rfl sec metric
    · obtain ⟨source, -, rfl⟩ := List.mem_map.mp (NameSet.mem_ofList.mp hm)
      obtain ⟨q, column, hcut⟩ := exists_cutMeaning source n
      rw [choose_dimension rfl hcut]
      exact resolves_column rfl q (not_isPlain_qualified source n)

/-! ## Readings -/

/-- A relation between statements holds of a reading if it holds of each choice at a site and is
kept by choices one after another. -/
theorem relates_of_mem_disambiguate {R : List Site → Statement → Statement → Prop}
    (refl : ∀ t, R [] t t)
    (cons : ∀ {site sites t u v}, R [site] t u → R sites u v → R (site :: sites) t v)
    (choose : ∀ site ∈ detect text s d, ∀ meaning ∈ site.meanings, ∀ t,
      R [site] t (site.choose meaning t))
    (h : c ∈ disambiguate text s d) : R (detect text s d) s c.statement := by
  have hfold : ∀ (cs : List (Site × String)),
      (∀ c ∈ cs, c.1 ∈ detect text s d ∧ c.2 ∈ c.1.meanings) →
      ∀ t, R (cs.map Prod.fst) t (cs.foldl (fun t c => c.1.choose c.2 t) t) := by
    intro cs
    induction cs with
    | nil => exact fun _ => refl
    | cons x cs ih =>
      intro hopen t
      rw [List.forall_mem_cons] at hopen
      exact cons (choose x.1 hopen.1.1 x.2 hopen.1.2 t) (ih hopen.2 _)
  obtain ⟨choice, hchoice, rfl⟩ := List.mem_map.mp h
  have hlen : (detect text s d).length ≤ choice.length := by
    rw [choices_eq_take] at hchoice
    exact (length_of_mem_take_product hchoice).ge
  have hmeanings := mem_meanings_of_mem_choices hchoice
  have hreading := hfold ((detect text s d).zip choice)
    (fun p hp => ⟨(List.of_mem_zip hp).1, hmeanings p hp⟩) s
  rw [List.map_fst_zip hlen] at hreading
  exact hreading

/-- **A reading resolves all sites.** -/
theorem resolves_of_mem_disambiguate (h : c ∈ disambiguate text s d) :
    Resolves (detect text s d) s c.statement :=
  relates_of_mem_disambiguate Resolves.refl Resolves.cons
    (fun _ hsite _ hm t => resolves_choose hsite hm t) h

/-- What is open at a name depends on the sources of a statement only. -/
theorem Site.ofName?_congr (h : t.sources = s.sources) :
    Site.ofName? text t d n = Site.ofName? text s d n := by
  rw [Site.ofName?, Site.ofName?, Site.owners, Site.owners, h]

/-- A site is detected at each plain name where something is open. -/
theorem mem_detect_of_ofName? (hn : n ∈ s.plainNames)
    (h : Site.ofName? text s d n = some site) : site ∈ detect text s d :=
  mem_detect.mpr (Or.inr ⟨n, hn, h⟩)

/-- A site of a name in a reading is a metric that the statement holds as text. -/
theorem metric_of_mem_detect_reading (hc : c ∈ disambiguate text s d)
    (h : site ∈ detect text c.statement d) (hk : site.kind ≠ .temporal) :
    site ∈ detect text s d ∧ site.kind = .metric ∧ site.subject ∈ s.heldNames := by
  have hres := resolves_of_mem_disambiguate hc
  obtain ⟨hname, hsite⟩ := ofName?_of_mem_detect h hk
  rw [Site.ofName?_congr hres.sources] at hsite
  obtain ⟨hstands, hplain, halias⟩ := Statement.mem_plainNames.mp hname
  rw [hres.aliases] at halias
  rcases hstands with hread | hheld
  · -- a name that was read would have been taken out
    obtain ⟨hread, hne⟩ := (hres.reads _).mp hread
    have hmem := Statement.mem_plainNames.mpr ⟨Or.inl hread, hplain, halias⟩
    exact absurd rfl (hne site (mem_detect_of_ofName? hmem hsite) hk)
  · obtain ⟨hheld, hne⟩ := (hres.holds _ hplain).mp hheld
    have hmem := Statement.mem_plainNames.mpr ⟨Or.inr hheld, hplain, halias⟩
    have hdetect := mem_detect_of_ofName? hmem hsite
    refine ⟨hdetect, ?_, hheld⟩
    rcases Site.eq_of_ofName? hsite with ⟨-, hmetric⟩ | ⟨-, hcolumn⟩
    · rw [hmetric]
    · exact absurd rfl (hne site hdetect (by rw [hcolumn]))

/-- A metric that the statement holds as text is as open in every reading. -/
theorem mem_detect_reading_of_held (hc : c ∈ disambiguate text s d)
    (h : site ∈ detect text s d) (hk : site.kind = .metric) (hheld : site.subject ∈ s.heldNames) :
    site ∈ detect text c.statement d := by
  have hres := resolves_of_mem_disambiguate hc
  have hnt : site.kind ≠ .temporal := by
    rw [hk]
    nofun
  obtain ⟨hname, hsite⟩ := ofName?_of_mem_detect h hnt
  obtain ⟨-, hplain, halias⟩ := Statement.mem_plainNames.mp hname
  have hstill : site.subject ∈ c.statement.heldNames := by
    refine (hres.holds _ hplain).mpr ⟨hheld, fun other hother hcolumn hsubject => ?_⟩
    -- the name has one site only
    obtain ⟨-, hsame⟩ := ofName?_of_mem_detect hother (by rw [hcolumn]; nofun)
    rw [← hsubject, hsite] at hsame
    obtain rfl := Option.some.inj hsame
    rw [hk] at hcolumn
    cases hcolumn
  rw [← hres.aliases] at halias
  rw [← Site.ofName?_congr hres.sources] at hsite
  exact mem_detect_of_ofName? (Statement.mem_plainNames.mpr ⟨Or.inr hstill, hplain, halias⟩) hsite

/-- **The sites of names in a reading are the metrics that the statement holds as text.** All other
metrics and all columns are settled. -/
theorem mem_detect_reading_iff (hc : c ∈ disambiguate text s d) (hk : site.kind ≠ .temporal) :
    site ∈ detect text c.statement d ↔
      site ∈ detect text s d ∧ site.kind = .metric ∧ site.subject ∈ s.heldNames :=
  ⟨fun h => metric_of_mem_detect_reading hc h hk,
    fun ⟨h, hmetric, hheld⟩ => mem_detect_reading_of_held hc h hmetric hheld⟩

/-- A metric with a template for queries. -/
def revenueOf (sectionName template : String) : Entry :=
  ⟨sectionName, "revenue", { category := .metric, templates := { sql := some ⟨template⟩ } }⟩

/-- Two sections that define a revenue, each in its own way. -/
def revenues : Snapshot :=
  (Snapshot.empty.put (revenueOf "finance" "SUM(net)")).put (revenueOf "sales" "SUM(gross)")

theorem reachable_revenues : revenues.Reachable := by
  refine (Snapshot.Reachable.empty.put ?_).put ?_ <;>
  decide +kernel

/-- A statement that reads either revenue. -/
def doubledRevenue : List Char :=
  "transform S to T as revenue * 2 as doubled".toList

/-- Its reading settles the revenue. -/
theorem mem_detect_reading_iff_doubledRevenue :
    ∃ s c site, Statement.parse doubledRevenue = .ok s ∧
      c ∈ disambiguate doubledRevenue s revenues ∧ site.kind ≠ .temporal ∧
      site ∈ detect doubledRevenue s revenues ∧
      site ∉ detect doubledRevenue c.statement revenues := by
  obtain ⟨s, hs, h⟩ := exists_parse doubledRevenue rfl
    (fun text s => decide ("revenue" ∈ s.plainNames ∧ s.heldNames = [] ∧
      (Site.ofName? text s revenues "revenue").map Site.kind = some .metric))
    (by decide +kernel)
  obtain ⟨hname, hheld, hkind⟩ := of_decide_eq_true h
  obtain ⟨site, hsite, hkind⟩ := Option.map_eq_some_iff.mp hkind
  obtain ⟨c, hc⟩ : ∃ c, c ∈ disambiguate doubledRevenue s revenues := exists_mem_disambiguate
  have hnt : site.kind ≠ .temporal := by
    rw [hkind]
    nofun
  refine ⟨s, c, site, hs, hc, hnt, mem_detect_of_ofName? hname hsite, fun hmem => ?_⟩
  have hsubject := ((mem_detect_reading_iff hc hnt).mp hmem).2.2
  rw [hheld] at hsubject
  exact List.not_mem_nil hsubject

/-- A statement that groups by either revenue. -/
def groupedByRevenue : List Char :=
  "transform S to T as count(*) as n grouped by revenue".toList

/-- The revenue is still open in a reading. -/
theorem mem_detect_reading_groupedByRevenue :
    ∃ s c site, Statement.parse groupedByRevenue = .ok s ∧ revenues.Reachable ∧
      c ∈ disambiguate groupedByRevenue s revenues ∧
      site ∈ detect groupedByRevenue c.statement revenues ∧ site.kind = .metric := by
  obtain ⟨s, hs, h⟩ := exists_parse groupedByRevenue rfl
    (fun text s => decide ("revenue" ∈ s.plainNames ∧ "revenue" ∈ s.heldNames ∧
      (Site.ofName? text s revenues "revenue").map Site.kind = some .metric))
    (by decide +kernel)
  obtain ⟨hname, hheld, hkind⟩ := of_decide_eq_true h
  obtain ⟨site, hsite, hkind⟩ := Option.map_eq_some_iff.mp hkind
  obtain ⟨c, hc⟩ : ∃ c, c ∈ disambiguate groupedByRevenue s revenues := exists_mem_disambiguate
  rw [← Site.subject_of_ofName? hsite] at hheld
  have hdetect := mem_detect_of_ofName? hname hsite
  exact ⟨s, c, site, hs, reachable_revenues, hc,
    mem_detect_reading_of_held hc hdetect hkind hheld, hkind⟩

end DataPhrase
