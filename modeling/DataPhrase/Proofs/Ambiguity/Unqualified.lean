/-
# Columns that stay without source

A statement can name a column without its source, and where several of its sources have the column
a reading is to say which one is meant. Without metrics in the dictionary the readings do so for
every name that stands in an expression or is held as text. What they leave as it is are the names
that only the conditions of joins mention, and the field of the period.
-/
import DataPhrase.Proofs.Ambiguity.Canonical
import DataPhrase.Proofs.Ambiguity.Joins
import DataPhrase.Proofs.Ambiguity.Resolved

namespace DataPhrase

variable {text : List Char} {s t u : Statement} {d : Snapshot} {site : Site} {sites : List Site}
  {n meaning : String} {c : Candidate}

/-! ## Names without source -/

namespace Statement

/-- The fields in the conditions of joins. -/
def joinFields (s : Statement) : List FieldRef :=
  s.joinConditions.flatMap Condition.fields

/-- The statement reads the name, and no source is written with it: in an expression, as a name that
is held as text, in the condition of a join, or as the field of its period. -/
def ReadsPlain (s : Statement) (n : String) : Prop :=
  IsPlain n ∧ ((none, n) ∈ s.readFields ∨ n ∈ s.heldNames ∨ (none, n) ∈ s.joinFields ∨
    s.period.map Period.field = some n)

theorem mem_joinFields_settle {m : Settling} (hm : ∀ r ∈ m.expr.fields, r.1 ≠ none) :
    (none, n) ∈ (s.settle m).joinFields ↔ (none, n) ∈ s.joinFields ∧ n ≠ m.name := by
  rw [joinFields, joinFields, joinConditions_settle, List.flatMap_map, List.mem_flatMap,
    List.mem_flatMap]
  simp only [Condition.mem_fields_settle_iff hm]
  constructor
  · rintro ⟨c, hc, h, hne⟩
    exact ⟨⟨c, hc, h⟩, hne⟩
  · rintro ⟨⟨c, hc, h⟩, hne⟩
    exact ⟨c, hc, h, hne⟩

end Statement

/-! ## Choices -/

/-- A choice at a site realigns the period, or it settles the name of the site on what has a
source. -/
theorem choose_cases (h : site ∈ detect text s d) (hm : meaning ∈ site.meanings) (t : Statement) :
    (site.kind = .temporal ∧ ∃ f : Period → Period, (∀ p, (f p).field = p.field) ∧
      site.choose meaning t = t.realign f) ∨
    (site.kind ≠ .temporal ∧ ∃ m : Settling, m.name = site.subject ∧
      (∀ r ∈ m.expr.fields, r.1 ≠ none) ∧ site.choose meaning t = t.settle m) := by
  rcases mem_detect.mp h with ⟨p, -, hp⟩ | ⟨n, -, hsite⟩
  · obtain ⟨offset, rfl⟩ := Site.eq_of_ofPeriod? hp
    let f (p : Period) : Period :=
      { p with alignment := if meaning = Alignment.rolling.name then .rolling else .calendar }
    exact Or.inl ⟨rfl, f, fun _ => rfl, rfl⟩
  · refine Or.inr ⟨Site.kind_of_ofName? hsite, ?_⟩
    rcases Site.eq_of_ofName? hsite with ⟨-, rfl⟩ | ⟨-, rfl⟩
    · obtain ⟨e, -, rfl⟩ := List.mem_map.mp (List.mem_mergeSort.mp hm)
      obtain ⟨sec, metric, hcut⟩ := exists_cutMeaning e.sectionName e.name
      rw [Entry.id, choose_metric rfl hcut]
      exact ⟨_, rfl, fun _ hr => absurd hr List.not_mem_nil, rfl⟩
    · obtain ⟨source, -, rfl⟩ := List.mem_map.mp (NameSet.mem_ofList.mp hm)
      obtain ⟨q, column, hcut⟩ := exists_cutMeaning source n
      rw [choose_dimension rfl hcut]
      refine ⟨_, rfl, fun r hr => ?_, rfl⟩
      obtain rfl := List.mem_singleton.mp hr
      exact Option.some_ne_none q

/-- What choices at sites change of the names in the conditions of joins, and that they keep the
field of the period. -/
structure ResolvesJoins (sites : List Site) (s t : Statement) : Prop where
  joins : ∀ n, (none, n) ∈ t.joinFields ↔
    (none, n) ∈ s.joinFields ∧ ∀ site ∈ sites, site.kind ≠ .temporal → n ≠ site.subject
  period : t.period.map Period.field = s.period.map Period.field

namespace ResolvesJoins

theorem refl (s : Statement) : ResolvesJoins [] s s where
  joins _ := (and_iff_left fun _ h => absurd h List.not_mem_nil).symm
  period := rfl

theorem cons (h : ResolvesJoins [site] s t) (h' : ResolvesJoins sites t u) :
    ResolvesJoins (site :: sites) s u where
  joins n := by
    rw [h'.joins, h.joins, List.forall_mem_singleton, List.forall_mem_cons, and_assoc]
  period := h'.period.trans h.period

end ResolvesJoins

theorem resolvesJoins_choose (h : site ∈ detect text s d) (hm : meaning ∈ site.meanings)
    (t : Statement) : ResolvesJoins [site] t (site.choose meaning t) := by
  rcases choose_cases h hm t with ⟨hk, f, hf, ht⟩ | ⟨hk, m, hname, hsourced, ht⟩
  · rw [ht]
    refine ⟨fun n => ?_, ?_⟩
    · rw [List.forall_mem_singleton]
      exact (and_iff_left fun h => absurd hk h).symm
    · rw [Statement.realign, Option.map_map]
      exact congrArg (fun g => t.period.map g) (funext hf)
  · rw [ht]
    refine ⟨fun n => ?_, rfl⟩
    rw [Statement.mem_joinFields_settle hsourced, List.forall_mem_singleton, hname]
    exact and_congr_right fun _ => ⟨fun hne _ => hne, fun hne => hne hk⟩

theorem resolvesJoins_of_mem_disambiguate (hc : c ∈ disambiguate text s d) :
    ResolvesJoins (detect text s d) s c.statement :=
  relates_of_mem_disambiguate ResolvesJoins.refl ResolvesJoins.cons
    (fun _ hsite _ hm t => resolvesJoins_choose hsite hm t) hc

/-! ## Shared columns -/

section Shared

variable (hm : ∀ e ∈ d.entries, e.definition.category ≠ .metric)
include hm

theorem metrics_eq_nil (n : String) : d.metrics n = [] := by
  rw [Snapshot.metrics, Snapshot.named, List.filter_eq_nil_iff]
  intro e he hmetric
  rw [Bool.and_eq_true, beq_iff_eq] at hmetric
  exact hm e he hmetric.1

/-- A name that is no alias has a site where it is a column of several sources and a choice can be
made for it. -/
theorem exists_site_of_shares (hplain : IsPlain n) (halias : n ∉ s.aliases) (hs : s.Shares d n)
    (hstands : (none, n) ∈ s.readFields ∨ n ∈ s.heldNames) :
    ∃ site ∈ detect text s d, site.kind = .dimension ∧ n = site.subject := by
  have howners : 2 ≤ (Site.owners s d n).length := by
    have hnodup : (NameSet.ofList (Site.owners s d n)).Nodup :=
      (NameSet.pairwise_ofList _).imp ne_of_lt
    have hsub := List.subperm_of_subset hnodup fun _ hx => NameSet.mem_ofList.mp hx
    exact (two_le_length_owners.mpr hs).trans hsub.length_le
  have hsite : Site.ofName? text s d n =
      some ⟨.dimension, n, locate text n.toList, NameSet.ofList (Site.owners s d n)⟩ := by
    rw [Site.ofName?, metrics_eq_nil hm, if_neg (by exact Bool.false_ne_true), if_pos howners]
  exact ⟨_, mem_detect_of_ofName? (Statement.mem_plainNames.mpr ⟨hstands, hplain, halias⟩) hsite,
    rfl, rfl⟩

/-- **Which columns of several sources a reading still names without source**: those that only joins
mention, and the field of the period. -/
theorem readsPlain_shared_iff (hc : c ∈ disambiguate text s d) :
    (c.statement.ReadsPlain n ∧ n ∉ c.statement.aliases ∧ c.statement.Shares d n) ↔
      IsPlain n ∧ n ∉ s.aliases ∧ s.Shares d n ∧
        (s.period.map Period.field = some n ∨
          (none, n) ∈ s.joinFields ∧ (none, n) ∉ s.readFields ∧ n ∉ s.heldNames) := by
  have hres := resolves_of_mem_disambiguate hc
  have hjoins := resolvesJoins_of_mem_disambiguate hc
  have hshares : c.statement.Shares d n ↔ s.Shares d n := by
    rw [Statement.Shares, Statement.Shares, hres.sources]
  rw [hres.aliases, hshares, Statement.ReadsPlain, hjoins.period]
  constructor
  · rintro ⟨⟨hplain, hreads⟩, halias, hs⟩
    refine ⟨hplain, halias, hs, ?_⟩
    have hsite : (none, n) ∈ s.readFields ∨ n ∈ s.heldNames →
        ∃ site ∈ detect text s d, site.kind = .dimension ∧ n = site.subject :=
      exists_site_of_shares hm hplain halias hs
    rcases hreads with hread | hheld | hjoin | hperiod
    · obtain ⟨hread, hne⟩ := (hres.reads n).mp hread
      obtain ⟨site, hmem, hk, hn⟩ := hsite (Or.inl hread)
      exact absurd hn (hne site hmem (by rw [hk]; decide))
    · obtain ⟨hheld, hne⟩ := (hres.holds n hplain).mp hheld
      obtain ⟨site, hmem, hk, hn⟩ := hsite (Or.inr hheld)
      exact absurd hn (hne site hmem hk)
    · obtain ⟨hjoin, hne⟩ := (hjoins.joins n).mp hjoin
      right
      rw [← not_or]
      refine ⟨hjoin, fun hstands => ?_⟩
      obtain ⟨site, hmem, hk, hn⟩ := hsite hstands
      exact absurd hn (hne site hmem (by rw [hk]; decide))
    · exact Or.inl hperiod
  · rintro ⟨hplain, halias, hs, hperiod | ⟨hjoin, hread, hheld⟩⟩
    · exact ⟨⟨hplain, Or.inr (Or.inr (Or.inr hperiod))⟩, halias, hs⟩
    · refine ⟨⟨hplain, Or.inr (Or.inr (Or.inl ((hjoins.joins n).mpr ⟨hjoin, ?_⟩)))⟩, halias, hs⟩
      rintro site hmem hk rfl
      rcases (Statement.mem_plainNames.mp (ofName?_of_mem_detect hmem hk).1).1 with h | h
      · exact hread h
      · exact hheld h

end Shared

/-- No metric is registered for the regions. -/
theorem category_regions : ∀ e ∈ regions.entries, e.definition.category ≠ .metric := by
  decide +kernel

/-- In a reading of the question about the region of either source no region stands alone. -/
theorem readsPlain_shared_iff_regionQuestion :
    ∃ s c, Statement.parse regionQuestion = .ok s ∧ c ∈ disambiguate regionQuestion s regions ∧
      (∀ e ∈ regions.entries, e.definition.category ≠ .metric) ∧
      s.ReadsPlain "region" ∧ ¬ c.statement.ReadsPlain "region" := by
  obtain ⟨s, hs, h⟩ := exists_parse regionQuestion
    (congrArg String.toList String.ofList_append.symm)
    (fun _ s => decide (s.period = none ∧ "region" ∈ s.heldNames ∧ s.aliases = ["n"] ∧
      s.sources = ["orders", "customers"]))
    (by decide +kernel)
  obtain ⟨hperiod, hheld, haliases, hsources⟩ := of_decide_eq_true h
  obtain ⟨c, hc⟩ : ∃ c, c ∈ disambiguate regionQuestion s regions := exists_mem_disambiguate
  have hplain : IsPlain "region" := by decide
  have hres := resolves_of_mem_disambiguate hc
  refine ⟨s, c, hs, hc, category_regions, ⟨hplain, Or.inr (Or.inl hheld)⟩, fun hreads => ?_⟩
  have halias : "region" ∉ c.statement.aliases := by
    rw [hres.aliases, haliases]
    decide
  have hshared : c.statement.Shares regions "region" := by
    rw [Statement.Shares, hres.sources, hsources]
    exact ⟨"orders", by decide, "customers", by decide, by decide, by decide +kernel,
      by decide +kernel⟩
  obtain ⟨-, -, -, hp | ⟨-, -, hno⟩⟩ :=
    (readsPlain_shared_iff category_regions hc).mp ⟨hreads, halias, hshared⟩
  · rw [hperiod] at hp
    cases hp
  · exact hno hheld

/-- Two sources with a date. -/
def dates : Snapshot :=
  (Snapshot.empty.put ⟨"orders", "date", { category := .column }⟩).put
    ⟨"customers", "date", { category := .column }⟩

/-- A question about the last days of two sources. -/
def datedQuestion : List Char :=
  ("show count() as n from orders joined with customers on orders.cid = customers.id " ++
    "over past 7 days").toList

/-- In a reading of the question the date of the period is the date of either source. -/
theorem readsPlain_shared_datedQuestion :
    ∃ s c, Statement.parse datedQuestion = .ok s ∧ dates.Reachable ∧
      (∀ e ∈ dates.entries, e.definition.category ≠ .metric) ∧
      c ∈ disambiguate datedQuestion s dates ∧ c.statement.ReadsPlain "date" ∧
      "date" ∉ c.statement.aliases ∧ c.statement.Shares dates "date" := by
  obtain ⟨s, hs, h⟩ := exists_parse datedQuestion
    (congrArg String.toList String.ofList_append.symm)
    (fun _ s => decide (s.period.map Period.field = some "date" ∧ s.aliases = ["n"] ∧
      s.sources = ["orders", "customers"]))
    (by decide +kernel)
  obtain ⟨hperiod, haliases, hsources⟩ := of_decide_eq_true h
  obtain ⟨c, hc⟩ : ∃ c, c ∈ disambiguate datedQuestion s dates := exists_mem_disambiguate
  have hres := resolves_of_mem_disambiguate hc
  refine ⟨s, c, hs, (Snapshot.Reachable.empty.put rfl).put rfl, by decide +kernel, hc,
    ⟨by decide, Or.inr (Or.inr (Or.inr ?_))⟩, ?_, ?_⟩
  · rw [(resolvesJoins_of_mem_disambiguate hc).period]
    exact hperiod
  · rw [hres.aliases, haliases]
    decide
  · rw [Statement.Shares, hres.sources, hsources]
    exact ⟨"orders", by decide, "customers", by decide, by decide, by decide +kernel,
      by decide +kernel⟩

end DataPhrase
