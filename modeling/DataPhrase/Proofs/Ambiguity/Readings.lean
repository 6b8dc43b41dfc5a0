/-
# Readings of valid statements

A reading settles every site of a statement on one of its meanings. A meaning names a metric, or a
registered column of one of the sources, so each site is settled soundly.
-/
import DataPhrase.Engine
import DataPhrase.Proofs.Ambiguity.Passes
import DataPhrase.Proofs.Dictionary.Reachable
import DataPhrase.Proofs.Statement.Raw

namespace DataPhrase

variable {text : List Char} {s t : Statement} {d : Snapshot} {site : Site} {n : String}

/-! ## Names that are settled -/

/-- Every name is listed at its first use. -/
theorem mem_firstUses {names : List String} : n ∈ firstUses names ↔ n ∈ names := by
  have hfold : ∀ (l kept : List String),
      n ∈ l.foldl (fun kept n => if kept.contains n then kept else kept ++ [n]) kept ↔
        n ∈ kept ∨ n ∈ l := by
    intro l
    induction l with
    | nil => simp
    | cons x l ih =>
      intro kept
      rw [List.foldl_cons, ih, List.mem_cons, ← or_assoc]
      split
      · next hx =>
        have hmem : x ∈ kept := List.contains_iff_mem.mp hx
        constructor
        · rintro (h | h)
          · exact Or.inl (Or.inl h)
          · exact Or.inr h
        · rintro ((h | rfl) | h)
          · exact Or.inl h
          · exact Or.inl hmem
          · exact Or.inr h
      · rw [List.mem_append, List.mem_singleton]
  simpa [firstUses] using hfold names []

/-- A name that is settled is plain and no alias. -/
theorem Statement.plain_of_mem_plainNames (h : n ∈ s.plainNames) : IsPlain n ∧ n ∉ s.aliases := by
  have hf := (List.mem_filter.mp (mem_firstUses.mp h)).2
  rw [Bool.and_eq_true, Bool.not_eq_true', Bool.not_eq_true'] at hf
  constructor
  · intro hd
    rw [List.contains_iff_mem.mpr hd] at hf
    cases hf.1
  · intro ha
    rw [List.contains_iff_mem.mpr ha] at hf
    cases hf.2

/-! ## Meanings -/

/-- A meaning is cut behind its plain section or source. -/
theorem cutMeaning_of_isPlain {q : String} (h : IsPlain q) :
    cutMeaning (q ++ "." ++ n) = some (q, n) := by
  obtain ⟨h1, h2⟩ := cut_of_isPlain (n := n) h
  unfold cutMeaning
  rw [h1, h2]
  simp only [String.ofList_toList]

/-- A metric takes the place of a field. -/
def Settling.onMetric (n : String) (sec : String) (metric : String) : Settling :=
  ⟨n, .metric sec metric, n⟩

/-- A column with its source takes the place of a field. -/
def Settling.onColumn (n : String) (source : String) : Settling :=
  ⟨n, .field (some source) n, source ++ "." ++ n⟩

theorem Settling.sound_onMetric (hn : IsPlain n) (sec metric : String) :
    (Settling.onMetric n sec metric).Sound d := by
  refine ⟨hn, rfl, ?_, Or.inl rfl⟩
  intro r hr
  cases hr

theorem Settling.sound_onColumn (hn : IsPlain n) {source : String} (hs : IsPlain source)
    (hc : d.hasColumn source n = true) : (Settling.onColumn n source).Sound d := by
  refine ⟨hn, rfl, ?_, Or.inr ⟨source, rfl, hs, hc⟩⟩
  intro r hr
  obtain rfl := List.mem_singleton.mp hr
  exact ⟨source, rfl, hs, hc⟩

/-- What a choice at a site does to a statement that is checked against `d` and has the given
aliases: it changes the alignment of its period, or soundly settles a name that is no alias. -/
inductive Changes (d : Snapshot) (aliases : List String) : Statement → Statement → Prop
  | realign {s : Statement} (f : Period → Period) (hf : ∀ p, (f p).field = p.field) :
      Changes d aliases s (s.realign f)
  | settle {s : Statement} {m : Settling} (hm : m.Sound d) (hn : m.name ∉ aliases) :
      Changes d aliases s (s.settle m)

/-- A change leaves the aliases as they are. -/
theorem Changes.aliases_eq {aliases : List String} (h : Changes d aliases s t) :
    t.aliases = s.aliases := by
  cases h with
  | realign f hf => rfl
  | settle hm hn => exact s.aliases_settle

/-- A change keeps a statement valid. -/
theorem Changes.passes {aliases : List String} (h : Changes d aliases s t)
    (ha : s.aliases = aliases) (hplain : ∀ a ∈ aliases, IsPlain a) (hs : Check.Passes s d) :
    Check.Passes t d := by
  cases h with
  | realign f hf => exact hs.realign hf
  | settle hm hn =>
    refine hs.settle hm ?_
    rw [ha]
    intro a hmem
    refine ⟨hplain a hmem, ?_⟩
    rintro rfl
    exact hn hmem

/-! ## Choices -/

theorem Operation.mapWritten_id (op : Operation) : op.mapWritten id = op := by
  cases op with
  | window f e p o a => simp only [mapWritten, List.map_id, id, List.map_id']
  | select fields => simp only [mapWritten, List.map_id]
  | _ => rfl

theorem Statement.mapWritten_id (s : Statement) : s.mapWritten id = s := by
  have hops : s.operations.map (Operation.mapWritten id) = s.operations := by
    rw [show Operation.mapWritten id = id from funext Operation.mapWritten_id, List.map_id]
  have hgroup : s.group.map (List.map id) = s.group := by
    rw [List.map_id_fun, Option.map_id]
    rfl
  have horder : (s.order.map fun k => { k with field := id k.field }) = s.order :=
    List.map_id s.order
  rw [mapWritten, hops, hgroup, horder]

theorem Settling.rename_onMetric (sec metric : String) :
    (Settling.onMetric n sec metric).rename = id := by
  funext x
  by_cases hx : x = n
  · rw [hx]
    exact rename_name
  · exact rename_of_ne hx

theorem choose_metric {meaning sec metric : String} (hk : site.kind = .metric)
    (hc : cutMeaning meaning = some (sec, metric)) (t : Statement) :
    site.choose meaning t = t.settle (.onMetric site.subject sec metric) := by
  rw [Statement.settle, Settling.rename_onMetric, Statement.mapWritten_id, Site.choose, hk, hc]
  rfl

theorem choose_dimension {meaning source column : String} (hk : site.kind = .dimension)
    (hc : cutMeaning meaning = some (source, column)) (t : Statement) : site.choose meaning t =
      t.settle ⟨site.subject, .field (some source) site.subject, meaning⟩ := by
  rw [Site.choose, hk, hc]
  rfl

/-- What is known of a name whose site is detected. -/
theorem changes_of_ofName? (hd : d.Reachable) (hp : IsPlain n) (hn : n ∉ s.aliases)
    (h : Site.ofName? text s d n = some site) {meaning : String} (hm : meaning ∈ site.meanings)
    (t : Statement) : Changes d s.aliases t (site.choose meaning t) := by
  rw [Site.ofName?] at h
  split at h
  · cases h
    obtain ⟨e, he, rfl⟩ := List.mem_map.mp (List.mem_mergeSort.mp hm)
    have hsec := (hd.isPlain (List.mem_filter.mp he).1).1
    rw [Entry.id, choose_metric rfl (cutMeaning_of_isPlain hsec)]
    exact .settle (Settling.sound_onMetric hp _ _) hn
  · split at h
    · cases h
      obtain ⟨source, hsource, rfl⟩ := List.mem_map.mp (NameSet.mem_ofList.mp hm)
      have hc := (List.mem_filter.mp hsource).2
      have hplain := hd.isPlain_of_hasColumn hc
      rw [choose_dimension rfl (cutMeaning_of_isPlain hplain)]
      exact .settle (Settling.sound_onColumn hp hplain hc) hn
    · cases h

/-- Choosing a meaning at a detected site is a change. -/
theorem changes_of_detect (hd : d.Reachable) (h : site ∈ detect text s d) {meaning : String}
    (hm : meaning ∈ site.meanings) (t : Statement) :
    Changes d s.aliases t (site.choose meaning t) := by
  rw [detect, List.mem_mergeSort, List.mem_append] at h
  rcases h with h | h
  · obtain ⟨p, -, hp⟩ := Option.bind_eq_some_iff.mp (Option.mem_toList.mp h)
    rw [Site.ofPeriod?] at hp
    split at hp
    · obtain ⟨offset, -, rfl⟩ := Option.map_eq_some_iff.mp hp
      exact .realign _ fun _ => rfl
    · cases hp
  · obtain ⟨n, hn, hsite⟩ := List.mem_filterMap.mp h
    obtain ⟨hplain, hna⟩ := Statement.plain_of_mem_plainNames hn
    exact changes_of_ofName? hd hplain hna hsite hm t

/-- What is picked at positions is a member of its list at every place. -/
theorem mem_meanings_of_picks {sites : List Site} {positions : List Nat} {choice : List String}
    (h : picks (sites.map Site.meanings) positions = some choice) :
    ∀ c ∈ sites.zip choice, c.2 ∈ c.1.meanings := by
  induction sites generalizing positions choice with
  | nil =>
    intro c hc
    cases hc
  | cons site sites ih =>
    cases positions with
    | nil => cases h
    | cons position positions =>
      obtain ⟨meaning, hm, h⟩ := Option.bind_eq_some_iff.mp h
      obtain ⟨rest, hrest, rfl⟩ := Option.map_eq_some_iff.mp h
      rw [List.zip_cons_cons, List.forall_mem_cons]
      exact ⟨List.mem_of_getElem? hm, ih hrest⟩

/-- A choice has a meaning of its site at every place. -/
theorem mem_meanings_of_mem_choices {k : Nat} {sites : List Site} {choice : List String}
    (h : choice ∈ choices k sites) : ∀ c ∈ sites.zip choice, c.2 ∈ c.1.meanings := by
  obtain ⟨_, -, hpicks⟩ := List.mem_filterMap.mp h
  exact mem_meanings_of_picks hpicks

/-- A statement stays valid, and keeps its aliases, under any number of changes. -/
theorem passes_foldl_choose {cs : List (Site × String)} {aliases : List String}
    (hc : ∀ c ∈ cs, ∀ t, Changes d aliases t (c.1.choose c.2 t))
    (hplain : ∀ a ∈ aliases, IsPlain a) (ha : t.aliases = aliases) (ht : Check.Passes t d) :
    Check.Passes (cs.foldl (fun t c => c.1.choose c.2 t) t) d := by
  induction cs generalizing t with
  | nil => exact ht
  | cons c cs ih =>
    rw [List.forall_mem_cons] at hc
    have hchange := hc.1 t
    rw [List.foldl_cons]
    exact ih hc.2 (hchange.aliases_eq.trans ha) (hchange.passes ha hplain ht)

/-- The readings of a statement with plain aliases that passes the checks pass them as well. -/
theorem Check.Passes.disambiguate (hd : d.Reachable) (hplain : ∀ a ∈ s.aliases, IsPlain a)
    (h : Passes s d) : ∀ c ∈ disambiguate text s d, Passes c.statement d := by
  intro c hc
  rw [DataPhrase.disambiguate] at hc
  obtain ⟨choice, hchoice, rfl⟩ := List.mem_map.mp hc
  have hmeanings := mem_meanings_of_mem_choices hchoice
  have hchanges : ∀ p ∈ (detect text s d).zip choice, ∀ t,
      Changes d s.aliases t (p.1.choose p.2 t) := by
    intro p hp
    exact changes_of_detect hd (List.of_mem_zip hp).1 (hmeanings p hp)
  exact passes_foldl_choose hchanges hplain rfl h

/-! ## Texts -/

/-- **Every reading of a valid statement is valid.** -/
theorem valid_of_mem_disambiguate {rules : Rules} (hs : Statement.parse text = .ok s)
    (hd : d.Reachable) (hv : (s.check d rules).valid = true) :
    ∀ c ∈ disambiguate text s d, (c.statement.check d rules).valid = true := by
  intro c hc
  have hpasses := Check.valid_iff.mp hv
  exact Check.valid_iff.mpr (hpasses.disambiguate hd (isRaw_of_parse hs).isPlain c hc)

/-- Two sources with a region. -/
def regions : Snapshot :=
  (Snapshot.empty.put ⟨"orders", "region", { category := .column }⟩).put
    ⟨"customers", "region", { category := .column }⟩

theorem reachable_regions : regions.Reachable :=
  (Snapshot.Reachable.empty.put rfl).put rfl

/-- A question about the region of either source. -/
def regionQuestion : List Char :=
  ("show count() as n by region from orders joined with customers " ++
    "on orders.region = customers.region").toList

/-- Both readings of the question are valid. -/
theorem valid_of_mem_disambiguate_regions : ∃ s, Statement.parse regionQuestion = .ok s ∧
    regions.Reachable ∧ (s.check regions {}).valid = true ∧
    (disambiguate regionQuestion s regions).length = 2 ∧
    ∀ c ∈ disambiguate regionQuestion s regions, (c.statement.check regions {}).valid = true := by
  let region : Site := ⟨.dimension, "region", some 21, ["customers.region", "orders.region"]⟩
  obtain ⟨s, hs, h⟩ := exists_parse regionQuestion
    (congrArg String.toList String.ofList_append.symm)
    (fun text s => (s.check regions {}).valid && decide (s.period = none) &&
      decide (s.plainNames.filterMap (Site.ofName? text s regions) = [region]))
    (by decide +kernel)
  rw [Bool.and_eq_true, Bool.and_eq_true, decide_eq_true_iff, decide_eq_true_iff] at h
  obtain ⟨⟨hv, hperiod⟩, hsites⟩ := h
  have hdetect : detect regionQuestion s regions = [region] := by
    rw [detect, hsites, hperiod]
    exact List.mergeSort_singleton region
  have hlength : (disambiguate regionQuestion s regions).length = 2 := by
    rw [disambiguate, hdetect, List.length_map]
    rfl
  exact ⟨s, hs, reachable_regions, hv, hlength,
    valid_of_mem_disambiguate hs reachable_regions hv⟩

end DataPhrase
