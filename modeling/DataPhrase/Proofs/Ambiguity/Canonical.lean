/-
# The list of sites

The sites of a statement stand in a strict order, by kind and then by subject, so that no two are
about the same. The meanings of a site are in strictly ascending order, and there are several of
them but in one case: the columns of a name are counted for every mention of a source, and a source
that is joined to itself is mentioned twice.
-/
import DataPhrase.Proofs.Ambiguity.Counting

namespace DataPhrase

variable {text : List Char} {s : Statement} {d : Snapshot} {site : Site} {n : String}

/-! ## Names of a statement -/

/-- No name is listed twice. -/
theorem nodup_firstUses (names : List String) : (firstUses names).Nodup := by
  have hfold : ∀ (l kept : List String), kept.Nodup →
      (l.foldl (fun kept n => if kept.contains n then kept else kept ++ [n]) kept).Nodup := by
    intro l
    induction l with
    | nil => exact fun _ h => h
    | cons x l ih =>
      intro kept hkept
      rw [List.foldl_cons]
      split
      · exact ih kept hkept
      · next hx =>
        have hmore := hkept.concat fun hmem => hx (List.contains_iff_mem.mpr hmem)
        rw [List.concat_eq_append] at hmore
        exact ih _ hmore
  exact hfold names [] .nil

/-! ## The order of sites -/

namespace Site

/-- The site is of an earlier kind than the other one, or of the same kind with a lesser
subject. -/
def Precedes (a b : Site) : Prop :=
  a.kind.rank < b.kind.rank ∨ a.kind = b.kind ∧ a.subject < b.subject

/-- The sites are not about the same. -/
def Differs (a b : Site) : Prop :=
  a.kind = b.kind → a.subject ≠ b.subject

theorem before_iff {a b : Site} : before a b = true ↔
    a.kind.rank < b.kind.rank ∨ a.kind = b.kind ∧ a.subject ≤ b.subject := by
  rw [before, Bool.or_eq_true, Bool.and_eq_true, decide_eq_true_iff, beq_iff_eq,
    decide_eq_true_iff]

theorem rank_injective {k l : SiteKind} (h : k.rank = l.rank) : k = l := by
  cases k <;> cases l <;> first | rfl | cases h

theorem before_trans (a b c : Site) (hab : before a b = true) (hbc : before b c = true) :
    before a c = true := by
  rw [before_iff] at hab hbc ⊢
  rcases hab with hab | ⟨hk, hs⟩
  · rcases hbc with hbc | ⟨hk', -⟩
    · exact Or.inl (hab.trans hbc)
    · exact Or.inl (hk' ▸ hab)
  · rw [hk]
    exact hbc.imp_right fun ⟨hk', hs'⟩ => ⟨hk', le_trans hs hs'⟩

theorem before_total (a b : Site) : (before a b || before b a) = true := by
  rw [Bool.or_eq_true, before_iff, before_iff]
  rcases lt_trichotomy a.kind.rank b.kind.rank with h | h | h
  · exact Or.inl (Or.inl h)
  · have hk := rank_injective h
    exact (le_total a.subject b.subject).imp (fun hs => Or.inr ⟨hk, hs⟩)
      fun hs => Or.inr ⟨hk.symm, hs⟩
  · exact Or.inr (Or.inl h)

theorem Differs.precedes {a b : Site} (hne : Differs a b) (h : before a b = true) :
    Precedes a b :=
  (before_iff.mp h).imp_right fun ⟨hk, hs⟩ => ⟨hk, lt_of_le_of_ne hs (hne hk)⟩

theorem Differs.symm {a b : Site} (h : Differs a b) : Differs b a :=
  fun hk => (h hk.symm).symm

end Site

/-- The site of a name is not about a period. -/
theorem Site.kind_of_ofName? (h : Site.ofName? text s d n = some site) : site.kind ≠ .temporal := by
  rcases Site.eq_of_ofName? h with ⟨-, rfl⟩ | ⟨-, rfl⟩ <;> nofun

/-- The sites are about different periods and names, before they are sorted. -/
theorem differs_sites : ((s.period.bind (Site.ofPeriod? text)).toList ++
    s.plainNames.filterMap (Site.ofName? text s d)).Pairwise Site.Differs := by
  refine List.pairwise_append.mpr ⟨?_, ?_, fun a ha b hb hk => ?_⟩
  · cases s.period.bind (Site.ofPeriod? text) with
    | none => exact .nil
    | some site => exact List.pairwise_singleton _ site
  · rw [List.pairwise_filterMap]
    refine (nodup_firstUses _).imp fun {n m} hne a ha b hb _ => ?_
    rw [Site.subject_of_ofName? ha, Site.subject_of_ofName? hb]
    exact hne
  · obtain ⟨p, -, hp⟩ := Option.bind_eq_some_iff.mp (Option.mem_toList.mp ha)
    obtain ⟨_, rfl⟩ := Site.eq_of_ofPeriod? hp
    obtain ⟨n, -, hn⟩ := List.mem_filterMap.mp hb
    exact absurd hk.symm (Site.kind_of_ofName? hn)

theorem precedes_detect : (detect text s d).Pairwise Site.Precedes := by
  have hperm := List.mergeSort_perm ((s.period.bind (Site.ofPeriod? text)).toList ++
    s.plainNames.filterMap (Site.ofName? text s d)) Site.before
  have hdiffers := (hperm.pairwise_iff Site.Differs.symm).mpr (differs_sites (d := d))
  have hsorted := List.pairwise_mergeSort Site.before_trans Site.before_total
    ((s.period.bind (Site.ofPeriod? text)).toList ++
      s.plainNames.filterMap (Site.ofName? text s d))
  exact hdiffers.imp₂ (fun _ _ => Site.Differs.precedes) hsorted

/-! ## The meanings of a site -/

/-- The column is registered for two different sources of the statement. -/
def Statement.Shares (s : Statement) (d : Snapshot) (n : String) : Prop :=
  ∃ a ∈ s.sources, ∃ b ∈ s.sources, a ≠ b ∧ d.hasColumn a n = true ∧ d.hasColumn b n = true

theorem qualified_injective {a b : String} (h : a ++ "." ++ n = b ++ "." ++ n) : a = b := by
  rw [← String.toList_inj, String.toList_append, String.toList_append, String.toList_append,
    String.toList_append] at h
  exact String.toList_inj.mp (List.append_cancel_right (List.append_cancel_right h))

theorem mem_owners {m : String} : m ∈ Site.owners s d n ↔
    ∃ a ∈ s.sources, d.hasColumn a n = true ∧ a ++ "." ++ n = m := by
  rw [Site.owners, List.mem_map]
  simp only [List.mem_filter, and_assoc]

/-- A list of different members is longer than one if two of its members differ. -/
theorem two_le_length_iff {α : Type} {l : List α} (h : l.Nodup) :
    2 ≤ l.length ↔ ∃ a ∈ l, ∃ b ∈ l, a ≠ b := by
  cases l with
  | nil => simp
  | cons a l =>
    cases l with
    | nil => simp
    | cons b l =>
      refine iff_of_true (Nat.le_add_left 2 _) ⟨a, List.mem_cons_self, b, by simp, ?_⟩
      exact fun hab => (List.nodup_cons.mp h).1 (hab ▸ List.mem_cons_self)

/-- A column has several owners, each listed once, if several sources have it. -/
theorem two_le_length_owners :
    2 ≤ (NameSet.ofList (Site.owners s d n)).length ↔ s.Shares d n := by
  have hnodup : (NameSet.ofList (Site.owners s d n)).Nodup :=
    (NameSet.pairwise_ofList _).imp ne_of_lt
  simp only [two_le_length_iff hnodup, NameSet.mem_ofList, mem_owners]
  constructor
  · rintro ⟨_, ⟨a, ha, hac, rfl⟩, _, ⟨b, hb, hbc, rfl⟩, hne⟩
    exact ⟨a, ha, b, hb, fun hab => hne (hab ▸ rfl), hac, hbc⟩
  · rintro ⟨a, ha, b, hb, hne, hac, hbc⟩
    exact ⟨_, ⟨a, ha, hac, rfl⟩, _, ⟨b, hb, hbc, rfl⟩, fun h => hne (qualified_injective h)⟩

theorem two_le_length_of_differ {es : List Entry} (h : Site.differ es = true) : 2 ≤ es.length := by
  cases es with
  | nil => cases h
  | cons e es =>
    cases es with
    | nil => cases h
    | cons f es => exact Nat.le_add_left 2 _

/-- The meanings of a site are in strictly ascending order. -/
theorem pairwise_meanings (hd : d.Reachable) (h : site ∈ detect text s d) :
    site.meanings.Pairwise (· < ·) := by
  rcases mem_detect.mp h with ⟨p, -, hp⟩ | ⟨n, -, hsite⟩
  · obtain ⟨_, rfl⟩ := Site.eq_of_ofPeriod? hp
    exact List.pairwise_pair.mpr (by decide)
  · rcases Site.eq_of_ofName? hsite with ⟨-, hmetric⟩ | ⟨-, rfl⟩
    · have hnodup := nodup_meanings hd h
      rw [hmetric] at hnodup ⊢
      have htrans : ∀ a b c : String, decide (a ≤ b) = true → decide (b ≤ c) = true →
          decide (a ≤ c) = true := by
        intro a b c hab hbc
        rw [decide_eq_true_iff] at hab hbc ⊢
        exact le_trans hab hbc
      have htotal : ∀ a b : String, (decide (a ≤ b) || decide (b ≤ a)) = true := by
        intro a b
        rw [Bool.or_eq_true, decide_eq_true_iff, decide_eq_true_iff]
        exact le_total a b
      have hsorted := List.pairwise_mergeSort htrans htotal ((d.metrics n).map Entry.id)
      exact hnodup.imp₂ (fun _ _ hne hle => lt_of_le_of_ne (of_decide_eq_true hle) hne) hsorted
    · exact NameSet.pairwise_ofList _

/-- A site has several meanings, unless it is a column that no two different sources have. -/
theorem two_le_length_meanings (h : site ∈ detect text s d) :
    2 ≤ site.meanings.length ↔ (site.kind = .dimension → s.Shares d site.subject) := by
  rcases mem_detect.mp h with ⟨p, -, hp⟩ | ⟨n, -, hsite⟩
  · obtain ⟨_, rfl⟩ := Site.eq_of_ofPeriod? hp
    exact iff_of_true (Nat.le_refl 2) nofun
  · rcases Site.eq_of_ofName? hsite with ⟨hdiffer, rfl⟩ | ⟨-, rfl⟩
    · refine iff_of_true ?_ nofun
      rw [List.length_mergeSort, List.length_map]
      exact two_le_length_of_differ hdiffer
    · rw [two_le_length_owners]
      exact ⟨fun hs _ => hs, fun hs => hs rfl⟩

/-- **The sites of a statement are listed in strict order with their meanings**, several for each
site but for a column that no two different sources of the statement have. -/
theorem canonical_detect (hd : d.Reachable) :
    (detect text s d).Pairwise Site.Precedes ∧ ∀ site ∈ detect text s d,
      site.meanings.Pairwise (· < ·) ∧
      (2 ≤ site.meanings.length ↔ (site.kind = .dimension → s.Shares d site.subject)) :=
  ⟨precedes_detect, fun _ h => ⟨pairwise_meanings hd h, two_le_length_meanings h⟩⟩

/-- The sites of a question with two of them, each with two meanings. -/
theorem canonical_detect_monthlyRegionQuestion :
    ∃ s, Statement.parse monthlyRegionQuestion = .ok s ∧ regions.Reachable ∧
      (detect monthlyRegionQuestion s regions).length = 2 ∧
      (detect monthlyRegionQuestion s regions).Pairwise Site.Precedes ∧
      ∀ site ∈ detect monthlyRegionQuestion s regions,
        site.meanings.Pairwise (· < ·) ∧ 2 ≤ site.meanings.length := by
  obtain ⟨s, hs, h⟩ := exists_parse monthlyRegionQuestion
    String.toList_ofList.symm
    (fun _ s => ((s.period.bind (Site.ofPeriod? monthlyRegionQuestion)).toList ++
      s.plainNames.filterMap (Site.ofName? monthlyRegionQuestion s regions)).length == 2 &&
      decide (s.plainNames = ["region"]) && decide (s.sources = ["orders", "customers"]))
    (by decide +kernel)
  rw [Bool.and_eq_true, Bool.and_eq_true, decide_eq_true_iff, decide_eq_true_iff, beq_iff_eq] at h
  obtain ⟨⟨hlength, hnames⟩, hsources⟩ := h
  have hcanonical : (detect monthlyRegionQuestion s regions).Pairwise Site.Precedes ∧ _ :=
    canonical_detect reachable_regions
  obtain ⟨hordered, hmeanings⟩ := hcanonical
  refine ⟨s, hs, reachable_regions, ?_, hordered, fun site hsite => ?_⟩
  · rw [detect, (List.mergeSort_perm _ _).length_eq]
    exact hlength
  · obtain ⟨hascending, hseveral⟩ := hmeanings site hsite
    refine ⟨hascending, hseveral.mpr fun hk => ?_⟩
    obtain ⟨hname, -⟩ := ofName?_of_mem_detect hsite (by rw [hk]; decide)
    rw [hnames, List.mem_singleton] at hname
    rw [hname, Statement.Shares, hsources]
    exact ⟨"orders", by decide, "customers", by decide, by decide, by decide +kernel,
      by decide +kernel⟩

/-- A statement that joins a source to itself. -/
def joinedToItself : List Char :=
  "transform orders to T joined with orders on id = parent grouped by region".toList

/-- Its region is reported as unclear, with one meaning. -/
theorem not_two_le_length_joinedToItself :
    ∃ s site, Statement.parse joinedToItself = .ok s ∧ regions.Reachable ∧
      site ∈ detect joinedToItself s regions ∧ site.meanings = ["orders.region"] := by
  obtain ⟨s, hs, h⟩ := exists_parse joinedToItself rfl
    (fun text s => decide ("region" ∈ s.plainNames ∧
      (Site.ofName? text s regions "region").map Site.meanings =
        some ["orders.region"]))
    (by decide +kernel)
  obtain ⟨hname, hmeanings⟩ := of_decide_eq_true h
  obtain ⟨site, hsite, hmeanings⟩ := Option.map_eq_some_iff.mp hmeanings
  exact ⟨s, site, hs, reachable_regions, mem_detect.mpr (Or.inr ⟨_, hname, hsite⟩), hmeanings⟩

end DataPhrase
