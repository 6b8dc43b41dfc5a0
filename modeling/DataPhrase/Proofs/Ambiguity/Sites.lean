/-
# Detected sites

A detected site is about the period of the statement or about one of its plain names. It always
has a meaning, and in a reachable dictionary its meanings are all different.
-/
import DataPhrase.Proofs.Ambiguity.Readings
import DataPhrase.Proofs.Dictionary.History

namespace DataPhrase

/-! ## Sorted sets of names -/

namespace NameSet

theorem pairwise_insert {n : String} {l : List String} (h : l.Pairwise (· < ·)) :
    (insert n l).Pairwise (· < ·) := by
  induction l with
  | nil => exact List.pairwise_singleton _ n
  | cons m l ih =>
    obtain ⟨hm, hl⟩ := List.pairwise_cons.mp h
    rw [insert]
    split
    · exact h
    · next hne =>
      split
      · next hlt =>
        refine List.pairwise_cons.mpr ⟨fun x hx => ?_, h⟩
        rcases List.mem_cons.mp hx with rfl | hx
        · exact hlt
        · exact lt_trans hlt (hm x hx)
      · next hnlt =>
        refine List.pairwise_cons.mpr ⟨fun x hx => ?_, ih hl⟩
        rcases mem_insert.mp hx with rfl | hx
        · exact lt_of_le_of_ne (not_lt.mp hnlt) (Ne.symm hne)
        · exact hm x hx

/-- The set is in ascending order. -/
theorem pairwise_ofList (names : List String) : (ofList names).Pairwise (· < ·) := by
  have hfold : ∀ (l acc : List String), acc.Pairwise (· < ·) →
      (l.foldl (fun set n => insert n set) acc).Pairwise (· < ·) := by
    intro l
    induction l with
    | nil => exact fun _ h => h
    | cons n l ih => exact fun acc h => ih _ (pairwise_insert h)
  exact hfold names [] .nil

end NameSet

/-! ## Where sites come from -/

variable {text : List Char} {s : Statement} {d : Snapshot} {site : Site} {n : String}

theorem mem_detect : site ∈ detect text s d ↔
    (∃ p, s.period = some p ∧ Site.ofPeriod? text p = some site) ∨
      ∃ n ∈ s.plainNames, Site.ofName? text s d n = some site := by
  rw [detect, List.mem_mergeSort, List.mem_append, List.mem_filterMap, Option.mem_toList,
    Option.bind_eq_some_iff]

theorem Site.eq_of_ofPeriod? {p : Period} (h : Site.ofPeriod? text p = some site) :
    ∃ offset, site = ⟨.temporal, p.phrase, some offset,
      [Alignment.calendar.name, Alignment.rolling.name]⟩ := by
  rw [Site.ofPeriod?] at h
  split at h
  · obtain ⟨offset, -, rfl⟩ := Option.map_eq_some_iff.mp h
    exact ⟨offset, rfl⟩
  · cases h

/-- The site of a name has its metrics as meanings, or else its columns. -/
theorem Site.eq_of_ofName? (h : Site.ofName? text s d n = some site) :
    (Site.differ (d.metrics n) = true ∧ site =
      ⟨.metric, n, locate text n.toList, ((d.metrics n).map Entry.id).mergeSort⟩) ∨
    (2 ≤ (Site.owners s d n).length ∧ site =
      ⟨.dimension, n, locate text n.toList, NameSet.ofList (Site.owners s d n)⟩) := by
  rw [Site.ofName?] at h
  split at h
  · next hd =>
    cases h
    exact Or.inl ⟨hd, rfl⟩
  · split at h
    · next ho =>
      cases h
      exact Or.inr ⟨ho, rfl⟩
    · cases h

theorem Site.subject_of_ofName? (h : Site.ofName? text s d n = some site) : site.subject = n := by
  rcases Site.eq_of_ofName? h with ⟨-, rfl⟩ | ⟨-, rfl⟩ <;> rfl

/-- A site that is not about the period is about a plain name. -/
theorem ofName?_of_mem_detect (h : site ∈ detect text s d) (hk : site.kind ≠ .temporal) :
    site.subject ∈ s.plainNames ∧ Site.ofName? text s d site.subject = some site := by
  rcases mem_detect.mp h with ⟨p, -, hp⟩ | ⟨n, hn, hsite⟩
  · obtain ⟨_, rfl⟩ := Site.eq_of_ofPeriod? hp
    exact absurd rfl hk
  · rw [Site.subject_of_ofName? hsite]
    exact ⟨hn, hsite⟩

/-! ## Meanings -/

/-- A detected site has a meaning. -/
theorem meanings_ne_nil (h : site ∈ detect text s d) : site.meanings ≠ [] := by
  rcases mem_detect.mp h with ⟨p, -, hp⟩ | ⟨n, -, hsite⟩
  · obtain ⟨_, rfl⟩ := Site.eq_of_ofPeriod? hp
    exact List.cons_ne_nil _ _
  · rcases Site.eq_of_ofName? hsite with ⟨hdiffer, rfl⟩ | ⟨howners, rfl⟩
    · cases hmetrics : d.metrics n with
      | nil =>
        rw [hmetrics] at hdiffer
        cases hdiffer
      | cons e es =>
        exact List.ne_nil_of_mem (List.mem_mergeSort.mpr (List.mem_map_of_mem List.mem_cons_self))
    · obtain ⟨m, hm⟩ := List.exists_mem_of_length_pos (lt_of_lt_of_le Nat.two_pos howners)
      exact List.ne_nil_of_mem (NameSet.mem_ofList.mpr hm)

/-- Entries of a reachable dictionary that stand under one text are one entry. -/
theorem Snapshot.Reachable.key_eq_of_id (hd : d.Reachable) {e e' : Entry} (he : e ∈ d.entries)
    (he' : e' ∈ d.entries) (h : e.id = e'.id) : e.key = e'.key := by
  have hcut := cutMeaning_of_isPlain (n := e.name) (hd.isPlain he).1
  rw [← Entry.id, h, Entry.id, cutMeaning_of_isPlain (hd.isPlain he').1, Option.some.injEq] at hcut
  exact congrArg toLex hcut.symm

/-- The meanings of a site differ from each other. -/
theorem nodup_meanings (hd : d.Reachable) (h : site ∈ detect text s d) : site.meanings.Nodup := by
  rcases mem_detect.mp h with ⟨p, -, hp⟩ | ⟨n, -, hsite⟩
  · obtain ⟨_, rfl⟩ := Site.eq_of_ofPeriod? hp
    show [Alignment.calendar.name, Alignment.rolling.name].Nodup
    decide
  · rcases Site.eq_of_ofName? hsite with ⟨-, rfl⟩ | ⟨-, rfl⟩
    · refine (List.mergeSort_perm _ _).nodup_iff.mpr (List.pairwise_map.mpr ?_)
      refine (hd.pairwise.filter _).imp_of_mem fun {e e'} he he' hlt hid => ?_
      have hkey := hd.key_eq_of_id (List.mem_filter.mp he).1 (List.mem_filter.mp he').1 hid
      exact hlt.ne hkey
    · exact (NameSet.pairwise_ofList _).imp ne_of_lt

end DataPhrase
