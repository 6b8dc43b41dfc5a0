/-
# Transform statements with their clauses in any order

Behind its header, a transform statement is its clauses one after another: each can be read on its
own, and what they add up to depends on the order of the joins only (`parse_clauses_perm`).
-/
import DataPhrase.Proofs.Statement.Classify
import DataPhrase.Proofs.Statement.ClauseOrder

namespace DataPhrase.Transform

open Text Lexeme Clauses

variable {h s t r : List Char} {source target : String} {xs ys : List (List Char)}

/-! ## Headers -/

/-- The text is the header of a statement, and its blanks are gaps. -/
structure IsHeader (h : List Char) (source target : String) : Prop where
  reads : Accepts header h (source, target)
  spaced : IsSpaced header h

theorem appends_header (ht : Tight t) : Appends header t :=
  (exact_keyword ht _).appends.bind fun _ => (exact_datasetName ht).appends.bind fun _ =>
    (exact_keyword ht _).appends.bind fun _ => (exact_datasetName ht).appends.bind fun _ =>
      appends_pure _

/-- Clauses behind a header change nothing in it. -/
theorem IsHeader.append (hh : IsHeader h source target) (ht : Tight t) :
    (∃ r, (header (h ++ t)).Gives (source, target) r ∧ trim r = trim t) ∧
      IsSpaced header (h ++ t) := by
  obtain ⟨r, hr, hend⟩ := hh.reads
  have happend := appends_header ht h _ r hr
  refine ⟨⟨r ++ t, happend, trim_append_of_blank hend⟩, fun u a q hu hq => ?_⟩
  obtain rfl := happend.rest_unique hq
  rw [← List.append_assoc] at hu
  exact hh.spaced u _ r (List.append_cancel_right hu) hr

/-- The blanks of a text are gaps, as far as it can be computed. -/
theorem isGap_of_all (h : s.all (fun c => !isBlank c || isGap c) = true) :
    ∀ c ∈ s, isBlank c = true → isGap c = true := by
  intro c hc hblank
  simpa [hblank] using List.all_eq_true.mp h c hc

/-- Names of a source and a target make a header. -/
theorem isHeader_of_names (hs : Accepts datasetName s source) (ht : Accepts datasetName t target)
    (hgaps : ∀ c ∈ s ++ t, isBlank c = true → isGap c = true) :
    IsHeader ("transform ".toList ++ (s ++ (" to ".toList ++ t))) source target := by
  obtain ⟨q, hq, hqend⟩ := hs
  obtain ⟨r, hr, hrend⟩ := ht
  have hto : Tight (" to ".toList ++ t) := tight_cons (by decide)
  have hsource := exact_datasetName hto s source q (" ".toList ++ (s ++ (" to ".toList ++ t))) hq
    (trim_cons_of_isBlank (by decide))
  have hkeyword : after? "to" (q ++ (" to ".toList ++ t)) = some (" ".toList ++ t) := by
    rw [after?_congr (trim_append_of_blank hqend)]
    rfl
  have htarget := exact_datasetName tight_nil t target r (" ".toList ++ t) hr
    (by rw [List.append_nil]; exact trim_cons_of_isBlank (by decide))
  rw [List.append_nil] at htarget
  refine ⟨⟨r, ?_, hrend⟩, fun u a v hu _ c hc hblank => ?_⟩
  · exact Reader.gives_bind.mpr ⟨(), _, gives_keyword.mpr rfl,
      Reader.gives_bind.mpr ⟨source, _, hsource,
      Reader.gives_bind.mpr ⟨(), _, gives_keyword.mpr hkeyword,
      Reader.gives_bind.mpr ⟨target, r, htarget, Reader.gives_pure.mpr ⟨rfl, rfl⟩⟩⟩⟩⟩
  · have hmem : c ∈ "transform ".toList ++ (s ++ (" to ".toList ++ t)) := by
      rw [hu]
      exact List.mem_append_left v hc
    have hwords : ∀ c ∈ "transform ".toList ++ " to ".toList,
        isBlank c = true → isGap c = true := isGap_of_all (by decide)
    simp only [List.mem_append] at hmem hwords hgaps
    rcases hmem with hc | hc | hc | hc
    · exact hwords c (Or.inl hc) hblank
    · exact hgaps c (Or.inl hc) hblank
    · exact hwords c (Or.inr hc) hblank
    · exact hgaps c (Or.inr hc) hblank

/-- A transform statement is a header and clauses. -/
theorem gives_read {st : Statement} : (read s).Gives st r ↔ ∃ x q c, (header s).Gives x q ∧
    (readAll {} q).Gives c r ∧ c.statement x.1 x.2 = st := by
  have hread : read = header >>= fun x =>
      readAll {} >>= fun c => pure (c.statement x.1 x.2) := by
    simp only [read, header, bind_assoc, pure_bind]
  rw [hread, Reader.gives_bind]
  constructor
  · rintro ⟨x, q, hx, h⟩
    obtain ⟨c, u, hc, h⟩ := Reader.gives_bind.mp h
    obtain ⟨hst, rfl⟩ := Reader.gives_pure.mp h
    exact ⟨x, q, c, hx, hc, hst⟩
  · rintro ⟨x, q, c, hx, hc, hst⟩
    exact ⟨x, q, hx, Reader.gives_bind.mpr ⟨c, r, hc, Reader.gives_pure.mpr ⟨hst, rfl⟩⟩⟩

/-! ## Statements -/

/-- The statement of a header with clauses behind it. -/
theorem parse_inRow (hh : IsHeader h source target) (hxs : form.AreClauses {} .join xs)
    (hscan : ∀ x ∈ xs, Condition.ScanEnds x) :
    Statement.parse (h ++ inRow xs) =
      .ok (((xs.filterMap parts.value?).foldl add {}).statement source target) := by
  have hfollows := ClauseForm.follows_inRow hxs.clause
  obtain ⟨⟨r, hr, hend⟩, hspaced⟩ := hh.append hfollows.tight
  have hfree : ∀ k, ({} : Clauses).has k = false := by
    intro k
    cases k <;> rfl
  have hrun := parts.run_inRow (fun t ht k => keeps_clause ht k) hxs hscan
    (fun _ _ k _ => hfree k) hend
  have hread : (read (h ++ inRow xs)).Gives _ [] :=
    gives_read.mpr ⟨_, r, _, hr, gives_readAll.mpr ⟨hrun, rfl⟩, rfl⟩
  obtain ⟨ts, hts⟩ := classify_transform hread hspaced
  exact parse_eq_ok.mpr ⟨.transformTo, ts, hts, hread⟩

/-- **The clauses of a transform statement may come in any order.** The statement is what is
collected from the clauses, read each on its own, and only the order of the joins shows in it. -/
theorem parse_clauses_perm (hh : IsHeader h source target) (hxs : form.AreClauses {} .join xs)
    (hplain : ∀ x ∈ xs, '\\' ∉ x) :
    (∀ ys, ys.Perm xs → ∃ c, form.Collects {} ys c ∧
      Statement.parse (h ++ inRow ys) = .ok (c.statement source target)) ∧
      ∀ ys zs, ys.Perm xs → zs.Perm xs →
        ys.filter (fun x => form.kindAhead? x = some .join) =
          zs.filter (fun x => form.kindAhead? x = some .join) →
        Statement.parse (h ++ inRow ys) = Statement.parse (h ++ inRow zs) := by
  have hparse : ∀ {ys : List (List Char)}, ys.Perm xs → _ := fun hys =>
    parse_inRow hh (hxs.perm hys) fun x hx =>
      Condition.scanEnds_of_plain (hplain x (hys.mem_iff.mp hx))
  have hcollects : ∀ {ys : List (List Char)}, ys.Perm xs → _ := fun hys =>
    ClauseForm.Parts.collects_values (p := parts) (hxs.perm hys).clause {}
  refine ⟨fun ys hys => ⟨_, hcollects hys, hparse hys⟩, fun ys zs hys hzs hjoins => ?_⟩
  have hvalues := ClauseForm.Parts.foldl_values_eq (p := parts) (hxs.perm hzs)
    (hys.trans hzs.symm) hjoins {}
  rw [hparse hys, hparse hzs]
  exact congrArg (fun c => Except.ok (Clauses.statement c source target)) hvalues

/-- A header. -/
def salesHeader : List Char :=
  "transform ".toList ++ ("Sales".toList ++ (" to ".toList ++ "Sums".toList))

/-- Clauses of a summary, two joins among them. -/
def salesClauses : List (List Char) :=
  ["joined with T on k = j", "where net > 0", "as sum(net) as total", "joined with U on j = i",
    "grouped by k"].map String.toList

/-- The clauses in another order, the joins in the same. -/
def salesClausesGrouped : List (List Char) :=
  ["grouped by k", "joined with T on k = j", "as sum(net) as total", "joined with U on j = i",
    "where net > 0"].map String.toList

/-- Both orders make one statement. -/
theorem parse_clauses_perm_sales : IsHeader salesHeader "Sales" "Sums" ∧
    form.AreClauses {} .join salesClauses ∧ (∀ x ∈ salesClauses, '\\' ∉ x) ∧
    salesClausesGrouped.Perm salesClauses ∧
    (∃ c, form.Collects {} salesClausesGrouped c ∧
      Statement.parse (salesHeader ++ inRow salesClausesGrouped) =
        .ok (c.statement "Sales" "Sums")) ∧
    Statement.parse (salesHeader ++ inRow salesClausesGrouped) =
      Statement.parse (salesHeader ++ inRow salesClauses) := by
  have hheader : IsHeader salesHeader "Sales" "Sums" := by
    refine isHeader_of_names (s := "Sales".toList) (t := "Sums".toList) ?_ ?_
      (isGap_of_all (by decide))
    · exact whole?_eq_some.mp (by decide +kernel)
    · exact whole?_eq_some.mp (by decide +kernel)
  have hclauses : form.AreClauses {} .join salesClauses :=
    ClauseForm.Parts.areClauses_of_values (p := parts) {} (by decide +kernel) (by decide +kernel)
  have hperm : salesClausesGrouped.Perm salesClauses := by decide +kernel
  have hplain : ∀ x ∈ salesClauses, '\\' ∉ x := by decide +kernel
  have h := parse_clauses_perm hheader hclauses hplain
  exact ⟨hheader, hclauses, hplain, hperm, h.1 _ hperm, h.2 _ _ hperm (.refl _) (by decide +kernel)⟩

end DataPhrase.Transform
