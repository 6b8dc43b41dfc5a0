/-
# Counting through the choices

The choices for the sites of a statement are passed like the states of a counter with one digit for
each site: the last digit moves first, and a digit that has come round moves the one in front of
it. The choices are therefore the first members of the product of the meanings, and each place of
the k-th one can be computed.
-/
import DataPhrase.Proofs.Ambiguity.Sites
import Mathlib.Algebra.BigOperators.Group.List.Basic
import Mathlib.Algebra.Group.Action.Defs
import Mathlib.Data.List.Nodup

namespace DataPhrase

/-! ## Products -/

section Product

variable {α : Type} {l t : List α} {ls : List (List α)} {k n : Nat}

/-- One member of each list, in all ways, the last place changing fastest. -/
def product : List (List α) → List (List α)
  | [] => [[]]
  | l :: ls => l.flatMap fun a => (product ls).map (a :: ·)

/-- There are as many choices as the product of the counts. -/
theorem length_product (ls : List (List α)) : (product ls).length = (counts ls).prod := by
  induction ls with
  | nil => rfl
  | cons l ls ih =>
    have hblock : ∀ a ∈ l, ((product ls).map (a :: ·)).length = (counts ls).prod := fun a _ => by
      rw [List.length_map, ih]
    rw [product, counts, List.map_cons, List.prod_cons, List.length_flatMap,
      List.map_congr_left hblock, List.map_const', List.sum_replicate, smul_eq_mul, counts]

/-- Choices from lists without repetitions do not repeat. -/
theorem nodup_product (h : ∀ l ∈ ls, l.Nodup) : (product ls).Nodup := by
  induction ls with
  | nil => exact List.nodup_singleton []
  | cons l ls ih =>
    rw [List.forall_mem_cons] at h
    refine List.nodup_flatMap.mpr ⟨fun a _ => ?_, h.1.imp fun {a b} hab t ht ht' => ?_⟩
    · exact (ih h.2).map fun t t' htt => (List.cons.inj htt).2
    · obtain ⟨u, -, rfl⟩ := List.mem_map.mp ht
      obtain ⟨u', -, he⟩ := List.mem_map.mp ht'
      exact hab (List.cons.inj he).1.symm

/-- A member is found in the block of its first place. -/
theorem getElem?_blocks (l : List α) (ts : List (List α)) (k : Nat) :
    (l.flatMap fun a => ts.map (a :: ·))[k]? =
      (l[k / ts.length]?).bind fun a => (ts[k % ts.length]?).map (a :: ·) := by
  induction l generalizing k with
  | nil => rfl
  | cons a l ih =>
    rw [List.flatMap_cons, List.getElem?_append, List.length_map]
    by_cases hk : k < ts.length
    · rw [if_pos hk, Nat.div_eq_of_lt hk, Nat.mod_eq_of_lt hk, List.getElem?_map]
      rfl
    · rw [if_neg hk, ih]
      rcases Nat.eq_zero_or_pos ts.length with h0 | hpos
      · rw [List.eq_nil_of_length_eq_zero h0]
        simp
      · rw [Nat.div_eq_sub_div hpos (not_lt.mp hk), Nat.mod_eq_sub_mod (not_lt.mp hk),
          List.getElem?_cons_succ]

/-- **Each place of the k-th member of a product.** The lists behind a place come round once for
each member of its list. -/
theorem getElem?_place (h : (product ls)[k]? = some t) {i : Nat} (hl : ls[i]? = some l) :
    ∃ a, l[k / (counts (ls.drop (i + 1))).prod % l.length]? = some a ∧ t[i]? = some a := by
  induction ls generalizing k t i with
  | nil => cases hl
  | cons m ls ih =>
    rw [product, getElem?_blocks, length_product] at h
    obtain ⟨a, ha, h⟩ := Option.bind_eq_some_iff.mp h
    obtain ⟨u, hu, rfl⟩ := Option.map_eq_some_iff.mp h
    cases i with
    | zero =>
      cases hl
      have hlt := (List.getElem?_eq_some_iff.mp ha).1
      refine ⟨a, ?_, rfl⟩
      rw [List.drop_succ_cons, List.drop_zero, Nat.mod_eq_of_lt hlt]
      exact ha
    | succ i =>
      obtain ⟨b, hb, hub⟩ := ih hu hl
      refine ⟨b, ?_, hub⟩
      -- what comes round behind the first place comes round as often behind this one
      have hsplit : (counts ls).prod =
          ((counts (ls.take i)).prod * l.length) * (counts (ls.drop (i + 1))).prod := by
        have hdrop : ls.drop i = l :: ls.drop (i + 1) := by
          obtain ⟨hi, rfl⟩ := List.getElem?_eq_some_iff.mp
            (List.getElem?_cons_succ.symm.trans hl : ls[i]? = some l)
          exact List.drop_eq_getElem_cons hi
        rw [counts, counts, counts, Nat.mul_assoc, ← List.prod_cons, ← List.map_cons, ← hdrop,
          ← List.prod_append, ← List.map_append, List.take_append_drop]
      rw [List.drop_succ_cons]
      rw [hsplit, Nat.mod_mul_left_div_self, Nat.mod_mul_left_mod] at hb
      exact hb

end Product

/-! ## Counters -/

namespace Counter

variable {bs : List Nat} {k n : Nat}

/-- The digits of a number, where each digit has its own base, the last one for the units. -/
def digits : List Nat → Nat → List Nat
  | [], _ => []
  | _ :: bs, k => k / bs.prod :: digits bs (k % bs.prod)

/-- The counter starts with its first digits. -/
theorem digits_zero (bs : List Nat) : digits bs 0 = bs.map fun _ => 0 := by
  induction bs with
  | nil => rfl
  | cons b bs ih => rw [digits, Nat.zero_div, Nat.zero_mod, ih, List.map_cons]

theorem length_digits (bs : List Nat) (k : Nat) : (digits bs k).length = bs.length := by
  induction bs generalizing k with
  | nil => rfl
  | cons b bs ih => rw [digits, List.length_cons, ih, List.length_cons]

/-- The digits of a number are its quotient and those of its remainder. -/
theorem digits_add {b q r : Nat} (hr : r < bs.prod) :
    digits (b :: bs) (bs.prod * q + r) = q :: digits bs r := by
  have hpos : 0 < bs.prod := Nat.zero_lt_of_lt hr
  rw [digits, Nat.mul_add_div hpos, Nat.div_eq_of_lt hr, Nat.add_zero, Nat.mul_add_mod,
    Nat.mod_eq_of_lt hr]

/-- **One step of the counter adds one**, as long as there is a state for the sum. -/
theorem next?_digits (hk : k < bs.prod) :
    next? bs (digits bs k) = if k + 1 < bs.prod then some (digits bs (k + 1)) else none := by
  induction bs generalizing k with
  | nil =>
    rw [List.prod_nil] at hk ⊢
    rw [if_neg (by omega)]
    rfl
  | cons b bs ih =>
    rw [List.prod_cons] at hk ⊢
    have hpos : 0 < bs.prod := Nat.pos_of_mul_pos_left (Nat.zero_lt_of_lt hk)
    obtain ⟨q, r, hr, rfl⟩ : ∃ q r, r < bs.prod ∧ k = bs.prod * q + r :=
      ⟨k / bs.prod, k % bs.prod, Nat.mod_lt k hpos, (Nat.div_add_mod k bs.prod).symm⟩
    have hq : q < b := by
      refine Nat.lt_of_mul_lt_mul_left (a := bs.prod) ?_
      rw [Nat.mul_comm bs.prod b]
      omega
    rw [digits_add hr, next?, ih hr]
    by_cases hlast : r + 1 < bs.prod
    · -- a digit behind the first one moves
      have hnext : bs.prod * q + r + 1 < b * bs.prod := by
        calc bs.prod * q + r + 1 < bs.prod * (q + 1) := by rw [Nat.mul_succ]; omega
          _ ≤ b * bs.prod := by rw [Nat.mul_comm b]; exact Nat.mul_le_mul_left _ hq
      rw [if_pos hlast, if_pos hnext, Nat.add_assoc, digits_add hlast]
    · -- the digits behind the first one come round
      have hround : bs.prod * q + r + 1 = bs.prod * (q + 1) + 0 := by
        rw [Nat.mul_succ]
        omega
      have hmore : bs.prod * q + r + 1 < b * bs.prod ↔ q + 1 < b := by
        rw [hround, Nat.add_zero, Nat.mul_comm b, Nat.mul_lt_mul_left hpos]
      have hzero : (digits bs r).map (fun _ => 0) = digits bs 0 := by
        rw [digits_zero, List.map_const', List.map_const', length_digits]
      rw [if_neg hlast, hround, digits_add hpos, ← hround, hzero]
      simp only [hmore]

/-- **A run of the counter passes the numbers in order**, as far as there are states. -/
theorem run_digits (hk : k < bs.prod) :
    run bs n (digits bs k) = (List.range' k (min n (bs.prod - k))).map (digits bs) := by
  induction n generalizing k with
  | zero => rfl
  | succ n ih =>
    have hlen : min (n + 1) (bs.prod - k) = min n (bs.prod - (k + 1)) + 1 := by omega
    rw [run, next?_digits hk, hlen, List.range'_succ, List.map_cons]
    by_cases hnext : k + 1 < bs.prod
    · rw [if_pos hnext]
      exact congrArg _ (ih hnext)
    · have hend : min n (bs.prod - (k + 1)) = 0 := by omega
      rw [if_neg hnext, hend]
      rfl

end Counter

/-! ## Counted choices -/

section Picks

variable {α : Type} {ls : List (List α)} {k n : Nat}

/-- What is picked at positions is a member of the product. -/
theorem mem_product_of_picks {ds : List Nat} {t : List α} (h : picks ls ds = some t) :
    t ∈ product ls := by
  induction ls generalizing ds t with
  | nil =>
    cases ds with
    | nil => exact List.mem_singleton.mpr (Option.some.inj h).symm
    | cons d ds => cases h
  | cons l ls ih =>
    cases ds with
    | nil => cases h
    | cons d ds =>
      obtain ⟨a, ha, h⟩ := Option.bind_eq_some_iff.mp h
      obtain ⟨u, hu, rfl⟩ := Option.map_eq_some_iff.mp h
      exact List.mem_flatMap.mpr ⟨a, List.mem_of_getElem? ha, List.mem_map_of_mem (ih hu)⟩

/-- The choice at a place of the product is picked by the digits of the place. -/
theorem picks_digits (hk : k < (counts ls).prod) :
    picks ls (Counter.digits (counts ls) k) = (product ls)[k]? := by
  induction ls generalizing k with
  | nil =>
    obtain rfl : k = 0 := Nat.lt_one_iff.mp hk
    rfl
  | cons l ls ih =>
    have hpos : 0 < (counts ls).prod := by
      rw [counts, List.map_cons, List.prod_cons] at hk
      exact Nat.pos_of_mul_pos_left (Nat.zero_lt_of_lt hk)
    rw [product, getElem?_blocks, length_product, ← ih (Nat.mod_lt k hpos)]
    rfl

/-- **The states of a counter pick the first members of a product in order.** -/
theorem map_picks_run (h : 0 < (counts ls).prod) (n : Nat) :
    (Counter.run (counts ls) n ((counts ls).map fun _ => 0)).map (picks ls) =
      ((product ls).take n).map some := by
  have hsub : (counts ls).prod - 0 = (counts ls).prod := Nat.sub_zero _
  rw [← Counter.digits_zero, Counter.run_digits h, List.map_map, hsub]
  apply List.ext_getElem?
  intro k
  rw [List.getElem?_map, List.getElem?_map, List.getElem?_take]
  by_cases hk : k < min n (counts ls).prod
  · have hlt : k < (counts ls).prod := by omega
    have hlen : k < (product ls).length := by
      rw [length_product]
      exact hlt
    rw [List.getElem?_range' hk, if_pos (by omega), List.getElem?_eq_getElem hlen, Nat.one_mul,
      Nat.zero_add]
    exact congrArg some ((picks_digits hlt).trans (List.getElem?_eq_getElem hlen))
  · rw [List.getElem?_eq_none (by rw [List.length_range']; omega)]
    by_cases hn : k < n
    · rw [if_pos hn, List.getElem?_eq_none (by rw [length_product]; omega)]
      rfl
    · rw [if_neg hn]
      rfl

end Picks

/-! ## Readings -/

variable {text : List Char} {s : Statement} {d : Snapshot} {sites : List Site}
  {choice : List String} {c : Candidate}

/-- **The choices that the counter passes are the first members of the product of the meanings.** -/
theorem choices_eq_take (n : Nat) (sites : List Site) :
    choices n sites = (product (sites.map Site.meanings)).take n := by
  rcases Nat.eq_zero_or_pos (counts (sites.map Site.meanings)).prod with hzero | hpos
  · -- A site without meanings leaves no choice at all.
    rw [← length_product] at hzero
    have hproduct := List.eq_nil_of_length_eq_zero hzero
    rw [hproduct, List.take_nil, choices, List.filterMap_eq_nil_iff]
    intro positions _
    refine Option.eq_none_iff_forall_ne_some.mpr fun t ht => ?_
    have hmem := mem_product_of_picks ht
    rw [hproduct] at hmem
    cases hmem
  · have hpicks := congrArg (List.filterMap id) (map_picks_run hpos n)
    rw [List.filterMap_map, List.filterMap_map] at hpicks
    exact hpicks.trans List.filterMap_some

theorem length_of_mem_product {α : Type} {ls : List (List α)} {t : List α} (h : t ∈ product ls) :
    t.length = ls.length := by
  induction ls generalizing t with
  | nil =>
    obtain rfl := List.mem_singleton.mp h
    rfl
  | cons l ls ih =>
    obtain ⟨a, -, h⟩ := List.mem_flatMap.mp h
    obtain ⟨u, hu, rfl⟩ := List.mem_map.mp h
    rw [List.length_cons, ih hu, List.length_cons]

/-- The meanings of a reading are those of its choice. -/
theorem meanings_ofChoice (h : choice.length = sites.length) :
    (Candidate.ofChoice s sites choice).resolutions.map Resolution.meaning = choice := by
  show ((sites.zip choice).map _).map _ = _
  rw [List.map_map]
  exact List.map_snd_zip h.le

/-- The readings `cs` of `s` are listed in the order of the choices at `sites`. -/
structure IsListing (s : Statement) (sites : List Site) (cs : List Candidate) : Prop where
  /-- They make the first choices in the product of the meanings. -/
  chosen : cs = ((product (sites.map Site.meanings)).take maxCandidates).map
    (Candidate.ofChoice s sites)
  /-- Every choice is made, up to the largest number of readings. -/
  length : cs.length = min maxCandidates (counts (sites.map Site.meanings)).prod
  /-- A counter that starts with all first meanings passes the choices. -/
  counted : (Counter.run (counts (sites.map Site.meanings)) maxCandidates
      ((counts (sites.map Site.meanings)).map fun _ => 0)).map (picks (sites.map Site.meanings)) =
    cs.map fun c => some (c.resolutions.map Resolution.meaning)
  /-- The k-th reading resolves each site in its place, by a meaning that depends on k only. -/
  place : ∀ k c, cs[k]? = some c → c.resolutions.length = sites.length ∧
    ∀ i site, sites[i]? = some site → ∃ m,
      site.meanings[k / (counts ((sites.map Site.meanings).drop (i + 1))).prod %
        site.meanings.length]? = some m ∧
      c.resolutions[i]? = some ⟨site.kind, site.subject, m⟩
  /-- The statement of a reading is the statement with its meanings chosen one after another. -/
  applied : ∀ c ∈ cs, c.statement = (sites.zip (c.resolutions.map Resolution.meaning)).foldl
    (fun s x => x.1.choose x.2 s) s
  /-- The first reading takes the first meaning everywhere. -/
  first : ∃ c, cs.head? = some c ∧ c.resolutions.map (fun r => some r.meaning) =
    sites.map fun site => site.meanings.head?
  /-- No two readings make the same choices. -/
  distinct : (cs.map Candidate.resolutions).Nodup
  /-- Without sites the statement is its only reading. -/
  alone : sites = [] → cs = [⟨[], s⟩]

/-- The readings that the first choices at `sites` make of `s`. -/
def firstReadings (s : Statement) (sites : List Site) : List Candidate :=
  ((product (sites.map Site.meanings)).take maxCandidates).map (Candidate.ofChoice s sites)

/-- The readings of a statement are the first choices among the meanings of its sites. -/
theorem disambiguate_eq_firstReadings :
    disambiguate text s d = firstReadings s (detect text s d) := by
  rw [disambiguate, choices_eq_take, firstReadings]

/-- There are as many readings as choices, and at most the limit. -/
theorem length_firstReadings : (firstReadings s sites).length =
    min maxCandidates (counts (sites.map Site.meanings)).prod := by
  rw [firstReadings, List.length_map, List.length_take, length_product]

/-- A choice for sites has a place for each of them. -/
theorem length_of_mem_take_product
    (h : choice ∈ (product (sites.map Site.meanings)).take maxCandidates) :
    choice.length = sites.length := by
  rw [length_of_mem_product (List.mem_of_mem_take h), List.length_map]

/-- The meanings of the readings are the first choices in order. -/
theorem map_meanings_firstReadings :
    (firstReadings s sites).map (fun c => c.resolutions.map Resolution.meaning) =
      (product (sites.map Site.meanings)).take maxCandidates := by
  rw [firstReadings, List.map_map]
  refine (List.map_congr_left fun choice hchoice => ?_).trans (List.map_id _)
  exact meanings_ofChoice (length_of_mem_take_product hchoice)

/-- Sites with meanings leave at least one choice. -/
theorem prod_counts_pos (h : ∀ site ∈ sites, site.meanings ≠ []) :
    0 < (counts (sites.map Site.meanings)).prod := by
  induction sites with
  | nil => exact Nat.one_pos
  | cons site sites ih =>
    rw [List.forall_mem_cons] at h
    rw [counts, List.map_cons, List.map_cons, List.prod_cons]
    exact Nat.mul_pos (List.length_pos_iff.mpr h.1) (ih h.2)

/-- Each resolution of the k-th reading. -/
theorem firstReadings_place {k : Nat} (hk : (firstReadings s sites)[k]? = some c) :
    c.resolutions.length = sites.length ∧ ∀ i site, sites[i]? = some site → ∃ m,
      site.meanings[k / (counts ((sites.map Site.meanings).drop (i + 1))).prod %
        site.meanings.length]? = some m ∧
      c.resolutions[i]? = some ⟨site.kind, site.subject, m⟩ := by
  rw [firstReadings, List.getElem?_map] at hk
  obtain ⟨choice, hchoice, rfl⟩ := Option.map_eq_some_iff.mp hk
  have hlen := length_of_mem_take_product (List.mem_of_getElem? hchoice)
  constructor
  · show ((sites.zip choice).map _).length = _
    rw [List.length_map, List.length_zip, hlen, Nat.min_self]
  · intro i site hi
    have hkth : (product (sites.map Site.meanings))[k]? = some choice := by
      rw [List.getElem?_take] at hchoice
      split at hchoice
      · exact hchoice
      · cases hchoice
    have hl : (sites.map Site.meanings)[i]? = some site.meanings := by
      rw [List.getElem?_map, hi]
      rfl
    obtain ⟨m, hm, hplace⟩ := getElem?_place hkth hl
    have hzip : (sites.zip choice)[i]? = some (site, m) :=
      List.getElem?_zip_eq_some.mpr ⟨hi, hplace⟩
    refine ⟨m, hm, ?_⟩
    show ((sites.zip choice).map _)[i]? = _
    rw [List.getElem?_map, hzip]
    rfl

/-- The first reading takes the first meanings. -/
theorem head?_firstReadings (h : ∀ site ∈ sites, site.meanings ≠ []) :
    ∃ c, (firstReadings s sites).head? = some c ∧
      c.resolutions.map (fun r => some r.meaning) = sites.map fun site => site.meanings.head? := by
  have hpos : 0 < (firstReadings s sites).length := by
    rw [length_firstReadings]
    exact Nat.lt_min.mpr ⟨by decide, prod_counts_pos h⟩
  have hzero := List.getElem?_eq_getElem hpos
  refine ⟨_, List.head?_eq_getElem?.trans hzero, List.ext_getElem? fun i => ?_⟩
  obtain ⟨hlen, hplace⟩ := firstReadings_place hzero
  rw [List.getElem?_map, List.getElem?_map]
  cases hi : sites[i]? with
  | none =>
    rw [List.getElem?_eq_none (by rw [hlen]; exact List.getElem?_eq_none_iff.mp hi)]
    rfl
  | some site =>
    obtain ⟨m, hm, hres⟩ := hplace i site hi
    rw [Nat.zero_div, Nat.zero_mod, ← List.head?_eq_getElem?] at hm
    rw [hres, Option.map_some, Option.map_some, hm]

/-- A statement has a reading. -/
theorem exists_mem_disambiguate : ∃ c, c ∈ disambiguate text s d := by
  have hne : ∀ site ∈ detect text s d, site.meanings ≠ [] := fun _ => meanings_ne_nil
  obtain ⟨c, hc, -⟩ := head?_firstReadings (s := s) hne
  rw [← disambiguate_eq_firstReadings] at hc
  exact ⟨c, List.mem_of_mem_head? hc⟩

/-- **The first readings are listed in order** where each site has meanings that differ. -/
theorem isListing_firstReadings (hne : ∀ site ∈ sites, site.meanings ≠ [])
    (hnodup : ∀ site ∈ sites, site.meanings.Nodup) :
    IsListing s sites (firstReadings s sites) where
  chosen := rfl
  length := length_firstReadings
  counted := by
    rw [map_picks_run (prod_counts_pos hne), ← map_meanings_firstReadings, List.map_map]
    rfl
  place _ _ := firstReadings_place
  applied := by
    intro c hc
    obtain ⟨choice, hchoice, rfl⟩ := List.mem_map.mp hc
    rw [meanings_ofChoice (length_of_mem_take_product hchoice)]
    rfl
  first := head?_firstReadings hne
  distinct := by
    have hproduct : (product (sites.map Site.meanings)).Nodup :=
      nodup_product (List.forall_mem_map.mpr hnodup)
    have hmeanings : ((firstReadings s sites).map
        fun c => c.resolutions.map Resolution.meaning).Nodup := by
      rw [map_meanings_firstReadings]
      exact hproduct.sublist (List.take_sublist _ _)
    refine List.Nodup.of_map (List.map Resolution.meaning) ?_
    rw [List.map_map]
    exact hmeanings
  alone := by
    rintro rfl
    rfl

/-- **The readings of a statement are the first choices of one meaning for each of its sites.** -/
theorem isListing_disambiguate (hd : d.Reachable) :
    IsListing s (detect text s d) (disambiguate text s d) := by
  rw [disambiguate_eq_firstReadings]
  exact isListing_firstReadings (fun _ => meanings_ne_nil) fun _ => nodup_meanings hd

/-- A question about the region of either source, for a month that can be read in two ways. -/
def monthlyRegionQuestion : List Char :=
  ["show region from orders".toList, " joined with customers on id = id".toList,
    " over last month".toList].flatten

/-- The readings of the question are listed by the choices for its month and its region. -/
theorem isListing_monthlyRegionQuestion : ∃ s, Statement.parse monthlyRegionQuestion = .ok s ∧
    regions.Reachable ∧ (detect monthlyRegionQuestion s regions).length = 2 ∧
    IsListing s (detect monthlyRegionQuestion s regions)
      (disambiguate monthlyRegionQuestion s regions) := by
  obtain ⟨s, hs, h⟩ := exists_parse monthlyRegionQuestion
    String.toList_ofList.symm
    (fun _ s => ((s.period.bind (Site.ofPeriod? monthlyRegionQuestion)).toList ++
      s.plainNames.filterMap (Site.ofName? monthlyRegionQuestion s regions)).length == 2)
    (by decide +kernel)
  refine ⟨s, hs, reachable_regions, ?_, isListing_disambiguate reachable_regions⟩
  rw [detect, (List.mergeSort_perm _ _).length_eq]
  exact beq_iff_eq.mp h

end DataPhrase
