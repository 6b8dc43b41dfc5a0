/-
# The history of a dictionary

A dictionary answers one registration after another. Its version counts the registrations it has
accepted, and what it holds under a name is what was accepted last under that name, or else what it
started with.
-/
import DataPhrase.Proofs.Dictionary.Reachable
import DataPhrase.Proofs.Dictionary.Rendering
import Mathlib.Data.Prod.Lex
import Mathlib.Data.String.Basic

namespace DataPhrase

/-! ## Keys -/

namespace Entry

/-- Section and name of an entry, in the order of a dictionary. -/
def key (e : Entry) : String ×ₗ String :=
  toLex (e.sectionName, e.name)

theorem isAt_iff {s n : String} {e : Entry} : e.isAt s n = true ↔ e.key = toLex (s, n) := by
  rw [isAt, Bool.and_eq_true, beq_iff_eq, beq_iff_eq, key, toLex_inj, Prod.mk.injEq]

theorem before_iff {x e : Entry} : e.before x.sectionName x.name = true ↔ x.key < e.key := by
  rw [before, Bool.or_eq_true, Bool.and_eq_true, decide_eq_true_iff, decide_eq_true_iff,
    beq_iff_eq, key, key, Prod.Lex.toLex_lt_toLex]

end Entry

variable {x e : Entry} {l : List Entry}

/-- One entry more leaves a sorted list sorted. -/
theorem pairwise_insertEntry (h : l.Pairwise fun a b => a.key < b.key) :
    (insertEntry x l).Pairwise fun a b => a.key < b.key := by
  induction l with
  | nil => exact List.pairwise_singleton _ x
  | cons y l ih =>
    obtain ⟨hy, hl⟩ := List.pairwise_cons.mp h
    rw [insertEntry]
    split
    · next hat =>
      -- The new entry stands where the one of its key stood.
      have hkey : y.key = x.key := Entry.isAt_iff.mp hat
      exact List.pairwise_cons.mpr ⟨fun z hz => hkey ▸ hy z hz, hl⟩
    · next hat =>
      split
      · next hbefore =>
        have hlt : x.key < y.key := Entry.before_iff.mp hbefore
        refine List.pairwise_cons.mpr ⟨fun z hz => ?_, h⟩
        rcases List.mem_cons.mp hz with rfl | hz
        · exact hlt
        · exact hlt.trans (hy z hz)
      · next hbefore =>
        have hne : y.key ≠ x.key := fun he => hat (Entry.isAt_iff.mpr he)
        have hle : y.key ≤ x.key := not_lt.mp fun hlt => hbefore (Entry.before_iff.mpr hlt)
        refine List.pairwise_cons.mpr ⟨fun z hz => ?_, ih hl⟩
        rcases mem_insertEntry hz with rfl | hz
        · exact lt_of_le_of_ne hle hne
        · exact hy z hz

/-- The new entry is found under its key, and nothing else changes. -/
theorem find?_insertEntry (x : Entry) (l : List Entry) (s n : String) :
    (insertEntry x l).find? (Entry.isAt s n) =
      if x.isAt s n then some x else l.find? (Entry.isAt s n) := by
  induction l with
  | nil => rw [insertEntry, List.find?_singleton, List.find?_nil]
  | cons y l ih =>
    rw [insertEntry]
    split
    · next hat =>
      -- An entry in the place of the new one has its key.
      have hsame : y.isAt s n = x.isAt s n :=
        Bool.eq_iff_iff.mpr (by rw [Entry.isAt_iff, Entry.isAt_iff, Entry.isAt_iff.mp hat]; rfl)
      by_cases hx : x.isAt s n = true
      · simp [hx]
      · simp [hsame, hx]
    · next hat =>
      split
      · by_cases hx : x.isAt s n = true
        · simp [hx]
        · simp [hx]
      · rw [List.find?_cons, List.find?_cons, ih]
        by_cases hy : y.isAt s n = true
        · have hx : ¬ x.isAt s n = true := by
            intro hx
            exact hat (Entry.isAt_iff.mpr ((Entry.isAt_iff.mp hy).trans (Entry.isAt_iff.mp hx).symm))
          simp [hy, hx]
        · simp [hy]

/-- What holds of a registered entry. -/
structure Entry.IsSound (e : Entry) : Prop where
  sectionName : isIdentifier e.sectionName = true
  name : isIdentifier e.name = true
  bare : e.definition.category = .column → ∀ t, e.template t = none
  templated : e.definition.category ≠ .column → ∃ t, (e.template t).isSome
  closed : e.definition.category = .metric → ∀ t x, e.template t = some x → x.arity = 0

/-- What a fault of an entry says. One of its names comes before one of its templates. -/
inductive Entry.HasFault (e : Entry) : EntryFault → Prop
  | notIdentifier (h : ¬ (isIdentifier e.sectionName = true ∧ isIdentifier e.name = true)) :
      HasFault e .notIdentifier
  | columnTemplates (hs : isIdentifier e.sectionName = true) (hn : isIdentifier e.name = true)
      (hc : e.definition.category = .column) (h : ∃ t, (e.template t).isSome) :
      HasFault e .columnTemplates
  | noTemplate (hs : isIdentifier e.sectionName = true) (hn : isIdentifier e.name = true)
      (hc : e.definition.category ≠ .column) (h : ∀ t, e.template t = none) :
      HasFault e .noTemplate
  | metricPlaceholders (hs : isIdentifier e.sectionName = true) (hn : isIdentifier e.name = true)
      (hc : e.definition.category = .metric)
      (h : ∃ t x, e.template t = some x ∧ x.arity ≠ 0) : HasFault e .metricPlaceholders

/-- The values of a table are those of its targets. -/
theorem PerTarget.mem_toList {α : Type} {ts : PerTarget α} {t : Target} {a : α} :
    (t, a) ∈ ts.toList ↔ ts.get t = some a := by
  have ht : t ∈ Target.all := by cases t <;> decide
  rw [toList, List.mem_filterMap]
  constructor
  · rintro ⟨t', -, h⟩
    obtain ⟨a', ha, h⟩ := Option.map_eq_some_iff.mp h
    cases h
    exact ha
  · intro h
    exact ⟨t, ht, Option.map_eq_some_iff.mpr ⟨a, h, rfl⟩⟩

/-- A table without values has none for any target. -/
theorem PerTarget.isEmpty_toList {α : Type} {ts : PerTarget α} :
    ts.toList.isEmpty = true ↔ ∀ t, ts.get t = none := by
  rw [List.isEmpty_iff, List.eq_nil_iff_forall_not_mem]
  constructor
  · intro h t
    refine Option.eq_none_iff_forall_ne_some.mpr ?_
    intro a ha
    exact h (t, a) (mem_toList.mpr ha)
  · rintro h ⟨t, a⟩ ha
    rw [mem_toList, h t] at ha
    cases ha

namespace Entry

/-- An entry has templates if it has one for some target. -/
theorem isEmpty_templates :
    e.definition.templates.toList.isEmpty = true ↔ ¬ ∃ t, (e.template t).isSome := by
  rw [PerTarget.isEmpty_toList, not_exists]
  exact forall_congr' fun t => Option.not_isSome_iff_eq_none.symm

/-- A template needs arguments if the template for some target does. -/
theorem any_arity : (e.definition.templates.toList.any fun x => 0 < x.2.arity) = true ↔
    ∃ t x, e.template t = some x ∧ x.arity ≠ 0 := by
  simp only [List.any_eq_true, Prod.exists, PerTarget.mem_toList, decide_eq_true_iff,
    Nat.pos_iff_ne_zero, template]

/-- What a fault says is found. -/
theorem HasFault.fault?_eq {f : EntryFault} (h : e.HasFault f) :
    e.definition.fault? e.sectionName e.name = some f := by
  cases h with
  | notIdentifier h =>
    rw [Definition.fault?, if_pos (by simpa [Classical.or_iff_not_imp_left] using h)]
  | columnTemplates hs hn hc h =>
    have hempty : e.definition.templates.toList.isEmpty = false :=
      Bool.eq_false_iff.mpr fun he => isEmpty_templates.mp he h
    simp only [Definition.fault?, hs, hn, hc, hempty]
    rfl
  | noTemplate hs hn hc h =>
    have hempty : e.definition.templates.toList.isEmpty = true := PerTarget.isEmpty_toList.mpr h
    cases hcat : e.definition.category with
    | column => exact absurd hcat hc
    | function => simp only [Definition.fault?, hs, hn, hcat, hempty]; rfl
    | metric => simp only [Definition.fault?, hs, hn, hcat, hempty]; rfl
  | metricPlaceholders hs hn hc h =>
    have hsome : ∃ t, (e.template t).isSome := by
      obtain ⟨t, x, hx, -⟩ := h
      exact ⟨t, by rw [hx]; rfl⟩
    have hany := any_arity.mpr h
    have hempty : e.definition.templates.toList.isEmpty = false :=
      Bool.eq_false_iff.mpr fun he => isEmpty_templates.mp he hsome
    simp only [Definition.fault?, hs, hn, hc, hempty, hany]
    rfl

/-- What is found is what the fault says. -/
theorem hasFault_of_fault? {f : EntryFault}
    (h : e.definition.fault? e.sectionName e.name = some f) : e.HasFault f := by
  unfold Definition.fault? at h
  split at h
  · next hid =>
    cases h
    exact .notIdentifier (by simpa [Classical.or_iff_not_imp_left] using hid)
  · next hid =>
    have hid : isIdentifier e.sectionName = true ∧ isIdentifier e.name = true := by
      simpa [not_or] using hid
    obtain ⟨hs, hn⟩ := hid
    split at h
    · next hc =>
      split at h
      · cases h
      · next hempty =>
        cases h
        exact .columnTemplates hs hn hc (not_not.mp (isEmpty_templates.not.mp hempty))
    · next hc =>
      split at h
      · next hempty =>
        cases h
        exact .noTemplate hs hn (by simp [hc]) (PerTarget.isEmpty_toList.mp hempty)
      · cases h
    · next hc =>
      split at h
      · next hempty =>
        cases h
        exact .noTemplate hs hn (by simp [hc]) (PerTarget.isEmpty_toList.mp hempty)
      · split at h
        · next hany =>
          cases h
          exact .metricPlaceholders hs hn hc (any_arity.mp hany)
        · cases h

/-- **The fault that an entry is refused for.** -/
theorem hasFault_iff {f : EntryFault} :
    e.HasFault f ↔ e.definition.fault? e.sectionName e.name = some f :=
  ⟨HasFault.fault?_eq, hasFault_of_fault?⟩

/-- An entry is sound if it has no fault. -/
theorem isSound_iff : e.IsSound ↔ e.definition.fault? e.sectionName e.name = none := by
  rw [Option.eq_none_iff_forall_ne_some]
  simp only [ne_eq, ← hasFault_iff]
  constructor
  · rintro ⟨hs, hn, hbare, htemplated, hclosed⟩ f hf
    cases hf with
    | notIdentifier h => exact h ⟨hs, hn⟩
    | columnTemplates _ _ hc h =>
      obtain ⟨t, ht⟩ := h
      simp [hbare hc t] at ht
    | noTemplate _ _ hc h =>
      obtain ⟨t, ht⟩ := htemplated hc
      simp [h t] at ht
    | metricPlaceholders _ _ hc h =>
      obtain ⟨t, x, hx, harity⟩ := h
      exact harity (hclosed hc t x hx)
  · intro h
    have hid : isIdentifier e.sectionName = true ∧ isIdentifier e.name = true :=
      not_not.mp fun hid => h _ (.notIdentifier hid)
    obtain ⟨hs, hn⟩ := hid
    refine ⟨hs, hn, fun hc t => ?_, fun hc => ?_, fun hc t x hx => ?_⟩
    · exact Option.not_isSome_iff_eq_none.mp fun ht => h _ (.columnTemplates hs hn hc ⟨t, ht⟩)
    · by_contra hnone
      exact h _ (.noTemplate hs hn hc fun t =>
        Option.not_isSome_iff_eq_none.mp fun ht => hnone ⟨t, ht⟩)
    · by_contra harity
      exact h _ (.metricPlaceholders hs hn hc ⟨t, x, hx, harity⟩)

end Entry

/-! ## Registrations -/

/-- A call that registers a definition. -/
structure Registration where
  sectionName : String
  name : String
  definition : Definition
  overwrite : Bool
  deriving DecidableEq, Repr

namespace Registration

/-- The entry that a call asks for. -/
def entry (c : Registration) : Entry :=
  ⟨c.sectionName, c.name, c.definition⟩

/-- The call is about the section `s` and the name `n`. -/
def isAt (s n : String) (c : Registration) : Bool :=
  c.entry.isAt s n

end Registration

namespace Snapshot

/-- The answer to a call, which is the version it makes or an error, and the dictionary behind it.
A call that fails leaves the dictionary alone. -/
def answer (d : Snapshot) (c : Registration) : Except DictionaryError Nat × Snapshot :=
  match d.register c.sectionName c.name c.definition c.overwrite with
  | .ok d' => (.ok d'.version, d')
  | .error x => (.error x, d)

/-- The dictionary behind a sequence of calls. -/
def after (d : Snapshot) (cs : List Registration) : Snapshot :=
  cs.foldl (fun d c => (d.answer c).2) d

/-- The calls of a sequence that do not fail. -/
def accepted (d : Snapshot) : List Registration → List Registration
  | [] => []
  | c :: cs =>
    match d.answer c with
    | (.ok _, d') => c :: d'.accepted cs
    | (.error _, _) => d.accepted cs

variable {d : Snapshot} {c : Registration}

/-! ### One call -/

/-- The three answers to a call, in the order in which they are given: the name is taken, the
definition has a fault, or the entry is put in. -/
theorem answer_eq (d : Snapshot) (c : Registration) : d.answer c =
    if c.overwrite = false ∧ (d.lookup c.sectionName c.name).isSome then
      (.error (.duplicateName c.sectionName c.name), d)
    else match c.definition.fault? c.sectionName c.name with
      | some f => (.error (.invalidEntry c.sectionName c.name f), d)
      | none => (.ok d.nextVersion, d.put c.entry) := by
  unfold answer register
  by_cases htaken : c.overwrite = false ∧ (d.lookup c.sectionName c.name).isSome
  · rw [if_pos htaken, if_pos (by simp [htaken])]
  · rw [if_neg htaken, if_neg (by simpa using htaken)]
    cases c.definition.fault? c.sectionName c.name with
    | some f => rfl
    | none => rfl

/-- What one call does: it fails and changes nothing, or it puts in an entry without fault. Without
overwrite it is answered with an entry only if its name was free. -/
theorem answer_cases (d : Snapshot) (c : Registration) :
    (∃ x, d.answer c = (.error x, d)) ∨
      d.answer c = (.ok d.nextVersion, d.put c.entry) ∧
        c.definition.fault? c.sectionName c.name = none ∧
        (c.overwrite = false → d.lookup c.sectionName c.name = none) := by
  rw [answer_eq]
  split
  · exact Or.inl ⟨_, rfl⟩
  · next hfree =>
    cases hf : c.definition.fault? c.sectionName c.name with
    | some f => exact Or.inl ⟨_, rfl⟩
    | none =>
      refine Or.inr ⟨rfl, rfl, fun ho => ?_⟩
      exact Option.not_isSome_iff_eq_none.mp fun hsome => hfree ⟨ho, hsome⟩

theorem lookup_put (d : Snapshot) (e : Entry) (s n : String) :
    (d.put e).lookup s n = if e.isAt s n then some e else d.lookup s n :=
  find?_insertEntry e d.entries s n

/-- Without overwrite a call leaves every entry as it is. -/
theorem lookup_answer (ho : c.overwrite = false) {s n : String} (h : d.lookup s n = some e) :
    (d.answer c).2.lookup s n = some e := by
  rcases answer_cases d c with ⟨x, hx⟩ | ⟨hok, -, hfree⟩
  · rw [hx, h]
  · rw [hok, lookup_put]
    split
    · next hat =>
      -- The name of the call is free, so the entry that is looked up has another one.
      have hkey : c.sectionName = s ∧ c.name = n := by
        simpa [Registration.entry, Entry.isAt] using hat
      rw [← hkey.1, ← hkey.2, hfree ho] at h
      cases h
    · exact h

/-- The name of a call may be written: it is free, or the call overwrites what is there. -/
def Admits (d : Snapshot) (c : Registration) : Prop :=
  c.overwrite = true ∨ d.lookup c.sectionName c.name = none

theorem admits_iff :
    d.Admits c ↔ ¬ (c.overwrite = false ∧ (d.lookup c.sectionName c.name).isSome) := by
  rw [Admits, not_and_or, Bool.not_eq_false, Option.not_isSome_iff_eq_none]

/-- What a call is answered, and what the dictionary is afterwards. A name that may not be written
comes first, a fault of the definition second. -/
structure Answers (d : Snapshot) (c : Registration) : Prop where
  accepted : ∀ v, (d.answer c).1 = .ok v ↔ d.nextVersion = v ∧ d.Admits c ∧ c.entry.IsSound
  taken : ∀ s n, (d.answer c).1 = .error (.duplicateName s n) ↔
    c.sectionName = s ∧ c.name = n ∧ ¬ d.Admits c
  faulty : ∀ s n f, (d.answer c).1 = .error (.invalidEntry s n f) ↔
    c.sectionName = s ∧ c.name = n ∧ d.Admits c ∧ c.entry.HasFault f
  refused : ∀ x, (d.answer c).1 = .error x → (d.answer c).2 = d
  published : ∀ v, (d.answer c).1 = .ok v → (d.answer c).2.version = v ∧
    ∀ s n, (d.answer c).2.lookup s n = if c.isAt s n then some c.entry else d.lookup s n
  kept : c.overwrite = false → ∀ s n e, d.lookup s n = some e →
    (d.answer c).2.lookup s n = some e

/-- **Every call is answered so.** -/
theorem answers (d : Snapshot) (c : Registration) : d.Answers c := by
  have hsound : c.entry.IsSound ↔ c.definition.fault? c.sectionName c.name = none :=
    Entry.isSound_iff
  have hfault (f : EntryFault) :
      c.entry.HasFault f ↔ c.definition.fault? c.sectionName c.name = some f :=
    Entry.hasFault_iff
  by_cases htaken : c.overwrite = false ∧ (d.lookup c.sectionName c.name).isSome
  · have hanswer : d.answer c = (.error (.duplicateName c.sectionName c.name), d) := by
      rw [answer_eq, if_pos htaken]
    have hadmits : ¬ d.Admits c := by rwa [admits_iff, not_not]
    exact ⟨by simp [hanswer, hadmits], by simp [hanswer, hadmits], by simp [hanswer, hadmits],
      by simp [hanswer], by simp [hanswer], fun ho s n e => lookup_answer ho⟩
  · have hadmits : d.Admits c := admits_iff.mpr htaken
    cases hf : c.definition.fault? c.sectionName c.name with
    | some f =>
      have hanswer : d.answer c = (.error (.invalidEntry c.sectionName c.name f), d) := by
        rw [answer_eq, if_neg htaken, hf]
      exact ⟨by simp [hanswer, hsound, hf], by simp [hanswer, hadmits],
        by simp [hanswer, hadmits, hfault, hf], by simp [hanswer], by simp [hanswer],
        fun ho s n e => lookup_answer ho⟩
    | none =>
      have hanswer : d.answer c = (.ok d.nextVersion, d.put c.entry) := by
        rw [answer_eq, if_neg htaken, hf]
      have hpublished : ∀ v, (d.answer c).1 = .ok v → (d.answer c).2.version = v ∧
          ∀ s n, (d.answer c).2.lookup s n =
            if c.isAt s n then some c.entry else d.lookup s n := by
        rw [hanswer]
        rintro v ⟨⟩
        exact ⟨rfl, lookup_put d c.entry⟩
      exact ⟨by simp [hanswer, hadmits, hsound, hf], by simp [hanswer, hadmits],
        by simp [hanswer, hfault, hf], by simp [hanswer], hpublished,
        fun ho s n e => lookup_answer ho⟩

/-! ### Sequences of calls -/

/-- A step to a dictionary that calls can lead to. -/
theorem Reachable.answer (h : Reachable d) (c : Registration) : Reachable (d.answer c).2 := by
  rcases answer_cases d c with ⟨x, hx⟩ | ⟨hok, hf, -⟩
  · rw [hx]
    exact h
  · rw [hok]
    exact h.put hf

theorem Reachable.after (h : Reachable d) (cs : List Registration) : Reachable (d.after cs) := by
  induction cs generalizing d with
  | nil => exact h
  | cons c cs ih => exact ih (h.answer c)

/-- The entries of a reachable dictionary are sorted by their keys. -/
theorem Reachable.pairwise (h : Reachable d) : d.entries.Pairwise fun a b => a.key < b.key := by
  induction h with
  | empty => exact .nil
  | withBuiltins =>
    show builtins.Pairwise _
    have h : builtins.Pairwise fun a b => Entry.before a.sectionName a.name b = true := by
      decide +kernel
    exact h.imp fun hab => Entry.before_iff.mp hab
  | register h hr ih =>
    obtain ⟨-, rfl⟩ := register_ok hr
    exact pairwise_insertEntry ih

end Snapshot

/-! ## Metrics -/

end DataPhrase
