/-
# Reachable dictionaries

A dictionary starts empty or with the built-in functions and grows by registrations. Whatever is
registered has been checked, so no entry of a reachable dictionary has a fault.
-/
import DataPhrase.Dictionary.Builtin
import DataPhrase.Proofs.Grammar.Names

namespace DataPhrase

/-! ## Entries -/

/-- An identifier is a plain name. -/
theorem isPlain_of_isIdentifier {n : String} (h : isIdentifier n = true) : IsPlain n := by
  rw [isIdentifier, Bool.and_eq_true, List.all_eq_true] at h
  intro hd
  have hc := h.2 _ hd
  revert hc
  decide

/-- Section and name of an entry without fault are identifiers. -/
theorem Definition.isIdentifier_of_fault? {x : Definition} {sec n : String}
    (h : x.fault? sec n = none) : isIdentifier sec = true ∧ isIdentifier n = true := by
  unfold Definition.fault? at h
  split at h
  · cases h
  · next hid =>
    rw [Bool.or_eq_true, not_or, Bool.not_eq_true', Bool.not_eq_false, Bool.not_eq_true',
      Bool.not_eq_false] at hid
    exact hid

/-- One entry more is the only new entry. -/
theorem mem_insertEntry {x e : Entry} {l : List Entry} (h : e ∈ insertEntry x l) :
    e = x ∨ e ∈ l := by
  induction l with
  | nil => exact Or.inl (List.mem_singleton.mp h)
  | cons y l ih =>
    rw [insertEntry] at h
    split at h
    · rcases List.mem_cons.mp h with h | h
      · exact Or.inl h
      · exact Or.inr (List.mem_cons_of_mem y h)
    · split at h
      · exact List.mem_cons.mp h
      · rcases List.mem_cons.mp h with rfl | h
        · exact Or.inr List.mem_cons_self
        · rcases ih h with h | h
          · exact Or.inl h
          · exact Or.inr (List.mem_cons_of_mem y h)

namespace Snapshot

variable {d d' : Snapshot}

/-! ## Reachable dictionaries -/

/-- The dictionaries that registrations can lead to. -/
inductive Reachable : Snapshot → Prop
  | empty : Reachable empty
  | withBuiltins : Reachable withBuiltins
  | register {d d' : Snapshot} {sec n : String} {x : Definition} {overwrite : Bool}
      (h : Reachable d) (hr : d.register sec n x overwrite = .ok d') : Reachable d'

/-- The dictionary with one more entry. -/
def put (d : Snapshot) (e : Entry) : Snapshot :=
  ⟨d.nextVersion, insertEntry e d.entries⟩

/-- A registration that succeeds puts in an entry without fault. -/
theorem register_ok {sec n : String} {x : Definition} {overwrite : Bool}
    (h : d.register sec n x overwrite = .ok d') :
    x.fault? sec n = none ∧ d' = d.put ⟨sec, n, x⟩ := by
  unfold register at h
  split at h
  · cases h
  · split at h
    · cases h
    · next hf =>
      cases h
      exact ⟨hf, rfl⟩

/-- Any entry without fault can be registered over what is there. -/
theorem Reachable.put {e : Entry} (h : Reachable d)
    (he : e.definition.fault? e.sectionName e.name = none) : Reachable (d.put e) := by
  refine @Reachable.register d _ e.sectionName e.name e.definition true h ?_
  rw [Snapshot.register, he]
  rfl

theorem fault?_builtins : (builtins.all fun e =>
    (e.definition.fault? e.sectionName e.name).isNone) = true := by
  decide +kernel

/-- **No entry of a reachable dictionary has a fault.** -/
theorem Reachable.fault?_eq_none (h : Reachable d) :
    ∀ e ∈ d.entries, e.definition.fault? e.sectionName e.name = none := by
  induction h with
  | empty =>
    intro e he
    cases he
  | withBuiltins =>
    intro e he
    exact Option.isNone_iff_eq_none.mp (List.all_eq_true.mp fault?_builtins e he)
  | register h hr ih =>
    obtain ⟨hf, rfl⟩ := register_ok hr
    intro e he
    rcases mem_insertEntry he with rfl | he
    · exact hf
    · exact ih e he

/-- Sections and names of a reachable dictionary are plain. -/
theorem Reachable.isPlain (h : Reachable d) {e : Entry} (he : e ∈ d.entries) :
    IsPlain e.sectionName ∧ IsPlain e.name := by
  obtain ⟨hs, hn⟩ := Definition.isIdentifier_of_fault? (h.fault?_eq_none e he)
  exact ⟨isPlain_of_isIdentifier hs, isPlain_of_isIdentifier hn⟩

/-- A registered column has an entry. -/
theorem exists_of_hasColumn {q n : String} (hc : d.hasColumn q n = true) :
    ∃ e ∈ d.entries, e.sectionName = q ∧ e.name = n := by
  rw [hasColumn, Option.any_eq_true] at hc
  obtain ⟨e, he, -⟩ := hc
  have hat := List.find?_some he
  rw [Entry.isAt, Bool.and_eq_true, beq_iff_eq, beq_iff_eq] at hat
  exact ⟨e, List.mem_of_find?_eq_some he, hat⟩

/-- A source with a registered column has a plain name. -/
theorem Reachable.isPlain_of_hasColumn (h : Reachable d) {q n : String}
    (hc : d.hasColumn q n = true) : IsPlain q := by
  obtain ⟨e, he, rfl, -⟩ := exists_of_hasColumn hc
  exact (h.isPlain he).1

/-- So has the column. -/
theorem Reachable.isPlain_column (h : Reachable d) {q n : String}
    (hc : d.hasColumn q n = true) : IsPlain n := by
  obtain ⟨e, he, -, rfl⟩ := exists_of_hasColumn hc
  exact (h.isPlain he).2

end Snapshot

end DataPhrase
