/-
# The stages of a pipeline as they are written

A pipeline is read stage by stage into a draft of its statement. Here the stages are read without
the draft, and the draft is what comes of taking them one after another (`gives_readStages`).
-/
import DataPhrase.Proofs.Reading.Lexeme
import DataPhrase.Proofs.Statement.Equality
import DataPhrase.Statement.Pipeline

namespace DataPhrase.Pipeline

open Lexeme

deriving instance DecidableEq for StageBody

/-! ## Written stages -/

/-- A stage: its name, its kind, and what stands in its parentheses. -/
structure Written where
  name : String
  kind : StageKind
  body : StageBody
  deriving DecidableEq

/-- What the statement records of a stage, given the shape before it. -/
def Written.recorded (w : Written) (input : Shape) : Stage where
  name := w.name
  kind := w.kind
  input := input
  references := w.body.references
  defines := w.body.defines

namespace Draft

/-- The pipeline of a source before its first stage. -/
def start (source : String) : Draft where
  statement := { pattern := .arrowPipeline, source := source }

/-- The pipeline with one more stage. -/
def take (d : Draft) (w : Written) : Draft :=
  d.push w.name w.kind w.body

/-- None of the stages repeats one that may appear only once. -/
def Admits (d : Draft) : List Written → Prop
  | [] => True
  | w :: ws => d.has w.kind = false ∧ (d.take w).Admits ws

end Draft

/-! ## Reading stages -/

/-- Read the name of a stage and its opening parenthesis. -/
def opening : Phrase (String × StageKind) := do
  let named ← stageName
  mark "("
  pure named

/-- Read a stage. -/
def written : Phrase Written := do
  skipBlanks
  let named ← opening
  let body ← readBody named.2
  mark ")"
  pure ⟨named.1, named.2, body⟩

/-- Read stages, each after an arrow. -/
def writtenStages (s : List Char) : Outcome Cause s (List Written) :=
  match h : trim s with
  | '-' :: '>' :: t =>
    have ht : '-' :: '>' :: t <:+ s := h ▸ trim_suffix s
    have := length_lt_of_cons_suffix (suffix_of_cons_suffix ht)
    ((written t).andThen fun w r hr =>
      have := hr.length_le
      (writtenStages r).map (w :: ·)).widen (suffix_of_cons_suffix (suffix_of_cons_suffix ht))
  | _ => .done [] (trim s) (trim_suffix s)
termination_by s.length

/-- The source of a pipeline and its stages. -/
def stagesOf? (text : List Char) : Option (String × List Written) :=
  match (datasetName text).andThen fun source r _ => (writtenStages r).map (source, ·) with
  | .ok x => if x.rest.isEmpty then some x.value else none
  | .error _ => none

/-! ## Stages and drafts -/

variable {s r : List Char}

/-- A stage is read as it is written, and the draft takes it unless it has one of its kind. -/
theorem gives_stage {d e : Draft} : (stage d s).Gives e r ↔
    ∃ w, (written s).Gives w r ∧ d.has w.kind = false ∧ d.take w = e := by
  constructor
  · intro h
    obtain ⟨_, p, hp, h⟩ := Reader.gives_bind.mp h
    obtain ⟨⟨name, kind⟩, q, hq, h⟩ := Reader.gives_bind.mp h
    obtain ⟨body, u, hu, h⟩ := Reader.gives_bind.mp h
    obtain ⟨_, v, hv, h⟩ := Reader.gives_bind.mp h
    obtain ⟨rfl, rfl⟩ := Reader.gives_pure.mp h
    obtain ⟨named, hn, hd⟩ := Reader.gives_refine.mp hq
    cases hk : d.has named.2 with
    | true =>
      rw [hk, if_pos rfl] at hd
      cases hd
    | false =>
      rw [hk, if_neg Bool.false_ne_true] at hd
      cases hd
      refine ⟨⟨name, kind, body⟩, ?_, hk, rfl⟩
      exact Reader.gives_bind.mpr ⟨(), p, hp, Reader.gives_bind.mpr ⟨(name, kind), q, hn,
        Reader.gives_bind.mpr ⟨body, u, hu, Reader.gives_bind.mpr ⟨(), v, hv,
          Reader.gives_pure.mpr ⟨rfl, rfl⟩⟩⟩⟩⟩
  · rintro ⟨w, hw, hk, rfl⟩
    obtain ⟨_, p, hp, h⟩ := Reader.gives_bind.mp hw
    obtain ⟨⟨name, kind⟩, q, hq, h⟩ := Reader.gives_bind.mp h
    obtain ⟨body, u, hu, h⟩ := Reader.gives_bind.mp h
    obtain ⟨_, v, hv, h⟩ := Reader.gives_bind.mp h
    obtain ⟨rfl, rfl⟩ := Reader.gives_pure.mp h
    refine Reader.gives_bind.mpr ⟨(), p, hp, Reader.gives_bind.mpr ⟨(name, kind), q, ?_,
      Reader.gives_bind.mpr ⟨body, u, hu, Reader.gives_bind.mpr ⟨(), v, hv,
        Reader.gives_pure.mpr ⟨rfl, rfl⟩⟩⟩⟩⟩
    refine Reader.gives_refine.mpr ⟨(name, kind), hq, ?_⟩
    rw [hk]
    rfl

theorem gives_writtenStages_arrow {t : List Char} {ws : List Written}
    (hs : trim s = '-' :: '>' :: t) : (writtenStages s).Gives ws r ↔
      ∃ w q ws', (written t).Gives w q ∧ (writtenStages q).Gives ws' r ∧ w :: ws' = ws := by
  rw [writtenStages.eq_def]
  split
  · next u hu =>
    rw [hs] at hu
    cases hu
    rw [Outcome.gives_widen, Outcome.gives_andThen]
    constructor
    · rintro ⟨w, q, _, hw, h⟩
      obtain ⟨ws', hws, rfl⟩ := Outcome.gives_map.mp h
      exact ⟨w, q, ws', hw, hws, rfl⟩
    · rintro ⟨w, q, ws', hw, hws, rfl⟩
      exact ⟨w, q, hw.suffix, hw, Outcome.gives_map.mpr ⟨ws', hws, rfl⟩⟩
  · next hn => exact absurd hs (hn t)

theorem gives_writtenStages_end {ws : List Written} (hs : ∀ t, trim s ≠ '-' :: '>' :: t) :
    (writtenStages s).Gives ws r ↔ [] = ws ∧ trim s = r := by
  rw [writtenStages.eq_def]
  split
  · next u hu => exact absurd hu (hs u)
  · rw [Outcome.gives_done]

/-- Stages are read into a draft exactly if they can be read, and the draft takes them all. -/
theorem gives_readStages {d e : Draft} : (readStages d s).Gives e r ↔
    ∃ ws, (writtenStages s).Gives ws r ∧ d.Admits ws ∧ ws.foldl Draft.take d = e := by
  induction s using writtenStages.induct generalizing d with
  | case1 s t hs _ _ ih =>
    rw [readStages.eq_def]
    simp only [gives_writtenStages_arrow hs]
    split
    · next u hu =>
      rw [hs] at hu
      cases hu
      simp only [Outcome.gives_widen, Outcome.gives_andThen, gives_stage]
      constructor
      · rintro ⟨_, q, hq, ⟨w, hw, hk, rfl⟩, h⟩
        obtain ⟨ws, hws, ha, rfl⟩ := (ih q hq).mp h
        exact ⟨w :: ws, ⟨w, q, ws, hw, hws, rfl⟩, ⟨hk, ha⟩, rfl⟩
      · rintro ⟨_, ⟨w, q, ws, hw, hws, rfl⟩, ⟨hk, ha⟩, rfl⟩
        exact ⟨d.take w, q, hw.suffix, ⟨w, hw, hk, rfl⟩, (ih q hw.suffix).mpr ⟨ws, hws, ha, rfl⟩⟩
    · next hn => exact absurd hs (hn t)
  | case2 s hs =>
    rw [readStages.eq_def]
    simp only [gives_writtenStages_end (fun t ht => hs t ht), Outcome.gives_done]
    constructor
    · rintro ⟨rfl, rfl⟩
      exact ⟨[], ⟨rfl, rfl⟩, trivial, rfl⟩
    · rintro ⟨_, ⟨rfl, rfl⟩, -, rfl⟩
      exact ⟨rfl, rfl⟩

/-- Blanks in front of the first arrow do not count. -/
theorem gives_writtenStages_trim {ws : List Written} (h : (writtenStages (trim s)).Gives ws r) :
    (writtenStages s).Gives ws r := by
  by_cases hs : ∃ t, trim s = '-' :: '>' :: t
  · obtain ⟨t, hs⟩ := hs
    rw [gives_writtenStages_arrow (by rw [trim_trim, hs])] at h
    exact (gives_writtenStages_arrow hs).mpr h
  · have hs' : ∀ t, trim s ≠ '-' :: '>' :: t := fun t ht => hs ⟨t, ht⟩
    rw [gives_writtenStages_end (by rw [trim_trim]; exact hs'), trim_trim] at h
    exact (gives_writtenStages_end hs').mpr h

/-- A stage is recorded behind those before it. -/
theorem stages_take (d : Draft) (w : Written) :
    (d.take w).statement.stages = d.statement.stages ++ [w.recorded d.shape] := by
  obtain ⟨name, kind, body⟩ := w
  cases body <;> rfl

theorem pattern_take (d : Draft) (w : Written) :
    (d.take w).statement.pattern = d.statement.pattern := by
  obtain ⟨name, kind, body⟩ := w
  cases body <;> rfl

theorem pattern_foldl (d : Draft) (ws : List Written) :
    (ws.foldl Draft.take d).statement.pattern = d.statement.pattern := by
  induction ws generalizing d with
  | nil => rfl
  | cons w ws ih => rw [List.foldl_cons, ih, pattern_take]

/-- **A pipeline is what comes of taking its stages one after another.** -/
theorem exists_stagesOf? {text : List Char} {st : Statement} (h : (read text).Gives st []) :
    ∃ source ws, stagesOf? text = some (source, ws) ∧ (Draft.start source).Admits ws ∧
      (ws.foldl Draft.take (.start source)).statement = st := by
  obtain ⟨source, p, hp, h⟩ := Reader.gives_bind.mp h
  obtain ⟨_, q, hq, h⟩ := Reader.gives_bind.mp h
  obtain ⟨_, _, hl, h⟩ := Reader.gives_bind.mp h
  obtain ⟨rfl, rfl⟩ := Reader.gives_look.mp hl
  rw [gives_skipBlanks] at hq
  subst hq
  by_cases hs : ∃ t, trim p = '-' :: '>' :: t
  · obtain ⟨t, ht⟩ := hs
    rw [ht] at h
    obtain ⟨d, u, hd, h⟩ := Reader.gives_bind.mp h
    obtain ⟨_, _, hl, h⟩ := Reader.gives_bind.mp h
    obtain ⟨rfl, rfl⟩ := Reader.gives_look.mp hl
    rw [← ht] at hd
    split at h
    · obtain ⟨rfl, rfl⟩ := Reader.gives_pure.mp h
      obtain ⟨ws, hws, ha, rfl⟩ := gives_readStages.mp hd
      refine ⟨source, ws, ?_, ha, rfl⟩
      have hg : ((datasetName text).andThen fun source r _ =>
          (writtenStages r).map (source, ·)).Gives (source, ws) [] := by
        rw [Outcome.gives_andThen]
        exact ⟨source, p, hp.suffix, hp,
          Outcome.gives_map.mpr ⟨ws, gives_writtenStages_trim hws, rfl⟩⟩
      obtain ⟨_, hg⟩ := hg
      rw [stagesOf?, hg]
      rfl
    · exact absurd h not_gives_expected
  · have hn : ∀ t, trim p = '-' :: '>' :: t → False := fun t ht => hs ⟨t, ht⟩
    simp only at h
    exact absurd h not_gives_expected

/-- The source and the stages of a text are read one behind the other, to its end. -/
theorem gives_nil_of_stagesOf? {text : List Char} {source : String} {ws : List Written}
    (h : stagesOf? text = some (source, ws)) :
    ∃ q, (datasetName text).Gives source q ∧ (writtenStages q).Gives ws [] := by
  unfold stagesOf? at h
  split at h
  · next x hx =>
    split at h
    · next hend =>
      have hg : ((datasetName text).andThen fun source r _ =>
          (writtenStages r).map (source, ·)).Gives (source, ws) x.rest := by
        rw [hx]
        exact Outcome.gives_ok.mpr ⟨Option.some.inj h, rfl⟩
      obtain ⟨_, q, _, hs, hg⟩ := Outcome.gives_andThen.mp hg
      obtain ⟨ws', hws, he⟩ := Outcome.gives_map.mp hg
      cases he
      rw [List.isEmpty_iff.mp hend] at hws
      exact ⟨q, hs, hws⟩
    · cases h
  · cases h

theorem gives_of_stagesOf? {text : List Char} {source : String} {ws : List Written}
    (h : stagesOf? text = some (source, ws)) :
    ∃ q r, (datasetName text).Gives source q ∧ (writtenStages q).Gives ws r := by
  obtain ⟨q, hs, hws⟩ := gives_nil_of_stagesOf? h
  exact ⟨q, [], hs, hws⟩

theorem pattern_of_read {text : List Char} {st : Statement} (h : (read text).Gives st []) :
    st.pattern = .arrowPipeline := by
  obtain ⟨source, ws, -, -, rfl⟩ := exists_stagesOf? h
  exact pattern_foldl (.start source) ws

end DataPhrase.Pipeline
