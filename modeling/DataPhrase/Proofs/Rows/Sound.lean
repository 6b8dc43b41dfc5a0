/-
# Stages of a pipeline that passes the checks

In a pipeline that passes the checks each stage goes together with every stage before it, and after
an aggregation only group keys and aliases are read (`sound_of_passes`).
-/
import DataPhrase.Proofs.Rows.Phases
import DataPhrase.Proofs.Validation.Passes

namespace DataPhrase

/-! ## Splitting findings -/

namespace Check

/-- Nothing is found at a stage that stands between others. -/
theorem stageFindings_of_stagesFindings (before : List Stage) {pre post : List Stage} {st : Stage}
    (h : stagesFindings before (pre ++ st :: post) = []) :
    stageFindings (before ++ pre) st post = [] := by
  induction pre generalizing before with
  | nil =>
    rw [List.nil_append, stagesFindings] at h
    rw [List.append_nil]
    exact (List.append_eq_nil_iff.mp h).1
  | cons e pre ih =>
    rw [List.cons_append, stagesFindings] at h
    have := ih (before ++ [e]) (List.append_eq_nil_iff.mp h).2
    rwa [List.append_assoc] at this

variable {before after : List Stage} {st : Stage} (h : stageFindings before st after = [])

include h

/-- A stage that passes may follow those in front of it. -/
theorem mayFollow_of_stageFindings {e : Stage} (he : e ∈ before) :
    mayFollow e.kind st.kind = true := by
  have hf := (List.append_eq_nil_iff.mp h).2
  split at hf
  · cases hf
  · next hn =>
    have := List.find?_eq_none.mp hn e he
    simpa using this

/-- What a stage reads is defined up to that stage, or not at all behind it. -/
theorem defines_of_stageFindings {r : String} (hr : r ∈ st.references) :
    (∃ e ∈ before ++ [st], (splitName r).2 ∈ e.defines) ∨
      ∀ e ∈ after, (splitName r).2 ∉ e.defines := by
  have hf := List.flatMap_eq_nil_iff.mp (List.append_eq_nil_iff.mp h).1 r hr
  dsimp only at hf
  split at hf
  · next hd =>
    obtain ⟨e, he, hc⟩ := List.any_eq_true.mp hd
    exact Or.inl ⟨e, he, List.contains_iff_mem.mp hc⟩
  · split at hf
    · cases hf
    · next hn =>
      right
      intro e he hd
      exact List.find?_eq_none.mp hn e he (List.contains_iff_mem.mpr hd)

end Check

namespace Rows

/-! ## Named stages -/

/-- A stage with the name that it is written with. -/
structure NamedStage where
  name : String
  stage : RowStage

namespace NamedStage

/-- The stage as it is written. -/
def written (x : NamedStage) : Pipeline.Written :=
  ⟨x.name, x.stage.kind, x.stage.body⟩

/-- The record of the stage, given the shape before it. -/
def record (x : NamedStage) (input : Shape) : Stage :=
  ⟨x.name, x.stage.kind, input, x.stage.body.references, x.stage.body.defines⟩

end NamedStage

/-- The stages of a pipeline have the names they are written with. -/
theorem exists_named {ws : List Pipeline.Written} {l : List RowStage}
    (h : ws.mapM RowStage.ofWritten? = some l) :
    ∃ xs : List NamedStage, ws = xs.map NamedStage.written ∧ l = xs.map NamedStage.stage := by
  induction ws generalizing l with
  | nil =>
    cases h
    exact ⟨[], rfl, rfl⟩
  | cons w ws ih =>
    rw [List.mapM_cons] at h
    obtain ⟨x, hx, h⟩ := Option.bind_eq_some_iff.mp h
    obtain ⟨l', hl, h⟩ := Option.bind_eq_some_iff.mp h
    cases h
    obtain ⟨xs, rfl, rfl⟩ := ih hl
    obtain ⟨hk, hb⟩ := RowStage.of_ofWritten? hx
    refine ⟨⟨w.name, x⟩ :: xs, ?_, rfl⟩
    rw [List.map_cons, NamedStage.written, ← hk, ← hb]

/-! ## Drafts -/

/-- A draft with further stages. -/
def draft (d : Pipeline.Draft) (xs : List NamedStage) : Pipeline.Draft :=
  (xs.map NamedStage.written).foldl Pipeline.Draft.take d

theorem draft_append (d : Pipeline.Draft) (xs ys : List NamedStage) :
    draft d (xs ++ ys) = draft (draft d xs) ys := by
  rw [draft, List.map_append, List.foldl_append]
  rfl

/-- The records of stages that are taken by a draft. -/
def records (d : Pipeline.Draft) : List NamedStage → List Stage
  | [] => []
  | x :: xs => x.record d.shape :: records (d.take x.written) xs

/-- What is recorded of stages is recorded one after another. -/
theorem records_append (d : Pipeline.Draft) (xs ys : List NamedStage) :
    records d (xs ++ ys) = records d xs ++ records (draft d xs) ys := by
  induction xs generalizing d with
  | nil => rfl
  | cons x xs ih =>
    rw [List.cons_append, records, ih, records]
    rfl

theorem stages_take (d : Pipeline.Draft) (x : NamedStage) :
    (d.take x.written).statement.stages = d.statement.stages ++ [x.record d.shape] := by
  obtain ⟨name, w⟩ := x
  cases w <;> rfl

/-- A draft has recorded the stages that were added to it. -/
theorem stages_draft (d : Pipeline.Draft) (xs : List NamedStage) :
    (draft d xs).statement.stages = d.statement.stages ++ records d xs := by
  induction xs generalizing d with
  | nil => exact (List.append_nil _).symm
  | cons x xs ih =>
    show (draft (d.take x.written) xs).statement.stages = _
    rw [ih, stages_take, List.append_assoc, records, List.singleton_append]

/-- Each record is that of a stage. -/
theorem exists_of_mem_records {d : Pipeline.Draft} {xs : List NamedStage} {st : Stage}
    (h : st ∈ records d xs) : ∃ x ∈ xs, ∃ input, st = x.record input := by
  induction xs generalizing d with
  | nil => cases h
  | cons x xs ih =>
    rw [records] at h
    rcases List.mem_cons.mp h with rfl | h
    · exact ⟨x, List.mem_cons_self, d.shape, rfl⟩
    · obtain ⟨y, hy, hst⟩ := ih h
      exact ⟨y, List.mem_cons_of_mem x hy, hst⟩

/-- Each stage has a record. -/
theorem exists_mem_records (d : Pipeline.Draft) {xs : List NamedStage} {x : NamedStage}
    (h : x ∈ xs) : ∃ input, x.record input ∈ records d xs := by
  induction xs generalizing d with
  | nil => cases h
  | cons y xs ih =>
    rw [records]
    rcases List.mem_cons.mp h with rfl | h
    · exact ⟨d.shape, List.mem_cons_self⟩
    · obtain ⟨input, hi⟩ := ih (d.take y.written) h
      exact ⟨input, List.mem_cons_of_mem _ hi⟩

theorem aliases_take (d : Pipeline.Draft) (x : NamedStage) :
    (d.take x.written).statement.aliases = d.statement.aliases ++ x.stage.defines := by
  obtain ⟨name, w⟩ := x
  cases w with
  | aggregate as => exact List.filterMap_append
  | calculate cs => exact List.filterMap_append
  | select fields => exact List.filterMap_append
  | _ => exact (List.append_nil _).symm

/-- The aliases of a draft are those its stages define. -/
theorem aliases_draft (d : Pipeline.Draft) (xs : List NamedStage) :
    (draft d xs).statement.aliases =
      d.statement.aliases ++ xs.flatMap fun x => x.stage.defines := by
  induction xs generalizing d with
  | nil => exact (List.append_nil _).symm
  | cons x xs ih =>
    show (draft (d.take x.written) xs).statement.aliases = _
    rw [ih, aliases_take, List.append_assoc, List.flatMap_cons]

theorem keys_take (d : Pipeline.Draft) (x : NamedStage) :
    (d.take x.written).statement.group.getD [] =
      RowStage.keysAfter (d.statement.group.getD []) x.stage := by
  obtain ⟨name, w⟩ := x
  cases w <;> rfl

/-- The keys of a draft are those of its last grouping. -/
theorem keys_draft (d : Pipeline.Draft) (xs : List NamedStage) :
    (draft d xs).statement.group.getD [] =
      (xs.map NamedStage.stage).foldl RowStage.keysAfter (d.statement.group.getD []) := by
  induction xs generalizing d with
  | nil => rfl
  | cons x xs ih =>
    show (draft (d.take x.written) xs).statement.group.getD [] = _
    rw [ih, keys_take, List.map_cons, List.foldl_cons]

/-! ## Stages that come once -/

/-- What a draft has stays when another kind of stage is added. -/
theorem has_take {d : Pipeline.Draft} {x : NamedStage} {k : StageKind}
    (h : d.has k = true) (hx : x.stage.kind ≠ k) : (d.take x.written).has k = true := by
  obtain ⟨name, w⟩ := x
  cases k with
  | group => cases w <;> first | exact h | exact absurd rfl hx
  | sort => cases w <;> first | exact h | exact absurd rfl hx
  | limit => cases w <;> first | exact h | exact absurd rfl hx
  | during => cases w <;> exact h
  | _ => cases h

/-- A draft that has a stage of a kind that comes once takes no other. -/
theorem kind_ne_of_has {d : Pipeline.Draft} {xs : List NamedStage} {k : StageKind}
    (h : d.has k = true) (ha : d.Admits (xs.map NamedStage.written)) :
    ∀ x ∈ xs, x.stage.kind ≠ k := by
  induction xs generalizing d with
  | nil =>
    intro x hx
    cases hx
  | cons y xs ih =>
    obtain ⟨hy, ha⟩ := ha
    have hk : y.stage.kind ≠ k := by
      rintro rfl
      exact Bool.noConfusion (hy.symm.trans h)
    exact List.forall_mem_cons.mpr ⟨hk, ih (has_take h hk) ha⟩

/-- After a sorting or a grouping, no other one is admitted. -/
theorem once_of_admits {d : Pipeline.Draft} {x : NamedStage} {xs : List NamedStage}
    (hx : x.stage.IsWritten) (ha : d.Admits ((x :: xs).map NamedStage.written)) :
    ∀ y ∈ xs, x.stage.kind = y.stage.kind →
      x.stage.kind ≠ .sort ∧ x.stage.kind ≠ .group := by
  intro y hy hk
  obtain ⟨-, ha⟩ := ha
  constructor
  · intro hs
    refine kind_ne_of_has (k := .sort) ?_ ha y hy (hk ▸ hs)
    obtain ⟨name, w⟩ := x
    cases w with
    | sort order =>
      show (!order.isEmpty) = true
      rw [Bool.not_eq_true', List.isEmpty_eq_false_iff]
      exact hx
    | _ => cases hs
  · intro hg
    refine kind_ne_of_has (k := .group) ?_ ha y hy (hk ▸ hg)
    obtain ⟨name, w⟩ := x
    cases w with
    | group keys => rfl
    | _ => cases hg

/-- Stages that are admitted in a row are admitted from any of them on. -/
theorem admits_append {d : Pipeline.Draft} {xs ys : List NamedStage}
    (h : d.Admits ((xs ++ ys).map NamedStage.written)) :
    (draft d xs).Admits (ys.map NamedStage.written) := by
  induction xs generalizing d with
  | nil => exact h
  | cons x xs ih => exact ih h.2

/-! ## Shapes -/

/-- The shape is closed, and all of its columns are among the given ones. -/
def Within (allowed : List String) : Shape → Prop
  | .opened _ => False
  | .closed columns => ∀ c ∈ columns, columnOf c ∈ allowed

/-- A stage that finds its columns in the shape before it reads what the shape holds. -/
theorem mem_of_within {allowed : List String} (st : Stage) (h : Within allowed st.input)
    (hs : Check.scopeFindings st = []) {r : String} (hr : r ∈ st.references) :
    columnOf r ∈ allowed := by
  unfold Check.scopeFindings at hs
  split at hs
  · next hi =>
    rw [hi] at h
    exact h.elim
  · next columns hi =>
    rw [hi] at h
    rw [List.map_eq_nil_iff, List.filter_eq_nil_iff] at hs
    have ha : Check.isAvailable columns r = true := by simpa using hs r hr
    obtain ⟨c, hc, he⟩ := List.any_eq_true.mp ha
    have hcr : columnOf c = columnOf r := by
      rcases Bool.or_eq_true _ _ ▸ he with he | he
      · rw [beq_iff_eq.mp he]
      · exact beq_iff_eq.mp he
    exact hcr ▸ h c hc

/-- Names that are allowed may be added to a shape. -/
theorem within_foldl_add {allowed names : List String} {shape : Shape} (h : Within allowed shape)
    (hn : ∀ n ∈ names, columnOf n ∈ allowed) : Within allowed (names.foldl Shape.add shape) := by
  induction names generalizing shape with
  | nil => exact h
  | cons n names ih =>
    refine ih ?_ fun m hm => hn m (List.mem_cons_of_mem n hm)
    cases shape with
    | opened derived => exact h
    | closed columns =>
      intro c hc
      rcases List.mem_append.mp hc with hc | hc
      · exact h c hc
      · obtain rfl := List.mem_singleton.mp hc
        exact hn c List.mem_cons_self

/-- A name that a written stage defines is the name of a column. -/
theorem columnOf_of_mem_defines {w : RowStage} (h : w.IsWritten) {n : String}
    (hn : n ∈ w.defines) : columnOf n = n := by
  have key : ∀ ops : List Operation, (∀ op ∈ ops, op.IsWritten) →
      n ∈ ops.filterMap Operation.alias? → columnOf n = n := by
    intro ops ho hm
    obtain ⟨op, hop, ha⟩ := List.mem_filterMap.mp hm
    exact columnOf_of_isPlain ((ho op hop).aliasName n ha)
  cases w with
  | aggregate as => exact key _ h.2 hn
  | calculate cs => exact key _ h.2 hn
  | _ => cases hn

/-- A stage without an aggregation keeps the columns among the given ones, if its aliases are. -/
theorem within_take {allowed : List String} {d : Pipeline.Draft} {x : NamedStage}
    (h : Within allowed d.shape) (hw : x.stage.IsWritten) (hagg : x.stage.isAggregate = false)
    (hs : Check.scopeFindings (x.record d.shape) = [])
    (hd : ∀ n ∈ x.stage.defines, n ∈ allowed) : Within allowed (d.take x.written).shape := by
  have hd' : ∀ n ∈ x.stage.defines, columnOf n ∈ allowed := by
    intro n hn
    rw [columnOf_of_mem_defines hw hn]
    exact hd n hn
  have hread : ∀ r ∈ x.stage.body.references, columnOf r ∈ allowed :=
    fun r hr => mem_of_within (x.record d.shape) h hs hr
  obtain ⟨name, w⟩ := x
  cases w with
  | aggregate as => cases hagg
  | calculate cs => exact within_foldl_add h hd'
  | select fields => exact hread
  | _ => exact h

/-- The shape of a draft stays within the names that its stages may use. -/
theorem within_draft {allowed : List String} {d : Pipeline.Draft} {xs : List NamedStage}
    (h : Within allowed d.shape) (hw : ∀ x ∈ xs, x.stage.IsWritten)
    (hagg : ∀ x ∈ xs, x.stage.isAggregate = false)
    (hs : ∀ st ∈ records d xs, Check.scopeFindings st = [])
    (hd : ∀ x ∈ xs, ∀ n ∈ x.stage.defines, n ∈ allowed) :
    Within allowed (draft d xs).shape := by
  induction xs generalizing d with
  | nil => exact h
  | cons x xs ih =>
    rw [List.forall_mem_cons] at hw hagg hd
    rw [records, List.forall_mem_cons] at hs
    exact ih (within_take h hw.1 hagg.1 hs.1 hd.1) hw.2 hagg.2 hs.2 hd.2

/-! ## Sound stages -/

/-- The stages are written ones and go together, and after an aggregation only group keys and
aliases are read. -/
structure Sound (ws : List RowStage) : Prop where
  written : ∀ w ∈ ws, w.IsWritten
  before : ws.Pairwise RowStage.Before
  grouped : ∀ front as back, ws = front ++ .aggregate as :: back → ∀ w ∈ back, ∀ n ∈ w.reads,
    n ∈ (front.foldl RowStage.keysAfter []).map columnOf ++
      (.aggregate as :: back).flatMap RowStage.defines

/-- A relation holds between all elements of a list in order if it does so wherever the list is
split at two of them. -/
theorem pairwise_of_split {α : Type} {R : α → α → Prop} {l : List α}
    (h : ∀ l₁ a l₂ b l₃, l = l₁ ++ a :: (l₂ ++ b :: l₃) → R a b) : l.Pairwise R := by
  induction l with
  | nil => exact List.Pairwise.nil
  | cons a l ih =>
    refine List.pairwise_cons.mpr ⟨?_, ih ?_⟩
    · intro b hb
      obtain ⟨l₂, l₃, rfl⟩ := List.append_of_mem hb
      exact h [] a l₂ b l₃ rfl
    · intro l₁ c l₂ b l₃ hl
      exact h (a :: l₁) c l₂ b l₃ (by rw [hl]; rfl)

section Passing

variable {source : String} {xs : List NamedStage} {dict : Snapshot}
  (hw : ∀ x ∈ xs, x.stage.IsWritten)
  (ha : (Pipeline.Draft.start source).Admits (xs.map NamedStage.written))
  (hp : Check.Passes (draft (.start source) xs).statement dict)

include hw ha hp

omit hw ha in
/-- Nothing is found at a stage that stands between others. -/
theorem findings_of_passes {pre post : List NamedStage} {x : NamedStage}
    (hx : xs = pre ++ x :: post) :
    Check.stageFindings (records (.start source) pre) (x.record (draft (.start source) pre).shape)
      (records ((draft (.start source) pre).take x.written) post) = [] := by
  have h := hp.stages
  rw [stages_draft, hx, records_append, records] at h
  exact Check.stageFindings_of_stagesFindings [] h

omit hw ha in
/-- A stage that passes reads only what it has. -/
theorem scope_of_passes {pre post : List NamedStage} (hx : xs = pre ++ post) :
    ∀ st ∈ records (draft (.start source) pre) post, Check.scopeFindings st = [] := by
  have h := hp.scope
  rw [stages_draft, hx, records_append] at h
  intro st hst
  exact h st (List.mem_append_right _ (List.mem_append_right _ hst))

omit hw ha in
/-- Stages that pass follow one another as they may. -/
theorem follows_of_passes :
    xs.Pairwise fun x y => Check.mayFollow x.stage.kind y.stage.kind = true := by
  refine pairwise_of_split fun l₁ x l₂ y l₃ hxs => ?_
  have hy : xs = (l₁ ++ x :: l₂) ++ y :: l₃ := by
    rw [hxs, List.append_assoc, List.cons_append]
  have hf := findings_of_passes hp hy
  have hx : x ∈ l₁ ++ x :: l₂ := List.mem_append_right _ List.mem_cons_self
  obtain ⟨input, hi⟩ := exists_mem_records (.start source) hx
  exact Check.mayFollow_of_stageFindings hf hi

omit hw ha in
/-- No stage reads a name that a later one defines. -/
theorem fresh_of_passes :
    xs.Pairwise fun x y => ∀ n ∈ x.stage.reads, n ∉ y.stage.defines := by
  refine pairwise_of_split fun l₁ x l₂ y l₃ hxs n hn hd => ?_
  obtain ⟨r, hr, rfl⟩ := List.mem_map.mp hn
  have hf := findings_of_passes hp hxs
  rcases Check.defines_of_stageFindings hf hr with ⟨e, he, hc⟩ | hc
  · -- defined up to the stage, it is not declared again
    have hnd := hp.nodup
    rw [aliases_draft, hxs] at hnd
    obtain ⟨z, hz, hdz⟩ : ∃ z ∈ l₁ ++ [x], columnOf r ∈ z.stage.defines := by
      rcases List.mem_append.mp he with he | he
      · obtain ⟨z, hz, input, rfl⟩ := exists_of_mem_records he
        exact ⟨z, List.mem_append_left _ hz, hc⟩
      · obtain rfl := List.mem_singleton.mp he
        exact ⟨x, List.mem_append_right _ (List.mem_singleton_self x), hc⟩
    have hl : l₁ ++ x :: (l₂ ++ y :: l₃) = (l₁ ++ [x]) ++ (l₂ ++ y :: l₃) := by simp
    rw [hl, List.flatMap_append] at hnd
    have hdis := (List.nodup_append.mp (List.nodup_append.mp hnd).2.1).2.2
    refine hdis _ (List.mem_flatMap.mpr ⟨z, hz, hdz⟩) _ (List.mem_flatMap.mpr ⟨y, ?_, hd⟩) rfl
    exact List.mem_append_right _ List.mem_cons_self
  · have hy : y ∈ l₂ ++ y :: l₃ := List.mem_append_right _ List.mem_cons_self
    obtain ⟨input, hi⟩ := exists_mem_records ((draft (.start source) l₁).take x.written) hy
    exact hc _ hi hd

omit ha in
/-- Behind a selection or an aggregation, only what it leaves and later aliases are read. -/
theorem within_of_passes {allowed : List String} {pre mid post : List NamedStage}
    {x y : NamedStage} (hxs : xs = pre ++ x :: (mid ++ y :: post))
    (hx : Within allowed ((draft (.start source) pre).take x.written).shape)
    (hagg : ∀ z ∈ mid, z.stage.isAggregate = false)
    (hd : ∀ z ∈ mid, ∀ n ∈ z.stage.defines, n ∈ allowed) : ∀ n ∈ y.stage.reads, n ∈ allowed := by
  have hsplit : xs = (pre ++ [x]) ++ (mid ++ y :: post) := by
    rw [hxs, List.append_assoc, List.singleton_append]
  have hsc := scope_of_passes hp hsplit
  rw [draft_append] at hsc
  change ∀ st ∈ records ((draft (.start source) pre).take x.written) _, _ at hsc
  rw [records_append] at hsc
  have hmid := within_draft hx (fun z hz => hw z (by rw [hxs]; simp [hz])) hagg
    (fun st hst => hsc st (List.mem_append_left _ hst)) hd
  intro n hn
  obtain ⟨r, hr, rfl⟩ := List.mem_map.mp hn
  exact mem_of_within _ hmid (hsc _ (List.mem_append_right _ List.mem_cons_self)) hr

/-- Stages that pass come in order. -/
theorem before_of_passes : xs.Pairwise fun x y => x.stage.Before y.stage := by
  refine pairwise_of_split fun l₁ x l₂ y l₃ hxs => ?_
  have hfollows := follows_of_passes hp
  have hfresh := fresh_of_passes hp
  rw [hxs] at hfollows hfresh
  have hrest := List.pairwise_cons.mp (List.pairwise_append.mp hfollows).2.1
  have hrest' := List.pairwise_cons.mp (List.pairwise_append.mp hfresh).2.1
  have hy : y ∈ l₂ ++ y :: l₃ := List.mem_append_right _ List.mem_cons_self
  refine ⟨hrest.1 y hy, hrest'.1 y hy, ?_, ?_⟩
  · intro fields hx
    refine within_of_passes hw hp hxs ?_ ?_ ?_
    · obtain ⟨name, w⟩ := x
      cases hx
      exact fun c hc => List.mem_map_of_mem hc
    · -- a selection is not followed by an aggregation or a calculation
      intro z hz
      have hf := hrest.1 z (List.mem_append_left _ hz)
      rw [hx] at hf
      obtain ⟨name, w⟩ := z
      cases w with
      | aggregate as => cases hf
      | _ => rfl
    · intro z hz n hn
      have hf := hrest.1 z (List.mem_append_left _ hz)
      rw [hx] at hf
      obtain ⟨name, w⟩ := z
      cases w with
      | aggregate as => cases hf
      | calculate cs => cases hf
      | _ => cases hn
  · rw [hxs] at ha
    exact once_of_admits (hw x (by rw [hxs]; simp)) (admits_append ha) y hy

/-- **The stages of a pipeline that passes the checks are sound.** -/
theorem sound_of_passes : Sound (xs.map NamedStage.stage) := by
  have hb := before_of_passes hw ha hp
  refine ⟨?_, List.pairwise_map.mpr hb, ?_⟩
  · intro w hm
    obtain ⟨x, hx, rfl⟩ := List.mem_map.mp hm
    exact hw x hx
  · intro front as back hl w hwb
    obtain ⟨pre, rest, hxs, rfl, hrest⟩ := List.map_eq_append_iff.mp hl
    obtain ⟨x, post, rfl, hx, rfl⟩ := List.map_eq_cons_iff.mp hrest
    obtain ⟨y, hy, rfl⟩ := List.mem_map.mp hwb
    obtain ⟨mid, last, rfl⟩ := List.append_of_mem hy
    rw [hxs] at hb
    have hlater := (List.pairwise_cons.mp (List.pairwise_append.mp hb).2.1).1
    -- behind the aggregation, a stage sees the group keys and what is defined from there on
    refine within_of_passes hw hp hxs ?_ ?_ ?_
    · obtain ⟨name, w⟩ := x
      cases hx
      intro c hc
      rcases List.mem_append.mp hc with hc | hc
      · refine List.mem_append_left _ ?_
        rw [keys_draft] at hc
        exact List.mem_map_of_mem hc
      · have hc' : columnOf c = c := columnOf_of_mem_defines (w := .aggregate as)
          (hw ⟨name, .aggregate as⟩ (by rw [hxs]; simp)) hc
        rw [hc']
        exact List.mem_append_right _ (List.mem_flatMap.mpr ⟨_, List.mem_cons_self, hc⟩)
    · intro z hz
      have hf := (hlater z (List.mem_append_left _ hz)).follows
      rw [hx] at hf
      obtain ⟨name, w⟩ := z
      cases w with
      | aggregate as => cases hf
      | _ => rfl
    · intro z hz n hn
      refine List.mem_append_right _ (List.mem_flatMap.mpr ⟨z.stage, ?_, hn⟩)
      refine List.mem_cons_of_mem _ (List.mem_map_of_mem ?_)
      exact List.mem_append_left _ hz

end Passing

end Rows

end DataPhrase
