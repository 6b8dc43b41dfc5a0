/-
# The shape after the last stage

In a pipeline whose stages may follow each other, the last selection decides what the shape is, and
without one the aggregation does: the group keys and whatever is defined from it on. With neither
the shape stays open and holds every alias (`shape_draftOf`).
-/
import DataPhrase.Proofs.Pipeline.Stages
import DataPhrase.Proofs.Rows.Sound

namespace DataPhrase.Pipeline

open Lexeme

variable {s r : List Char}

/-! ## Kinds and bodies -/

/-- The body is one of the kind. Computed operations declare aliases, and those of an aggregation or
of a window stage are of its kind. -/
def StageBody.Fits : StageKind → StageBody → Prop
  | .filter, .filter _ | .group, .group _ | .select, .select _ | .sort, .sort _
  | .join, .join _ _ | .during, .during _ | .limit, .limit _ => True
  | .aggregate, .compute ops => ops ≠ [] ∧ ∀ op ∈ ops, ∃ f e a, op = .aggregate f e a
  | .calculate, .compute ops => ∀ op ∈ ops, op.alias?.isSome = true
  | .window, .compute ops => ∀ op ∈ ops, ∃ f e pb ob a, op = .window f e pb ob a
  | _, _ => False

/-- The operations of a stage are accepted items with their names. -/
theorem exists_item_of_operations {accept : Item → Bool} {what : Expected} {ops : List Operation}
    (h : (operations accept what s).Gives ops r) :
    ∀ op ∈ ops, ∃ item n, accept item = true ∧ op = item.named n := by
  have hop : ∀ {s r op}, (operation accept what s).Gives op r →
      ∃ item n, accept item = true ∧ op = item.named n := by
    intro s r op h
    obtain ⟨item, n, q, -, ha, -, rfl⟩ := gives_operation.mp h
    exact ⟨item, n, ha, rfl⟩
  obtain ⟨op, q, ops', p, hfirst, hrest, -, rfl⟩ := gives_operations.mp h
  exact List.forall_mem_cons.mpr ⟨hop hfirst, hrest.forall fun _ _ _ h => hop h⟩

/-- An item that is named has an alias. -/
theorem isSome_alias?_named (item : Item) (n : String) : (item.named n).alias?.isSome = true := by
  cases item <;> rfl

/-- What stands in the parentheses of a stage fits its kind. -/
theorem fits_of_readBody {kind : StageKind} {body : StageBody}
    (h : (readBody kind s).Gives body r) : body.Fits kind := by
  cases kind with
  | aggregate =>
    obtain ⟨ops, q, hops, h⟩ := Reader.gives_bind.mp h
    obtain ⟨rfl, -⟩ := Reader.gives_pure.mp h
    obtain ⟨hne, -⟩ := isWritten_of_operations hops
    refine ⟨hne, fun op hop => ?_⟩
    obtain ⟨item, n, ha, rfl⟩ := exists_item_of_operations hops op hop
    cases item with
    | aggregate f e => exact ⟨f, e, n, rfl⟩
    | window f e p o => cases ha
    | calculate e => cases ha
  | calculate =>
    obtain ⟨ops, q, hops, h⟩ := Reader.gives_bind.mp h
    obtain ⟨rfl, -⟩ := Reader.gives_pure.mp h
    intro op hop
    obtain ⟨item, n, -, rfl⟩ := exists_item_of_operations hops op hop
    exact isSome_alias?_named item n
  | window =>
    obtain ⟨ops, q, hops, h⟩ := Reader.gives_bind.mp h
    obtain ⟨rfl, -⟩ := Reader.gives_pure.mp h
    intro op hop
    obtain ⟨item, n, ha, rfl⟩ := exists_item_of_operations hops op hop
    cases item with
    | aggregate f e => cases ha
    | window f e p o => exact ⟨f, e, p, o, n, rfl⟩
    | calculate e => cases ha
  | join =>
    obtain ⟨other, q, -, h⟩ := Reader.gives_bind.mp h
    obtain ⟨_, q, -, h⟩ := Reader.gives_bind.mp h
    obtain ⟨c, q, -, h⟩ := Reader.gives_bind.mp h
    obtain ⟨rfl, -⟩ := Reader.gives_pure.mp h
    exact trivial
  | _ =>
    obtain ⟨l, q, -, h⟩ := Reader.gives_bind.mp h
    obtain ⟨rfl, -⟩ := Reader.gives_pure.mp h
    exact trivial

theorem fits_of_writtenStages {ws : List Written} (h : (writtenStages s).Gives ws r) :
    ∀ w ∈ ws, w.body.Fits w.kind := by
  induction s using writtenStages.induct generalizing ws r with
  | case1 s t hs _ _ ih =>
    obtain ⟨w, q, ws', hw, hws, rfl⟩ := (gives_writtenStages_arrow hs).mp h
    refine List.forall_mem_cons.mpr ⟨?_, ih q hw.suffix hws⟩
    obtain ⟨_, p, -, hw⟩ := Reader.gives_bind.mp hw
    obtain ⟨named, q, -, hw⟩ := Reader.gives_bind.mp hw
    obtain ⟨body, u, hb, hw⟩ := Reader.gives_bind.mp hw
    obtain ⟨_, v, -, hw⟩ := Reader.gives_bind.mp hw
    obtain ⟨rfl, -⟩ := Reader.gives_pure.mp hw
    exact fits_of_readBody hb
  | case2 s hs =>
    obtain ⟨rfl, -⟩ := (gives_writtenStages_end fun t ht => hs t ht).mp h
    intro w hw
    cases hw

/-! ## Stages -/

namespace Written

/-- The aliases that a stage declares. -/
def defines (w : Written) : List String :=
  w.body.defines

/-- The operations that a stage adds to the statement. -/
def operations (w : Written) : List Operation :=
  match w.body with
  | .compute ops => ops
  | .select fields => [.select fields]
  | .join other c => [.join other c]
  | _ => []

/-- The stage aggregates. -/
def isAggregate (w : Written) : Bool :=
  w.kind == .aggregate

/-- The columns that the stage selects. -/
def selected? (w : Written) : Option (List String) :=
  match w.body with
  | .select fields => some fields
  | _ => none

/-- What the statement records of a stage, the shape before it apart. -/
def record (w : Written) : StageKind × List String × List String :=
  (w.kind, w.body.references, w.defines)

/-- A stage defines the aliases of its operations. -/
theorem filterMap_operations (w : Written) :
    w.operations.filterMap Operation.alias? = w.defines := by
  obtain ⟨name, kind, body⟩ := w
  cases body <;> rfl

end Written

/-- The columns that the last selection leaves. -/
def lastSelected? (ws : List Written) : Option (List String) :=
  ws.foldl (fun selected w => w.selected?.or selected) none

/-- The aliases that are declared before the first aggregation. -/
def definedBefore (ws : List Written) : List String :=
  (ws.takeWhile fun w => !w.isAggregate).flatMap Written.defines

/-- The aliases that are declared from the first aggregation on. -/
def definedFrom (ws : List Written) : List String :=
  (ws.dropWhile fun w => !w.isAggregate).flatMap Written.defines

/-- The draft of a pipeline after all of its stages. -/
def draftOf (source : String) (ws : List Written) : Draft :=
  ws.foldl Draft.take (.start source)

section Drafts

variable {source : String} {ws : List Written}

/-- The draft of stages is that of all but the last, with the last added. -/
theorem draftOf_append (w : Written) : draftOf source (ws ++ [w]) = (draftOf source ws).take w :=
  List.foldl_append

/-- The names defined before the last selection and those from it on are all names. -/
theorem definedBefore_append_definedFrom :
    definedBefore ws ++ definedFrom ws = ws.flatMap Written.defines := by
  rw [definedBefore, definedFrom, ← List.flatMap_append, List.takeWhile_append_dropWhile]

/-- A draft has a record of each stage. -/
theorem records_draftOf (source : String) (ws : List Written) :
    (draftOf source ws).statement.stages.map (fun st => (st.kind, st.references, st.defines)) =
      ws.map Written.record := by
  induction ws using List.reverseRecOn with
  | nil => rfl
  | append_singleton ws w ih =>
    rw [draftOf_append, stages_take, List.map_append, ih, List.map_append]
    rfl

/-- What holds of the recorded stages in order holds of the written ones. -/
theorem pairwise_of_records (source : String) {R : StageKind × List String × List String →
      StageKind × List String × List String → Prop}
    (h : (draftOf source ws).statement.stages.Pairwise fun x y =>
      R (x.kind, x.references, x.defines) (y.kind, y.references, y.defines)) :
    ws.Pairwise fun x y => R x.record y.record := by
  have hmap : ((draftOf source ws).statement.stages.map fun st =>
      (st.kind, st.references, st.defines)).Pairwise R := List.pairwise_map.mpr h
  rw [records_draftOf] at hmap
  exact List.pairwise_map.mp hmap

/-- The operations of a draft are those of its stages. -/
theorem operations_draftOf :
    (draftOf source ws).statement.operations = ws.flatMap Written.operations := by
  induction ws using List.reverseRecOn with
  | nil => rfl
  | append_singleton ws w ih =>
    have htake : ((draftOf source ws).take w).statement.operations =
        (draftOf source ws).statement.operations ++ w.operations := by
      obtain ⟨name, kind, body⟩ := w
      cases body <;> first | rfl | exact (List.append_nil _).symm
    rw [draftOf_append, htake, ih, List.flatMap_append, List.flatMap_singleton]

theorem filterMap_flatMap_operations (ws : List Written) :
    (ws.flatMap Written.operations).filterMap Operation.alias? = ws.flatMap Written.defines := by
  rw [List.filterMap_flatMap,
    show (fun w : Written => w.operations.filterMap Operation.alias?) = Written.defines from
      funext Written.filterMap_operations]

/-- The aliases of a draft are the names that its stages define. -/
theorem aliases_draftOf :
    (draftOf source ws).statement.aliases = ws.flatMap Written.defines := by
  rw [Statement.aliases, operations_draftOf, filterMap_flatMap_operations]

/-- The keys of a statement are those of a group stage. -/
theorem exists_group (hfits : ∀ w ∈ ws, w.body.Fits w.kind) {g : String}
    (h : g ∈ (draftOf source ws).statement.group.getD []) :
    ∃ w ∈ ws, w.kind = .group ∧ g ∈ w.body.references := by
  induction ws using List.reverseRecOn with
  | nil => cases h
  | append_singleton ws w ih =>
    rw [draftOf_append] at h
    have hlast : w ∈ ws ++ [w] := List.mem_append_right _ (List.mem_singleton_self w)
    have hfit := hfits w hlast
    obtain ⟨name, kind, body⟩ := w
    cases body with
    | group fields =>
      refine ⟨_, hlast, ?_, h⟩
      cases kind <;> first | rfl | exact hfit.elim
    | _ =>
      obtain ⟨x, hx, hg⟩ := ih (fun x hx => hfits x (List.mem_append_left _ hx)) h
      exact ⟨x, List.mem_append_left _ hx, hg⟩

/-- The stages of a pipeline that passes the checks may follow each other. -/
theorem follows_of_stagesFindings
    (h : Check.stagesFindings [] (draftOf source ws).statement.stages = []) :
    ws.Pairwise fun x y => Check.mayFollow x.kind y.kind = true := by
  refine pairwise_of_records source (R := fun x y => Check.mayFollow x.1 y.1 = true) ?_
  refine Rows.pairwise_of_split fun l₁ x l₂ y l₃ hl => ?_
  have hy : (draftOf source ws).statement.stages = (l₁ ++ x :: l₂) ++ y :: l₃ := by
    rw [hl, List.append_assoc, List.cons_append]
  rw [hy] at h
  refine Check.mayFollow_of_stageFindings (Check.stageFindings_of_stagesFindings [] h) ?_
  exact List.mem_append_right _ (List.mem_append_right _ List.mem_cons_self)

/-- In a pipeline that passes the checks, a name that a stage reads is not declared behind it. -/
theorem fresh_of_stagesFindings
    (h : Check.stagesFindings [] (draftOf source ws).statement.stages = [])
    (hnd : (draftOf source ws).statement.aliases.Nodup) :
    ws.Pairwise fun x y => ∀ n ∈ x.body.references, (Check.splitName n).2 ∉ y.defines := by
  have hdefines : (draftOf source ws).statement.stages.flatMap Stage.defines =
      ws.flatMap Written.defines := by
    have := congrArg (List.flatMap fun x : StageKind × List String × List String => x.2.2)
      (records_draftOf source ws)
    rw [List.flatMap_map, List.flatMap_map] at this
    exact this
  rw [aliases_draftOf, ← hdefines] at hnd
  refine pairwise_of_records source
    (R := fun x y => ∀ n ∈ x.2.1, (Check.splitName n).2 ∉ y.2.2) ?_
  refine Rows.pairwise_of_split fun l₁ x l₂ y l₃ hl n hn hd => ?_
  rw [hl] at h hnd
  rcases Check.defines_of_stageFindings (Check.stageFindings_of_stagesFindings [] h) hn with
    ⟨e, he, hc⟩ | hc
  · -- defined up to the stage, it is not declared again
    have hl : l₁ ++ x :: (l₂ ++ y :: l₃) = (l₁ ++ [x]) ++ (l₂ ++ y :: l₃) := by simp
    rw [hl, List.flatMap_append] at hnd
    have hdisjoint := (List.nodup_append.mp hnd).2.2
    refine hdisjoint _ (List.mem_flatMap.mpr ⟨e, he, hc⟩) _ (List.mem_flatMap.mpr ⟨y, ?_, hd⟩) rfl
    exact List.mem_append_right _ List.mem_cons_self
  · exact hc y (List.mem_append_right _ List.mem_cons_self) hd

/-- The last selection is that of the last stage that has one. -/
theorem lastSelected?_append (w : Written) :
    lastSelected? (ws ++ [w]) = w.selected?.or (lastSelected? ws) :=
  List.foldl_append

theorem any_isAggregate_append (w : Written) :
    (ws ++ [w]).any Written.isAggregate = (ws.any Written.isAggregate || w.isAggregate) := by
  rw [List.any_append, List.any_cons, List.any_nil, Bool.or_false]

/-- Without aggregates no names are counted from them on. -/
theorem definedFrom_of_not_any (h : ws.any Written.isAggregate = false) : definedFrom ws = [] := by
  rw [definedFrom, List.dropWhile_eq_nil_iff.mpr, List.flatMap_nil]
  intro w hw
  rw [Bool.not_eq_true', Bool.eq_false_iff]
  exact List.any_eq_false.mp h w hw

/-- A stage behind an aggregation declares its aliases from the aggregation on. -/
theorem definedFrom_append (w : Written) : definedFrom (ws ++ [w]) =
    if ws.any Written.isAggregate || w.isAggregate then definedFrom ws ++ w.defines else [] := by
  cases hws : ws.any Written.isAggregate with
  | true =>
    have hne : (ws.dropWhile fun w => !w.isAggregate).isEmpty = false := by
      rw [List.isEmpty_eq_false_iff, ne_eq, List.dropWhile_eq_nil_iff]
      obtain ⟨x, hx, hagg⟩ := List.any_eq_true.mp hws
      intro hall
      have := hall x hx
      rw [hagg] at this
      cases this
    rw [Bool.true_or, if_pos rfl, definedFrom, List.dropWhile_append, hne,
      if_neg Bool.false_ne_true, List.flatMap_append, List.flatMap_singleton, definedFrom]
  | false =>
    have hempty : ws.dropWhile (fun w => !w.isAggregate) = [] := by
      rw [List.dropWhile_eq_nil_iff]
      intro x hx
      rw [Bool.not_eq_true', Bool.eq_false_iff]
      exact List.any_eq_false.mp hws x hx
    rw [Bool.false_or, definedFrom_of_not_any hws, definedFrom, List.dropWhile_append, hempty]
    cases hw : w.isAggregate with
    | true => simp [hw]
    | false => simp [hw]

theorem foldl_add_closed (columns names : List String) :
    names.foldl Shape.add (.closed columns) = .closed (columns ++ names) := by
  induction names generalizing columns with
  | nil => rw [List.append_nil]; rfl
  | cons n names ih => rw [List.foldl_cons, Shape.add, ih, List.append_assoc, List.singleton_append]

/-- Names that are added to an opened shape are derived. -/
theorem foldl_add_opened (derived names : List String) :
    names.foldl Shape.add (.opened derived) = .opened (derived ++ names) := by
  induction names generalizing derived with
  | nil => rw [List.append_nil]; rfl
  | cons n names ih => rw [List.foldl_cons, Shape.add, ih, List.append_assoc, List.singleton_append]

/-- The shape that the stages say: that of the last selection, or else that of the aggregation. -/
def statedShape (keys : List String) (ws : List Written) : Shape :=
  match lastSelected? ws with
  | some fields => .closed fields
  | none =>
    if ws.any Written.isAggregate then .closed (keys ++ definedFrom ws)
    else .opened (ws.flatMap Written.defines)

/-- A selection is behind every stage that declares, groups, aggregates or joins. -/
theorem exists_select (hfits : ∀ w ∈ ws, w.body.Fits w.kind) {fields : List String}
    (h : lastSelected? ws = some fields) : ∃ w ∈ ws, w.kind = .select := by
  induction ws using List.reverseRecOn with
  | nil => cases h
  | append_singleton ws w ih =>
    rw [lastSelected?_append] at h
    cases hw : w.selected? with
    | some f =>
      have hkind := hfits w (List.mem_append_right _ (List.mem_singleton_self w))
      refine ⟨w, List.mem_append_right _ (List.mem_singleton_self w), ?_⟩
      obtain ⟨name, kind, body⟩ := w
      cases body with
      | select _ => cases kind <;> first | rfl | exact hkind.elim
      | _ => cases hw
    | none =>
      rw [hw, Option.none_or] at h
      obtain ⟨x, hx, hk⟩ := ih (fun x hx => hfits x (List.mem_append_left _ hx)) h
      exact ⟨x, List.mem_append_left _ hx, hk⟩

/-- A stage that selects is there in the last selection. -/
theorem exists_lastSelected? (hfits : ∀ w ∈ ws, w.body.Fits w.kind) {w : Written} (hw : w ∈ ws)
    (hkind : w.kind = .select) : ∃ fields, lastSelected? ws = some fields := by
  induction ws using List.reverseRecOn with
  | nil => cases hw
  | append_singleton ws x ih =>
    rw [lastSelected?_append]
    rcases List.mem_append.mp hw with hw | hw
    · obtain ⟨fields, hs⟩ := ih (fun x hx => hfits x (List.mem_append_left _ hx)) hw
      rw [hs]
      cases x.selected? with
      | some f => exact ⟨f, rfl⟩
      | none => exact ⟨fields, rfl⟩
    · obtain rfl := List.mem_singleton.mp hw
      have hfit := hfits w (List.mem_append_right _ hw)
      obtain ⟨name, kind, body⟩ := w
      obtain rfl : kind = .select := hkind
      cases body with
      | select fields => exact ⟨fields, rfl⟩
      | _ => exact hfit.elim

/-- **The shape that is stated changes with the last stage only.** -/
theorem statedShape_append (keys : List String) (w : Written) :
    statedShape keys (ws ++ [w]) =
      match w.selected?.or (lastSelected? ws) with
      | some fields => .closed fields
      | none =>
        if ws.any Written.isAggregate || w.isAggregate then
          .closed (keys ++ (definedFrom ws ++ w.defines))
        else .opened (ws.flatMap Written.defines ++ w.defines) := by
  rw [statedShape, lastSelected?_append, any_isAggregate_append, definedFrom_append,
    List.flatMap_append, List.flatMap_singleton]
  cases w.selected?.or (lastSelected? ws) with
  | some fields => rfl
  | none =>
    cases ws.any Written.isAggregate || w.isAggregate with
    | true => rfl
    | false => rfl

/-- A stage that neither selects, groups nor aggregates adds the aliases that it declares. -/
theorem foldl_add_statedShape {keys : List String} {w : Written} (hselect : w.selected? = none)
    (hagg : w.isAggregate = false) (hlast : w.defines = [] ∨ lastSelected? ws = none) :
    w.defines.foldl Shape.add (statedShape keys ws) = statedShape keys (ws ++ [w]) := by
  rw [statedShape_append, hselect, Option.none_or, hagg, Bool.or_false, statedShape]
  cases hs : lastSelected? ws with
  | some fields =>
    rcases hlast with hnil | hnone
    · rw [hnil]
      rfl
    · rw [hnone] at hs
      cases hs
  | none =>
    cases ws.any Written.isAggregate with
    | true => exact (foldl_add_closed _ _).trans (by rw [List.append_assoc]; rfl)
    | false => exact foldl_add_opened _ _

/-- **What the shape is after the last stage.** -/
theorem shape_draftOf (hfits : ∀ w ∈ ws, w.body.Fits w.kind)
    (hfollows : ws.Pairwise fun x y => Check.mayFollow x.kind y.kind = true) :
    (draftOf source ws).shape =
      statedShape ((draftOf source ws).statement.group.getD []) ws := by
  induction ws using List.reverseRecOn with
  | nil => rfl
  | append_singleton ws w ih =>
    obtain ⟨hfollows, -, hbefore⟩ := List.pairwise_append.mp hfollows
    have hfitsw := hfits w (List.mem_append_right _ (List.mem_singleton_self w))
    have hfits : ∀ x ∈ ws, x.body.Fits x.kind := fun x hx => hfits x (List.mem_append_left _ hx)
    have hshape := ih hfits hfollows
    have hnoSelect : Check.mayFollow .select w.kind = false → lastSelected? ws = none := by
      intro hk
      rw [Option.eq_none_iff_forall_ne_some]
      intro fields hs
      obtain ⟨x, hx, hselect⟩ := exists_select hfits hs
      have hxw := hbefore x hx w (List.mem_singleton_self w)
      rw [hselect, hk] at hxw
      cases hxw
    have hnoAggregate : Check.mayFollow .aggregate w.kind = false →
        ws.any Written.isAggregate = false := by
      intro hk
      rw [List.any_eq_false]
      intro x hx hagg
      have hxw := hbefore x hx w (List.mem_singleton_self w)
      rw [beq_iff_eq.mp hagg, hk] at hxw
      cases hxw
    rw [draftOf_append]
    -- a stage that keeps the group keys adds its aliases to what is stated
    have hadds : w.selected? = none → w.isAggregate = false →
        (w.defines = [] ∨ lastSelected? ws = none) →
        ((draftOf source ws).take w).statement.group = (draftOf source ws).statement.group →
        w.defines.foldl Shape.add (draftOf source ws).shape =
          statedShape (((draftOf source ws).take w).statement.group.getD []) (ws ++ [w]) := by
      intro hselect hagg hlast hgroup
      rw [hshape, hgroup, foldl_add_statedShape hselect hagg hlast]
    obtain ⟨name, kind, body⟩ := w
    cases kind with
    | filter =>
      cases body with
      | filter c => exact hadds rfl rfl (Or.inl rfl) rfl
      | _ => exact hfitsw.elim
    | sort =>
      cases body with
      | sort order => exact hadds rfl rfl (Or.inl rfl) rfl
      | _ => exact hfitsw.elim
    | during =>
      cases body with
      | during p => exact hadds rfl rfl (Or.inl rfl) rfl
      | _ => exact hfitsw.elim
    | limit =>
      cases body with
      | limit n => exact hadds rfl rfl (Or.inl rfl) rfl
      | _ => exact hfitsw.elim
    | calculate =>
      cases body with
      | compute ops => exact hadds rfl rfl (Or.inr (hnoSelect rfl)) rfl
      | _ => exact hfitsw.elim
    | window =>
      cases body with
      | compute ops => exact hadds rfl rfl (Or.inr (hnoSelect rfl)) rfl
      | _ => exact hfitsw.elim
    | group =>
      cases body with
      | group fields =>
        -- no shape is closed yet, so the keys do not matter
        show (draftOf source ws).shape = _
        rw [hshape, statedShape_append, statedShape]
        show _ = match lastSelected? ws with
          | some fields => Shape.closed fields
          | none => _
        rw [hnoSelect rfl, hnoAggregate rfl]
        exact congrArg Shape.opened (List.append_nil _).symm
      | _ => exact hfitsw.elim
    | aggregate =>
      cases body with
      | compute ops =>
        rw [statedShape_append]
        show _ = match lastSelected? ws with
          | some fields => Shape.closed fields
          | none => _
        rw [hnoSelect rfl, definedFrom_of_not_any (hnoAggregate rfl), hnoAggregate rfl]
        rfl
      | _ => exact hfitsw.elim
    | select =>
      cases body with
      | select fields =>
        rw [statedShape_append]
        rfl
      | _ => exact hfitsw.elim
    | join =>
      cases body with
      | join other c =>
        refine Eq.trans ?_ (hadds rfl rfl (Or.inl rfl) rfl)
        show outputShape (draftOf source ws).statement.group .join (.join other c)
          (draftOf source ws).shape = _
        rw [hshape, statedShape, hnoSelect rfl, hnoAggregate rfl]
        rfl
      | _ => exact hfitsw.elim

end Drafts

end DataPhrase.Pipeline
