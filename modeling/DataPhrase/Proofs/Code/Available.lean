/-
# What steps of scripts read is there

The steps of a script stand in a fixed order: rows are selected before they are sorted, and what is
computed behind the aggregation is computed in the order of the statement. The checks see to almost
all that this needs. In a valid statement without joins every step reads columns that are there,
exactly if the selection keeps what orders the rows and if nothing behind the aggregation reads its
own alias or one that is computed later (`admits_iff_of_valid`).
-/
import DataPhrase.Code.Generate
import DataPhrase.Proofs.Code.FrameEffects
import DataPhrase.Proofs.Code.PipeEffects
import DataPhrase.Proofs.Code.Scope
import DataPhrase.Proofs.Code.Supported
import DataPhrase.Proofs.Rows.Phases

namespace DataPhrase

open Code Rows

variable {src : String → Prop} {known keys : List String} {l l' : List (String × List String)}

/-! ## Columns that are computed in turn -/

/-- What columns in turn read, the first ones can read before the others. -/
theorem readsBefore_append : ReadsBefore src known (l ++ l') ↔
    ReadsBefore src known l ∧ ReadsBefore src ((l.map Prod.fst).reverse ++ known) l' := by
  induction l generalizing known with
  | nil => exact (and_iff_right trivial).symm
  | cons c l ih =>
    rw [List.cons_append, ReadsBefore, ReadsBefore, ih, and_assoc, List.map_cons,
      List.reverse_cons, List.append_assoc]
    rfl

/-- No column reads its own name or that of a column behind it, unless the name is a key. -/
def ReadsNoLater (keys : List String) : List (String × List String) → Prop
  | [] => True
  | c :: r => (∀ n ∈ c.2, n ∈ c.1 :: r.map Prod.fst → n ∈ keys) ∧ ReadsNoLater keys r

instance decidableReadsNoLater (keys : List String) :
    (l : List (String × List String)) → Decidable (ReadsNoLater keys l)
  | [] => inferInstanceAs (Decidable True)
  | c :: r =>
    have := decidableReadsNoLater keys r
    inferInstanceAs (Decidable ((∀ n ∈ c.2, n ∈ c.1 :: r.map Prod.fst → n ∈ keys) ∧
      ReadsNoLater keys r))

/-- Columns that read nothing but columns of the list and what is there before it read what is
computed before them, exactly if they read nothing later. -/
theorem readsBefore_iff (hk : ∀ n ∈ keys, src n) (hd : (l.map Prod.fst).Nodup)
    (hnew : ∀ n ∈ l.map Prod.fst, n ∈ known ∨ src n → n ∈ keys)
    (hr : ∀ c ∈ l, ∀ n ∈ c.2, (n ∈ known ∨ src n) ∨ n ∈ l.map Prod.fst) :
    ReadsBefore src known l ↔ ReadsNoLater keys l := by
  induction l generalizing known with
  | nil => exact Iff.rfl
  | cons c l ih =>
    rw [List.map_cons, List.nodup_cons] at hd
    rw [List.map_cons] at hnew hr
    refine and_congr ?_ (ih hd.2 ?_ ?_)
    · refine forall₂_congr fun n hn => ⟨fun h hlater => hnew n hlater h, fun h => ?_⟩
      rcases hr c List.mem_cons_self n hn with hthere | hlater
      · exact hthere
      · exact Or.inr (hk n (h hlater))
    · intro n hn h
      -- The alias in front is not among those behind it.
      have hne : n ≠ c.1 := fun he => hd.1 (he ▸ hn)
      refine hnew n (List.mem_cons_of_mem c.1 hn) (h.imp_left fun hmem => ?_)
      exact (List.mem_cons.mp hmem).resolve_left hne
    · intro x hx n hn
      rcases hr x (List.mem_cons_of_mem c hx) n hn with (h | h) | h
      · exact Or.inl (Or.inl (List.mem_cons_of_mem c.1 h))
      · exact Or.inl (Or.inr h)
      · rcases List.mem_cons.mp h with rfl | h
        · exact Or.inl (Or.inl List.mem_cons_self)
        · exact Or.inr h

/-- The effect of a column that is computed, given with what it reads. -/
def extending (c : String × List String) : ColumnEffect :=
  .extend c.1 c.2

/-- Columns in turn are admitted behind known ones exactly if they read what is computed before. -/
theorem Shape.admits_extending {columns : List String} {rest : List ColumnEffect}
    (h : ∀ n, n ∈ columns ↔ n ∈ known ∨ src n) :
    (Shape.closed columns).Admits (l.map extending ++ rest) ↔
      ReadsBefore src known l ∧ (Shape.closed (columns ++ l.map Prod.fst)).Admits rest := by
  induction l generalizing columns known with
  | nil =>
    rw [List.map_nil, List.map_nil, List.append_nil]
    exact (and_iff_right trivial).symm
  | cons c l ih =>
    have hreads : (∀ n ∈ c.2, (Shape.closed columns).contains n = true) ↔
        ∀ n ∈ c.2, n ∈ known ∨ src n := by
      refine forall₂_congr fun n _ => ?_
      rw [Shape.contains_closed, h]
    have hnext : ∀ n, n ∈ columns ++ [c.1] ↔ n ∈ c.1 :: known ∨ src n := by
      intro n
      rw [List.mem_append, List.mem_singleton, h, List.mem_cons]
      tauto
    rw [List.map_cons, List.cons_append, extending, Shape.admits_extend, hreads, Shape.add,
      ih hnext, ← and_assoc, List.append_assoc]
    rfl

/-! ## Plans -/

/-- A calculation with the columns that it reads. -/
def Calc.column (c : Calc) : String × List String :=
  (c.aliasName, c.expression.fieldNames)

/-- A window with the columns that it reads. -/
def Window.column (w : Window) : String × List String :=
  (w.aliasName, w.names)

namespace Plan

variable {p : Plan} {s : Shape}

/-- The columns that are computed behind the aggregation. -/
def lateColumns (p : Plan) : List (String × List String) :=
  p.postCalcs.map Calc.column ++ p.windows.map Window.column

/-- What the checks leave open: a selection keeps the columns that order the rows, and behind an
aggregation no column reads itself or one that is computed later, unless that is a key. -/
structure ReadsAvailable (p : Plan) : Prop where
  order : ∀ names ∈ p.select, ∀ o ∈ p.order, columnOf o.field ∈ names.map columnOf
  late : p.isAggregated = true → ReadsNoLater (p.group.map columnOf) p.lateColumns

instance (p : Plan) : Decidable p.ReadsAvailable :=
  decidable_of_iff
    ((∀ names ∈ p.select, ∀ o ∈ p.order, columnOf o.field ∈ names.map columnOf) ∧
      (p.isAggregated = true → ReadsNoLater (p.group.map columnOf) p.lateColumns))
    ⟨fun ⟨h1, h2⟩ => ⟨h1, h2⟩, fun ⟨h1, h2⟩ => ⟨h1, h2⟩⟩

/-- What is done once everything is computed. -/
def lastEffects (p : Plan) : List ColumnEffect :=
  (p.select.map fun names => .close (names.map columnOf) (names.map columnOf)).toList ++
    [.read (p.order.map fun o => columnOf o.field)]

theorem lateEffects_eq (p : Plan) : p.lateEffects =
    (p.postCalcs.map Calc.column).map extending ++
      .read (p.postFilter.flatMap Condition.fieldNames) ::
        ((p.windows.map Window.column).map extending ++ p.lastEffects) := by
  have hcalcs : p.postCalcs.map Calc.effect = (p.postCalcs.map Calc.column).map extending := by
    rw [List.map_map]
    rfl
  have hwindows : p.windows.map Window.effect = (p.windows.map Window.column).map extending := by
    rw [List.map_map]
    rfl
  rw [lateEffects, hcalcs, hwindows, lastEffects]
  simp only [List.append_assoc, List.cons_append, List.nil_append]

theorem aliases_lateColumns (p : Plan) : p.lateColumns.map Prod.fst =
    p.postCalcs.map Calc.aliasName ++ p.windows.map Window.aliasName := by
  rw [lateColumns, List.map_append, List.map_map, List.map_map]
  rfl

/-- Where a selection and, without one, the order read what is there, only an order behind a
selection can fail. -/
theorem admits_lastEffects
    (hselect : ∀ names ∈ p.select, ∀ n ∈ names, s.contains (columnOf n) = true)
    (horder : p.select = none → ∀ o ∈ p.order, s.contains (columnOf o.field) = true) :
    s.Admits p.lastEffects ↔
      ∀ names ∈ p.select, ∀ o ∈ p.order, columnOf o.field ∈ names.map columnOf := by
  rw [lastEffects]
  cases hs : p.select with
  | none =>
    refine iff_of_true ⟨?_, trivial⟩ (fun _ h => nomatch h)
    exact List.forall_mem_map.mpr (horder hs)
  | some names =>
    have hreads : ∀ n ∈ names.map columnOf, s.contains n = true :=
      List.forall_mem_map.mpr (hselect names hs)
    refine (and_iff_right hreads).trans ?_
    have hlast : (Shape.closed (names.map columnOf)).Admits
        [.read (p.order.map fun o => columnOf o.field)] ↔
          ∀ n ∈ p.order.map (fun o => columnOf o.field), n ∈ names.map columnOf := by
      refine (and_iff_left trivial).trans (forall₂_congr fun n _ => Shape.contains_closed)
    simp only [Option.mem_some_iff, forall_eq']
    exact hlast.trans List.forall_mem_map

/-- Behind no aggregation only the order can fail. -/
theorem admits_opened_lateEffects : (Shape.opened []).Admits p.lateEffects ↔
    ∀ names ∈ p.select, ∀ o ∈ p.order, columnOf o.field ∈ names.map columnOf := by
  have hopen (l : List (String × List String)) : ∀ e ∈ l.map extending, e.IsOpen := by
    intro e he
    obtain ⟨c, -, rfl⟩ := List.mem_map.mp he
    exact trivial
  rw [lateEffects_eq, Shape.admits_opened_append (hopen _),
    Shape.admits_opened_cons (e := .read _) trivial, Shape.admits_opened_append (hopen _)]
  exact admits_lastEffects (fun _ _ _ _ => rfl) fun _ _ _ => rfl

/-- What is read behind an aggregation are keys and aliases that are computed there. -/
structure ReadsKept (p : Plan) : Prop where
  columns : ∀ c ∈ p.lateColumns, ∀ n ∈ c.2, n ∈ p.group.map columnOf ++ p.lateAliases
  filter : ∀ c ∈ p.postFilter, ∀ n ∈ c.fieldNames, n ∈ p.group.map columnOf ++ p.postAliases
  select : ∀ names ∈ p.select, ∀ n ∈ names, columnOf n ∈ p.group.map columnOf ++ p.lateAliases
  order : ∀ o ∈ p.order, columnOf o.field ∈ p.group.map columnOf ++ p.lateAliases

/-- All that can be read at the end are the columns of the aggregation and the late columns. -/
theorem keys_append_lateAliases (p : Plan) : p.group.map columnOf ++ p.lateAliases =
    p.groupColumns ++ p.lateColumns.map Prod.fst := by
  rw [aliases_lateColumns, groupColumns, lateAliases, postAliases]
  simp only [List.append_assoc]

/-- Late columns that read keys and late aliases read what is computed before them exactly if they
read nothing later. -/
theorem readsBefore_lateColumns (h : p.ReadsKept) (hd : p.lateAliases.Nodup) :
    ReadsBefore (· ∈ p.groupColumns) [] p.lateColumns ↔
      ReadsNoLater (p.group.map columnOf) p.lateColumns := by
  rw [lateAliases, postAliases, List.append_assoc, ← aliases_lateColumns, List.nodup_append] at hd
  obtain ⟨-, hnodup, hne⟩ := hd
  refine readsBefore_iff (fun n hn => List.mem_append_left _ hn) hnodup ?_ ?_
  · rintro n hn (hmem | hmem)
    · cases hmem
    · rcases List.mem_append.mp hmem with hmem | hmem
      · exact hmem
      · exact absurd rfl (hne n hmem n hn)
  · intro c hc n hn
    have hmem := h.columns c hc n hn
    rw [keys_append_lateAliases] at hmem
    exact (List.mem_append.mp hmem).imp_left Or.inr

/-- **Behind an aggregation steps that read keys and late aliases are admitted exactly if the
columns read nothing later and the selection keeps what orders the rows.** -/
theorem admits_closed_lateEffects (h : p.ReadsKept) (hd : p.lateAliases.Nodup) :
    (Shape.closed p.groupColumns).Admits p.lateEffects ↔
      (∀ names ∈ p.select, ∀ o ∈ p.order, columnOf o.field ∈ names.map columnOf) ∧
        ReadsNoLater (p.group.map columnOf) p.lateColumns := by
  have hall := p.keys_append_lateAliases
  have hgroups : p.group.map columnOf ++ p.postAliases =
      p.groupColumns ++ (p.postCalcs.map Calc.column).map Prod.fst := by
    rw [groupColumns, postAliases, List.map_map, List.append_assoc]
    rfl
  have hlast : (Shape.closed (p.groupColumns ++ p.lateColumns.map Prod.fst)).Admits p.lastEffects ↔
      ∀ names ∈ p.select, ∀ o ∈ p.order, columnOf o.field ∈ names.map columnOf := by
    rw [← hall]
    refine admits_lastEffects (fun names hs n hn => ?_) (fun _ o ho => ?_)
    · exact Shape.contains_closed.mpr (h.select names hs n hn)
    · exact Shape.contains_closed.mpr (h.order o ho)
  have hfilter : ∀ n ∈ p.postFilter.flatMap Condition.fieldNames,
      (Shape.closed (p.groupColumns ++ (p.postCalcs.map Calc.column).map Prod.fst)).contains n =
        true := by
    intro n hn
    obtain ⟨c, hc, hn⟩ := List.mem_flatMap.mp hn
    rw [Shape.contains_closed, ← hgroups]
    exact h.filter c hc n hn
  have hlate := readsBefore_lateColumns h hd
  have hstart : ∀ n, n ∈ p.groupColumns ↔ n ∈ ([] : List String) ∨ n ∈ p.groupColumns := by
    simp
  have hnext : ∀ n, n ∈ p.groupColumns ++ (p.postCalcs.map Calc.column).map Prod.fst ↔
      n ∈ ((p.postCalcs.map Calc.column).map Prod.fst).reverse ++ [] ∨ n ∈ p.groupColumns := by
    intro n
    rw [List.append_nil, List.mem_reverse, List.mem_append, or_comm]
  rw [lateEffects_eq, Shape.admits_extending hstart, Shape.admits_read, and_iff_right hfilter,
    Shape.admits_extending hnext, List.append_assoc, ← List.map_append, ← lateColumns, hlast,
    ← and_assoc, ← readsBefore_append, ← lateColumns, hlate, and_comm]

end Plan

/-! ## Valid statements -/

namespace Check

variable {d : Snapshot} {s : Statement} {rules : Rules} {n : String}

/-- The aliases behind the aggregation are plain names. -/
theorem isPlain_of_mem_lateAliases (hr : s.IsRaw) (hn : n ∈ (Plan.ofStatement s).lateAliases) :
    IsPlain n := by
  refine hr.isPlain n ((Plan.aliases_ofStatement s).mem_iff.mp ?_)
  rw [Plan.aliases, List.append_assoc]
  exact List.mem_append_right _ hn

/-- What a valid statement reads behind its aggregation has the column of a key, or it is an alias
that is computed there. -/
theorem columnOf_mem_of_passes (hp : Passes s d) (hr : s.IsRaw)
    (ha : (Plan.ofStatement s).isAggregated = true)
    (hn : n ∈ namesAfter s (Plan.ofStatement s)) :
    columnOf n ∈ (Plan.ofStatement s).group.map columnOf ++ (Plan.ofStatement s).lateAliases := by
  have hkept := ((groupingFindings_eq_nil.mp hp.grouping) ha).2 n hn
  rw [isKept, Bool.or_eq_true, Bool.or_eq_true, List.contains_iff_mem, List.contains_iff_mem,
    or_assoc, ← Plan.mem_lateAliases, isGrouped_iff] at hkept
  rcases hkept with hkey | hlate
  · exact List.mem_append_left _ hkey
  · rw [columnOf_of_isPlain (isPlain_of_mem_lateAliases hr hlate)]
    exact List.mem_append_right _ hlate

/-- The fields of calculations and windows have plain names. -/
theorem isPlain_of_mem_fieldNames (hr : s.IsRaw) {op : Operation}
    (hop : op ∈ (Plan.ofStatement s).operations) (ha : op.isAggregate = false) {e : Expr}
    (he : e ∈ op.exprs) (hn : n ∈ e.fieldNames) : IsPlain n :=
  ((hr.operations op (Plan.mem_of_mem_operations hop)).written ha e he).isPlain hn

theorem mem_namesAfter {p : Plan} : n ∈ namesAfter s p ↔
    n ∈ p.select.getD [] ∨ n ∈ s.order.map OrderItem.field ∨
      (∃ w ∈ p.windows, n ∈ w.partitionBy ++ w.orderBy.map OrderItem.field ++
        (w.field.map Expr.fieldNames).getD []) ∨
      (∃ c ∈ p.postCalcs, n ∈ c.expression.fieldNames) ∨ ∃ c ∈ p.postFilter, n ∈ c.fieldNames := by
  rw [namesAfter, List.mem_append, List.mem_append, List.mem_append, List.mem_append,
    List.mem_flatMap, List.mem_flatMap, List.mem_flatMap, or_assoc, or_assoc, or_assoc]

/-- What a window reads is the column of a key of it, or it is a plain name that its field reads. -/
theorem mem_names_window (hr : s.IsRaw) {w : Window} (hw : w ∈ (Plan.ofStatement s).windows)
    (hn : n ∈ w.names) :
    (∃ k ∈ w.partitionBy ++ w.orderBy.map OrderItem.field, columnOf k = n) ∨
      IsPlain n ∧ n ∈ (w.field.map Expr.fieldNames).getD [] := by
  rw [Window.names, List.mem_append, List.mem_append] at hn
  rcases hn with (hn | hn) | hn
  · obtain ⟨k, hk, rfl⟩ := List.mem_map.mp hn
    exact Or.inl ⟨k, List.mem_append_left _ hk, rfl⟩
  · obtain ⟨o, ho, rfl⟩ := List.mem_map.mp hn
    exact Or.inl ⟨o.field, List.mem_append_right _ (List.mem_map_of_mem ho), rfl⟩
  · have hop := Plan.mem_operations_of_windows hw
    split at hn
    · cases hn
    · refine Or.inr ⟨?_, hn⟩
      cases hf : w.field with
      | none =>
        rw [hf] at hn
        cases hn
      | some e =>
        rw [hf] at hn
        have he : e ∈ w.operation.exprs := Option.mem_toList.mpr hf
        exact isPlain_of_mem_fieldNames hr hop rfl he hn

/-- **Behind its aggregation a valid statement reads keys and aliases that are computed there.** -/
theorem readsKept_of_passes (hp : Passes s d) (hr : s.IsRaw)
    (ha : (Plan.ofStatement s).isAggregated = true) : (Plan.ofStatement s).ReadsKept := by
  have hcolumn {n : String} := columnOf_mem_of_passes (n := n) hp hr ha
  have hplain {n : String} (h : IsPlain n) (hn : n ∈ namesAfter s (Plan.ofStatement s)) :
      n ∈ (Plan.ofStatement s).group.map columnOf ++ (Plan.ofStatement s).lateAliases := by
    have hmem := hcolumn hn
    rwa [columnOf_of_isPlain h] at hmem
  simp only [mem_namesAfter] at hcolumn hplain
  have horder := Plan.order_ofStatement s
  refine ⟨?_, ?_, ?_, ?_⟩
  · intro c hc n hn
    rcases List.mem_append.mp hc with hc | hc
    · obtain ⟨x, hx, rfl⟩ := List.mem_map.mp hc
      have hop := Plan.mem_operations_of_postCalcs hx
      have hname : IsPlain n :=
        isPlain_of_mem_fieldNames hr hop rfl (List.mem_singleton_self x.expression) hn
      exact hplain hname (Or.inr (Or.inr (Or.inr (Or.inl ⟨x, hx, hn⟩))))
    · obtain ⟨w, hw, rfl⟩ := List.mem_map.mp hc
      rcases mem_names_window hr hw hn with ⟨k, hk, rfl⟩ | ⟨hname, hn⟩
      · exact hcolumn (Or.inr (Or.inr (Or.inl ⟨w, hw, List.mem_append_left _ hk⟩)))
      · exact hplain hname (Or.inr (Or.inr (Or.inl ⟨w, hw, List.mem_append_right _ hn⟩)))
  · intro c hc n hn
    have hname : IsPlain n := Condition.isPlain_of_exprs
      (Plan.isRaw_of_mem_filters hr c (List.mem_append_right _ hc)) hn
    have hmem := hplain hname (Or.inr (Or.inr (Or.inr (Or.inr ⟨c, hc, hn⟩))))
    -- The filter reads no results of windows.
    have hwindow := not_mem_windows_of_fieldNames hp (List.mem_append_right _ hc) hn
    rw [List.mem_append, Plan.mem_lateAliases] at hmem
    rw [List.mem_append]
    exact hmem.imp_right fun h => h.resolve_right hwindow
  · intro names hnames n hn
    refine hcolumn (Or.inl ?_)
    rw [hnames]
    exact hn
  · intro o ho
    rw [horder] at ho
    exact hcolumn (Or.inr (Or.inl (List.mem_map_of_mem ho)))

/-- The steps behind the aggregation of a valid statement are admitted exactly under the condition
that the checks leave open. -/
theorem admits_lateEffects_iff (hp : Passes s d) (hr : s.IsRaw) :
    (Plan.ofStatement s).lateShape.Admits (Plan.ofStatement s).lateEffects ↔
      (Plan.ofStatement s).ReadsAvailable := by
  rw [Plan.lateShape]
  split
  · next ha =>
    have hnodup : (Plan.ofStatement s).lateAliases.Nodup := by
      have hall := (Plan.aliases_ofStatement s).nodup_iff.mpr hp.nodup
      rw [Plan.aliases, List.append_assoc] at hall
      exact hall.of_append_right
    rw [Plan.admits_closed_lateEffects (readsKept_of_passes hp hr ha) hnodup]
    exact ⟨fun h => ⟨h.1, fun _ => h.2⟩, fun h => ⟨h.order, h.late ha⟩⟩
  · next ha =>
    rw [Plan.admits_opened_lateEffects]
    exact ⟨fun h => ⟨h, fun h' => absurd h' ha⟩, fun h => h.order⟩

end Check

/-- The code of a chain: its text, assigned to a target if there is one. -/
def Frame.Table.code (target : Option String) (t : Table) : String :=
  match target with
  | some target => target ++ " <- " ++ t.text
  | none => t.text

namespace Check

variable {d : Snapshot} {s : Statement} {rules : Rules} {text : List Char}

theorem joins_ofStatement (h : ∀ op ∈ s.operations, op.joined? = none) :
    (Plan.ofStatement s).joins = [] := by
  rw [List.eq_nil_iff_forall_not_mem]
  intro j hj
  have hjoin := h _ (Plan.mem_of_mem_operations (Plan.mem_operations_of_joins hj))
  cases hjoin

/-- **In the scripts of a valid statement without joins every step reads columns that are there,
exactly if the selection keeps what orders the rows and if nothing behind the aggregation reads its
own alias or a later one.** Columns of sources are not known, so all may be there at the start. -/
theorem admits_iff_of_valid (hs : Statement.parse text = .ok s)
    (hv : (s.check d rules).valid = true) (hj : ∀ op ∈ s.operations, op.joined? = none)
    (hd : ∀ source n, d.hasColumn source n = false) :
    (∀ code, s.generate .dataFramePipe d = .ok code →
      ∃ script, Pipe.Script.ofPlan d (Plan.ofStatement s) = .ok script ∧ script.text = code ∧
        ((Shape.opened []).Admits script.effects ↔ (Plan.ofStatement s).ReadsAvailable)) ∧
    ∀ code, s.generate .tabularFrame d = .ok code →
      ∃ t, Frame.Table.ofPlan d (Plan.ofStatement s) = .ok t ∧
        t.code (Plan.ofStatement s).target = code ∧
        ((Shape.opened []).Admits t.effects ↔ (Plan.ofStatement s).ReadsAvailable) := by
  have hlate := admits_lateEffects_iff (valid_iff.mp hv) (isRaw_of_parse hs)
  have hjoins := joins_ofStatement hj
  refine ⟨fun code hcode => ?_, fun code hcode => ?_⟩
  · obtain ⟨script, hscript, htext⟩ := map_eq_ok.mp hcode
    exact ⟨script, hscript, htext, (Pipe.admits_iff hjoins hd hscript).trans hlate⟩
  · obtain ⟨t, ht, htext⟩ := map_eq_ok.mp hcode
    exact ⟨t, ht, htext, (Frame.admits_iff hjoins hd ht).trans hlate⟩

/-- Half the totals of groups, each with the one before it. -/
def shiftedHalves : List Char :=
  ("transform S to T as x * 2 as y, sum(y) as t, t / 2 as h, " ++
    "lag(h) over (partition by k order by h) as l grouped by k, j where t > 1 " ++
    "selecting k, t, h, l ordered by h limit 3").toList

def shiftedPipe : String :=
  "T <- S %>%\n  mutate(y = x * 2) %>%\n  group_by(k, j) %>%\n  " ++
    "summarise(t = sum(y, na.rm = TRUE), .groups = \"drop\") %>%\n  mutate(h = t / 2) %>%\n  " ++
    "filter(t > 1) %>%\n  group_by(k) %>%\n  arrange(h, .by_group = TRUE) %>%\n  " ++
    "mutate(l = lag(h)) %>%\n  ungroup() %>%\n  select(k, t, h, l) %>%\n  arrange(h) %>%\n  " ++
    "slice_head(n = 3)"

def shiftedChain : String :=
  "T <- head(copy(S)[, y := x * 2][, .(t = sum(y, na.rm = TRUE)), by = .(k, j)]" ++
    "[, h := t / 2][t > 1][order(h), l := shift(h), by = .(k)][, .(k, t, h, l)][order(h)], 3)"

theorem admits_shiftedHalves : ∃ s, Statement.parse shiftedHalves = .ok s ∧
    (s.check .empty {}).valid = true ∧ (∀ op ∈ s.operations, op.joined? = none) ∧
    (∀ source n, Snapshot.empty.hasColumn source n = false) ∧
    s.generate .dataFramePipe .empty = .ok shiftedPipe ∧
    s.generate .tabularFrame .empty = .ok shiftedChain ∧
    (∃ script, Pipe.Script.ofPlan .empty (Plan.ofStatement s) = .ok script ∧
      (Shape.opened []).Admits script.effects) ∧
    ∃ t, Frame.Table.ofPlan .empty (Plan.ofStatement s) = .ok t ∧
      (Shape.opened []).Admits t.effects := by
  obtain ⟨s, hs, h⟩ := exists_parse shiftedHalves
    (congrArg String.toList ((congrArg (· ++ _) String.ofList_append.symm).trans
      String.ofList_append.symm))
    (fun _ s => (s.check .empty {}).valid && (s.operations.all fun op => op.joined? == none) &&
      decide (Plan.ofStatement s).ReadsAvailable &&
      decide ((s.generate .dataFramePipe .empty).toOption = some shiftedPipe) &&
      decide ((s.generate .tabularFrame .empty).toOption = some shiftedChain))
    (by decide +kernel)
  simp only [Bool.and_eq_true, decide_eq_true_iff, List.all_eq_true, beq_iff_eq] at h
  obtain ⟨⟨⟨⟨hv, hj⟩, hr⟩, hpipe⟩, hframe⟩ := h
  have hd (source n : String) : Snapshot.empty.hasColumn source n = false := rfl
  have hpipe := eq_ok_of_toOption hpipe
  have hframe := eq_ok_of_toOption hframe
  obtain ⟨hscripts, htables⟩ := admits_iff_of_valid hs hv hj hd
  obtain ⟨script, hscript, -, hadmits⟩ := hscripts _ hpipe
  obtain ⟨t, ht, -, hadmits'⟩ := htables _ hframe
  exact ⟨s, hs, hv, hj, hd, hpipe, hframe, ⟨script, hscript, hadmits.mpr hr⟩,
    t, ht, hadmits'.mpr hr⟩

/-- Rows that are sorted before the column that sorts them is dropped. -/
def sortedSelection : List Char :=
  "S -> sort(b) -> select(a)".toList

/-- The scripts of a valid statement can read a column that they have dropped. -/
theorem not_admits_sortedSelection : ∃ s, Statement.parse sortedSelection = .ok s ∧
    (s.check .empty {}).valid = true ∧ (∀ op ∈ s.operations, op.joined? = none) ∧
    (∀ source n, Snapshot.empty.hasColumn source n = false) ∧
    s.generate .dataFramePipe .empty = .ok "S %>%\n  select(a) %>%\n  arrange(b)" ∧
    s.generate .tabularFrame .empty = .ok "S[, .(a)][order(b)]" ∧
    (∃ script, Pipe.Script.ofPlan .empty (Plan.ofStatement s) = .ok script ∧
      ¬ (Shape.opened []).Admits script.effects) ∧
    ∃ t, Frame.Table.ofPlan .empty (Plan.ofStatement s) = .ok t ∧
      ¬ (Shape.opened []).Admits t.effects := by
  obtain ⟨s, hs, h⟩ := exists_parse sortedSelection rfl
    (fun _ s => (s.check .empty {}).valid && (s.operations.all fun op => op.joined? == none) &&
      decide ((s.generate .dataFramePipe .empty).toOption =
        some "S %>%\n  select(a) %>%\n  arrange(b)") &&
      decide ((s.generate .tabularFrame .empty).toOption = some "S[, .(a)][order(b)]") &&
      (Pipe.Script.ofPlan .empty (Plan.ofStatement s)).toOption.any (fun script =>
        decide (¬ (Shape.opened []).Admits script.effects)) &&
      (Frame.Table.ofPlan .empty (Plan.ofStatement s)).toOption.any fun t =>
        decide (¬ (Shape.opened []).Admits t.effects))
    (by decide +kernel)
  simp only [Bool.and_eq_true, decide_eq_true_iff, List.all_eq_true, beq_iff_eq,
    Option.any_eq_true] at h
  obtain ⟨⟨⟨⟨⟨hv, hj⟩, hpipe⟩, hframe⟩, script, hscript, hadmits⟩, t, ht, hadmits'⟩ := h
  exact ⟨s, hs, hv, hj, fun _ _ => rfl, eq_ok_of_toOption hpipe, eq_ok_of_toOption hframe,
    ⟨script, eq_ok_of_toOption hscript, hadmits⟩, t, eq_ok_of_toOption ht, hadmits'⟩

end Check

end DataPhrase
