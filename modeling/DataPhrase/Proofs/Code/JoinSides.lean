/-
# Sides of join equalities

An equality in the condition of a join can be written from either side. A script takes a key from it
and keeps the column that is not of the joined source, whichever side that one stands on
(`keyPair?_mirror`). Scripts know joins by their keys alone, so they do not change when equalities
are turned around (`generate_mirrorJoins`).
-/
import DataPhrase.Code.Generate
import DataPhrase.Proofs.Dictionary.Reachable
import DataPhrase.Proofs.Plan
import DataPhrase.Proofs.Statement.Equality
import DataPhrase.Proofs.Statement.Parse
import Mathlib.Logic.Basic

namespace DataPhrase

open Code Script

variable {source joined : String} {c : Condition} {d : Snapshot} {p : Plan} {js : List Join}

/-! ## Turning equalities around -/

namespace Condition

/-- An equality with its sides exchanged. -/
def mirror : Condition → Condition
  | .comparison l .eq r => .comparison r .eq l
  | c => c

/-- The condition with the chosen ones of its conjuncts turned around. -/
def mirrorAt (chosen : Nat → Bool) : Condition → Condition
  | .logical .and cs => .logical .and (cs.mapIdx fun i c => if chosen i then c.mirror else c)
  | c => if chosen 0 then c.mirror else c

/-- The condition is an equality of two fields, exactly one of which is of the joined source, and
the joined source is not the main one. -/
def IsAcross (source joined : String) : Condition → Prop
  | .comparison (.field lq _) .eq (.field rq _) =>
    joined ≠ source ∧ Xor (lq = some joined) (rq = some joined)
  | _ => False

theorem conjuncts_mirrorAt (chosen : Nat → Bool) (c : Condition) :
    (c.mirrorAt chosen).conjuncts =
      c.conjuncts.mapIdx fun i a => if chosen i then a.mirror else a := by
  have hsingle {c : Condition} (hc : c.conjuncts = [c]) (hm : c.mirror.conjuncts = [c.mirror])
      (h : c.mirrorAt chosen = if chosen 0 then c.mirror else c) :
      (c.mirrorAt chosen).conjuncts =
        c.conjuncts.mapIdx fun i a => if chosen i then a.mirror else a := by
    rw [h, hc]
    show _ = [if chosen 0 then c.mirror else c]
    split
    · exact hm
    · exact hc
  cases c with
  | logical op cs =>
    cases op with
    | and => rfl
    | or => exact hsingle rfl rfl rfl
  | comparison l op r => cases op <;> exact hsingle rfl rfl rfl
  | not c => exact hsingle rfl rfl rfl
  | call n args => exact hsingle rfl rfl rfl

end Condition

/-- The operation with the chosen equalities turned around, if it joins. -/
def Operation.mirrorAt (chosen : Nat → Bool) : Operation → Operation
  | .join other c => .join other (c.mirrorAt chosen)
  | op => op

/-- Every conjunct of a join is an equality between a field of the joined source and one of another,
and the joined source is not the main one. -/
def Operation.JoinsAcross (source : String) : Operation → Prop
  | .join other c => ∀ a ∈ c.conjuncts, a.IsAcross source other
  | _ => True

namespace Statement

/-- The statement with equalities of its joins turned around: of operation `i` the conjuncts `k` for
which `chosen i k` holds. -/
def mirrorJoins (chosen : Nat → Nat → Bool) (s : Statement) : Statement :=
  { s with operations := s.operations.mapIdx fun i op => op.mirrorAt (chosen i) }

/-- All joins of the statement are on equalities with exactly one field of the joined source, which
is not the source of the statement. -/
def JoinsAcross (s : Statement) : Prop :=
  ∀ op ∈ s.operations, op.JoinsAcross s.source

end Statement

/-! ## Keys -/

namespace Script

/-- **The key of an equality is the same from both sides.** -/
theorem keyPair?_mirror (h : c.IsAcross source joined) :
    keyPair? source joined c.mirror = keyPair? source joined c := by
  unfold Condition.IsAcross at h
  split at h
  · next lq ln rq rn =>
    obtain ⟨hne, ⟨hl, hr⟩ | ⟨hr, hl⟩⟩ := h
    · -- The joined source stands on the left, and from the other side on the right.
      simp [Condition.mirror, keyPair?, hl, hr, hne]
    · simp [Condition.mirror, keyPair?, hl, hr, hne]
  · exact h.elim

/-- What a script knows of a join: its source and its keys. -/
def keyed (source : String) (j : Join) : String × Option (List (String × String)) :=
  (j.source, keyPairs? source j)

theorem mapM_mapIdx_mirror {cs : List Condition} (h : ∀ a ∈ cs, a.IsAcross source joined)
    (chosen : Nat → Bool) :
    (cs.mapIdx fun i a => if chosen i then a.mirror else a).mapM (keyPair? source joined) =
      cs.mapM (keyPair? source joined) := by
  induction cs generalizing chosen with
  | nil => rfl
  | cons a cs ih =>
    rw [List.forall_mem_cons] at h
    have hkey : keyPair? source joined (if chosen 0 then a.mirror else a) =
        keyPair? source joined a := by
      split
      · exact keyPair?_mirror h.1
      · rfl
    rw [List.mapIdx_cons, List.mapM_cons, List.mapM_cons, hkey, ih h.2]

/-- Turning equalities around leaves the keys of a join as they are. -/
theorem keyed_mirrorAt {other : String} (h : (Operation.join other c).JoinsAcross source)
    (chosen : Nat → Bool) :
    keyed source ⟨other, c.mirrorAt chosen⟩ = keyed source ⟨other, c⟩ := by
  rw [keyed, keyed, keyPairs?, keyPairs?, Condition.conjuncts_mirrorAt, mapM_mapIdx_mirror h]

/-! ## Joins with the same keys -/

/-- The keys of a join, or the reason why it has none. -/
def settledKeys (target : Target) (k : String × Option (List (String × String))) :
    Settled (List (String × String)) :=
  match k.2 with
  | some ks => .ok ks
  | none => .error (.unsupported target (.joinCondition k.1))

theorem map_keyPairs (target : Target)
    (h : js.map (keyed source) = p.joins.map (keyed source)) :
    js.map (keyPairs target source) = p.joins.map (keyPairs target source) := by
  have hkeys : keyPairs target source = settledKeys target ∘ keyed source := rfl
  rw [hkeys, ← List.map_map, ← List.map_map, h]

/-- Columns after joins depend on the keys of the joins alone. -/
theorem columns_congr (h : js.map (keyed p.source) = p.joins.map (keyed p.source)) :
    Columns.ofPlan d { p with joins := js } = Columns.ofPlan d p := by
  have hsources : js.map Join.source = p.joins.map Join.source := by
    have := congrArg (List.map Prod.fst) h
    rwa [List.map_map, List.map_map] at this
  have hkeys : joinKeys p.source js = joinKeys p.source p.joins := by
    have := congrArg (List.flatMap fun k =>
      (k.2.getD []).map fun x => (⟨k.1, x.1, x.2⟩ : JoinKey)) h
    rwa [List.flatMap_map, List.flatMap_map] at this
  rw [Columns.ofPlan, Columns.ofPlan]
  dsimp only
  rw [hsources, hkeys]

end Script

/-- **Pipes depend on the keys of the joins alone.** -/
theorem Pipe.generate_congr (h : js.map (keyed p.source) = p.joins.map (keyed p.source)) :
    Pipe.generate d { p with joins := js } = Pipe.generate d p := by
  let step (k : String × Option (List (String × String))) : Settled Pipe.Step :=
    (settledKeys .dataFramePipe k).map fun ks => .innerJoin k.1 ks
  have hjoins : js.mapM (step ∘ keyed p.source) = p.joins.mapM (step ∘ keyed p.source) := by
    rw [← List.mapM_map, ← List.mapM_map, h]
  have hscript : Pipe.Script.ofPlan d { p with joins := js } = Pipe.Script.ofPlan d p := by
    unfold Pipe.Script.ofPlan
    rw [columns_congr h]
    exact congrArg (· >>= _) hjoins
  rw [Pipe.generate, Pipe.generate, hscript]

/-- **Chains depend on the keys of the joins alone.** -/
theorem Frame.generate_congr (h : js.map (keyed p.source) = p.joins.map (keyed p.source)) :
    Frame.generate d { p with joins := js } = Frame.generate d p := by
  let step (t : Frame.Table) (k : String × Option (List (String × String))) :
      Settled Frame.Table :=
    (settledKeys .tabularFrame k).map fun ks =>
      .merge t k.1 (ks.map Prod.fst) (ks.map Prod.snd)
  have hjoins (t : Frame.Table) : js.foldlM (Frame.joined p.source) t =
      p.joins.foldlM (Frame.joined p.source) t := by
    have hstep : Frame.joined p.source = fun t j => step t (keyed p.source j) := rfl
    rw [hstep, ← List.foldlM_map, ← List.foldlM_map, h]
  have hempty : js.isEmpty = p.joins.isEmpty := by
    have := congrArg List.isEmpty h
    rwa [List.isEmpty_map, List.isEmpty_map] at this
  have htable : Frame.Table.ofPlan d { p with joins := js } = Frame.Table.ofPlan d p := by
    unfold Frame.Table.ofPlan
    rw [columns_congr h]
    dsimp only
    rw [hjoins, hempty]
    rfl
  rw [Frame.generate, Frame.generate, htable]

/-! ## Plans -/

theorem flatMap_mapIdx {α β : Type} {f : Nat → α → α} {g : α → List β}
    (h : ∀ i a, g (f i a) = g a) (l : List α) : (l.mapIdx f).flatMap g = l.flatMap g := by
  induction l generalizing f with
  | nil => rfl
  | cons a l ih => rw [List.mapIdx_cons, List.flatMap_cons, List.flatMap_cons, h, ih fun i => h _]

namespace Plan

/-- One more operation, with equalities turned around or not, does the same to plans that differ in
joins with the same keys. -/
theorem add_mirrorAt (needed : List String) {op : Operation} (hop : op.JoinsAcross source)
    (chosen : Nat → Bool) (h : js.map (keyed source) = p.joins.map (keyed source)) :
    ∃ js', add needed { p with joins := js } (op.mirrorAt chosen) =
        { add needed p op with joins := js' } ∧
      js'.map (keyed source) = (add needed p op).joins.map (keyed source) := by
  cases op with
  | join other c =>
    refine ⟨js ++ [⟨other, c.mirrorAt chosen⟩], rfl, ?_⟩
    rw [add, List.map_append, List.map_append, h, List.map_singleton, List.map_singleton,
      keyed_mirrorAt hop]
  | calculate e a =>
    have hafter : runsAfter needed { p with joins := js } ⟨a, e⟩ = runsAfter needed p ⟨a, e⟩ := rfl
    have hsame : (Operation.calculate e a).mirrorAt chosen = .calculate e a := rfl
    rw [hsame, add, add, hafter]
    split <;> exact ⟨js, rfl, h⟩
  | _ => exact ⟨js, rfl, h⟩

/-- A plan takes in operations whose equalities are turned around as it takes in the others, but for
its joins, and these have the same keys. -/
theorem foldl_mirrorAt (needed : List String) {ops : List Operation}
    (hops : ∀ op ∈ ops, op.JoinsAcross source) (chosen : Nat → Nat → Bool)
    (h : js.map (keyed source) = p.joins.map (keyed source)) :
    ∃ js', (ops.mapIdx fun i op => op.mirrorAt (chosen i)).foldl (add needed)
        { p with joins := js } = { ops.foldl (add needed) p with joins := js' } ∧
      js'.map (keyed source) = (ops.foldl (add needed) p).joins.map (keyed source) := by
  induction ops generalizing p js chosen with
  | nil => exact ⟨js, rfl, h⟩
  | cons op ops ih =>
    rw [List.forall_mem_cons] at hops
    rw [List.mapIdx_cons, List.foldl_cons, List.foldl_cons]
    obtain ⟨js', hadd, hkeys⟩ := add_mirrorAt needed hops.1 (chosen 0) h
    rw [hadd]
    exact ih hops.2 _ hkeys

/-- **A statement with equalities turned around has the same plan**, but for its joins, and these
have the same keys. -/
theorem ofStatement_mirrorJoins {s : Statement} (hs : s.JoinsAcross)
    (chosen : Nat → Nat → Bool) :
    ∃ js, ofStatement (s.mirrorJoins chosen) = { ofStatement s with joins := js } ∧
      js.map (keyed s.source) = (ofStatement s).joins.map (keyed s.source) := by
  have hneeded : namesNeeded (s.mirrorJoins chosen) = namesNeeded s := by
    rw [namesNeeded, namesNeeded]
    refine congrArg (_ ++ ·) (flatMap_mapIdx (fun i op => ?_) _)
    cases op <;> rfl
  have hstart : ([] : List Join).map (keyed s.source) = (start s).joins.map (keyed s.source) := rfl
  obtain ⟨js, hfold, hkeys⟩ := foldl_mirrorAt (namesNeeded s) hs chosen hstart
  have hfolded : folded (s.mirrorJoins chosen) = { folded s with joins := js } := by
    rw [folded, hneeded]
    exact hfold
  refine ⟨js, ?_, hkeys⟩
  rw [ofStatement_eq_folded, ofStatement_eq_folded, hfolded]
  rfl

end Plan

/-- **Equalities of joins can be written from either side.** If every join is on equalities with
exactly one field of the joined source, and this is not the source of the statement, then turning
any of them around changes neither the keys of a join, nor a name after the joins, nor the code of a
script. -/
theorem generate_mirrorJoins {s : Statement} (hs : s.JoinsAcross) (chosen : Nat → Nat → Bool)
    (d : Snapshot) :
    let p := Plan.ofStatement s
    let p' := Plan.ofStatement (s.mirrorJoins chosen)
    (∀ target, p'.joins.map (keyPairs target p'.source) =
      p.joins.map (keyPairs target p.source)) ∧
    (∀ f, (Columns.ofPlan d p').field f = (Columns.ofPlan d p).field f) ∧
    (∀ n, (Columns.ofPlan d p').written n = (Columns.ofPlan d p).written n) ∧
    (s.mirrorJoins chosen).generate .dataFramePipe d = s.generate .dataFramePipe d ∧
    (s.mirrorJoins chosen).generate .tabularFrame d = s.generate .tabularFrame d := by
  intro p p'
  obtain ⟨js, hp, hkeys⟩ := Plan.ofStatement_mirrorJoins hs chosen
  have hp : p' = { p with joins := js } := hp
  have hkeys : js.map (keyed p.source) = p.joins.map (keyed p.source) := by
    rw [Plan.source_ofStatement]
    exact hkeys
  refine ⟨fun target => ?_, fun f => ?_, fun n => ?_, ?_, ?_⟩
  · rw [hp]
    exact map_keyPairs target hkeys
  · rw [hp, columns_congr hkeys]
  · rw [hp, columns_congr hkeys]
  · show Pipe.generate d p' = Pipe.generate d p
    rw [hp, Pipe.generate_congr hkeys]
  · show Frame.generate d p' = Frame.generate d p
    rw [hp, Frame.generate_congr hkeys]

/-- Orders joined with their customers, and with regions by an unqualified name. -/
def regionalOrders : List Char :=
  ("transform Orders to T joined with Customers on Orders.customer_id = Customers.id " ++
    "joined with Regions on region = Regions.code selecting Customers.region").toList

/-- Customers and regions, with columns of the same name. -/
def regionalColumns : Snapshot :=
  ((Snapshot.empty.put ⟨"Orders", "customer_id", { category := .column }⟩).put
    ⟨"Customers", "region", { category := .column }⟩).put
    ⟨"Regions", "region", { category := .column }⟩

theorem generate_mirrorJoins_regionalOrders : ∃ s, Statement.parse regionalOrders = .ok s ∧
    s.JoinsAcross ∧ s.mirrorJoins (fun _ _ => true) ≠ s ∧
    (s.generate .dataFramePipe regionalColumns).toOption.isSome = true ∧
    (s.mirrorJoins fun _ _ => true).generate .dataFramePipe regionalColumns =
      s.generate .dataFramePipe regionalColumns := by
  let ops : List Operation :=
    [.join "Customers" (.comparison (.field (some "Orders") "customer_id") .eq
        (.field (some "Customers") "id")),
      .join "Regions" (.comparison (.field none "region") .eq (.field (some "Regions") "code")),
      .select ["Customers.region"]]
  obtain ⟨s, hs, h⟩ := exists_parse regionalOrders
    (congrArg String.toList String.ofList_append.symm)
    (fun _ s => decide (s.source = "Orders" ∧ s.operations = ops ∧
      s.mirrorJoins (fun _ _ => true) ≠ s ∧
      (s.generate .dataFramePipe regionalColumns).toOption.isSome = true))
    (by decide +kernel)
  obtain ⟨hsource, hops, hne, hcode⟩ := of_decide_eq_true h
  have hacross : s.JoinsAcross := by
    rw [Statement.JoinsAcross, hops, hsource]
    simp [ops, Operation.JoinsAcross, Condition.conjuncts, Condition.IsAcross, Xor]
  obtain ⟨-, -, -, hpipe, -⟩ :=
    generate_mirrorJoins hacross (fun _ _ => true) regionalColumns
  exact ⟨s, hs, hacross, hne, hcode, hpipe⟩

end DataPhrase
