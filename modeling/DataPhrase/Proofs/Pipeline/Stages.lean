/-
# What stands in the stages of a pipeline

The lists of a stage are not empty, its expressions and conditions are written ones, and the
aliases it declares are plain names.
-/
import DataPhrase.Proofs.Pipeline.Written
import DataPhrase.Proofs.Statement.Item

namespace DataPhrase.Pipeline

open Lexeme

variable {s r : List Char}

/-! ## Operations of a stage -/

/-- An operation of a stage is an item of the kind the stage accepts, and its alias. -/
theorem gives_operation {accept : Item → Bool} {what : Expected} {op : Operation} :
    (operation accept what s).Gives op r ↔
      ∃ item n q, (Item.read (trim s)).Gives item q ∧ accept item = true ∧
        (requiredAlias q).Gives n r ∧ item.named n = op := by
  unfold operation
  rw [Reader.gives_bind]
  constructor
  · rintro ⟨_, p, hp, h⟩
    rw [gives_skipBlanks] at hp
    subst hp
    obtain ⟨item, q, hi, h⟩ := Reader.gives_bind.mp h
    obtain ⟨i, hi, hf⟩ := Reader.gives_refine.mp hi
    obtain ⟨n, u, hn, h⟩ := Reader.gives_bind.mp h
    obtain ⟨rfl, rfl⟩ := Reader.gives_pure.mp h
    split at hf
    · next ha =>
      cases hf
      exact ⟨item, n, q, hi, ha, hn, rfl⟩
    · cases hf
  · rintro ⟨item, n, q, hi, ha, hn, rfl⟩
    refine ⟨(), trim s, gives_skipBlanks.mpr rfl, Reader.gives_bind.mpr ⟨item, q, ?_,
      Reader.gives_bind.mpr ⟨n, r, hn, Reader.gives_pure.mpr ⟨rfl, rfl⟩⟩⟩⟩
    exact Reader.gives_refine.mpr ⟨item, hi, if_pos ha⟩

/-- Further operations follow as long as a comma stands ahead. -/
theorem gives_operationsRest {accept : Item → Bool} {what : Expected} {ops : List Operation} :
    (operationsRest accept what s).Gives ops r ↔
      ∃ q, Repeats commaAfterBlanks (operation accept what) s ops q ∧ trim q = r := by
  refine gives_iff_repeats ?_ ?_
  · intro s t h
    exact length_lt_of_trim (commaAfterBlanks_eq_some.mp h)
  · intro s l r
    rw [operationsRest.eq_def]
    split
    · next t ht =>
      rw [commaAfterBlanks_eq_some.mpr ht]
      exact gives_item
    · next hn =>
      have hs : commaAfterBlanks s = none := by
        rw [Option.eq_none_iff_forall_ne_some]
        intro t ht
        exact hn t (commaAfterBlanks_eq_some.mp ht)
      rw [hs]
      exact Outcome.gives_done

/-- The operations of a stage are one and the further ones. -/
theorem gives_operations {accept : Item → Bool} {what : Expected} {ops : List Operation} :
    (operations accept what s).Gives ops r ↔
      ∃ op q ops' p, (operation accept what s).Gives op q ∧
        Repeats commaAfterBlanks (operation accept what) q ops' p ∧ trim p = r ∧
        op :: ops' = ops := by
  constructor
  · intro h
    obtain ⟨op, q, hop, h⟩ := Reader.gives_bind.mp h
    obtain ⟨ops', u, hops, h⟩ := Reader.gives_bind.mp h
    obtain ⟨rfl, rfl⟩ := Reader.gives_pure.mp h
    obtain ⟨p, hp, hr⟩ := gives_operationsRest.mp hops
    exact ⟨op, q, ops', p, hop, hp, hr, rfl⟩
  · rintro ⟨op, q, ops', p, hop, hp, hr, rfl⟩
    exact Reader.gives_bind.mpr ⟨op, q, hop, Reader.gives_bind.mpr ⟨ops', r,
      gives_operationsRest.mpr ⟨p, hp, hr⟩, Reader.gives_pure.mpr ⟨rfl, rfl⟩⟩⟩

/-- An operation of a stage has only written names. -/
theorem isWritten_of_operation {accept : Item → Bool} {what : Expected} {op : Operation}
    (h : (operation accept what s).Gives op r) : op.IsWritten := by
  obtain ⟨item, n, q, hi, -, hn, rfl⟩ := gives_operation.mp h
  exact Operation.isWritten_named (Item.isWritten_of_read hi)
    (Operation.isPlain_of_requiredAlias hn)

/-! ## Bodies -/

/-- What stands in the parentheses of a stage: no empty lists, written expressions, plain names. -/
def StageBody.IsWritten : StageBody → Prop
  | .filter c => c.IsWritten
  | .group fields => fields ≠ []
  | .compute ops => ops ≠ [] ∧ ∀ op ∈ ops, op.IsWritten
  | .select fields => fields ≠ []
  | .sort order => order ≠ []
  | .join _ c => c.IsWritten
  | .during _ => True
  | .limit _ => True

theorem ne_nil_of_listOf {α : Type} {p : Phrase α} {l : List α} (h : (listOf p s).Gives l r) :
    l ≠ [] := by
  obtain ⟨a, q, l', -, -, rfl⟩ := gives_listOf.mp h
  exact List.cons_ne_nil a l'

/-- The operations of a stage have only written names. -/
theorem isWritten_of_operations {accept : Item → Bool} {what : Expected} {ops : List Operation}
    (h : (operations accept what s).Gives ops r) : (StageBody.compute ops).IsWritten := by
  obtain ⟨op, q, ops', p, hop, hp, -, rfl⟩ := gives_operations.mp h
  refine ⟨List.cons_ne_nil op ops', List.forall_mem_cons.mpr ⟨isWritten_of_operation hop, ?_⟩⟩
  exact hp.forall fun _ _ _ h => isWritten_of_operation h

/-- The body of a stage has only written names. -/
theorem isWritten_of_readBody {kind : StageKind} {body : StageBody}
    (h : (readBody kind s).Gives body r) : body.IsWritten := by
  cases kind with
  | filter =>
    obtain ⟨c, q, hc, h⟩ := Reader.gives_bind.mp h
    obtain ⟨rfl, -⟩ := Reader.gives_pure.mp h
    exact Condition.isWritten_of_read hc
  | group =>
    obtain ⟨l, q, hl, h⟩ := Reader.gives_bind.mp h
    obtain ⟨rfl, -⟩ := Reader.gives_pure.mp h
    exact ne_nil_of_listOf hl
  | aggregate =>
    obtain ⟨l, q, hl, h⟩ := Reader.gives_bind.mp h
    obtain ⟨rfl, -⟩ := Reader.gives_pure.mp h
    exact isWritten_of_operations hl
  | calculate =>
    obtain ⟨l, q, hl, h⟩ := Reader.gives_bind.mp h
    obtain ⟨rfl, -⟩ := Reader.gives_pure.mp h
    exact isWritten_of_operations hl
  | window =>
    obtain ⟨l, q, hl, h⟩ := Reader.gives_bind.mp h
    obtain ⟨rfl, -⟩ := Reader.gives_pure.mp h
    exact isWritten_of_operations hl
  | select =>
    obtain ⟨l, q, hl, h⟩ := Reader.gives_bind.mp h
    obtain ⟨rfl, -⟩ := Reader.gives_pure.mp h
    exact ne_nil_of_listOf hl
  | sort =>
    obtain ⟨l, q, hl, h⟩ := Reader.gives_bind.mp h
    obtain ⟨rfl, -⟩ := Reader.gives_pure.mp h
    exact ne_nil_of_listOf hl
  | join =>
    obtain ⟨other, q, -, h⟩ := Reader.gives_bind.mp h
    obtain ⟨_, q, -, h⟩ := Reader.gives_bind.mp h
    obtain ⟨c, q, hc, h⟩ := Reader.gives_bind.mp h
    obtain ⟨rfl, -⟩ := Reader.gives_pure.mp h
    exact Condition.isWritten_of_read hc
  | during =>
    obtain ⟨l, q, hl, h⟩ := Reader.gives_bind.mp h
    obtain ⟨rfl, -⟩ := Reader.gives_pure.mp h
    exact trivial
  | limit =>
    obtain ⟨l, q, hl, h⟩ := Reader.gives_bind.mp h
    obtain ⟨rfl, -⟩ := Reader.gives_pure.mp h
    exact trivial

/-- A stage that was read has only written names. -/
theorem isWritten_of_written {w : Written} (h : (written s).Gives w r) : w.body.IsWritten := by
  obtain ⟨_, p, -, h⟩ := Reader.gives_bind.mp h
  obtain ⟨named, q, -, h⟩ := Reader.gives_bind.mp h
  obtain ⟨body, u, hb, h⟩ := Reader.gives_bind.mp h
  obtain ⟨_, v, -, h⟩ := Reader.gives_bind.mp h
  obtain ⟨rfl, -⟩ := Reader.gives_pure.mp h
  exact isWritten_of_readBody hb

/-- The stages that were read have only written names. -/
theorem isWritten_of_writtenStages {ws : List Written} (h : (writtenStages s).Gives ws r) :
    ∀ w ∈ ws, w.body.IsWritten := by
  induction s using writtenStages.induct generalizing ws r with
  | case1 s t hs _ _ ih =>
    obtain ⟨w, q, ws', hw, hws, rfl⟩ := (gives_writtenStages_arrow hs).mp h
    exact List.forall_mem_cons.mpr ⟨isWritten_of_written hw, ih q hw.suffix hws⟩
  | case2 s hs =>
    obtain ⟨rfl, -⟩ := (gives_writtenStages_end fun t ht => hs t ht).mp h
    intro w hw
    cases hw

/-- The stages of a text are written ones. -/
theorem isWritten_of_stagesOf? {text : List Char} {source : String} {ws : List Written}
    (h : stagesOf? text = some (source, ws)) : ∀ w ∈ ws, w.body.IsWritten := by
  obtain ⟨q, r, -, hws⟩ := gives_of_stagesOf? h
  exact isWritten_of_writtenStages hws

end DataPhrase.Pipeline
