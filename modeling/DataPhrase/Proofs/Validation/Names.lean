/-
# Names with a source in front

A written name is cut at its first point: before it stands a source, behind it a column. A plain
name has no source, and a plain source is cut off whole.
-/
import Mathlib.Data.List.TakeWhile
import DataPhrase.Proofs.Grammar.Names
import DataPhrase.Validation.Check

namespace DataPhrase

variable {q n : String}

theorem toList_ne_of_isPlain (h : IsPlain n) : ∀ c ∈ n.toList, (c != '.') = true := by
  intro c hc
  rw [bne_iff_ne]
  rintro rfl
  exact h hc

/-- A name behind a plain source is cut between them. -/
theorem cut_of_isPlain (h : IsPlain q) :
    (q ++ "." ++ n).toList.takeWhile (· != '.') = q.toList ∧
      (q ++ "." ++ n).toList.dropWhile (· != '.') = '.' :: n.toList := by
  have hs : (q ++ "." ++ n).toList = q.toList ++ '.' :: n.toList := by
    rw [String.toList_append, String.toList_append, List.append_assoc]
    rfl
  rw [hs, List.takeWhile_append_of_pos (toList_ne_of_isPlain h),
    List.dropWhile_append_of_pos (toList_ne_of_isPlain h)]
  exact ⟨List.append_nil _, rfl⟩

namespace Check

theorem splitName_of_isPlain (h : IsPlain n) : splitName n = (none, n) := by
  have hd : n.toList.dropWhile (· != '.') = [] :=
    List.dropWhile_eq_nil_iff.mpr (toList_ne_of_isPlain h)
  unfold splitName
  rw [hd]

theorem splitName_qualified (h : IsPlain q) : splitName (q ++ "." ++ n) = (some q, n) := by
  obtain ⟨h1, h2⟩ := cut_of_isPlain (n := n) h
  unfold splitName
  rw [h1, h2]
  simp only [String.ofList_toList]

/-- Cutting a written name loses nothing. -/
theorem joinName_splitName (n : String) : joinName (splitName n) = n := by
  have hn := List.takeWhile_append_dropWhile (p := (· != '.')) (l := n.toList)
  unfold splitName
  cases hd : n.toList.dropWhile (· != '.') with
  | nil => rfl
  | cons c rest =>
    have hc : c = '.' := by
      have := List.head?_dropWhile_not (· != '.') n.toList
      rw [hd] at this
      simpa using this
    rw [hd, hc] at hn
    have hs : String.ofList (n.toList.takeWhile (· != '.')) ++ "." ++ String.ofList rest = n := by
      apply String.toList_injective
      rw [String.toList_append, String.toList_append, String.toList_ofList, String.toList_ofList,
        List.append_assoc]
      show _ ++ '.' :: (String.ofList rest).toList = _
      rw [String.toList_ofList]
      exact hn
    exact hs

end Check

end DataPhrase
