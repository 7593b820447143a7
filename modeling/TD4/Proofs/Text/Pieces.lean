/-
Cutting a text at a character.

A piece never has the character the text was cut at (`not_mem_of_mem_splitOn`),
and every other character of the text is in some piece (`exists_mem_splitOn`).
Lines that each end with a line break are cut into these lines and an empty
rest (`splitOn_flatMap_append`).  A change of single characters that keeps the
character the text is cut at changes the pieces alike (`splitOn_map`).

A text may also be cut once, where a property of its characters ends (`span_append`).
-/
import Mathlib.Data.List.Basic

namespace TD4
namespace Text

variable {sep c : Char} {text : List Char}

theorem not_mem_of_mem_splitOn {piece : List Char} (h : piece ∈ text.splitOn sep) :
    sep ∉ piece := by
  induction text generalizing piece with
  | nil =>
    rw [List.mem_singleton.mp h]
    exact List.not_mem_nil
  | cons d rest ih =>
    rw [List.splitOn_cons_eq_if_modifyHead] at h
    split at h
    case isTrue =>
      rcases List.mem_cons.mp h with rfl | hrest
      · exact List.not_mem_nil
      · exact ih hrest
    case isFalse hd =>
      -- the first piece of the rest takes the character
      obtain ⟨first, others, hsplit⟩ := List.exists_cons_of_ne_nil (List.splitOn_ne_nil sep rest)
      rw [hsplit, List.modifyHead_cons] at h
      rw [hsplit] at ih
      rcases List.mem_cons.mp h with rfl | hothers
      · intro hmem
        rcases List.mem_cons.mp hmem with rfl | hfirst
        · exact hd (beq_self_eq_true _)
        · exact ih List.mem_cons_self hfirst
      · exact ih (List.mem_cons_of_mem _ hothers)

theorem exists_mem_splitOn (h : c ∈ text) (hne : c ≠ sep) :
    ∃ piece ∈ text.splitOn sep, c ∈ piece := by
  induction text with
  | nil => exact absurd h List.not_mem_nil
  | cons d rest ih =>
    rw [List.splitOn_cons_eq_if_modifyHead]
    split
    case isTrue hd =>
      rcases List.mem_cons.mp h with rfl | hrest
      · exact absurd (beq_iff_eq.mp hd) hne
      · obtain ⟨piece, hpiece, hc⟩ := ih hrest
        exact ⟨piece, List.mem_cons_of_mem _ hpiece, hc⟩
    case isFalse =>
      obtain ⟨first, others, hsplit⟩ := List.exists_cons_of_ne_nil (List.splitOn_ne_nil sep rest)
      rw [hsplit, List.modifyHead_cons]
      rcases List.mem_cons.mp h with rfl | hrest
      · exact ⟨c :: first, List.mem_cons_self, List.mem_cons_self⟩
      · obtain ⟨piece, hpiece, hc⟩ := ih hrest
        rw [hsplit] at hpiece
        rcases List.mem_cons.mp hpiece with rfl | hothers
        · exact ⟨d :: piece, List.mem_cons_self, List.mem_cons_of_mem _ hc⟩
        · exact ⟨piece, List.mem_cons_of_mem _ hothers, hc⟩

/-- Lines with a break behind each, cut at the breaks. -/
theorem splitOn_flatMap_append {lines : List (List Char)} (h : ∀ line ∈ lines, sep ∉ line) :
    (lines.flatMap fun line => line ++ [sep]).splitOn sep = lines ++ [[]] := by
  induction lines with
  | nil => rfl
  | cons line rest ih =>
    obtain ⟨hline, hrest⟩ := List.forall_mem_cons.mp h
    rw [List.flatMap_cons, List.append_assoc, List.singleton_append,
      List.splitOn_append_cons_self_of_not_mem hline, ih hrest, List.cons_append]

theorem splitOn_map {f : Char → Char} (hf : ∀ c, (f c == sep) = (c == sep)) (text : List Char) :
    (text.map f).splitOn sep = (text.splitOn sep).map (List.map f) := by
  induction text with
  | nil => rfl
  | cons d rest ih =>
    obtain ⟨first, others, hsplit⟩ := List.exists_cons_of_ne_nil (List.splitOn_ne_nil sep rest)
    rw [List.map_cons, List.splitOn_cons_eq_if_modifyHead, List.splitOn_cons_eq_if_modifyHead, hf,
      ih, hsplit]
    split <;> rfl

/-- A text is cut where a property of its characters ends. -/
theorem span_append {p : Char → Bool} {front rest : List Char} (hfront : ∀ d ∈ front, p d = true)
    (hrest : ∀ d tail, rest = d :: tail → p d = false) :
    (front ++ rest).takeWhile p = front ∧ (front ++ rest).dropWhile p = rest := by
  rw [List.takeWhile_append_of_pos hfront, List.dropWhile_append_of_pos hfront]
  cases rest with
  | nil => exact ⟨List.append_nil front, rfl⟩
  | cons d tail => simp [hrest d tail rfl]

end Text
end TD4
