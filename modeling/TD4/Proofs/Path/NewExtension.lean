/-
Another extension for a path.

Where a path ends in a name, another extension takes the place of the one that the
name has, or is added if it has none (`Renamed`).  There is one exception
(`renamed_or_dots`): of a name that begins with two dots and has no other, only the
two dots are left without the extension, and these are no name that an extension
could be added to.
-/
import TD4.Proofs.Path.LastName

namespace TD4
namespace Path

variable {path front name stem old extension : List Char}

/-- A path with another extension in the place of its own, or behind its name. -/
inductive Renamed (path extension : List Char) : List Char → Prop
  | replaced {front stem old : List Char} (hparts : Parts path front (stem ++ '.' :: old) [])
      (hstem : stem ≠ []) (hold : '.' ∉ old) :
      Renamed path extension (front ++ (stem ++ '.' :: extension))
  | added (h : ∀ old, ¬ HasExtension path old) : Renamed path extension (path ++ '.' :: extension)

theorem lastName_append (hfront : EndsName front) (hslash : '/' ∉ name) :
    lastName (front ++ name) = name := by
  rw [← List.reverse_reverse front, endsName_reverse_iff] at hfront
  have hreverse : '/' ∉ name.reverse := by simpa using hslash
  rw [lastName, List.rtakeWhile, List.reverse_append, (span_ne hreverse hfront).1,
    List.reverse_reverse]

theorem split?_dots (hfront : EndsName front) : split? (front ++ ['.', '.']) = none := by
  rw [← List.reverse_reverse front, endsName_reverse_iff] at hfront
  have hdrop : dropTail (front ++ ['.', '.']).reverse = ['.', '.'] ++ front.reverse := by
    rw [List.reverse_append]
    exact dropTail_name (by decide) (by decide) (by decide) _
  have htake : (['.', '.'] ++ front.reverse).takeWhile (fun c => c != '/') = ['.', '.'] :=
    (span_ne (by decide) hfront).1
  rw [split?, hdrop]
  simp only [htake]
  exact if_pos (by decide)

theorem fst_splitName (h : (splitName name).2 = none) : (splitName name).1 = name := by
  rw [splitName] at h ⊢
  split at h
  case h_1 => rfl
  case h_2 => rfl
  case h_3 => cases h

theorem withExtension_of_no_extension (hparts : Parts path front name [])
    (h : ∀ old, ¬ HasExtension path old) :
    withExtension path extension = path ++ '.' :: extension := by
  have hnone : extension? path = none :=
    Option.eq_none_iff_forall_ne_some.mpr fun old hold => h old (extension?_eq_some_iff.mp hold)
  have hsplit : split? path = some (front, name) := split?_eq_some_iff.mpr ⟨[], hparts⟩
  have hname : (splitName name).2 = none := by
    rwa [extension?, hsplit] at hnone
  rw [withExtension, hnone]
  simp only [hsplit]
  rw [fst_splitName hname, hparts.path_eq, List.append_nil]

/-- What is left of a path without its extension, the dot included. -/
theorem take_of_parts (hparts : Parts path front (stem ++ '.' :: old) []) :
    path.take (path.length - old.length) = front ++ (stem ++ ['.']) := by
  have hpath : path = front ++ (stem ++ ['.']) ++ old := by
    rw [hparts.path_eq]
    simp
  rw [hpath, List.length_append, Nat.add_sub_cancel, List.take_left]

theorem renamed_or_dots (hparts : Parts path front name []) (extension : List Char) :
    Renamed path extension (withExtension path extension) ∨
      withExtension path extension = front ++ ['.', '.'] := by
  by_cases hnone : ∀ old, ¬ HasExtension path old
  · rw [withExtension_of_no_extension hparts hnone]
    exact .inl (.added hnone)
  · simp only [not_forall, not_not] at hnone
    obtain ⟨old, hold⟩ := hnone
    have hextension := extension?_eq_some_iff.mpr hold
    have hsplit : split? path = some (front, name) := split?_eq_some_iff.mpr ⟨[], hparts⟩
    obtain ⟨stem, rfl, hstem, hdot⟩ : ∃ stem, name = stem ++ '.' :: old ∧ stem ≠ [] ∧ '.' ∉ old := by
      rw [← splitName_eq_some_iff]
      rwa [extension?, hsplit] at hextension
    rw [withExtension, hextension]
    simp only
    rw [take_of_parts hparts]
    by_cases hdots : stem = ['.']
    · subst hdots
      have hbase : split? (front ++ (['.'] ++ ['.'])) = none := split?_dots hparts.front
      rw [hbase]
      exact .inr rfl
    · -- the stem and the dot are still a name
      have hbase : Parts (front ++ (stem ++ ['.'])) front (stem ++ ['.']) [] := by
        refine ⟨by rw [List.append_nil], hparts.front, ?_, ⟨?_, ?_, ?_⟩, .nil⟩
        · have hslash := hparts.slash
          simp only [List.mem_append, List.mem_cons] at hslash ⊢
          tauto
        · simp
        · simpa using hstem
        · intro heq
          have hsame : stem ++ ['.'] = ['.'] ++ ['.'] := heq
          exact hdots (List.append_cancel_right hsame)
      rw [split?_eq_some_iff.mpr ⟨[], hbase⟩]
      simp only
      rw [splitName_eq hstem List.not_mem_nil, List.append_assoc]
      exact .inl (.replaced hparts hstem hdot)

example : withExtension "lib/boot.old.asm".toList "bin".toList = "lib/boot.old.bin".toList := by decide

example : withExtension "..s".toList "bin".toList = "..".toList := by decide

end Path
end TD4
