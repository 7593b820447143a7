/-
The last name of a path.

What stands behind the last slash of a path is used in two ways.  Following the
path ends with it (`names_eq_concat`), and the extension is taken from it
(`extension?_eq`), unless it is one of the few that do not name a file.
-/
import Mathlib.Data.List.DropRight
import TD4.Proofs.Path.Extension

namespace TD4
namespace Path

/-- What stands behind the last slash of a path. -/
def lastName (path : List Char) : List Char := path.rtakeWhile fun c => c != '/'

variable {path : List Char}

theorem slash_not_mem_lastName (path : List Char) : '/' ∉ lastName path := by
  intro hmem
  exact absurd (List.mem_rtakeWhile_imp hmem) (by decide)

theorem lastName_ne_nil (hne : path ≠ []) (hslash : path.getLast? ≠ some '/') :
    lastName path ≠ [] := by
  intro hnil
  have hlast : path.getLast hne = '/' := by
    simpa using List.rtakeWhile_eq_nil_iff.mp hnil hne
  exact hslash (by rw [List.getLast?_eq_some_getLast hne, hlast])

/-- Before the last name stands nothing, or something that ends in a slash. -/
theorem eq_lastName_or (path : List Char) :
    path = lastName path ∨ ∃ front, path = front ++ '/' :: lastName path := by
  have hparts : path.rdropWhile (fun c => c != '/') ++ lastName path = path :=
    List.rdropWhile_append_rtakeWhile
  by_cases hnil : path.rdropWhile (fun c => c != '/') = []
  · rw [hnil, List.nil_append] at hparts
    exact .inl hparts.symm
  · have hlast : (path.rdropWhile fun c => c != '/').getLast hnil = '/' := by
      simpa using List.rdropWhile_last_not (fun c => c != '/') path hnil
    have hfront := List.dropLast_append_getLast hnil
    rw [hlast] at hfront
    rw [← hfront, List.append_assoc] at hparts
    exact .inr ⟨_, hparts.symm⟩

/-- The last name of a path comes last when the path is followed. -/
theorem names_eq_concat (h : lastName path ≠ []) :
    ∃ front, names path = front ++ [lastName path] := by
  have hsingle : (lastName path).splitOn '/' = [lastName path] :=
    List.splitOn_eq_singleton (slash_not_mem_lastName path)
  have hkeep : [lastName path].filter (fun name => !name.isEmpty) = [lastName path] := by
    simpa using h
  rcases eq_lastName_or path with hpath | ⟨front, hpath⟩
  · refine ⟨[], ?_⟩
    conv_lhs => rw [names, hpath, hsingle, hkeep]
    rfl
  · refine ⟨(front.splitOn '/').filter fun name => !name.isEmpty, ?_⟩
    conv_lhs => rw [names, hpath, List.splitOn_append_cons_self, List.filter_append, hsingle, hkeep]

/-- What stands behind the last slash of a path is its last name, unless it is one of
those that do not name a file. -/
theorem exists_parts (hne : lastName path ≠ []) (hdot : lastName path ≠ ['.'])
    (hdots : lastName path ≠ ['.', '.']) : ∃ front, Parts path front (lastName path) [] := by
  have hslash := slash_not_mem_lastName path
  rcases eq_lastName_or path with hpath | ⟨front, hpath⟩
  · exact ⟨[], by simpa using hpath, Or.inl rfl, hslash, ⟨hne, hdot, hdots⟩, .nil⟩
  · exact ⟨front ++ ['/'], by simpa using hpath, Or.inr List.getLast?_concat, hslash,
      ⟨hne, hdot, hdots⟩, .nil⟩

theorem extension?_eq (hne : lastName path ≠ []) (hdot : lastName path ≠ ['.'])
    (hdots : lastName path ≠ ['.', '.']) : extension? path = (splitName (lastName path)).2 := by
  obtain ⟨front, hparts⟩ := exists_parts hne hdot hdots
  rw [extension?, split?_eq_some_iff.mpr ⟨[], hparts⟩]

example : extension? "a.b/prog.tar.s".toList = some "s".toList := by decide

end Path
end TD4
