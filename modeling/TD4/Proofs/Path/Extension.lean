/-
The extension of a path.

A path parts into what stands before its last name, that name, and slashes and single
dots behind it that do not count (`Parts`).  Its extension is what stands behind the
last dot of the name, if anything stands before that dot (`HasExtension`).

* `split?_eq_some_iff`: this is how a path is split;
* `extension?_eq_some_iff`: and this is the extension that is found.
-/
import Mathlib.Data.List.TakeWhile
import TD4.Path
import TD4.Proofs.Text.Pieces

namespace TD4
namespace Path

/-- Slashes and single dots at the end of a path. -/
inductive Trailing : List Char → Prop
  | nil : Trailing []
  | slash {tail : List Char} (h : Trailing tail) : Trailing ('/' :: tail)
  | dot {tail : List Char} (h : Trailing tail) : Trailing ('/' :: '.' :: tail)

/-- Nothing, or something that ends in a slash. -/
def EndsName (front : List Char) : Prop := front = [] ∨ front.getLast? = some '/'

/-- A path has a last name, with something before and behind it. -/
structure Parts (path front name tail : List Char) : Prop where
  path_eq : path = front ++ (name ++ tail)
  front : EndsName front
  slash : '/' ∉ name
  name : name ≠ [] ∧ name ≠ ['.'] ∧ name ≠ ['.', '.']
  tail : Trailing tail

/-- A path has an extension. -/
def HasExtension (path extension : List Char) : Prop :=
  ∃ front stem tail, Parts path front (stem ++ '.' :: extension) tail ∧ stem ≠ [] ∧ '.' ∉ extension

variable {path front name tail text rest extension : List Char}

/-! ### The last name -/

theorem Trailing.append (h : Trailing text) (htail : Trailing tail) : Trailing (text ++ tail) := by
  induction h with
  | nil => exact htail
  | slash _ ih => exact .slash ih
  | dot _ ih => exact .dot ih

/-- What is dropped from the end of a path does not count. -/
theorem exists_trailing_dropTail (text : List Char) :
    ∃ tail, Trailing tail ∧ text = tail.reverse ++ dropTail text := by
  fun_induction dropTail text with
  | case1 rest ih =>
    obtain ⟨tail, htail, hrest⟩ := ih
    refine ⟨tail ++ ['/'], htail.append (.slash .nil), ?_⟩
    rw [List.reverse_append, List.append_assoc, ← hrest]
    rfl
  | case2 rest ih =>
    obtain ⟨tail, htail, hrest⟩ := ih
    refine ⟨tail ++ ['/', '.'], htail.append (.dot .nil), ?_⟩
    rw [List.reverse_append, List.append_assoc, ← hrest]
    rfl
  | case3 text => exact ⟨[], .nil, rfl⟩

theorem dropTail_append (h : Trailing tail) (rest : List Char) :
    dropTail (tail.reverse ++ rest) = dropTail rest := by
  induction h generalizing rest with
  | nil => rfl
  | slash _ ih => rw [List.reverse_cons, List.append_assoc, ih]; rfl
  | dot _ ih =>
    rw [List.reverse_cons, List.reverse_cons, List.append_assoc, List.append_assoc, ih]
    rfl

/-- Nothing is dropped behind a name. -/
theorem dropTail_name (hslash : '/' ∉ name) (hne : name ≠ []) (hdot : name ≠ ['.'])
    (rest : List Char) : dropTail (name ++ rest) = name ++ rest := by
  rw [dropTail.eq_def]
  split
  case h_1 heq =>
    cases name with
    | nil => exact absurd rfl hne
    | cons c name =>
      cases heq
      exact absurd List.mem_cons_self hslash
  case h_2 heq =>
    match name with
    | [] => exact absurd rfl hne
    | [c] =>
      cases heq
      exact absurd rfl hdot
    | c :: d :: name =>
      cases heq
      exact absurd (List.mem_cons_of_mem _ List.mem_cons_self) hslash
  case h_3 => rfl

/-- A text is cut at a character that comes after a front without it. -/
theorem span_ne {c : Char} (h : c ∉ text) (hrest : rest = [] ∨ rest.head? = some c) :
    (text ++ rest).takeWhile (fun d => d != c) = text ∧
      (text ++ rest).dropWhile (fun d => d != c) = rest := by
  refine Text.span_append ?_ ?_
  · intro d hd
    rw [bne_iff_ne]
    rintro rfl
    exact h hd
  · rintro d tail rfl
    rcases hrest with hnil | hhead
    · cases hnil
    · cases hhead
      exact bne_self_eq_false c

/-- Behind what is taken up to a character comes that character, or nothing. -/
theorem dropWhile_ne (c : Char) (text : List Char) :
    text.dropWhile (fun d => d != c) = [] ∨
      (text.dropWhile fun d => d != c).head? = some c := by
  rcases hdrop : text.dropWhile fun d => d != c with _ | ⟨d, rest⟩
  · exact Or.inl rfl
  · have hd : (d != c) = false := by
      have hhead := List.head?_dropWhile_not (fun d => d != c) text
      rw [hdrop] at hhead
      simpa using hhead
    exact Or.inr (congrArg some (by simpa using hd))

theorem not_mem_takeWhile_ne (c : Char) (text : List Char) :
    c ∉ text.takeWhile fun d => d != c := by
  intro hmem
  exact absurd (List.mem_takeWhile_imp hmem) (by simp)

theorem endsName_reverse_iff : EndsName text.reverse ↔ text = [] ∨ text.head? = some '/' := by
  rw [EndsName, List.reverse_eq_nil_iff, List.getLast?_reverse]

theorem split?_eq_some_iff : split? path = some (front, name) ↔ ∃ tail, Parts path front name tail := by
  constructor
  · intro h
    rw [split?] at h
    split at h
    case isTrue => cases h
    case isFalse hname =>
      cases h
      obtain ⟨tail, htail, hpath⟩ := exists_trailing_dropTail path.reverse
      refine ⟨tail, ?_, endsName_reverse_iff.mpr (dropWhile_ne '/' _), ?_, ?_, htail⟩
      · rw [← List.append_assoc, ← List.reverse_append, List.takeWhile_append_dropWhile]
        simpa using congrArg List.reverse hpath
      · rw [List.mem_reverse]
        exact not_mem_takeWhile_ne '/' _
      · simpa only [not_or] using hname
  · -- the path is taken apart from its end
    rintro ⟨tail, rfl, hfront, hslash, ⟨hne, hdot, hdots⟩, htail⟩
    have hreverse : '/' ∉ name.reverse := by simpa using hslash
    have hdrop : dropTail (front ++ (name ++ tail)).reverse = name.reverse ++ front.reverse := by
      rw [List.reverse_append, List.reverse_append, List.append_assoc, dropTail_append htail,
        dropTail_name hreverse (by simpa using hne)
          (fun h => hdot (by simpa using congrArg List.reverse h))]
    rw [← List.reverse_reverse front, endsName_reverse_iff] at hfront
    obtain ⟨htake, hrest⟩ := span_ne hreverse hfront
    rw [split?, hdrop]
    simp only [htake, hrest, List.reverse_reverse]
    rw [if_neg (by simp [hne, hdot, hdots])]

/-! ### The extension -/

theorem splitName_eq {stem : List Char} (hstem : stem ≠ []) (hdot : '.' ∉ extension) :
    splitName (stem ++ '.' :: extension) = (stem, some extension) := by
  have hreverse : '.' ∉ extension.reverse := by simpa using hdot
  have hparts : (stem ++ '.' :: extension).reverse = extension.reverse ++ '.' :: stem.reverse := by
    simp
  have hhead : ('.' :: stem.reverse).head? = some '.' := rfl
  obtain ⟨htake, hdrop⟩ := span_ne hreverse (Or.inr hhead)
  obtain ⟨c, rest, hcons⟩ := List.exists_cons_of_ne_nil (List.reverse_ne_nil_iff.mpr hstem)
  rw [splitName, hparts, hdrop, htake, hcons]
  simp only
  rw [← hcons, List.reverse_reverse, List.reverse_reverse]

theorem splitName_eq_some_iff : (splitName name).2 = some extension ↔
    ∃ stem, name = stem ++ '.' :: extension ∧ stem ≠ [] ∧ '.' ∉ extension := by
  constructor
  · intro h
    have hparts := List.takeWhile_append_dropWhile (p := fun c => c != '.') (l := name.reverse)
    have hhead := dropWhile_ne '.' name.reverse
    rw [splitName] at h
    split at h
    case h_1 => cases h
    case h_2 => cases h
    case h_3 c stem hstem hdrop =>
      cases h
      rw [hdrop] at hparts hhead
      obtain rfl : c = '.' := by simpa using hhead
      refine ⟨stem.reverse, ?_, ?_, ?_⟩
      · simpa using congrArg List.reverse hparts.symm
      · intro hnil
        exact hstem (List.reverse_eq_nil_iff.mp hnil)
      · rw [List.mem_reverse]
        exact not_mem_takeWhile_ne '.' _
  · rintro ⟨stem, rfl, hstem, hdot⟩
    rw [splitName_eq hstem hdot]

theorem extension?_eq_some_iff :
    extension? path = some extension ↔ HasExtension path extension := by
  constructor
  · intro h
    rw [extension?] at h
    split at h
    case h_1 front name hsplit =>
      obtain ⟨tail, hparts⟩ := split?_eq_some_iff.mp hsplit
      obtain ⟨stem, rfl, hstem, hdot⟩ := splitName_eq_some_iff.mp h
      exact ⟨front, stem, tail, hparts, hstem, hdot⟩
    case h_2 => cases h
  · rintro ⟨front, stem, tail, hparts, hstem, hdot⟩
    have hsplit : split? path = some (front, stem ++ '.' :: extension) :=
      split?_eq_some_iff.mpr ⟨tail, hparts⟩
    rw [extension?, hsplit]
    exact splitName_eq_some_iff.mpr ⟨stem, rfl, hstem, hdot⟩

end Path
end TD4
