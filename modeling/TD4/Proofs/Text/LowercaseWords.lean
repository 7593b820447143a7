/-
Lower case, word by word.

Lower case leaves the layout of a text alone.  A blank stays the blank it is
(`lowerWithin_blank`) and no other character becomes one
(`isBlank_of_mem_lowerWithin`).  A blank also ends a word: the one letter that
looks at its neighbours, the Greek capital sigma, never looks past a blank, so
the two sides of a blank are lowered apart (`lowercase_append_blank`).

A text may then be cut at its blanks before it is lowered or after:

* `trim_lowercase`: at the blanks around it;
* `takeWhile_lowercase`, `dropWhile_lowercase`: behind its first word.
-/
import TD4.Proofs.Text.Lowercase
import TD4.Proofs.Text.Trim

namespace TD4
namespace Text

variable {c d : Char} {text front back before after : List Char}

/-! ### Blanks and the case tables -/

/-- The code points of white space. -/
def blankCodes : List Nat :=
  [9, 10, 11, 12, 13, 0x20, 0x85, 0xA0, 0x1680, 0x2000, 0x2001, 0x2002, 0x2003, 0x2004, 0x2005,
    0x2006, 0x2007, 0x2008, 0x2009, 0x200A, 0x2028, 0x2029, 0x202F, 0x205F, 0x3000]

theorem toNat_mem_blankCodes (h : isBlank c = true) : c.toNat ∈ blankCodes := by
  simp only [isBlank, Bool.or_eq_true, Bool.and_eq_true, decide_eq_true_eq, beq_iff_eq] at h
  simp only [blankCodes, List.mem_cons, List.not_mem_nil, or_false]
  omega

theorem lowerChar_blank (h : isBlank c = true) : lowerChar c = [c] := by
  have hall : ∀ n ∈ blankCodes, lowerChar (Char.ofNat n) = [Char.ofNat n] := by decide +kernel
  simpa only [Char.ofNat_toNat] using hall c.toNat (toNat_mem_blankCodes h)

/-- A blank is passed over by nobody who looks for the end of a word. -/
theorem not_ignorable_blank (h : isBlank c = true) : inRanges ignorableRanges c.toNat = false := by
  have hall : ∀ n ∈ blankCodes, inRanges ignorableRanges n = false := by decide +kernel
  exact hall c.toNat (toNat_mem_blankCodes h)

theorem not_cased_blank (h : isBlank c = true) : inRanges casedRanges c.toNat = false := by
  have hall : ∀ n ∈ blankCodes, inRanges casedRanges n = false := by decide +kernel
  exact hall c.toNat (toNat_mem_blankCodes h)

/-- A number that is no code point stands for the character zero. -/
theorem toNat_ofNat_or (n : Nat) : (Char.ofNat n).toNat = n ∨ (Char.ofNat n).toNat = 0 := by
  by_cases hvalid : n.isValidChar
  · have heq : Char.ofNat n = Char.ofNatAux n hvalid := dif_pos hvalid
    rw [heq]
    exact Or.inl rfl
  · have heq : Char.ofNat n = '\u0000' := dif_neg hvalid
    rw [heq]
    exact Or.inr rfl

/-- No run of lower-case forms meets white space. -/
theorem isBlank_of_form {first last distance form k : Nat}
    (hrow : (first, last, distance, form) ∈ lowerRanges) (hk : k ≤ last - first) :
    isBlank (Char.ofNat (form + k)) = false := by
  have hall : ∀ row ∈ lowerRanges, ∀ n ∈ blankCodes,
      n < row.2.2.2 ∨ row.2.2.2 + (row.2.1 - row.1) < n := by decide +kernel
  refine Bool.eq_false_iff.mpr fun hblank => ?_
  have hmem := toNat_mem_blankCodes hblank
  rcases toNat_ofNat_or (form + k) with heq | heq
  · rw [heq] at hmem
    have hapart := hall _ hrow _ hmem
    simp only at hapart
    omega
  · rw [heq] at hmem
    exact absurd hmem (by decide)

/-! ### Single characters -/

theorem lowerWithin_blank (h : isBlank c = true) (before after : List Char) :
    lowerWithin before c after = [c] := by
  have hne : c ≠ 'Σ' := by
    rintro rfl
    cases h
  rw [lowerWithin, if_neg hne, lowerChar_blank h]

theorem isBlank_of_mem_lowerChar (h : isBlank c = false) (hd : d ∈ lowerChar c) :
    isBlank d = false := by
  unfold lowerChar at hd
  split at hd
  case isTrue =>
    rw [List.mem_singleton.mp hd, isBlank_toLower]
    exact h
  case isFalse =>
    split at hd
    case isTrue =>
      rcases List.mem_cons.mp hd with rfl | hd
      · rfl
      · rw [List.mem_singleton.mp hd]
        rfl
    case isFalse =>
      dsimp only at hd
      split at hd
      case h_1 first last distance form hfind =>
        rw [List.mem_singleton.mp hd]
        have hrange := List.find?_some hfind
        simp only [Bool.and_eq_true, decide_eq_true_eq] at hrange
        exact isBlank_of_form (List.mem_of_find?_eq_some hfind) (by omega)
      case h_2 =>
        rw [List.mem_singleton.mp hd]
        exact h

/-- No character becomes a blank. -/
theorem isBlank_of_mem_lowerWithin (h : isBlank c = false) (hd : d ∈ lowerWithin before c after) :
    isBlank d = false := by
  unfold lowerWithin at hd
  split at hd
  case isTrue =>
    split at hd <;> (rw [List.mem_singleton.mp hd]; rfl)
  case isFalse => exact isBlank_of_mem_lowerChar h hd

theorem lowerWithin_ne_nil : lowerWithin before c after ≠ [] := by
  unfold lowerWithin lowerChar
  dsimp only
  repeat' split
  all_goals exact List.cons_ne_nil _ _

/-! ### The two sides of a blank -/

theorem meetsCased_cons (d : Char) (rest : List Char) :
    meetsCased (d :: rest)
      = if inRanges ignorableRanges d.toNat then meetsCased rest
        else inRanges casedRanges d.toNat := by
  rw [meetsCased, List.dropWhile_cons]
  by_cases hd : inRanges ignorableRanges d.toNat = true
  · rw [if_pos hd, if_pos hd, meetsCased]
  · rw [if_neg hd, if_neg hd]

/-- Who looks for a letter with case never looks past a blank. -/
theorem meetsCased_append_blank (h : isBlank c = true) :
    meetsCased (front ++ c :: back) = meetsCased front := by
  induction front with
  | nil =>
    rw [List.nil_append, meetsCased_cons, not_ignorable_blank h, if_neg Bool.false_ne_true]
    exact not_cased_blank h
  | cons d rest ih => rw [List.cons_append, meetsCased_cons, meetsCased_cons, ih]

theorem lowercaseAfter_append_blank (h : isBlank c = true) :
    lowercaseAfter (before ++ c :: back) text = lowercaseAfter before text := by
  induction text generalizing before with
  | nil => rfl
  | cons d rest ih =>
    rw [lowercaseAfter, lowercaseAfter, ← List.cons_append, ih, lowerWithin, lowerWithin,
      meetsCased_append_blank h]

/-- The two sides of a blank are lowered apart. -/
theorem lowercase_append_blank (h : isBlank c = true) :
    lowercase (front ++ c :: back) = lowercase front ++ c :: lowercase back := by
  -- what stands before grows along the text, so the induction lets it vary
  suffices hafter : ∀ before, lowercaseAfter before (front ++ c :: back)
      = lowercaseAfter before front ++ c :: lowercase back from hafter []
  induction front with
  | nil =>
    intro before
    have hback : lowercaseAfter ([] ++ c :: before) back = lowercaseAfter [] back :=
      lowercaseAfter_append_blank h
    rw [List.nil_append, lowercaseAfter, lowercaseAfter, lowerWithin_blank h,
      ← List.nil_append (c :: before), hback]
    rfl
  | cons d rest ih =>
    intro before
    rw [List.cons_append, lowercaseAfter, lowercaseAfter, ih, List.append_assoc, lowerWithin,
      lowerWithin, meetsCased_append_blank h]

theorem lowercase_cons_blank (h : isBlank c = true) :
    lowercase (c :: text) = c :: lowercase text := by
  have hcut : lowercase ([] ++ c :: text) = lowercase [] ++ c :: lowercase text :=
    lowercase_append_blank h
  exact hcut

theorem lowercase_blanks_append (h : ∀ c ∈ front, isBlank c = true) :
    lowercase (front ++ text) = front ++ lowercase text := by
  induction front with
  | nil => rfl
  | cons c rest ih =>
    obtain ⟨hc, hrest⟩ := List.forall_mem_cons.mp h
    rw [List.cons_append, lowercase_cons_blank hc, ih hrest, List.cons_append]

theorem lowercase_append_blanks (h : ∀ c ∈ back, isBlank c = true) :
    lowercase (text ++ back) = lowercase text ++ back := by
  rcases back with _ | ⟨c, rest⟩
  · rw [List.append_nil, List.append_nil]
  · obtain ⟨hc, hrest⟩ := List.forall_mem_cons.mp h
    have hblanks : lowercase (rest ++ []) = rest ++ lowercase [] := lowercase_blanks_append hrest
    rw [List.append_nil] at hblanks
    rw [lowercase_append_blank hc, hblanks]
    exact congrArg (fun tail => lowercase text ++ c :: tail) (List.append_nil rest)

/-! ### Words -/

theorem isBlank_of_mem_lowercaseAfter (h : ∀ c ∈ text, isBlank c = false) :
    ∀ d ∈ lowercaseAfter before text, isBlank d = false := by
  induction text generalizing before with
  | nil =>
    intro d hd
    exact absurd hd List.not_mem_nil
  | cons c rest ih =>
    obtain ⟨hc, hrest⟩ := List.forall_mem_cons.mp h
    intro d hd
    rcases List.mem_append.mp hd with hfirst | hmem
    · exact isBlank_of_mem_lowerWithin hc hfirst
    · exact ih hrest d hmem

/-- A word is lowered to a word. -/
theorem isBlank_of_mem_lowercase (h : ∀ c ∈ text, isBlank c = false) :
    ∀ d ∈ lowercase text, isBlank d = false :=
  isBlank_of_mem_lowercaseAfter h

theorem exists_lowercaseAfter_concat (before front : List Char) (c : Char) :
    ∃ lowered before',
      lowercaseAfter before (front ++ [c]) = lowered ++ lowerWithin before' c [] := by
  induction front generalizing before with
  | nil => exact ⟨[], before, List.append_nil _⟩
  | cons d rest ih =>
    obtain ⟨lowered, before', heq⟩ := ih (d :: before)
    refine ⟨lowerWithin before d (rest ++ [c]) ++ lowered, before', ?_⟩
    rw [List.cons_append, lowercaseAfter, heq, List.append_assoc]

/-- A text without blanks at its ends is lowered to one. -/
theorem trim_lowercase_of_trim (h : trim text = text) : trim (lowercase text) = lowercase text := by
  obtain ⟨hstart, hend⟩ := trim_eq_self_iff.mp h
  rcases text with _ | ⟨c, rest⟩
  · rfl
  -- the ends of the lowered text are what the first and the last character become
  have hc : isBlank c = false := by
    simpa using List.dropWhile_eq_self_iff.mp hstart (Nat.succ_pos _)
  have hne : lowerWithin [] c rest ≠ [] := lowerWithin_ne_nil
  obtain ⟨e, es, hfirst⟩ := List.exists_cons_of_ne_nil hne
  have he : isBlank e = false := isBlank_of_mem_lowerWithin hc (hfirst ▸ List.mem_cons_self)
  rw [lowercase, lowercaseAfter]
  rcases List.eq_nil_or_concat' rest with rfl | ⟨front, d, rfl⟩
  · -- one character only
    rw [lowercaseAfter, List.append_nil]
    exact trim_of_forall fun d hd => isBlank_of_mem_lowerWithin hc hd
  · have hd : isBlank d = false := by
      have hlast := List.rdropWhile_eq_self_iff.mp hend (List.cons_ne_nil _ _)
      simpa using hlast
    obtain ⟨lowered, before, hrest⟩ := exists_lowercaseAfter_concat [c] front d
    have hback : trim (lowerWithin before d []) = lowerWithin before d [] :=
      trim_of_forall fun _ hmem => isBlank_of_mem_lowerWithin hd hmem
    rw [hrest, hfirst, ← List.append_assoc, List.cons_append]
    exact trim_append he lowerWithin_ne_nil hback

/-- Trimming and lower case commute. -/
theorem trim_lowercase (text : List Char) : trim (lowercase text) = lowercase (trim text) := by
  obtain ⟨front, back, hfront, hback, htext⟩ := exists_blanks_around text
  calc trim (lowercase text)
      = trim (lowercase (front ++ trim text ++ back)) := by rw [← htext]
    _ = trim (front ++ lowercase (trim text) ++ back) := by
        rw [lowercase_append_blanks hback, lowercase_blanks_append hfront]
    _ = trim (lowercase (trim text)) := by
        rw [trim_append_blanks hback, trim_blanks_append hfront]
    _ = lowercase (trim text) := trim_lowercase_of_trim (trim_trim text)

theorem lowercase_append {word rest : List Char} (hrest : EndsWord rest) :
    lowercase (word ++ rest) = lowercase word ++ lowercase rest := by
  cases hrest with
  | nil => exact (congrArg lowercase (List.append_nil word)).trans (List.append_nil _).symm
  | cons hc => rw [lowercase_append_blank hc, lowercase_cons_blank hc]

theorem endsWord_lowercase {rest : List Char} (hrest : EndsWord rest) :
    EndsWord (lowercase rest) := by
  cases hrest with
  | nil => exact .nil
  | cons hc =>
    rw [lowercase_cons_blank hc]
    exact .cons hc

/-- The first word of a text in lower case is its first word, lowered. -/
theorem takeWhile_lowercase (text : List Char) :
    (lowercase text).takeWhile (fun c => !isBlank c)
      = lowercase (text.takeWhile fun c => !isBlank c) := by
  obtain ⟨word, rest, rfl, hword, hrest⟩ := exists_first_word text
  rw [lowercase_append hrest, takeWhile_word hword hrest]
  exact takeWhile_word (isBlank_of_mem_lowercase hword) (endsWord_lowercase hrest)

theorem dropWhile_lowercase (text : List Char) :
    (lowercase text).dropWhile (fun c => !isBlank c)
      = lowercase (text.dropWhile fun c => !isBlank c) := by
  obtain ⟨word, rest, rfl, hword, hrest⟩ := exists_first_word text
  rw [lowercase_append hrest, dropWhile_word hword hrest]
  exact dropWhile_word (isBlank_of_mem_lowercase hword) (endsWord_lowercase hrest)

end Text
end TD4
