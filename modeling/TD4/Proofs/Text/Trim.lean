/-
Texts without blanks at their ends.

`trim` drops the white space at both ends of a text.  A reader that trims what
it reads does not see the layout:

* `trim_append_blanks`, `trim_blanks_append`: blanks added at an end are lost;
* `trim_trim`: a trimmed text has nothing more to lose;
* `mem_trim_iff`: of the characters that are no blanks none is lost.

`trim_append` says when a text put together from two parts is trimmed already.

`exists_blanks_around` and `exists_first_word` take a text apart: into blanks around
its trimmed form, and into its first word and what is behind it.
-/
import TD4.Text.Blank
import TD4.Proofs.Text.Pieces
import Mathlib.Data.List.DropRight

namespace TD4
namespace Text

variable {text front back : List Char}

theorem trimEnd_append_blanks (h : ∀ c ∈ back, isBlank c = true) :
    trimEnd (text ++ back) = trimEnd text := by
  unfold trimEnd
  rw [List.reverse_append, List.dropWhile_append_of_pos]
  intro c hc
  exact h c (List.mem_reverse.mp hc)

/-- Blanks behind a text are lost in trimming. -/
theorem trim_append_blanks (h : ∀ c ∈ back, isBlank c = true) :
    trim (text ++ back) = trim text := by
  unfold trim trimStart
  rw [List.dropWhile_append]
  split
  case isTrue hnil =>
    -- nothing but blanks: both sides are empty
    have hback : back.dropWhile isBlank = [] := List.dropWhile_eq_nil_iff.mpr h
    rw [hback, List.isEmpty_iff.mp hnil]
  case isFalse => exact trimEnd_append_blanks h

/-- Blanks in front of a text are lost in trimming. -/
theorem trim_blanks_append (h : ∀ c ∈ front, isBlank c = true) :
    trim (front ++ text) = trim text := by
  unfold trim trimStart
  rw [List.dropWhile_append_of_pos h]

/-! ### Trimmed texts -/

/-- A text that trimming leaves alone has no blank at either end. -/
theorem trim_eq_self_iff : trim text = text ↔ trimStart text = text ∧ trimEnd text = text := by
  constructor
  · intro h
    have hprefix : trim text <+: trimStart text := List.rdropWhile_prefix isBlank (trimStart text)
    have hsuffix : trimStart text <:+ text := List.dropWhile_suffix isBlank
    have hlength : text.length ≤ (trimStart text).length := by
      have := hprefix.length_le
      rwa [h] at this
    have hstart : trimStart text = text := hsuffix.eq_of_length_le hlength
    rw [trim, hstart] at h
    exact ⟨hstart, h⟩
  · rintro ⟨hstart, hend⟩
    rw [trim, hstart, hend]

theorem trimStart_trimEnd (h : trimStart text = text) :
    trimStart (trimEnd text) = trimEnd text := by
  refine List.dropWhile_eq_self_iff.mpr fun hpos => ?_
  have hprefix : trimEnd text <+: text := List.rdropWhile_prefix isBlank text
  have hlt : 0 < text.length := Nat.lt_of_lt_of_le hpos hprefix.length_le
  rw [List.IsPrefix.getElem hprefix hpos]
  exact List.dropWhile_eq_self_iff.mp h hlt

/-- Trimming twice is trimming once. -/
theorem trim_trim (text : List Char) : trim (trim text) = trim text := by
  refine trim_eq_self_iff.mpr ⟨?_, List.rdropWhile_idempotent isBlank (trimStart text)⟩
  exact trimStart_trimEnd (List.dropWhile_idempotent isBlank text)

theorem trim_of_forall (h : ∀ c ∈ text, isBlank c = false) : trim text = text := by
  refine trim_eq_self_iff.mpr ⟨?_, ?_⟩
  · refine List.dropWhile_eq_self_iff.mpr fun hpos => ?_
    simp [h _ (List.getElem_mem hpos)]
  · refine List.rdropWhile_eq_self_iff.mpr fun hne => ?_
    simp [h _ (List.getLast_mem hne)]

/-- A text that begins with something else than a blank and ends with a trimmed
text is trimmed. -/
theorem trim_append {c : Char} (hc : isBlank c = false) (hne : back ≠ [])
    (hback : trim back = back) : trim (c :: front ++ back) = c :: front ++ back := by
  refine trim_eq_self_iff.mpr ⟨trimStart_of_head hc (front ++ back), ?_⟩
  refine List.rdropWhile_eq_self_iff.mpr fun hl => ?_
  rw [List.getLast_append_of_ne_nil hl hne]
  exact List.rdropWhile_eq_self_iff.mp (trim_eq_self_iff.mp hback).2 hne

/-! ### What is left of a text -/

theorem mem_trimStart_iff {c : Char} (hc : isBlank c = false) : c ∈ trimStart text ↔ c ∈ text := by
  constructor
  · intro h
    exact (List.dropWhile_sublist isBlank).mem h
  · intro h
    rw [← List.takeWhile_append_dropWhile (p := isBlank) (l := text)] at h
    rcases List.mem_append.mp h with hlost | hkept
    · have := List.mem_takeWhile_imp hlost
      simp [hc] at this
    · exact hkept

/-- Trimming loses no character but blanks. -/
theorem mem_trim_iff {c : Char} (hc : isBlank c = false) : c ∈ trim text ↔ c ∈ text := by
  calc c ∈ trim text
      ↔ c ∈ trimStart (trimStart text).reverse := List.mem_reverse
    _ ↔ c ∈ (trimStart text).reverse := mem_trimStart_iff hc
    _ ↔ c ∈ trimStart text := List.mem_reverse
    _ ↔ c ∈ text := mem_trimStart_iff hc

theorem mem_of_mem_trim {c : Char} (h : c ∈ trim text) : c ∈ text := by
  have hstart : c ∈ trimStart text :=
    (List.rdropWhile_prefix isBlank (trimStart text)).sublist.mem h
  exact (List.dropWhile_sublist isBlank).mem hstart

/-! ### Taking a text apart -/

/-- A text is its trimmed form between blanks. -/
theorem exists_blanks_around (text : List Char) :
    ∃ front back, (∀ c ∈ front, isBlank c = true) ∧ (∀ c ∈ back, isBlank c = true) ∧
      text = front ++ trim text ++ back := by
  refine ⟨text.takeWhile isBlank, (trimStart text).rtakeWhile isBlank,
    fun c hc => List.mem_takeWhile_imp hc, fun c hc => List.mem_rtakeWhile_imp hc, ?_⟩
  have hend : trim text ++ (trimStart text).rtakeWhile isBlank = trimStart text :=
    List.rdropWhile_append_rtakeWhile
  rw [List.append_assoc, hend]
  exact List.takeWhile_append_dropWhile.symm

/-- What may stand behind a word: nothing, or a text that begins with a blank. -/
inductive EndsWord : List Char → Prop
  | nil : EndsWord []
  | cons {c : Char} {rest : List Char} (hc : isBlank c = true) : EndsWord (c :: rest)

/-- A text is its first word and what ends it. -/
theorem exists_first_word (text : List Char) :
    ∃ word rest, text = word ++ rest ∧ (∀ c ∈ word, isBlank c = false) ∧ EndsWord rest := by
  refine ⟨text.takeWhile (fun c => !isBlank c), text.dropWhile (fun c => !isBlank c),
    List.takeWhile_append_dropWhile.symm, fun c hc => by simpa using List.mem_takeWhile_imp hc, ?_⟩
  have hhead := List.head?_dropWhile_not (fun c => !isBlank c) text
  rcases hrest : text.dropWhile (fun c => !isBlank c) with _ | ⟨c, tail⟩
  · exact .nil
  · rw [hrest] at hhead
    exact .cons (by simpa using hhead)

section FirstWord

variable {word rest : List Char} (hword : ∀ c ∈ word, isBlank c = false) (hrest : EndsWord rest)

include hword hrest

/-- A text is cut behind its first word. -/
theorem span_word : (word ++ rest).takeWhile (fun c => !isBlank c) = word ∧
    (word ++ rest).dropWhile (fun c => !isBlank c) = rest := by
  refine span_append (fun c hc => by simp [hword c hc]) ?_
  rintro c tail rfl
  cases hrest with
  | cons hc => simp [hc]

theorem takeWhile_word : (word ++ rest).takeWhile (fun c => !isBlank c) = word :=
  (span_word hword hrest).1

theorem dropWhile_word : (word ++ rest).dropWhile (fun c => !isBlank c) = rest :=
  (span_word hword hrest).2

end FirstWord

end Text
end TD4
