/-
Lines that hold nothing but a statement.

Layout and comments are cut away before a line is read (`ofText_comment`,
`ofText_plain`), and the statement that is left puts its byte at the end of the
program (`Draft.addLine_plain`).  A text of such lines assembles to the bytes
of its statements (`Draft.addLines_plain`), one statement alone to its own byte
(`assemble_statement`); and a line of this kind assembles in no other case
(`assemble_ok_iff_read`).
-/
import TD4.Assembly.Draft
import TD4.Proofs.Assembly.Statement

namespace TD4
namespace Assembly

open Text

/-! ### Cutting a line -/

namespace SourceLine

variable {text body front : List Char}

theorem semicolon_not_mem (h : ∀ c ∈ text, isBlank c = true) : ';' ∉ text := by
  intro hmem
  cases h ';' hmem

theorem semicolon_bne (h : ';' ∉ text) : ∀ c ∈ text, (c != ';') = true := by
  intro c hc
  refine bne_iff_ne.mpr ?_
  rintro rfl
  exact h hc

theorem code_append_of_not_mem (h : ';' ∉ front) (text : List Char) :
    code (front ++ text) = trim (front ++ text.takeWhile fun c => c != ';') := by
  rw [code, List.takeWhile_append_of_pos (semicolon_bne h)]

theorem code_append_of_mem (h : ';' ∈ front) (text : List Char) :
    code (front ++ text) = code front := by
  rw [code, code, List.takeWhile_append, if_neg]
  intro hall
  have hfront : front.takeWhile (fun c => c != ';') = front :=
    (List.takeWhile_prefix _).eq_of_length hall
  cases List.takeWhile_eq_self_iff.mp hfront ';' h

theorem code_comment (h : ';' ∉ front) (comment : List Char) :
    code (front ++ ';' :: comment) = trim front := by
  rw [code_append_of_not_mem h]
  simp

theorem code_plain (h : ';' ∉ text) : code text = trim text := by
  rw [code, List.takeWhile_eq_self_iff.mpr (semicolon_bne h)]

theorem ofCode_plain (h : ':' ∉ body) : ofCode body = ⟨none, body⟩ := by
  have hbody : body.dropWhile (fun c => c != ':') = [] := by
    refine List.dropWhile_eq_nil_iff.mpr fun c hc => bne_iff_ne.mpr ?_
    rintro rfl
    exact h hc
  rw [ofCode, hbody]

/-- A text without a comment and a label is a statement. -/
theorem ofText_plain (hcomment : ';' ∉ body) (hlabel : ':' ∉ body) (htrim : trim body = body) :
    ofText body = ⟨none, body⟩ := by
  rw [ofText, code_plain hcomment, htrim, ofCode_plain hlabel]

/-- A statement between blanks and in front of a comment. -/
theorem ofText_comment {before after : List Char} (hbefore : ∀ c ∈ before, isBlank c = true)
    (hafter : ∀ c ∈ after, isBlank c = true) (hcomment : ';' ∉ body) (hlabel : ':' ∉ body)
    (htrim : trim body = body) (comment : List Char) :
    ofText (before ++ body ++ after ++ ';' :: comment) = ⟨none, body⟩ := by
  -- the first semicolon is the one of the comment
  have hfront : ';' ∉ before ++ body ++ after := by
    simp [semicolon_not_mem hbefore, semicolon_not_mem hafter, hcomment]
  rw [ofText, code_comment hfront, trim_append_blanks hafter, trim_blanks_append hbefore, htrim,
    ofCode_plain hlabel]

/-! ### What is left in a line -/

theorem trim_code (text : List Char) : trim (code text) = code text := trim_trim _

theorem trim_body (text : List Char) : trim (ofText text).body = (ofText text).body := by
  rw [ofText, ofCode]
  split
  case h_1 => exact trim_code text
  case h_2 => exact trim_trim _

theorem mem_of_mem_code {c : Char} (h : c ∈ code text) : c ∈ text ∧ c ≠ ';' := by
  have htake := mem_of_mem_trim h
  have hne := List.mem_takeWhile_imp (p := fun c => c != ';') htake
  exact ⟨(List.takeWhile_sublist _).mem htake, bne_iff_ne.mp hne⟩

theorem mem_of_mem_body {c : Char} (h : c ∈ (ofText text).body) : c ∈ text ∧ c ≠ ';' := by
  rw [ofText, ofCode] at h
  split at h
  case h_1 => exact mem_of_mem_code h
  case h_2 first rest hdrop =>
    refine mem_of_mem_code ?_
    have hrest : c ∈ (code text).dropWhile (fun c => c != ':') := by
      rw [hdrop]
      exact List.mem_cons_of_mem _ (mem_of_mem_trim h)
    exact (List.dropWhile_sublist _).mem hrest

end SourceLine

/-! ### Taking in plain lines -/

namespace Draft

variable {d : Draft} {text body : List Char} {byte : UInt8}

theorem addLine_blank (h : SourceLine.ofText text = ⟨none, []⟩) (number : Nat) :
    d.addLine number text = .ok d := by
  simp [addLine, addLabel, addBody, h, SourceLine.emits]

theorem addLines_blank {texts : List (List Char)}
    (h : ∀ text ∈ texts, SourceLine.ofText text = ⟨none, []⟩) (number : Nat) :
    d.addLines number texts = .ok d := by
  induction texts generalizing number with
  | nil => rfl
  | cons text texts ih =>
    obtain ⟨hfirst, hrest⟩ := List.forall_mem_cons.mp h
    rw [addLines, addLine_blank hfirst]
    exact ih hrest (number + 1)

theorem addLine_plain (h : SourceLine.ofText text = ⟨none, body⟩)
    (hread : Statement.read body = .ok ⟨byte, none⟩) (hroom : d.code.length < Rom.size)
    (number : Nat) : d.addLine number text = .ok { d with code := d.code ++ [byte] } := by
  have hne : body ≠ [] := by
    rintro rfl
    cases hread
  have hemits : (SourceLine.mk none body).emits = true := by
    simpa [SourceLine.emits] using hne
  simp [addLine, addLabel, addBody, h, hemits, hread, emit, hroom, fixupsOf]

/-- A text is a line that puts a byte into the program and does nothing else. -/
def PlainLine (text : List Char) (byte : UInt8) : Prop :=
  ∃ body, SourceLine.ofText text = ⟨none, body⟩ ∧ Statement.read body = .ok ⟨byte, none⟩

theorem addLines_plain {texts : List (List Char)} {bytes : List UInt8}
    (h : List.Forall₂ PlainLine texts bytes) :
    ∀ {d : Draft} {number : Nat}, d.code.length + bytes.length ≤ Rom.size →
      d.addLines number texts = .ok { d with code := d.code ++ bytes } := by
  induction h with
  | nil =>
    intro d number _
    simp [addLines]
  | @cons text byte texts bytes hline _ ih =>
    intro d number hroom
    obtain ⟨body, htext, hread⟩ := hline
    rw [List.length_cons] at hroom
    -- one line, then the rest from a draft that is one byte longer
    have hfirst := addLine_plain (d := d) htext hread (by omega) number
    have hrest : ({ d with code := d.code ++ [byte] } : Draft).addLines (number + 1) texts
        = .ok { d with code := d.code ++ [byte] ++ bytes } := by
      refine ih ?_
      rw [List.length_append, List.length_singleton]
      omega
    simp [addLines, hfirst, hrest]

theorem addLines_append {front back : List (List Char)} :
    ∀ {d : Draft} {number : Nat}, d.addLines number (front ++ back)
      = match d.addLines number front with
        | .ok next => next.addLines (number + front.length) back
        | .error e => .error e := by
  induction front with
  | nil =>
    intro d number
    rfl
  | cons text rest ih =>
    intro d number
    rw [List.cons_append, addLines, addLines]
    rcases d.addLine number text with e | next
    · rfl
    · simp only [ih, List.length_cons]
      rw [Nat.add_right_comm, Nat.add_assoc]

end Draft

/-- A line that puts a byte into the program and does nothing else assembles to
this byte. -/
theorem assemble_plainLine {line : List Char} {byte : UInt8} (hbreak : '\n' ∉ line)
    (hline : Draft.PlainLine line byte) : assemble line = .ok [byte] := by
  have hdraft : Draft.ofSource line = .ok ⟨[byte], [], []⟩ := by
    rw [Draft.ofSource, List.splitOn_eq_singleton hbreak]
    have hroom : Draft.empty.code.length + [byte].length ≤ Rom.size := by
      show 1 ≤ 16
      decide
    exact Draft.addLines_plain (.cons hline .nil) hroom
  rw [assemble, hdraft]
  rfl

/-- A statement that stands alone assembles to its byte. -/
theorem assemble_statement {body : List Char} {byte : UInt8} (hbreak : '\n' ∉ body)
    (hcomment : ';' ∉ body) (htrim : trim body = body)
    (hread : Statement.read body = .ok ⟨byte, none⟩) : assemble body = .ok [byte] := by
  have htext := SourceLine.ofText_plain hcomment (colon_not_mem_of_read hread) htrim
  exact assemble_plainLine hbreak ⟨body, htext, hread⟩

/-- A line that is nothing but a statement assembles if the statement is read
and waits for no label, for there is no label. -/
theorem assemble_ok_iff_read {line : List Char} (hsolid : ∃ c ∈ line, isBlank c = false)
    (hbreak : '\n' ∉ line) (hcomment : ';' ∉ line) (hlabel : ':' ∉ line) {bytes : List UInt8} :
    assemble line = .ok bytes ↔
      ∃ byte, Statement.read (trim line) = .ok ⟨byte, none⟩ ∧ bytes = [byte] := by
  have htext : SourceLine.ofText line = ⟨none, trim line⟩ := by
    rw [SourceLine.ofText, SourceLine.code_plain hcomment,
      SourceLine.ofCode_plain fun hmem => hlabel (mem_of_mem_trim hmem)]
  constructor
  · intro h
    have hemits : (SourceLine.mk none (trim line)).emits = true := by
      obtain ⟨c, hc, hblank⟩ := hsolid
      simpa [SourceLine.emits] using List.ne_nil_of_mem ((mem_trim_iff hblank).mpr hc)
    rcases hread : Statement.read (trim line) with problem | ⟨byte, _ | name⟩
    · -- the problem of the statement is the error of the program
      simp [assemble, Draft.ofSource, List.splitOn_eq_singleton hbreak, Draft.addLines,
        Draft.addLine, Draft.addLabel, Draft.addBody, htext, hemits, hread] at h
    · rw [assemble_plainLine hbreak ⟨trim line, htext, hread⟩] at h
      cases h
      exact ⟨byte, rfl, rfl⟩
    · -- no line defines the label
      simp [assemble, Draft.ofSource, List.splitOn_eq_singleton hbreak, Draft.addLines,
        Draft.addLine, Draft.addLabel, Draft.addBody, htext, hemits, hread, Draft.emit,
        Draft.empty, Draft.fixupsOf, Draft.resolve, Draft.applyFixups, Draft.target,
        Draft.address?, Rom.size] at h
  · rintro ⟨byte, hread, rfl⟩
    exact assemble_plainLine hbreak ⟨trim line, htext, hread⟩

end Assembly
end TD4
