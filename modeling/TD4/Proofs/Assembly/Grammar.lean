/-
The grammar of statements.

What the reader of statements takes apart step by step, the grammar builds up:

* a `Phrase` is what a statement says, and `Phrase.byte` the byte it says it with;
* `Form` lists the forms: which operands may follow a mnemonic, and what they say;
* `Written` is the layout: a mnemonic, white space, and the operands between
  commas, with any white space around each;
* a `Sentence` is a form in its layout, all in lower case.

Both sides of the layout are cut at the same places (`written_iff_cut`), and
lower case moves no blank, so the reader may lower the parts of a line or the
line (`parts_trim`).  `accepted_iff_sentence` is the main statement: the lines
that assemble are the sentences, each to the byte of its phrase.
-/
import TD4.Proofs.Assembly.PlainLine
import TD4.Proofs.Text.LowercaseWords

namespace TD4
namespace Assembly

open Text

/-! ### The grammar -/

/-- What a statement without a label says. -/
inductive Phrase
  | nop
  /-- A byte given as it is. -/
  | data (n : Nat)
  | instruction (op : Operation) (n : Nat)
  deriving DecidableEq, Repr

/-- The byte of a phrase; an instruction has its opcode above its immediate. -/
def Phrase.byte : Phrase → UInt8
  | nop => 0
  | data n => UInt8.ofNat n
  | instruction op n => UInt8.ofNat (16 * op.opcode.toNat + n)

/-- A text is read as a number, and the number is within a bound. -/
structure Numeral (bound n : Nat) (text : List Char) : Prop where
  read : Value.read text = .ok (.number n)
  le : n ≤ bound

/-- A text of white space only, or an empty one. -/
def Blanks (text : List Char) : Prop := ∀ c ∈ text, isBlank c = true

instance (text : List Char) : Decidable (Blanks text) :=
  decidable_of_iff (text.all isBlank = true) List.all_eq_true

/-- A register, alone or with an offset after a plus sign. -/
inductive Offset (register : Char) : List Char → Nat → Prop
  | alone : Offset register [register] 0
  | plus {before after text : List Char} {n : Nat} (hbefore : Blanks before)
      (hafter : Blanks after) (hnumeral : Numeral 15 n text) :
      Offset register (register :: (before ++ '+' :: after) ++ text) n

/-- The mnemonics with their operands, and what they say. -/
inductive Form : Mnemonic → List (List Char) → Phrase → Prop
  | nop : Form .nop [] .nop
  | data {text : List Char} {n : Nat} (hnumeral : Numeral 255 n text) :
      Form .data [text] (.data n)
  | number {m : Mnemonic} {front : List (List Char)} {op : Operation} {text : List Char} {n : Nat}
      (hform : NumberForm m front op) (hnumeral : Numeral 15 n text) :
      Form m (front ++ [text]) (.instruction op n)
  | offset {m : Mnemonic} {front : List (List Char)} {register : Char} {op : Operation}
      {text : List Char} {n : Nat} (hform : OffsetForm m front register op)
      (hoffset : Offset register text n) : Form m (front ++ [text]) (.instruction op n)

/-- Operands with a comma between them and white space around them. -/
inductive Listed : List (List Char) → List Char → Prop
  | last {before arg after : List Char} (hbefore : Blanks before) (hafter : Blanks after) :
      Listed [arg] (before ++ arg ++ after)
  | more {before arg after rest : List Char} {args : List (List Char)} (hbefore : Blanks before)
      (hafter : Blanks after) (hrest : Listed args rest) :
      Listed (arg :: args) (before ++ arg ++ after ++ ',' :: rest)

/-- A mnemonic alone, or white space and operands behind it. -/
inductive Written (m : Mnemonic) : List (List Char) → List Char → Prop
  | bare {before after : List Char} (hbefore : Blanks before) (hafter : Blanks after) :
      Written m [] (before ++ m.text ++ after)
  | operands {before gap rest : List Char} {args : List (List Char)} (hbefore : Blanks before)
      (hgap : Blanks gap) (hne : gap ≠ []) (hrest : Listed args rest) :
      Written m args (before ++ m.text ++ gap ++ rest)

/-- A text in lower case is a statement and says something. -/
def Sentence (text : List Char) (phrase : Phrase) : Prop :=
  ∃ m args, Form m args phrase ∧ Written m args text

/-! ### What a form means -/

theorem exists_numeral_of_number {bound b : UInt8} {text : List Char}
    (h : number bound text = .ok b) : ∃ n, Numeral bound.toNat n text ∧ b = UInt8.ofNat n := by
  obtain ⟨n, hread⟩ := read_number_of_number h
  rw [number, hread] at h
  dsimp only at h
  split at h
  case isTrue hle =>
    cases h
    exact ⟨n, ⟨hread, hle⟩, rfl⟩
  case isFalse => cases h

theorem Numeral.number (bound : UInt8) {n : Nat} {text : List Char}
    (h : Numeral bound.toNat n text) : number bound text = .ok (UInt8.ofNat n) :=
  number_of_read h.read h.le

theorem Numeral.isWord {bound n : Nat} {text : List Char} (h : Numeral bound n text) :
    IsWord text := by
  refine ⟨?_, mem_of_read h.read⟩
  obtain ⟨c, rest, rfl, -⟩ := isDigit_of_read_number h.read
  exact List.cons_ne_nil c rest

section Offsets

variable {register : Char} {text : List Char} {n : Nat}

theorem Offset.le (h : Offset register text n) : n ≤ 15 := by
  cases h with
  | alone => exact Nat.zero_le 15
  | plus _ _ hnumeral => exact hnumeral.le

theorem Offset.offsetOf? (h : Offset register text n) :
    ∃ offset, offsetOf? register text = some offset ∧
      offsetValue offset = .ok (UInt8.ofNat n) := by
  cases h with
  | alone => exact ⟨none, offsetOf?_register register, rfl⟩
  | @plus before after numeral _ hbefore hafter hnumeral =>
    exact ⟨some numeral, offsetOf?_blanks_plus register hbefore hafter hnumeral.isWord.trim_eq,
      hnumeral.number 15⟩

/-- An operand that is read as a register with an offset is written as one. -/
theorem exists_offset (hregister : isBlank register = false) (htrim : trim text = text)
    {offset : Option (List Char)} {imm : UInt8}
    (hoffset : Assembly.offsetOf? register text = some offset)
    (hvalue : offsetValue offset = .ok imm) :
    ∃ n, Offset register text n ∧ imm = UInt8.ofNat n := by
  obtain ⟨rest, rfl, ⟨hblank, rfl⟩ | ⟨tail, hplus, rfl⟩⟩ := eq_of_offsetOf? hoffset
  · -- blanks behind the register would have been trimmed away
    have halone : trim ([register] ++ rest) = [register] := by
      rw [trim_append_blanks (List.dropWhile_eq_nil_iff.mp hblank)]
      exact trim_of_forall (by simpa using hregister)
    have hrest : [register] = register :: rest := halone.symm.trans htrim
    rw [← hrest]
    cases hvalue
    exact ⟨0, .alone, rfl⟩
  · have hnumber : number 15 (trim tail) = .ok imm := hvalue
    obtain ⟨n, hnumeral, rfl⟩ := exists_numeral_of_number hnumber
    obtain ⟨before, after, hbefore, hafter, htail⟩ := exists_blanks_around tail
    have hrest : rest = rest.takeWhile isBlank ++ '+' :: tail := by
      rw [← hplus]
      exact List.takeWhile_append_dropWhile.symm
    have htext : register :: rest
        = register :: (rest.takeWhile isBlank ++ '+' :: before) ++ trim tail ++ after := by
      calc register :: rest
          = register :: (rest.takeWhile isBlank ++ '+' :: tail) := congrArg (register :: ·) hrest
        _ = register :: (rest.takeWhile isBlank ++ '+' :: (before ++ trim tail ++ after)) := by
            rw [← htail]
        _ = register :: (rest.takeWhile isBlank ++ '+' :: before) ++ trim tail ++ after := by
            simp
    -- and so would blanks behind the number
    have hlast : register :: rest
        = register :: (rest.takeWhile isBlank ++ '+' :: before) ++ trim tail := by
      rw [← htrim, htext, trim_append_blanks hafter]
      exact trim_append hregister hnumeral.isWord.1 (trim_trim tail)
    rw [hlast]
    exact ⟨n, .plus (fun c hc => List.mem_takeWhile_imp hc) hbefore hnumeral, rfl⟩

end Offsets

theorem OffsetForm.isBlank_register {m : Mnemonic} {front : List (List Char)} {register : Char}
    {op : Operation} (h : OffsetForm m front register op) : isBlank register = false := by
  rcases h.register_eq with rfl | rfl <;> rfl

theorem Phrase.toNat_data {n : Nat} (h : n ≤ 255) : (data n).byte.toNat = n := by
  rw [byte, UInt8.toNat_ofNat']
  omega

theorem Phrase.toNat_instruction (op : Operation) {n : Nat} (h : n ≤ 15) :
    (instruction op n).byte.toNat = 16 * op.opcode.toNat + n := by
  have hopcode := op.opcode_lt
  rw [byte, UInt8.toNat_ofNat']
  omega

theorem encode_ofNat {op : Operation} {n : Nat} (h : n ≤ 15) :
    Instruction.encode ⟨op, UInt8.ofNat n⟩ = (Phrase.instruction op n).byte := by
  refine UInt8.toNat_inj.mp ?_
  rw [Instruction.toNat_encode, Phrase.toNat_instruction op h, UInt8.toNat_ofNat']
  show 16 * op.opcode.toNat + n % 2 ^ 8 % 16 = 16 * op.opcode.toNat + n
  omega

/-- What a form says is what its mnemonic means with its operands. -/
theorem Form.means {m : Mnemonic} {args : List (List Char)} {phrase : Phrase}
    (h : Form m args phrase) : Means m args ⟨phrase.byte, none⟩ := by
  cases h with
  | nop => exact .nop
  | data hnumeral => exact .data (hnumeral.number 255)
  | number hform hnumeral =>
    rw [← encode_ofNat hnumeral.le]
    exact .number hform (hnumeral.number 15)
  | offset hform hoffset =>
    obtain ⟨offset, hread, hvalue⟩ := hoffset.offsetOf?
    rw [← encode_ofNat hoffset.le]
    exact .offset hform hread hvalue

theorem exists_form_of_means {m : Mnemonic} {args : List (List Char)} {byte : UInt8}
    (htrim : ∀ arg ∈ args, trim arg = arg) (h : Means m args ⟨byte, none⟩) :
    ∃ phrase, Form m args phrase ∧ byte = phrase.byte := by
  cases h with
  | nop => exact ⟨.nop, .nop, rfl⟩
  | data hvalue =>
    obtain ⟨n, hnumeral, rfl⟩ := exists_numeral_of_number hvalue
    exact ⟨.data n, .data hnumeral, rfl⟩
  | @number _ _ op _ _ hform hvalue =>
    obtain ⟨n, hnumeral, rfl⟩ := exists_numeral_of_number hvalue
    exact ⟨.instruction op n, .number hform hnumeral, encode_ofNat hnumeral.le⟩
  | @offset _ _ _ op text _ _ hform hread hvalue =>
    have hlast : trim text = text := htrim text (List.mem_append_right _ List.mem_cons_self)
    obtain ⟨n, hoffset, rfl⟩ := exists_offset hform.isBlank_register hlast hread hvalue
    exact ⟨.instruction op n, .offset hform hoffset, encode_ofNat hoffset.le⟩

/-! ### The layout of operands -/

/-- A text that is what is left of one between commas. -/
structure IsPiece (arg : List Char) : Prop where
  trim_eq : trim arg = arg
  comma_not_mem : ',' ∉ arg

/-- A piece that is not empty. -/
structure IsOperand (arg : List Char) : Prop extends IsPiece arg where
  ne_nil : arg ≠ []

theorem IsWord.isOperand {text : List Char} (h : IsWord text) : IsOperand text :=
  ⟨⟨h.trim_eq, h.comma_not_mem⟩, h.1⟩

theorem isPiece_of_mem_splitOn {text piece : List Char}
    (h : piece ∈ (text.splitOn ',').map trim) : IsPiece piece := by
  obtain ⟨uncut, hmem, rfl⟩ := List.mem_map.mp h
  exact ⟨trim_trim uncut, fun hcomma =>
    not_mem_of_mem_splitOn hmem (mem_of_mem_trim hcomma)⟩

theorem Blanks.append {front back : List Char} (hfront : Blanks front) (hback : Blanks back) :
    Blanks (front ++ back) := fun c hc =>
  (List.mem_append.mp hc).elim (hfront c) (hback c)

theorem Blanks.comma_not_mem {text : List Char} (h : Blanks text) : ',' ∉ text := fun hmem =>
  absurd (h ',' hmem) (by decide)

/-- An offset from a register is an operand, whatever its number. -/
theorem IsWord.isOperand_offset {register : Char} {before after text : List Char}
    (hregister : isValueChar register = true) (hbefore : Blanks before) (hafter : Blanks after)
    (h : IsWord text) : IsOperand (register :: (before ++ '+' :: after) ++ text) := by
  have hcomma : ',' ≠ register := by
    rintro rfl
    cases hregister
  refine ⟨⟨?_, ?_⟩, List.cons_ne_nil _ _⟩
  · exact trim_append (isBlank_of_isValueChar hregister) h.1 h.trim_eq
  · simp [hcomma, hbefore.comma_not_mem, hafter.comma_not_mem, h.comma_not_mem]

theorem Offset.isOperand {register : Char} {text : List Char} {n : Nat}
    (hregister : isValueChar register = true) (h : Offset register text n) : IsOperand text := by
  cases h with
  | alone => exact (isWord_singleton hregister).isOperand
  | plus hbefore hafter hnumeral =>
    exact hnumeral.isWord.isOperand_offset hregister hbefore hafter

theorem Form.isOperand {m : Mnemonic} {args : List (List Char)} {phrase : Phrase}
    (h : Form m args phrase) : ∀ arg ∈ args, IsOperand arg := by
  intro arg harg
  cases h with
  | nop => exact absurd harg List.not_mem_nil
  | data hnumeral =>
    rw [List.mem_singleton.mp harg]
    exact hnumeral.isWord.isOperand
  | number hform hnumeral =>
    rcases List.mem_append.mp harg with hfront | hlast
    · exact (isWord_of_front hform.front_eq arg hfront).isOperand
    · rw [List.mem_singleton.mp hlast]
      exact hnumeral.isWord.isOperand
  | @offset _ _ register _ _ _ hform hoffset =>
    rcases List.mem_append.mp harg with hfront | hlast
    · exact (isWord_of_front hform.front_eq arg hfront).isOperand
    · have hregister : isValueChar register = true := by
        rcases hform.register_eq with rfl | rfl <;> rfl
      rw [List.mem_singleton.mp hlast]
      exact hoffset.isOperand hregister

namespace Listed

variable {args : List (List Char)} {text : List Char}

/-- The operands are the trimmed pieces between the commas. -/
theorem map_trim_splitOn (h : Listed args text) (hargs : ∀ arg ∈ args, IsPiece arg) :
    (text.splitOn ',').map trim = args := by
  have hpiece : ∀ {before arg after : List Char}, Blanks before → Blanks after → IsPiece arg →
      trim (before ++ arg ++ after) = arg ∧ ',' ∉ before ++ arg ++ after := by
    intro before arg after hbefore hafter harg
    refine ⟨?_, ?_⟩
    · rw [trim_append_blanks hafter, trim_blanks_append hbefore, harg.trim_eq]
    · simp [hbefore.comma_not_mem, hafter.comma_not_mem, harg.comma_not_mem]
  induction h with
  | last hbefore hafter =>
    obtain ⟨htrim, hcomma⟩ := hpiece hbefore hafter (hargs _ List.mem_cons_self)
    rw [List.splitOn_eq_singleton hcomma, List.map_singleton, htrim]
  | more hbefore hafter _ ih =>
    obtain ⟨harg, hrest⟩ := List.forall_mem_cons.mp hargs
    obtain ⟨htrim, hcomma⟩ := hpiece hbefore hafter harg
    rw [List.splitOn_append_cons_self_of_not_mem hcomma, List.map_cons, htrim, ih hrest]

theorem blanks_append {front : List Char} (hfront : Blanks front) (h : Listed args text) :
    Listed args (front ++ text) := by
  cases h with
  | last hbefore hafter => simpa using Listed.last (hfront.append hbefore) hafter
  | more hbefore hafter hrest => simpa using Listed.more (hfront.append hbefore) hafter hrest

theorem append_blanks {back : List Char} (hback : Blanks back) (h : Listed args text) :
    Listed args (text ++ back) := by
  induction h with
  | last hbefore hafter => simpa using Listed.last hbefore (hafter.append hback)
  | more hbefore hafter _ ih => simpa using Listed.more hbefore hafter ih

end Listed

/-- Every text lists the trimmed pieces between its commas. -/
theorem listed_splitOn (text : List Char) : Listed ((text.splitOn ',').map trim) text := by
  -- a text is its own pieces with the commas put back
  suffices hpieces : ∀ pieces : List (List Char), pieces ≠ [] →
      Listed (pieces.map trim) ([','].intercalate pieces) by
    simpa using hpieces (text.splitOn ',') (List.splitOn_ne_nil ',' text)
  intro pieces hne
  induction pieces with
  | nil => exact absurd rfl hne
  | cons piece rest ih =>
    obtain ⟨before, after, hbefore, hafter, hpiece⟩ := exists_blanks_around piece
    rcases rest with _ | ⟨next, others⟩
    · have hlast : Listed [trim piece] (before ++ trim piece ++ after) := .last hbefore hafter
      rw [List.map_singleton, List.intercalate_singleton]
      rwa [← hpiece] at hlast
    · have hmore : Listed (trim piece :: (next :: others).map trim)
          (before ++ trim piece ++ after ++ ',' :: [','].intercalate (next :: others)) :=
        .more hbefore hafter (ih (List.cons_ne_nil _ _))
      rw [List.map_cons, List.intercalate_cons_cons, List.append_assoc, List.singleton_append]
      rwa [← hpiece] at hmore

theorem Listed.of_trim {args : List (List Char)} {text : List Char} (h : Listed args (trim text)) :
    Listed args text := by
  obtain ⟨before, after, hbefore, hafter, htext⟩ := exists_blanks_around text
  rw [htext]
  exact (h.blanks_append hbefore).append_blanks hafter

/-- Operands are read as they are listed; blanks around the list do not count. -/
theorem Listed.operands_trim {args : List (List Char)} {text : List Char} (h : Listed args text)
    (hargs : ∀ arg ∈ args, IsOperand arg) : operands (trim text) = args := by
  -- the pieces of the trimmed text are listed in the text too, and a text lists
  -- one list of operands only
  have hpieces : ((trim text).splitOn ',').map trim = args :=
    calc ((trim text).splitOn ',').map trim
        = (text.splitOn ',').map trim := by
          refine (Listed.map_trim_splitOn ?_ fun _ => isPiece_of_mem_splitOn).symm
          exact (listed_splitOn (trim text)).of_trim
      _ = args := h.map_trim_splitOn fun arg harg => (hargs arg harg).toIsPiece
  have hne : trim text ≠ [] := by
    intro hnil
    rw [hnil] at hpieces
    exact (hargs [] (hpieces ▸ List.mem_cons_self)).ne_nil rfl
  rw [operands, if_neg (by simpa using hne)]
  exact hpieces

/-! ### The layout of a statement -/

/-- The mnemonic and the operands of a text that is in lower case already. -/
def cut (text : List Char) : List Char × List (List Char) :=
  (text.takeWhile (fun c => !isBlank c), operands (trim (text.dropWhile fun c => !isBlank c)))

/-- The parts of a line may be lowered, or the line. -/
theorem parts_trim (line : List Char) : parts (trim line) = cut (trim (lowercase line)) := by
  rw [cut, trim_lowercase, takeWhile_lowercase, dropWhile_lowercase, trim_lowercase]
  rfl

theorem cut_word {word rest : List Char} (hword : ∀ c ∈ word, isBlank c = false)
    (hrest : EndsWord rest) : cut (word ++ rest) = (word, operands (trim rest)) := by
  rw [cut, takeWhile_word hword hrest, dropWhile_word hword hrest]

/-- A word with white space behind it is cut from what follows. -/
theorem cut_trim_word {before word gap rest : List Char} (hbefore : Blanks before)
    (hsolid : word ≠ []) (hword : ∀ c ∈ word, isBlank c = false) (hgap : Blanks gap)
    (hne : gap ≠ []) :
    cut (trim (before ++ word ++ gap ++ rest)) = (word, operands (trim rest)) := by
  obtain ⟨front, back, hfront, hback, heq⟩ := exists_blanks_around rest
  have hblanks : Blanks (gap ++ front) := hgap.append hfront
  have htrim : trim (before ++ word ++ gap ++ rest)
      = trim (word ++ ((gap ++ front) ++ trim rest)) :=
    calc trim (before ++ word ++ gap ++ rest)
        = trim (before ++ word ++ gap ++ (front ++ trim rest ++ back)) := by rw [← heq]
      _ = trim (before ++ (word ++ ((gap ++ front) ++ trim rest)) ++ back) := by
          simp only [List.append_assoc]
      _ = trim (word ++ ((gap ++ front) ++ trim rest)) := by
          rw [trim_append_blanks hback, trim_blanks_append hbefore]
  rw [htrim]
  by_cases hnil : trim rest = []
  · -- nothing follows
    rw [hnil, List.append_nil, trim_append_blanks hblanks, trim_of_forall hword,
      ← List.append_nil word, cut_word hword .nil, List.append_nil]
    rfl
  · -- what follows begins with a blank of the gap
    obtain ⟨c, letters, rfl⟩ := List.exists_cons_of_ne_nil hsolid
    obtain ⟨d, tail, rfl⟩ := List.exists_cons_of_ne_nil hne
    have hc : isBlank c = false := hword c List.mem_cons_self
    have htrimmed : trim (c :: letters ++ ((d :: tail ++ front) ++ trim rest))
        = c :: letters ++ ((d :: tail ++ front) ++ trim rest) := by
      rw [← List.append_assoc, List.cons_append]
      exact trim_append hc hnil (trim_trim rest)
    have hcut : cut (c :: letters ++ ((d :: tail ++ front) ++ trim rest))
        = (c :: letters, operands (trim ((d :: tail ++ front) ++ trim rest))) :=
      cut_word hword (.cons (hgap d List.mem_cons_self))
    rw [htrimmed, hcut, trim_blanks_append hblanks, trim_trim]

section Layout

variable {m : Mnemonic} {args : List (List Char)} {text : List Char}

/-- A statement is cut into the mnemonic and the operands it is written with. -/
theorem Written.cut_trim (h : Written m args text) (hargs : ∀ arg ∈ args, IsOperand arg) :
    cut (trim text) = (m.text, args) := by
  have hword : ∀ c ∈ m.text, isBlank c = false := fun c hc => Mnemonic.isBlank_of_mem_text hc
  cases h with
  | bare hbefore hafter =>
    rw [trim_append_blanks hafter, trim_blanks_append hbefore, trim_of_forall hword,
      ← List.append_nil m.text, cut_word hword .nil, List.append_nil]
    rfl
  | operands hbefore hgap hne hrest =>
    have hsolid : m.text ≠ [] := by
      cases m <;> decide
    rw [cut_trim_word hbefore hsolid hword hgap hne, hrest.operands_trim hargs]

/-- A text that is cut into a mnemonic and operands is written with them. -/
theorem written_of_cut_trim (h : cut (trim text) = (m.text, args)) : Written m args text := by
  obtain ⟨before, after, hbefore, hafter, htext⟩ := exists_blanks_around text
  obtain ⟨word, rest, hwords, hword, hrest⟩ := exists_first_word (trim text)
  rw [hwords, cut_word hword hrest] at h
  obtain ⟨rfl, rfl⟩ := Prod.mk.inj h
  have hline : text = before ++ m.text ++ (rest ++ after) := by
    rw [htext, hwords]
    simp only [List.append_assoc]
  by_cases hnil : trim rest = []
  · -- nothing but blanks behind the mnemonic
    obtain ⟨front, back, hfront, hback, heq⟩ := exists_blanks_around rest
    have hblanks : Blanks (rest ++ after) := by
      rw [heq, hnil, List.append_nil]
      exact (Blanks.append hfront hback).append hafter
    rw [hnil, hline]
    exact .bare hbefore hblanks
  · obtain _ | @⟨c, tail, hc⟩ := hrest
    · exact absurd rfl hnil
    -- the first blank is gap enough; what follows it may still begin with blanks
    have hgap : Blanks [c] := fun d hd => List.mem_singleton.mp hd ▸ hc
    have htail : trim (c :: tail) = trim tail := trim_blanks_append hgap
    have hlisted : Listed (operands (trim (c :: tail))) (tail ++ after) := by
      rw [operands, if_neg (by simpa using hnil), htail]
      exact (listed_splitOn (trim tail)).of_trim.append_blanks hafter
    have hwritten := Written.operands (m := m) hbefore hgap (List.cons_ne_nil c []) hlisted
    rw [hline]
    simpa using hwritten

/-- The layout of the grammar is the cut of the reader. -/
theorem written_iff_cut (hargs : ∀ arg ∈ args, IsOperand arg) :
    Written m args text ↔ cut (trim text) = (m.text, args) :=
  ⟨fun h => h.cut_trim hargs, written_of_cut_trim⟩

end Layout

/-! ### Sentences -/

theorem trim_of_mem_operands {text arg : List Char} (h : arg ∈ operands text) : trim arg = arg := by
  rw [operands] at h
  split at h
  case isTrue => exact absurd h List.not_mem_nil
  case isFalse => exact (isPiece_of_mem_splitOn h).trim_eq

/-- The statements that are read and name no label are the sentences. -/
theorem read_trim_iff {line : List Char} {byte : UInt8} :
    Statement.read (trim line) = .ok ⟨byte, none⟩ ↔
      ∃ phrase, Sentence (lowercase line) phrase ∧ byte = phrase.byte := by
  constructor
  · intro h
    obtain ⟨m, args, hparts, hmeans⟩ := Statement.parts_of_read h
    rw [parts_trim] at hparts
    have htrim : ∀ arg ∈ args, trim arg = arg := by
      intro arg harg
      have hargs : operands _ = args := congrArg Prod.snd hparts
      rw [← hargs] at harg
      exact trim_of_mem_operands harg
    obtain ⟨phrase, hform, rfl⟩ := exists_form_of_means htrim hmeans
    exact ⟨phrase, ⟨m, args, hform, (written_iff_cut hform.isOperand).mpr hparts⟩, rfl⟩
  · rintro ⟨phrase, ⟨m, args, hform, hwritten⟩, rfl⟩
    have hparts : parts (trim line) = (m.text, args) :=
      (parts_trim line).trans ((written_iff_cut hform.isOperand).mp hwritten)
    exact Statement.read_of_parts hparts hform.means

/-- The immediate of an instruction fits into a nibble. -/
theorem Form.immediate_le {m : Mnemonic} {args : List (List Char)} {op : Operation} {n : Nat}
    (h : Form m args (.instruction op n)) : n ≤ 15 := by
  cases h with
  | number _ hnumeral => exact hnumeral.le
  | offset _ hoffset => exact hoffset.le

theorem Form.data_le {m : Mnemonic} {args : List (List Char)} {n : Nat}
    (h : Form m args (.data n)) : n ≤ 255 := by
  cases h with
  | data hnumeral => exact hnumeral.le

theorem decode_byte {op : Operation} {n : Nat} (h : n ≤ 15) :
    Instruction.decode (Phrase.instruction op n).byte = .ok ⟨op, UInt8.ofNat n⟩ := by
  have hlow : (UInt8.ofNat n).toNat < 16 := by
    rw [UInt8.toNat_ofNat']
    omega
  rw [← encode_ofNat h, Instruction.decode_encode, Nibble.low_eq_self hlow]

/-- **The lines that assemble are the sentences of the grammar.**  The program
is the one byte of the phrase: raw data is the number itself, and an instruction
has its opcode above its immediate and is decoded as what it was written as. -/
theorem accepted_iff_sentence {line : List Char} (hsolid : ∃ c ∈ line, isBlank c = false)
    (hcomment : ';' ∉ line) (hlabel : ':' ∉ line) (hbreak : '\n' ∉ line) :
    (∀ bytes, assemble line = .ok bytes ↔
      ∃ phrase, Sentence (lowercase line) phrase ∧ bytes = [phrase.byte]) ∧
    (∀ n, Sentence (lowercase line) (.data n) → (Phrase.data n).byte.toNat = n) ∧
    ∀ op n, Sentence (lowercase line) (.instruction op n) →
      (Phrase.instruction op n).byte.toNat = 16 * op.opcode.toNat + n ∧ n ≤ 15 ∧
      Instruction.decode (Phrase.instruction op n).byte = .ok ⟨op, UInt8.ofNat n⟩ := by
  refine ⟨fun bytes => ?_, ?_, ?_⟩
  · rw [assemble_ok_iff_read hsolid hbreak hcomment hlabel]
    constructor
    · rintro ⟨byte, hread, rfl⟩
      obtain ⟨phrase, hsentence, rfl⟩ := read_trim_iff.mp hread
      exact ⟨phrase, hsentence, rfl⟩
    · rintro ⟨phrase, hsentence, rfl⟩
      exact ⟨phrase.byte, read_trim_iff.mpr ⟨phrase, hsentence, rfl⟩, rfl⟩
  · rintro n ⟨m, args, hform, -⟩
    exact Phrase.toNat_data hform.data_le
  · rintro op n ⟨m, args, hform, -⟩
    have hle := hform.immediate_le
    exact ⟨Phrase.toNat_instruction op hle, hle, decode_byte hle⟩

/-- A line with odd layout and capital letters is a sentence; a register with a
digit behind it but no plus sign is none. -/
theorem accepted_iff_sentence_layout :
    assemble "  MOV\tA ,B + 0X3 ".toList = .ok [0x13] ∧
      ∀ phrase, ¬ Sentence (lowercase "mov a, b1".toList) phrase := by
  have hnumeral : Numeral 15 3 "0x3".toList := ⟨by decide, by decide⟩
  have hoffset : Offset 'b' ('b' :: ([' '] ++ '+' :: [' ']) ++ "0x3".toList) 3 :=
    .plus (by decide) (by decide) hnumeral
  have hlast : Listed ["b + 0x3".toList] ([] ++ "b + 0x3".toList ++ [' ']) :=
    .last (by decide) (by decide)
  have hlisted : Listed [['a'], "b + 0x3".toList] ([] ++ ['a'] ++ [' '] ++ ',' :: _) :=
    .more (by decide) (by decide) hlast
  have hwritten : Written .mov _ ("  ".toList ++ Mnemonic.text .mov ++ ['\t'] ++ _) :=
    .operands (by decide) (by decide) (by decide) hlisted
  refine ⟨?_, fun phrase hsentence => ?_⟩
  · have hsolid : ∃ c ∈ "  MOV\tA ,B + 0X3 ".toList, isBlank c = false := ⟨'M', by decide, rfl⟩
    refine ((accepted_iff_sentence hsolid (by decide) (by decide) (by decide)).1 _).mpr
      ⟨.instruction .movAB 3, ?_, rfl⟩
    exact ⟨.mov, _, .offset .movAB hoffset, hwritten⟩
  · have hsolid : ∃ c ∈ "mov a, b1".toList, isBlank c = false := ⟨'m', by decide, rfl⟩
    have hok := ((accepted_iff_sentence hsolid (by decide) (by decide) (by decide)).1
      [phrase.byte]).mpr ⟨phrase, hsentence, rfl⟩
    have herror : assemble "mov a, b1".toList = .error ⟨1, .labelForNumber "b1".toList⟩ := by decide
    rw [herror] at hok
    cases hok

end Assembly
end TD4
