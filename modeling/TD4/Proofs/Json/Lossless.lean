/-
Snapshots lose nothing.

Whatever is written as JSON is read back as it was, from either layout: a machine
whose cells hold any values, each of its parts, an instruction, and the settings
of a run.  Settings are the one thing that is looked at in reading: an input
wider than a nibble is refused, and the refusal names it.

* `RunConfig.ofJson?_toJson`: settings as they were, the input not yet looked at;
* `RunConfig.ofText_of_mem_layouts`: settings from text;
* `snapshots_lossless` says it of all types at once.
-/
import TD4.Proofs.Json.Compact
import TD4.Proofs.Json.Snapshot
import TD4.RunConfig

namespace TD4
namespace RunConfig

theorem limit?_limitToJson (limit : Option UInt64) : limit? (limitToJson limit) = some limit := by
  rcases limit with _ | n
  · rfl
  · show (Json.ofWord n).word?.map some = some (some n)
    rw [Json.word?_ofWord]
    rfl

theorem ofJson?_toJson (config : RunConfig) : ofJson? config.toJson = some config := by
  rw [ofJson?, toJson, Json.fields?_zipWith (by decide) rfl, Option.bind_some, toFields]
  simp [ofFields?, fieldOr, Json.word?_ofWord, limit?_limitToJson, Json.byte?_ofByte]

/-- Of the settings in a text only the input is looked at. -/
theorem ofText_of_ofJson? {config : RunConfig} {text : List Char} {value : Json}
    (hparse : Json.parse? text = some value) (hread : ofJson? value = some config) :
    ofText text = if config.input.toNat ≤ 15 then .ok config else .error (.wideInput config.input) := by
  have hwide : 0x0F < config.input ↔ 15 < config.input.toNat := UInt8.lt_iff_toNat_lt
  rw [ofText, hparse, Option.bind_some, hread]
  simp only [hwide]
  by_cases hinput : config.input.toNat ≤ 15
  · rw [if_neg (Nat.not_lt.mpr hinput), if_pos hinput]
  · rw [if_pos (Nat.lt_of_not_le hinput), if_neg hinput]

/-- Settings are read back as they were, and refused if the input is wide. -/
theorem ofText_of_mem_layouts {config : RunConfig} {text : List Char}
    (h : text ∈ config.toJson.layouts) :
    ofText text = if config.input.toNat ≤ 15 then .ok config else .error (.wideInput config.input) :=
  ofText_of_ofJson? (Json.parse?_of_mem_layouts h) (ofJson?_toJson config)

end RunConfig

namespace Json

/-- What is read from JSON as it was written is read from both layouts. -/
theorem bind_parse?_of_mem_layouts {α : Type} {toJson : α → Json} {ofJson? : Json → Option α}
    (hback : ∀ x, ofJson? (toJson x) = some x) (x : α) :
    ∀ text ∈ (toJson x).layouts, (parse? text).bind ofJson? = some x := by
  intro text htext
  rw [parse?_of_mem_layouts htext, Option.bind_some, hback]

/-- **Snapshots lose nothing.**  A machine with any values in its cells, registers, a
ROM, an instruction with any immediate, and settings of a run with a nibble on
the input port are read back from either layout exactly as they were.  Settings
with a wider input are refused for that input. -/
theorem snapshots_lossless :
    (∀ cpu : Cpu, ∀ text ∈ cpu.toJson.layouts, (parse? text).bind Cpu.ofJson? = some cpu) ∧
      (∀ regs : Registers, ∀ text ∈ regs.toJson.layouts,
        (parse? text).bind Registers.ofJson? = some regs) ∧
      (∀ rom : Rom, ∀ text ∈ rom.toJson.layouts, (parse? text).bind Rom.ofJson? = some rom) ∧
      (∀ i : Instruction, ∀ text ∈ i.toJson.layouts,
        (parse? text).bind Instruction.ofJson? = some i) ∧
      ∀ config : RunConfig, ∀ text ∈ config.toJson.layouts, RunConfig.ofText text
        = if config.input.toNat ≤ 15 then .ok config else .error (.wideInput config.input) :=
  ⟨bind_parse?_of_mem_layouts Cpu.ofJson?_toJson,
    bind_parse?_of_mem_layouts Registers.ofJson?_toJson,
    bind_parse?_of_mem_layouts Rom.ofJson?_toJson,
    bind_parse?_of_mem_layouts Instruction.ofJson?_toJson,
    fun _ _ => RunConfig.ofText_of_mem_layouts⟩

end Json
end TD4
