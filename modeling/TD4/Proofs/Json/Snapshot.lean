/-
Machines read back from JSON.

* `fields?_zipWith`, `allFields?_zipWith`: a record that is written as an object
  under names without repetition is read as its fields;
* `Registers.ofJson?_toJson`, `Rom.ofJson?_toJson`, `Status.ofJson?_toJson` and
  `Cpu.ofJson?_toJson`: every machine is read back as it was, whatever its cells
  hold;
* `Instruction.ofJson?_toJson`: so is every instruction, also one with a wide
  immediate.
-/
import Mathlib.Data.List.Forall2
import Mathlib.Data.List.Nodup
import TD4.Snapshot

namespace TD4
namespace Json

theorem mapM_of_forall₂ {α β : Type} {f : α → Option β} {as : List α} {bs : List β}
    (h : List.Forall₂ (fun a b => f a = some b) as bs) : as.mapM f = some bs := by
  induction h with
  | nil => rfl
  | cons hhead _ ih => rw [List.mapM_cons, hhead, ih]; rfl

/-! ### Records -/

theorem namedMembers?_zipWith (names : List (List Char)) (values : List Json) :
    namedMembers? (List.zipWith member names values) = some (names.zip values) := by
  rw [← List.map_uncurry_zip_eq_zipWith]
  refine mapM_of_forall₂ (List.forall₂_map_left_iff.mpr (List.forall₂_same.mpr ?_))
  rintro ⟨name, value⟩ -
  show (decode (encode name)).map (fun name => (name, value)) = some (name, value)
  rw [decode_encode]
  rfl

/-- Of members whose names differ, one has a name. -/
theorem filter_eq_singleton {members : List (List Char × Json)}
    (hnodup : (members.map Prod.fst).Nodup) {name : List Char} {value : Json}
    (h : (name, value) ∈ members) :
    (members.filter fun m => m.1 == name) = [(name, value)] := by
  induction members with
  | nil => cases h
  | cons first rest ih =>
    rw [List.map_cons, List.nodup_cons] at hnodup
    obtain ⟨hfirst, hrest⟩ := hnodup
    rcases List.mem_cons.mp h with rfl | hmem
    · have hnone : (rest.filter fun m => m.1 == name) = [] := by
        rw [List.filter_eq_nil_iff]
        intro m hm hname
        exact hfirst (List.mem_map.mpr ⟨m, hm, beq_iff_eq.mp hname⟩)
      rw [List.filter_cons, if_pos (beq_self_eq_true name), hnone]
    · have hother : ¬ (first.1 == name) = true := fun hname =>
        hfirst (List.mem_map.mpr ⟨_, hmem, (beq_iff_eq.mp hname).symm⟩)
      rw [List.filter_cons, if_neg hother, ih hrest hmem]

/-- The fields of a record are found as they were written. -/
theorem fields?_zipWith {names : List (List Char)} (hnodup : names.Nodup) {values : List Json}
    (hlength : names.length = values.length) :
    fields? names (.object (List.zipWith member names values)) = some (values.map some) := by
  have hnames : (names.zip values).map Prod.fst = names :=
    List.map_fst_zip (Nat.le_of_eq hlength)
  have hfields : names.mapM (fieldAmong? (names.zip values)) = some (values.map some) := by
    refine mapM_of_forall₂ (List.forall₂_map_right_iff.mpr (List.forall₂_iff_zip.mpr ⟨hlength, ?_⟩))
    intro name value hmem
    rw [fieldAmong?, filter_eq_singleton (hnames.symm ▸ hnodup) hmem]
  rw [fields?, namedMembers?_zipWith]
  exact hfields

/-- The fields of a record are read as they were written. -/
theorem allFields?_zipWith {names : List (List Char)} (hnodup : names.Nodup) {values : List Json}
    (hlength : names.length = values.length) :
    allFields? names (.object (List.zipWith member names values)) = some values := by
  have hall : (values.map some).mapM id = some values :=
    mapM_of_forall₂ (List.forall₂_map_left_iff.mpr (List.forall₂_same.mpr fun _ _ => rfl))
  rw [allFields?, fields?_zipWith hnodup hlength, Option.bind_some, hall]

end Json

/-! ### The parts of a machine -/

theorem Registers.ofJson?_toJson (r : Registers) : Registers.ofJson? r.toJson = some r := by
  rw [ofJson?, toJson, Json.allFields?_zipWith (by decide) rfl, Option.bind_some, toFields]
  simp [ofFields?, Json.byte?_ofByte, Json.flag?]

theorem Rom.ofBytes?_bytes (rom : Rom) : ofBytes? rom.bytes = some rom := by
  rw [ofBytes?, dif_pos rom.length_bytes]
  rfl

theorem Rom.ofJson?_toJson (rom : Rom) : Rom.ofJson? rom.toJson = some rom := by
  have hitems : (rom.bytes.map Json.ofByte).mapM Json.byte? = some rom.bytes :=
    Json.mapM_of_forall₂ (List.forall₂_map_left_iff.mpr
      (List.forall₂_same.mpr fun b _ => Json.byte?_ofByte b))
  rw [ofJson?, toJson, Json.allFields?_zipWith (by decide) rfl]
  show ((rom.bytes.map Json.ofByte).mapM Json.byte?).bind ofBytes? = some rom
  rw [hitems, Option.bind_some, ofBytes?_bytes]

theorem Status.ofJson?_toJson (status : Status) : Status.ofJson? status.toJson = some status := by
  cases status <;> rfl

theorem Cpu.ofJson?_toJson (cpu : Cpu) : Cpu.ofJson? cpu.toJson = some cpu := by
  rw [ofJson?, toJson, Json.allFields?_zipWith (by decide) rfl, Option.bind_some, toFields]
  simp [ofFields?, Registers.ofJson?_toJson, Rom.ofJson?_toJson, Status.ofJson?_toJson,
    Json.word?_ofWord]

/-! ### Instructions -/

theorem Operation.ofName?_name (op : Operation) : ofName? op.name = some op := by
  cases op <;> rfl

theorem Instruction.ofJson?_toJson (i : Instruction) : Instruction.ofJson? i.toJson = some i := by
  simp [toJson, Json.member, ofJson?, Json.decode_encode, Operation.ofName?_name, Json.byte?_ofByte]

end TD4
