/-
The second pass.

Each fixup puts an address into one byte.  Whatever fixups are carried out,

* every one of them finds its label at one of the 16 addresses
  (`Draft.target_of_applyFixups`), which is all it takes
  (`Draft.exists_applyFixups`),
* the program keeps its length (`Draft.length_applyFixups`) and the bytes that
  no fixup names (`Draft.getElem?_applyFixups_of_ne`), and
* a byte that just one fixup names is joined with the address of its label
  (`Draft.getElem?_applyFixups`), whatever the order of the fixups
  (`Draft.applyFixups_perm`).
-/
import TD4.Assembly.Draft
import Mathlib.Data.List.Basic

namespace TD4
namespace Assembly
namespace Draft

variable {d : Draft} {fixup : Fixup} {fixups : List Fixup} {code out : List UInt8}

theorem target_ok_iff {address : Nat} :
    d.target fixup = .ok address ↔ d.address? fixup.label = some address ∧ address < Rom.size := by
  rw [target]
  split
  case h_1 hnone => simp [hnone]
  case h_2 found hfound =>
    rw [hfound, Option.some_inj]
    split
    case isTrue hlt =>
      rw [Except.ok.injEq]
      constructor
      · rintro rfl
        exact ⟨rfl, hlt⟩
      · exact fun h => h.1
    case isFalse hge =>
      constructor
      · intro h
        cases h
      · rintro ⟨rfl, hlt⟩
        exact absurd hlt hge

/-- Carrying out a fixup and then the rest. -/
theorem applyFixups_cons_ok (h : d.applyFixups (fixup :: fixups) code = .ok out) :
    ∃ address, d.target fixup = .ok address ∧
      d.applyFixups fixups (patch code fixup.index address) = .ok out := by
  rw [applyFixups] at h
  split at h
  case h_1 => cases h
  case h_2 address haddress => exact ⟨address, haddress, h⟩

theorem length_patch (code : List UInt8) (index address : Nat) :
    (patch code index address).length = code.length :=
  List.length_modify _ _ _

theorem getElem?_patch_of_ne {index i : Nat} (h : index ≠ i) (address : Nat) :
    (patch code index address)[i]? = code[i]? := by
  simp [patch, h]

theorem getElem?_patch (index address : Nat) :
    (patch code index address)[index]?
      = code[index]?.map fun byte => byte ||| UInt8.ofNat address := by
  simp [patch]

theorem length_applyFixups (h : d.applyFixups fixups code = .ok out) :
    out.length = code.length := by
  induction fixups generalizing code with
  | nil =>
    cases h
    rfl
  | cons fixup rest ih =>
    obtain ⟨address, -, hrest⟩ := applyFixups_cons_ok h
    rw [ih hrest, length_patch]

/-- A program is only finished if all fixups find their labels. -/
theorem target_of_applyFixups (h : d.applyFixups fixups code = .ok out) :
    ∀ fixup ∈ fixups, ∃ address, d.target fixup = .ok address := by
  induction fixups generalizing code with
  | nil =>
    intro fixup hmem
    exact absurd hmem List.not_mem_nil
  | cons first rest ih =>
    obtain ⟨address, haddress, hrest⟩ := applyFixups_cons_ok h
    intro fixup hmem
    rcases List.mem_cons.mp hmem with rfl | hmem
    · exact ⟨address, haddress⟩
    · exact ih hrest fixup hmem

/-- Nothing else is needed to finish it. -/
theorem exists_applyFixups (h : ∀ fixup ∈ fixups, ∃ address, d.target fixup = .ok address) :
    ∃ out, d.applyFixups fixups code = .ok out := by
  induction fixups generalizing code with
  | nil => exact ⟨code, rfl⟩
  | cons first rest ih =>
    obtain ⟨hfirst, hrest⟩ := List.forall_mem_cons.mp h
    obtain ⟨address, haddress⟩ := hfirst
    rw [applyFixups, haddress]
    exact ih hrest

/-- A byte that no fixup names stays as it is. -/
theorem getElem?_applyFixups_of_ne {i : Nat} (h : d.applyFixups fixups code = .ok out)
    (hne : ∀ fixup ∈ fixups, fixup.index ≠ i) : out[i]? = code[i]? := by
  induction fixups generalizing code with
  | nil =>
    cases h
    rfl
  | cons fixup rest ih =>
    obtain ⟨address, -, hrest⟩ := applyFixups_cons_ok h
    obtain ⟨hfirst, hothers⟩ := List.forall_mem_cons.mp hne
    rw [ih hrest hothers, getElem?_patch_of_ne hfirst]

/-- Where no two fixups name the same byte, each is joined with its address. -/
theorem getElem?_applyFixups {address : Nat} (h : d.applyFixups fixups code = .ok out)
    (hdistinct : fixups.Pairwise fun f g => f.index ≠ g.index) (hmem : fixup ∈ fixups)
    (haddress : d.target fixup = .ok address) :
    out[fixup.index]? = code[fixup.index]?.map fun byte => byte ||| UInt8.ofNat address := by
  induction fixups generalizing code with
  | nil => exact absurd hmem List.not_mem_nil
  | cons first rest ih =>
    obtain ⟨found, hfound, hrest⟩ := applyFixups_cons_ok h
    obtain ⟨hfirst, hothers⟩ := List.pairwise_cons.mp hdistinct
    rcases List.mem_cons.mp hmem with rfl | hmem
    · -- the rest leaves the byte of the first fixup alone
      rw [haddress] at hfound
      cases hfound
      have hrestne : ∀ other ∈ rest, other.index ≠ fixup.index := fun other hother =>
        (hfirst other hother).symm
      rw [getElem?_applyFixups_of_ne hrest hrestne, getElem?_patch]
    · -- the first fixup leaves the byte of this one alone
      rw [ih hrest hothers hmem, getElem?_patch_of_ne (hfirst fixup hmem)]

/-- Where no two fixups name the same byte, their order does not matter. -/
theorem applyFixups_perm {order : List Fixup}
    (hdistinct : fixups.Pairwise fun f g => f.index ≠ g.index) (horder : order.Perm fixups)
    (h : d.applyFixups fixups code = .ok out) : d.applyFixups order code = .ok out := by
  have htargets := target_of_applyFixups h
  have hdistinct' : order.Pairwise fun f g => f.index ≠ g.index :=
    (horder.pairwise_iff Ne.symm).mpr hdistinct
  obtain ⟨other, hother⟩ : ∃ other, d.applyFixups order code = .ok other :=
    exists_applyFixups fun fixup hmem => htargets fixup (horder.mem_iff.mp hmem)
  -- both results are told byte by byte
  have hsame : other = out := by
    refine List.ext_getElem? fun i => ?_
    by_cases hi : ∃ fixup ∈ fixups, fixup.index = i
    · obtain ⟨fixup, hmem, rfl⟩ := hi
      obtain ⟨address, haddress⟩ := htargets fixup hmem
      rw [getElem?_applyFixups h hdistinct hmem haddress,
        getElem?_applyFixups hother hdistinct' (horder.mem_iff.mpr hmem) haddress]
    · have hne : ∀ fixup ∈ fixups, fixup.index ≠ i := fun fixup hmem heq => hi ⟨fixup, hmem, heq⟩
      rw [getElem?_applyFixups_of_ne h hne,
        getElem?_applyFixups_of_ne hother fun fixup hmem => hne fixup (horder.mem_iff.mp hmem)]
  rw [hother, hsame]

end Draft
end Assembly
end TD4
