/-
Reading after a write.

A path is followed through directories only, and a file is never written over a
directory.  So every path that led somewhere leads there after a write too
(`locate_set`): the written path reads as what was written
(`read_of_write`), and a path to another place reads as before
(`read_of_write_other`).

Whether two paths lead to one place cannot be told from them in general, but
their extensions can tell that they do not: a path that does not lead to a
directory ends in the name that its place has there (`lastName_of_locate`).
This needs a working directory that is there, with all directories above it
(`Grounded`), or the names `..` at the beginning of a path could lead anywhere.
-/
import Mathlib.Data.List.Infix
import TD4.FileTree
import TD4.Proofs.Path.LastName

namespace TD4
namespace FileTree

variable {tree next : FileTree} {path other : List Char} {here there place : Location}
  {names : List (List Char)} {name : List Char} {bytes held : List UInt8}

/-- A directory that is there, with all directories above it. -/
def Open (tree : FileTree) (here : Location) : Prop :=
  ∀ above, above <+: here → tree.node? above = some .directory

instance : Decidable (tree.Open here) :=
  decidable_of_iff (∀ above ∈ here.inits, tree.node? above = some .directory) (by
    simp only [Open, List.mem_inits])

/-- The working directory is there, with all directories above it. -/
def Grounded (tree : FileTree) : Prop := tree.Open tree.workingDirectory

instance : Decidable tree.Grounded := inferInstanceAs (Decidable (tree.Open _))

/-- Something can be written at a path. -/
def Writable (tree : FileTree) (path : List Char) : Prop :=
  ∃ bytes next, tree.write path bytes = .ok next

/-! ### Reading and writing, told by places -/

theorem read_eq_ok_iff : tree.read path = .ok bytes ↔ endsInSlash path = false ∧
    ∃ place, tree.locate path = .ok place ∧ tree.node? place = some (.file bytes) := by
  constructor
  · intro h
    rw [read] at h
    split at h
    case h_1 => cases h
    case h_2 place hplace =>
      split at h
      case h_1 => cases h
      case h_2 => cases h
      case h_3 held hnode =>
        split at h
        case isTrue => cases h
        case isFalse hslash =>
          cases h
          exact ⟨eq_false_of_ne_true hslash, place, hplace, hnode⟩
  · rintro ⟨hslash, place, hplace, hnode⟩
    simp only [read, hplace, hnode, hslash, Bool.false_eq_true, if_false]

theorem write_eq_ok_iff : tree.write path bytes = .ok next ↔ endsInSlash path = false ∧
    ∃ place, tree.locate path = .ok place ∧ tree.node? place ≠ some .directory ∧
      next = tree.set place (.file bytes) := by
  constructor
  · intro h
    rw [write] at h
    split at h
    case isTrue =>
      split at h
      case h_1 => cases h
      case h_2 => cases h
    case isFalse hslash =>
      split at h
      case h_1 => cases h
      case h_2 place hplace =>
        split at h
        case h_1 => cases h
        case h_2 hnode =>
          cases h
          exact ⟨eq_false_of_ne_true hslash, place, hplace, hnode, rfl⟩
  · rintro ⟨hslash, place, hplace, hnode, rfl⟩
    rw [write, if_neg (ne_true_of_eq_false hslash), hplace]
    split
    case h_1 e heq => cases heq
    case h_2 found heq =>
      cases heq
      split
      case h_1 hdir => exact absurd hdir hnode
      case h_2 => rfl

/-- Whether something can be written does not depend on what it is. -/
theorem Writable.exists_write (h : tree.Writable path) (bytes : List UInt8) :
    ∃ next, tree.write path bytes = .ok next := by
  obtain ⟨_, _, hwrite⟩ := h
  obtain ⟨hslash, place, hplace, hnode, -⟩ := write_eq_ok_iff.mp hwrite
  exact ⟨_, write_eq_ok_iff.mpr ⟨hslash, place, hplace, hnode, rfl⟩⟩

/-! ### Following names -/

theorem directory_of_enter (h : tree.enter here name = .ok there) :
    tree.node? here = some .directory := by
  rw [enter] at h
  split at h
  case h_1 => cases h
  case h_2 => cases h
  case h_3 hnode => exact hnode

/-- Where a name leads. -/
theorem enter_cases (h : tree.enter here name = .ok there) :
    (name = ['.'] ∧ there = here) ∨ (name = ['.', '.'] ∧ there = here.dropLast) ∨
      (name ≠ ['.'] ∧ name ≠ ['.', '.'] ∧ there = here ++ [name]) := by
  rw [enter, directory_of_enter h] at h
  simp only at h
  split at h
  case isTrue hdot =>
    cases h
    exact .inl ⟨hdot, rfl⟩
  case isFalse hdot =>
    split at h
    case isTrue hdots =>
      cases h
      exact .inr (.inl ⟨hdots, rfl⟩)
    case isFalse hdots =>
      split at h <;> cases h
      exact .inr (.inr ⟨hdot, hdots, rfl⟩)

theorem follow_cons_eq_ok_iff : tree.follow here (name :: names) = .ok there ↔
    ∃ next, tree.enter here name = .ok next ∧ tree.follow next names = .ok there := by
  rw [follow]
  rcases tree.enter here name with e | next
  · simp
  · simp

theorem follow_append_eq_ok_iff {front rest : List (List Char)} :
    tree.follow here (front ++ rest) = .ok there ↔
      ∃ next, tree.follow here front = .ok next ∧ tree.follow next rest = .ok there := by
  induction front generalizing here with
  | nil => simp [follow]
  | cons name front ih =>
    rw [List.cons_append, follow, follow]
    rcases tree.enter here name with e | next
    · simp
    · exact ih

/-- Names are followed through directories, and these stay where a file is set. -/
theorem follow_set (hplace : tree.node? place ≠ some .directory)
    (h : tree.follow here names = .ok there) :
    (tree.set place (.file bytes)).follow here names = .ok there := by
  induction names generalizing here with
  | nil => exact h
  | cons name rest ih =>
    obtain ⟨next, henter, hrest⟩ := follow_cons_eq_ok_iff.mp h
    have hhere : here ≠ place := by
      rintro rfl
      exact hplace (directory_of_enter henter)
    have hset : (tree.set place (.file bytes)).enter here name = .ok next := by
      rw [enter, node_set_other tree hhere]
      exact henter
    exact follow_cons_eq_ok_iff.mpr ⟨next, hset, ih hrest⟩

theorem locate_eq_ok_iff : tree.locate path = .ok place ↔
    ∃ here, tree.origin path = .ok here ∧ tree.follow here (Path.names path) = .ok place := by
  rw [locate]
  rcases tree.origin path with e | here
  · simp
  · simp

theorem locate_set (hplace : tree.node? place ≠ some .directory)
    (h : tree.locate path = .ok there) :
    (tree.set place (.file bytes)).locate path = .ok there := by
  obtain ⟨here, horigin, hfollow⟩ := locate_eq_ok_iff.mp h
  exact locate_eq_ok_iff.mpr ⟨here, horigin, follow_set hplace hfollow⟩

/-! ### Reading after a write -/

theorem read_of_write (h : tree.write path bytes = .ok next) : next.read path = .ok bytes := by
  obtain ⟨hslash, place, hplace, hnode, rfl⟩ := write_eq_ok_iff.mp h
  have hroot : place ≠ [] := by
    rintro rfl
    exact hnode rfl
  exact read_eq_ok_iff.mpr ⟨hslash, place, locate_set hnode hplace, node_set_self tree hroot _⟩

theorem read_of_write_other (h : tree.write path bytes = .ok next)
    (hother : tree.read other = .ok held) (hne : tree.locate path ≠ tree.locate other) :
    next.read other = .ok held := by
  obtain ⟨-, place, hplace, hnode, rfl⟩ := write_eq_ok_iff.mp h
  obtain ⟨hslash, there, hthere, hheld⟩ := read_eq_ok_iff.mp hother
  have hplaces : there ≠ place := by
    rintro rfl
    exact hne (hplace.trans hthere.symm)
  refine read_eq_ok_iff.mpr ⟨hslash, there, locate_set hnode hthere, ?_⟩
  rw [node_set_other tree hplaces, hheld]

/-! ### The name of a place -/

theorem Open.nil (tree : FileTree) : tree.Open [] := by
  intro above habove
  rw [List.prefix_nil.mp habove]
  rfl

theorem Open.of_prefix (h : tree.Open here) {above : Location} (habove : above <+: here) :
    tree.Open above :=
  fun _ hhigher => h _ (hhigher.trans habove)

theorem Open.of_dropLast (h : tree.Open here.dropLast) (hhere : tree.node? here = some .directory) :
    tree.Open here := by
  rcases List.eq_nil_or_concat' here with rfl | ⟨parent, name, rfl⟩
  · exact .nil tree
  · intro above habove
    rcases List.prefix_concat_iff.mp habove with rfl | hparent
    · exact hhere
    · rw [List.dropLast_concat] at h
      exact h above hparent

/-- From an open directory a name leads to it, to the one above it, or to a place in it. -/
theorem Open.dropLast_of_enter (h : tree.Open here) (henter : tree.enter here name = .ok there) :
    tree.Open there.dropLast := by
  have habove : tree.Open here.dropLast := h.of_prefix (List.dropLast_prefix _)
  rcases enter_cases henter with ⟨-, rfl⟩ | ⟨-, rfl⟩ | ⟨-, -, rfl⟩
  · exact habove
  · exact habove.of_prefix (List.dropLast_prefix _)
  · rwa [List.dropLast_concat]

theorem open_dropLast_of_follow (h : tree.Open here.dropLast)
    (hfollow : tree.follow here names = .ok there) : tree.Open there.dropLast := by
  induction names generalizing here with
  | nil =>
    cases hfollow
    exact h
  | cons name rest ih =>
    obtain ⟨next, henter, hrest⟩ := follow_cons_eq_ok_iff.mp hfollow
    exact ih ((h.of_dropLast (directory_of_enter henter)).dropLast_of_enter henter) hrest

theorem origin_eq_ok (h : tree.origin path = .ok here) :
    path ≠ [] ∧ (here = [] ∨ here = tree.workingDirectory) := by
  rw [origin] at h
  split at h
  case isTrue => cases h
  case isFalse =>
    split at h
    case isTrue => cases h
    case isFalse hempty =>
      refine ⟨fun hnil => hempty (by rw [hnil]; rfl), ?_⟩
      split at h <;> cases h
      split
      · exact .inl rfl
      · exact .inr rfl

/-- The last name of a path is looked up in an open directory. -/
theorem exists_parent_of_locate (h : tree.Grounded) (hslash : endsInSlash path = false)
    (hplace : tree.locate path = .ok place) : Path.lastName path ≠ [] ∧
      ∃ parent, tree.Open parent ∧ tree.enter parent (Path.lastName path) = .ok place := by
  obtain ⟨here, horigin, hfollow⟩ := locate_eq_ok_iff.mp hplace
  obtain ⟨hne, hhere⟩ := origin_eq_ok horigin
  have hopen : tree.Open here.dropLast := by
    rcases hhere with rfl | rfl
    · exact .nil tree
    · exact Open.of_prefix h (List.dropLast_prefix _)
  have hlast : Path.lastName path ≠ [] :=
    Path.lastName_ne_nil hne (beq_eq_false_iff_ne.mp hslash)
  obtain ⟨front, hnames⟩ := Path.names_eq_concat hlast
  rw [hnames] at hfollow
  obtain ⟨parent, hparent, hname⟩ := follow_append_eq_ok_iff.mp hfollow
  obtain ⟨last, henter, hend⟩ := follow_cons_eq_ok_iff.mp hname
  cases hend
  exact ⟨hlast, parent,
    (open_dropLast_of_follow hopen hparent).of_dropLast (directory_of_enter henter), henter⟩

/-- A path that does not lead to a directory ends in the name that its place has. -/
theorem lastName_of_locate (h : tree.Grounded) (hslash : endsInSlash path = false)
    (hplace : tree.locate path = .ok place) (hnode : tree.node? place ≠ some .directory) :
    (Path.lastName path ≠ [] ∧ Path.lastName path ≠ ['.'] ∧ Path.lastName path ≠ ['.', '.']) ∧
      place.getLast? = some (Path.lastName path) := by
  obtain ⟨hlast, parent, hparent, henter⟩ := exists_parent_of_locate h hslash hplace
  rcases enter_cases henter with ⟨-, rfl⟩ | ⟨-, rfl⟩ | ⟨hdot, hdots, rfl⟩
  · exact absurd (hparent _ (List.prefix_refl _)) hnode
  · exact absurd (hparent _ (List.dropLast_prefix _)) hnode
  · exact ⟨⟨hlast, hdot, hdots⟩, List.getLast?_concat⟩

/-- A path that does not lead to a directory has the extension of the place that it
leads to. -/
theorem extension?_of_locate (h : tree.Grounded) (hslash : endsInSlash path = false)
    (hplace : tree.locate path = .ok place) (hnode : tree.node? place ≠ some .directory) :
    Path.extension? path = place.getLast?.bind fun name => (Path.splitName name).2 := by
  obtain ⟨⟨hlast, hdot, hdots⟩, hname⟩ := lastName_of_locate h hslash hplace hnode
  rw [Path.extension?_eq hlast hdot hdots, hname]
  rfl

end FileTree
end TD4
