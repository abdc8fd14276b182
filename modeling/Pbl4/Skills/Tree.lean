/-
This file defines the tree below `.agents` that `verify_skills.py` reads and writes. A file
holds text, or bytes that are no UTF-8 text. The script writes files into the root of the
tree only; what such a write changes is said once: the entry of that name, and nothing
else. Writing the text a file already holds changes nothing.
-/

import Mathlib.Data.List.Nodup
import Pbl4.Python.Characters

namespace Pbl4.Skills

open Python

/-! ### Entries -/

/-- The exceptions the script may end with. -/
inductive PyError where
  | fileNotFoundError
  | isADirectoryError
  | unicodeDecodeError
  | jsonDecodeError
  | keyError
  | typeError
  | valueError
  | osError
  deriving DecidableEq

/-- The bytes of a file: the UTF-8 encoding of a text, or bytes that encode none. -/
inductive Content where
  | text (decoded : List Char)
  | binary (bytes : List UInt8)
      (invalid : ∀ decoded : List Char, decoded.flatMap String.utf8EncodeChar ≠ bytes)

/-- `p.read_bytes()` -/
def Content.bytes : Content → List UInt8
  | .text decoded => decoded.flatMap String.utf8EncodeChar
  | .binary bytes _ => bytes

/-- An entry of the tree. -/
inductive Entry where
  | directory
  | file (content : Content)

/-- The entry is a directory. -/
def Entry.isDirectory : Entry → Bool
  | .directory => true
  | .file _ => false

/-- `p.read_text(encoding="utf-8")` -/
def Entry.readText : Entry → Except PyError (List Char)
  | .directory => .error .isADirectoryError
  | .file (.binary _ _) => .error .unicodeDecodeError
  | .file (.text decoded) => .ok (universalNewlines decoded)

/-! ### The tree -/

/-- Every entry lies in the root or in a directory of the tree. -/
def Rooted (entries : List (List String × Entry)) : Prop :=
  ∀ entry ∈ entries, entry.1 ≠ [] ∧ (entry.1.dropLast = [] ∨
    ∃ parent ∈ entries, parent.1 = entry.1.dropLast ∧ parent.2.isDirectory = true)

instance (entries : List (List String × Entry)) : Decidable (Rooted entries) :=
  inferInstanceAs (Decidable (∀ entry ∈ entries, _ ∧ (_ ∨ ∃ parent ∈ entries, _)))

/-- A name an entry of a directory can have. -/
def IsName (part : String) : Prop :=
  part ≠ "" ∧ part ≠ "." ∧ part ≠ ".." ∧ '/' ∉ part.toList

instance (part : String) : Decidable (IsName part) := inferInstanceAs (Decidable (_ ∧ _))

/-- The entries below the root, under their paths, in the order of enumeration. -/
structure Tree where
  entries : List (List String × Entry)
  distinct : (entries.map Prod.fst).Nodup
  rooted : Rooted entries
  named : ∀ entry ∈ entries, ∀ part ∈ entry.1, IsName part

/-- The entry at a path. -/
def Tree.find (tree : Tree) (path : List String) : Option Entry :=
  (tree.entries.find? fun entry => entry.1 = path).map Prod.snd

theorem Tree.find_eq_some {tree : Tree} {path : List String} {entry : Entry} :
    tree.find path = some entry ↔ (path, entry) ∈ tree.entries := by
  unfold find
  rw [Option.map_eq_some_iff]
  constructor
  · rintro ⟨⟨found, value⟩, located, rfl⟩
    have same := List.find?_some located
    rw [decide_eq_true_eq] at same
    exact same ▸ List.mem_of_find?_eq_some located
  · intro member
    cases located : tree.entries.find? fun entry => entry.1 = path with
    | none => exact absurd (List.find?_eq_none.mp located _ member) (by simp)
    | some found =>
      have same := List.find?_some located
      rw [decide_eq_true_eq] at same
      have unique := List.inj_on_of_nodup_map tree.distinct (List.mem_of_find?_eq_some located)
        member same
      exact ⟨found, rfl, congrArg Prod.snd unique⟩

/-! ### Writing into the root -/

/-- The entries after a file is written into the root. A new file may be enumerated at any
place. -/
def putEntries (place : Nat) (name : String) (file : Content)
    (entries : List (List String × Entry)) : List (List String × Entry) :=
  if [name] ∈ entries.map Prod.fst then
    entries.map fun entry => if entry.1 = [name] then ([name], .file file) else entry
  else entries.take place ++ ([name], .file file) :: entries.drop place

section Put

variable {place : Nat} {name : String} {file : Content} {entries : List (List String × Entry)}

theorem mem_putEntries {entry : List String × Entry} :
    entry ∈ putEntries place name file entries ↔
      entry = ([name], .file file) ∨ entry.1 ≠ [name] ∧ entry ∈ entries := by
  unfold putEntries
  split
  · rename_i present
    rw [List.mem_map]
    constructor
    · rintro ⟨old, member, rfl⟩
      split
      · exact Or.inl rfl
      · rename_i different
        exact Or.inr ⟨different, member⟩
    · rintro (rfl | ⟨different, member⟩)
      · obtain ⟨old, oldMember, same⟩ := List.mem_map.mp present
        exact ⟨old, oldMember, if_pos same⟩
      · exact ⟨entry, member, if_neg different⟩
  · rename_i absent
    have split : entry ∈ entries ↔ entry ∈ entries.take place ∨ entry ∈ entries.drop place := by
      rw [← List.mem_append, List.take_append_drop]
    rw [List.mem_append, List.mem_cons, split]
    constructor
    · rintro (before | rfl | after)
      · refine Or.inr ⟨fun same => absent ?_, Or.inl before⟩
        exact List.mem_map.mpr ⟨entry, split.mpr (Or.inl before), same⟩
      · exact Or.inl rfl
      · refine Or.inr ⟨fun same => absent ?_, Or.inr after⟩
        exact List.mem_map.mpr ⟨entry, split.mpr (Or.inr after), same⟩
    · rintro (rfl | ⟨_, before | after⟩)
      · exact Or.inr (Or.inl rfl)
      · exact Or.inl before
      · exact Or.inr (Or.inr after)

theorem putEntries_distinct (distinct : (entries.map Prod.fst).Nodup) :
    ((putEntries place name file entries).map Prod.fst).Nodup := by
  unfold putEntries
  split
  · have same : (entries.map fun entry =>
        if entry.1 = [name] then ([name], Entry.file file) else entry).map Prod.fst =
        entries.map Prod.fst := by
      rw [List.map_map]
      refine List.map_congr_left fun entry _ => ?_
      simp only [Function.comp_apply]
      split
      · rename_i found
        exact found.symm
      · rfl
    rwa [same]
  · rename_i absent
    rw [List.map_append, List.map_cons]
    refine (List.perm_middle.nodup_iff).mpr ?_
    rw [← List.map_append, List.take_append_drop]
    exact List.nodup_cons.mpr ⟨absent, distinct⟩

/-- Entries that are not of that name stay as they were, in their order. -/
theorem filter_putEntries {keep : List String × Entry → Bool}
    (others : ∀ entry, keep ([name], entry) = false) :
    (putEntries place name file entries).filter keep = entries.filter keep := by
  unfold putEntries
  split
  · rw [List.filter_map]
    have same : entries.filter (keep ∘ fun entry =>
        if entry.1 = [name] then ([name], Entry.file file) else entry) =
        entries.filter keep := by
      refine List.filter_congr fun entry _ => ?_
      simp only [Function.comp_apply]
      split
      · rename_i found
        rw [others, ← others entry.2, ← found]
      · rfl
    rw [same]
    conv_rhs => rw [← List.map_id (entries.filter keep)]
    refine List.map_congr_left fun entry member => if_neg fun found => ?_
    have kept := List.of_mem_filter member
    rw [show entry = ([name], entry.2) from Prod.ext found rfl, others] at kept
    exact absurd kept (by decide)
  · rw [List.filter_append, List.filter_cons_of_neg (by rw [others]; decide),
      ← List.filter_append, List.take_append_drop]

theorem putEntries_self (distinct : (entries.map Prod.fst).Nodup)
    (member : ([name], Entry.file file) ∈ entries) :
    putEntries place name file entries = entries := by
  rw [putEntries, if_pos (List.mem_map.mpr ⟨_, member, rfl⟩)]
  conv_rhs => rw [← List.map_id entries]
  refine List.map_congr_left fun entry entryMember => ?_
  split
  · rename_i same
    exact (List.inj_on_of_nodup_map distinct entryMember member same).symm
  · rfl

theorem putEntries_rooted (rooted : Rooted entries)
    (writable : ∀ entry ∈ entries, entry.1 = [name] → entry.2.isDirectory = false) :
    Rooted (putEntries place name file entries) := by
  intro entry member
  rcases mem_putEntries.mp member with rfl | ⟨different, old⟩
  · exact ⟨List.cons_ne_nil _ _, Or.inl rfl⟩
  · obtain ⟨nonempty, top | ⟨parent, parentMember, path, directory⟩⟩ := rooted entry old
    · exact ⟨nonempty, Or.inl top⟩
    · refine ⟨nonempty, Or.inr ⟨parent, mem_putEntries.mpr (Or.inr ⟨fun same => ?_,
        parentMember⟩), path, directory⟩⟩
      rw [writable parent parentMember same] at directory
      exact absurd directory (by decide)

theorem putEntries_named (named : ∀ entry ∈ entries, ∀ part ∈ entry.1, IsName part)
    (valid : IsName name) :
    ∀ entry ∈ putEntries place name file entries, ∀ part ∈ entry.1, IsName part := by
  intro entry member part partMember
  rcases mem_putEntries.mp member with rfl | ⟨_, old⟩
  · exact List.mem_singleton.mp partMember ▸ valid
  · exact named entry old part partMember

end Put

/-- No directory has that name in the root. -/
def Tree.Writable (tree : Tree) (name : String) : Prop :=
  ∀ entry ∈ tree.entries, entry.1 = [name] → entry.2.isDirectory = false

instance (tree : Tree) (name : String) : Decidable (tree.Writable name) :=
  inferInstanceAs (Decidable (∀ entry ∈ tree.entries, _))

/-- `(ROOT / name).write_text(text, encoding="utf-8")` -/
def Tree.writeText (tree : Tree) (place : Nat) {name : String} (valid : IsName name)
    (text : List Char) : Except PyError Tree :=
  if writable : tree.Writable name then
    .ok
      { entries := putEntries place name (.text text) tree.entries
        distinct := putEntries_distinct tree.distinct
        rooted := putEntries_rooted tree.rooted writable
        named := putEntries_named tree.named valid }
  else .error .isADirectoryError

section Write

variable {tree after : Tree} {place : Nat} {name : String} {valid : IsName name}
  {text : List Char}

theorem Tree.ext {first second : Tree} (same : first.entries = second.entries) :
    first = second := by
  cases first
  cases second
  cases same
  rfl

theorem Tree.writeText_eq_ok :
    tree.writeText place valid text = .ok after ↔
      tree.Writable name ∧ after.entries = putEntries place name (.text text) tree.entries := by
  unfold writeText
  split
  · rename_i writable
    constructor
    · intro same
      obtain rfl := Except.ok.inj same
      exact ⟨writable, rfl⟩
    · rintro ⟨_, same⟩
      exact congrArg Except.ok (Tree.ext same.symm)
  · rename_i blocked
    exact ⟨fun impossible => absurd impossible (by simp), fun whole => absurd whole.1 blocked⟩

theorem Tree.mem_writeText (written : tree.writeText place valid text = .ok after)
    {entry : List String × Entry} :
    entry ∈ after.entries ↔
      entry = ([name], .file (.text text)) ∨ entry.1 ≠ [name] ∧ entry ∈ tree.entries := by
  rw [(writeText_eq_ok.mp written).2, mem_putEntries]

theorem Tree.filter_writeText (written : tree.writeText place valid text = .ok after)
    {keep : List String × Entry → Bool} (others : ∀ entry, keep ([name], entry) = false) :
    after.entries.filter keep = tree.entries.filter keep := by
  rw [(writeText_eq_ok.mp written).2, filter_putEntries others]

/-- Writing a text leaves the tree as it is exactly when the file holds that text. -/
theorem Tree.writeText_eq_self :
    tree.writeText place valid text = .ok tree ↔
      ([name], .file (.text text)) ∈ tree.entries := by
  constructor
  · intro written
    exact (mem_writeText written).mpr (Or.inl rfl)
  · intro member
    refine writeText_eq_ok.mpr ⟨fun entry entryMember same => ?_,
      (putEntries_self tree.distinct member).symm⟩
    have unique := List.inj_on_of_nodup_map tree.distinct entryMember member same
    rw [unique]
    rfl

end Write

end Pbl4.Skills
