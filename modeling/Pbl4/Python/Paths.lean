/-
This file defines the path operations of `pathlib` on parts: the order, joining a text to
a path, and resolving `..` by name. There are no symbolic links. The order is a linear one,
so sorting by path leaves no trace of the order before.
-/

import Mathlib.Data.List.Sort

namespace Python

/-- The order of POSIX paths: part by part, by code points. -/
def pathLe : List String → List String → Bool
  | [], _ => true
  | _ :: _, [] => false
  | first :: firstRest, second :: secondRest =>
      match compare first second with
      | .lt => true
      | .gt => false
      | .eq => pathLe firstRest secondRest

theorem pathLe_eq (first second : List String) :
    pathLe first second = (compare first second).isLE := by
  show _ = (List.compareLex compare first second).isLE
  fun_induction pathLe first second with
  | case1 second => cases second <;> rfl
  | case2 => rfl
  | case3 first firstRest second secondRest less =>
    rw [List.compareLex_cons_cons, less]
    rfl
  | case4 first firstRest second secondRest greater =>
    rw [List.compareLex_cons_cons, greater]
    rfl
  | case5 first firstRest second secondRest same inductionHypothesis =>
    rw [List.compareLex_cons_cons, same, inductionHypothesis]
    rfl

/-- Items under different paths have one order by path. -/
theorem insertionSort_pathLe_perm {Item : Type} {path : Item → List String}
    {first second : List Item} (same : first.Perm second) (distinct : (first.map path).Nodup) :
    (first.insertionSort fun before after => pathLe (path before) (path after) = true) =
      second.insertionSort fun before after => pathLe (path before) (path after) = true := by
  have total : Std.Total fun before after : Item => pathLe (path before) (path after) = true := by
    refine ⟨fun before after => ?_⟩
    have swapped : compare (path after) (path before) =
        (compare (path before) (path after)).swap := Std.OrientedCmp.eq_swap
    rw [pathLe_eq, pathLe_eq, swapped]
    cases compare (path before) (path after) <;> decide
  have transitive : IsTrans Item fun before after =>
      pathLe (path before) (path after) = true := by
    refine ⟨fun before middle after => ?_⟩
    rw [pathLe_eq, pathLe_eq, pathLe_eq]
    exact Std.TransCmp.isLE_trans
  refine List.Perm.eq_of_pairwise ?_ (List.pairwise_insertionSort _ _)
    (List.pairwise_insertionSort _ _)
    ((List.perm_insertionSort _ _).trans (same.trans (List.perm_insertionSort _ _).symm))
  intro before after beforeMember afterMember forth back
  rw [pathLe_eq] at forth back
  refine List.inj_on_of_nodup_map distinct ((List.mem_insertionSort _).mp beforeMember)
    (same.mem_iff.mpr ((List.mem_insertionSort _).mp afterMember)) ?_
  exact Std.LawfulEqCmp.eq_of_compare (Std.OrientedCmp.isLE_antisymm forth back)

/-- `base / text`, for an absolute `base`. An absolute text starts over, and exactly two
slashes at its start are kept, as a part of their own. -/
def joinPath (base : List String) (text : List Char) : List String :=
  let parts := ((text.splitOn '/').map String.ofList).filter fun part =>
    part ≠ "" ∧ part ≠ "."
  match text with
  | '/' :: '/' :: '/' :: _ => parts
  | '/' :: '/' :: _ => "/" :: parts
  | '/' :: _ => parts
  | _ => base ++ parts

/-- `path.resolve()` -/
def resolvePath (path : List String) : List String :=
  path.foldl (fun done part =>
    if part = "/" then done else if part = ".." then done.dropLast else done ++ [part]) []

/-- A path of names resolves to itself. -/
theorem resolvePath_eq_self {path : List String}
    (names : ∀ part ∈ path, part ≠ "/" ∧ part ≠ "..") : resolvePath path = path := by
  have steps : ∀ done : List String, path.foldl (fun done part =>
      if part = "/" then done else if part = ".." then done.dropLast else done ++ [part]) done =
      done ++ path := by
    induction path with
    | nil => exact fun done => (List.append_nil done).symm
    | cons part rest inductionHypothesis =>
      rw [List.forall_mem_cons] at names
      intro done
      rw [List.foldl_cons, if_neg names.1.1, if_neg names.1.2, inductionHypothesis names.2,
        List.append_assoc, List.singleton_append]
  exact steps []

/-- `path.as_posix()`, of a relative path -/
def posix (path : List String) : List Char := ("/".intercalate path).toList

/-- `str(path)`, of an absolute path -/
def strPath : List String → String
  | "/" :: parts => "//" ++ "/".intercalate parts
  | parts => "/" ++ "/".intercalate parts

/-- `path.suffix` -/
def suffix (name : String) : String :=
  let extension := (name.toList.reverse.takeWhile (· ≠ '.')).reverse
  if extension ≠ [] ∧ extension.length + 1 < name.length then
    String.ofList ('.' :: extension)
  else ""

example : suffix "a.tar.gz" = ".gz" ∧ suffix ".env" = "" ∧ suffix "a." = "" ∧ suffix "a" = "" := by
  decide

end Python
