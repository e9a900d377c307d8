import EmuChef.Lib.FileTree
import Mathlib.Data.List.Lex
import Mathlib.Data.String.Basic

/-! Paths given by the names that lead to them from the root of a file system. -/

namespace EmuChef

theorem lt_concat (path : List String) (name : String) : path < path ++ [name] := by
  have longer : List.Lex (· < ·) (path ++ []) (path ++ [name]) :=
    List.Lex.append_left (· < ·) List.Lex.nil path
  rw [List.append_nil] at longer
  exact (List.lt_iff_lex_lt _ _).mpr longer

instance : TreePath (List String) where
  parent path := if path.dropLast = [] then none else some path.dropLast
  named path := path ≠ []
  parent_lt {path above} found := by
    split at found
    next => exact nomatch found
    next filled =>
      obtain rfl := Option.some.inj found
      have nonempty : path ≠ [] := by
        rintro rfl
        exact filled rfl
      conv_rhs => rw [← List.dropLast_append_getLast nonempty]
      exact lt_concat _ _
  parent_named := by
    intro path above _ found
    split at found
    next => exact nomatch found
    next filled =>
      obtain rfl := Option.some.inj found
      simpa using filled

theorem parent_eq_some {path above : List String} :
    TreePath.parent path = some above ↔ above ≠ [] ∧ ∃ name, path = above ++ [name] := by
  change (if path.dropLast = [] then none else some path.dropLast) = some above ↔ _
  constructor
  · intro found
    split at found
    next => cases found
    next filled =>
      obtain rfl := Option.some.inj found
      have nonempty : path ≠ [] := by
        rintro rfl
        exact filled rfl
      exact ⟨filled, path.getLast nonempty, (List.dropLast_append_getLast nonempty).symm⟩
  · rintro ⟨filled, name, rfl⟩
    rw [List.dropLast_concat, if_neg filled]

end EmuChef
