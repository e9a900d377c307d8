import EmuChef.Configuration.Document
import EmuChef.Lib.DepthFirst
import EmuChef.Planner.Planning
import Mathlib.Data.Finset.Sort

/-! The walks over Recipe dependencies of the planner, of a baseline and of the checks of a saved
configuration. -/

namespace EmuChef.Configuration

open DepthFirst (finishing marking Known Reached)
open Planner (Expansion visitRecipeDependency expandRecipeDependencies)
open Worklist (Successor CycleReachable)

variable (recipes : OrderedMap String Authored.Recipe)

def visitContract (fuel : Nat) (visiting : List String) (expanded : Finset String) (id : String) :
    Except UserConfigurationLoadError (Finset String) :=
  let cycle := structural ("Recipe dependency cycle reaches '" ++ id ++ "'.")
  match fuel with
  | 0 => .error cycle
  | fuel + 1 =>
      if id ∈ expanded then .ok expanded
      else
        match recipes.get? id with
        | none => .error <| structural <|
            "Recipe '" ++ id ++ "' is unavailable for compatibility baseline creation."
        | some recipe =>
            if id ∈ visiting then .error cycle
            else do
              let expanded ← recipe.recipeDependencies.foldlM
                (visitContract fuel (id :: visiting)) expanded
              return insert id expanded

def expandedRecipeContracts (selected : List String) :
    Except UserConfigurationLoadError (List String) := do
  let expanded ← selected.foldlM (visitContract recipes (recipes.entries.length + 1) []) ∅
  return expanded.sort (· ≤ ·)

structure SelectionExpansion where
  expanded : List String
  visiting : Finset String
  diagnostics : List Json

def unknownRecipe (recipeId : String) : Json :=
  configurationDiagnostic "unknown_recipe" ("Selected recipe '" ++ recipeId ++ "' was not found.") none
    "user_configuration" [("recipeId", .string recipeId)]

def dependencyCycle (recipeId : String) : Json :=
  configurationDiagnostic "dependency_cycle"
    ("Recipe dependency cycle reaches '" ++ recipeId ++ "'.") none "catalog"
    [("recipeId", .string recipeId)]

/-- A Recipe is expanded before its dependencies are visited, and an expanded one is not looked at
again: this comes before the check for an open visit. -/
def expandRecipeSelection (fuel : Nat) (found : SelectionExpansion) (recipeId : String) :
    SelectionExpansion :=
  match fuel with
  | 0 => found
  | fuel + 1 =>
      if recipeId ∈ found.expanded then found
      else
        match recipes.get? recipeId with
        | none => { found with diagnostics := found.diagnostics ++ [unknownRecipe recipeId] }
        | some recipe =>
            if recipeId ∈ found.visiting then
              { found with diagnostics := found.diagnostics ++ [dependencyCycle recipeId] }
            else
              let visited := recipe.recipeDependencies.foldl (expandRecipeSelection fuel)
                { found with
                  expanded := found.expanded ++ [recipeId]
                  visiting := insert recipeId found.visiting }
              { visited with visiting := visited.visiting.erase recipeId }

def expandSelectedRecipes (selectedRecipes : List String) : SelectionExpansion :=
  selectedRecipes.foldl (expandRecipeSelection recipes (recipes.entries.length + 1)) ⟨[], ∅, []⟩

end EmuChef.Configuration
