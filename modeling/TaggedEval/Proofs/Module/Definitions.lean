import Mathlib.Data.List.Induction
import TaggedEval.Module.Recipe

/-!
# What a module declares

A module is built from a list of definitions, and the last definition of a name counts. At first all
entries wait.
-/

namespace TaggedEval

variable {σ β γ : Type}

/-- A table filled one binding after the other holds the last binding of each name. -/
theorem getElem?_foldl_insert (key : γ → String) (value : γ → β) (bindings : List γ)
    (name : String) :
    (bindings.foldl (fun table b => table.insert (key b) (value b)) (∅ : NameMap β))[name]? =
      (bindings.reverse.find? fun b => key b = name).map value := by
  induction bindings using List.reverseRecOn with
  | nil => simp
  | append_singleton bindings b ih =>
    rw [List.foldl_append, List.foldl_cons, List.foldl_nil, NameMap.getElem?_insert, ih,
      List.reverse_append, List.reverse_singleton, List.singleton_append, List.find?_cons]
    by_cases hkey : key b = name
    · simp [hkey]
    · simp [hkey]

namespace Module

theorem entryAt_ofDefinitions (moduleName : String) (definitions : List (Definition σ))
    (name : String) :
    (ofDefinitions moduleName definitions).entryAt name =
      (definitions.reverse.find? fun d => d.name = name).map fun d => .waiting d.body :=
  getElem?_foldl_insert Definition.name (fun d => Entry.waiting d.body) definitions name

/-- No body has been started yet. -/
def Fresh (m : Module σ) : Prop :=
  ∀ name entry, m.entryAt name = some entry → ∃ body, entry = .waiting body

theorem fresh_ofDefinitions (moduleName : String) (definitions : List (Definition σ)) :
    (ofDefinitions moduleName definitions).Fresh := by
  intro name entry h
  rw [entryAt_ofDefinitions, Option.map_eq_some_iff] at h
  obtain ⟨d, -, rfl⟩ := h
  exact ⟨d.body, rfl⟩

end Module

namespace Recipes

theorem getElem?_ofDefinitions (definitions : List (String × Recipe)) (name : String) :
    (ofDefinitions definitions)[name]? =
      (definitions.reverse.find? fun d => d.1 = name).map fun d => d.2 :=
  getElem?_foldl_insert _ _ definitions name

theorem entryAt_module (moduleName : String) (definitions : List (String × Recipe))
    (name : String) :
    (module (σ := σ) moduleName definitions).entryAt name =
      ((ofDefinitions definitions)[name]?).map fun r => .waiting r.body := by
  rw [module, Module.entryAt_ofDefinitions, getElem?_ofDefinitions, ← List.map_reverse,
    List.find?_map, Option.map_map, Option.map_map]
  rfl

end Recipes

end TaggedEval
