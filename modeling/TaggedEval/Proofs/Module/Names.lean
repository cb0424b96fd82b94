import TaggedEval.Proofs.Module.Nesting

/-!
# The declared names in order

A module lists its names in strictly ascending order of their bytes, so the list is determined by
which names there are, in whatever order a table holds them (`Module.mergeSort_eq_names`). As lookups
neither declare nor forget a name, it is the same at every point of every use of the module.
-/

namespace TaggedEval

variable {σ α : Type}

namespace Module

theorem names_ascending (m : Module σ) :
    m.signature.names.Pairwise fun a b => Name.bytes a < Name.bytes b :=
  m.entries.keys_ascending

theorem names_nodup (m : Module σ) : m.signature.names.Nodup :=
  Std.TreeMap.nodup_keys

/-- A table may list the names in any order: sorted by their bytes they are the same list. -/
theorem mergeSort_eq_names (m : Module σ) {keys : List String} (hnodup : keys.Nodup)
    (hkeys : ∀ name, name ∈ keys ↔ name ∈ m.signature.names) :
    (keys.mergeSort fun a b => (Name.order a b).isLE) = m.signature.names :=
  m.entries.mergeSort_eq_keys hnodup hkeys

theorem names_eq_of_undefined_iff {m m' : Module σ}
    (h : ∀ name, m.entryAt name = none ↔ m'.entryAt name = none) :
    m.signature.names = m'.signature.names := by
  have hnames : ∀ name, name ∈ m.signature.names ↔ name ∈ m'.signature.names := by
    intro name
    rw [mem_names_iff, mem_names_iff, Ne, Ne, h name]
  -- Both are the names of the first module, sorted.
  rw [← m.mergeSort_eq_names m.names_nodup fun _ => Iff.rfl]
  exact m'.mergeSort_eq_names m.names_nodup hnames

end Module

namespace Config

theorem Coherent.names_eq {m : Module σ} {c : Config σ α} (h : Coherent m c) :
    c.session.module.signature.names = m.signature.names :=
  Module.names_eq_of_undefined_iff h.undefined_iff

theorem Reachable.mem_names_iff {moduleName : String} {definitions : List (Definition σ)}
    {c : Config σ α} (h : Reachable (.ofDefinitions moduleName definitions) c) (name : String) :
    name ∈ c.session.module.signature.names ↔ name ∈ definitions.map Definition.name := by
  have hcoherent := h.coherent (Module.fresh_ofDefinitions moduleName definitions)
  rw [hcoherent.names_eq, Module.mem_names_ofDefinitions_iff]

theorem Reachable.isEmpty_iff {moduleName : String} {definitions : List (Definition σ)}
    {c : Config σ α} (h : Reachable (.ofDefinitions moduleName definitions) c) :
    c.session.module.signature.isEmpty = true ↔ definitions = [] := by
  rw [Signature.isEmpty, beq_iff_eq, ← Module.length_names, List.length_eq_zero_iff,
    ← List.map_eq_nil_iff (f := Definition.name), List.eq_nil_iff_forall_not_mem,
    List.eq_nil_iff_forall_not_mem]
  exact forall_congr' fun name => not_congr (h.mem_names_iff name)

end Config

end TaggedEval
