import Mathlib.Data.List.Dedup
import Mathlib.Order.WellFounded
import TaggedEval.Proofs.Module.Activation
import TaggedEval.Proofs.Name

/-!
# How deep lookups nest, and that they end

Each name is either idle or has its body on the stack once, so the idle names and the bodies on the
stack together are as many as the declared names (`Config.Coherent.active_add_idle`). A body that is
started takes one name from the idle ones, however deep it is nested and whatever the bodies around
it do with failures. Since every path through a program is finite as well, no run goes on for ever.
-/

namespace TaggedEval

variable {σ α : Type}

open Session

/-! ## Counting names -/

namespace Module

theorem mem_names_iff (m : Module σ) (name : String) :
    name ∈ m.signature.names ↔ m.entryAt name ≠ none :=
  m.entries.mem_keys_iff

theorem length_names (m : Module σ) : m.signature.names.length = m.signature.size :=
  Std.TreeMap.length_keys

theorem mem_names_ofDefinitions_iff (moduleName : String) (definitions : List (Definition σ))
    (name : String) :
    name ∈ (ofDefinitions moduleName definitions).signature.names ↔
      name ∈ definitions.map Definition.name := by
  rw [mem_names_iff, entryAt_ofDefinitions, Ne, Option.map_eq_none_iff, List.find?_eq_none]
  simp

/-- The names whose entries are running. -/
def runningNames (m : Module σ) : List String :=
  (m.entries.toList.filter fun e => e.2.isRunning).map Prod.fst

theorem mem_runningNames_iff (m : Module σ) (name : String) :
    name ∈ m.runningNames ↔ m.entryAt name = some .running := by
  rw [runningNames, List.mem_map]
  constructor
  · rintro ⟨⟨own, entry⟩, hmem, rfl⟩
    rw [List.mem_filter, Std.TreeMap.mem_toList_iff_getElem?_eq_some] at hmem
    cases entry with
    | running => exact hmem.1
    | waiting body => cases hmem.2
    | settled v => cases hmem.2
  · intro h
    refine ⟨(name, .running), ?_, rfl⟩
    rw [List.mem_filter, Std.TreeMap.mem_toList_iff_getElem?_eq_some]
    exact ⟨h, rfl⟩

theorem nodup_runningNames (m : Module σ) : m.runningNames.Nodup := by
  have hkeys : (m.entries.toList.map Prod.fst).Nodup := by
    rw [Std.TreeMap.map_fst_toList_eq_keys]
    exact Std.TreeMap.nodup_keys
  exact hkeys.sublist (List.filter_sublist.map Prod.fst)

theorem length_runningNames_add_idle (m : Module σ) :
    m.runningNames.length + m.idle = m.signature.size := by
  rw [← length_names]
  show _ = m.entries.keys.length
  rw [← Std.TreeMap.map_fst_toList_eq_keys, List.length_map, runningNames, List.length_map,
    ← List.countP_eq_length_filter, idle,
    List.length_eq_countP_add_countP fun e : String × Entry σ => e.2.isRunning]
  simp

end Module

namespace Config

theorem Coherent.active_add_idle {m : Module σ} {c : Config σ α} (h : Coherent m c) :
    c.stack.active.length + c.session.module.idle = c.session.module.signature.size := by
  have hsame : c.stack.active.Perm c.session.module.runningNames := by
    rw [List.perm_ext_iff_of_nodup h.active_nodup c.session.module.nodup_runningNames]
    intro name
    rw [Module.mem_runningNames_iff, h.running_iff name]
  rw [hsame.length_eq, Module.length_runningNames_add_idle]

/-- A module has an entry for each declared name as long as it is in use. -/
theorem Coherent.size_eq {moduleName : String} {definitions : List (Definition σ)}
    {c : Config σ α} (h : Coherent (.ofDefinitions moduleName definitions) c) :
    c.session.module.signature.size = (definitions.map Definition.name).dedup.length := by
  have hnodup : c.session.module.signature.names.Nodup := Std.TreeMap.nodup_keys
  rw [← Module.length_names]
  apply List.Perm.length_eq
  rw [List.perm_ext_iff_of_nodup hnodup (List.nodup_dedup _)]
  intro name
  rw [Module.mem_names_iff, Ne, h.undefined_iff name, ← Ne, ← Module.mem_names_iff,
    Module.mem_names_ofDefinitions_iff, List.mem_dedup]

/-! ## Runs end -/

theorem not_forall_step (run : Nat → Config σ α) : ¬ ∀ i, (run i).step = .inr (run (i + 1)) := by
  intro h
  have hwf : IsWellFounded (Config σ α) Next := ⟨wellFounded_next⟩
  obtain ⟨i, hi⟩ := WellFounded.not_rel_apply_succ (r := Next) run
  exact hi (h i)

theorem exists_steps_finish (c : Config σ α) : ∃ r s, Steps c ⟨.finish r, .caller, s⟩ := by
  induction c using wellFounded_next.induction with
  | h c ih =>
    cases hstep : c.step with
    | inl out =>
      obtain ⟨r, s⟩ := out
      refine ⟨r, s, ?_⟩
      rw [eq_of_step_inl hstep]
      exact .refl _
    | inr c' =>
      obtain ⟨r, s, hsteps⟩ := ih c' hstep
      exact ⟨r, s, .head hstep hsteps⟩

/-- From every point of every use of a module with `N` names: no run goes on for ever, and the
    program of the caller ends. A lookup or an evaluation of all names ends as well, and whoever
    asked for it goes on. The bodies on the stack and the names whose body is not running are `N`
    together, so at most `N` bodies are active, and each body that is started leaves fewer names
    that can still be started. -/
theorem run_ends_nested_le (moduleName : String) (definitions : List (Definition σ))
    {c : Config σ α} (h : Reachable (.ofDefinitions moduleName definitions) c) :
    (∀ run : Nat → Config σ α, run 0 = c → ¬ ∀ i, (run i).step = .inr (run (i + 1))) ∧
    (∃ r s, Steps c ⟨.finish r, .caller, s⟩) ∧
    (∀ (β : Type) (n : String) (next : Outcome Value → Program σ β) (stack : Stack σ α β)
      (s : Session σ), c = ⟨.lookup n next, stack, s⟩ →
      ∃ o s', s.valueOf n = (o, s') ∧ Steps c ⟨next o, stack, s'⟩) ∧
    (∀ (β : Type) (next : Outcome (List (String × Value)) → Program σ β) (stack : Stack σ α β)
      (s : Session σ), c = ⟨Program.allValues.run.bind next, stack, s⟩ →
      ∃ o s', s.allValues = (o, s') ∧ Steps c ⟨next o, stack, s'⟩) ∧
    c.stack.active.length + c.session.module.idle =
      (definitions.map Definition.name).dedup.length ∧
    c.stack.active.length ≤ (definitions.map Definition.name).dedup.length ∧
    ∀ c' n, c.step = .inr c' → c'.stack.active = n :: c.stack.active →
      c'.session.module.idle < c.session.module.idle := by
  have hfresh := Module.fresh_ofDefinitions moduleName definitions
  have hcount {c : Config σ α} (h : Reachable (.ofDefinitions moduleName definitions) c) :
      c.stack.active.length + c.session.module.idle =
        (definitions.map Definition.name).dedup.length := by
    rw [(h.coherent hfresh).active_add_idle, (h.coherent hfresh).size_eq]
  have hnow := hcount h
  refine ⟨fun run _ => not_forall_step run, exists_steps_finish c, ?_, ?_, hnow, by omega, ?_⟩
  · intro β n next stack s hc
    subst hc
    exact ⟨_, _, rfl, steps_lookup s n next stack⟩
  · intro β next stack s hc
    subst hc
    exact ⟨_, _, rfl, (evaluates_run s Program.allValues.run).steps_bind next stack⟩
  · intro c' n hstep hactive
    have hafter := hcount (h.next hstep)
    rw [hactive, List.length_cons] at hafter
    omega

/-- Two definitions that need each other. The first one ignores the failure and tries again. -/
def stubbornPair : List (Definition Unit) :=
  [⟨"a", .lookup "b" fun _ => .lookup "b" fun _ => .finish (.ok .nil)⟩, ⟨"b", .lookup "a" .finish⟩]

/-- In the body of the second, looked up by the first, no name can be started any more; the run
    ends all the same. -/
theorem run_ends_nested_le_stubbornPair :
    ∃ c : Config Unit (Outcome Value), Reachable (.ofDefinitions "main" stubbornPair) c ∧
      c.stack.active = ["b", "a"] ∧ c.session.module.idle = 0 ∧
      ∃ r s, Steps c ⟨.finish r, .caller, s⟩ := by
  have ha : (Module.ofDefinitions "main" stubbornPair).entryAt "a" =
      some (.waiting (.lookup "b" fun _ => .lookup "b" fun _ => .finish (.ok .nil))) := by
    simp [Module.entryAt_ofDefinitions, stubbornPair]
  have hb : ((Module.ofDefinitions "main" stubbornPair).setEntry "a" .running).entryAt "b" =
      some (.waiting (.lookup "a" .finish)) := by
    simp [Module.entryAt_setEntry, Module.entryAt_ofDefinitions, stubbornPair]
  have hreach := ((Reachable.first (.lookup "a" .finish) ()).next
    (step_lookup_of_waiting ha _ _)).next (step_lookup_of_waiting hb _ _)
  obtain ⟨-, hend, -, -, hcount, -⟩ := run_ends_nested_le "main" stubbornPair hreach
  have hsize : (stubbornPair.map Definition.name).dedup.length = 2 := by decide
  have hactive : List.length ["b", "a"] + _ = 2 := hcount.trans hsize
  exact ⟨_, hreach, rfl, by simpa using hactive, hend⟩

end Config

end TaggedEval
