import TaggedEval.Foreign.History
import TaggedEval.Proofs.Name

/-!
# The latest binding counts

A registry keeps one function for each name, and a list of bindings keeps all that was ever bound,
the latest first. After every history they agree on what a name stands for (`Registry.Reflects`):
each change keeps it so, and the empty registry and that of the built-in functions start with it. An
alias is resolved when it is made, so what happens to its source afterwards has no part in it.
-/

namespace TaggedEval

namespace Foreign

variable {bs : List (String × Foreign)} {name source : String} {f : Foreign}

/-! ## The latest binding of a name -/

/-- Among these bindings, the latest first, the name is bound to this function, and none that is
    later binds the name. -/
def IsLatest (bs : List (String × Foreign)) (name : String) (f : Foreign) : Prop :=
  ∃ later earlier, bs = later ++ (name, f) :: earlier ∧ name ∉ later.map Prod.fst

theorem not_mem_names_iff :
    name ∉ bs.map Prod.fst ↔ ∀ b ∈ bs, (name != b.1) = true := by
  rw [List.mem_map, not_exists]
  exact forall_congr' fun b => by rw [not_and, bne_iff_ne, ne_comm]

theorem lookup_eq_some_iff_isLatest : bs.lookup name = some f ↔ IsLatest bs name f := by
  simp only [List.lookup_eq_some_iff, IsLatest, not_mem_names_iff]

theorem lookup_eq_none_iff_not_mem : bs.lookup name = none ↔ name ∉ bs.map Prod.fst := by
  rw [List.lookup_eq_none_iff, not_mem_names_iff]

theorem bind_alias_of_some (h : bs.lookup source = some f) :
    bind bs (.alias name source) = (name, f) :: bs := by
  rw [bind, h]

theorem bind_alias_of_none (h : bs.lookup source = none) : bind bs (.alias name source) = bs := by
  rw [bind, h]

namespace Registry

variable {r : Registry}

/-! ## One change -/

theorem get?_register (r : Registry) (name other : String) (f : Foreign) :
    (r.register name f).2.get? other = if name = other then some f else r.get? other :=
  NameMap.getElem?_insert r.functions name other f

theorem alias?_of_some (h : r.get? source = some f) :
    r.alias? name source = some (r.register name f) := by
  rw [alias?, h, Option.map_some]

theorem alias?_of_none (h : r.get? source = none) : r.alias? name source = none := by
  rw [alias?, h, Option.map_none]

theorem change_alias_of_some (h : r.get? source = some f) :
    r.change (.alias name source) = (r.register name f).2 := by
  rw [change, alias?_of_some h, Option.map_some, Option.getD_some]

theorem change_alias_of_none (h : r.get? source = none) : r.change (.alias name source) = r := by
  rw [change, alias?_of_none h, Option.map_none, Option.getD_none]

/-- A change that has an effect binds its target, and nothing else. -/
theorem change_cases (r : Registry) (c : Change) :
    (∃ f, r.change c = (r.register c.target f).2) ∨ r.change c = r := by
  cases c with
  | register name f => exact .inl ⟨f, rfl⟩
  | «alias» name source =>
    cases h : r.get? source with
    | some f => exact .inl ⟨f, change_alias_of_some h⟩
    | none => exact .inr (change_alias_of_none h)

theorem get?_change_of_ne {c : Change} (h : c.target ≠ name) :
    (r.change c).get? name = r.get? name := by
  rcases change_cases r c with ⟨f, heq⟩ | heq
  · rw [heq, get?_register, if_neg h]
  · rw [heq]

theorem call_of_get?_eq_some (h : r.get? name = some f) (args : List Value) :
    r.call name args = f args := by
  rw [call, h]

theorem call_of_get?_eq_none (h : r.get? name = none) (args : List Value) :
    r.call name args = .error (.of (.undefinedForeign name)) := by
  rw [call, h]

theorem call_congr {r' : Registry} (h : r'.get? name = r.get? name) (args : List Value) :
    r'.call name args = r.call name args := by
  rw [call, call, h]

/-! ## Histories -/

theorem after_append (r : Registry) (earlier later : List Change) :
    r.after (earlier ++ later) = (r.after earlier).after later :=
  List.foldl_append

theorem get?_after_of_forall_ne {later : List Change} (h : ∀ c ∈ later, c.target ≠ name) :
    (r.after later).get? name = r.get? name := by
  induction later generalizing r with
  | nil => rfl
  | cons c later ih =>
    obtain ⟨hc, hlater⟩ := List.forall_mem_cons.mp h
    calc
      (r.after (c :: later)).get? name = (r.change c).get? name := ih hlater
      _ = r.get? name := get?_change_of_ne hc

/-- Each name stands for what a look through the bindings finds. -/
def Reflects (r : Registry) (bs : List (String × Foreign)) : Prop :=
  ∀ name, r.get? name = bs.lookup name

theorem Reflects.register (h : r.Reflects bs) (name : String) (f : Foreign) :
    (r.register name f).2.Reflects ((name, f) :: bs) := by
  intro other
  rw [get?_register, List.lookup_cons, h other]
  by_cases hname : name = other
  · simp [hname]
  · rw [if_neg hname, beq_false_of_ne (Ne.symm hname)]

theorem Reflects.change (h : r.Reflects bs) (c : Change) : (r.change c).Reflects (bind bs c) := by
  cases c with
  | register name f => exact h.register name f
  | «alias» name source =>
    cases hf : r.get? source with
    | some f =>
      rw [change_alias_of_some hf, bind_alias_of_some ((h source).symm.trans hf)]
      exact h.register name f
    | none =>
      rw [change_alias_of_none hf, bind_alias_of_none ((h source).symm.trans hf)]
      exact h

theorem Reflects.after (h : r.Reflects bs) (history : List Change) :
    (r.after history).Reflects (bindings bs history) := by
  induction history generalizing r bs with
  | nil => exact h
  | cons c history ih => exact ih (h.change c)

/-- The registries that a program can start with, and their bindings. -/
inductive Start : Registry → List (String × Foreign) → Prop
  | empty : Start .empty []
  | builtins : Start .builtins builtinBindings

theorem reflects_empty : empty.Reflects [] :=
  fun _ => Std.TreeMap.getElem?_emptyc

theorem Start.reflects (h : Start r bs) : r.Reflects bs := by
  cases h with
  | empty => exact reflects_empty
  | builtins => exact (reflects_empty.register "to_string" toText).register "crash" crash

/-! ## Everything that can be asked -/

/-- What a registry answers when it was filled by these bindings, the latest first. -/
structure AnswersFor (r : Registry) (bs : List (String × Foreign)) : Prop where
  call_latest : ∀ name f, IsLatest bs name f → ∀ args, r.call name args = f args
  call_unbound : ∀ name, name ∉ bs.map Prod.fst → ∀ args,
    r.call name args = .error (.of (.undefinedForeign name))
  /-- A registration returns the function that it replaces. -/
  replaced : ∀ name f g, (r.register name f).1 = some g ↔ IsLatest bs name g
  replaced_isSome : ∀ name f, (r.register name f).1.isSome ↔ name ∈ bs.map Prod.fst
  /-- An alias is a registration of what its source stands for now. -/
  alias_latest : ∀ name source f, IsLatest bs source f →
    r.alias? name source = some (r.register name f)
  alias_unbound : ∀ name source, source ∉ bs.map Prod.fst → r.alias? name source = none
  names_ascending : r.names.Pairwise fun a b => Name.bytes a < Name.bytes b
  mem_names : ∀ name, name ∈ r.names ↔ name ∈ bs.map Prod.fst
  /-- The names that are bound have one list, in whatever order they were before sorting. -/
  names_sorted : ∀ names : List String, names.Nodup →
    (∀ name, name ∈ names ↔ name ∈ bs.map Prod.fst) →
    (names.mergeSort fun a b => (Name.order a b).isLE) = r.names

theorem Reflects.get?_eq_some_iff (h : r.Reflects bs) :
    r.get? name = some f ↔ IsLatest bs name f := by
  rw [h name, lookup_eq_some_iff_isLatest]

theorem Reflects.get?_eq_none_iff (h : r.Reflects bs) :
    r.get? name = none ↔ name ∉ bs.map Prod.fst := by
  rw [h name, lookup_eq_none_iff_not_mem]

theorem Reflects.mem_names_iff (h : r.Reflects bs) : name ∈ r.names ↔ name ∈ bs.map Prod.fst :=
  r.functions.mem_keys_iff.trans h.get?_eq_none_iff.not_left

theorem Reflects.answersFor (h : r.Reflects bs) : r.AnswersFor bs where
  call_latest _ _ hf args := call_of_get?_eq_some (h.get?_eq_some_iff.mpr hf) args
  call_unbound _ hname args := call_of_get?_eq_none (h.get?_eq_none_iff.mpr hname) args
  replaced _ _ _ := h.get?_eq_some_iff
  replaced_isSome _ _ := Option.isSome_iff_ne_none.trans h.get?_eq_none_iff.not_left
  alias_latest _ _ _ hf := alias?_of_some (h.get?_eq_some_iff.mpr hf)
  alias_unbound _ _ hsource := alias?_of_none (h.get?_eq_none_iff.mpr hsource)
  names_ascending := r.functions.keys_ascending
  mem_names _ := h.mem_names_iff
  names_sorted names hnodup hnames := by
    apply r.functions.mergeSort_eq_keys hnodup
    intro name
    rw [hnames name, ← h.mem_names_iff]
    rfl

/-- After every history a registry answers for the bindings that were made, the built-in ones first
    if it started with them, and always for the latest of a name. An alias keeps the function that
    its source had when it was made, whatever is done to other names afterwards, its source among
    them. A change makes no difference to any name but its target. -/
theorem latest_binding_counts {start : Registry} {initial : List (String × Foreign)}
    (hstart : Start start initial) (history : List Change) :
    (start.after history).AnswersFor (bindings initial history) ∧
    (∀ name source f, IsLatest (bindings initial history) source f →
      ∀ later : List Change, (∀ c ∈ later, c.target ≠ name) → ∀ args,
        (start.after (history ++ .alias name source :: later)).call name args = f args) ∧
    ∀ (c : Change) (name : String), c.target ≠ name →
      ((start.after history).change c).get? name = (start.after history).get? name ∧
      ∀ args, ((start.after history).change c).call name args =
        (start.after history).call name args := by
  have hreflects := hstart.reflects.after history
  refine ⟨hreflects.answersFor, ?_, ?_⟩
  · intro name source f hf later hlater args
    apply call_of_get?_eq_some
    have hsource := hreflects.get?_eq_some_iff.mpr hf
    calc
      (start.after (history ++ .alias name source :: later)).get? name
        = (((start.after history).change (.alias name source)).after later).get? name := by
          rw [after_append]
          rfl
      _ = ((start.after history).change (.alias name source)).get? name :=
          get?_after_of_forall_ne hlater
      _ = some f := by rw [change_alias_of_some hsource, get?_register, if_pos rfl]
  · intro c name hc
    have hget := get?_change_of_ne (r := start.after history) hc
    exact ⟨hget, call_congr hget⟩

/-- `halt` is bound to the built-in `crash`, which is replaced afterwards; `print` never stands for
    anything. -/
def replacedBuiltins : List Change :=
  [.alias "halt" "crash", .register "crash" toText, .alias "print" "missing",
    .register "to_string" crash]

theorem latest_binding_counts_replacedBuiltins :
    Start .builtins builtinBindings ∧
    (builtins.after replacedBuiltins).call "halt" [.text "a"] = .error (.of (.crash "a")) ∧
    (builtins.after replacedBuiltins).call "crash" [] =
      .error (.of (.wrongArity "to_string" 1 0)) ∧
    (builtins.after replacedBuiltins).call "print" [] =
      .error (.of (.undefinedForeign "print")) ∧
    (builtins.after replacedBuiltins).names = ["crash", "halt", "to_string"] := by
  obtain ⟨hanswers, -, -⟩ := latest_binding_counts .builtins replacedBuiltins
  obtain ⟨-, hkept, -⟩ := latest_binding_counts .builtins []
  have hnames : ∀ name, name ∈ ["crash", "halt", "to_string"] ↔
      name ∈ (bindings builtinBindings replacedBuiltins).map Prod.fst := by
    intro name
    show name ∈ ["crash", "halt", "to_string"] ↔
      name ∈ ["to_string", "crash", "halt", "crash", "to_string"]
    simp only [List.mem_cons, List.not_mem_nil]
    tauto
  refine ⟨.builtins, ?_, ?_, ?_, ?_⟩
  · exact hkept "halt" "crash" crash ⟨[], _, rfl, nofun⟩ replacedBuiltins.tail (by decide) _
  · exact hanswers.call_latest "crash" toText ⟨[("to_string", crash)], _, rfl, by decide⟩ _
  · exact hanswers.call_unbound "print" (by decide) []
  · rw [← hanswers.names_sorted _ (by decide) hnames]
    exact List.mergeSort_of_pairwise (by decide)

end Registry

end Foreign

end TaggedEval
