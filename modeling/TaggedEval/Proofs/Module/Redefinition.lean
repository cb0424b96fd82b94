import Mathlib.Data.List.Forall2
import TaggedEval.Proofs.Module.Names
import TaggedEval.Proofs.Module.Settling

/-!
# Definitions in another order

What a module does depends on the last definition of each name and on nothing else. Two modules with
the same entries are `Alike`: a step that one of them takes is taken by the other as well, with the
same program, stack and host state afterwards (`Config.Alike.step`), so whatever comes up in a use
of one comes up at the same point of a use of the other (`Run.alike`).
-/

namespace TaggedEval

variable {σ α β : Type}

open Session

/-! ## The last definition of a name -/

/-- The definition is in the list, and none after it has its name. -/
def IsLast (definitions : List (Definition σ)) (d : Definition σ) : Prop :=
  ∃ before after, definitions = before ++ d :: after ∧ d.name ∉ after.map Definition.name

theorem find?_reverse_eq_some_iff {definitions : List (Definition σ)} {name : String}
    {d : Definition σ} :
    definitions.reverse.find? (fun d => d.name = name) = some d ↔
      d.name = name ∧ IsLast definitions d := by
  rw [List.find?_eq_some_iff_append, decide_eq_true_eq]
  apply and_congr_right
  rintro rfl
  -- What comes before `d` in the reversed list comes after it in the list.
  constructor
  · rintro ⟨after, before, hsplit, hafter⟩
    refine ⟨before.reverse, after.reverse, ?_, ?_⟩
    · simpa using congrArg List.reverse hsplit
    · simpa using hafter
  · rintro ⟨before, after, rfl, hafter⟩
    refine ⟨after.reverse, before.reverse, by simp, ?_⟩
    simpa using hafter

theorem exists_isLast {definitions : List (Definition σ)} {name : String}
    (h : name ∈ definitions.map Definition.name) : ∃ body, IsLast definitions ⟨name, body⟩ := by
  obtain ⟨d, hd⟩ : ∃ d, definitions.reverse.find? (fun d => d.name = name) = some d := by
    rw [← Option.isSome_iff_exists, List.find?_isSome]
    simpa using h
  obtain ⟨rfl, hlast⟩ := find?_reverse_eq_some_iff.mp hd
  exact ⟨d.body, hlast⟩

theorem IsLast.mem {definitions : List (Definition σ)} {d : Definition σ}
    (h : IsLast definitions d) : d.name ∈ definitions.map Definition.name := by
  obtain ⟨before, after, rfl, -⟩ := h
  simp

/-- The same names have the same last definitions. -/
theorem isLast_congr {definitions definitions' : List (Definition σ)}
    (hnames : ∀ n ∈ definitions.map Definition.name, n ∈ definitions'.map Definition.name)
    (hbodies : ∀ n body body', IsLast definitions ⟨n, body⟩ → IsLast definitions' ⟨n, body'⟩ →
      body = body') {d : Definition σ} (h : IsLast definitions d) : IsLast definitions' d := by
  obtain ⟨body, hlast⟩ := exists_isLast (hnames d.name h.mem)
  obtain rfl := hbodies d.name d.body body h hlast
  exact hlast

/-! ## Modules with the same entries -/

namespace Module

theorem entryAt_ofDefinitions_eq_waiting_iff (moduleName : String)
    {definitions : List (Definition σ)} {name : String} {body : Body σ} :
    (ofDefinitions moduleName definitions).entryAt name = some (.waiting body) ↔
      IsLast definitions ⟨name, body⟩ := by
  rw [entryAt_ofDefinitions, Option.map_eq_some_iff]
  constructor
  · rintro ⟨d, hd, heq⟩
    obtain ⟨rfl, hlast⟩ := find?_reverse_eq_some_iff.mp hd
    cases heq
    exact hlast
  · intro hlast
    exact ⟨_, find?_reverse_eq_some_iff.mpr ⟨rfl, hlast⟩, rfl⟩

/-- No name tells the two modules apart. -/
structure Alike (m m' : Module σ) : Prop where
  name_eq : m.name = m'.name
  entryAt_eq : ∀ name, m.entryAt name = m'.entryAt name

theorem alike_ofDefinitions (moduleName : String) {definitions definitions' : List (Definition σ)}
    (h : ∀ d, IsLast definitions d ↔ IsLast definitions' d) :
    (ofDefinitions moduleName definitions).Alike (ofDefinitions moduleName definitions') where
  name_eq := rfl
  entryAt_eq name := by
    have hsome : ∀ d, definitions.reverse.find? (fun d => d.name = name) = some d ↔
        definitions'.reverse.find? (fun d => d.name = name) = some d := by
      intro d
      rw [find?_reverse_eq_some_iff, find?_reverse_eq_some_iff, h d]
    rw [entryAt_ofDefinitions, entryAt_ofDefinitions, Option.ext hsome]

namespace Alike

variable {m m' : Module σ}

theorem setEntry (h : m.Alike m') (name : String) (entry : Entry σ) :
    (m.setEntry name entry).Alike (m'.setEntry name entry) where
  name_eq := h.name_eq
  entryAt_eq other := by rw [entryAt_setEntry, entryAt_setEntry, h.entryAt_eq other]

theorem isSettled_eq (h : m.Alike m') (name : String) : m.isSettled name = m'.isSettled name := by
  rw [isSettled, isSettled, h.entryAt_eq name]

theorem signature_eq (h : m.Alike m') : m.signature = m'.signature := by
  have hnames : m.signature.names = m'.signature.names :=
    names_eq_of_undefined_iff fun name => by rw [h.entryAt_eq name]
  have hsize : m.signature.size = m'.signature.size := by
    rw [← length_names, ← length_names, hnames]
  show (⟨m.name, m.signature.names, m.signature.size⟩ : Signature) =
    ⟨m'.name, m'.signature.names, m'.signature.size⟩
  rw [h.name_eq, hnames, hsize]

end Alike

end Module

/-! ## Uses of such modules -/

/-- The host state is the same, and no name tells the modules apart. -/
structure Session.Alike (s s' : Session σ) : Prop where
  module_alike : s.module.Alike s'.module
  host_eq : s.host = s'.host

theorem Session.Alike.setEntry {s s' : Session σ} (h : s.Alike s') (name : String)
    (entry : Entry σ) : (s.setEntry name entry).Alike (s'.setEntry name entry) :=
  ⟨h.module_alike.setEntry name entry, h.host_eq⟩

theorem Session.Alike.answer?_eq {s s' : Session σ} (h : s.Alike s') (name : String) :
    s.answer? name = s'.answer? name := by
  rw [answer?, answer?, h.module_alike.entryAt_eq name]

namespace Config

/-- The same program on the same stack, over sessions that are alike. -/
inductive Alike : Config σ α → Config σ α → Prop
  | intro {β : Type} (p : Program σ β) (stack : Stack σ α β) {s s' : Session σ}
      (h : s.Alike s') : Alike ⟨p, stack, s⟩ ⟨p, stack, s'⟩

theorem Alike.step {c d c' : Config σ α} (h : c.Alike d) (hstep : c.step = .inr c') :
    ∃ d', d.step = .inr d' ∧ c'.Alike d' := by
  obtain @⟨β, p, stack, s, s', hs⟩ := h
  cases p with
  | finish result =>
    cases stack with
    | caller => cases hstep
    | activation name body resume outer =>
      cases hstep
      exact ⟨_, rfl, .intro _ _ (hs.setEntry _ _)⟩
  | lookup name resume =>
    rcases s.answer_or_waiting name with ⟨o, hanswer⟩ | ⟨body, hwaiting⟩
    · rw [step_lookup_of_answer hanswer] at hstep
      cases hstep
      rw [hs.answer?_eq name] at hanswer
      exact ⟨_, step_lookup_of_answer hanswer resume stack, .intro _ _ hs⟩
    · rw [step_lookup_of_waiting hwaiting] at hstep
      cases hstep
      rw [hs.module_alike.entryAt_eq name] at hwaiting
      exact ⟨_, step_lookup_of_waiting hwaiting resume stack, .intro _ _ (hs.setEntry _ _)⟩
  | isSettled name resume =>
    cases hstep
    rw [hs.module_alike.isSettled_eq name]
    exact ⟨_, rfl, .intro _ _ hs⟩
  | signature resume =>
    cases hstep
    rw [hs.module_alike.signature_eq]
    exact ⟨_, rfl, .intro _ _ hs⟩
  | read resume =>
    cases hstep
    rw [hs.host_eq]
    exact ⟨_, rfl, .intro _ _ hs⟩
  | write host rest =>
    cases hstep
    exact ⟨_, rfl, .intro _ _ ⟨hs.module_alike, rfl⟩⟩

theorem Alike.steps {c d c' : Config σ α} (h : c.Alike d) (hsteps : Steps c c') :
    ∃ d', Steps d d' ∧ c'.Alike d' := by
  induction hsteps with
  | refl => exact ⟨d, .refl d, h⟩
  | tail _ hstep ih =>
    obtain ⟨d₁, hd₁, halike⟩ := ih
    obtain ⟨d₂, hd₂, halike'⟩ := halike.step hstep
    exact ⟨d₂, hd₁.trans (.head hd₂ (.refl d₂)), halike'⟩

theorem Alike.step_inl {c d : Config σ α} (h : c.Alike d) {r : α} {s : Session σ}
    (hend : c.step = .inl (r, s)) : ∃ s', d.step = .inl (r, s') ∧ s.Alike s' := by
  rw [eq_of_step_inl hend] at h
  obtain ⟨_, _, hs⟩ := h
  exact ⟨_, rfl, hs⟩

theorem Alike.answered?_eq {c d : Config σ α} (h : c.Alike d) : c.answered? = d.answered? := by
  obtain @⟨β, p, stack, s, s', hs⟩ := h
  cases p with
  | lookup name resume =>
    show (s.answer? name).map (fun o => (name, o)) = (s'.answer? name).map fun o => (name, o)
    rw [hs.answer?_eq name]
  | finish result => cases stack <;> rfl
  | isSettled name resume => rfl
  | signature resume => rfl
  | read resume => rfl
  | write host rest => rfl

end Config

/-- A program has the same result on both sessions, and leaves alike what it leaves behind. -/
theorem Session.Alike.run {s s' : Session σ} (h : s.Alike s') (p : Program σ α) :
    (s.run p).1 = (s'.run p).1 ∧ (s.run p).2.Alike (s'.run p).2 := by
  have hsteps := (evaluates_run s p).steps .caller
  obtain ⟨d, hd, halike⟩ := (Config.Alike.intro p .caller h).steps hsteps
  obtain ⟨_, _, hs⟩ := halike
  have hrun : s'.run p = _ := hd.run_eq.trans (Config.run_of_step_inl rfl)
  rw [hrun]
  exact ⟨rfl, hs⟩

/-- The same moment of two uses. -/
inductive Moment.Alike : Moment σ → Moment σ → Prop
  | intro {α : Type} {c d : Config σ α} (h : c.Alike d) : Alike ⟨c⟩ ⟨d⟩

/-- Two uses with the same programs stay alike from the first to the last moment. -/
theorem Run.alike {m m' : Module σ} (hm : m.Alike m') {past : List (Moment σ)} {c : Config σ α}
    (h : Run m past c) :
    ∃ past' d, Run m' past' d ∧ List.Forall₂ Moment.Alike past past' ∧ c.Alike d := by
  induction h with
  | first p host => exact ⟨[], _, .first p host, .nil, .intro p .caller ⟨hm, rfl⟩⟩
  | next _ hstep ih =>
    obtain ⟨past', d, hrun, hpast, halike⟩ := ih
    obtain ⟨d', hd', halike'⟩ := halike.step hstep
    exact ⟨_, d', hrun.next hd', .cons (.intro halike) hpast, halike'⟩
  | again _ hend p ih =>
    obtain ⟨past', d, hrun, hpast, halike⟩ := ih
    obtain ⟨s', hend', hs⟩ := halike.step_inl hend
    exact ⟨_, _, hrun.again hend' p, .cons (.intro halike) hpast, .intro p .caller hs⟩

/-- A body that runs is never one that was defined over. -/
theorem Config.Reachable.isLast_of_mem_activations {moduleName : String}
    {definitions : List (Definition σ)} {c : Config σ α}
    (h : Reachable (.ofDefinitions moduleName definitions) c) {a : String × Body σ}
    (ha : a ∈ c.stack.activations) : IsLast definitions ⟨a.1, a.2⟩ := by
  have hcoherent := h.coherent (Module.fresh_ofDefinitions moduleName definitions)
  exact (Module.entryAt_ofDefinitions_eq_waiting_iff moduleName).mp (hcoherent.active_body a ha)

/-- Take two lists that define the same names, such that the last definitions of each name have the
    same body. On the modules built from them every program, which may be any sequence of
    operations, has the same result and leaves sessions behind that are alike. Whatever comes up in
    a use of one module comes up at the same point of a use of the other, with the same programs,
    the same host state and the same outcome of each lookup. All the while the bodies on the stack
    are last definitions, and the names are those that are defined, in strictly ascending order of
    their bytes, from whatever order they are sorted, and as many as the module has entries; it is
    empty only if there are no definitions. -/
theorem last_definitions_decide (moduleName : String)
    {definitions definitions' : List (Definition σ)}
    (hnames : ∀ n, n ∈ definitions.map Definition.name ↔ n ∈ definitions'.map Definition.name)
    (hbodies : ∀ n body body', IsLast definitions ⟨n, body⟩ → IsLast definitions' ⟨n, body'⟩ →
      body = body') :
    (∀ (α : Type) (p : Program σ α) (host : σ), ∃ r s s',
      Session.run ⟨.ofDefinitions moduleName definitions, host⟩ p = (r, s) ∧
      Session.run ⟨.ofDefinitions moduleName definitions', host⟩ p = (r, s') ∧ s.Alike s') ∧
    ∀ (α : Type) (past : List (Moment σ)) (c : Config σ α),
      Run (.ofDefinitions moduleName definitions) past c →
      (∃ past' d, Run (.ofDefinitions moduleName definitions') past' d ∧
        List.Forall₂ Moment.Alike past past' ∧ c.Alike d ∧ c.answered? = d.answered?) ∧
      (∀ n body, (n, body) ∈ c.stack.activations → IsLast definitions ⟨n, body⟩) ∧
      (c.session.module.signature.names.Pairwise fun a b => Name.bytes a < Name.bytes b) ∧
      (∀ n, n ∈ c.session.module.signature.names ↔ n ∈ definitions.map Definition.name) ∧
      (∀ keys : List String, keys.Nodup →
        (∀ n, n ∈ keys ↔ n ∈ definitions.map Definition.name) →
        (keys.mergeSort fun a b => (Name.order a b).isLE) = c.session.module.signature.names) ∧
      c.session.module.signature.names.length = c.session.module.signature.size ∧
      (c.session.module.signature.isEmpty = true ↔ definitions = []) := by
  have halike : (Module.ofDefinitions moduleName definitions).Alike
      (.ofDefinitions moduleName definitions') := by
    apply Module.alike_ofDefinitions
    intro d
    constructor
    · exact isLast_congr (fun n => (hnames n).mp) hbodies
    · exact isLast_congr (fun n => (hnames n).mpr) fun n body body' h h' =>
        (hbodies n body' body h' h).symm
  constructor
  · intro α p host
    let s : Session σ := ⟨.ofDefinitions moduleName definitions, host⟩
    let s' : Session σ := ⟨.ofDefinitions moduleName definitions', host⟩
    have hs : s.Alike s' := ⟨halike, rfl⟩
    obtain ⟨hresult, hleft⟩ := hs.run p
    refine ⟨(s.run p).1, (s.run p).2, (s'.run p).2, rfl, ?_, hleft⟩
    rw [hresult]
  · intro α past c hrun
    have hreach := hrun.reachable
    obtain ⟨past', d, hrun', hpast, hd⟩ := hrun.alike halike
    refine ⟨⟨past', d, hrun', hpast, hd, hd.answered?_eq⟩,
      fun n body hmem => hreach.isLast_of_mem_activations hmem,
      c.session.module.names_ascending, hreach.mem_names_iff, ?_,
      c.session.module.length_names, hreach.isEmpty_iff⟩
    intro keys hnodup hkeys
    apply c.session.module.mergeSort_eq_names hnodup
    intro n
    rw [hkeys n, hreach.mem_names_iff n]

/-- The first definition of `x` fails and writes; the last one is a value. -/
def definedTwice : List (Definition Nat) :=
  [⟨"x", .write 9 <| .finish (.error (.of (.crash "early")))⟩, ⟨"y", .lookup "x" .finish⟩,
    .ofValue "x" .nil]

def definedOnce : List (Definition Nat) :=
  [.ofValue "x" .nil, ⟨"y", .lookup "x" .finish⟩]

/-- On both modules the lookup of `y` gives the value and leaves the host state as it was. -/
theorem last_definitions_decide_definedTwice :
    (∀ n, n ∈ definedTwice.map Definition.name ↔ n ∈ definedOnce.map Definition.name) ∧
    ∃ s s', (⟨.ofDefinitions "main" definedTwice, 0⟩ : Session Nat).valueOf "y" =
        (.ok .nil, s) ∧
      (⟨.ofDefinitions "main" definedOnce, 0⟩ : Session Nat).valueOf "y" = (.ok .nil, s') ∧
      s.host = 0 ∧ s.Alike s' := by
  have hnames : ∀ n, n ∈ definedTwice.map Definition.name ↔
      n ∈ definedOnce.map Definition.name := by
    intro n
    simp only [definedTwice, definedOnce, Definition.ofValue, List.map_cons, List.map_nil,
      List.mem_cons, List.not_mem_nil]
    tauto
  have hentry (n : String) : (Module.ofDefinitions "main" definedTwice).entryAt n =
      (Module.ofDefinitions "main" definedOnce).entryAt n := by
    rw [Module.entryAt_ofDefinitions, Module.entryAt_ofDefinitions]
    by_cases hx : "x" = n
    · simp [definedTwice, definedOnce, Definition.ofValue, ← hx]
    · simp [definedTwice, definedOnce, Definition.ofValue, List.find?_cons, hx]
  have hbodies : ∀ n body body', IsLast definedTwice ⟨n, body⟩ → IsLast definedOnce ⟨n, body'⟩ →
      body = body' := by
    intro n body body' h h'
    rw [← Module.entryAt_ofDefinitions_eq_waiting_iff "main"] at h h'
    rw [hentry n, h'] at h
    cases h
    rfl
  let s₀ : Session Nat := ⟨.ofDefinitions "main" definedOnce, 0⟩
  have hy : s₀.module.entryAt "y" = some (.waiting (.lookup "x" .finish)) := by
    simp [s₀, Module.entryAt_ofDefinitions, definedOnce, Definition.ofValue]
  have hx : (s₀.setEntry "y" .running).module.entryAt "x" =
      some (.waiting (.finish (.ok .nil))) := by
    simp [s₀, Module.entryAt_setEntry, Module.entryAt_ofDefinitions, definedOnce,
      Definition.ofValue]
  have hvalue := Evaluates.run_eq (.started hy (.started hx (.finish _ _) (.finish _ _))
    (.finish _ (noted "y" (noted "x" (.ok .nil)))))
  obtain ⟨r, s, s', hrun, hrun', halike⟩ :=
    (last_definitions_decide "main" hnames hbodies).1 _ (Program.valueOf "y").run 0
  cases hrun'.symm.trans hvalue
  exact ⟨hnames, s, _, hrun, hrun', halike.host_eq, halike⟩

end TaggedEval
