import TaggedEval.Module.Program
import TaggedEval.Name

/-!
# Modules

A module has one entry for each defined name. An entry starts as the body of the definition and
ends as its value; while the body runs it is neither. `idle` counts the entries whose body is not
running: starting a body makes it smaller, and settling an entry gives back at most what starting
took.
-/

namespace TaggedEval

variable {σ : Type}

/-- A name and the program that computes its value. -/
structure Definition (σ : Type) where
  name : String
  body : Body σ

def Definition.ofValue (name : String) (v : Value) : Definition σ :=
  ⟨name, .finish (.ok v)⟩

/-- How far the evaluation of a definition has come. -/
inductive Entry (σ : Type) where
  | waiting (body : Body σ)
  | running
  | settled (value : Value)

namespace Entry

def isRunning : Entry σ → Bool
  | running => true
  | _ => false

def isSettled : Entry σ → Bool
  | settled _ => true
  | _ => false

end Entry

/-- A named table of definitions. -/
structure Module (σ : Type) where
  name : String
  entries : NameMap (Entry σ)

namespace Module

/-- A module with these definitions. A name that is defined again has its last body. -/
def ofDefinitions (name : String) (definitions : List (Definition σ)) : Module σ :=
  ⟨name, definitions.foldl (fun entries d => entries.insert d.name (.waiting d.body)) ∅⟩

def signature (m : Module σ) : Signature :=
  ⟨m.name, m.entries.keys, m.entries.size⟩

def entryAt (m : Module σ) (name : String) : Option (Entry σ) :=
  m.entries[name]?

def setEntry (m : Module σ) (name : String) (entry : Entry σ) : Module σ :=
  { m with entries := m.entries.insert name entry }

/-- Whether the value of a name is known. -/
def isSettled (m : Module σ) (name : String) : Bool :=
  (m.entryAt name).any Entry.isSettled

/-- The number of names whose body is not running. -/
def idle (m : Module σ) : Nat :=
  m.entries.toList.countP fun e => !e.2.isRunning

theorem isSettled_eq_true_iff {m : Module σ} {name : String} :
    m.isSettled name = true ↔ ∃ v, m.entryAt name = some (.settled v) := by
  unfold isSettled
  cases m.entryAt name with
  | none => simp
  | some entry => cases entry <;> simp [Entry.isSettled]

/-! ## Changing one entry -/

theorem entryAt_setEntry (m : Module σ) (name other : String) (entry : Entry σ) :
    (m.setEntry name entry).entryAt other =
      if name = other then some entry else m.entryAt other :=
  m.entries.getElem?_insert name other entry

@[simp] theorem entryAt_setEntry_self (m : Module σ) (name : String) (entry : Entry σ) :
    (m.setEntry name entry).entryAt name = some entry := by
  simp [entryAt_setEntry]

theorem entryAt_setEntry_of_ne (m : Module σ) {name other : String} (h : name ≠ other)
    (entry : Entry σ) : (m.setEntry name entry).entryAt other = m.entryAt other := by
  simp [entryAt_setEntry, h]

def others (m : Module σ) (name : String) : List (String × Entry σ) :=
  m.entries.toList.filter fun e => !decide (name = e.1)

theorem idle_setEntry (m : Module σ) (name : String) (entry : Entry σ) :
    (m.setEntry name entry).idle =
      (m.others name).countP (fun e => !e.2.isRunning) + if entry.isRunning then 0 else 1 := by
  rw [idle, setEntry, Std.TreeMap.toList_insert_perm.countP_eq, List.countP_cons]
  cases entry.isRunning <;> simp [others]

theorem idle_setEntry_le (m : Module σ) (name : String) (entry : Entry σ) :
    (m.setEntry name entry).idle ≤ m.idle + 1 := by
  have hothers : (m.others name).countP (fun e => !e.2.isRunning) ≤ m.idle :=
    List.filter_sublist.countP_le
  rw [idle_setEntry]
  split <;> omega

/-- Starting the body of a name leaves fewer names to start. -/
theorem idle_setEntry_running_lt (m : Module σ) {name : String} {body : Body σ}
    (h : m.entryAt name = some (.waiting body)) : (m.setEntry name .running).idle < m.idle := by
  have hmem : (name, Entry.waiting body) ∈ m.entries.toList :=
    Std.TreeMap.mem_toList_iff_getElem?_eq_some.mpr h
  -- The entry of `name` itself is the one that is lost from the count.
  have hpos : 0 < (m.entries.toList.filter fun e => !!decide (name = e.1)).countP
      fun e => !e.2.isRunning :=
    List.countP_pos_iff.mpr ⟨_, List.mem_filter.mpr ⟨hmem, by simp⟩, rfl⟩
  rw [idle_setEntry, idle,
    List.countP_eq_countP_filter_add m.entries.toList _ fun e => !decide (name = e.1)]
  exact Nat.lt_add_of_pos_right hpos

end Module

end TaggedEval
