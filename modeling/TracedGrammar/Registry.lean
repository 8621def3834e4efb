import TracedGrammar.Diagnostic

/-!
# Rule registries

A registry binds names in two phases: every name is declared first, then each gets its definition,
once. Since rules mention each other by name only, the order of definition does not matter. Names
keep the order of their declaration.
-/

namespace TracedGrammar

/-- Declared names in order, each with its definition as soon as it has one. -/
structure Registry (α : Type) where
  slots : List (String × Option α) := []

namespace Registry

/-- What can be wrong with a use of a registry. -/
inductive Misuse where
  | declaredTwice (name : String)
  | definedUndeclared (name : String)
  | definedTwice (name : String)
deriving DecidableEq

/-- The report of a misuse. -/
def Misuse.diagnostic : Misuse → Diagnostic
  | declaredTwice name => { kind := .grammar, message := s!"duplicate rule '{name}'" }
  | definedUndeclared name =>
      { kind := .internal, message := s!"rule '{name}' defined before being declared" }
  | definedTwice name => { kind := .grammar, message := s!"rule '{name}' is defined twice" }

/-- The registry without names. -/
def empty : Registry α := {}

/-- The declared names in order. -/
def names (registry : Registry α) : List String :=
  registry.slots.map (·.1)

theorem lookup_eq_none_iff {registry : Registry α} {name : String} :
    registry.slots.lookup name = none ↔ name ∉ registry.names := by
  rw [List.lookup_eq_none_iff, names, List.mem_map]
  constructor
  · rintro apart ⟨slot, among, rfl⟩
    exact absurd rfl (bne_iff_ne.mp (apart slot among))
  · exact fun new slot among => bne_iff_ne.mpr fun same => new ⟨slot, among, same.symm⟩

/-- The number of declared names. -/
def size (registry : Registry α) : Nat :=
  registry.slots.length

/-- Whether no name is declared. -/
def isEmpty (registry : Registry α) : Bool :=
  registry.slots.isEmpty

/-- Whether a name is declared. -/
def isDeclared (registry : Registry α) (name : String) : Bool :=
  (registry.slots.lookup name).isSome

/-- Whether every declared name has its definition. -/
def isComplete (registry : Registry α) : Bool :=
  registry.slots.all (·.2.isSome)

/-- The definition of a name. -/
def resolve? (registry : Registry α) (name : String) : Option α :=
  (registry.slots.lookup name).join

/-- The registry with one more name declared. -/
def declare (registry : Registry α) (name : String) : Except Misuse (Registry α) :=
  if registry.isDeclared name then .error (.declaredTwice name)
  else .ok ⟨registry.slots ++ [(name, none)]⟩

/-- The slots with a definition filled in. -/
def fill (name : String) (definition : α) :
    List (String × Option α) → List (String × Option α)
  | [] => []
  | slot :: slots =>
      if slot.1 = name then (slot.1, some definition) :: slots
      else slot :: fill name definition slots

/-- The registry with the definition of a declared name. -/
def define (registry : Registry α) (name : String) (definition : α) :
    Except Misuse (Registry α) :=
  match registry.slots.lookup name with
  | none => .error (.definedUndeclared name)
  | some (some _) => .error (.definedTwice name)
  | some none => .ok ⟨fill name definition registry.slots⟩

/-- The registry of a list of definitions: all names are declared before the first definition. -/
def ofList (definitions : List (String × α)) : Except Misuse (Registry α) := do
  let declared ← definitions.foldlM (fun registry definition => registry.declare definition.1) empty
  definitions.foldlM (fun registry definition => registry.define definition.1 definition.2) declared

end Registry

end TracedGrammar
