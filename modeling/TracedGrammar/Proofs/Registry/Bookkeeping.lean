import Mathlib
import TracedGrammar.Context
import TracedGrammar.Registry

/-!
# The books of a registry

A registry is used by calls that declare, define and resolve names, in any order, and it refuses
those that do not fit what was done before. What it knows after a list of calls can be read off the
list: the names are those of the successful declarations, and a name means what its only successful
definition says. `Remembers` says so, and one call keeps it (`Remembers.perform`).

The same calls can be served from two stores, a map of cells and a list of names, which are updated
one by one (`Stores`). They never come apart: `Agrees` is kept by every call, and both answer alike
(`Agrees.perform`).

The theorem to read first is `bookkeeping_of_calls`.
-/

namespace TracedGrammar.Registry

/-- A use of a registry. -/
inductive Call (α : Type) where
  | declare (name : String)
  | define (name : String) (definition : α)
  | resolve (name : String)

/-- What a call comes to: a definition if one was asked for, or the report why it is refused. -/
abbrev Answer (α : Type) :=
  Except Diagnostic (Option α)

section

variable {α σ : Type}

/-- The name that a call declares. -/
def Call.declared? : Call α → Option String
  | declare name => some name
  | define _ _ | resolve _ => none

/-- The definition that a call gives to a name. -/
def Call.definition? (name : String) : Call α → Option α
  | define other definition => if other = name then some definition else none
  | declare _ | resolve _ => none

/-- The answer to a call, and the registry after it. -/
def perform (registry : Registry α) : Call α → Answer α × Registry α
  | .declare name =>
      match registry.declare name with
      | .ok after => (.ok none, after)
      | .error misuse => (.error misuse.diagnostic, registry)
  | .define name definition =>
      match registry.define name definition with
      | .ok after => (.ok none, after)
      | .error misuse => (.error misuse.diagnostic, registry)
  | .resolve name =>
      match registry.resolve? name with
      | some definition => (.ok (some definition), registry)
      | none => (.error (Fault.unresolved name).diagnostic, registry)

/-- A registry refuses a call. -/
def Refuses (registry : Registry α) (call : Call α) : Prop :=
  ∃ report, (registry.perform call).1 = .error report

/-- The state after some calls, for any way to perform one. -/
def afterAll (perform : σ → Call α → Answer α × σ) (state : σ) (calls : List (Call α)) : σ :=
  calls.foldl (fun state call => (perform state call).2) state

/-- The answers to some calls, for any way to perform one. -/
def answers (perform : σ → Call α → Answer α × σ) (state : σ) : List (Call α) → List (Answer α)
  | [] => []
  | call :: calls => (perform state call).1 :: answers perform (perform state call).2 calls

/-- A call by itself if its answer is no refusal. -/
def Call.ifAnswered (call : Call α) : Answer α → List (Call α)
  | .ok _ => [call]
  | .error _ => []

/-- The calls among some that a registry does not refuse. -/
def successes (registry : Registry α) : List (Call α) → List (Call α)
  | [] => []
  | call :: calls =>
      call.ifAnswered (registry.perform call).1 ++ successes (registry.perform call).2 calls

/-- A registry whose definitions and whose order of names are stored apart from each other. A cell
is empty until its name is defined. -/
structure Stores (α : Type) where
  cells : Std.HashMap String (Option α) := ∅
  order : Array String := #[]

namespace Stores

/-- The answer to a call, and the stores after it. -/
def perform (stores : Stores α) : Call α → Answer α × Stores α
  | .declare name =>
      if stores.cells.contains name then (.error (Misuse.declaredTwice name).diagnostic, stores)
      else
        (.ok none, { cells := stores.cells.insert name none, order := stores.order.push name })
  | .define name definition =>
      match stores.cells[name]? with
      | none => (.error (Misuse.definedUndeclared name).diagnostic, stores)
      | some (some _) => (.error (Misuse.definedTwice name).diagnostic, stores)
      | some none =>
          (.ok none, { stores with cells := stores.cells.insert name (some definition) })
  | .resolve name =>
      match stores.cells[name]?.join with
      | some definition => (.ok (some definition), stores)
      | none => (.error (Fault.unresolved name).diagnostic, stores)

/-- Whether no cell is empty. -/
def isComplete (stores : Stores α) : Bool :=
  stores.cells.all fun _ cell => cell.isSome

end Stores

/-- Two stores look like a registry. -/
structure Stores.LooksLike (stores : Stores α) (registry : Registry α) : Prop where
  names_eq : stores.order.toList = registry.names
  size_eq : stores.order.size = registry.size
  declared_eq : ∀ name, stores.cells.contains name = registry.isDeclared name
  resolve_eq : ∀ name, stores.cells[name]?.join = registry.resolve? name
  complete_eq : stores.isComplete = registry.isComplete

end

section

variable {α : Type} {registry : Registry α} {slots : List (String × Option α)} {name other : String}
  {definition : α} {cell : Option α} {call : Call α} {calls succeeded : List (Call α)}
  {stores : Stores α}

theorem isDeclared_iff : registry.isDeclared name = true ↔ name ∈ registry.names := by
  rw [isDeclared, ← not_iff_not, Bool.not_eq_true, Option.isSome_eq_false_iff,
    Option.isNone_iff_eq_none, lookup_eq_none_iff]

/-- With distinct names a name finds the slot that it has. -/
theorem lookup_eq_some_iff (distinct : (slots.map (·.1)).Nodup) :
    slots.lookup name = some cell ↔ (name, cell) ∈ slots := by
  constructor
  · intro found
    obtain ⟨front, back, rfl, -⟩ := List.lookup_eq_some_iff.mp found
    simp
  · intro among
    obtain ⟨front, back, rfl⟩ := List.append_of_mem among
    refine List.lookup_eq_some_iff.mpr ⟨front, back, rfl, fun slot before => bne_iff_ne.mpr ?_⟩
    rintro rfl
    rw [List.map_append, List.map_cons, List.nodup_append] at distinct
    exact distinct.2.2 slot.1 (List.mem_map_of_mem before) slot.1 List.mem_cons_self rfl

theorem names_concat : (⟨slots ++ [(name, cell)]⟩ : Registry α).names =
    (⟨slots⟩ : Registry α).names ++ [name] :=
  List.map_append

/-- A name that is declared has no definition yet. -/
theorem lookup_concat (new : name ∉ (⟨slots⟩ : Registry α).names) :
    (slots ++ [(name, none)]).lookup other =
      if other = name then some none else slots.lookup other := by
  rw [List.lookup_append]
  split
  · next same =>
      subst same
      rw [lookup_eq_none_iff.mpr new, List.lookup_cons_self, Option.none_or]
  · next apart =>
      rw [List.lookup_cons, beq_false_of_ne apart, List.lookup_nil, Option.or_none]

theorem names_fill : (fill name definition slots).map (·.1) = slots.map (·.1) := by
  induction slots with
  | nil => rfl
  | cons slot slots ih =>
      rw [fill]
      split
      · rfl
      · rw [List.map_cons, List.map_cons, ih]

/-- Filling in the definition of a name changes what this name finds. -/
theorem lookup_fill (declared : slots.lookup name = some cell) :
    (fill name definition slots).lookup other =
      if other = name then some (some definition) else slots.lookup other := by
  induction slots with
  | nil => cases declared
  | cons slot slots ih =>
      obtain ⟨first, filled⟩ := slot
      by_cases same : first = name
      · subst same
        rw [fill, if_pos rfl, List.lookup_cons, List.lookup_cons]
        by_cases here : other = first
        · simp [here]
        · rw [beq_false_of_ne here, if_neg here]
      · have later : slots.lookup name = some cell := by
          rwa [List.lookup_cons, beq_false_of_ne (Ne.symm same)] at declared
        rw [fill, if_neg same, List.lookup_cons, List.lookup_cons, ih later]
        by_cases here : other = first
        · subst here
          simp [same]
        · rw [beq_false_of_ne here]

/-- A declaration is refused exactly if the name is declared. -/
theorem perform_declare : registry.perform (.declare name) =
    if name ∈ registry.names then (.error (Misuse.declaredTwice name).diagnostic, registry)
    else (.ok none, ⟨registry.slots ++ [(name, none)]⟩) := by
  simp only [perform, declare]
  by_cases declared : name ∈ registry.names
  · rw [if_pos declared, if_pos (isDeclared_iff.mpr declared)]
  · rw [if_neg declared, if_neg (mt isDeclared_iff.mp declared)]

/-- A definition is refused exactly if the name is not declared, or is defined. -/
theorem perform_define : registry.perform (.define name definition) =
    match registry.slots.lookup name with
    | none => (.error (Misuse.definedUndeclared name).diagnostic, registry)
    | some (some _) => (.error (Misuse.definedTwice name).diagnostic, registry)
    | some none => (.ok none, ⟨fill name definition registry.slots⟩) := by
  simp only [perform, define]
  cases registry.slots.lookup name with
  | none => rfl
  | some cell => cases cell <;> rfl

/-- A call to resolve a name changes nothing. -/
theorem perform_resolve : registry.perform (.resolve name) =
    ((match registry.resolve? name with
      | some definition => .ok (some definition)
      | none => .error (Fault.unresolved name).diagnostic), registry) := by
  simp only [perform]
  split <;> rfl

/-- A refused call changes nothing. -/
theorem perform_of_refused (refused : registry.Refuses call) :
    (registry.perform call).2 = registry := by
  obtain ⟨report, answer⟩ := refused
  cases call with
  | declare name =>
      rw [perform_declare] at answer ⊢
      split at answer
      · next declared => rw [if_pos declared]
      · cases answer
  | define name definition =>
      rw [perform_define] at answer ⊢
      split at answer
      · rfl
      · rfl
      · cases answer
  | resolve name => rw [perform_resolve]

theorem refuses_declare_iff : registry.Refuses (.declare name) ↔ name ∈ registry.names := by
  rw [Refuses, perform_declare]
  split
  · next declared => exact ⟨fun _ => declared, fun _ => ⟨_, rfl⟩⟩
  · next new => exact ⟨fun ⟨_, answer⟩ => (nomatch answer), fun declared => absurd declared new⟩

theorem refuses_define_iff : registry.Refuses (.define name definition) ↔
    name ∉ registry.names ∨ ∃ earlier, registry.resolve? name = some earlier := by
  rw [Refuses, perform_define, resolve?, ← lookup_eq_none_iff]
  cases registry.slots.lookup name with
  | none => simp
  | some cell => cases cell <;> simp

theorem refuses_resolve_iff : registry.Refuses (.resolve name) ↔ registry.resolve? name = none := by
  rw [Refuses, perform_resolve]
  cases registry.resolve? name <;> simp

/-! ## What a registry remembers -/

/-- A registry knows what some calls did to it that began with an empty one, of which some
succeeded. -/
structure Remembers (registry : Registry α) (calls succeeded : List (Call α)) : Prop where
  distinct : registry.names.Nodup
  declared_eq : registry.names = (calls.filterMap Call.declared?).eraseDups
  names_eq : registry.names = succeeded.filterMap Call.declared?
  resolve_eq : ∀ name,
    registry.resolve? name = (succeeded.filterMap (Call.definition? name)).head?

theorem Remembers.start : (empty : Registry α).Remembers [] [] :=
  ⟨.nil, rfl, rfl, fun _ => rfl⟩

/-- The distinct names in a list with one more name. -/
theorem eraseDups_concat (names : List String) (name : String) :
    (names ++ [name]).eraseDups =
      if name ∈ names then names.eraseDups else names.eraseDups ++ [name] := by
  rw [List.eraseDups_append]
  by_cases among : name ∈ names <;> simp [List.removeAll, among, List.eraseDups_cons]

theorem Remembers.of_refused (h : registry.Remembers calls succeeded)
    (refused : registry.Refuses call) : registry.Remembers (calls ++ [call]) succeeded := by
  refine ⟨h.distinct, h.declared_eq.trans ?_, h.names_eq, h.resolve_eq⟩
  rw [List.filterMap_append]
  cases call with
  | declare name =>
      have among := refuses_declare_iff.mp refused
      rw [h.declared_eq, List.mem_eraseDups] at among
      exact ((eraseDups_concat _ name).trans (if_pos among)).symm
  | define | resolve => simp [List.filterMap_cons, Call.declared?]

theorem Remembers.of_declared (h : registry.Remembers calls succeeded)
    (new : name ∉ registry.names) :
    (⟨registry.slots ++ [(name, none)]⟩ : Registry α).Remembers (calls ++ [.declare name])
      (succeeded ++ [.declare name]) := by
  have unlisted : name ∉ calls.filterMap Call.declared? := by
    rwa [h.declared_eq, List.mem_eraseDups] at new
  constructor
  · rw [names_concat, ← List.concat_eq_append]
    exact h.distinct.concat new
  · rw [names_concat, List.filterMap_append]
    refine Eq.trans ?_ ((eraseDups_concat _ name).trans (if_neg unlisted)).symm
    exact congrArg (· ++ [name]) h.declared_eq
  · rw [names_concat, List.filterMap_append]
    exact congrArg (· ++ [name]) h.names_eq
  · intro other
    have known := h.resolve_eq other
    rw [List.filterMap_append, List.filterMap_cons_none rfl, List.filterMap_nil, List.append_nil,
      ← known, resolve?, resolve?, lookup_concat new]
    split
    · next same =>
        rw [same, lookup_eq_none_iff.mpr new]
        rfl
    · rfl

theorem Remembers.of_defined (h : registry.Remembers calls succeeded)
    (found : registry.slots.lookup name = some none) :
    (⟨fill name definition registry.slots⟩ : Registry α).Remembers
      (calls ++ [.define name definition]) (succeeded ++ [.define name definition]) := by
  have names_eq : (⟨fill name definition registry.slots⟩ : Registry α).names = registry.names :=
    names_fill
  constructor
  · rw [names_eq]
    exact h.distinct
  · rw [names_eq, List.filterMap_append]
    exact h.declared_eq.trans (by simp [List.filterMap_cons, Call.declared?])
  · rw [names_eq, List.filterMap_append]
    exact h.names_eq.trans (by simp [List.filterMap_cons, Call.declared?])
  · intro other
    have known := h.resolve_eq other
    rw [resolve?] at known ⊢
    rw [lookup_fill found, List.filterMap_append]
    by_cases same : other = name
    · subst same
      rw [found] at known
      -- the slot is empty, so no definition of the name has succeeded yet
      have nothing : succeeded.filterMap (Call.definition? other) = [] :=
        List.head?_eq_none_iff.mp known.symm
      simp [nothing, Call.definition?]
    · rw [if_neg same, known]
      simp [Call.definition?, Ne.symm same]

/-- What a registry remembers after one call more. -/
theorem Remembers.perform (h : registry.Remembers calls succeeded) (call : Call α) :
    (registry.perform call).2.Remembers (calls ++ [call])
      (succeeded ++ call.ifAnswered (registry.perform call).1) := by
  by_cases refused : registry.Refuses call
  · rw [perform_of_refused refused]
    obtain ⟨report, answer⟩ := refused
    rw [answer, Call.ifAnswered, List.append_nil]
    exact h.of_refused ⟨report, answer⟩
  · cases call with
    | declare name =>
        have new := mt refuses_declare_iff.mpr refused
        rw [perform_declare, if_neg new]
        exact h.of_declared new
    | define name definition =>
        rw [refuses_define_iff, not_or, not_not, not_exists] at refused
        obtain ⟨declared, undefined⟩ := refused
        obtain ⟨cell, found⟩ : ∃ cell, registry.slots.lookup name = some cell :=
          Option.ne_none_iff_exists'.mp fun missing => lookup_eq_none_iff.mp missing declared
        obtain rfl : cell = none := by
          refine Option.eq_none_iff_forall_ne_some.mpr fun earlier filled => undefined earlier ?_
          rw [resolve?, found, filled]
          rfl
        rw [perform_define, found]
        exact h.of_defined found
    | resolve name =>
        rw [perform_resolve]
        refine ⟨h.distinct, ?_, ?_, fun other => ?_⟩
        · exact h.declared_eq.trans (by simp [List.filterMap_cons, Call.declared?])
        · exact h.names_eq.trans (by split <;>
            simp [List.filterMap_cons, Call.declared?, Call.ifAnswered])
        · exact (h.resolve_eq other).trans (by split <;>
            simp [List.filterMap_cons, Call.definition?, Call.ifAnswered])

/-- What a registry remembers after some calls more. -/
theorem Remembers.after (h : registry.Remembers calls succeeded) (more : List (Call α)) :
    (afterAll Registry.perform registry more).Remembers (calls ++ more)
      (succeeded ++ registry.successes more) := by
  induction more generalizing registry calls succeeded with
  | nil => simpa [afterAll, successes] using h
  | cons call more ih =>
      have rest := ih (h.perform call)
      rw [List.append_assoc, List.append_assoc, List.singleton_append] at rest
      exact rest

theorem Remembers.declare_iff (h : registry.Remembers calls succeeded) :
    .declare name ∈ succeeded ↔ name ∈ registry.names := by
  rw [h.names_eq, List.mem_filterMap]
  constructor
  · exact fun among => ⟨_, among, rfl⟩
  · rintro ⟨call, among, declares⟩
    cases call <;> cases declares
    exact among

theorem Remembers.define_iff (h : registry.Remembers calls succeeded) :
    (∃ definition, .define name definition ∈ succeeded) ↔
      ∃ definition, registry.resolve? name = some definition := by
  rw [← Option.ne_none_iff_exists', h.resolve_eq, Ne, List.head?_eq_none_iff,
    List.eq_nil_iff_forall_not_mem, not_forall]
  simp only [not_not, List.mem_filterMap]
  refine exists_congr fun definition => ⟨fun among => ⟨_, among, if_pos rfl⟩, ?_⟩
  rintro ⟨call, among, defines⟩
  cases call with
  | define other definition =>
      rw [Call.definition?, Option.ite_none_right_eq_some] at defines
      obtain ⟨rfl, same⟩ := defines
      cases same
      exact among
  | declare | resolve => cases defines

/-- A definition stays what it is. -/
theorem resolve_perform (found : registry.resolve? name = some definition) (call : Call α) :
    (registry.perform call).2.resolve? name = some definition := by
  by_cases refused : registry.Refuses call
  · rw [perform_of_refused refused, found]
  · cases call with
    | declare new =>
        rw [refuses_declare_iff] at refused
        have apart : name ≠ new := by
          rintro rfl
          rw [resolve?, lookup_eq_none_iff.mpr refused] at found
          cases found
        rw [perform_declare, if_neg refused, resolve?, lookup_concat refused, if_neg apart]
        exact found
    | define other added =>
        rw [perform_define]
        split
        · exact found
        · exact found
        · next empty =>
            have apart : name ≠ other := by
              rintro rfl
              rw [resolve?, empty] at found
              cases found
            rw [resolve?, lookup_fill empty, if_neg apart]
            exact found
    | resolve other => rwa [perform_resolve]

theorem resolve_after (found : registry.resolve? name = some definition) (more : List (Call α)) :
    (afterAll perform registry more).resolve? name = some definition := by
  induction more generalizing registry with
  | nil => exact found
  | cons call more ih => exact ih (resolve_perform found call)

/-- With distinct names a registry is complete if no name finds an empty slot. -/
theorem isComplete_iff (distinct : registry.names.Nodup) :
    registry.isComplete = true ↔
      ∀ name cell, registry.slots.lookup name = some cell → cell.isSome = true := by
  rw [isComplete, List.all_eq_true]
  constructor
  · exact fun all name cell found => all (name, cell) ((lookup_eq_some_iff distinct).mp found)
  · exact fun all slot among => all slot.1 slot.2 ((lookup_eq_some_iff distinct).mpr among)

theorem isComplete_iff_resolve (distinct : registry.names.Nodup) :
    registry.isComplete = true ↔
      ∀ name ∈ registry.names, ∃ definition, registry.resolve? name = some definition := by
  rw [isComplete_iff distinct]
  refine forall_congr' fun name => ?_
  rw [← not_not (a := name ∈ registry.names), ← lookup_eq_none_iff, resolve?]
  cases registry.slots.lookup name with
  | none => simp
  | some cell => cases cell <;> simp

/-! ## Two stores -/

/-- Two stores hold what a registry holds. -/
structure Stores.Agrees (stores : Stores α) (registry : Registry α) : Prop where
  order_eq : stores.order.toList = registry.names
  cells_eq : ∀ name, stores.cells[name]? = registry.slots.lookup name

namespace Stores.Agrees

theorem contains_iff (h : stores.Agrees registry) :
    stores.cells.contains name = true ↔ name ∈ registry.names := by
  rw [Std.HashMap.contains_eq_isSome_getElem?, h.cells_eq]
  exact isDeclared_iff

/-- A call that two stores serve has the answer that a registry gives, and they keep agreeing. -/
theorem perform (h : stores.Agrees registry) (call : Call α) :
    (stores.perform call).1 = (registry.perform call).1 ∧
      (stores.perform call).2.Agrees (registry.perform call).2 := by
  cases call with
  | declare name =>
      rw [Stores.perform, perform_declare]
      by_cases declared : name ∈ registry.names
      · rw [if_pos declared, if_pos (h.contains_iff.mpr declared)]
        exact ⟨rfl, h⟩
      · rw [if_neg declared, if_neg (mt h.contains_iff.mp declared)]
        refine ⟨rfl, ?_, fun other => ?_⟩
        · rw [names_concat, Array.toList_push]
          exact congrArg (· ++ [name]) h.order_eq
        · rw [Std.HashMap.getElem?_insert, lookup_concat declared, h.cells_eq]
          simp only [beq_iff_eq, eq_comm (a := name)]
  | define name definition =>
      rw [Stores.perform, perform_define, h.cells_eq]
      cases found : registry.slots.lookup name with
      | none => exact ⟨rfl, h⟩
      | some cell =>
          cases cell with
          | some earlier => exact ⟨rfl, h⟩
          | none =>
              refine ⟨rfl, h.order_eq.trans names_fill.symm, fun other => ?_⟩
              rw [Std.HashMap.getElem?_insert, lookup_fill found, h.cells_eq]
              simp only [beq_iff_eq, eq_comm (a := name)]
  | resolve name =>
      rw [Stores.perform, perform_resolve, h.cells_eq, ← resolve?]
      cases registry.resolve? name <;> exact ⟨rfl, h⟩

theorem after (h : stores.Agrees registry) (calls : List (Call α)) :
    answers Stores.perform stores calls = answers Registry.perform registry calls ∧
      (afterAll Stores.perform stores calls).Agrees
        (afterAll Registry.perform registry calls) := by
  induction calls generalizing stores registry with
  | nil => exact ⟨rfl, h⟩
  | cons call calls ih =>
      obtain ⟨answer_eq, next⟩ := h.perform call
      obtain ⟨rest_eq, rest⟩ := ih next
      exact ⟨by rw [answers, answers, answer_eq, rest_eq], rest⟩

theorem looksLike (h : stores.Agrees registry) (distinct : registry.names.Nodup) :
    stores.LooksLike registry where
  names_eq := h.order_eq
  size_eq := by
    rw [← Array.length_toList, h.order_eq, names, List.length_map]
    rfl
  declared_eq name := by
    rw [Std.HashMap.contains_eq_isSome_getElem?, h.cells_eq]
    rfl
  resolve_eq name := congrArg Option.join (h.cells_eq name)
  complete_eq := by
    rw [Bool.eq_iff_iff, isComplete_iff distinct, Stores.isComplete,
      Std.HashMap.all_eq_true_iff_forall_mem_getElem]
    constructor
    · intro all name cell found
      rw [← h.cells_eq] at found
      obtain ⟨among, rfl⟩ := Std.HashMap.getElem?_eq_some_iff.mp found
      exact all name among
    · intro all name among
      exact all name _ ((h.cells_eq name).symm.trans (Std.HashMap.getElem?_eq_some_getElem among))

end Stores.Agrees

/-- The books of a registry are right after any calls that begin with an empty one. The names are
the distinct names that were to be declared, in the order of their first declaration, which are the
names of the declarations that succeeded; their number is the size. A declaration is refused exactly
if the name has been declared, and a definition exactly if the name has not been declared or has
been defined. A refused call makes no difference to anything after it. A name means what its first
successful definition says, for good once it does. The registry is complete exactly if all names
mean something. And all that can be seen of it, the answers included, is the same if the definitions
and the order of the names are kept in two stores. -/
theorem bookkeeping_of_calls (calls : List (Call α)) :
    let registry := afterAll perform (empty : Registry α) calls
    let succeeded := (empty : Registry α).successes calls
    (registry.names = (calls.filterMap Call.declared?).eraseDups ∧
      registry.names = succeeded.filterMap Call.declared? ∧
      registry.names.Nodup ∧ registry.size = registry.names.length) ∧
    (∀ name, registry.Refuses (.declare name) ↔ .declare name ∈ succeeded) ∧
    (∀ name definition, registry.Refuses (.define name definition) ↔
      .declare name ∉ succeeded ∨ ∃ earlier, .define name earlier ∈ succeeded) ∧
    (∀ call more, registry.Refuses call →
      afterAll perform registry (call :: more) = afterAll perform registry more ∧
        ∃ report, answers perform registry (call :: more) =
          .error report :: answers perform registry more) ∧
    (∀ name, registry.resolve? name = (succeeded.filterMap (Call.definition? name)).head? ∧
      (registry.Refuses (.resolve name) ↔ registry.resolve? name = none)) ∧
    (∀ name definition more, registry.resolve? name = some definition →
      (afterAll perform registry more).resolve? name = some definition) ∧
    (registry.isComplete = true ↔
      ∀ name ∈ registry.names, ∃ definition, registry.resolve? name = some definition) ∧
    answers Stores.perform {} calls = answers perform (empty : Registry α) calls ∧
    (afterAll Stores.perform {} calls).LooksLike registry := by
  intro registry succeeded
  have known : registry.Remembers calls succeeded := Remembers.start.after calls
  have agreed : ({} : Stores α).Agrees empty := ⟨rfl, fun name => by simp [empty]⟩
  obtain ⟨answers_eq, agrees⟩ := agreed.after calls
  refine ⟨⟨known.declared_eq, known.names_eq, known.distinct, ?_⟩, fun name => ?_,
    fun name definition => ?_, fun call more refused => ?_,
    fun name => ⟨known.resolve_eq name, refuses_resolve_iff⟩,
    fun name definition more found => resolve_after found more,
    isComplete_iff_resolve known.distinct, answers_eq, agrees.looksLike known.distinct⟩
  · exact (List.length_map _).symm
  · rw [refuses_declare_iff, known.declare_iff]
  · rw [refuses_define_iff, known.declare_iff, known.define_iff]
  · have same := perform_of_refused refused
    obtain ⟨report, answer⟩ := refused
    refine ⟨?_, report, ?_⟩
    · rw [afterAll, List.foldl_cons, same]
      rfl
    · rw [answers, same, answer]

end

end TracedGrammar.Registry
