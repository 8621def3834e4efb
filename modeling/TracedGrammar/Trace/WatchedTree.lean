import TracedGrammar.Trace.NodeTree

/-!
# Watched display trees

A display tree tells its observers what changes. They are called with the handle of the node after
each event that changes one, in the order in which they subscribed. What a call does is up to the
observer: it acts on the surroundings of the tree, which the tree knows nothing about.
-/

namespace TracedGrammar

/-- What is done to the surroundings of a tree when a node has changed. -/
abbrev Observer (σ : Type) :=
  NodeId → σ → σ

/-- A display tree with its observers, the first subscriber first. -/
structure WatchedTree (σ : Type) where
  tree : NodeTree := .initial
  observers : List (Observer σ) := []

namespace WatchedTree

variable {σ : Type}

/-- The tree with one observer more. -/
def subscribe (watched : WatchedTree σ) (observer : Observer σ) : WatchedTree σ :=
  { watched with observers := watched.observers ++ [observer] }

/-- The surroundings after all observers were told of a node. -/
def notify (watched : WatchedTree σ) (node : NodeId) (surroundings : σ) : σ :=
  watched.observers.foldl (fun surroundings observer => observer node surroundings) surroundings

/-- The tree and its surroundings after an event. -/
def apply (watched : WatchedTree σ) (event : Event) (surroundings : σ) : WatchedTree σ × σ :=
  match event.target? with
  | none => (watched, surroundings)
  | some target =>
      ({ watched with tree := watched.tree.apply event }, watched.notify target surroundings)

/-- The tree and its surroundings after some events. -/
def play (watched : WatchedTree σ) (events : List Event) (surroundings : σ) : WatchedTree σ × σ :=
  events.foldl (fun (watched, surroundings) event => watched.apply event surroundings)
    (watched, surroundings)

/-- The tree in short, by the numbers of its nodes and of its observers. -/
def summary (watched : WatchedTree σ) : String :=
  s!"NodeTree \x7b nodes: {watched.tree.size}, observers: {watched.observers.length} \x7d"

end WatchedTree

end TracedGrammar
