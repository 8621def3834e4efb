import TracedGrammar.Proofs.Display.Decode
import TracedGrammar.Proofs.Display.Forest
import TracedGrammar.Proofs.Json.Omission

/-!
# Logged traces

A trace is logged as the JSON objects of its events. Several kinds of events have members under the
same keys, so what keeps them apart is the tag: it says which reader the other members are given to
(`Event.reads_tagged`), and that finds the values that were written there. Handles and offsets are
read if they are in the range of 32 and of 64 bits.

A log is read event by event, so one that is cut off is read as the trace up to there, and shows the
tree of that moment.

The theorem to read first is `replay_of_log`.
-/

namespace TracedGrammar

open Json (Finds Reads)

namespace Event

/-- The offsets in an event. The index of an attached child is one of them. -/
def offsets : Event → List Nat
  | sourceSpan span => [span.start, span.stop]
  | consume offset | rollback offset => [offset]
  | attach _ index _ => [index]
  | ruleEnter _ | ruleExit _ | setText .. | setKind .. | setLabel .. | detach _ | reset _ => []

/-- The handles in an event are 32-bit numbers, and the offsets are 64-bit ones. -/
def IsNarrow (event : Event) : Prop :=
  (∀ node ∈ event.handles, node.index < UInt32.size) ∧
    ∀ offset ∈ event.offsets, offset < UInt64.size

instance (event : Event) : Decidable event.IsNarrow :=
  inferInstanceAs (Decidable (_ ∧ _))

theorem reads_node {node : NodeId} (narrow : node.index < UInt32.size) :
    Reads readNode? (.nat node.index) node := by
  intro json omits
  rw [readNode?, Json.reads_nat narrow json omits]
  rfl

theorem reads_kind (kind : NodeKind) : Reads readKind? (.str kind.key) kind := by
  rintro _ ⟨⟩
  cases kind <;> rfl

/-- The tag of an event chooses the reader of its other members. -/
theorem reads_tagged {tag : String} {members : List (String × Json)} {event : Event}
    (keys : List String) (keys_eq : members.map (·.1) = keys) (distinct : ("type" :: keys).Nodup)
    (reads : ∀ body columns, body.columns? keys = some columns →
      List.Forall₂ (fun member column => Finds member.2 column) members columns →
      readBody? tag body = some event) :
    Reads ofJson? (.obj (("type", .str tag) :: members)) event := by
  intro json omits
  obtain ⟨body, columns, variant_eq, columns_eq, found⟩ :=
    omits.variant_columns keys keys_eq distinct
  simp [ofJson?, variant_eq, Json.asText?, reads body columns columns_eq found]

section

variable {α β : Type} {read : Json → Option α} {read' : Json → Option β} {tag key key' : String}
  {json json' : Json} {value : α} {value' : β} {event : Event}

/-- An event with one member beside the tag. -/
theorem reads_single (member : Reads read json value) (strict : read .null = none)
    (distinct : ["type", key].Nodup)
    (made : ∀ body column, body.columns? [key] = some [some column] →
      read column = some value → readBody? tag body = some event) :
    Reads ofJson? (.obj [("type", .str tag), (key, json)]) event := by
  refine reads_tagged [key] rfl distinct fun body columns columns_eq found => ?_
  obtain _ | ⟨finds, ⟨⟩⟩ := found
  obtain ⟨column, rfl, read_eq⟩ := finds.exists_read strict member
  exact made body column columns_eq read_eq

/-- An event with two members beside the tag. -/
theorem reads_pair (member : Reads read json value) (member' : Reads read' json' value')
    (strict : read .null = none) (strict' : read' .null = none)
    (distinct : ["type", key, key'].Nodup)
    (made : ∀ body column column', body.columns? [key, key'] = some [some column, some column'] →
      read column = some value → read' column' = some value' → readBody? tag body = some event) :
    Reads ofJson? (.obj [("type", .str tag), (key, json), (key', json')]) event := by
  refine reads_tagged [key, key'] rfl distinct fun body columns columns_eq found => ?_
  obtain _ | ⟨finds, _ | ⟨finds', ⟨⟩⟩⟩ := found
  obtain ⟨column, rfl, read_eq⟩ := finds.exists_read strict member
  obtain ⟨column', rfl, read_eq'⟩ := finds'.exists_read strict' member'
  exact made body column column' columns_eq read_eq read_eq'

/-- An event is read from its object. -/
theorem reads (narrow : event.IsNarrow) : Reads ofJson? event.toJson event := by
  obtain ⟨handles_narrow, offsets_narrow⟩ := narrow
  cases event with
  | ruleEnter rule | ruleExit rule =>
      refine reads_single (Json.reads_text rule) rfl (by decide) ?_
      intro body name columns_eq name_eq
      simp [readBody?, columns_eq, name_eq]
  | sourceSpan span =>
      simp only [offsets, List.forall_mem_cons] at offsets_narrow
      obtain ⟨start_narrow, stop_narrow, -⟩ := offsets_narrow
      refine reads_pair (Json.reads_offset start_narrow) (Json.reads_offset stop_narrow) rfl rfl
        (by decide) ?_
      intro body start stop columns_eq start_eq stop_eq
      simp [readBody?, columns_eq, start_eq, stop_eq]
  | consume offset | rollback offset =>
      have narrow := offsets_narrow offset List.mem_cons_self
      refine reads_single (Json.reads_offset narrow) rfl (by decide) ?_
      intro body offset columns_eq offset_eq
      simp [readBody?, columns_eq, offset_eq]
  | setText node text =>
      have narrow := handles_narrow node List.mem_cons_self
      refine reads_pair (reads_node narrow) (Json.reads_text text) rfl rfl (by decide) ?_
      intro body node text columns_eq node_eq text_eq
      simp [readBody?, columns_eq, node_eq, text_eq]
  | setKind node kind =>
      have narrow := handles_narrow node List.mem_cons_self
      refine reads_pair (reads_node narrow) (reads_kind kind) rfl rfl (by decide) ?_
      intro body node kind columns_eq node_eq kind_eq
      simp [readBody?, columns_eq, node_eq, kind_eq]
  | setLabel node label =>
      have narrow := handles_narrow node List.mem_cons_self
      refine reads_pair (reads_node narrow) (Json.reads_text label) rfl rfl (by decide) ?_
      intro body node label columns_eq node_eq label_eq
      simp [readBody?, columns_eq, node_eq, label_eq]
  | attach parent index child =>
      simp only [handles, List.forall_mem_cons] at handles_narrow
      obtain ⟨parent_narrow, child_narrow, -⟩ := handles_narrow
      have index_narrow := offsets_narrow index List.mem_cons_self
      refine reads_tagged ["parent", "index", "child"] rfl (by decide)
        fun body columns columns_eq found => ?_
      obtain _ | ⟨parent, _ | ⟨index, _ | ⟨child, ⟨⟩⟩⟩⟩ := found
      obtain ⟨parent, rfl, parent_eq⟩ := parent.exists_read rfl (reads_node parent_narrow)
      obtain ⟨index, rfl, index_eq⟩ := index.exists_read rfl (Json.reads_offset index_narrow)
      obtain ⟨child, rfl, child_eq⟩ := child.exists_read rfl (reads_node child_narrow)
      simp [readBody?, columns_eq, parent_eq, index_eq, child_eq]
  | detach node | reset node =>
      have narrow := handles_narrow node List.mem_cons_self
      refine reads_single (reads_node narrow) rfl (by decide) ?_
      intro body node columns_eq node_eq
      simp [readBody?, columns_eq, node_eq]

end

theorem ofJson_toJson {event : Event} (narrow : event.IsNarrow) :
    ofJson? event.toJson = some event :=
  reads narrow _ (.refl _)

/-- A handle of 33 bits is refused. -/
example : ofJson? (reset ⟨4294967296⟩).toJson = none := by rfl

/-- Events with the same object are the same. -/
theorem eq_of_toJson {event other : Event} (narrow : event.IsNarrow) (narrow' : other.IsNarrow)
    (same : event.toJson = other.toJson) : event = other := by
  have read := ofJson_toJson narrow
  rw [same, ofJson_toJson narrow'] at read
  exact (Option.some.inj read).symm

/-- A log is read back event by event. -/
theorem mapM_ofJson_toJson {events : List Event} (narrow : ∀ event ∈ events, event.IsNarrow) :
    (events.map toJson).mapM ofJson? = some events := by
  refine NodeTree.mapM_eq_some_iff.mpr (List.forall₂_map_left_iff.mpr (List.forall₂_same.mpr ?_))
  exact fun event among => ofJson_toJson (narrow event among)

end Event

/-- Logged traces replay exactly. The events of a trace whose handles are 32-bit numbers and whose
offsets are 64-bit ones are read back from their objects, and no two events have the same object. A
log that is cut off anywhere is read as well, and replays into the tree that the trace makes up to
there. -/
theorem replay_of_log {events : List Event} (narrow : ∀ event ∈ events, event.IsNarrow) :
    (events.map Event.toJson).mapM Event.ofJson? = some events ∧
    (∀ event other : Event, event.IsNarrow → other.IsNarrow → event ≠ other →
      event.toJson ≠ other.toJson) ∧
    ∀ count, (((events.map Event.toJson).take count).mapM Event.ofJson?).map NodeTree.replay =
      some (NodeTree.replay (events.take count)) := by
  refine ⟨Event.mapM_ofJson_toJson narrow, fun event other first second apart same =>
    apart (Event.eq_of_toJson first second same), fun count => ?_⟩
  rw [← List.map_take, Event.mapM_ofJson_toJson fun event among =>
    narrow event (List.mem_of_mem_take among)]
  rfl

/-- Events of all kinds, with the highest handle and the highest offset. -/
def farEvents : List Event :=
  [.sourceSpan ⟨0, 18446744073709551615⟩, .ruleEnter "item", .attach .root 0 ⟨4294967295⟩,
    .setLabel ⟨4294967295⟩ "name", .setText ⟨4294967295⟩ "\"\n\"", .setKind ⟨4294967295⟩ .text,
    .consume 18446744073709551615, .rollback 0, .reset .root, .detach .root, .ruleExit "item"]

/-- Up to the sixth event the log shows a child of the root, which is gone in the end. -/
theorem replay_of_far_events : (∀ event ∈ farEvents, event.IsNarrow) ∧
    (farEvents.map Event.toJson).mapM Event.ofJson? = some farEvents ∧
    (((farEvents.map Event.toJson).take 6).mapM Event.ofJson?).map NodeTree.replay =
      some (NodeTree.replay (farEvents.take 6)) ∧
    (NodeTree.replay (farEvents.take 6)).children .root = #[⟨4294967295⟩] ∧
    (NodeTree.replay farEvents).children .root = #[] := by
  have narrow : ∀ event ∈ farEvents, event.IsNarrow := by decide
  obtain ⟨read, -, cut_off⟩ := replay_of_log narrow
  exact ⟨narrow, read, cut_off 6, by cbv, by cbv⟩

end TracedGrammar
