import EventTree.Proofs.Index.Prepared
import EventTree.Proofs.Tree.Nodes
import EventTree.Proofs.Tree.Spelling

/-!
# The plain branch and the filter that holds of everything

Below `.query` and the filter that holds of every event the tree of the plain branch stands
once more, with a node for each of its nodes. The two nodes ask filters of different text,
and the index of a list of events has an answer prepared for each of them. The answers are
the same, so what is shown at the two nodes is the same too, be it a fault.

An operation sees its path through the node alone, and its filter through the answer. Both
come back only in the faults that name them, so two runs are compared here up to these names.
-/
namespace EventTree

/-- The fault without the path or the filter that it names. -/
def TreeFault.unplaced : TreeFault → TreeFault
  | .ambiguous _ count => .ambiguous "" count
  | fault => fault.relocate .root

/-! ## The node under a filter -/

namespace Node

/-- A directory or file of the plain branch, below its root. -/
def Plain : Node → Prop
  | .services filter _ => filter = none
  | .record selector | .field selector _ => selector.filter = none
  | _ => False

/-- The node of the same host, service and field below a filter. -/
def under (filter : String) : Node → Node
  | .root => .hosts filter
  | .services _ host => .services (some filter) host
  | .record selector => .record { selector with filter := some filter }
  | .field selector name => .field { selector with filter := some filter } name
  | node => node

theorem underQuery?_under {names : List String} {node : Node} (h : plain? names = some node)
    (filter : String) : underQuery? (filter :: names) = some (node.under filter) := by
  rcases names with _ | ⟨host, _ | ⟨service, _ | ⟨name, _ | ⟨_, rest⟩⟩⟩⟩ <;> cases h <;> rfl

/-- No node below `.query` is plain. -/
theorem plain?_of_plain {names : List String} {node : Node} (h : ofNames? names = some node)
    (hplain : node = .root ∨ node.Plain) : plain? names = some node := by
  rcases names with _ | ⟨first, rest⟩
  · exact h
  · rw [ofNames?] at h
    split at h
    · rcases rest with _ | ⟨_, _ | ⟨_, _ | ⟨_, _ | ⟨_, _ | ⟨_, _⟩⟩⟩⟩⟩ <;> cases h <;>
        rcases hplain with hroot | hplain <;> first | cases hroot | cases hplain
    · exact h

theorem ofNames?_under {names : List String} {node : Node} (h : ofNames? names = some node)
    (hplain : node = .root ∨ node.Plain) (filter : String) :
    ofNames? (queryName :: filter :: names) = some (node.under filter) := by
  rw [ofNames?, if_pos rfl]
  exact underQuery?_under (plain?_of_plain h hplain) filter

end Node

/-- The path that leads to the names below a filter. -/
def Path.below (filter : String) (names : List String) : Path :=
  .ofNames ((Node.queryName :: filter :: names).map Text.encode)

theorem Path.node_below {p : Path} {node : Node} {names : List String}
    (hnode : p.node = .ok node) (hnames : p.names? = some names)
    (hplain : node = .root ∨ node.Plain) {filter : String} (hfilter : IsName filter) :
    (Path.below filter names).node = .ok (node.under filter) := by
  obtain ⟨names', hnames', hof⟩ := Path.node_eq_ok_iff.1 hnode
  obtain rfl : names' = names := Option.some.inj (hnames'.symm.trans hnames)
  have hquery : IsName Node.queryName := ⟨by decide +kernel, by decide +kernel⟩
  refine Path.node_eq_ok_iff.2 ⟨_, Path.names?_ofNames ?_, Node.ofNames?_under hof hplain filter⟩
  intro s hs
  rcases List.mem_cons.1 hs with rfl | hs
  · exact hquery
  · rcases List.mem_cons.1 hs with rfl | hs
    · exact hfilter
    · exact Path.isName_of_names? hnames s hs

theorem Entry.mem_ofRoot_iff {events : List Event} {e : Entry} :
    e ∈ ofRoot events ↔ e = .directory Node.queryName ∨ e ∈ ofValues (·.host) events := by
  constructor
  · intro h
    obtain ⟨name, hname, rfl⟩ := List.mem_map.1 h
    rcases mem_insertName.1 hname with rfl | hname
    · exact .inl rfl
    · exact .inr (List.mem_map_of_mem hname)
  · rintro (rfl | h)
    · exact List.mem_map_of_mem (mem_insertName.2 (.inl rfl))
    · obtain ⟨name, hname, rfl⟩ := List.mem_map.1 h
      exact List.mem_map_of_mem (mem_insertName.2 (.inr hname))

/-! ## Two runs -/

/-- Two queries with one result are used for one answer. -/
theorem Inquiry.run_ask_unplaced {σ : Type} [QuerySource σ] {policy : FailurePolicy} {source : σ}
    {f g : String} {use use' : List Event → Except TreeFault α}
    (hquery : (QuerySource.query source f).1 = (QuerySource.query source g).1)
    (huse : ∀ events, (use events).mapError (·.unplaced) = (use' events).mapError (·.unplaced)) :
    ((ask f use).run policy source).1.mapError (·.unplaced) =
      ((ask g use').run policy source).1.mapError (·.unplaced) := by
  rw [run_ask, run_ask, hquery]
  rcases conclude_cases policy (QuerySource.query source g).1 with
    ⟨events, hused⟩ | ⟨fault, hfailed⟩
  · rw [hused, hused]
    exact huse events
  · rw [hfailed, hfailed]

namespace TreeView
variable {σ : Type} [QuerySource σ] {policy : FailurePolicy} {source : σ} {p q : Path}

/-- Every operation gives the same entries, metadata or bytes at both paths, or faults that
differ in no more than a path or a filter. -/
structure Alike (policy : FailurePolicy) (source : σ) (p q : Path) : Prop where
  entries : ((entries p).run policy source).1.mapError (·.unplaced) =
    ((entries q).run policy source).1.mapError (·.unplaced)
  stat : ((stat p).run policy source).1.mapError (·.unplaced) =
    ((stat q).run policy source).1.mapError (·.unplaced)
  content : ∀ mode, ((content p mode).run policy source).1.mapError (·.unplaced) =
    ((content q mode).run policy source).1.mapError (·.unplaced)
  read : ∀ offset size, ((read p offset size).run policy source).1.mapError (·.unplaced) =
    ((read q offset size).run policy source).1.mapError (·.unplaced)

theorem fieldContent_unplaced (p q : Path) (f g name : String) (events : List Event) :
    (fieldContent p f name events).mapError (·.unplaced) =
      (fieldContent q g name events).mapError (·.unplaced) := by
  rcases events with _ | ⟨e, _ | ⟨_, _⟩⟩
  · rfl
  · cases hbytes : e.fileBytes? name <;> simp only [fieldContent, singleEvent, hbytes]
  · rfl

theorem askField_unplaced {s t : Selector} (p q : Path) (name : String)
    (hquery : (QuerySource.query source (Filter.ofSelector s)).1 =
      (QuerySource.query source (Filter.ofSelector t)).1) :
    ((askField p s name).run policy source).1.mapError (·.unplaced) =
      ((askField q t name).run policy source).1.mapError (·.unplaced) :=
  Inquiry.run_ask_unplaced hquery (fieldContent_unplaced p q _ _ name)

theorem entriesOf_unplaced {node : Node} (hplain : node.Plain) (f g filter : String)
    (events : List Event) :
    (entriesOf f node events).mapError (·.unplaced) =
      (entriesOf g (node.under filter) events).mapError (·.unplaced) := by
  cases node with
  | root => cases hplain
  | record selector => rcases events with _ | ⟨e, _ | ⟨_, _⟩⟩ <;> rfl
  | _ => rfl

/-- Nodes whose filters have one answer are shown alike. -/
theorem alike_of_node {node : Node} {filter : String} (hp : p.node = .ok node)
    (hq : q.node = .ok (node.under filter)) (hplain : node.Plain)
    (hquery : ∀ f g, Filter.ofNode? node = some f → Filter.ofNode? (node.under filter) = some g →
      (QuerySource.query source f).1 = (QuerySource.query source g).1) :
    Alike policy source p q := by
  have hcontent : ∀ mode, ((content p mode).run policy source).1.mapError (·.unplaced) =
      ((content q mode).run policy source).1.mapError (·.unplaced) := by
    intro mode
    unfold content
    split
    · rfl
    · rw [hp, hq]
      cases node with
      | field selector name =>
        simp only [Node.under, Inquiry.run_map, map_mapError]
        exact congrArg _ (askField_unplaced p q name (hquery _ _ rfl rfl))
      | root => cases hplain
      | _ => rfl
  refine ⟨?_, ?_, hcontent, ?_⟩
  · unfold entries
    rw [hp, hq]
    cases node with
    | services user host =>
      exact Inquiry.run_ask_unplaced (hquery _ _ rfl rfl) (entriesOf_unplaced hplain _ _ filter)
    | record selector =>
      exact Inquiry.run_ask_unplaced (hquery _ _ rfl rfl) (entriesOf_unplaced hplain _ _ filter)
    | field selector name => rfl
    | _ => cases hplain
  · unfold stat
    rw [hp, hq]
    cases node with
    | field selector name =>
      simp only [Node.under, Inquiry.run_map, map_mapError]
      exact congrArg _ (askField_unplaced p q name (hquery _ _ rfl rfl))
    | root => cases hplain
    | _ => rfl
  · intro offset size
    unfold read
    simp only [Inquiry.run_map, map_mapError, hcontent]

/-- The root lists the hosts that the filter of every event lists, and the directory of
filters. -/
theorem root_entries (policy : FailurePolicy) (source : σ) (hp : p.node = .ok .root)
    (hq : q.node = .ok (.hosts Filter.everything)) :
    (∃ fault, ((entries p).run policy source).1 = .error fault ∧
      ((entries q).run policy source).1 = .error fault) ∨
    ∃ listed hosts, ((entries p).run policy source).1 = .ok listed ∧
      ((entries q).run policy source).1 = .ok hosts ∧
      ∀ e, e ∈ listed ↔ e = .directory Node.queryName ∨ e ∈ hosts := by
  unfold entries
  rw [hp, hq]
  simp only [Filter.ofNode?]
  rw [Inquiry.run_ask, Inquiry.run_ask]
  rcases Inquiry.conclude_cases policy (QuerySource.query source Filter.everything).1 with
    ⟨events, hused⟩ | ⟨fault, hfailed⟩
  · rw [hused, hused]
    exact .inr ⟨_, _, rfl, rfl, fun _ => Entry.mem_ofRoot_iff⟩
  · rw [hfailed, hfailed]
    exact .inl ⟨_, rfl, rfl⟩

end TreeView

/-! ## The index of a list of events -/

namespace ScriptedIndex

/-- What the index makes of a query depends on the prepared answer alone. -/
theorem ask_congr (s : ScriptedIndex) {f g : String} (h : s.answer f = s.answer g) :
    (s.ask f).1 = (s.ask g).1 := by
  unfold answer at h
  simp only [ask, h]

theorem ofEvents_answer_selector (events : List Event) {s : Selector} (hplain : s.filter = none) :
    (ofEvents events).answer (Filter.ofSelector s) =
      (ofEvents events).answer (Filter.ofSelector { s with filter := some Filter.everything }) := by
  obtain ⟨user, host, service⟩ := s
  obtain rfl : user = none := hplain
  rw [ofEvents_answer_ofSelector events (by decide), ofEvents_answer_ofSelector events (by decide)]

/-- For a node of the plain branch and the one below the filter of every event the same
events are prepared. -/
theorem ofEvents_answer_under (events : List Event) {node : Node} (hplain : node.Plain)
    {f g : String} (hf : Filter.ofNode? node = some f)
    (hg : Filter.ofNode? (node.under Filter.everything) = some g) :
    (ofEvents events).answer f = (ofEvents events).answer g := by
  cases node with
  | services user host =>
    obtain rfl : user = none := hplain
    cases hf
    cases hg
    rw [ofEvents_answer_ofHost events (by decide), ofEvents_answer_ofHost events (by decide)]
  | record selector =>
    cases hf
    cases hg
    exact ofEvents_answer_selector events hplain
  | field selector name =>
    cases hf
    cases hg
    exact ofEvents_answer_selector events hplain
  | _ => cases hplain

end ScriptedIndex

open ScriptedIndex in
/-- Over the index of a list of events, answering or failing, every path of the plain branch
is shown as the path of the same names below the filter that holds of everything. The root
has the directory of filters beside what is shown there. -/
theorem everything_mirrors_plain (events : List Event) (failing : Bool)
    (override : Option QueryFault) (asked : List String) (policy : FailurePolicy) {path : Path}
    {node : Node} {names : List String} (hnode : path.node = .ok node)
    (hnames : path.names? = some names) :
    let index : ScriptedIndex := { ofEvents events with failing, override, asked }
    let mirror := Path.below Filter.everything names
    (node.Plain → TreeView.Alike policy index path mirror) ∧
    (node = .root →
      (∃ fault, ((TreeView.entries path).run policy index).1 = .error fault ∧
        ((TreeView.entries mirror).run policy index).1 = .error fault) ∨
      ∃ listed hosts, ((TreeView.entries path).run policy index).1 = .ok listed ∧
        ((TreeView.entries mirror).run policy index).1 = .ok hosts ∧
        ∀ e, e ∈ listed ↔ e = .directory ".query" ∨ e ∈ hosts) := by
  intro index mirror
  have hfilter : Path.IsName Filter.everything := ⟨by decide +kernel, by decide +kernel⟩
  constructor
  · intro hplain
    have hmirror := Path.node_below hnode hnames (.inr hplain) hfilter
    apply TreeView.alike_of_node hnode hmirror hplain
    intro f g hf hg
    exact index.ask_congr (ofEvents_answer_under events hplain hf hg)
  · rintro rfl
    have hmirror := Path.node_below hnode hnames (.inl rfl) hfilter
    exact TreeView.root_entries policy index hnode hmirror

/-- A file of two events is the same fault on both sides, with another filter in it. -/
theorem everything_mirrors_doubled_record :
    let events : List Event := [{ host := "a", service := "b" },
      { host := "a", service := "b", state := "ok" }, { host := ".", service := "c" }]
    let index : ScriptedIndex :=
      { ScriptedIndex.ofEvents events with failing := false, override := none, asked := [] }
    let file := Path.ofString "//a/./b/State"
    let mirror := Path.ofString "/.query/true/a/b/State"
    TreeView.Alike .strict index file mirror ∧
    ((TreeView.content file .reading).run .strict index).1 =
      .error (.ambiguous "host = \"a\" and service = \"b\"" 2) ∧
    ((TreeView.content mirror .reading).run .strict index).1 =
      .error (.ambiguous "(true) and host = \"a\" and service = \"b\"" 2) ∧
    ∃ listed hosts, ((TreeView.entries .root).run .strict index).1 = .ok listed ∧
      ((TreeView.entries (.ofString "/.query/true")).run .strict index).1 = .ok hosts ∧
      ∀ e, e ∈ listed ↔ e = .directory ".query" ∨ e ∈ hosts := by
  intro events index file mirror
  have hfile : file.node = .ok (.field ⟨none, "a", "b"⟩ "State") :=
    eq_ok_of_toOption (by decide +kernel)
  have hbelow : mirror.node = .ok (.field ⟨some "true", "a", "b"⟩ "State") :=
    eq_ok_of_toOption (by decide +kernel)
  have hroot : Path.root.node = .ok .root := eq_ok_of_toOption (by decide +kernel)
  have halike := (everything_mirrors_plain events false none [] .strict hfile
    (show file.names? = some ["a", "b", "State"] by decide +kernel)).1 rfl
  have hhosts := (everything_mirrors_plain events false none [] .strict hroot
    (show Path.root.names? = some [] by decide +kernel)).2 rfl
  have hmirror : Path.below Filter.everything ["a", "b", "State"] = mirror := by decide +kernel
  have hstart : Path.below Filter.everything [] = .ofString "/.query/true" := by decide +kernel
  rw [hmirror] at halike
  rw [hstart] at hhosts
  refine ⟨halike, ?_, ?_, ?_⟩
  · rw [TreeView.content, hfile]
    rfl
  · rw [TreeView.content, hbelow]
    rfl
  rcases hhosts with ⟨fault, hfault, -⟩ | hhosts
  · have hlisted : ((TreeView.entries .root).run .strict index).1.toOption ≠ none := by
      decide +kernel
    exact absurd (congrArg Except.toOption hfault) hlisted
  · exact hhosts

end EventTree
