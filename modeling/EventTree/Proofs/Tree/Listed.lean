import EventTree.Index.Scripted
import EventTree.Proofs.Tree.Inquiry
import EventTree.Proofs.Tree.Nodes
import EventTree.Proofs.Tree.ValueListings

/-!
# Looking up what is listed

A listing is made of values that the index returned, and a lookup takes its name to pieces
as any path. Whatever the values are, an entry leads one level down to a node of its own
kind, unless it is a dot or two: these pass for names when a directory is listed, but as
pieces of a path they are none.
-/
namespace EventTree

/-- A lookup of the entry in its directory finds what it was listed as, one level below. -/
structure Entry.Resolves {σ : Type} [QuerySource σ] (policy : FailurePolicy) (source : σ)
    (directory : Path) (e : Entry) : Prop where
  found : ∃ stat, ((TreeView.stat (directory.join (Text.encode e.name))).run policy source).1 =
    .ok stat ∧ stat.kind = e.kind
  below : ∃ names, directory.names? = some names ∧
    (directory.join (Text.encode e.name)).names? = some (names ++ [e.name])

/-! ## The files of an event -/

theorem Attributes.get?_isSome_iff {m : Attributes} {key : String} :
    (m.get? key).isSome = true ↔ key ∈ m.keys := by
  unfold get? keys
  induction m.entries with
  | nil => simp
  | cons entry rest ih =>
    rw [List.lookup_cons, List.map_cons, List.mem_cons, ← ih]
    by_cases h : key = entry.1
    · simp [h]
    · have hne : (key == entry.1) = false := by simpa using h
      simp [h, hne]

theorem FixedField.ofName?_name (f : FixedField) : ofName? f.name = some f := by
  cases f <;> decide

theorem Event.fileBytes?_isSome_iff {e : Event} {name : String} :
    (e.fileBytes? name).isSome = true ↔
      name = jsonName ∨ name ∈ e.attributes.keys ∨ isFixedField name = true := by
  rw [← Attributes.get?_isSome_iff, fileBytes?, fileText?, isFixedField]
  by_cases hjson : name = jsonName
  · simp [hjson]
  · cases e.attributes.get? name <;> simp [hjson]

/-! ## What stands in a listing -/

namespace Entry

theorem mem_ofValues {value : Event → String} {events : List Event} {e : Entry}
    (h : e ∈ ofValues value events) : isSegment e.name = true ∧ e.kind = .directory := by
  obtain ⟨hkind, hempty, hslash, -⟩ := (directoriesOf_ofValues value events).mem_iff.1 h
  exact ⟨isSegment_iff.2 ⟨hempty, hslash⟩, hkind⟩

theorem mem_ofRoot {events : List Event} {e : Entry} (h : e ∈ ofRoot events) :
    isSegment e.name = true ∧ e.kind = .directory := by
  obtain ⟨hkind, hname⟩ := (directoriesOf_ofRoot events).mem_iff.1 h
  refine ⟨?_, hkind⟩
  rcases hname with hquery | ⟨hempty, hslash, -⟩
  · rw [hquery]
    decide
  · exact isSegment_iff.2 ⟨hempty, hslash⟩

theorem mem_ofEvent {event : Event} {e : Entry} (h : e ∈ ofEvent event) :
    isSegment e.name = true ∧ e.kind = .file ∧ (event.fileBytes? e.name).isSome = true := by
  obtain ⟨name, hname, rfl⟩ := List.mem_map.1 h
  change isSegment name = true ∧ _ ∧ (event.fileBytes? name).isSome = true
  rw [Event.fileBytes?_isSome_iff]
  rw [List.mem_append, List.mem_append, List.mem_singleton] at hname
  rcases hname with (hfixed | hattribute) | rfl
  · obtain ⟨f, -, rfl⟩ := List.mem_map.1 hfixed
    have hsegment : isSegment f.name = true := by cases f <;> decide
    have hfixed : isFixedField f.name = true := by
      rw [isFixedField, FixedField.ofName?_name]
      rfl
    exact ⟨hsegment, rfl, .inr (.inr hfixed)⟩
  · obtain ⟨hkey, hchosen⟩ := List.mem_filter.1 hattribute
    exact ⟨(Bool.and_eq_true_iff.1 hchosen).2, rfl, .inr (.inl hkey)⟩
  · exact ⟨by decide, rfl, .inl rfl⟩

end Entry

namespace TreeView

/-- An entry is named after a child of the node and has its kind; a file has a content. -/
theorem entriesOf_child {filter : String} {node : Node} {events : List Event}
    {listed : List Entry} {e : Entry} (h : entriesOf filter node events = .ok listed)
    (he : e ∈ listed) :
    isSegment e.name = true ∧ ∃ child, node.child? e.name = some child ∧ child.kind = e.kind ∧
      ∀ selector name, child = .field selector name → node = .record selector ∧
        ∀ path asked, ∃ found, fieldContent path asked name events = .ok found := by
  cases node with
  | root =>
    cases h
    obtain ⟨hname, hkind⟩ := Entry.mem_ofRoot he
    refine ⟨hname, _, rfl, ?_⟩
    rw [hkind]
    split
    · exact ⟨rfl, nofun⟩
    · exact ⟨rfl, nofun⟩
  | queryRoot =>
    cases h
    cases he
  | hosts user =>
    cases h
    obtain ⟨hname, hkind⟩ := Entry.mem_ofValues he
    exact ⟨hname, _, rfl, hkind.symm, nofun⟩
  | services user host =>
    cases h
    obtain ⟨hname, hkind⟩ := Entry.mem_ofValues he
    exact ⟨hname, _, rfl, hkind.symm, nofun⟩
  | record selector =>
    rcases events with _ | ⟨event, _ | ⟨second, rest⟩⟩
    · cases h
      cases he
    · cases h
      obtain ⟨hname, hkind, hbytes⟩ := Entry.mem_ofEvent he
      obtain ⟨bytes, hbytes⟩ := Option.isSome_iff_exists.1 hbytes
      refine ⟨hname, _, rfl, hkind.symm, ?_⟩
      rintro selector' name' ⟨⟩
      refine ⟨rfl, fun path asked => ⟨(event, bytes), ?_⟩⟩
      simp only [fieldContent, singleEvent, hbytes]
    · cases h
  | field selector name =>
    cases h
    cases he

/-- A listing that is not empty was made from an answer to the filter of its node. -/
theorem entries_ok {σ : Type} [QuerySource σ] {policy : FailurePolicy} {source : σ} {path : Path}
    {listed : List Entry} {e : Entry} (h : ((entries path).run policy source).1 = .ok listed)
    (he : e ∈ listed) :
    ∃ node filter, path.node = .ok node ∧ Filter.ofNode? node = some filter ∧
      ((Inquiry.ask filter (entriesOf filter node)).run policy source).1 = .ok listed := by
  unfold entries at h
  cases hnode : path.node with
  | error fault =>
    rw [hnode] at h
    cases h
  | ok node =>
    rw [hnode] at h
    cases hfilter : Filter.ofNode? node with
    | none =>
      cases node <;> cases hfilter
      cases h
      cases he
    | some filter =>
      refine ⟨node, filter, rfl, hfilter, ?_⟩
      cases node with
      | field => cases h
      | queryRoot => cases hfilter
      | _ =>
        cases hfilter
        exact h

/-- Everything listed is found again as what it was listed as, but for a dot or two. -/
theorem listed_resolves_iff {σ : Type} [QuerySource σ] {policy : FailurePolicy}
    {source later : σ} {path : Path} {listed : List Entry} {e : Entry}
    (hsame : ∀ filter, (QuerySource.query later filter).1 = (QuerySource.query source filter).1)
    (hlisted : ((entries path).run policy source).1 = .ok listed) (he : e ∈ listed) :
    e.Resolves policy later path ↔ e.name ≠ "." ∧ e.name ≠ ".." := by
  constructor
  · rintro ⟨-, names, hnames, hbelow⟩
    constructor
    · intro hdot
      rw [hdot, Path.names?_join_dot, hnames, Option.some.injEq] at hbelow
      exact List.cons_ne_nil _ _ (List.self_eq_append_right.1 hbelow)
    · intro hdots
      rw [hdots, Path.names?_join_dots] at hbelow
      cases hbelow
  · rintro ⟨hdot, hdots⟩
    obtain ⟨node, filter, hnode, hfilter, hask⟩ := entries_ok hlisted he
    obtain ⟨events, hentries, hagain⟩ := Inquiry.run_ask_again (β := Stat) hask (hsame filter)
    obtain ⟨hname, child, hchild, hkind, hfile⟩ := entriesOf_child hentries he
    obtain ⟨hempty, hslash⟩ := isSegment_iff.1 hname
    obtain ⟨names, hnames, -⟩ := Path.node_eq_ok_iff.1 hnode
    have hbelow : (path.join (Text.encode e.name)).names? = some (names ++ [e.name]) := by
      rw [Path.names?_join_encode path hslash hempty hdot hdots, hnames]
      rfl
    have hplace := Path.node_of_names hnode hnames hbelow hchild
    refine ⟨?_, names, hnames, hbelow⟩
    unfold stat
    rw [hplace, ← hkind]
    cases child with
    | field selector name =>
      obtain ⟨rfl, hcontent⟩ := hfile selector name rfl
      cases hfilter
      obtain ⟨⟨event, bytes⟩, hfound⟩ :=
        hcontent (path.join (Text.encode e.name)) (Filter.ofSelector selector)
      refine ⟨.file bytes.length event.time.toInt, ?_, rfl⟩
      refine (hagain _).trans ?_
      rw [hfound]
      rfl
    | _ => exact ⟨.directory, rfl, rfl⟩

/-- Of two hosts the one written as a step upwards is listed like the other. -/
theorem listed_resolves_iff_step_upwards :
    let source : String → Except QueryFault (List Event) :=
      fun _ => .ok [{ host := ".." }, { host := "web" }]
    let listed := [Entry.directory "..", .directory ".query", .directory "web"]
    ((entries .root).run .strict source).1 = .ok listed ∧
      (Entry.directory "web").Resolves .strict source .root ∧
      ¬(Entry.directory "..").Resolves .strict source .root := by
  intro source listed
  have hlisted : ((entries .root).run .strict source).1 = .ok listed :=
    eq_ok_of_toOption (by decide +kernel)
  have hname := listed_resolves_iff (fun _ => rfl) hlisted
    (List.mem_cons_of_mem _ (List.mem_cons_of_mem _ List.mem_cons_self))
  have hstep := listed_resolves_iff (fun _ => rfl) hlisted List.mem_cons_self
  refine ⟨hlisted, hname.2 (by decide), fun hresolves => ?_⟩
  exact (hstep.1 hresolves).2 rfl

/-- A host that is listed and cannot be looked up. -/
theorem listed_step_upwards_invalid :
    let index := ScriptedIndex.ofEvents [{ host := ".." }]
    ((entries .root).run .strict index).1 =
      .ok [.directory "..", .directory ".query"] ∧
    ((stat (Path.root.join (Text.encode ".."))).run .strict index).1 =
      .error (.invalidPath (.ofString "/..")) := by
  have hplace : Path.root.join (Text.encode "..") = .ofString "/.." := by decide +kernel
  have hnode : (Path.ofString "/..").node = .error (.invalidPath (.ofString "/..")) := by
    rw [← hplace, Path.node, Path.names?_join_dots]
  refine ⟨eq_ok_of_toOption (by decide +kernel), ?_⟩
  rw [hplace, stat, hnode]
  rfl

end TreeView
end EventTree
