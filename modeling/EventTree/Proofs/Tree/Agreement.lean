import EventTree.Proofs.Tree.Inquiry
import EventTree.Proofs.Tree.Nodes
import EventTree.Proofs.Tree.Operations

/-!
# The operations agree on every path

Metadata, listing, opening and reading each find the node of a path for themselves and ask
the index for themselves. As long as the index answers alike they speak of one thing: a path
that leads nowhere, a directory, or a file, whose size is the length of what an open gives
and whose parts are parts of it.
-/
namespace EventTree

/-! ## Paths that name no node -/

/-- A step of the path leads upwards, or its name is not text. -/
def Path.Unusable (p : Path) : Prop :=
  ∃ c ∈ p.components, c = .parent ∨ ∃ bytes, c = .name bytes ∧ Text.decode? bytes = none

namespace Path

theorem namesOf?_eq_none_iff (cs : List Component) :
    namesOf? cs = none ↔
      ∃ c ∈ cs, c = .parent ∨ ∃ bytes, c = .name bytes ∧ Text.decode? bytes = none := by
  induction cs with
  | nil => simp [namesOf?]
  | cons c cs ih =>
    cases c with
    | root => simpa [namesOf?] using ih
    | here => simpa [namesOf?] using ih
    | parent => simp [namesOf?]
    | name bytes =>
      rw [namesOf?]
      cases hbytes : Text.decode? bytes with
      | none => simp [hbytes]
      | some s =>
        cases hnames : namesOf? cs with
        | none => simpa [hbytes] using ih.1 hnames
        | some names =>
          rw [hnames] at ih
          simpa [hbytes] using ih

theorem names?_eq_none_iff {p : Path} : p.names? = none ↔ p.Unusable :=
  namesOf?_eq_none_iff p.components

/-- Whether a path is unusable is found out before its names are followed. -/
theorem node_error_cases {p : Path} {fault : TreeFault} (h : p.node = .error fault) :
    (p.Unusable → fault = .invalidPath p) ∧ (¬p.Unusable → fault = .notFound p) := by
  rw [← names?_eq_none_iff]
  unfold node at h
  cases hnames : p.names? with
  | none =>
    rw [hnames] at h
    cases h
    exact ⟨fun _ => rfl, fun hne => absurd rfl hne⟩
  | some names =>
    rw [hnames] at h
    refine ⟨nofun, fun _ => ?_⟩
    cases hnode : Node.ofNames? names <;> simp only [hnode] at h <;> cases h
    rfl

end Path

/-! ## What an inquiry comes to -/

namespace Inquiry
variable {σ α β : Type} [QuerySource σ] {policy : FailurePolicy} {source : σ}

/-- So ends the inquiry as long as the source answers as it does now. -/
def Yields (q : Inquiry α) (policy : FailurePolicy) (source : σ) (answer : Except TreeFault α) :
    Prop :=
  ∀ later : σ,
    (∀ filter, (QuerySource.query later filter).1 = (QuerySource.query source filter).1) →
      (q.run policy later).1 = answer

theorem yields_run (q : Inquiry α) (policy : FailurePolicy) (source : σ) :
    q.Yields policy source (q.run policy source).1 :=
  fun _ hsame => q.run_congr policy fun filter _ => hsame filter

theorem yields_settled (answer : Except TreeFault α) :
    (settled answer).Yields policy source answer :=
  fun _ _ => rfl

theorem Yields.map {q : Inquiry α} {answer : Except TreeFault α}
    (h : q.Yields policy source answer) (f : α → β) :
    (q.map f).Yields policy source (answer.map f) := by
  intro later hsame
  rw [run_map, h later hsame]

end Inquiry

namespace TreeView
variable {σ : Type} [QuerySource σ]

/-! ## What a path is seen as -/

/-- Nothing is at the path, and every operation that does not ask to write says why. -/
structure FindsNothing (policy : FailurePolicy) (source : σ) (path : Path) (fault : TreeFault) :
    Prop where
  node : path.node = .error fault
  invalid : path.Unusable → fault = .invalidPath path
  missing : ¬path.Unusable → fault = .notFound path
  stat : (stat path).Yields policy source (.error fault)
  entries : (entries path).Yields policy source (.error fault)
  content : ∀ mode, mode.wantsWriting = false →
    (content path mode).Yields policy source (.error fault)
  read : ∀ offset size, (read path offset size).Yields policy source (.error fault)

structure ShowsDirectory (policy : FailurePolicy) (source : σ) (path : Path) : Prop where
  node : ∃ node, path.node = .ok node ∧ node.kind = .directory
  stat : ∃ s, (stat path).Yields policy source (.ok s) ∧ s.kind = .directory ∧ s.size = 0
  entries : ∃ answer, (entries path).Yields policy source answer ∧
    ∀ place, answer ≠ .error (.notADirectory place)
  content : ∀ mode, mode.wantsWriting = false →
    (content path mode).Yields policy source (.error (.isADirectory path))
  read : ∀ offset size, (read path offset size).Yields policy source (.error (.isADirectory path))

/-- A file that cannot be had, whichever way it is asked for. -/
structure Withholds (policy : FailurePolicy) (source : σ) (path : Path) (fault : TreeFault) :
    Prop where
  stat : (stat path).Yields policy source (.error fault)
  content : ∀ mode, mode.wantsWriting = false →
    (content path mode).Yields policy source (.error fault)
  read : ∀ offset size, (read path offset size).Yields policy source (.error fault)

/-- A file with the content `bytes`. -/
structure Holds (policy : FailurePolicy) (source : σ) (path : Path) (bytes : Bytes) : Prop where
  stat : ∃ s, (stat path).Yields policy source (.ok s) ∧ s.kind = .file ∧ s.size = bytes.length
  content : ∀ mode, mode.wantsWriting = false → (content path mode).Yields policy source (.ok bytes)
  read : ∀ offset size, (read path offset size).Yields policy source
    (.ok ((bytes.take (min (offset + size) bytes.length)).drop (min offset bytes.length)))

structure ShowsFile (policy : FailurePolicy) (source : σ) (path : Path) : Prop where
  node : ∃ node, path.node = .ok node ∧ node.kind = .file
  entries : (entries path).Yields policy source (.error (.notADirectory path))
  agree : (∃ fault, Withholds policy source path fault) ∨ ∃ bytes, Holds policy source path bytes

variable (policy : FailurePolicy) (source : σ) {path : Path}

theorem findsNothing_of_node {fault : TreeFault} (h : path.node = .error fault) :
    FindsNothing policy source path fault := by
  have hcontent : ∀ mode, mode.wantsWriting = false →
      (TreeView.content path mode).Yields policy source (.error fault) := by
    intro mode hmode
    rw [TreeView.content, hmode, h]
    exact Inquiry.yields_settled _
  obtain ⟨hinvalid, hmissing⟩ := Path.node_error_cases h
  constructor
  case node => exact h
  case invalid => exact hinvalid
  case missing => exact hmissing
  case stat =>
    rw [TreeView.stat, h]
    exact Inquiry.yields_settled _
  case entries =>
    rw [TreeView.entries, h]
    exact Inquiry.yields_settled _
  case content => exact hcontent
  case read =>
    intro offset size
    exact (hcontent .reading rfl).map _

/-- A directory is not listed if its events are too many, or cannot be had. -/
theorem entries_error {policy : FailurePolicy} {source : σ} {node : Node} {fault : TreeFault}
    (hnode : path.node = .ok node) (hkind : node.kind = .directory)
    (h : ((TreeView.entries path).run policy source).1 = .error fault) :
    (∃ filter count, fault = .ambiguous filter count) ∨ ∃ reason, fault = .query reason := by
  unfold TreeView.entries at h
  rw [hnode] at h
  cases hfilter : Filter.ofNode? node with
  | none =>
    cases node <;> cases hfilter
    cases h
  | some filter =>
    have hasked : (Inquiry.conclude policy (entriesOf filter node)
        (QuerySource.query source filter).1) = .error fault := by
      cases node with
      | field selector name => cases hkind
      | queryRoot => cases hfilter
      | _ =>
        cases hfilter
        rw [← h]
        simp only [Filter.ofNode?, Inquiry.run_ask]
    rcases Inquiry.conclude_cases policy (QuerySource.query source filter).1 with
      ⟨events, hused⟩ | ⟨reason, hfailed⟩
    · rw [hused] at hasked
      exact .inl ⟨filter, entriesOf_error hasked⟩
    · rw [hfailed] at hasked
      exact .inr ⟨reason, (Except.error.inj hasked).symm⟩

theorem showsDirectory_of_node {node : Node} (h : path.node = .ok node)
    (hkind : node.kind = .directory) : ShowsDirectory policy source path := by
  have hcontent : ∀ mode, mode.wantsWriting = false →
      (TreeView.content path mode).Yields policy source (.error (.isADirectory path)) := by
    intro mode hmode
    rw [TreeView.content, hmode, h]
    cases node with
    | field selector name => cases hkind
    | _ => exact Inquiry.yields_settled _
  constructor
  case node => exact ⟨node, h, hkind⟩
  case stat =>
    refine ⟨.directory, ?_, rfl, rfl⟩
    rw [TreeView.stat, h]
    cases node with
    | field selector name => cases hkind
    | _ => exact Inquiry.yields_settled _
  case entries =>
    refine ⟨_, (entries path).yields_run policy source, ?_⟩
    intro place heq
    rcases entries_error h hkind heq with ⟨_, _, hfault⟩ | ⟨_, hfault⟩ <;> cases hfault
  case content => exact hcontent
  case read =>
    intro offset size
    exact (hcontent .reading rfl).map _

theorem showsFile_of_node {selector : Selector} {name : String}
    (h : path.node = .ok (.field selector name)) : ShowsFile policy source path := by
  have hcontent : ∀ mode, mode.wantsWriting = false →
      TreeView.content path mode = (askField path selector name).map (·.2) := by
    intro mode hmode
    rw [TreeView.content, hmode, h]
    rfl
  have hstat : TreeView.stat path = (askField path selector name).map fun found =>
      Stat.file found.2.length found.1.time.toInt := by
    rw [TreeView.stat, h]
  have hfield := (askField path selector name).yields_run policy source
  constructor
  case node => exact ⟨_, h, rfl⟩
  case entries =>
    rw [TreeView.entries, h]
    exact Inquiry.yields_settled _
  case agree =>
    cases hanswer : ((askField path selector name).run policy source).1 with
    | error fault =>
      rw [hanswer] at hfield
      have hbytes : ∀ mode, mode.wantsWriting = false →
          (TreeView.content path mode).Yields policy source (.error fault) := by
        intro mode hmode
        rw [hcontent mode hmode]
        exact hfield.map _
      left
      refine ⟨fault, ?_, hbytes, ?_⟩
      · rw [hstat]
        exact hfield.map _
      · intro offset size
        exact (hbytes .reading rfl).map _
    | ok found =>
      obtain ⟨e, bytes⟩ := found
      rw [hanswer] at hfield
      have hbytes : ∀ mode, mode.wantsWriting = false →
          (TreeView.content path mode).Yields policy source (.ok bytes) := by
        intro mode hmode
        rw [hcontent mode hmode]
        exact hfield.map _
      right
      refine ⟨bytes, ?_, hbytes, ?_⟩
      · refine ⟨.file bytes.length e.time.toInt, ?_, rfl, rfl⟩
        rw [hstat]
        exact hfield.map _
      · intro offset size
        rw [← window_eq]
        exact (hbytes .reading rfl).map _

/-- Every path is seen by all operations as one of three: nothing, a directory or a file. -/
theorem operations_agree (policy : FailurePolicy) (source : σ) (path : Path) :
    let nothing := ∃ fault, FindsNothing policy source path fault
    let directory := ShowsDirectory policy source path
    let file := ShowsFile policy source path
    (nothing ∨ directory ∨ file) ∧
      ¬(nothing ∧ directory) ∧ ¬(nothing ∧ file) ∧ ¬(directory ∧ file) := by
  intro nothing directory file
  constructor
  · cases hnode : path.node with
    | error fault => exact .inl ⟨fault, findsNothing_of_node policy source hnode⟩
    | ok node =>
      cases node with
      | field selector name => exact .inr (.inr (showsFile_of_node policy source hnode))
      | _ => exact .inr (.inl (showsDirectory_of_node policy source hnode rfl))
  refine ⟨?_, ?_, ?_⟩
  · rintro ⟨⟨fault, hnothing⟩, hdirectory⟩
    obtain ⟨node, hnode, -⟩ := hdirectory.node
    cases hnothing.node.symm.trans hnode
  · rintro ⟨⟨fault, hnothing⟩, hfile⟩
    obtain ⟨node, hnode, -⟩ := hfile.node
    cases hnothing.node.symm.trans hnode
  · rintro ⟨hdirectory, hfile⟩
    obtain ⟨node, hnode, hkind⟩ := hdirectory.node
    obtain ⟨node', hnode', hkind'⟩ := hfile.node
    cases hnode.symm.trans hnode'
    cases hkind.symm.trans hkind'

end TreeView
end EventTree
