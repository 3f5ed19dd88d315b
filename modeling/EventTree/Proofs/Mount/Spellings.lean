import EventTree.Proofs.Mount.InodeMaps
import EventTree.Proofs.Path.Spellings
import EventTree.Proofs.Tree.Operations
import EventTree.Proofs.Tree.Spelling

/-!
# Spellings are not told apart

A path is used for its names alone. Any spelling of them leads to the same node, to the same
answers of the tree and to the same inode number. The spelling that was given shows up in two
places only: in a fault that names a path, and in the table, which keeps the spelling that a
node was first tracked under.

Of the table this is said for two tables that differ in kept spellings, since that is what
two spellings leave behind. Such tables give the same numbers and become such tables again.
-/
namespace EventTree

/-! ## Operations on the tree -/

theorem TreeView.Operation.inquiry_spelling {p q : Path} (h : p.Same q) (operation : Operation) :
    operation.inquiry p = (operation.inquiry q).mapFault (·.relocate p) := by
  cases operation with
  | entries => exact h.entries
  | stat => exact h.stat
  | content mode => exact h.content mode
  | read offset size =>
    change TreeView.read p offset size = (TreeView.read q offset size).mapFault _
    rw [TreeView.read, TreeView.read, Inquiry.map_mapFault, ← h.content]

/-! ## The inode table -/

/-- What an entry says but for the spelling of its path. -/
def TrackedNode.unspelled (e : TrackedNode) : List Component × NodeKind × Nat :=
  (e.path.components, e.kind, e.lookups)

namespace Inodes

/-- The tables are the same but for the spellings that they keep. -/
structure Respells (t u : Inodes) : Prop where
  entries : ∀ i, (t.get? i).map (·.unspelled) = (u.get? i).map (·.unspelled)
  numbers : ∀ place, t.numbers.get? place = u.numbers.get? place
  next : t.next = u.next

theorem track_unknown {t : Inodes} {path : Path} (h : t.numberOf? path = none)
    (kind : NodeKind) : t.track path kind =
      if path.Same .root then (rootNumber, t.enter rootNumber path kind)
      else (t.next, t.issue.2.enter t.next path kind) := by
  simp only [track, h]
  split_ifs <;> rfl

namespace Respells
variable {t u : Inodes} {p q : Path}

theorem refl (t : Inodes) : t.Respells t := ⟨fun _ => rfl, fun _ => rfl, rfl⟩

theorem numberOf? (h : t.Respells u) (hpq : p.Same q) : t.numberOf? p = u.numberOf? q := by
  rw [t.numberOf?_congr hpq]
  exact h.numbers q.components

/-- A change of an entry that does not look at the path. -/
theorem modify (h : t.Respells u) (inode : Nat) {f : TrackedNode → TrackedNode}
    (g : List Component × NodeKind × Nat → List Component × NodeKind × Nat)
    (hf : ∀ e, (f e).unspelled = g e.unspelled) :
    (t.modify inode f).Respells (u.modify inode f) := by
  constructor
  · intro i
    rw [get?_modify, get?_modify]
    split_ifs with hi
    · have hcomp : TrackedNode.unspelled ∘ f = g ∘ TrackedNode.unspelled := funext hf
      rw [Option.map_map, Option.map_map, hcomp, ← Option.map_map, ← Option.map_map, h.entries]
    · exact h.entries i
  · intro place
    rw [modify_numbers, modify_numbers]
    exact h.numbers place
  · rw [modify_next, modify_next]
    exact h.next

theorem issue (h : t.Respells u) : t.issue.2.Respells u.issue.2 := by
  refine ⟨h.entries, h.numbers, ?_⟩
  rw [issue_next, issue_next, h.next]

theorem enter (h : t.Respells u) (hpq : p.Same q) (inode : Nat) (kind : NodeKind) :
    (t.enter inode p kind).Respells (u.enter inode q kind) := by
  have hplace : p.components = q.components := hpq
  constructor
  · intro i
    rw [get?_enter, get?_enter]
    split_ifs
    · simp only [Option.map_some, TrackedNode.unspelled, hplace]
    · exact h.entries i
  · intro place
    simp only [Inodes.enter, Keyed.get?_insert, hplace, h.numbers]
  · exact h.next

theorem track (h : t.Respells u) (hpq : p.Same q) (kind : NodeKind) :
    (t.track p kind).1 = (u.track q kind).1 ∧
      (t.track p kind).2.Respells (u.track q kind).2 := by
  have hnumber := h.numberOf? hpq
  cases hknown : u.numberOf? q with
  | some inode =>
    rw [hknown] at hnumber
    rw [track_known hnumber, track_known hknown]
    exact ⟨rfl, h.modify inode (fun (place, _, lookups) => (place, kind, lookups)) fun _ => rfl⟩
  | none =>
    rw [hknown] at hnumber
    rw [track_unknown hnumber, track_unknown hknown]
    have hroot : p.Same .root ↔ q.Same .root := ⟨hpq.symm.trans, hpq.trans⟩
    simp only [hroot]
    split_ifs
    · exact ⟨rfl, h.enter hpq rootNumber kind⟩
    · rw [h.next]
      exact ⟨rfl, h.issue.enter hpq u.next kind⟩

theorem lookup (h : t.Respells u) (hpq : p.Same q) (kind : NodeKind) :
    (t.lookup p kind).1 = (u.lookup q kind).1 ∧
      (t.lookup p kind).2.Respells (u.lookup q kind).2 := by
  obtain ⟨hnumber, htable⟩ := h.track hpq kind
  rw [lookup_eq, lookup_eq, hnumber]
  exact ⟨rfl, htable.modify _
    (fun (place, kind, lookups) => (place, kind, min (lookups + 1) maxNumber)) fun _ => rfl⟩

end Respells
end Inodes

variable {σ : Type} [QuerySource σ]

/-- The names of a path are those that it spells, with a slash in front or without, and a name
looked up in it comes behind them. Spellings of one place give the same in every operation, but
for the path that a fault names, and in the inode table, but for the path that it keeps. -/
theorem Path.spelling_immaterial :
    (∀ (p : Path) names, p.names? = some names ↔ p.Spells names) ∧
    (∀ p : Path, let slashed : Path := ⟨Path.slash :: p.bytes⟩
      slashed.node = p.node.mapError (·.relocate slashed)) ∧
    (∀ p q : Path, p.Same q →
      (∀ (operation : TreeView.Operation) (policy : FailurePolicy) (source : σ),
        (operation.inquiry p).run policy source =
          (((operation.inquiry q).run policy source).1.mapError (·.relocate p),
            ((operation.inquiry q).run policy source).2)) ∧
      ∀ t u : Inodes, t.Respells u → t.numberOf? p = u.numberOf? q ∧
        ∀ kind,
          ((t.track p kind).1 = (u.track q kind).1 ∧
            (t.track p kind).2.Respells (u.track q kind).2) ∧
          ((t.lookup p kind).1 = (u.lookup q kind).1 ∧
            (t.lookup p kind).2.Respells (u.lookup q kind).2)) ∧
    ∀ (p : Path) names s, p.names? = some names → s ≠ "" → '/' ∉ s.toList → s ≠ "." → s ≠ ".." →
      (p.join (Text.encode s)).names? = some (names ++ [s]) := by
  refine ⟨fun _ _ => names?_eq_some_iff, ?_, ?_, ?_⟩
  · intro p slashed
    exact node_eq_of_names? p.names?_slash
  · intro p q hpq
    refine ⟨?_, fun t u h => ⟨h.numberOf? hpq, fun kind => ⟨h.track hpq kind, h.lookup hpq kind⟩⟩⟩
    intro operation policy source
    rw [operation.inquiry_spelling hpq,
      Inquiry.run_mapFault fun fault => TreeFault.relocate_query p fault]
  · intro p names s hp hempty hslash hdot hdots
    rw [names?_join_encode p hslash hempty hdot hdots, hp]
    rfl

/-- A host under two spellings, which is opened like a file and looked up again. -/
theorem Path.spelling_immaterial_of_host :
    let source : String → Except QueryFault (List Event) := fun _ => .ok []
    let p : Path := .ofString "//web1/./"
    let q : Path := .ofString "/web1"
    let t := (Inodes.initial.lookup q .directory).2
    p.Same q ∧ p.names? = some ["web1"] ∧
      ((TreeView.content p .reading).run .strict source).1 = .error (.isADirectory p) ∧
      (t.lookup p .directory).1 = 2 ∧ (t.lookup p .directory).2.Respells (t.lookup q .directory).2 ∧
      (p.join (Text.encode "cpu")).names? = some ["web1", "cpu"] := by
  intro source p q t
  have hsame : p.Same q := by decide +kernel
  have hnames : p.names? = some ["web1"] := by decide +kernel
  obtain ⟨-, -, hplace, hjoin⟩ :=
    Path.spelling_immaterial (σ := String → Except QueryFault (List Event))
  obtain ⟨hrun, htables⟩ := hplace p q hsame
  obtain ⟨-, hnumber, htable⟩ := (htables t t (.refl t)).2 .directory
  refine ⟨hsame, hnames, ?_, hnumber.trans (by decide +kernel), htable, ?_⟩
  · have hnode : q.node = .ok (.services none "web1") := eq_ok_of_toOption (by decide +kernel)
    have hopened : ((TreeView.content q .reading).run .strict source).1 =
        .error (.isADirectory q) := by
      rw [TreeView.content, if_neg (by decide), hnode]
      rfl
    exact (congrArg Prod.fst (hrun (.content .reading) .strict source)).trans
      (congrArg (Except.mapError (TreeFault.relocate p)) hopened)
  · exact hjoin p _ "cpu" hnames (by decide) (by decide) (by decide) (by decide)

end EventTree
