import EventTree.Proofs.Mount.References
import EventTree.Proofs.Tree.Inquiry

/-!
# What a request makes of the inode table

Most requests leave the table alone or only use up numbers. The other three are a lookup, a
request for attributes and a forget. The first two put down a path and a kind, but not
before the tree has found a node at the path, and the kind is that node's.
-/
namespace EventTree

/-- A node is described by its own kind, and nothing else is described. -/
theorem TreeView.stat_ok {σ : Type} [QuerySource σ] {policy : FailurePolicy} {source : σ}
    {path : Path} {found : Stat} (h : ((TreeView.stat path).run policy source).1 = .ok found) :
    ∃ node, path.node = .ok node ∧ found.kind = node.kind := by
  unfold TreeView.stat at h
  cases hnode : path.node with
  | error fault =>
    rw [hnode] at h
    cases h
  | ok node =>
    refine ⟨node, rfl, ?_⟩
    rw [hnode] at h
    cases node with
    | field selector name =>
      simp only [Inquiry.run_map] at h
      cases hfile : ((TreeView.askField path selector name).run policy source).1 with
      | error fault =>
        rw [hfile] at h
        cases h
      | ok content =>
        rw [hfile] at h
        cases h
        rfl
    | _ =>
      cases h
      rfl

namespace Mount
variable {σ : Type} [QuerySource σ]

theorem inquire_stat_ok {m : Mount} {source next : σ} {path : Path} {found : Stat}
    (h : m.inquire source (TreeView.stat path) = (.ok found, next)) :
    ∃ node, path.node = .ok node ∧ found.kind = node.kind := by
  rcases hrun : (TreeView.stat path).run m.policy source with ⟨answer, later⟩
  rw [inquire_eq hrun] at h
  cases answer with
  | error fault => cases h
  | ok stat =>
    cases h
    exact TreeView.stat_ok (congrArg Prod.fst hrun)

/-- The tables that a request may leave behind. -/
inductive Updates (m : Mount) : Request → Inodes → Prop where
  | reserve {request : Request} (count : Nat) : Updates m request (m.inodes.reserve count)
  | attributes {inode : Nat} {path : Path} {node : Node} :
    m.inodes.pathOf? inode = some path → path.node = .ok node →
    Updates m (.attributes inode) (m.inodes.track path node.kind).2
  | lookup {parent : Nat} {path : Path} {name : Bytes} {node : Node} :
    m.inodes.pathOf? parent = some path → (path.join name).node = .ok node →
    Updates m (.lookup parent name) (m.inodes.lookup (path.join name) node.kind).2
  | forget (inode count : Nat) : Updates m (.forget inode count) (m.inodes.forget inode count)

/-- No number is used up if nothing happens. -/
theorem Updates.keep {m : Mount} (h : m.inodes.next ≤ Inodes.maxNumber) (request : Request) :
    m.Updates request m.inodes := by
  have hreserve : m.Updates request (m.inodes.reserve 0) := .reserve 0
  rw [Inodes.reserve_zero h] at hreserve
  exact hreserve

theorem Updates.coherent {m : Mount} {request : Request} {t : Inodes} (u : m.Updates request t)
    (h : m.inodes.Coherent) : t.Coherent := by
  cases u with
  | reserve count => exact h.reserve count
  | attributes hpath hnode => exact h.track _ _
  | lookup hpath hnode => exact h.lookup _ _
  | forget inode count => exact h.forget inode count

/-- The number to issue next is never set back. -/
theorem Updates.next_le {m : Mount} {request : Request} {t : Inodes} (u : m.Updates request t)
    (h : m.inodes.Coherent) : m.inodes.next ≤ t.next := by
  cases u with
  | reserve count =>
    have hle := h.next_le
    rw [Inodes.reserve_next]
    omega
  | attributes hpath hnode => exact h.next_le_track _ _
  | lookup hpath hnode =>
    rw [Inodes.lookup_eq, Inodes.modify_next]
    exact h.next_le_track _ _
  | forget inode count => exact Nat.le_of_eq (m.inodes.forget_next inode count).symm

/-- What is put down of a path is what the tree has found there. -/
theorem statAt_updates {m : Mount} (h : m.inodes.next ≤ Inodes.maxNumber) (source : σ)
    {request : Request} {path : Path} {number : Inodes → Path → NodeKind → Nat × Inodes}
    (hfound : ∀ node, path.node = .ok node →
      m.Updates request (number m.inodes path node.kind).2) :
    m.Updates request (m.statAt source path number).2.1.inodes := by
  rcases hask : m.inquire source (TreeView.stat path) with ⟨answer, next⟩
  cases answer with
  | error e =>
    rw [statAt_error hask]
    exact .keep h request
  | ok stat =>
    obtain ⟨node, hnode, hkind⟩ := inquire_stat_ok hask
    rw [statAt_ok hask, hkind]
    exact hfound node hnode

theorem serve_updates {m : Mount} (h : m.inodes.next ≤ Inodes.maxNumber) (source : σ)
    (request : Request) : m.Updates request (m.serve source request).2.1.inodes := by
  cases request with
  | lookup parent name =>
    rw [serve_lookup_mount]
    cases hpath : m.inodes.pathOf? parent with
    | none =>
      simp only [lookup, hpath]
      exact .keep h _
    | some path =>
      rw [lookup_eq hpath]
      exact statAt_updates h source fun node hnode => .lookup hpath hnode
  | attributes inode =>
    rw [serve_attributes_mount]
    cases hpath : m.inodes.pathOf? inode with
    | none =>
      simp only [attributes, hpath]
      exact .keep h _
    | some path =>
      rw [attributes_eq hpath]
      exact statAt_updates h source fun node hnode => .attributes hpath hnode
  | forget inode count => exact .forget inode count
  | openFile inode flags =>
    rw [serve_openFile_mount, openFile_inodes]
    exact .keep h _
  | read handle offset size =>
    rw [serve_read_mount]
    exact .keep h _
  | readDirectory inode offset room =>
    rw [serve_readDirectory_mount, listing_inodes h source inode offset room]
    exact .reserve _
  | _ => exact .keep h _

end Mount
end EventTree
