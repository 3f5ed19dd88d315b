import EventTree.Proofs.Mount.LastNumber
import EventTree.Proofs.Tree.Nodes
import EventTree.Proofs.Tree.Spelling

/-!
# Tracked numbers stand for distinct nodes

A name that is looked up may be any bytes: a dot or two, a path of its own, no text at all.
What gets into the table is nevertheless the path of a node, under the kind of that node, and
no node is tracked under two numbers, since two absolute paths to one node are two spellings
of one place.

Behind the last of all numbers, too, a node of its own stands, but once the number is issued
again the kind may be that of a node that had it before: see
`last_number_has_kind_of_earlier_node`.
-/
namespace EventTree

/-- The entry of a number belongs to a node of the tree. -/
structure TrackedNode.Denotes (e : TrackedNode) (inode : Nat) : Prop where
  absolute : e.path.isAbsolute = true
  node : ∃ node, e.path.node = .ok node ∧ (inode < Inodes.maxNumber → e.kind = node.kind)

namespace Inodes

structure Denoting (t : Inodes) : Prop where
  coherent : t.Coherent
  denotes : ∀ {i e}, t.get? i = some e → e.Denotes i

/-- No node is tracked under two numbers. -/
theorem Denoting.number_of_node {t : Inodes} (h : t.Denoting) {i j : Nat} {e f : TrackedNode}
    (hi : t.get? i = some e) (hj : t.get? j = some f) (hnode : e.path.node = f.path.node) :
    i = j := by
  obtain ⟨node, he, -⟩ := (h.denotes hi).node
  have hsame := Path.same_of_node (h.denotes hi).absolute (h.denotes hj).absolute he
    (hnode.symm.trans he)
  have hnumber := h.coherent.number_of_path (pathOf?_eq_some_iff.2 ⟨e, hi, rfl⟩)
  have hnumber' := h.coherent.number_of_path (pathOf?_eq_some_iff.2 ⟨f, hj, rfl⟩)
  rw [t.numberOf?_congr hsame, hnumber'] at hnumber
  exact (Option.some.inj hnumber).symm

/-! ## Every change keeps to nodes -/

theorem initial_denoting : initial.Denoting where
  coherent := initial_coherent
  denotes {i e} he := by
    rw [get?_initial] at he
    split at he
    · cases he
      exact ⟨rfl, .root, eq_ok_of_toOption (by decide +kernel), fun _ => rfl⟩
    · cases he

namespace Denoting
variable {t : Inodes}

theorem modify (h : t.Denoting) (inode : Nat) {f : TrackedNode → TrackedNode}
    (hpath : ∀ e, (f e).path = e.path)
    (hdenotes : ∀ {e}, t.get? inode = some e → (f e).Denotes inode) :
    (t.modify inode f).Denoting where
  coherent := h.coherent.modify inode hpath
  denotes {i e} he := by
    rw [get?_modify] at he
    split at he
    · next hi =>
      obtain ⟨known, hknown, rfl⟩ := Option.map_eq_some_iff.1 he
      exact hi ▸ hdenotes hknown
    · exact h.denotes he

theorem reserve (h : t.Denoting) (count : Nat) : (t.reserve count).Denoting :=
  ⟨h.coherent.reserve count, h.denotes⟩

theorem track (h : t.Denoting) {path : Path} {node : Node} (habsolute : path.isAbsolute = true)
    (hnode : path.node = .ok node) : (t.track path node.kind).2.Denoting := by
  cases hnumber : t.numberOf? path with
  | some inode =>
    rw [track_known hnumber]
    refine h.modify inode (fun _ => rfl) fun {e} he => ?_
    obtain ⟨known, hknown, -⟩ := (h.denotes he).node
    refine ⟨(h.denotes he).absolute, known, hknown, fun hlt => ?_⟩
    -- Below the last number the entry has the place of the path, and so the same node.
    obtain ⟨q, hq, hsame⟩ := h.coherent.path_of_number hnumber hlt
    obtain ⟨e', he', rfl⟩ := pathOf?_eq_some_iff.1 hq
    rw [he] at he'
    cases he'
    rw [hsame.node_ok hnode] at hknown
    exact congrArg Node.kind (Except.ok.inj hknown)
  | none =>
    rw [h.coherent.track_new hnumber]
    refine ⟨h.coherent.enter node.kind hnumber, fun {i e} he => ?_⟩
    rw [get?_enter] at he
    split at he
    · cases he
      exact ⟨habsolute, node, hnode, fun _ => rfl⟩
    · exact h.denotes he

theorem lookup (h : t.Denoting) {path : Path} {node : Node} (habsolute : path.isAbsolute = true)
    (hnode : path.node = .ok node) : (t.lookup path node.kind).2.Denoting := by
  rw [lookup_eq]
  have htrack := h.track habsolute hnode
  exact htrack.modify _ (fun _ => rfl) fun he =>
    ⟨(htrack.denotes he).absolute, (htrack.denotes he).node⟩

theorem forget (h : t.Denoting) (inode count : Nat) : (t.forget inode count).Denoting := by
  rcases t.forget_cases inode count with heq | heq | ⟨e, hroot, he, -, heq⟩
  · rw [heq]
    exact h
  · rw [heq]
    exact h.modify inode (fun _ => rfl) fun he => ⟨(h.denotes he).absolute, (h.denotes he).node⟩
  · rw [heq]
    refine ⟨h.coherent.drop hroot (pathOf?_eq_some_iff.2 ⟨e, he, rfl⟩), fun {i known} hknown => ?_⟩
    rw [get?_drop] at hknown
    split at hknown
    · cases hknown
    · exact h.denotes hknown

end Denoting
end Inodes

namespace Mount
variable {σ : Type} [QuerySource σ]

theorem Updates.denoting {m : Mount} {request : Request} {t : Inodes} (u : m.Updates request t)
    (h : m.inodes.Denoting) : t.Denoting := by
  cases u with
  | reserve count => exact h.reserve count
  | attributes hpath hnode =>
    obtain ⟨e, he, rfl⟩ := Inodes.pathOf?_eq_some_iff.1 hpath
    exact h.track (h.denotes he).absolute hnode
  | lookup hpath hnode =>
    obtain ⟨e, he, rfl⟩ := Inodes.pathOf?_eq_some_iff.1 hpath
    exact h.lookup (Path.isAbsolute_join (h.denotes he).absolute _) hnode
  | forget inode count => exact h.forget inode count

theorem serveAll_denoting {m : Mount} (h : m.inodes.Denoting) (requests : List (σ × Request)) :
    (m.serveAll requests).inodes.Denoting := by
  induction requests generalizing m with
  | nil => exact h
  | cons r rest ih => exact ih ((serve_updates h.coherent.next_le r.1 r.2).denoting h)

/-- Whatever is asked of a mount, every tracked number stands for a node of the tree, under
its kind unless it is the last one, and two numbers never stand for one node. While numbers are
left, the last one is not tracked. -/
theorem tracked_denote_distinct_nodes (policy : FailurePolicy) (owner : Owner)
    (requests : List (σ × Request)) :
    let t := (({ policy, owner } : Mount).serveAll requests).inodes
    (∀ i e, t.get? i = some e → ∃ node, e.path.node = .ok node ∧
      (i < Inodes.maxNumber → e.kind = node.kind)) ∧
    (∀ i j e f, t.get? i = some e → t.get? j = some f → i ≠ j → e.path.node ≠ f.path.node) ∧
    (t.next < Inodes.maxNumber → ∀ i e, t.get? i = some e → i < Inodes.maxNumber) := by
  intro t
  have h : t.Denoting := serveAll_denoting Inodes.initial_denoting requests
  refine ⟨fun i e he => (h.denotes he).node, ?_,
    fun hleft i e he => h.coherent.tracked_lt_last hleft he⟩
  intro i j e f he hf hne hnode
  exact hne (h.number_of_node he hf hnode)

/-- A file found by an absolute name and again below a directory, between names that are no
nodes, names that stay in place, and failures of the index. -/
theorem tracked_denote_distinct_nodes_of_odd_names :
    let source : String → Except QueryFault (List Event) :=
      fun _ => .ok [{ host := "a", service := "b", state := "ok" }]
    let failing : String → Except QueryFault (List Event) := fun _ => .error .timeout
    let requests := [(source, .lookup 1 (Text.encode "a")), (source, .lookup 2 (Text.encode "..")),
      (failing, .lookup 2 (Text.encode ".")), (source, .lookup 2 (Text.encode "//a/b/State")),
      (source, .lookup 1 [0xFF]), (source, .lookup 1 []), (failing, .attributes 3),
      (source, .lookup 2 (Text.encode "b/./State")), (source, .readDirectory 1 0 4096),
      (failing, .lookup 1 (Text.encode ".query"))]
    let t := (({} : Mount).serveAll requests).inodes
    ∃ e f, t.get? 3 = some e ∧ t.get? 5 = some f ∧ e.path = .ofString "//a/b/State" ∧
      (∃ node, e.path.node = .ok node ∧ e.kind = node.kind) ∧ e.path.node ≠ f.path.node := by
  intro source failing requests t
  have hfile : t.get? 3 = some ⟨.ofString "//a/b/State", .file, 2⟩ := by decide +kernel
  have hfilters : t.get? 5 = some ⟨.ofString "/.query", .directory, 1⟩ := by decide +kernel
  have hrun : t = (({} : Mount).serveAll requests).inodes := rfl
  obtain ⟨hnodes, hdistinct, -⟩ := tracked_denote_distinct_nodes .lenient {} requests
  rw [← hrun] at hnodes hdistinct
  -- All that had to be computed is; the table itself is not looked into again.
  clear_value t
  obtain ⟨node, hnode, hkind⟩ := hnodes 3 _ hfile
  exact ⟨_, _, hfile, hfilters, rfl, ⟨node, hnode, hkind (by decide)⟩,
    hdistinct 3 5 _ _ hfile hfilters (by decide)⟩

/-- The last number, found for a directory, for one below it and for a file in that. When the
directory is looked up again, its kind is put down for the file. -/
theorem last_number_has_kind_of_earlier_node :
    let source : String → Except QueryFault (List Event) :=
      fun _ => .ok [{ host := "a", service := "b", state := "ok" }]
    let last := Inodes.maxNumber
    let listings := List.replicate (2 ^ 63) (source, .readDirectory 1 0 4096)
    let t := (({} : Mount).serveAll (listings ++ [(source, .lookup 1 (Text.encode "a")),
      (source, .lookup last (Text.encode "b")), (source, .lookup last (Text.encode "State")),
      (source, .lookup 1 (Text.encode "a"))])).inodes
    ∃ e node, t.get? last = some e ∧ e.path = .ofString "/a/b/State" ∧ e.path.node = .ok node ∧
      e.kind = .directory ∧ node.kind = .file := by
  intro source last listings t
  have hlistings : ({} : Mount).serveAll listings = exhausted {} :=
    serveAll_listings_exhausted source 1 0 4096 (by decide) (by decide +kernel)
  have hlast : t.get? last = some ⟨.ofString "/a/b/State", .directory, 2⟩ := by
    simp only [t, serveAll_append, hlistings]
    decide +kernel
  have hnode : (Path.ofString "/a/b/State").node = .ok (.field ⟨none, "a", "b"⟩ "State") :=
    eq_ok_of_toOption (by decide +kernel)
  exact ⟨_, _, hlast, rfl, hnode, rfl, rfl⟩

end Mount
end EventTree
