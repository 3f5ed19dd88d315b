import EventTree.Proofs.Mount.LastNumber
import EventTree.Proofs.Tree.Spelling

/-!
# The mount shows the tree

A number that was reached by lookups from the root stands for the path of the looked up
names, whatever else is asked of the mount in between, as long as the number itself is
not forgotten. What the mount answers under it is what the tree answers under the path
at that time. The path that the table keeps may be spelled in another way, since another
lookup may have come first; the tree does not see the difference.

All numbers but the last of 64 bits stand for one place each. A walk over the last one can
lead elsewhere, as `walk_leads_elsewhere_over_last_number` shows; as long as numbers are left,
no walk meets it.
-/
namespace EventTree.Mount
variable {σ : Type} [QuerySource σ]

theorem inquire_mapFault (m : Mount) (source : σ) (path : Path) (q : Inquiry α) :
    m.inquire source (q.mapFault (·.relocate path)) = m.inquire source q := by
  unfold inquire
  rw [Inquiry.run_mapFault fun fault => TreeFault.relocate_query path fault]
  simp only [mapError_mapError _ _ _ (TreeFault.relocate_errorNumber path)]

/-- Names looked up one below the other from the root on, each with the number it was found
under, and other requests between the lookups and after them. The inode is that of the last
name. -/
inductive Walk (σ : Type) [QuerySource σ] : Mount → List (Bytes × Nat) → Nat → Prop where
  | start (policy : FailurePolicy) (owner : Owner) :
    Walk σ { policy, owner } [] Inodes.rootNumber
  | descend {m : Mount} {chain : List (Bytes × Nat)} {inode : Nat} {name : Bytes}
    {found : NodeAttributes} (source : σ) :
    Walk σ m chain inode → Path.slash ∉ name →
    (m.lookup source inode name).1 = .ok found →
    Walk σ (m.lookup source inode name).2.1 (chain ++ [(name, found.inode)]) found.inode
  /-- The source may be another than before: the index changes as it likes. -/
  | serve {m : Mount} {chain : List (Bytes × Nat)} {inode : Nat} {request : Request}
    (source : σ) :
    Walk σ m chain inode → m.Keeps inode request →
    Walk σ (m.serve source request).2.1 chain inode

/-! ## Where a walk stands -/

structure Stands (m : Mount) (names : List Bytes) (inode : Nat) : Prop where
  coherent : m.inodes.Coherent
  plain : ∀ name ∈ names, Path.slash ∉ name
  number : inode < Inodes.maxNumber
  place : ∃ path, m.inodes.pathOf? inode = some path ∧ path.Same (.ofNames names)

theorem start_stands (policy : FailurePolicy) (owner : Owner) :
    Stands { policy, owner } [] Inodes.rootNumber where
  coherent := Inodes.initial_coherent
  plain := nofun
  number := by decide
  place := ⟨.root, Inodes.initial_coherent.root, rfl⟩

theorem Stands.descend {m : Mount} {names : List Bytes} {inode : Nat} {name : Bytes}
    {source : σ} {found : NodeAttributes} (h : m.Stands names inode)
    (hname : Path.slash ∉ name) (hlookup : (m.lookup source inode name).1 = .ok found)
    (hnumber : found.inode < Inodes.maxNumber) :
    (m.lookup source inode name).2.1.Stands (names ++ [name]) found.inode := by
  obtain ⟨path, hpath, hsame⟩ := h.place
  generalize hnext' : (m.lookup source inode name).2.1 = next
  obtain ⟨path', hpath', hinode, hnext⟩ := lookup_ok hlookup
  rw [hpath] at hpath'
  cases hpath'
  rw [hnext'] at hnext
  have hcoherent : next.inodes.Coherent := by
    rw [hnext]
    exact h.coherent.lookup _ _
  have hfound : next.inodes.numberOf? (path.join name) = some found.inode := by
    rw [hnext, hinode]
    exact Inodes.numberOf?_lookup h.coherent _ _
  -- The table may know the place under another spelling than the one just looked up.
  obtain ⟨known, hknown, hspelling⟩ := hcoherent.path_of_number hfound hnumber
  have hplace : (path.join name).Same (.ofNames (names ++ [name])) :=
    (hsame.join (Path.isAbsolute_ofNames names) hname).trans
      (Path.ofNames_append h.plain hname).symm
  refine ⟨hcoherent, ?_, hnumber, known, hknown, hspelling.trans hplace⟩
  intro n hn
  rcases List.mem_append.1 hn with hn | hn
  · exact h.plain n hn
  · rw [List.mem_singleton.1 hn]
    exact hname

theorem Stands.serve {m : Mount} {names : List Bytes} {inode : Nat} (h : m.Stands names inode)
    (source : σ) {request : Request} (hkeeps : m.Keeps inode request) :
    (m.serve source request).2.1.Stands names inode := by
  obtain ⟨path, hpath, hsame⟩ := h.place
  exact ⟨serve_coherent h.coherent source request, h.plain, h.number, path,
    serve_pathOf? h.coherent source hpath h.number hkeeps, hsame⟩

namespace Walk
variable {m : Mount} {chain : List (Bytes × Nat)} {inode : Nat}

theorem stands (walk : Walk σ m chain inode) (hchain : ∀ link ∈ chain, link.2 < Inodes.maxNumber) :
    m.Stands (chain.map (·.1)) inode := by
  induction walk with
  | start policy owner => exact start_stands policy owner
  | descend source _ hname hlookup ih =>
    rw [List.forall_mem_append, List.forall_mem_singleton] at hchain
    rw [List.map_append]
    exact (ih hchain.1).descend hname hlookup hchain.2
  | serve source _ hkeeps ih => exact (ih hchain).serve source hkeeps

theorem coherent (walk : Walk σ m chain inode) : m.inodes.Coherent := by
  induction walk with
  | start policy owner => exact Inodes.initial_coherent
  | descend source _ _ _ ih =>
    rw [← serve_lookup_mount]
    exact serve_coherent ih source _
  | serve source _ _ ih => exact serve_coherent ih source _

theorem numbers_left (walk : Walk σ m chain inode) (hleft : m.inodes.next < Inodes.maxNumber) :
    ∀ link ∈ chain, link.2 < Inodes.maxNumber := by
  induction walk with
  | start policy owner => exact nofun
  | @descend m chain inode name found source walk _ hlookup ih =>
    have hnext := serve_next_le walk.coherent source (.lookup inode name)
    rw [serve_lookup_mount] at hnext
    rw [List.forall_mem_append, List.forall_mem_singleton]
    exact ⟨ih (Nat.lt_of_le_of_lt hnext hleft), found_lt_last walk.coherent hlookup hleft⟩
  | serve source walk _ ih =>
    exact ih (Nat.lt_of_le_of_lt (serve_next_le walk.coherent source _) hleft)

/-- Requests that forget nothing do not disturb a walk. -/
theorem serveAll (walk : Walk σ m chain inode) {requests : List (σ × Request)}
    (hrequests : ∀ r ∈ requests, ∀ inode count, r.2 ≠ .forget inode count) :
    Walk σ (m.serveAll requests) chain inode := by
  induction requests generalizing m with
  | nil => exact walk
  | cons r rest ih =>
    rw [List.forall_mem_cons] at hrequests
    have hkeeps : m.Keeps inode r.2 := fun count h => absurd h (hrequests.1 inode count)
    exact ih (walk.serve r.1 hkeeps) hrequests.2

end Walk

/-! ## What is answered there -/

theorem inquire_stat (m : Mount) (source : σ) {p q : Path} (h : p.Same q) :
    m.inquire source (TreeView.stat p) = m.inquire source (TreeView.stat q) := by
  rw [h.stat, inquire_mapFault]

theorem inquire_entries (m : Mount) (source : σ) {p q : Path} (h : p.Same q) :
    m.inquire source (TreeView.entries p) = m.inquire source (TreeView.entries q) := by
  rw [h.entries, inquire_mapFault]

theorem inquire_content (m : Mount) (source : σ) {p q : Path} (h : p.Same q) (mode : OpenMode) :
    m.inquire source (TreeView.content p mode) = m.inquire source (TreeView.content q mode) := by
  rw [h.content, inquire_mapFault]

theorem statAt_attributes (m : Mount) (source : σ) {path place : Path} {inode : Nat}
    {number : Inodes → Path → NodeKind → Nat × Inodes} (hsame : path.Same place)
    (hnumber : ∀ kind, (number m.inodes path kind).1 = inode) :
    (m.statAt source path number).1 =
      (m.inquire source (TreeView.stat place)).1.map (⟨inode, ·, m.owner⟩) := by
  rw [← m.inquire_stat source hsame]
  rcases hask : m.inquire source (TreeView.stat path) with ⟨answer, next⟩
  cases answer with
  | error e =>
    rw [statAt_error hask]
    rfl
  | ok stat =>
    rw [statAt_ok hask, hnumber]
    rfl

/-- Under the number of a walk the mount answers as the tree does under its path, unless the
walk is over the last number. While numbers are left, no walk is. -/
theorem walk_shows_tree {m : Mount} {chain : List (Bytes × Nat)} {inode : Nat}
    (walk : Walk σ m chain inode) :
    (m.inodes.next < Inodes.maxNumber → ∀ link ∈ chain, link.2 < Inodes.maxNumber) ∧
    ((∀ link ∈ chain, link.2 < Inodes.maxNumber) → ∀ source : σ,
      let place := Path.ofNames (chain.map (·.1))
      (m.attributes source inode).1 =
        (((TreeView.stat place).run m.policy source).1.mapError (·.errorNumber)).map
          (⟨inode, ·, m.owner⟩) ∧
      (m.listing source inode).1.map (·.map (·.entry)) =
        (((TreeView.entries place).run m.policy source).1.mapError (·.errorNumber)).map
          ([.directory ".", .directory ".."] ++ ·) ∧
      (∀ flags,
        (m.openFile source inode flags).1.map (m.openFile source inode flags).2.1.handles.get? =
          (((TreeView.content place (.ofFlags flags)).run m.policy source).1.mapError
            (·.errorNumber)).map some) ∧
      (∀ name, name = [] ∨ name = [Path.dot] →
        (m.lookup source inode name).1 = (m.attributes source inode).1)) := by
  refine ⟨walk.numbers_left, fun hchain source => ?_⟩
  intro place
  have h := walk.stands hchain
  obtain ⟨path, hpath, hsame⟩ := h.place
  have hknown : m.inodes.numberOf? path = some inode := h.coherent.number_of_path hpath
  have hattributes : (m.attributes source inode).1 =
      (m.inquire source (TreeView.stat place)).1.map (⟨inode, ·, m.owner⟩) := by
    rw [attributes_eq hpath]
    apply m.statAt_attributes source hsame
    intro kind
    rw [Inodes.track_known hknown]
  refine ⟨hattributes, ?_, ?_, ?_⟩
  · change _ = (m.inquire source (TreeView.entries place)).1.map _
    rw [← m.inquire_entries source hsame]
    rcases hask : m.inquire source (TreeView.entries path) with ⟨answer, next⟩
    cases answer with
    | error e =>
      rw [listing_error hpath hask]
      rfl
    | ok entries =>
      rw [listing_ok hpath hask]
      simp only [Except.map, List.map_cons, numberEntries_entry]
      rfl
  · intro flags
    change _ = (m.inquire source (TreeView.content place (.ofFlags flags))).1.map _
    rw [← m.inquire_content source hsame]
    rcases hask : m.inquire source (TreeView.content path (.ofFlags flags)) with ⟨answer, next⟩
    cases answer with
    | error e =>
      rw [openFile_error hpath hask]
      rfl
    | ok content =>
      rw [openFile_ok hpath hask]
      simp only [Except.map, Keyed.get?_insert, if_true]
  · intro name hname
    have hplain : Path.slash ∉ name := by
      rcases hname with rfl | rfl <;> decide
    have hhere : (path.join name).Same path := by
      have habs := hsame.isAbsolute (Path.isAbsolute_ofNames _)
      have hnone : Path.component? name = none := by
        rcases hname with rfl | rfl <;> rfl
      change Path.components _ = Path.components _
      rw [Path.components_join habs hplain, hnone, Option.toList_none, List.append_nil]
    rw [hattributes, lookup_eq hpath]
    apply m.statAt_attributes source (hhere.trans hsame)
    intro kind
    rw [← m.inodes.numberOf?_congr hhere] at hknown
    rw [Inodes.lookup_eq, Inodes.track_known hknown]

/-- A file below a directory that was forgotten, after a step that stays in place. -/
theorem walk_shows_tree_below_forgotten :
    let source : String → Except QueryFault (List Event) :=
      fun _ => .ok [{ host := "a", service := "b", state := "ok" }]
    let chain := [("a", 2), ("b", 3), (".", 3), ("State", 4)].map fun (name, inode) =>
      (Text.encode name, inode)
    ∃ m, Walk (String → Except QueryFault (List Event)) m chain 4 ∧ m.inodes.get? 2 = none ∧
      (m.attributes source 4).1 = .ok ⟨4, .file 2 0, {}⟩ := by
  intro source chain
  let a := Text.encode "a"
  let b := Text.encode "b"
  let here := Text.encode "."
  let state := Text.encode "State"
  let m₀ : Mount := { policy := .strict }
  let m₁ := (m₀.lookup source 1 a).2.1
  let m₂ := (m₁.lookup source 2 b).2.1
  let m₃ := (m₂.lookup source 3 here).2.1
  let m₄ := (m₃.serve source (.forget 2 1)).2.1
  let m₅ := (m₄.lookup source 3 state).2.1
  have h₁ : (m₀.lookup source 1 a).1 = .ok ⟨2, .directory, {}⟩ :=
    eq_ok_of_toOption (by decide +kernel)
  have h₂ : (m₁.lookup source 2 b).1 = .ok ⟨3, .directory, {}⟩ :=
    eq_ok_of_toOption (by decide +kernel)
  have h₃ : (m₂.lookup source 3 here).1 = .ok ⟨3, .directory, {}⟩ :=
    eq_ok_of_toOption (by decide +kernel)
  have h₄ : (m₄.lookup source 3 state).1 = .ok ⟨4, .file 2 0, {}⟩ :=
    eq_ok_of_toOption (by decide +kernel)
  have w₁ : Walk _ m₁ [(a, 2)] 2 := (Walk.start .strict {}).descend source (by decide +kernel) h₁
  have w₂ : Walk _ m₂ [(a, 2), (b, 3)] 3 := w₁.descend source (by decide +kernel) h₂
  have w₃ : Walk _ m₃ [(a, 2), (b, 3), (here, 3)] 3 := w₂.descend source (by decide +kernel) h₃
  have w₄ : Walk _ m₄ [(a, 2), (b, 3), (here, 3)] 3 := w₃.serve source nofun
  have w₅ : Walk _ m₅ chain 4 := w₄.descend source (by decide +kernel) h₄
  obtain ⟨hleft, hshows⟩ := walk_shows_tree w₅
  refine ⟨m₅, w₅, by decide +kernel, ?_⟩
  rw [(hshows (hleft (by decide +kernel)) source).1]
  exact eq_ok_of_toOption (by decide +kernel)

/-- The last number, found for a directory and then issued again for what lies below: under
the number of the one name the mount shows a file, and the tree shows a directory. -/
theorem walk_leads_elsewhere_over_last_number :
    let source : String → Except QueryFault (List Event) :=
      fun _ => .ok [{ host := "a", service := "b", state := "ok" }]
    let last := Inodes.maxNumber
    let listings := List.replicate (2 ^ 63) (source, .readDirectory 1 0 4096)
    let m := ({} : Mount).serveAll (listings ++ [(source, .lookup 1 (Text.encode "a")),
      (source, .lookup last (Text.encode "b")), (source, .lookup last (Text.encode "State"))])
    Walk (String → Except QueryFault (List Event)) m [(Text.encode "a", last)] last ∧
      (m.attributes source last).1 = .ok ⟨last, .file 2 0, {}⟩ ∧
      ((TreeView.stat (.ofNames [Text.encode "a"])).run m.policy source).1 = .ok .directory := by
  intro source last listings m
  let spent : Mount := exhausted {}
  have hlistings : ({} : Mount).serveAll listings = spent :=
    serveAll_listings_exhausted source 1 0 4096 (by decide) (by decide +kernel)
  have hspent : Walk (String → Except QueryFault (List Event)) spent [] 1 := by
    rw [← hlistings]
    refine (Walk.start .lenient {}).serveAll fun r hr => ?_
    rw [List.eq_of_mem_replicate hr]
    nofun
  have hfound : (spent.lookup source 1 (Text.encode "a")).1 = .ok ⟨last, .directory, {}⟩ :=
    eq_ok_of_toOption (by decide +kernel)
  have hm : m = (spent.lookup source 1 (Text.encode "a")).2.1.serveAll
      [(source, .lookup last (Text.encode "b")), (source, .lookup last (Text.encode "State"))] := by
    rw [← serve_lookup_mount, ← serveAll_cons, ← hlistings, ← serveAll_append]
  -- The run is computed from where the listings end; their list itself is not unfolded.
  clear_value m
  subst hm
  refine ⟨(hspent.descend source (by decide +kernel) hfound).serveAll ?_,
    eq_ok_of_toOption (by decide +kernel), eq_ok_of_toOption (by decide +kernel)⟩
  simp

end EventTree.Mount
