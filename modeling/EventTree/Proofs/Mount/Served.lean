import EventTree.Mount.Request
import EventTree.Proofs.Mount.InodeMaps

/-!
# What a request does to the mount

Every operation asks the tree for at most one path, and then changes the inode table
by tracking, looking up, forgetting or issuing alone. A tracked number keeps its path
through every request but one that forgets its last lookups.
-/
namespace EventTree

/-- The line without its number, as the tree gave it. -/
def ListedEntry.entry (l : ListedEntry) : Entry := ⟨l.name, l.kind⟩

/-- The second table comes from the first without forgetting. -/
inductive Inodes.Grown : Inodes → Inodes → Prop where
  | refl (t : Inodes) : Grown t t
  | track {t u : Inodes} (path : Path) (kind : NodeKind) :
    Grown (t.track path kind).2 u → Grown t u
  | lookup {t u : Inodes} (path : Path) (kind : NodeKind) :
    Grown (t.lookup path kind).2 u → Grown t u
  | issue {t u : Inodes} : Grown t.issue.2 u → Grown t u

namespace Inodes.Grown
variable {t u : Inodes}

theorem coherent (g : Grown t u) (h : t.Coherent) : u.Coherent := by
  induction g with
  | refl t => exact h
  | track path kind _ ih => exact ih (h.track path kind)
  | lookup path kind _ ih => exact ih (h.lookup path kind)
  | issue _ ih => exact ih h.issue

theorem pathOf? (g : Grown t u) (h : t.Coherent) {i : Nat} {p : Path}
    (hp : t.pathOf? i = some p) (hi : i < maxNumber) : u.pathOf? i = some p := by
  induction g with
  | refl t => exact hp
  | track path kind _ ih => exact ih (h.track path kind) (h.pathOf?_track path kind hp hi)
  | lookup path kind _ ih => exact ih (h.lookup path kind) (h.pathOf?_lookup path kind hp hi)
  | issue _ ih => exact ih h.issue hp

end Inodes.Grown

namespace Mount
variable {σ : Type} [QuerySource σ]

/-! ## The operations, case by case -/

theorem inquire_eq {m : Mount} {source next : σ} {q : Inquiry α} {answer : Except TreeFault α}
    (h : q.run m.policy source = (answer, next)) :
    m.inquire source q = (answer.mapError (·.errorNumber), next) := by
  rw [inquire, h]

theorem statAt_error {m : Mount} {source next : σ} {path : Path} {e : ErrorNumber}
    (h : m.inquire source (TreeView.stat path) = (.error e, next))
    (number : Inodes → Path → NodeKind → Nat × Inodes) :
    m.statAt source path number = (.error e, m, next) := by
  simp only [statAt, h]

theorem statAt_ok {m : Mount} {source next : σ} {path : Path} {stat : Stat}
    (h : m.inquire source (TreeView.stat path) = (.ok stat, next))
    (number : Inodes → Path → NodeKind → Nat × Inodes) :
    m.statAt source path number =
      (.ok ⟨(number m.inodes path stat.kind).1, stat, m.owner⟩,
        { m with inodes := (number m.inodes path stat.kind).2 }, next) := by
  simp only [statAt, h]

theorem attributes_eq {m : Mount} {inode : Nat} {path : Path}
    (h : m.inodes.pathOf? inode = some path) (source : σ) :
    m.attributes source inode = m.statAt source path Inodes.track := by
  simp only [attributes, h]

theorem lookup_eq {m : Mount} {parent : Nat} {path : Path}
    (h : m.inodes.pathOf? parent = some path) (source : σ) (name : Bytes) :
    m.lookup source parent name = m.statAt source (path.join name) Inodes.lookup := by
  simp only [lookup, h]

/-- What a lookup that succeeds has found, and where. -/
theorem lookup_ok {m : Mount} {source : σ} {parent : Nat} {name : Bytes}
    {found : NodeAttributes} (h : (m.lookup source parent name).1 = .ok found) :
    ∃ path, m.inodes.pathOf? parent = some path ∧
      found.inode = (m.inodes.lookup (path.join name) found.stat.kind).1 ∧
      (m.lookup source parent name).2.1.inodes =
        (m.inodes.lookup (path.join name) found.stat.kind).2 := by
  cases hpath : m.inodes.pathOf? parent with
  | none =>
    simp only [lookup, hpath] at h
    cases h
  | some path =>
    rw [lookup_eq hpath] at h ⊢
    rcases hask : m.inquire source (TreeView.stat (path.join name)) with ⟨answer, next⟩
    cases answer with
    | error e =>
      rw [statAt_error hask] at h
      cases h
    | ok stat =>
      rw [statAt_ok hask] at h ⊢
      cases h
      exact ⟨path, rfl, rfl, rfl⟩

theorem numberEntries_entry (directory : Path) (t : Inodes) (entries : List Entry) :
    (numberEntries directory t entries).1.map (·.entry) = entries := by
  induction entries generalizing t with
  | nil => rfl
  | cons e rest ih =>
    rw [numberEntries, List.map_cons, ih]
    rfl

theorem listing_ok {m : Mount} {source next : σ} {inode : Nat} {path : Path}
    {entries : List Entry} (hpath : m.inodes.pathOf? inode = some path)
    (h : m.inquire source (TreeView.entries path) = (.ok entries, next)) :
    m.listing source inode =
      (.ok (⟨inode, .directory, "."⟩ :: ⟨m.inodes.parentOf inode, .directory, ".."⟩ ::
          (numberEntries path m.inodes entries).1),
        { m with inodes := (numberEntries path m.inodes entries).2 }, next) := by
  simp only [listing, hpath, h]

theorem listing_error {m : Mount} {source next : σ} {inode : Nat} {path : Path}
    {e : ErrorNumber} (hpath : m.inodes.pathOf? inode = some path)
    (h : m.inquire source (TreeView.entries path) = (.error e, next)) :
    m.listing source inode = (.error e, m, next) := by
  simp only [listing, hpath, h]

theorem openFile_ok {m : Mount} {source next : σ} {inode : Nat} {path : Path}
    {flags : Int32} {content : Bytes} (hpath : m.inodes.pathOf? inode = some path)
    (h : m.inquire source (TreeView.content path (.ofFlags flags)) = (.ok content, next)) :
    m.openFile source inode flags =
      (.ok m.nextHandle,
        { m with
          handles := m.handles.insert m.nextHandle content
          nextHandle := m.nextHandle + 1 },
        next) := by
  simp only [openFile, hpath, h]

theorem openFile_error {m : Mount} {source next : σ} {inode : Nat} {path : Path}
    {flags : Int32} {e : ErrorNumber} (hpath : m.inodes.pathOf? inode = some path)
    (h : m.inquire source (TreeView.content path (.ofFlags flags)) = (.error e, next)) :
    m.openFile source inode flags = (.error e, m, next) := by
  simp only [openFile, hpath, h]

/-! ## The inode table after a request -/

theorem statAt_grown (m : Mount) (source : σ) (path : Path)
    {number : Inodes → Path → NodeKind → Nat × Inodes}
    (hnumber : ∀ kind, m.inodes.Grown (number m.inodes path kind).2) :
    m.inodes.Grown (m.statAt source path number).2.1.inodes := by
  rcases hask : m.inquire source (TreeView.stat path) with ⟨answer, next⟩
  cases answer with
  | error e =>
    rw [statAt_error hask]
    exact .refl _
  | ok stat =>
    rw [statAt_ok hask]
    exact hnumber stat.kind

theorem lookup_grown (m : Mount) (source : σ) (parent : Nat) (name : Bytes) :
    m.inodes.Grown (m.lookup source parent name).2.1.inodes := by
  cases hpath : m.inodes.pathOf? parent with
  | none =>
    simp only [lookup, hpath]
    exact .refl _
  | some path =>
    rw [lookup_eq hpath]
    exact m.statAt_grown source _ fun kind => .lookup _ kind (.refl _)

theorem attributes_grown (m : Mount) (source : σ) (inode : Nat) :
    m.inodes.Grown (m.attributes source inode).2.1.inodes := by
  cases hpath : m.inodes.pathOf? inode with
  | none =>
    simp only [attributes, hpath]
    exact .refl _
  | some path =>
    rw [attributes_eq hpath]
    exact m.statAt_grown source _ fun kind => .track _ kind (.refl _)

theorem numberEntries_grown (directory : Path) (t : Inodes) (entries : List Entry) :
    t.Grown (numberEntries directory t entries).2 := by
  induction entries generalizing t with
  | nil => exact .refl t
  | cons e rest ih =>
    unfold numberEntries
    cases hknown : t.numberOf? (directory.join (Text.encode e.name)) with
    | some inode => exact ih t
    | none => exact .issue (ih t.issue.2)

theorem listing_grown (m : Mount) (source : σ) (inode : Nat) :
    m.inodes.Grown (m.listing source inode).2.1.inodes := by
  cases hpath : m.inodes.pathOf? inode with
  | none =>
    simp only [listing, hpath]
    exact .refl _
  | some path =>
    rcases hask : m.inquire source (TreeView.entries path) with ⟨answer, next⟩
    cases answer with
    | error e =>
      rw [listing_error hpath hask]
      exact .refl _
    | ok entries =>
      rw [listing_ok hpath hask]
      exact numberEntries_grown path m.inodes entries

theorem openFile_inodes (m : Mount) (source : σ) (inode : Nat) (flags : Int32) :
    (m.openFile source inode flags).2.1.inodes = m.inodes := by
  cases hpath : m.inodes.pathOf? inode with
  | none => simp only [openFile, hpath]
  | some path =>
    rcases hask : m.inquire source (TreeView.content path (.ofFlags flags)) with ⟨answer, next⟩
    cases answer with
    | error e => rw [openFile_error hpath hask]
    | ok content => rw [openFile_ok hpath hask]

/-! A reply is made of an operation's result and leaves its mount alone. -/

theorem serve_lookup_mount (m : Mount) (source : σ) (parent : Nat) (name : Bytes) :
    (m.serve source (.lookup parent name)).2.1 = (m.lookup source parent name).2.1 := by
  simp only [serve]
  split <;> next heq => rw [heq]

theorem serve_attributes_mount (m : Mount) (source : σ) (inode : Nat) :
    (m.serve source (.attributes inode)).2.1 = (m.attributes source inode).2.1 := by
  simp only [serve]
  split <;> next heq => rw [heq]

theorem serve_openFile_mount (m : Mount) (source : σ) (inode : Nat) (flags : Int32) :
    (m.serve source (.openFile inode flags)).2.1 = (m.openFile source inode flags).2.1 := by
  simp only [serve]
  split <;> next heq => rw [heq]

theorem serve_read_mount (m : Mount) (source : σ) (handle : Nat) (offset : Int) (size : Nat) :
    (m.serve source (.read handle offset size)).2.1 = m := by
  simp only [serve]
  split <;> rfl

theorem serve_readDirectory_mount (m : Mount) (source : σ) (inode : Nat) (offset : Int)
    (room : Nat) :
    (m.serve source (.readDirectory inode offset room)).2.1 = (m.listing source inode).2.1 := by
  simp only [serve]
  split <;> next heq => rw [heq]

/-- A request that is no forget only adds to what is tracked. -/
theorem serve_grown (m : Mount) (source : σ) {request : Request}
    (hrequest : ∀ inode count, request ≠ .forget inode count) :
    m.inodes.Grown (m.serve source request).2.1.inodes := by
  cases request with
  | lookup parent name =>
    rw [serve_lookup_mount]
    exact m.lookup_grown source parent name
  | attributes inode =>
    rw [serve_attributes_mount]
    exact m.attributes_grown source inode
  | forget inode count => exact absurd rfl (hrequest inode count)
  | openFile inode flags =>
    rw [serve_openFile_mount, openFile_inodes]
    exact .refl _
  | read handle offset size =>
    rw [serve_read_mount]
    exact .refl _
  | readDirectory inode offset room =>
    rw [serve_readDirectory_mount]
    exact m.listing_grown source inode
  | _ => exact .refl _

theorem serve_coherent {m : Mount} (h : m.inodes.Coherent) (source : σ) (request : Request) :
    (m.serve source request).2.1.inodes.Coherent := by
  cases request with
  | forget inode count => exact h.forget inode count
  | _ => exact (m.serve_grown source (by nofun)).coherent h

/-- The request leaves a lookup of the inode, should it take some back. -/
def Keeps (m : Mount) (inode : Nat) (request : Request) : Prop :=
  ∀ count, request = .forget inode count →
    inode = Inodes.rootNumber ∨ ∃ e, m.inodes.get? inode = some e ∧ count < e.lookups

theorem serve_pathOf? {m : Mount} (h : m.inodes.Coherent) (source : σ) {request : Request}
    {inode : Nat} {path : Path} (hpath : m.inodes.pathOf? inode = some path)
    (hinode : inode < Inodes.maxNumber) (hkeeps : m.Keeps inode request) :
    (m.serve source request).2.1.inodes.pathOf? inode = some path := by
  cases request with
  | forget i count =>
    apply Inodes.pathOf?_forget hpath
    rintro rfl
    exact hkeeps count rfl
  | _ => exact (m.serve_grown source (by nofun)).pathOf? h hpath hinode

end Mount
end EventTree
