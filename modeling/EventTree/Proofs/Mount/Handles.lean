import EventTree.Proofs.Mount.Served
import EventTree.Proofs.Tree.Inquiry
import Mathlib.Algebra.Group.Nat.Defs

/-!
# Open files do not change

An open file is the content that its open found, under a handle which no other open gets.
It stays as it is until that handle is released: the tree is not asked again, so neither a
change of the index nor a forgotten inode is seen by its reader, and a reader that goes on
until nothing comes gets all of it.

Handles are counted without a bound. Below the last number of 64 bits that makes no
difference, and a run which comes there has opened that many files.
-/
namespace EventTree

namespace Mount
variable {σ : Type} [QuerySource σ]

/-! ## Requests and their handles -/

/-- The content of an opened file is kept under the next handle. -/
def keep (m : Mount) (content : Bytes) : Mount :=
  { m with
    handles := m.handles.insert m.nextHandle content
    nextHandle := m.nextHandle + 1 }

/-- The mount after requests, each of which meets a source of its own: the index changes
as it likes. -/
def serveAll (m : Mount) (requests : List (σ × Request)) : Mount :=
  requests.foldl (fun m (source, request) => (m.serve source request).2.1) m

/-- The handle that a request opens a file under. -/
def opens? (m : Mount) (source : σ) : Request → Option Nat
  | .openFile inode flags => (m.openFile source inode flags).1.toOption
  | _ => none

/-- The handles that requests open files under, in their order. -/
def opened (m : Mount) : List (σ × Request) → List Nat
  | [] => []
  | (source, request) :: rest =>
    (m.opens? source request).toList ++ opened (m.serve source request).2.1 rest

/-- One of the requests gives the handle back. -/
def Releases (requests : List (σ × Request)) (handle : Nat) : Prop :=
  .release handle ∈ requests.map (·.2)

instance (requests : List (σ × Request)) (handle : Nat) : Decidable (Releases requests handle) :=
  inferInstanceAs (Decidable (_ ∈ _))

/-- The bytes of reads one behind the other, each of a size of its own and with requests
served after it, and whether the last of them was the first to get nothing. -/
def readThrough (m : Mount) (handle : Nat) :
    (offset : Nat) → List (Nat × List (σ × Request)) → Except ErrorNumber (Bytes × Bool)
  | _, [] => .ok ([], false)
  | offset, (size, others) :: reads => do
    let chunk ← m.readOpened handle offset size
    if chunk = [] then return ([], true)
    let (bytes, ended) ← (m.serveAll others).readThrough handle (offset + chunk.length) reads
    return (chunk ++ bytes, ended)

/-! ## What a request does to the open files -/

theorem statAt_frame (m : Mount) (source : σ) (path : Path)
    (number : Inodes → Path → NodeKind → Nat × Inodes) :
    ∃ inodes, (m.statAt source path number).2.1 = { m with inodes } := by
  rcases hask : m.inquire source (TreeView.stat path) with ⟨answer, next⟩
  cases answer with
  | error e => exact ⟨m.inodes, by rw [statAt_error hask]⟩
  | ok stat => exact ⟨_, by rw [statAt_ok hask]⟩

theorem listing_frame (m : Mount) (source : σ) (inode : Nat) :
    ∃ inodes, (m.listing source inode).2.1 = { m with inodes } := by
  cases hpath : m.inodes.pathOf? inode with
  | none => exact ⟨m.inodes, by simp only [listing, hpath]⟩
  | some path =>
    rcases hask : m.inquire source (TreeView.entries path) with ⟨answer, next⟩
    cases answer with
    | error e => exact ⟨m.inodes, by rw [listing_error hpath hask]⟩
    | ok entries => exact ⟨_, by rw [listing_ok hpath hask]⟩

/-- An open fails and changes nothing, or keeps the content under the next handle. -/
theorem openFile_cases (m : Mount) (source : σ) (inode : Nat) (flags : Int32) :
    (∃ e, (m.openFile source inode flags).1 = .error e ∧
      (m.openFile source inode flags).2.1 = m) ∨
    ∃ path content, m.inodes.pathOf? inode = some path ∧
      ((TreeView.content path (.ofFlags flags)).run m.policy source).1 = .ok content ∧
      (m.openFile source inode flags).1 = .ok m.nextHandle ∧
      (m.openFile source inode flags).2.1 = m.keep content := by
  cases hpath : m.inodes.pathOf? inode with
  | none => exact .inl ⟨.noEntry, by simp only [openFile, hpath], by simp only [openFile, hpath]⟩
  | some path =>
    rcases hrun : (TreeView.content path (.ofFlags flags)).run m.policy source with
      ⟨fault | content, next⟩
    · rw [openFile_error hpath (inquire_eq hrun)]
      exact .inl ⟨_, rfl, rfl⟩
    · rw [openFile_ok hpath (inquire_eq hrun)]
      exact .inr ⟨path, content, rfl, congrArg Prod.fst hrun, rfl, rfl⟩

/-- A request changes the inode table alone, or opens a file, or is a release. -/
theorem serve_cases (m : Mount) (source : σ) (request : Request) :
    (m.opens? source request = none ∧ (∀ handle, request ≠ .release handle) ∧
      ∃ inodes, (m.serve source request).2.1 = { m with inodes }) ∨
    (m.opens? source request = some m.nextHandle ∧ (∀ handle, request ≠ .release handle) ∧
      ∃ content, (m.serve source request).2.1 = m.keep content) ∨
    (m.opens? source request = none ∧
      ∃ handle, request = .release handle ∧ (m.serve source request).2.1 = m.release handle) := by
  cases request with
  | lookup parent name =>
    refine .inl ⟨rfl, by simp, ?_⟩
    rw [serve_lookup_mount]
    cases hpath : m.inodes.pathOf? parent with
    | none => exact ⟨m.inodes, by simp only [lookup, hpath]⟩
    | some path =>
      rw [lookup_eq hpath]
      exact m.statAt_frame source _ _
  | attributes inode =>
    refine .inl ⟨rfl, by simp, ?_⟩
    rw [serve_attributes_mount]
    cases hpath : m.inodes.pathOf? inode with
    | none => exact ⟨m.inodes, by simp only [attributes, hpath]⟩
    | some path =>
      rw [attributes_eq hpath]
      exact m.statAt_frame source _ _
  | openFile inode flags =>
    rw [serve_openFile_mount, opens?]
    rcases m.openFile_cases source inode flags with ⟨e, hresult, hmount⟩ |
      ⟨path, content, -, -, hresult, hmount⟩
    · rw [hresult]
      exact .inl ⟨rfl, by simp, m.inodes, hmount⟩
    · rw [hresult]
      exact .inr (.inl ⟨rfl, by simp, content, hmount⟩)
  | read handle offset size =>
    exact .inl ⟨rfl, by simp, m.inodes, m.serve_read_mount source handle offset size⟩
  | readDirectory inode offset room =>
    refine .inl ⟨rfl, by simp, ?_⟩
    rw [serve_readDirectory_mount]
    exact m.listing_frame source inode
  | release handle => exact .inr (.inr ⟨rfl, handle, rfl, rfl⟩)
  | forget inode count => exact .inl ⟨rfl, by simp, _, rfl⟩
  | _ => exact .inl ⟨rfl, by simp, m.inodes, rfl⟩

theorem serve_policy (m : Mount) (source : σ) (request : Request) :
    (m.serve source request).2.1.policy = m.policy := by
  rcases m.serve_cases source request with ⟨-, -, inodes, heq⟩ | ⟨-, -, content, heq⟩ |
    ⟨-, handle, -, heq⟩ <;> rw [heq] <;> rfl

/-- The next handle is the one that is opened, if one is, and none is passed over. -/
theorem serve_nextHandle (m : Mount) (source : σ) (request : Request) :
    m.opens? source request = none ∧
      (m.serve source request).2.1.nextHandle = m.nextHandle ∨
    m.opens? source request = some m.nextHandle ∧
      (m.serve source request).2.1.nextHandle = m.nextHandle + 1 := by
  rcases m.serve_cases source request with ⟨hopens, -, inodes, heq⟩ |
    ⟨hopens, -, content, heq⟩ | ⟨hopens, handle, -, heq⟩ <;> rw [heq]
  · exact .inl ⟨hopens, rfl⟩
  · exact .inr ⟨hopens, rfl⟩
  · exact .inl ⟨hopens, rfl⟩

theorem serve_nextHandle_le (m : Mount) (source : σ) (request : Request) :
    m.nextHandle ≤ (m.serve source request).2.1.nextHandle := by
  rcases m.serve_nextHandle source request with ⟨-, heq⟩ | ⟨-, heq⟩ <;> omega

/-- Under a handle that was issued before, a request that is not its release leaves what
is there, or that there is nothing. -/
theorem serve_get? {m : Mount} {handle : Nat} (h : handle < m.nextHandle) (source : σ)
    (request : Request) :
    (m.serve source request).2.1.handles.get? handle =
      if request = .release handle then none else m.handles.get? handle := by
  rcases m.serve_cases source request with ⟨-, hother, inodes, heq⟩ |
    ⟨-, hother, content, heq⟩ | ⟨-, released, rfl, heq⟩ <;> rw [heq]
  · rw [if_neg (hother handle)]
  · rw [if_neg (hother handle), keep, Keyed.get?_insert, if_neg (Nat.ne_of_lt h)]
  · rw [release, Keyed.get?_erase]
    simp only [Request.release.injEq, eq_comm]

/-! ## Runs -/

theorem serveAll_policy (m : Mount) (requests : List (σ × Request)) :
    (m.serveAll requests).policy = m.policy := by
  induction requests generalizing m with
  | nil => rfl
  | cons r rest ih => exact (ih _).trans (m.serve_policy r.1 r.2)

theorem serveAll_nextHandle_le (m : Mount) (requests : List (σ × Request)) :
    m.nextHandle ≤ (m.serveAll requests).nextHandle := by
  induction requests generalizing m with
  | nil => exact Nat.le_refl _
  | cons r rest ih => exact Nat.le_trans (m.serve_nextHandle_le r.1 r.2) (ih _)

theorem serveAll_get? {m : Mount} {handle : Nat} (h : handle < m.nextHandle)
    (requests : List (σ × Request)) :
    (m.serveAll requests).handles.get? handle =
      if Releases requests handle then none else m.handles.get? handle := by
  induction requests generalizing m with
  | nil => exact (if_neg List.not_mem_nil).symm
  | cons r rest ih =>
    have hnext := Nat.lt_of_lt_of_le h (m.serve_nextHandle_le r.1 r.2)
    have hcons : Releases (r :: rest) handle ↔ .release handle = r.2 ∨ Releases rest handle :=
      List.mem_cons
    refine (ih hnext).trans ?_
    rw [serve_get? h]
    by_cases hhead : r.2 = .release handle
    · rw [if_pos hhead, if_pos (hcons.2 (.inl hhead.symm)), ite_self]
    · have hrest : Releases (r :: rest) handle ↔ Releases rest handle :=
        hcons.trans (or_iff_right fun h => hhead h.symm)
      rw [if_neg hhead]
      simp only [hrest]

/-- Handles are counted up, one for each file that is opened. -/
theorem opened_eq (m : Mount) (requests : List (σ × Request)) :
    m.opened requests = List.range' m.nextHandle (m.opened requests).length ∧
      (m.serveAll requests).nextHandle = m.nextHandle + (m.opened requests).length := by
  induction requests generalizing m with
  | nil => exact ⟨rfl, rfl⟩
  | cons r rest ih =>
    obtain ⟨hopened, hnext⟩ := ih (m.serve r.1 r.2).2.1
    change _ ∧ ((m.serve r.1 r.2).2.1.serveAll rest).nextHandle = _
    rcases m.serve_nextHandle r.1 r.2 with ⟨hnone, heq⟩ | ⟨hsome, heq⟩
    · rw [opened, hnone, Option.toList_none, List.nil_append]
      rw [heq] at hopened hnext
      exact ⟨hopened, hnext⟩
    · rw [opened, hsome, Option.toList_some, List.singleton_append, List.length_cons,
        List.range'_succ]
      rw [heq] at hopened hnext
      exact ⟨congrArg (m.nextHandle :: ·) hopened, by omega⟩

theorem opened_append (m : Mount) (requests rest : List (σ × Request)) :
    m.opened (requests ++ rest) = m.opened requests ++ (m.serveAll requests).opened rest := by
  induction requests generalizing m with
  | nil => rfl
  | cons r requests ih =>
    rw [List.cons_append, opened, ih, opened, List.append_assoc]
    rfl

theorem mem_opened {m : Mount} {before : List (σ × Request)} {source : σ} {inode : Nat}
    {flags : Int32} {handle : Nat}
    (h : ((m.serveAll before).openFile source inode flags).1 = .ok handle)
    (after : List (σ × Request)) :
    handle ∈ m.opened (before ++ (source, .openFile inode flags) :: after) := by
  have hopens : (m.serveAll before).opens? source (.openFile inode flags) = some handle :=
    congrArg Except.toOption h
  rw [opened_append]
  apply List.mem_append_right
  rw [opened, hopens]
  exact List.mem_cons_self

theorem opened_ascending (m : Mount) (requests : List (σ × Request)) :
    (m.opened requests).Pairwise (· < ·) := by
  rw [(m.opened_eq requests).1]
  exact List.pairwise_lt_range'

theorem serveAll_cons (m : Mount) (source : σ) (request : Request) (rest : List (σ × Request)) :
    m.serveAll ((source, request) :: rest) = (m.serve source request).2.1.serveAll rest := rfl

theorem serveAll_append (m : Mount) (requests rest : List (σ × Request)) :
    m.serveAll (requests ++ rest) = (m.serveAll requests).serveAll rest :=
  List.foldl_append

/-! ## Reading -/

theorem readOpened_ok {m : Mount} {handle : Nat} {content : Bytes}
    (h : m.handles.get? handle = some content) (offset size : Nat) :
    m.readOpened handle offset size = .ok (window content offset size) := by
  have hoffset : ¬(offset : Int) < 0 := Int.not_lt.2 (Int.natCast_nonneg offset)
  rw [readOpened, h]
  exact if_neg hoffset

/-- A read asks the tree for nothing. -/
theorem serve_read_rest (m : Mount) (source : σ) (handle : Nat) (offset : Int) (size : Nat) :
    (m.serve source (.read handle offset size)).2 = (m, source) := by
  simp only [serve]
  split <;> rfl

theorem readOpened_badHandle {m : Mount} {handle : Nat} (h : m.handles.get? handle = none)
    (offset : Int) (size : Nat) : m.readOpened handle offset size = .error .badHandle := by
  rw [readOpened, h]

/-- Reads that go on where the one before stopped get what is left, one part after the
other, and the first to get nothing has all of it before it. -/
theorem readThrough_eq {m : Mount} {handle : Nat} {content : Bytes}
    (hcontent : m.handles.get? handle = some content) (hissued : handle < m.nextHandle)
    {reads : List (Nat × List (σ × Request))}
    (hreads : ∀ r ∈ reads, 0 < r.1 ∧ ¬Releases r.2 handle) (offset : Nat) :
    ∃ bytes ended, m.readThrough handle offset reads = .ok (bytes, ended) ∧
      bytes <+: content.drop offset ∧ (ended = true → bytes = content.drop offset) ∧
      ((content.drop offset).length < reads.length → ended = true) := by
  induction reads generalizing m offset with
  | nil => exact ⟨[], false, rfl, List.nil_prefix, nofun, nofun⟩
  | cons r reads ih =>
    obtain ⟨size, others⟩ := r
    obtain ⟨⟨hsize, hkept⟩, hreads⟩ := List.forall_mem_cons.1 hreads
    rw [readThrough, readOpened_ok hcontent]
    have hleft := window_append content offset size
    generalize hchunk : window content offset size = chunk at hleft ⊢
    have hend : chunk = [] ↔ content.length ≤ offset :=
      hchunk ▸ window_eq_nil_iff hsize content offset
    simp only [bind, Except.bind]
    by_cases hnil : chunk = []
    · rw [if_pos hnil, List.drop_of_length_le (hend.1 hnil)]
      exact ⟨[], true, rfl, List.nil_prefix, fun _ => rfl, fun _ => rfl⟩
    · have hcontent' : (m.serveAll others).handles.get? handle = some content := by
        rw [serveAll_get? hissued, if_neg hkept, hcontent]
      have hissued' := Nat.lt_of_lt_of_le hissued (m.serveAll_nextHandle_le others)
      obtain ⟨bytes, ended, hrest, hprefix, hall, hcount⟩ :=
        ih hcontent' hissued' hreads (offset + chunk.length)
      rw [if_neg hnil, hrest]
      refine ⟨chunk ++ bytes, ended, rfl, ?_, ?_, ?_⟩
      · rw [← hleft]
        exact (List.prefix_append_right_inj chunk).2 hprefix
      · intro hended
        rw [← hleft, hall hended]
      · intro hlength
        apply hcount
        have hpos := List.length_pos_iff.2 hnil
        rw [← hleft, List.length_append, List.length_cons] at hlength
        omega

/-- What an open found is read under its handle until that is released, by any reads and
after any requests, and nothing is read under it later. -/
theorem handle_keeps_content (policy : FailurePolicy) (owner : Owner)
    (before after : List (σ × Request)) (source : σ) (inode : Nat) (flags : Int32)
    (handle : Nat) :
    let start : Mount := { policy, owner }
    let mount := start.serveAll before
    let now := (mount.openFile source inode flags).2.1.serveAll after
    let handles := start.opened (before ++ (source, .openFile inode flags) :: after)
    (mount.openFile source inode flags).1 = .ok handle →
    (∃ path content, mount.inodes.pathOf? inode = some path ∧
      ((TreeView.content path (.ofFlags flags)).run policy source).1 = .ok content ∧
      (¬Releases after handle →
        (∀ offset size : Nat, now.readOpened handle offset size =
          .ok ((content.take (min (offset + size) content.length)).drop
            (min offset content.length))) ∧
        ∀ reads : List (Nat × List (σ × Request)),
          (∀ r ∈ reads, 0 < r.1 ∧ ¬Releases r.2 handle) →
          ∃ bytes ended, now.readThrough handle 0 reads = .ok (bytes, ended) ∧
            bytes <+: content ∧ (ended = true → bytes = content) ∧
            (content.length < reads.length → ended = true))) ∧
    (Releases after handle →
      ∀ offset size, now.readOpened handle offset size = .error .badHandle) ∧
    (∀ (later : σ) offset size, (now.serve later (.read handle offset size)).2 = (now, later)) ∧
    handle ∈ handles ∧ handles.Pairwise (· < ·) ∧
    (handles.length < 2 ^ 64 - 1 → now.nextHandle < 2 ^ 64) := by
  intro start mount now handles hopen
  rcases mount.openFile_cases source inode flags with ⟨e, hresult, -⟩ |
    ⟨path, content, hpath, hrun, hresult, hmount⟩
  · rw [hresult] at hopen
    cases hopen
  rw [hresult] at hopen
  cases hopen
  have hpolicy : mount.policy = policy := start.serveAll_policy before
  have hnow : now = (mount.keep content).serveAll after := by rw [← hmount]
  have hissued : mount.nextHandle < (mount.keep content).nextHandle := Nat.lt_succ_self _
  have hissued' : mount.nextHandle < now.nextHandle := by
    rw [hnow]
    exact Nat.lt_of_lt_of_le hissued (serveAll_nextHandle_le _ after)
  have hget : now.handles.get? mount.nextHandle =
      if Releases after mount.nextHandle then none else some content := by
    rw [hnow, serveAll_get? hissued, keep, Keyed.get?_insert, if_pos rfl]
  have hwhole : start.serveAll (before ++ (source, .openFile inode flags) :: after) = now := by
    rw [serveAll_append]
    change (mount.serve source (.openFile inode flags)).2.1.serveAll after = _
    rw [serve_openFile_mount]
  refine ⟨⟨path, content, hpath, hpolicy ▸ hrun, fun hkept => ⟨?_, ?_⟩⟩, ?_, ?_, ?_, ?_, ?_⟩
  · intro offset size
    rw [if_neg hkept] at hget
    rw [readOpened_ok hget, window_eq]
  · intro reads hreads
    rw [if_neg hkept] at hget
    exact readThrough_eq hget hissued' hreads 0
  · intro hreleased offset size
    rw [if_pos hreleased] at hget
    exact readOpened_badHandle hget offset size
  · intro later offset size
    exact now.serve_read_rest later mount.nextHandle offset size
  · exact mem_opened hresult after
  · exact start.opened_ascending _
  · intro hfew
    have hcounted := (start.opened_eq (before ++ (source, .openFile inode flags) :: after)).2
    have hnext : now.nextHandle = 1 + handles.length := hwhole ▸ hcounted
    omega

/-- A file that is open while its inode is forgotten, the index fails and another file is
opened and released. -/
theorem handle_keeps_content_of_failing_index :
    let index : String → Except QueryFault (List Event) :=
      fun _ => .ok [{ host := "a", service := "b", state := "ok" }]
    let failing : String → Except QueryFault (List Event) := fun _ => .error .timeout
    let before := [(index, .lookup 1 (Text.encode "a")), (index, .lookup 2 (Text.encode "b")),
      (index, .lookup 3 (Text.encode "State")), (index, .lookup 3 (Text.encode "Host"))]
    let after := [(failing, .forget 4 1), (index, .openFile 5 0), (failing, .openFile 5 0),
      (failing, .release 2)]
    let mount := ({ policy := .strict } : Mount).serveAll before
    let now := (mount.openFile index 4 0).2.1.serveAll after
    let closed := (mount.openFile index 4 0).2.1.serveAll ((index, .release 1) :: after)
    (mount.openFile index 4 0).1 = .ok 1 ∧ now.inodes.pathOf? 4 = none ∧
      now.readOpened 1 1 9 = .ok [107] ∧
      now.readThrough 1 0 [(1, [(failing, .attributes 1)]), (1, []), (1, [])] =
        .ok ([111, 107], true) ∧
      closed.readOpened 1 0 1 = .error .badHandle := by
  intro index failing before after mount now closed
  have hopen : (mount.openFile index 4 0).1 = .ok 1 := eq_ok_of_toOption (by decide +kernel)
  have hforgotten : now.inodes.pathOf? 4 = none := by decide +kernel
  have hpath : mount.inodes.pathOf? 4 = some (.ofString "/a/b/State") := by decide +kernel
  have hcontent : ((TreeView.content (.ofString "/a/b/State") (.ofFlags 0)).run .strict
      index).1 = .ok [111, 107] := eq_ok_of_toOption (by decide +kernel)
  have hkept : ¬Releases after 1 := by decide
  have hreleased : Releases ((index, .release 1) :: after) 1 := by decide
  have hmount : mount = ({ policy := .strict } : Mount).serveAll before := rfl
  have hnow : now = (mount.openFile index 4 0).2.1.serveAll after := rfl
  have hlater : closed = (mount.openFile index 4 0).2.1.serveAll ((index, .release 1) :: after) :=
    rfl
  obtain ⟨⟨path, content, hpath', hcontent', hread⟩, -⟩ :=
    handle_keeps_content .strict {} before after index 4 0 1 hopen
  obtain ⟨-, hclosed, -⟩ :=
    handle_keeps_content .strict {} before ((index, .release 1) :: after) index 4 0 1 hopen
  -- All that had to be computed is; the mounts themselves are not looked into again.
  rw [← hmount] at hpath' hread hclosed
  rw [← hnow] at hread
  rw [← hlater] at hclosed
  clear_value now closed mount
  cases Option.some.inj (hpath'.symm.trans hpath)
  cases Except.ok.inj (hcontent'.symm.trans hcontent)
  obtain ⟨hwindow, hthrough⟩ := hread hkept
  refine ⟨hopen, hforgotten, hwindow 1 9, ?_, hclosed hreleased 0 1⟩
  obtain ⟨bytes, ended, hbytes, -, hall, hended⟩ :=
    hthrough [(1, [(failing, .attributes 1)]), (1, []), (1, [])] (by decide)
  cases hended (by decide)
  rw [hbytes, hall rfl]

end Mount
end EventTree
