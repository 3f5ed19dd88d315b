import EventTree.Proofs.Mount.Ledger
import EventTree.Proofs.Mount.Served
import Mathlib.Algebra.Group.Nat.Defs

/-!
# The kernel's references

Beside a run of requests a ledger is kept of the references that the kernel has got and
given back. The inode table agrees with it at every time: nothing is dropped while the
kernel refers to it, and nothing is kept that it has forgotten.

Asking for attributes enters the path of a node as a lookup does, but counts no reference.
It would leave an entry that is never forgotten, were the path not in the table already.
Listing a directory issues numbers, but enters none of them.

Counts and numbers have 64 bits. The account is exact up to and with the last of them.
-/
namespace EventTree

namespace Mount
variable {σ : Type} [QuerySource σ]

/-! ## What a request books -/

/-- The path, if the tree has it. -/
def found (m : Mount) (source : σ) (path : Path) : List Path :=
  match (m.inquire source (TreeView.stat path)).1 with
  | .ok _ => [path]
  | .error _ => []

/-- The paths that a request is about to give numbers. -/
def numberedPaths (m : Mount) (source : σ) : Request → List Path
  | .lookup parent name => (m.inodes.pathOf? parent).elim [] fun path =>
      m.found source (path.join name)
  | .attributes inode => (m.inodes.pathOf? inode).elim [] (m.found source)
  | .readDirectory inode _ _ => (m.inodes.pathOf? inode).elim [] fun path =>
      match (m.inquire source (TreeView.entries path)).1 with
      | .ok entries => entries.map fun e => path.join (Text.encode e.name)
      | .error _ => []
  | _ => []

/-- How many numbers a request issues: one for each of its paths that has none. -/
def issues (m : Mount) (source : σ) (request : Request) : Nat :=
  m.inodes.untracked (m.numberedPaths source request)

/-- The table and a ledger after a request come from those before by one change. -/
def Books (m : Mount) (l : Ledger) (source : σ) (request : Request) : Prop :=
  m.inodes.Booked l (m.serve source request).2.1.inodes
    ((l.issue (m.issues source request)).record request (m.serve source request).1)

theorem lookup_books (m : Mount) (l : Ledger) (source : σ) (parent : Nat) (name : Bytes) :
    m.Books l source (.lookup parent name) := by
  cases hpath : m.inodes.pathOf? parent with
  | none =>
    have hserve : m.serve source (.lookup parent name) = (.failed .noEntry, m, source) := by
      simp only [serve, lookup, hpath]
    rw [Books, hserve, issues, numberedPaths, hpath, Option.elim_none]
    exact .keep
  | some path =>
    rw [Books, issues, numberedPaths, hpath, Option.elim_some, found]
    rcases hask : m.inquire source (TreeView.stat (path.join name)) with ⟨answer, next⟩
    cases answer with
    | error e =>
      have hserve : m.serve source (.lookup parent name) = (.failed e, m, next) := by
        simp only [serve, lookup_eq hpath, statAt_error hask]
      rw [hserve]
      exact .keep
    | ok stat =>
      have hserve : m.serve source (.lookup parent name) =
          (.node ⟨(m.inodes.lookup (path.join name) stat.kind).1, stat, m.owner⟩,
            { m with inodes := (m.inodes.lookup (path.join name) stat.kind).2 }, next) := by
        simp only [serve, lookup_eq hpath, statAt_ok hask]
      rw [hserve]
      exact .lookup (path.join name) stat.kind

theorem attributes_inodes (m : Mount) (source : σ) (inode : Nat) :
    (m.attributes source inode).2.1.inodes = m.inodes ∨
    ∃ path kind, m.inodes.pathOf? inode = some path ∧
      (m.attributes source inode).2.1.inodes = (m.inodes.track path kind).2 := by
  cases hpath : m.inodes.pathOf? inode with
  | none => exact .inl (by simp only [attributes, hpath])
  | some path =>
    rw [attributes_eq hpath]
    rcases hask : m.inquire source (TreeView.stat path) with ⟨answer, next⟩
    cases answer with
    | error e => exact .inl (by rw [statAt_error hask])
    | ok stat => exact .inr ⟨path, stat.kind, rfl, by rw [statAt_ok hask]⟩

/-- The path of an inode has its number already. -/
theorem issues_attributes {m : Mount} (h : m.inodes.Coherent) (source : σ) (inode : Nat) :
    m.issues source (.attributes inode) = 0 := by
  cases hpath : m.inodes.pathOf? inode with
  | none =>
    rw [issues, numberedPaths, hpath]
    rfl
  | some path =>
    rw [issues, numberedPaths, hpath, Option.elim_some, found]
    split
    · exact Inodes.untracked_of_known (h.number_of_path hpath)
    · rfl

theorem attributes_books {m : Mount} (h : m.inodes.Coherent) (l : Ledger) (source : σ)
    (inode : Nat) : m.Books l source (.attributes inode) := by
  rw [Books, serve_attributes_mount, issues_attributes h]
  rcases m.attributes_inodes source inode with hsame | ⟨path, kind, hpath, htrack⟩
  · rw [hsame]
    exact .keep
  · rw [htrack]
    exact .refresh kind (h.number_of_path hpath)

theorem numberEntries_inodes (directory : Path) {t : Inodes} (h : t.next ≤ Inodes.maxNumber)
    (entries : List Entry) :
    (numberEntries directory t entries).2 =
      t.reserve (t.untracked (entries.map fun e => directory.join (Text.encode e.name))) := by
  induction entries generalizing t with
  | nil => exact (Inodes.reserve_zero h).symm
  | cons e rest ih =>
    rw [numberEntries, List.map_cons, Inodes.untracked, List.countP_cons]
    cases hknown : t.numberOf? (directory.join (Text.encode e.name)) with
    | some inode => exact ih h
    | none =>
      have hissued : t.issue.2.next ≤ Inodes.maxNumber := Nat.min_le_right _ _
      refine (ih hissued).trans ?_
      rw [Inodes.issue_eq_reserve, Inodes.reserve_reserve, Nat.add_comm 1]
      rfl

theorem listing_inodes {m : Mount} (h : m.inodes.next ≤ Inodes.maxNumber) (source : σ)
    (inode : Nat) (offset : Int) (room : Nat) :
    (m.listing source inode).2.1.inodes =
      m.inodes.reserve (m.issues source (.readDirectory inode offset room)) := by
  cases hpath : m.inodes.pathOf? inode with
  | none =>
    rw [issues, numberedPaths, hpath]
    simp only [listing, hpath]
    exact (Inodes.reserve_zero h).symm
  | some path =>
    rw [issues, numberedPaths, hpath, Option.elim_some]
    rcases hask : m.inquire source (TreeView.entries path) with ⟨answer, next⟩
    cases answer with
    | error e =>
      rw [listing_error hpath hask]
      exact (Inodes.reserve_zero h).symm
    | ok entries =>
      rw [listing_ok hpath hask]
      exact numberEntries_inodes path h entries

theorem readDirectory_books {m : Mount} (h : m.inodes.Coherent) (l : Ledger) (source : σ)
    (inode : Nat) (offset : Int) (room : Nat) :
    m.Books l source (.readDirectory inode offset room) := by
  rw [Books, serve_readDirectory_mount, listing_inodes h.next_le source inode offset room]
  exact .reserve _

theorem serve_books {m : Mount} (h : m.inodes.Coherent) (l : Ledger) (source : σ)
    (request : Request) : m.Books l source request := by
  cases request with
  | lookup parent name => exact m.lookup_books l source parent name
  | attributes inode => exact attributes_books h l source inode
  | forget inode count => exact .forget inode count
  | openFile inode flags =>
    rw [Books, serve_openFile_mount, openFile_inodes]
    exact .keep
  | read handle offset size =>
    rw [Books, serve_read_mount]
    exact .keep
  | readDirectory inode offset room => exact readDirectory_books h l source inode offset room
  | _ => exact .keep

theorem attributes_pathOf? {m : Mount} (h : m.inodes.Coherent) (source : σ) (inode : Nat) :
    (m.attributes source inode).2.1.inodes.pathOf? = m.inodes.pathOf? := by
  rcases m.attributes_inodes source inode with hsame | ⟨path, kind, hpath, htrack⟩
  · rw [hsame]
  · rw [htrack, Inodes.pathOf?_track_known (h.number_of_path hpath)]

/-- Only a lookup and a forget change what is tracked. -/
theorem serve_pathOf?_eq {m : Mount} (h : m.inodes.Coherent) (source : σ) {request : Request}
    (hlookup : ∀ parent name, request ≠ .lookup parent name)
    (hforget : ∀ inode count, request ≠ .forget inode count) :
    (m.serve source request).2.1.inodes.pathOf? = m.inodes.pathOf? := by
  cases request with
  | lookup parent name => exact absurd rfl (hlookup parent name)
  | attributes inode =>
    rw [serve_attributes_mount]
    exact attributes_pathOf? h source inode
  | forget inode count => exact absurd rfl (hforget inode count)
  | openFile inode flags => rw [serve_openFile_mount, openFile_inodes]
  | read handle offset size => rw [serve_read_mount]
  | readDirectory inode offset room =>
    rw [serve_readDirectory_mount, listing_inodes h.next_le source inode offset room]
    rfl
  | _ => rfl

end Mount

/-! ## Runs -/

/-- A mount in use, and what is written down of it. -/
structure Session where
  mount : Mount
  ledger : Ledger := {}

namespace Session
variable {σ : Type} [QuerySource σ]

def step (s : Session) (source : σ) (request : Request) : Session where
  mount := (s.mount.serve source request).2.1
  ledger := (s.ledger.issue (s.mount.issues source request)).record request
    (s.mount.serve source request).1

/-- Each request meets a source of its own: the index changes as it likes. -/
def run (s : Session) (requests : List (σ × Request)) : Session :=
  requests.foldl (fun s (source, request) => s.step source request) s

theorem run_coherent {s : Session} (h : s.mount.inodes.Coherent) (requests : List (σ × Request)) :
    (s.run requests).mount.inodes.Coherent := by
  induction requests generalizing s with
  | nil => exact h
  | cons r rest ih => exact ih (Mount.serve_coherent h r.1 r.2)

theorem run_counts_le {s : Session} (h : s.mount.inodes.Coherent)
    (requests : List (σ × Request)) :
    s.ledger.lookups ≤ (s.run requests).ledger.lookups ∧
      s.ledger.issued ≤ (s.run requests).ledger.issued := by
  induction requests generalizing s with
  | nil => exact ⟨Nat.le_refl _, Nat.le_refl _⟩
  | cons r rest ih =>
    have hbooks := Mount.serve_books h s.ledger r.1 r.2
    obtain ⟨hlookups, hissued⟩ := ih (s := s.step r.1 r.2) (Mount.serve_coherent h r.1 r.2)
    exact ⟨hbooks.lookups_le.trans hlookups, hbooks.issued_le.trans hissued⟩

/-- The bounds at the end of a run are bounds all along. -/
theorem step_agrees {s : Session} (h : s.mount.inodes.Agrees s.ledger) (source : σ)
    (request : Request) {rest : List (σ × Request)}
    (hlookups : ((s.step source request).run rest).ledger.lookups ≤ Inodes.maxNumber)
    (hissued : ((s.step source request).run rest).ledger.issued ≤ Inodes.maxNumber) :
    (s.step source request).mount.inodes.Agrees (s.step source request).ledger := by
  have hcoherent := h.numbered.coherent
  have hle := (s.step source request).run_counts_le
    (Mount.serve_coherent hcoherent source request) rest
  exact (Mount.serve_books hcoherent s.ledger source request).agrees h
    (hle.1.trans hlookups) (hle.2.trans hissued)

theorem run_agrees {s : Session} (h : s.mount.inodes.Agrees s.ledger)
    {requests : List (σ × Request)}
    (hlookups : (s.run requests).ledger.lookups ≤ Inodes.maxNumber)
    (hissued : (s.run requests).ledger.issued ≤ Inodes.maxNumber) :
    (s.run requests).mount.inodes.Agrees (s.run requests).ledger := by
  induction requests generalizing s with
  | nil => exact h
  | cons r rest ih => exact ih (step_agrees h r.1 r.2 hlookups hissued) hlookups hissued

/-- A number keeps its path, also beyond a time in which it is not tracked. -/
theorem run_pathOf? {s : Session} (h : s.mount.inodes.Agrees s.ledger)
    {requests : List (σ × Request)}
    (hlookups : (s.run requests).ledger.lookups ≤ Inodes.maxNumber)
    (hissued : (s.run requests).ledger.issued ≤ Inodes.maxNumber) {i : Nat} {p : Path}
    (hi : i ≤ s.ledger.issued) (hp : (s.run requests).mount.inodes.pathOf? i = some p) :
    s.mount.inodes.pathOf? i = some p := by
  induction requests generalizing s with
  | nil => exact hp
  | cons r rest ih =>
    have hbooks := Mount.serve_books h.numbered.coherent s.ledger r.1 r.2
    have hagrees := step_agrees h r.1 r.2 hlookups hissued
    have hnext := ih hagrees hlookups hissued (hi.trans hbooks.issued_le) hp
    have hstep := (run_counts_le hagrees.numbered.coherent rest).2.trans hissued
    exact hbooks.pathOf? h.numbered hstep hi hnext

/-- At every time of every run the tracked inodes are the root and those to which references
are outstanding, each with their number as its count and with the path it had before. -/
theorem references_exact (policy : FailurePolicy) (owner : Owner)
    (earlier later : List (σ × Request)) :
    let before := run { mount := { policy, owner } } earlier
    let now := before.run later
    now.ledger.lookups < 2 ^ 64 → now.ledger.issued < 2 ^ 64 →
    (∀ i, i ≠ Inodes.rootNumber →
      ((∃ e, now.mount.inodes.get? i = some e) ↔ 0 < now.ledger.outstanding i)) ∧
    (∀ i e, i ≠ Inodes.rootNumber → now.mount.inodes.get? i = some e →
      e.lookups = now.ledger.outstanding i) ∧
    now.mount.inodes.pathOf? Inodes.rootNumber = some .root ∧
    now.mount.inodes.next = min (now.ledger.issued + 1) Inodes.maxNumber ∧
    (∀ i p q, before.mount.inodes.pathOf? i = some p → now.mount.inodes.pathOf? i = some q →
      p = q) ∧
    (∃ held : Finset Nat,
      (∀ i, i ∈ held ↔ i ≠ Inodes.rootNumber ∧ 0 < now.ledger.outstanding i) ∧
      now.mount.inodes.size = 1 + held.card) ∧
    (∀ (source : σ) request, (∀ parent name, request ≠ .lookup parent name) →
      (∀ inode count, request ≠ .forget inode count) →
      (now.step source request).mount.inodes.pathOf? = now.mount.inodes.pathOf?) := by
  intro before now hlookups hissued
  replace hlookups : now.ledger.lookups ≤ Inodes.maxNumber := Nat.le_of_lt_succ hlookups
  replace hissued : now.ledger.issued ≤ Inodes.maxNumber := Nat.le_of_lt_succ hissued
  have hbefore : before.mount.inodes.Agrees before.ledger := by
    have hle := run_counts_le (s := before)
      (run_coherent Inodes.initial_coherent earlier) later
    exact run_agrees Inodes.initial_agrees (hle.1.trans hlookups) (hle.2.trans hissued)
  have h : now.mount.inodes.Agrees now.ledger := run_agrees hbefore hlookups hissued
  have hroot := h.numbered.coherent.root
  refine ⟨fun i hi => Inodes.tracked_iff h hi, ?_, hroot, h.numbered.next_eq, ?_, ?_, ?_⟩
  · intro i e hi he
    rw [← h.counted hi, Inodes.lookupsOf_of_get? he]
  · intro i p q hp hq
    have hq' := run_pathOf? hbefore hlookups hissued (hbefore.numbered.inode_le hp) hq
    rw [hp] at hq'
    exact Option.some.inj hq'
  · obtain ⟨e, he, -⟩ := Inodes.pathOf?_eq_some_iff.1 hroot
    have hmem : Inodes.rootNumber ∈ now.mount.inodes.tracked := Inodes.mem_tracked.2 ⟨e, he⟩
    refine ⟨now.mount.inodes.tracked.erase Inodes.rootNumber, ?_, ?_⟩
    · intro i
      rw [Finset.mem_erase, Inodes.mem_tracked]
      exact and_congr_right fun hi => Inodes.tracked_iff h hi
    · rw [← Inodes.card_tracked, Nat.add_comm, Finset.card_erase_add_one hmem]
  · intro source request hlookup hforget
    exact Mount.serve_pathOf?_eq h.numbered.coherent source hlookup hforget

/-- A directory that is looked up twice and forgotten once, with a file in it that is
forgotten more often than it was looked up. -/
theorem references_exact_after_forgetting :
    let source : String → Except QueryFault (List Event) :=
      fun _ => .ok [{ host := "a", service := "b", state := "ok" }]
    let earlier := [(source, .lookup 1 (Text.encode "a")), (source, .readDirectory 2 0 4096),
      (source, .lookup 2 (Text.encode "b")), (source, .attributes 2)]
    let later := [(source, .lookup 1 (Text.encode "a/.")), (source, .forget 2 1),
      (source, .forget 4 7), (source, .readDirectory 1 0 4096)]
    let before := run { mount := {} } earlier
    let now := before.run later
    now.ledger.lookups < 2 ^ 64 ∧ now.ledger.issued < 2 ^ 64 ∧
      before.ledger.outstanding 4 = 1 ∧ now.mount.inodes.get? 4 = none ∧
      (∃ e, now.mount.inodes.get? 2 = some e ∧ e.lookups = 1) ∧
      ∀ p, now.mount.inodes.pathOf? 2 = some p → p = .ofString "/a" := by
  intro source earlier later before now
  have hlookups : now.ledger.lookups < 2 ^ 64 := by decide +kernel
  have hissued : now.ledger.issued < 2 ^ 64 := by decide +kernel
  have hone : now.ledger.outstanding 2 = 1 := by decide +kernel
  have hnone : now.ledger.outstanding 4 = 0 := by decide +kernel
  have hpath : before.mount.inodes.pathOf? 2 = some (.ofString "/a") := by decide +kernel
  have hheld : before.ledger.outstanding 4 = 1 := by decide +kernel
  have hexact := references_exact .lenient {} earlier later hlookups hissued
  have hbefore : before = run { mount := {} } earlier := rfl
  have hnow : now = before.run later := rfl
  rw [← hbefore, ← hnow] at hexact
  -- All that had to be computed is; the states themselves are not looked into again.
  clear_value now before
  obtain ⟨htracked, hcount, -, -, hkept, -, -⟩ := hexact
  refine ⟨hlookups, hissued, hheld, ?_, ?_, fun p hp => (hkept 2 _ p hpath hp).symm⟩
  · cases hget : now.mount.inodes.get? 4 with
    | none => rfl
    | some e =>
      have hpos := (htracked 4 (by decide)).1 ⟨e, hget⟩
      rw [hnone] at hpos
      cases hpos
  · obtain ⟨e, he⟩ := (htracked 2 (by decide)).2 (by rw [hone]; decide)
    exact ⟨e, he, (hcount 2 e (by decide) he).trans hone⟩

end Session
end EventTree