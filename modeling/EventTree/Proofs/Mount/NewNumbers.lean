import EventTree.Proofs.Mount.Handles
import EventTree.Proofs.Mount.References

/-!
# No number is used twice

New numbers come from two places, the lookups and the lines of listings, and both count
them up from one counter, which nothing ever sets back. A number that a lookup gave out
stands for no other path when its own is forgotten, and one that only a line of a listing
carried is never found by a lookup at all.

Both can be read off the replies: a number is new where the place that it is given to was
not tracked when the request came.
-/
namespace EventTree

/-! ## Tracked places -/

namespace Inodes

/-- The table has an entry for the place, under whichever number and spelling. -/
def Tracks (t : Inodes) (place : Path) : Prop :=
  ∃ entry ∈ t.entries.entries, entry.2.path.Same place

instance (t : Inodes) (place : Path) : Decidable (t.Tracks place) :=
  inferInstanceAs (Decidable (∃ entry ∈ t.entries.entries, _))

theorem tracks_iff {t : Inodes} {place : Path} :
    t.Tracks place ↔ ∃ i e, t.get? i = some e ∧ e.path.Same place := by
  simp only [Tracks, Prod.exists, get?, Keyed.get?_eq_some_iff]

theorem Coherent.number_of_entry {t : Inodes} (h : t.Coherent) {i : Nat} {e : TrackedNode}
    {place : Path} (he : t.get? i = some e) (hplace : e.path.Same place) :
    t.numberOf? place = some i := by
  rw [← t.numberOf?_congr hplace]
  exact h.number_of_path (pathOf?_eq_some_iff.2 ⟨e, he, rfl⟩)

theorem Numbered.tracks_iff {t : Inodes} {n : Nat} (h : t.Numbered n) {place : Path} :
    t.Tracks place ↔ ∃ i, t.numberOf? place = some i := by
  rw [Inodes.tracks_iff]
  constructor
  · rintro ⟨i, e, he, hplace⟩
    exact ⟨i, h.coherent.number_of_entry he hplace⟩
  · rintro ⟨i, hi⟩
    obtain ⟨q, hq, hsame⟩ := h.path_of_number hi
    obtain ⟨e, he, rfl⟩ := pathOf?_eq_some_iff.1 hq
    exact ⟨i, e, he, hsame⟩

theorem Numbered.not_tracks_iff {t : Inodes} {n : Nat} (h : t.Numbered n) {place : Path} :
    ¬t.Tracks place ↔ t.numberOf? place = none := by
  rw [h.tracks_iff, ← Option.ne_none_iff_exists', not_not]

theorem Numbered.untracked_singleton {t : Inodes} {n : Nat} (h : t.Numbered n) (place : Path) :
    t.untracked [place] = if t.Tracks place then 0 else 1 := by
  by_cases htracks : t.Tracks place
  · obtain ⟨i, hi⟩ := h.tracks_iff.1 htracks
    rw [if_pos htracks, untracked_of_known hi]
  · rw [if_neg htracks, untracked_of_new (h.not_tracks_iff.1 htracks)]

end Inodes

namespace Mount
variable {σ : Type} [QuerySource σ]

/-! ## New numbers -/

/-- The numbers that a request gives to places which were not tracked, in the order of its
reply. -/
def newNumbers (m : Mount) (source : σ) : Request → List Nat
  | .lookup parent name =>
    match m.inodes.pathOf? parent, (m.lookup source parent name).1 with
    | some path, .ok found => if m.inodes.Tracks (path.join name) then [] else [found.inode]
    | _, _ => []
  | .readDirectory inode _ _ =>
    match m.inodes.pathOf? inode, (m.listing source inode).1 with
    | some path, .ok (_ :: _ :: lines) =>
      (lines.filter fun line => ¬m.inodes.Tracks (path.join (Text.encode line.name))).map (·.inode)
    | _, _ => []
  | _ => []

/-- The number that a lookup finds, new or not. -/
def lookedUp (m : Mount) (source : σ) : Request → List Nat
  | .lookup parent name => ((m.lookup source parent name).1.toOption.map (·.inode)).toList
  | _ => []

/-- What is seen at the requests of a run, at each with the mount that it meets. -/
def gather (see : Mount → σ → Request → List α) (m : Mount) : List (σ × Request) → List α
  | [] => []
  | (source, request) :: rest =>
    see m source request ++ gather see (m.serve source request).2.1 rest

theorem gather_append (see : Mount → σ → Request → List α) (m : Mount)
    (requests rest : List (σ × Request)) :
    m.gather see (requests ++ rest) =
      m.gather see requests ++ (m.serveAll requests).gather see rest := by
  induction requests generalizing m with
  | nil => rfl
  | cons r requests ih =>
    rw [List.cons_append, gather, ih, gather, List.append_assoc]
    rfl

/-! ## What one request gives -/

/-- A lookup asks for one number if it succeeds. -/
theorem lookup_shape (m : Mount) (source : σ) (parent : Nat) (name : Bytes) :
    (m.newNumbers source (.lookup parent name) = [] ∧
      m.numberedPaths source (.lookup parent name) = []) ∨
    ∃ (path : Path) (kind : NodeKind),
      m.newNumbers source (.lookup parent name) =
        (if m.inodes.Tracks (path.join name) then []
          else [(m.inodes.lookup (path.join name) kind).1]) ∧
      m.numberedPaths source (.lookup parent name) = [path.join name] := by
  cases hpath : m.inodes.pathOf? parent with
  | none => simp only [newNumbers, numberedPaths, hpath, Option.elim_none, and_self, true_or]
  | some path =>
    simp only [newNumbers, numberedPaths, hpath, Option.elim_some, lookup_eq hpath, found]
    rcases hask : m.inquire source (TreeView.stat (path.join name)) with ⟨answer, next⟩
    cases answer with
    | error e =>
      rw [statAt_error hask]
      exact .inl ⟨rfl, rfl⟩
    | ok stat =>
      rw [statAt_ok hask]
      exact .inr ⟨path, stat.kind, rfl, rfl⟩

/-- The lines of a listing behind the first two are its entries with numbers. -/
theorem listing_shape (m : Mount) (source : σ) (inode : Nat) (offset : Int) (room : Nat) :
    ((∃ e, (m.listing source inode).1 = .error e) ∧
      m.newNumbers source (.readDirectory inode offset room) = [] ∧
      m.numberedPaths source (.readDirectory inode offset room) = []) ∨
    ∃ path entries, m.inodes.pathOf? inode = some path ∧
      (m.listing source inode).1 = .ok (⟨inode, .directory, "."⟩ ::
        ⟨m.inodes.parentOf inode, .directory, ".."⟩ :: (numberEntries path m.inodes entries).1) ∧
      m.newNumbers source (.readDirectory inode offset room) =
        ((numberEntries path m.inodes entries).1.filter fun line =>
          ¬m.inodes.Tracks (path.join (Text.encode line.name))).map (·.inode) ∧
      m.numberedPaths source (.readDirectory inode offset room) =
        entries.map fun e => path.join (Text.encode e.name) := by
  cases hpath : m.inodes.pathOf? inode with
  | none =>
    have hfailed : (m.listing source inode).1 = .error .noEntry := by simp only [listing, hpath]
    simp only [newNumbers, numberedPaths, hpath, Option.elim_none]
    exact .inl ⟨⟨_, hfailed⟩, trivial, trivial⟩
  | some path =>
    simp only [newNumbers, numberedPaths, hpath, Option.elim_some]
    rcases hask : m.inquire source (TreeView.entries path) with ⟨answer, next⟩
    cases answer with
    | error e =>
      rw [listing_error hpath hask]
      exact .inl ⟨⟨e, rfl⟩, rfl, rfl⟩
    | ok entries =>
      rw [listing_ok hpath hask]
      exact .inr ⟨path, entries, rfl, rfl, rfl, rfl⟩

/-- A line whose place is tracked carries the number of the place. -/
theorem numberEntries_known {directory : Path} {t : Inodes} {entries : List Entry}
    {line : ListedEntry} (hline : line ∈ (numberEntries directory t entries).1) {i : Nat}
    (hi : t.numberOf? (directory.join (Text.encode line.name)) = some i) : line.inode = i := by
  induction entries generalizing t with
  | nil => cases hline
  | cons e rest ih =>
    rw [numberEntries] at hline
    cases hknown : t.numberOf? (directory.join (Text.encode e.name)) with
    | some inode =>
      simp only [hknown, List.mem_cons] at hline
      rcases hline with rfl | hrest
      · exact Option.some.inj (hknown.symm.trans hi)
      · exact ih hrest hi
    | none =>
      simp only [hknown, List.mem_cons] at hline
      rcases hline with rfl | hrest
      · rw [hknown] at hi
        cases hi
      · exact ih hrest hi

/-- The other lines carry the next numbers, one behind the other. -/
theorem numberEntries_new (directory : Path) {t : Inodes} {n : Nat} (h : t.Numbered n)
    (entries : List Entry)
    (hleft : n + t.untracked (entries.map fun e => directory.join (Text.encode e.name)) ≤
      Inodes.maxNumber) :
    ((numberEntries directory t entries).1.filter fun line =>
        t.numberOf? (directory.join (Text.encode line.name)) = none).map (·.inode) =
      List.range' (n + 1)
        (t.untracked (entries.map fun e => directory.join (Text.encode e.name))) := by
  induction entries generalizing t n with
  | nil => rfl
  | cons e rest ih =>
    rw [numberEntries]
    cases hknown : t.numberOf? (directory.join (Text.encode e.name)) with
    | some inode =>
      rw [List.map_cons, Inodes.untracked, List.countP_cons_of_neg (by simp [hknown])] at hleft ⊢
      rw [List.filter_cons_of_neg (by simp [hknown])]
      exact ih h hleft
    | none =>
      rw [List.map_cons, Inodes.untracked, List.countP_cons_of_pos (by simp [hknown])] at hleft ⊢
      rw [List.filter_cons_of_pos (by simp [hknown]), List.map_cons, List.range'_succ]
      have hrest := ih (h.reserve 1) (by rw [Nat.add_assoc, Nat.add_comm 1]; exact hleft)
      exact congrArg₂ List.cons (h.next_new (by omega)) hrest

/-- Numbers to give to places that have none. -/
theorem length_newNumbers {m : Mount} {n : Nat} (h : m.inodes.Numbered n) (source : σ)
    (request : Request) : (m.newNumbers source request).length = m.issues source request := by
  cases request with
  | lookup parent name =>
    rcases m.lookup_shape source parent name with ⟨hnew, hpaths⟩ | ⟨path, kind, hnew, hpaths⟩
    · rw [hnew, issues, hpaths]
      rfl
    · rw [hnew, issues, hpaths, h.untracked_singleton]
      split <;> rfl
  | readDirectory inode offset room =>
    rcases m.listing_shape source inode offset room with ⟨-, hnew, hpaths⟩ |
      ⟨path, entries, -, -, hnew, hpaths⟩
    · rw [hnew, issues, hpaths]
      rfl
    · rw [hnew, issues, hpaths, List.length_map, ← List.countP_eq_length_filter, Inodes.untracked,
        List.countP_map]
      simp only [h.not_tracks_iff]
      conv_rhs => rw [← numberEntries_entry path m.inodes entries, List.countP_map]
      apply List.countP_congr
      intro line _
      simp only [decide_eq_true_eq, Function.comp_apply, Option.isNone_iff_eq_none,
        ListedEntry.entry]
  | attributes inode => exact (issues_attributes h.coherent source inode).symm
  | _ => rfl

theorem newNumbers_eq {m : Mount} {n : Nat} (h : m.inodes.Numbered n) (source : σ)
    (request : Request) (hleft : n + m.issues source request ≤ Inodes.maxNumber) :
    m.newNumbers source request = List.range' (n + 1) (m.issues source request) := by
  cases request with
  | lookup parent name =>
    rcases m.lookup_shape source parent name with ⟨hnew, hpaths⟩ | ⟨path, kind, hnew, hpaths⟩
    · rw [hnew, issues, hpaths]
      rfl
    · rw [issues, hpaths, h.untracked_singleton] at hleft ⊢
      rw [hnew]
      by_cases htracks : m.inodes.Tracks (path.join name)
      · rw [if_pos htracks, if_pos htracks]
        rfl
      · rw [if_neg htracks] at hleft ⊢
        rw [if_neg htracks, Inodes.lookup_eq,
          h.coherent.track_new (h.not_tracks_iff.1 htracks), h.next_new hleft]
        rfl
  | readDirectory inode offset room =>
    rcases m.listing_shape source inode offset room with ⟨-, hnew, hpaths⟩ |
      ⟨path, entries, -, -, hnew, hpaths⟩
    · rw [hnew, issues, hpaths]
      rfl
    · rw [issues, hpaths] at hleft ⊢
      rw [hnew]
      simp only [h.not_tracks_iff]
      exact numberEntries_new path h entries hleft
  | attributes inode =>
    rw [issues_attributes h.coherent source inode]
    rfl
  | _ => rfl

theorem serve_numbered {m : Mount} {n : Nat} (h : m.inodes.Numbered n) (source : σ)
    (request : Request) (hleft : n + m.issues source request ≤ Inodes.maxNumber) :
    (m.serve source request).2.1.inodes.Numbered (n + m.issues source request) := by
  have hbooks := serve_books h.coherent { issued := n } source request
  have hnumbered := hbooks.numbered h (by rw [Ledger.record_issued]; exact hleft)
  rw [Ledger.record_issued] at hnumbered
  exact hnumbered

/-- Of the numbers issued before, none gets another path. -/
theorem serve_pathOf?_issued {m : Mount} {n : Nat} (h : m.inodes.Numbered n) {source : σ}
    {request : Request} (hleft : n + m.issues source request ≤ Inodes.maxNumber) {i : Nat}
    {p : Path} (hi : i ≤ n) (hp : (m.serve source request).2.1.inodes.pathOf? i = some p) :
    m.inodes.pathOf? i = some p := by
  have hbooks := serve_books h.coherent { issued := n } source request
  exact hbooks.pathOf? h (by rw [Ledger.record_issued]; exact hleft) hi hp

/-- What a lookup finds is tracked then. -/
theorem pathOf?_lookedUp {m : Mount} {n k : Nat} (h : m.inodes.Numbered n) {source : σ}
    {request : Request} (hnext : (m.serve source request).2.1.inodes.Numbered k) {i : Nat}
    (hi : i ∈ m.lookedUp source request) :
    ∃ p, (m.serve source request).2.1.inodes.pathOf? i = some p := by
  cases request with
  | lookup parent name =>
    cases hlookup : (m.lookup source parent name).1 with
    | error e =>
      rw [lookedUp, hlookup] at hi
      cases hi
    | ok found =>
      rw [lookedUp, hlookup] at hi
      obtain rfl := List.mem_singleton.1 hi
      obtain ⟨path, -, hinode, htable⟩ := lookup_ok hlookup
      have hnumber := Inodes.numberOf?_lookup h.coherent (path.join name) found.stat.kind
      rw [← hinode, ← htable, ← serve_lookup_mount] at hnumber
      obtain ⟨q, hq, -⟩ := hnext.path_of_number hnumber
      exact ⟨q, hq⟩
  | _ => cases hi

/-! ## What a run gives -/

/-- The new numbers of a run are the next ones, one behind the other, and no others are
issued. -/
theorem gather_newNumbers {m : Mount} {n : Nat} (h : m.inodes.Numbered n)
    (requests : List (σ × Request))
    (hleft : n + (m.gather newNumbers requests).length ≤ Inodes.maxNumber) :
    m.gather newNumbers requests =
        List.range' (n + 1) (m.gather newNumbers requests).length ∧
      (m.serveAll requests).inodes.Numbered (n + (m.gather newNumbers requests).length) := by
  induction requests generalizing m n with
  | nil => exact ⟨rfl, h⟩
  | cons r rest ih =>
    have hcount := length_newNumbers h r.1 r.2
    rw [gather, List.length_append, hcount, ← Nat.add_assoc] at hleft ⊢
    have hfirst : n + m.issues r.1 r.2 ≤ Inodes.maxNumber := (Nat.le_add_right _ _).trans hleft
    obtain ⟨hrest, hnumbered⟩ := ih (serve_numbered h r.1 r.2 hfirst) hleft
    refine ⟨?_, hnumbered⟩
    rw [newNumbers_eq h r.1 r.2 hfirst, ← List.range'_append_1, Nat.add_right_comm]
    exact congrArg _ hrest

/-- An old number that a lookup finds at any later time is tracked now. -/
theorem pathOf?_of_lookedUp {m : Mount} {n : Nat} (h : m.inodes.Numbered n)
    {requests : List (σ × Request)}
    (hleft : n + (m.gather newNumbers requests).length ≤ Inodes.maxNumber) {i : Nat} (hi : i ≤ n)
    (hfound : i ∈ m.gather lookedUp requests) : ∃ p, m.inodes.pathOf? i = some p := by
  induction requests generalizing m n with
  | nil => cases hfound
  | cons r rest ih =>
    rw [gather, List.length_append, length_newNumbers h r.1 r.2, ← Nat.add_assoc] at hleft
    have hfirst : n + m.issues r.1 r.2 ≤ Inodes.maxNumber := (Nat.le_add_right _ _).trans hleft
    have hnext := serve_numbered h r.1 r.2 hfirst
    have htracked : ∃ p, (m.serve r.1 r.2).2.1.inodes.pathOf? i = some p := by
      rcases List.mem_append.1 hfound with hnow | hlater
      · exact pathOf?_lookedUp h hnext hnow
      · exact ih hnext hleft (Nat.le_add_right_of_le hi) hlater
    obtain ⟨p, hp⟩ := htracked
    exact ⟨p, serve_pathOf?_issued h hfirst hi hp⟩

/-- The lines of a listing: tracked places with their numbers, and others with new ones. -/
theorem listing_lines {m : Mount} (h : m.inodes.Coherent) {source : σ} {inode : Nat}
    (offset : Int) (room : Nat) {listed : List ListedEntry}
    (hlisted : (m.listing source inode).1 = .ok listed) :
    ∃ path lines, m.inodes.pathOf? inode = some path ∧
      listed = ⟨inode, .directory, "."⟩ :: ⟨m.inodes.parentOf inode, .directory, ".."⟩ :: lines ∧
      ∀ line ∈ lines, let place := path.join (Text.encode line.name)
        (∀ i e, m.inodes.get? i = some e → e.path.Same place → line.inode = i) ∧
        (¬m.inodes.Tracks place →
          line.inode ∈ m.newNumbers source (.readDirectory inode offset room)) := by
  rcases m.listing_shape source inode offset room with ⟨⟨e, herror⟩, -, -⟩ |
    ⟨path, entries, hpath, hok, hnew, -⟩
  · rw [herror] at hlisted
    cases hlisted
  · rw [hok] at hlisted
    refine ⟨path, _, hpath, (Except.ok.inj hlisted).symm, ?_⟩
    intro line hline place
    constructor
    · intro i e he hplace
      exact numberEntries_known hline (h.number_of_entry he hplace)
    · intro htracks
      rw [hnew]
      apply List.mem_map_of_mem
      exact List.mem_filter.2 ⟨hline, decide_eq_true htracks⟩

/-- A number that a listing gives to a place without one is not tracked behind it, and no
lookup after it finds that number. -/
theorem listed_number_unused {m : Mount} {n : Nat} (h : m.inodes.Numbered n) {source : σ}
    {inode : Nat} {offset : Int} {room : Nat} {after : List (σ × Request)}
    (hleft : n + (m.gather newNumbers
      ((source, .readDirectory inode offset room) :: after)).length ≤ Inodes.maxNumber)
    {i : Nat} (hi : i ∈ m.newNumbers source (.readDirectory inode offset room)) :
    n < i ∧ (m.listing source inode).2.1.inodes.get? i = none ∧
      i ∉ (m.listing source inode).2.1.gather lookedUp after := by
  rw [gather, List.length_append, length_newNumbers h, ← Nat.add_assoc] at hleft
  have hfirst := (Nat.le_add_right _ _).trans hleft
  have hnext := serve_numbered h source _ hfirst
  rw [newNumbers_eq h source _ hfirst, List.mem_range'_1] at hi
  rw [serve_readDirectory_mount] at hleft hnext
  have huntracked : ¬∃ p, (m.listing source inode).2.1.inodes.pathOf? i = some p := by
    rw [listing_inodes h.coherent.next_le source inode offset room]
    rintro ⟨p, hp⟩
    have hle : i ≤ n := h.inode_le hp
    omega
  refine ⟨hi.1, ?_, ?_⟩
  · rw [← Option.not_isSome_iff_eq_none, Option.isSome_iff_exists]
    rintro ⟨e, he⟩
    exact huntracked ⟨e.path, Inodes.pathOf?_eq_some_iff.2 ⟨e, he, rfl⟩⟩
  · intro hfound
    exact huntracked (pathOf?_of_lookedUp hnext hleft (by omega) hfound)

/-- In every run the new numbers ascend, and the lines of a listing carry either the number
of a tracked node or one that nothing had before and no lookup finds. -/
theorem numbers_never_recycled (policy : FailurePolicy) (owner : Owner)
    (requests : List (σ × Request)) :
    let start : Mount := { policy, owner }
    let numbers := start.gather newNumbers requests
    numbers.length < 2 ^ 64 - 2 →
    numbers.Pairwise (· < ·) ∧ (∀ i ∈ numbers, Inodes.rootNumber < i) ∧
    (start.serveAll requests).inodes.next = Inodes.rootNumber + 1 + numbers.length ∧
    ∀ before source inode offset room after listed,
      requests = before ++ (source, .readDirectory inode offset room) :: after →
      let mount := start.serveAll before
      let next := (mount.listing source inode).2.1
      (mount.listing source inode).1 = .ok listed →
      (∀ i, next.inodes.get? i = mount.inodes.get? i) ∧
      (∀ place, next.inodes.numberOf? place = mount.inodes.numberOf? place) ∧
      ∃ path lines, mount.inodes.pathOf? inode = some path ∧
        listed = ⟨inode, .directory, "."⟩ ::
          ⟨mount.inodes.parentOf inode, .directory, ".."⟩ :: lines ∧
        ∀ line ∈ lines, let place := path.join (Text.encode line.name)
          (∀ i e, mount.inodes.get? i = some e → e.path.Same place → line.inode = i) ∧
          (¬mount.inodes.Tracks place →
            line.inode ∈ mount.newNumbers source (.readDirectory inode offset room) ∧
            line.inode ≠ Inodes.rootNumber ∧ line.inode ∉ start.gather newNumbers before ∧
            next.inodes.get? line.inode = none ∧ line.inode ∉ next.gather lookedUp after) := by
  intro start numbers hfew
  have hlast : Inodes.maxNumber = 2 ^ 64 - 1 := rfl
  have hstart : start.inodes.Numbered Inodes.rootNumber := .initial
  have hroot : Inodes.rootNumber = 1 := rfl
  have hleft : Inodes.rootNumber + numbers.length ≤ Inodes.maxNumber := by omega
  obtain ⟨hnumbers, hend⟩ := gather_newNumbers hstart requests hleft
  replace hnumbers : numbers = List.range' (Inodes.rootNumber + 1) numbers.length := hnumbers
  refine ⟨?_, ?_, ?_, ?_⟩
  · rw [hnumbers]
    exact List.pairwise_lt_range'
  · intro i hi
    rw [hnumbers, List.mem_range'_1] at hi
    exact hi.1
  · have hnext := hend.next_eq
    change _ = min (Inodes.rootNumber + numbers.length + 1) _ at hnext
    omega
  · rintro before source inode offset room after listed rfl mount next hlisted
    have hall : numbers = start.gather newNumbers before ++
        mount.gather newNumbers ((source, .readDirectory inode offset room) :: after) :=
      start.gather_append newNumbers before _
    rw [hall, List.length_append, ← Nat.add_assoc] at hleft
    obtain ⟨hbefore, hmount⟩ :=
      gather_newNumbers hstart before ((Nat.le_add_right _ _).trans hleft)
    have htable := listing_inodes hmount.coherent.next_le source inode offset room
    obtain ⟨path, lines, hpath, hlines, hnumbered⟩ :=
      listing_lines hmount.coherent offset room hlisted
    refine ⟨fun i => by rw [htable]; rfl, fun place => by rw [htable]; rfl,
      path, lines, hpath, hlines, ?_⟩
    intro line hline place
    obtain ⟨htracked, hnew⟩ := hnumbered line hline
    refine ⟨htracked, fun htracks => ⟨hnew htracks, ?_⟩⟩
    obtain ⟨hlt, hunused⟩ := listed_number_unused hmount hleft (hnew htracks)
    refine ⟨by omega, ?_, hunused⟩
    rw [hbefore, List.mem_range'_1]
    omega

/-- A listing of a host that was forgotten and found again, and of one that is looked up
later, under another number than its line carried. -/
theorem numbers_never_recycled_after_forgetting :
    let index : String → Except QueryFault (List Event) :=
      fun _ => .ok [{ host := "a", service := "s" }, { host := "b", service := "s" }]
    let before := [(index, .lookup 1 (Text.encode "a")), (index, .forget 2 1),
      (index, .lookup 1 (Text.encode "a"))]
    let after := [(index, .lookup 1 (Text.encode "b")), (index, .lookup 1 (Text.encode "a"))]
    let start : Mount := {}
    let mount := start.serveAll before
    let next := (mount.listing index 1).2.1
    start.gather newNumbers (before ++ (index, .readDirectory 1 0 4096) :: after) =
        [2, 3, 4, 5, 6] ∧
      (mount.listing index 1).1.toOption = some [⟨1, .directory, "."⟩, ⟨1, .directory, ".."⟩,
        ⟨4, .directory, ".query"⟩, ⟨3, .directory, "a"⟩, ⟨5, .directory, "b"⟩] ∧
      next.gather lookedUp after = [6, 3] ∧ next.inodes.get? 5 = none ∧
      5 ∉ next.gather lookedUp after := by
  intro index before after start mount next
  have hnumbers : start.gather newNumbers
      (before ++ (index, .readDirectory 1 0 4096) :: after) = [2, 3, 4, 5, 6] := by decide +kernel
  have hlisted : (mount.listing index 1).1.toOption = some [⟨1, .directory, "."⟩,
      ⟨1, .directory, ".."⟩, ⟨4, .directory, ".query"⟩, ⟨3, .directory, "a"⟩,
      ⟨5, .directory, "b"⟩] := by decide +kernel
  have hfound : next.gather lookedUp after = [6, 3] := by decide +kernel
  have hpath : mount.inodes.pathOf? 1 = some .root := by decide +kernel
  have htracks : ¬mount.inodes.Tracks (Path.root.join (Text.encode "b")) := by decide +kernel
  obtain ⟨-, -, -, hlistings⟩ := numbers_never_recycled .lenient {}
    (before ++ (index, .readDirectory 1 0 4096) :: after) (by rw [hnumbers]; decide)
  obtain ⟨-, -, path, lines, hpath', hlines, hnumbered⟩ :=
    hlistings before index 1 0 4096 after _ rfl (eq_ok_of_toOption hlisted)
  cases Option.some.inj (hpath'.symm.trans hpath)
  obtain rfl := List.tail_eq_of_cons_eq (List.tail_eq_of_cons_eq hlines)
  obtain ⟨-, hnew⟩ := hnumbered ⟨5, .directory, "b"⟩ (by decide)
  obtain ⟨-, -, -, huntracked, hunused⟩ := hnew htracks
  exact ⟨hnumbers, hlisted, hfound, huntracked, hunused⟩

end Mount
end EventTree
