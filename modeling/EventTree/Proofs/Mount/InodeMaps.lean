import EventTree.Mount.Inodes
import EventTree.Proofs.Path.Places

/-!
# The two maps of the inode table

A table holds the tracked nodes by number and the numbers by place, and changes them
apart. They stay inverse to each other through every sequence of changes, as long as
numbers are left; places are compared by components, so the spelling of a path does
not count.

Numbers end at `maxNumber`, which is then issued over and over. `Coherent` says what
holds even then: a tracked path has its number, and a number below the last one leads
back to its path. It is the invariant; that the maps are inverse before the last
number is reached follows from it.
-/
namespace EventTree.Inodes

theorem numberOf?_congr {p q : Path} (t : Inodes) (h : p.Same q) :
    t.numberOf? p = t.numberOf? q := by
  rw [numberOf?, numberOf?, h]

theorem pathOf?_eq_some_iff {t : Inodes} {inode : Nat} {p : Path} :
    t.pathOf? inode = some p ↔ ∃ e, t.get? inode = some e ∧ e.path = p := by
  rw [pathOf?, Option.map_eq_some_iff]

/-! ## What the changes do to the maps -/

@[simp] theorem modify_numbers (t : Inodes) (inode : Nat) (f : TrackedNode → TrackedNode) :
    (t.modify inode f).numbers = t.numbers := by
  unfold modify
  split <;> rfl

@[simp] theorem modify_next (t : Inodes) (inode : Nat) (f : TrackedNode → TrackedNode) :
    (t.modify inode f).next = t.next := by
  unfold modify
  split <;> rfl

theorem get?_modify (t : Inodes) (inode i : Nat) (f : TrackedNode → TrackedNode) :
    (t.modify inode f).get? i = if i = inode then (t.get? inode).map f else t.get? i := by
  cases he : t.get? inode with
  | none =>
    have hsame : t.modify inode f = t := by simp only [modify, he]
    rw [hsame]
    split
    · next hi => rw [hi, he, Option.map_none]
    · rfl
  | some e =>
    have hinsert : t.modify inode f = { t with entries := t.entries.insert inode (f e) } := by
      simp only [modify, he]
    rw [hinsert]
    exact Keyed.get?_insert _ _ _ _

/-- A change of an entry that leaves its path alone leaves all paths alone. -/
theorem pathOf?_modify (t : Inodes) (inode : Nat) {f : TrackedNode → TrackedNode}
    (hf : ∀ e, (f e).path = e.path) : (t.modify inode f).pathOf? = t.pathOf? := by
  funext i
  rw [pathOf?, get?_modify]
  split
  · next hi =>
    subst hi
    rw [Option.map_map, pathOf?]
    congr 1
    funext e
    exact hf e
  · rfl

theorem pathOf?_modify_of_eq {t : Inodes} {i inode : Nat} {p : Path}
    {f : TrackedNode → TrackedNode} (hp : t.pathOf? i = some p)
    (hf : ∀ e, (f e).path = e.path) : (t.modify inode f).pathOf? i = some p := by
  rw [t.pathOf?_modify inode hf]
  exact hp

theorem issue_next (t : Inodes) : t.issue.2.next = min (t.next + 1) maxNumber := rfl

/-- The entries and numbers with `path` under `inode`. -/
def enter (t : Inodes) (inode : Nat) (path : Path) (kind : NodeKind) : Inodes :=
  { t with
    entries := t.entries.insert inode ⟨path, kind, 0⟩
    numbers := t.numbers.insert path.components inode }

theorem get?_enter (t : Inodes) (inode i : Nat) (path : Path) (kind : NodeKind) :
    (t.enter inode path kind).get? i = if i = inode then some ⟨path, kind, 0⟩ else t.get? i :=
  Keyed.get?_insert _ _ _ _

theorem pathOf?_enter (t : Inodes) (inode i : Nat) (path : Path) (kind : NodeKind) :
    (t.enter inode path kind).pathOf? i = if i = inode then some path else t.pathOf? i := by
  rw [pathOf?, get?_enter]
  split <;> rfl

theorem numberOf?_enter (t : Inodes) (inode : Nat) (path p : Path) (kind : NodeKind) :
    (t.enter inode path kind).numberOf? p =
      if p.Same path then some inode else t.numberOf? p :=
  Keyed.get?_insert _ _ _ _

/-- The entries and numbers without `inode` and `path`. -/
def drop (t : Inodes) (inode : Nat) (path : Path) : Inodes :=
  { t with
    entries := t.entries.erase inode
    numbers := t.numbers.erase path.components }

theorem get?_drop (t : Inodes) (inode i : Nat) (path : Path) :
    (t.drop inode path).get? i = if i = inode then none else t.get? i :=
  Keyed.get?_erase _ _ _

theorem pathOf?_drop (t : Inodes) (inode i : Nat) (path : Path) :
    (t.drop inode path).pathOf? i = if i = inode then none else t.pathOf? i := by
  rw [pathOf?, get?_drop]
  split <;> rfl

theorem numberOf?_drop (t : Inodes) (inode : Nat) (path p : Path) :
    (t.drop inode path).numberOf? p = if p.Same path then none else t.numberOf? p :=
  Keyed.get?_erase _ _ _

/-! ## The invariant -/

structure Coherent (t : Inodes) : Prop where
  /-- A tracked path leads to its number. -/
  number_of_path : ∀ {i p}, t.pathOf? i = some p → t.numberOf? p = some i
  /-- A number below the last leads back to the place. -/
  path_of_number : ∀ {i p}, t.numberOf? p = some i → i < maxNumber →
    ∃ q, t.pathOf? i = some q ∧ q.Same p
  issued : ∀ {i p}, t.numberOf? p = some i → i < t.next ∨ t.next = maxNumber
  root : t.pathOf? rootNumber = some .root
  root_lt_next : rootNumber < t.next
  next_le : t.next ≤ maxNumber

/-- Only paths, numbers and the next number count. -/
theorem Coherent.of_eq {t u : Inodes} (h : t.Coherent) (hpath : u.pathOf? = t.pathOf?)
    (hnumbers : u.numbers = t.numbers) (hnext : u.next = t.next) : u.Coherent := by
  have hnumber : u.numberOf? = t.numberOf? := by
    funext p
    rw [numberOf?, numberOf?, hnumbers]
  constructor
  · rw [hpath, hnumber]
    exact h.number_of_path
  · rw [hpath, hnumber]
    exact h.path_of_number
  · rw [hnumber, hnext]
    exact h.issued
  · rw [hpath]
    exact h.root
  · rw [hnext]
    exact h.root_lt_next
  · rw [hnext]
    exact h.next_le

theorem get?_initial (i : Nat) :
    initial.get? i = if i = rootNumber then some ⟨.root, .directory, 0⟩ else none :=
  Keyed.get?_insert _ _ _ _

theorem pathOf?_initial (i : Nat) :
    initial.pathOf? i = if i = rootNumber then some .root else none := by
  rw [pathOf?, get?_initial]
  split <;> rfl

theorem initial_coherent : initial.Coherent := by
  have hnumber : ∀ p, initial.numberOf? p = if p.Same .root then some rootNumber else none :=
    fun p => numberOf?_enter ⟨.empty, .empty, rootNumber + 1⟩ rootNumber .root p .directory
  constructor
  · intro i p hp
    rw [pathOf?_initial] at hp
    split at hp
    · next hi =>
      rw [← Option.some.inj hp, hi, hnumber, if_pos (Path.same_refl _)]
    · cases hp
  · intro i p hi _
    rw [hnumber] at hi
    split at hi
    · next hp =>
      rw [← Option.some.inj hi]
      exact ⟨.root, by rw [pathOf?_initial, if_pos rfl], hp.symm⟩
    · cases hi
  · intro i p hi
    rw [hnumber] at hi
    split at hi
    · rw [← Option.some.inj hi]
      exact .inl (by decide)
    · cases hi
  · rw [pathOf?_initial, if_pos rfl]
  · decide
  · decide

/-- The root is never out of the numbers. -/
theorem Coherent.numberOf?_root {t : Inodes} (h : t.Coherent) {p : Path} (hp : p.Same .root) :
    t.numberOf? p = some rootNumber := by
  rw [t.numberOf?_congr hp]
  exact h.number_of_path h.root

/-! ## Every change keeps the invariant -/

theorem Coherent.modify {t : Inodes} (h : t.Coherent) (inode : Nat)
    {f : TrackedNode → TrackedNode} (hf : ∀ e, (f e).path = e.path) :
    (t.modify inode f).Coherent :=
  h.of_eq (t.pathOf?_modify inode hf) (t.modify_numbers inode f) (t.modify_next inode f)

theorem Coherent.issue {t : Inodes} (h : t.Coherent) : t.issue.2.Coherent := by
  have hle := h.next_le
  constructor
  · exact h.number_of_path
  · exact h.path_of_number
  · intro i p hi
    rw [issue_next]
    rcases h.issued hi with hlt | hlast <;> omega
  · exact h.root
  · have hroot : rootNumber < maxNumber := by decide
    have hlt := h.root_lt_next
    rw [issue_next]
    omega
  · rw [issue_next]
    omega

/-- A new place under the number issued for it. If that is the last number it may
have another place already, which then keeps the number but not its entry. -/
theorem Coherent.enter {t : Inodes} (h : t.Coherent) {path : Path} (kind : NodeKind)
    (hnew : t.numberOf? path = none) : (t.issue.2.enter t.next path kind).Coherent := by
  have hissue := h.issue
  have hpath := fun i => t.issue.2.pathOf?_enter t.next i path kind
  have hnumber := fun p => t.issue.2.numberOf?_enter t.next path p kind
  have hother : ∀ {i p}, t.pathOf? i = some p → ¬ p.Same path := by
    intro i p hp hsame
    have hi := h.number_of_path hp
    rw [t.numberOf?_congr hsame, hnew] at hi
    cases hi
  constructor
  · intro i p hp
    rw [hpath] at hp
    split at hp
    · next hi =>
      rw [← Option.some.inj hp, hnumber, if_pos (Path.same_refl _), hi]
    · rw [hnumber, if_neg (hother hp)]
      exact h.number_of_path hp
  · intro i p hi hlt
    rw [hnumber] at hi
    rw [hpath]
    split at hi
    · next hp =>
      rw [if_pos (Option.some.inj hi).symm]
      exact ⟨path, rfl, hp.symm⟩
    · have hne : i ≠ t.next := by
        rcases h.issued hi with hi | hlast <;> omega
      rw [if_neg hne]
      exact h.path_of_number hi hlt
  · intro i p hi
    rw [hnumber] at hi
    split at hi
    · rw [← Option.some.inj hi]
      have hle := h.next_le
      change t.next < t.issue.2.next ∨ t.issue.2.next = maxNumber
      rw [issue_next]
      omega
    · exact hissue.issued hi
  · rw [hpath, if_neg (Nat.ne_of_lt h.root_lt_next)]
    exact h.root
  · exact hissue.root_lt_next
  · exact hissue.next_le

theorem Coherent.drop {t : Inodes} (h : t.Coherent) {inode : Nat} {path : Path}
    (hroot : inode ≠ rootNumber) (htracked : t.pathOf? inode = some path) :
    (t.drop inode path).Coherent := by
  have hpath := fun i => t.pathOf?_drop inode i path
  have hnumber := t.numberOf?_drop inode path
  have hinode := h.number_of_path htracked
  constructor
  · intro i p hp
    rw [hpath] at hp
    split at hp
    · cases hp
    · next hne =>
      have hi := h.number_of_path hp
      have hother : ¬ p.Same path := by
        intro hsame
        rw [t.numberOf?_congr hsame, hinode] at hi
        exact hne (Option.some.inj hi).symm
      rw [hnumber, if_neg hother]
      exact hi
  · intro i p hi hlt
    rw [hnumber] at hi
    split at hi
    · cases hi
    · next hother =>
      obtain ⟨q, hq, hsame⟩ := h.path_of_number hi hlt
      have hne : i ≠ inode := by
        rintro rfl
        rw [htracked] at hq
        exact hother (Option.some.inj hq ▸ hsame.symm)
      exact ⟨q, by rw [hpath, if_neg hne]; exact hq, hsame⟩
  · intro i p hi
    rw [hnumber] at hi
    split at hi
    · cases hi
    · exact h.issued hi
  · rw [hpath, if_neg (Ne.symm hroot)]
    exact h.root
  · exact h.root_lt_next
  · exact h.next_le

/-! ## The operations -/

theorem track_known {t : Inodes} {path : Path} {inode : Nat}
    (h : t.numberOf? path = some inode) (kind : NodeKind) :
    t.track path kind = (inode, t.modify inode fun e => { e with kind }) := by
  simp only [track, h]

/-- To track a known path changes no path. -/
theorem pathOf?_track_known {t : Inodes} {path : Path} {inode : Nat}
    (h : t.numberOf? path = some inode) (kind : NodeKind) :
    (t.track path kind).2.pathOf? = t.pathOf? := by
  rw [track_known h]
  exact t.pathOf?_modify inode fun _ => rfl

theorem Coherent.track_new {t : Inodes} (h : t.Coherent) {path : Path}
    (hnew : t.numberOf? path = none) (kind : NodeKind) :
    t.track path kind = (t.next, t.issue.2.enter t.next path kind) := by
  have hroot : ¬ path.Same .root := by
    intro hsame
    rw [h.numberOf?_root hsame] at hnew
    cases hnew
  simp only [Inodes.track, hnew, if_neg hroot]
  rfl

theorem Coherent.track {t : Inodes} (h : t.Coherent) (path : Path) (kind : NodeKind) :
    (t.track path kind).2.Coherent := by
  cases hnumber : t.numberOf? path with
  | some inode =>
    rw [track_known hnumber]
    exact h.modify inode fun _ => rfl
  | none =>
    rw [h.track_new hnumber]
    exact h.enter kind hnumber

theorem lookup_eq (t : Inodes) (path : Path) (kind : NodeKind) :
    t.lookup path kind = ((t.track path kind).1, (t.track path kind).2.modify
      (t.track path kind).1 fun e => { e with lookups := min (e.lookups + 1) maxNumber }) := rfl

theorem Coherent.lookup {t : Inodes} (h : t.Coherent) (path : Path) (kind : NodeKind) :
    (t.lookup path kind).2.Coherent := by
  rw [lookup_eq]
  exact (h.track path kind).modify _ fun _ => rfl

/-- A node is dropped with its last lookup; else only a count changes. -/
theorem forget_cases (t : Inodes) (inode count : Nat) :
    t.forget inode count = t ∨
    t.forget inode count = t.modify inode (fun e => { e with lookups := e.lookups - count }) ∨
    ∃ e, inode ≠ rootNumber ∧ t.get? inode = some e ∧ e.lookups ≤ count ∧
      t.forget inode count = t.drop inode e.path := by
  unfold forget
  by_cases hroot : inode = rootNumber
  · exact .inl (if_pos hroot)
  · rw [if_neg hroot]
    cases he : t.get? inode with
    | none => exact .inl rfl
    | some e =>
      by_cases hlast : e.lookups - count = 0
      · exact .inr (.inr ⟨e, hroot, rfl, by omega, if_pos hlast⟩)
      · exact .inr (.inl (if_neg hlast))

theorem Coherent.forget {t : Inodes} (h : t.Coherent) (inode count : Nat) :
    (t.forget inode count).Coherent := by
  rcases t.forget_cases inode count with heq | heq | ⟨e, hroot, he, -, heq⟩
  · rw [heq]
    exact h
  · rw [heq]
    exact h.modify inode fun _ => rfl
  · rw [heq]
    exact h.drop hroot (pathOf?_eq_some_iff.2 ⟨e, he, rfl⟩)

/-- The number to issue next is never set back. -/
theorem Coherent.next_le_track {t : Inodes} (h : t.Coherent) (path : Path) (kind : NodeKind) :
    t.next ≤ (t.track path kind).2.next := by
  cases hnumber : t.numberOf? path with
  | some inode =>
    have hsame : (t.track path kind).2.next = t.next := by rw [track_known hnumber, modify_next]
    exact Nat.le_of_eq hsame.symm
  | none =>
    have hle := h.next_le
    rw [h.track_new hnumber]
    change t.next ≤ t.issue.2.next
    rw [issue_next]
    omega

theorem forget_next (t : Inodes) (inode count : Nat) : (t.forget inode count).next = t.next := by
  rcases t.forget_cases inode count with heq | heq | ⟨e, -, -, -, heq⟩
  · rw [heq]
  · rw [heq, modify_next]
  · rw [heq]
    rfl

/-! ## What stays tracked -/

theorem numberOf?_track {t : Inodes} (h : t.Coherent) (path : Path) (kind : NodeKind) :
    (t.track path kind).2.numberOf? path = some (t.track path kind).1 := by
  cases hnumber : t.numberOf? path with
  | some inode =>
    rw [track_known hnumber, numberOf?, modify_numbers]
    exact hnumber
  | none => rw [h.track_new hnumber, numberOf?_enter, if_pos (Path.same_refl _)]

theorem numberOf?_lookup {t : Inodes} (h : t.Coherent) (path : Path) (kind : NodeKind) :
    (t.lookup path kind).2.numberOf? path = some (t.lookup path kind).1 := by
  rw [lookup_eq, numberOf?, modify_numbers]
  exact numberOf?_track h path kind

/-- Only the place of the path may come to be tracked, and only under the next number. -/
theorem Coherent.pathOf?_track_eq {t : Inodes} (h : t.Coherent) (path : Path) (kind : NodeKind)
    (i : Nat) : (t.track path kind).2.pathOf? i =
      if t.numberOf? path = none ∧ i = t.next then some path else t.pathOf? i := by
  cases hnumber : t.numberOf? path with
  | some inode => rw [pathOf?_track_known hnumber, if_neg (by simp)]
  | none =>
    rw [h.track_new hnumber, pathOf?_enter]
    simp only [true_and]
    rfl

theorem Coherent.pathOf?_lookup_eq {t : Inodes} (h : t.Coherent) (path : Path)
    (kind : NodeKind) (i : Nat) : (t.lookup path kind).2.pathOf? i =
      if t.numberOf? path = none ∧ i = t.next then some path else t.pathOf? i := by
  rw [lookup_eq, ← h.pathOf?_track_eq path kind, pathOf?_modify]
  exact fun _ => rfl

/-- A tracked number below the last is not issued again. -/
theorem Coherent.ne_next {t : Inodes} (h : t.Coherent) {i : Nat} {p : Path}
    (hp : t.pathOf? i = some p) (hi : i < maxNumber) : i ≠ t.next := by
  rcases h.issued (h.number_of_path hp) with hlt | hlast <;> omega

/-- No new place takes a number below the last from a tracked one. -/
theorem Coherent.pathOf?_track {t : Inodes} (h : t.Coherent) (path : Path) (kind : NodeKind)
    {i : Nat} {p : Path} (hp : t.pathOf? i = some p) (hi : i < maxNumber) :
    (t.track path kind).2.pathOf? i = some p := by
  rw [h.pathOf?_track_eq, if_neg fun hnew => h.ne_next hp hi hnew.2]
  exact hp

theorem Coherent.pathOf?_lookup {t : Inodes} (h : t.Coherent) (path : Path) (kind : NodeKind)
    {i : Nat} {p : Path} (hp : t.pathOf? i = some p) (hi : i < maxNumber) :
    (t.lookup path kind).2.pathOf? i = some p := by
  rw [h.pathOf?_lookup_eq, if_neg fun hnew => h.ne_next hp hi hnew.2]
  exact hp

/-- A forget brings no path into the table. -/
theorem pathOf?_of_forget {t : Inodes} {i inode count : Nat} {p : Path}
    (hp : (t.forget inode count).pathOf? i = some p) : t.pathOf? i = some p := by
  rcases t.forget_cases inode count with heq | heq | ⟨e, -, -, -, heq⟩
  · rw [heq] at hp
    exact hp
  · rw [heq, pathOf?_modify] at hp
    · exact hp
    · exact fun _ => rfl
  · rw [heq, pathOf?_drop] at hp
    split at hp
    · cases hp
    · exact hp

theorem pathOf?_forget {t : Inodes} {i inode count : Nat} {p : Path}
    (hp : t.pathOf? i = some p)
    (hkeeps : i = inode → i = rootNumber ∨ ∃ e, t.get? i = some e ∧ count < e.lookups) :
    (t.forget inode count).pathOf? i = some p := by
  rcases t.forget_cases inode count with heq | heq | ⟨e, hroot, he, hcount, heq⟩
  · rw [heq]
    exact hp
  · rw [heq]
    exact pathOf?_modify_of_eq hp fun _ => rfl
  · have hne : i ≠ inode := by
      intro hi
      rcases hkeeps hi with hi' | ⟨e', he', hlt⟩
      · exact hroot (hi ▸ hi')
      · rw [hi, he] at he'
        cases he'
        omega
    rw [heq, pathOf?_drop, if_neg hne]
    exact hp

/-! ## Sequences of changes -/

inductive Change where
  | track (path : Path) (kind : NodeKind)
  | lookup (path : Path) (kind : NodeKind)
  | forget (inode count : Nat)
  | issue
deriving DecidableEq, Repr

def apply (t : Inodes) : Change → Inodes
  | .track path kind => (t.track path kind).2
  | .lookup path kind => (t.lookup path kind).2
  | .forget inode count => t.forget inode count
  | .issue => t.issue.2

def applyAll (t : Inodes) (changes : List Change) : Inodes := changes.foldl apply t

theorem Coherent.apply {t : Inodes} (h : t.Coherent) (change : Change) :
    (t.apply change).Coherent := by
  cases change with
  | track path kind => exact h.track path kind
  | lookup path kind => exact h.lookup path kind
  | forget inode count => exact h.forget inode count
  | issue => exact h.issue

theorem Coherent.applyAll {t : Inodes} (h : t.Coherent) (changes : List Change) :
    (t.applyAll changes).Coherent := by
  induction changes generalizing t with
  | nil => exact h
  | cons change rest ih => exact ih (h.apply change)

/-- As long as numbers are left, every number of a place is below the next one. -/
theorem Coherent.number_lt_next {t : Inodes} (h : t.Coherent) (hleft : t.next < maxNumber)
    {p : Path} {i : Nat} (hi : t.numberOf? p = some i) : i < t.next := by
  rcases h.issued hi with hlt | hlast
  · exact hlt
  · omega

/-- From the initial table on, whatever is tracked, looked up, forgotten and issued,
the two maps are inverse to each other up to spelling while numbers are left. -/
theorem maps_inverse (changes : List Change) :
    let t := initial.applyAll changes
    t.next < maxNumber →
    (∀ p i, t.numberOf? p = some i ↔ ∃ e, t.get? i = some e ∧ e.path.Same p) ∧
    (∃ e, t.get? rootNumber = some e ∧ e.path = .root) ∧
    (∀ p, t.numberOf? p = some rootNumber → p.Same .root) ∧
    (∀ i e, t.get? i = some e → i < t.next) ∧
    (∀ p q i j, p.Same q → t.numberOf? p = some i → t.numberOf? q = some j → i = j) ∧
    (∀ p q i, t.numberOf? p = some i → t.numberOf? q = some i → p.Same q) := by
  intro t hleft
  have h : t.Coherent := initial_coherent.applyAll changes
  have hnumber : ∀ {i e}, t.get? i = some e → t.numberOf? e.path = some i := fun he =>
    h.number_of_path (pathOf?_eq_some_iff.2 ⟨_, he, rfl⟩)
  have hinverse : ∀ p i, t.numberOf? p = some i ↔ ∃ e, t.get? i = some e ∧ e.path.Same p := by
    intro p i
    constructor
    · intro hi
      have hlt := h.number_lt_next hleft hi
      obtain ⟨q, hq, hsame⟩ := h.path_of_number hi (Nat.lt_trans hlt hleft)
      obtain ⟨e, he, rfl⟩ := pathOf?_eq_some_iff.1 hq
      exact ⟨e, he, hsame⟩
    · rintro ⟨e, he, hsame⟩
      rw [← t.numberOf?_congr hsame]
      exact hnumber he
  have hone : ∀ p q i, t.numberOf? p = some i → t.numberOf? q = some i → p.Same q := by
    intro p q i hp hq
    obtain ⟨e, he, hep⟩ := (hinverse p i).1 hp
    obtain ⟨e', he', heq⟩ := (hinverse q i).1 hq
    rw [he] at he'
    cases he'
    exact hep.symm.trans heq
  refine ⟨hinverse, pathOf?_eq_some_iff.1 h.root, ?_, ?_, ?_, hone⟩
  · intro p hp
    exact hone p .root rootNumber hp (h.number_of_path h.root)
  · intro i e he
    exact h.number_lt_next hleft (hnumber he)
  · intro p q i j hsame hp hq
    rw [t.numberOf?_congr hsame, hq] at hp
    exact (Option.some.inj hp).symm

/-- A directory that was forgotten comes back under a number of its own. -/
theorem maps_inverse_after_forgetting :
    let a : Path := .ofString "/a"
    let t := initial.applyAll [.lookup a .directory, .issue, .track (.ofString "/a/b") .file,
      .lookup (.ofString "//a/.") .directory, .forget 2 2, .lookup (.ofString "/a/") .directory]
    t.next < maxNumber ∧ t.numberOf? a = some 5 ∧
    ∃ e, t.get? 5 = some e ∧ e.path.Same a := by
  intro a t
  have hleft : t.next < maxNumber := by decide +kernel
  have hnumber : t.numberOf? a = some 5 := by decide +kernel
  exact ⟨hleft, hnumber, ((maps_inverse _ hleft).1 a 5).1 hnumber⟩

end EventTree.Inodes
