import EventTree.Proofs.Mount.LastNumber
import EventTree.Proofs.Mount.NewNumbers

/-!
# The directory around a node

The number of the directory that a node lies in is looked for under its path without the last
component, and where that has no number the root takes its place. It never has to: the kernel
looks names up one at a time and forgets a directory after what lies in it, and as long as it
does, every directory around a tracked node is tracked too. So a node that was found in a
directory names this directory as its own until it is forgotten.

All numbers but the last of 64 bits stand for one place each. What is found under the last one
may be another node at any time once the others are used up, and can then seem to lie in itself:
see `last_number_shown_around_itself`.
-/
namespace EventTree

/-- The one path lies somewhere in the directory of the other. -/
def Path.Beneath (p q : Path) : Prop := q.components <+: p.components ∧ q.components ≠ p.components

instance (p q : Path) : Decidable (p.Beneath q) := inferInstanceAs (Decidable (_ ∧ _))

theorem Path.beneath_of_enclosing? {p q : Path}
    (h : enclosing? p.components = some q.components) : p.Beneath q := by
  unfold enclosing? at h
  split at h
  · cases h
  · next hne =>
    have hq := Option.some.inj h
    refine ⟨hq ▸ List.dropLast_prefix _, fun heq => ?_⟩
    have hlength := congrArg List.length (hq.trans heq)
    rw [List.length_dropLast] at hlength
    have hpos := List.length_pos_iff.2 fun hnil => hne (.inl hnil)
    omega

namespace Inodes

/-- A node beneath the path is tracked. -/
def Shelters (t : Inodes) (path : Path) : Prop :=
  ∃ entry ∈ t.entries.entries, entry.2.path.Beneath path

instance (t : Inodes) (path : Path) : Decidable (t.Shelters path) :=
  inferInstanceAs (Decidable (∃ entry ∈ t.entries.entries, _))

theorem shelters_of_pathOf? {t : Inodes} {i : Nat} {p q : Path} (hp : t.pathOf? i = some p)
    (hq : p.Beneath q) : t.Shelters q := by
  obtain ⟨e, he, rfl⟩ := pathOf?_eq_some_iff.1 hp
  exact ⟨(i, e), (Keyed.get?_eq_some_iff _ _ _).1 he, hq⟩

/-! ## Directories with numbers -/

/-- The directory that the path lies in has the number. -/
def LiesIn (t : Inodes) (p : Path) (inode : Nat) : Prop :=
  ∃ d, Path.enclosing? p.components = some d.components ∧ t.numberOf? d = some inode

theorem parentOf_of_liesIn {t : Inodes} {i parent : Nat} {p : Path} (hp : t.pathOf? i = some p)
    (h : t.LiesIn p parent) : t.parentOf i = parent := by
  obtain ⟨e, he, rfl⟩ := pathOf?_eq_some_iff.1 hp
  obtain ⟨d, hd, hnumber⟩ := h
  rw [parentOf, he, Option.bind_some, hd, Option.bind_some]
  exact congrArg (Option.getD · rootNumber) hnumber

theorem Coherent.parentOf_root {t : Inodes} (h : t.Coherent) :
    t.parentOf rootNumber = rootNumber := by
  obtain ⟨e, he, hroot⟩ := pathOf?_eq_some_iff.1 h.root
  have hnone : Path.enclosing? e.path.components = none := by
    rw [hroot]
    decide
  rw [parentOf, he, Option.bind_some, hnone]
  rfl

namespace LiesIn
variable {t : Inodes} {p : Path} {parent : Nat}

theorem congr {q : Path} (h : t.LiesIn p parent) (hsame : q.Same p) : t.LiesIn q parent := by
  obtain ⟨d, hd, hnumber⟩ := h
  exact ⟨d, (congrArg Path.enclosing? hsame).trans hd, hnumber⟩

theorem modify (h : t.LiesIn p parent) (inode : Nat) (f : TrackedNode → TrackedNode) :
    (t.modify inode f).LiesIn p parent := by
  obtain ⟨d, hd, hnumber⟩ := h
  refine ⟨d, hd, ?_⟩
  rw [numberOf?, modify_numbers]
  exact hnumber

/-- A directory that has a number keeps it when other places get theirs. -/
theorem track (h : t.LiesIn p parent) (hcoherent : t.Coherent) (path : Path) (kind : NodeKind) :
    (t.track path kind).2.LiesIn p parent := by
  cases hknown : t.numberOf? path with
  | some inode =>
    rw [track_known hknown]
    exact h.modify inode _
  | none =>
    obtain ⟨d, hd, hnumber⟩ := h
    have hother : ¬d.Same path := by
      intro hsame
      rw [t.numberOf?_congr hsame, hknown] at hnumber
      cases hnumber
    refine ⟨d, hd, ?_⟩
    rw [hcoherent.track_new hknown, numberOf?_enter, if_neg hother]
    exact hnumber

theorem lookup (h : t.LiesIn p parent) (hcoherent : t.Coherent) (path : Path) (kind : NodeKind) :
    (t.lookup path kind).2.LiesIn p parent := by
  rw [lookup_eq]
  exact (h.track hcoherent path kind).modify _ _

theorem drop (h : t.LiesIn p parent) (inode : Nat) {path : Path} (hpath : ¬p.Beneath path) :
    (t.drop inode path).LiesIn p parent := by
  obtain ⟨d, hd, hnumber⟩ := h
  have hother : ¬d.Same path := by
    intro hsame
    exact hpath (Path.beneath_of_enclosing? (hd.trans (congrArg some hsame)))
  refine ⟨d, hd, ?_⟩
  rw [numberOf?_drop, if_neg hother]
  exact hnumber

end LiesIn

/-- The number is not issued again, and what is tracked under it lies in the directory of the
other number. -/
structure Belongs (t : Inodes) (inode parent : Nat) : Prop where
  issued : inode < t.next ∨ t.next = maxNumber
  liesIn : ∀ {p}, t.pathOf? inode = some p → t.LiesIn p parent

/-- Every tracked path but the root's lies in a directory with a number. -/
structure Nested (t : Inodes) : Prop where
  coherent : t.Coherent
  absolute : ∀ {i p}, t.pathOf? i = some p → p.isAbsolute = true
  enclosed : ∀ {i p}, t.pathOf? i = some p → i ≠ rootNumber → ∃ parent, t.LiesIn p parent

theorem initial_nested : initial.Nested where
  coherent := initial_coherent
  absolute {i p} hp := by
    rw [pathOf?_initial] at hp
    split at hp <;> cases hp
    rfl
  enclosed {i p} hp hi := by
    rw [pathOf?_initial, if_neg hi] at hp
    cases hp

/-- A name leads into the directory, unless it leads back to it. -/
theorem Nested.liesIn_join {t : Inodes} (h : t.Nested) {parent : Nat} {path : Path}
    {name : Bytes} (hpath : t.pathOf? parent = some path) (hname : Path.slash ∉ name)
    (hother : t.numberOf? (path.join name) ≠ some parent) :
    t.LiesIn (path.join name) parent := by
  have hnumber := h.coherent.number_of_path hpath
  rcases Path.same_or_enclosing?_join (h.absolute hpath) hname with hsame | henclosing
  · exact absurd ((t.numberOf?_congr hsame).trans hnumber) hother
  · exact ⟨path, henclosing, hnumber⟩

end Inodes

namespace Mount
variable {σ : Type} [QuerySource σ]

/-! ## Requests of the kernel -/

/-- What the kernel keeps to: it looks up single names, and takes back the last lookup of a
directory only when nothing beneath it is tracked. -/
def Heeds (m : Mount) : Request → Prop
  | .lookup _ name => Path.slash ∉ name
  | .forget inode count => ∀ e ∈ m.inodes.get? inode,
      inode ≠ Inodes.rootNumber → e.lookups ≤ count → ¬m.inodes.Shelters e.path
  | _ => True

instance (m : Mount) (request : Request) : Decidable (m.Heeds request) :=
  match request with
  | .lookup _ name => inferInstanceAs (Decidable (Path.slash ∉ name))
  | .forget inode _ => inferInstanceAs (Decidable (∀ e ∈ m.inodes.get? inode, _))
  | .attributes _ | .openFile .. | .read .. | .release _ | .openDirectory _ | .readDirectory ..
  | .releaseDirectory _ | .capacity | .unserved => .isTrue trivial

/-- The kernel keeps to it at every request of a run. -/
def Orderly (m : Mount) : List (σ × Request) → Prop
  | [] => True
  | (source, request) :: rest => m.Heeds request ∧ Orderly (m.serve source request).2.1 rest

instance decidableOrderly (m : Mount) :
    (requests : List (σ × Request)) → Decidable (m.Orderly requests)
  | [] => .isTrue trivial
  | (source, request) :: rest =>
    have := decidableOrderly (m.serve source request).2.1 rest
    inferInstanceAs (Decidable (_ ∧ _))

theorem orderly_append {m : Mount} {requests rest : List (σ × Request)} :
    m.Orderly (requests ++ rest) ↔ m.Orderly requests ∧ (m.serveAll requests).Orderly rest := by
  induction requests generalizing m with
  | nil => exact (iff_of_eq (true_and _)).symm
  | cons r requests ih =>
    rw [List.cons_append, Orderly, Orderly, ih, and_assoc]
    rfl

theorem orderly_listings (m : Mount) (source : σ) (inode : Nat) (offset : Int)
    (room count : Nat) :
    m.Orderly (List.replicate count (source, .readDirectory inode offset room)) := by
  induction count generalizing m with
  | zero => trivial
  | succ count ih => exact ⟨trivial, ih _⟩

/-! ## What an orderly request keeps -/

namespace Updates
variable {m : Mount} {request : Request} {t : Inodes}

/-- A directory with a number keeps it as long as something in it is tracked. -/
theorem liesIn (u : m.Updates request t) (h : m.inodes.Coherent) (hheeds : m.Heeds request)
    {i parent : Nat} {p : Path} (hp : m.inodes.pathOf? i = some p)
    (hparent : m.inodes.LiesIn p parent) : t.LiesIn p parent := by
  cases u with
  | reserve count => exact hparent
  | attributes hpath hnode => exact hparent.track h _ _
  | lookup hpath hnode => exact hparent.lookup h _ _
  | forget inode count =>
    rcases m.inodes.forget_cases inode count with heq | heq | ⟨e, hroot, he, hcount, heq⟩
    · rw [heq]
      exact hparent
    · rw [heq]
      exact hparent.modify inode _
    · rw [heq]
      have hunsheltering := hheeds e he hroot hcount
      exact hparent.drop inode fun hbeneath =>
        hunsheltering (Inodes.shelters_of_pathOf? hp hbeneath)

/-- A path that is tracked now was tracked before, or it has just been found in a directory. -/
theorem tracked_cases (u : m.Updates request t) (h : m.inodes.Nested) (hheeds : m.Heeds request)
    {i : Nat} {p : Path} (hp : t.pathOf? i = some p) :
    m.inodes.pathOf? i = some p ∨
      i = m.inodes.next ∧ p.isAbsolute = true ∧ ∃ parent, t.LiesIn p parent := by
  cases u with
  | reserve count => exact .inl hp
  | attributes hpath hnode =>
    rw [Inodes.pathOf?_track_known (h.coherent.number_of_path hpath)] at hp
    exact .inl hp
  | @lookup parent path name node hpath hnode =>
    rw [h.coherent.pathOf?_lookup_eq] at hp
    split at hp
    · next hnew =>
      obtain rfl := Option.some.inj hp
      have hother : m.inodes.numberOf? (path.join name) ≠ some parent := by
        rw [hnew.1]
        nofun
      exact .inr ⟨hnew.2, Path.isAbsolute_join (h.absolute hpath) name, parent,
        (h.liesIn_join hpath hheeds hother).lookup h.coherent _ _⟩
    · exact .inl hp
  | forget inode count => exact .inl (Inodes.pathOf?_of_forget hp)

theorem nested (u : m.Updates request t) (h : m.inodes.Nested) (hheeds : m.Heeds request) :
    t.Nested where
  coherent := u.coherent h.coherent
  absolute hp := by
    rcases u.tracked_cases h hheeds hp with hbefore | ⟨-, habsolute, -⟩
    · exact h.absolute hbefore
    · exact habsolute
  enclosed hp hi := by
    rcases u.tracked_cases h hheeds hp with hbefore | ⟨-, -, hparent⟩
    · obtain ⟨parent, hparent⟩ := h.enclosed hbefore hi
      exact ⟨parent, u.liesIn h.coherent hheeds hbefore hparent⟩
    · exact hparent

theorem belongs (u : m.Updates request t) (h : m.inodes.Nested) (hheeds : m.Heeds request)
    {inode parent : Nat} (hlt : inode < Inodes.maxNumber)
    (hbelongs : m.inodes.Belongs inode parent) : t.Belongs inode parent := by
  have hissued := hbelongs.issued
  refine ⟨?_, fun hp => ?_⟩
  · have hnext := u.next_le h.coherent
    have hle := (u.coherent h.coherent).next_le
    omega
  · rcases u.tracked_cases h hheeds hp with hbefore | ⟨hnew, -, -⟩
    · exact u.liesIn h.coherent hheeds hbefore (hbelongs.liesIn hbefore)
    · omega

end Updates

/-- A lookup that finds another node than the directory itself finds it in the directory. -/
theorem lookup_belongs {m : Mount} (h : m.inodes.Nested) {source : σ} {parent : Nat}
    {name : Bytes} {found : NodeAttributes} (hname : Path.slash ∉ name)
    (hok : (m.lookup source parent name).1 = .ok found) (hne : found.inode ≠ parent)
    (hlt : found.inode < Inodes.maxNumber) :
    (m.serve source (.lookup parent name)).2.1.inodes.Belongs found.inode parent := by
  obtain ⟨path, hpath, hinode, htable⟩ := lookup_ok hok
  rw [serve_lookup_mount, htable]
  have hcoherent := h.coherent.lookup (path.join name) found.stat.kind
  have hfound := Inodes.numberOf?_lookup h.coherent (path.join name) found.stat.kind
  rw [← hinode] at hfound
  have hother : m.inodes.numberOf? (path.join name) ≠ some parent := by
    intro hknown
    rw [hinode, Inodes.lookup_eq, Inodes.track_known hknown] at hne
    exact hne rfl
  refine ⟨hcoherent.issued hfound, fun hp => ?_⟩
  -- What is tracked under the number is the place that was looked up, in some spelling.
  obtain ⟨known, hknown, hspelling⟩ := hcoherent.path_of_number hfound hlt
  obtain rfl := Option.some.inj (hknown.symm.trans hp)
  exact ((h.liesIn_join hpath hname hother).lookup h.coherent _ _).congr hspelling

/-! ## Orderly runs -/

theorem serveAll_nested {m : Mount} (h : m.inodes.Nested) {requests : List (σ × Request)}
    (horderly : m.Orderly requests) : (m.serveAll requests).inodes.Nested := by
  induction requests generalizing m with
  | nil => exact h
  | cons r rest ih =>
    have hupdates := serve_updates h.coherent.next_le r.1 r.2
    exact ih (hupdates.nested h horderly.1) horderly.2

theorem serveAll_belongs {m : Mount} (h : m.inodes.Nested) {requests : List (σ × Request)}
    (horderly : m.Orderly requests) {inode parent : Nat} (hlt : inode < Inodes.maxNumber)
    (hbelongs : m.inodes.Belongs inode parent) :
    (m.serveAll requests).inodes.Belongs inode parent := by
  induction requests generalizing m with
  | nil => exact hbelongs
  | cons r rest ih =>
    have hupdates := serve_updates h.coherent.next_le r.1 r.2
    exact ih (hupdates.nested h horderly.1) horderly.2 (hupdates.belongs h horderly.1 hlt hbelongs)

/-- The mount takes the one number for that of the directory around the other, in itself and
in the second line of listings. -/
structure ShowsParent (σ : Type) [QuerySource σ] (m : Mount) (inode parent : Nat) : Prop where
  parent_eq : m.inodes.parentOf inode = parent
  listed : ∀ (source : σ) lines, (m.listing source inode).1 = .ok lines →
    lines[1]? = some ⟨parent, .directory, ".."⟩

theorem showsParent_of_eq {m : Mount} {inode parent : Nat}
    (h : m.inodes.parentOf inode = parent) : m.ShowsParent σ inode parent := by
  refine ⟨h, fun source lines hlines => ?_⟩
  rcases m.listing_shape source inode 0 0 with ⟨⟨e, herror⟩, -, -⟩ | ⟨path, entries, -, hok, -, -⟩
  · rw [herror] at hlines
    cases hlines
  · rw [hok] at hlines
    cases hlines
    rw [← h]
    rfl

/-- In every orderly run the directory around every tracked node is tracked, and a node that
was found in a directory shows this directory as its own as long as it is tracked. The last
number is left out in both; while numbers are left, neither directory nor node has it. -/
theorem directories_tracked (policy : FailurePolicy) (owner : Owner)
    (requests : List (σ × Request)) :
    let start : Mount := { policy, owner }
    let now := start.serveAll requests
    start.Orderly requests →
    (∀ i p, now.inodes.pathOf? i = some p → i ≠ Inodes.rootNumber →
      ∃ d j, Path.enclosing? p.components = some d.components ∧
        now.inodes.numberOf? d = some j ∧
        (j < Inodes.maxNumber → ∃ e, now.inodes.get? j = some e ∧ e.path.Same d)) ∧
    (∀ before source parent name found after,
      requests = before ++ (source, .lookup parent name) :: after →
      ((start.serveAll before).lookup source parent name).1 = .ok found →
      found.inode ≠ parent → found.inode < Inodes.maxNumber →
      (∃ e, now.inodes.get? found.inode = some e) →
      now.ShowsParent σ found.inode parent) ∧
    now.ShowsParent σ Inodes.rootNumber Inodes.rootNumber ∧
    (now.inodes.next < Inodes.maxNumber →
      (∀ d j, now.inodes.numberOf? d = some j → j < Inodes.maxNumber) ∧
      ∀ i e, now.inodes.get? i = some e → i < Inodes.maxNumber) := by
  intro start now horderly
  have h : now.inodes.Nested := serveAll_nested Inodes.initial_nested horderly
  refine ⟨?_, ?_, showsParent_of_eq h.coherent.parentOf_root, fun hleft =>
    ⟨fun d j hj => h.coherent.number_lt_last hleft hj,
      fun i e he => h.coherent.tracked_lt_last hleft he⟩⟩
  · intro i p hp hi
    obtain ⟨j, d, hd, hnumber⟩ := h.enclosed hp hi
    refine ⟨d, j, hd, hnumber, fun hlt => ?_⟩
    obtain ⟨q, hq, hsame⟩ := h.coherent.path_of_number hnumber hlt
    obtain ⟨e, he, rfl⟩ := Inodes.pathOf?_eq_some_iff.1 hq
    exact ⟨e, he, hsame⟩
  · rintro before source parent name found after rfl hok hne hlt ⟨e, he⟩
    obtain ⟨hbefore, hheeds, hafter⟩ := orderly_append.1 horderly
    have hthen := serveAll_nested Inodes.initial_nested hbefore
    have hupdates := serve_updates hthen.coherent.next_le source (.lookup parent name)
    have hbelongs := serveAll_belongs (hupdates.nested hthen hheeds) hafter hlt
      (lookup_belongs hthen hheeds hok hne hlt)
    have hnow : now = ((start.serveAll before).serve source (.lookup parent name)).2.1.serveAll
        after := serveAll_append start before _
    rw [← hnow] at hbelongs
    have hpath := Inodes.pathOf?_eq_some_iff.2 ⟨e, he, rfl⟩
    exact showsParent_of_eq (Inodes.parentOf_of_liesIn hpath (hbelongs.liesIn hpath))

/-- A record directory whose file was forgotten, after lookups that stay in place or fail. -/
theorem directories_tracked_around_record :
    let source : String → Except QueryFault (List Event) :=
      fun _ => .ok [{ host := "a", service := "b", state := "ok" }]
    let failing : String → Except QueryFault (List Event) := fun _ => .error .timeout
    let before := [(source, .lookup 1 (Text.encode "a"))]
    let after := [(source, .lookup 3 (Text.encode "State")), (failing, .lookup 3 []),
      (failing, .lookup 3 (Text.encode "..")), (source, .readDirectory 3 0 4096),
      (source, .forget 4 1), (source, .forget 3 1)]
    let start : Mount := {}
    let requests := before ++ (source, .lookup 2 (Text.encode "b")) :: after
    let now := start.serveAll requests
    start.Orderly requests ∧ now.inodes.get? 4 = none ∧
    (∃ d j e, Path.enclosing? (Path.ofString "/a/b").components = some d.components ∧
      now.inodes.get? j = some e ∧ e.path.Same d) ∧
    now.inodes.parentOf 3 = 2 ∧
    ∃ lines, (now.listing source 3).1 = .ok lines ∧ lines[1]? = some ⟨2, .directory, ".."⟩ := by
  intro source failing before after start requests now
  have horderly : start.Orderly requests := by decide +kernel
  have hgone : now.inodes.get? 4 = none := by decide +kernel
  have hrecord : now.inodes.get? 3 = some ⟨.ofString "/a/b", .directory, 1⟩ := by decide +kernel
  have hlisted : (now.listing source 3).1.toOption.isSome = true := by decide +kernel
  have hfound : ((start.serveAll before).lookup source 2 (Text.encode "b")).1 =
      .ok ⟨3, .directory, {}⟩ := eq_ok_of_toOption (by decide +kernel)
  obtain ⟨hclosed, hparent, -, hleft⟩ := directories_tracked .lenient {} requests horderly
  have hshows := hparent before source 2 _ _ after rfl hfound (by decide) (by decide) ⟨_, hrecord⟩
  obtain ⟨d, j, hd, hj, hentry⟩ := hclosed 3 _ (Inodes.pathOf?_eq_some_iff.2 ⟨_, hrecord, rfl⟩)
    (by decide)
  obtain ⟨e, he⟩ := hentry ((hleft (by decide +kernel)).1 d j hj)
  obtain ⟨lines, hlines⟩ := Option.isSome_iff_exists.1 hlisted
  have hok := eq_ok_of_toOption hlines
  exact ⟨horderly, hgone, ⟨d, j, e, hd, he⟩, hshows.parent_eq, lines, hok,
    hshows.listed source lines hok⟩

/-- The last number, found for a directory in the root and then issued again for one in that
directory: it is shown as the directory around itself, and the first one has no entry. -/
theorem last_number_shown_around_itself :
    let source : String → Except QueryFault (List Event) :=
      fun _ => .ok [{ host := "a", service := "b", state := "ok" }]
    let last := Inodes.maxNumber
    let start : Mount := {}
    let listings := List.replicate (2 ^ 63) (source, .readDirectory 1 0 4096)
    let requests := listings ++ [(source, .lookup 1 (Text.encode "a")),
      (source, .lookup last (Text.encode "b"))]
    let now := start.serveAll requests
    start.Orderly requests ∧
      ((start.serveAll listings).lookup source 1 (Text.encode "a")).1 =
        .ok ⟨last, .directory, {}⟩ ∧
      now.inodes.get? last = some ⟨.ofString "/a/b", .directory, 1⟩ ∧
      now.inodes.parentOf last = last ∧ ¬now.inodes.Tracks (.ofString "/a") := by
  intro source last start listings requests now
  have hlistings : start.serveAll listings = start.exhausted :=
    serveAll_listings_exhausted source 1 0 4096 (by decide) (by decide +kernel)
  have hnow : now = start.exhausted.serveAll [(source, .lookup 1 (Text.encode "a")),
      (source, .lookup last (Text.encode "b"))] := by
    rw [← hlistings, ← serveAll_append]
  refine ⟨orderly_append.2 ⟨start.orderly_listings source 1 0 4096 _, ?_⟩, ?_, ?_⟩
  · rw [hlistings]
    decide +kernel
  · rw [hlistings]
    exact eq_ok_of_toOption (by decide +kernel)
  · rw [hnow]
    decide +kernel

/-- A directory that is forgotten before what lies in it, which then shows the root instead. -/
example :
    let source : String → Except QueryFault (List Event) := fun _ => .ok []
    let requests := [(source, .lookup 1 (Text.encode "a")), (source, .lookup 2 (Text.encode "b")),
      (source, .forget 2 1)]
    ¬({} : Mount).Orderly requests ∧ (({} : Mount).serveAll requests).inodes.parentOf 3 = 1 := by
  decide +kernel

end Mount
end EventTree
