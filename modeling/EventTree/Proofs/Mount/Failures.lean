import EventTree.Proofs.Mount.DistinctNodes

/-!
# Requests that fail change nothing

A request can fail at several points: its number may not be tracked, its path may lead to no
node, the index may fail or give no event or too many, the flags may be refused, the handle
may not be open. Whichever it is, tables and counters are as they were, so a run comes to the
same as its requests that succeed.

Attributes are put down again by each request for them. They are those of the node that the
number stands for already, so this is no change either. Only under the last of all numbers the
kind may be that of a node that had the number before. It is then set right: see
`attributes_set_kind_of_last_number`.
-/
namespace EventTree.Mount
variable {σ : Type} [QuerySource σ]

/-! ## Failures -/

section
variable {m : Mount} {source : σ} {e : ErrorNumber}

theorem statAt_failed {path : Path} {number : Inodes → Path → NodeKind → Nat × Inodes}
    (h : (m.statAt source path number).1 = .error e) :
    (m.statAt source path number).2.1 = m := by
  rcases hask : m.inquire source (TreeView.stat path) with ⟨reason | found, next⟩
  · rw [statAt_error hask]
  · rw [statAt_ok hask] at h
    cases h

theorem lookup_failed {parent : Nat} {name : Bytes}
    (h : (m.lookup source parent name).1 = .error e) :
    (m.lookup source parent name).2.1 = m := by
  cases hpath : m.inodes.pathOf? parent with
  | none => simp only [lookup, hpath]
  | some path =>
    rw [lookup_eq hpath] at h ⊢
    exact statAt_failed h

theorem attributes_failed {inode : Nat} (h : (m.attributes source inode).1 = .error e) :
    (m.attributes source inode).2.1 = m := by
  cases hpath : m.inodes.pathOf? inode with
  | none => simp only [attributes, hpath]
  | some path =>
    rw [attributes_eq hpath] at h ⊢
    exact statAt_failed h

theorem listing_failed {inode : Nat} (h : (m.listing source inode).1 = .error e) :
    (m.listing source inode).2.1 = m := by
  cases hpath : m.inodes.pathOf? inode with
  | none => simp only [listing, hpath]
  | some path =>
    rcases hask : m.inquire source (TreeView.entries path) with ⟨reason | entries, next⟩
    · rw [listing_error hpath hask]
    · rw [listing_ok hpath hask] at h
      cases h

theorem openFile_failed {inode : Nat} {flags : Int32}
    (h : (m.openFile source inode flags).1 = .error e) :
    (m.openFile source inode flags).2.1 = m := by
  rcases m.openFile_cases source inode flags with ⟨reason, -, hmount⟩ |
    ⟨path, content, -, -, hopened, -⟩
  · exact hmount
  · rw [hopened] at h
    cases h

theorem serve_failed {request : Request} (h : (m.serve source request).1 = .failed e) :
    (m.serve source request).2.1 = m := by
  cases request with
  | lookup parent name =>
    rw [serve_lookup_mount]
    simp only [serve] at h
    split at h
    · next heq => exact lookup_failed (congrArg Prod.fst heq)
    · cases h
  | attributes inode =>
    rw [serve_attributes_mount]
    simp only [serve] at h
    split at h
    · next heq => exact attributes_failed (congrArg Prod.fst heq)
    · cases h
  | openFile inode flags =>
    rw [serve_openFile_mount]
    simp only [serve] at h
    split at h
    · next heq => exact openFile_failed (congrArg Prod.fst heq)
    · cases h
  | read handle offset size => exact serve_read_mount ..
  | readDirectory inode offset room =>
    rw [serve_readDirectory_mount]
    simp only [serve] at h
    split at h
    · next heq => exact listing_failed (congrArg Prod.fst heq)
    · cases h
  | unserved => rfl
  | _ => cases h

end

/-- Those of the requests that are not answered with a failure. -/
def succeeding (m : Mount) : List (σ × Request) → List (σ × Request)
  | [] => []
  | (source, request) :: rest =>
    match (m.serve source request).1 with
    | .failed _ => m.succeeding rest
    | _ => (source, request) :: (m.serve source request).2.1.succeeding rest

theorem serveAll_succeeding (m : Mount) (requests : List (σ × Request)) :
    m.serveAll (m.succeeding requests) = m.serveAll requests := by
  induction requests generalizing m with
  | nil => rfl
  | cons r rest ih =>
    obtain ⟨source, request⟩ := r
    unfold succeeding
    split
    · next e he =>
      rw [serveAll_cons, serve_failed he]
      exact ih m
    · exact ih _

/-! ## Attributes -/

/-- What is put down of a node is its kind. -/
theorem attributes_ok {m : Mount} (h : m.inodes.Coherent) {source : σ} {inode : Nat}
    {found : NodeAttributes} (hfound : (m.attributes source inode).1 = .ok found) :
    ∃ path node, m.inodes.pathOf? inode = some path ∧ path.node = .ok node ∧
      (m.attributes source inode).2.1 =
        { m with inodes := m.inodes.modify inode fun e => { e with kind := node.kind } } := by
  cases hpath : m.inodes.pathOf? inode with
  | none =>
    simp only [attributes, hpath] at hfound
    cases hfound
  | some path =>
    rw [attributes_eq hpath] at hfound ⊢
    rcases hask : m.inquire source (TreeView.stat path) with ⟨reason | stat, next⟩
    · rw [statAt_error hask] at hfound
      cases hfound
    · obtain ⟨node, hnode, hkind⟩ := inquire_stat_ok hask
      refine ⟨path, node, rfl, hnode, ?_⟩
      rw [statAt_ok hask, Inodes.track_known (h.number_of_path hpath), hkind]

section
variable {m : Mount} {source : σ} {inode : Nat} {found : NodeAttributes}

/-- A path and its references are not touched. -/
theorem get?_attributes_unkinded (h : m.inodes.Coherent)
    (hfound : (m.attributes source inode).1 = .ok found) (i : Nat) :
    ((m.attributes source inode).2.1.inodes.get? i).map (fun e => (e.path, e.lookups)) =
      (m.inodes.get? i).map fun e => (e.path, e.lookups) := by
  obtain ⟨path, node, -, -, hmount⟩ := attributes_ok h hfound
  rw [hmount, Inodes.get?_modify]
  split
  · next heq =>
    rw [heq, Option.map_map]
    rfl
  · rfl

theorem size_attributes (h : m.inodes.Coherent)
    (hfound : (m.attributes source inode).1 = .ok found) :
    (m.attributes source inode).2.1.inodes.size = m.inodes.size := by
  rw [← Inodes.card_tracked, ← Inodes.card_tracked]
  congr 1
  ext i
  have hsame := congrArg Option.isSome (get?_attributes_unkinded h hfound i)
  rw [Option.isSome_map, Option.isSome_map] at hsame
  rw [Inodes.mem_tracked, Inodes.mem_tracked, ← Option.isSome_iff_exists, hsame,
    Option.isSome_iff_exists]

/-- Below the last number the kind was that of the node before. -/
theorem get?_attributes (h : m.inodes.Denoting)
    (hfound : (m.attributes source inode).1 = .ok found) {i : Nat} (hi : i < Inodes.maxNumber) :
    (m.attributes source inode).2.1.inodes.get? i = m.inodes.get? i := by
  obtain ⟨path, node, hpath, hnode, hmount⟩ := attributes_ok h.coherent hfound
  rw [hmount, Inodes.get?_modify]
  split
  · next heq =>
    subst heq
    obtain ⟨e, he, rfl⟩ := Inodes.pathOf?_eq_some_iff.1 hpath
    obtain ⟨known, hknown, hkind⟩ := (h.denotes he).node
    rw [hnode] at hknown
    cases hknown
    rw [he, Option.map_some, ← hkind hi]
  · rfl

/-- While numbers are left, no entry has the last one. -/
theorem get?_attributes_of_left (h : m.inodes.Denoting)
    (hfound : (m.attributes source inode).1 = .ok found) (hleft : m.inodes.next < Inodes.maxNumber)
    (i : Nat) : (m.attributes source inode).2.1.inodes.get? i = m.inodes.get? i := by
  by_cases hi : i < Inodes.maxNumber
  · exact get?_attributes h hfound hi
  · have hnone : m.inodes.get? i = none := by
      rw [Option.eq_none_iff_forall_ne_some]
      exact fun e he => hi (h.coherent.tracked_lt_last hleft he)
    have hmapped := get?_attributes_unkinded h.coherent hfound i
    rw [hnone, Option.map_none, Option.map_eq_none_iff] at hmapped
    rw [hmapped, hnone]

end

/-- A request that fails leaves the mount as it was, whatever failed, and can be left out of a
run. A request for attributes leaves it as it was when it succeeds, too: the numbers and places
that are tracked with all that is put down under them, the numbers to issue next, and the open
files. Once no numbers are left, this does not go for the kind under the last one. -/
theorem failures_change_nothing (policy : FailurePolicy) (owner : Owner)
    (requests : List (σ × Request)) (source : σ) :
    let m := ({ policy, owner } : Mount).serveAll requests
    (∀ parent name e, (m.lookup source parent name).1 = .error e →
      (m.lookup source parent name).2.1 = m) ∧
    (∀ inode e, (m.attributes source inode).1 = .error e →
      (m.attributes source inode).2.1 = m) ∧
    (∀ inode e, (m.listing source inode).1 = .error e → (m.listing source inode).2.1 = m) ∧
    (∀ inode flags e, (m.openFile source inode flags).1 = .error e →
      (m.openFile source inode flags).2.1 = m) ∧
    (∀ request e, (m.serve source request).1 = .failed e → (m.serve source request).2.1 = m) ∧
    (∀ others : List (σ × Request), m.serveAll (m.succeeding others) = m.serveAll others) ∧
    ∀ inode found, (m.attributes source inode).1 = .ok found →
      let now := (m.attributes source inode).2.1
      now = { m with inodes := now.inodes } ∧
      now.inodes.numbers = m.inodes.numbers ∧ now.inodes.next = m.inodes.next ∧
      now.inodes.size = m.inodes.size ∧
      (m.inodes.next < Inodes.maxNumber → ∀ i, now.inodes.get? i = m.inodes.get? i) ∧
      (∀ i, i < Inodes.maxNumber → now.inodes.get? i = m.inodes.get? i) ∧
      (∀ i, (now.inodes.get? i).map (fun e => (e.path, e.lookups)) =
        (m.inodes.get? i).map fun e => (e.path, e.lookups)) := by
  intro m
  have h : m.inodes.Denoting := serveAll_denoting Inodes.initial_denoting requests
  refine ⟨fun _ _ _ => lookup_failed, fun _ _ => attributes_failed, fun _ _ => listing_failed,
    fun _ _ _ => openFile_failed, fun _ _ => serve_failed, m.serveAll_succeeding, ?_⟩
  intro inode found hfound now
  obtain ⟨path, node, -, -, hmount⟩ := attributes_ok h.coherent hfound
  refine ⟨?_, ?_, ?_, size_attributes h.coherent hfound, get?_attributes_of_left h hfound,
    fun i => get?_attributes h hfound, get?_attributes_unkinded h.coherent hfound⟩
  · simp only [now, hmount]
  · simp only [now, hmount, Inodes.modify_numbers]
  · simp only [now, hmount, Inodes.modify_next]

/-- A file that is open and looked at again, after requests that fail in different ways. -/
theorem failures_change_nothing_around_open_file :
    let source : String → Except QueryFault (List Event) :=
      fun _ => .ok [{ host := "a", service := "b", state := "ok" }]
    let failing : String → Except QueryFault (List Event) := fun _ => .error .timeout
    let requests := [(source, .lookup 1 (Text.encode "a")), (source, .lookup 2 (Text.encode "b")),
      (source, .lookup 3 (Text.encode "State")), (source, .openFile 4 0),
      (source, .readDirectory 1 0 4096)]
    let m := ({ policy := .strict } : Mount).serveAll requests
    (m.lookup source 3 (Text.encode "Bogus")).1 = .error .noEntry ∧
    (m.lookup source 3 (Text.encode "Bogus")).2.1 = m ∧
    (m.attributes failing 4).1 = .error .inputOutput ∧ (m.attributes failing 4).2.1 = m ∧
    (m.listing source 4).1 = .error .notADirectory ∧ (m.listing source 4).2.1 = m ∧
    (m.openFile source 4 1).1 = .error .notPermitted ∧ (m.openFile source 4 1).2.1 = m ∧
    (m.serve source (.read 1 (-1) 9)).1 = .failed .invalidArgument ∧
    (m.serve source (.read 1 (-1) 9)).2.1 = m ∧
    m.inodes.get? 4 = some ⟨.ofString "/a/b/State", .file, 1⟩ ∧
    (m.attributes source 4).2.1.inodes.get? 4 = some ⟨.ofString "/a/b/State", .file, 1⟩ := by
  intro source failing requests m
  have hlookup : (m.lookup source 3 (Text.encode "Bogus")).1 = .error .noEntry := by
    decide +kernel
  have hattributes : (m.attributes failing 4).1 = .error .inputOutput := by decide +kernel
  have hlisting : (m.listing source 4).1 = .error .notADirectory := by decide +kernel
  have hopen : (m.openFile source 4 1).1 = .error .notPermitted := by decide +kernel
  have hread : (m.serve source (.read 1 (-1) 9)).1 = .failed .invalidArgument := by decide +kernel
  have hfound : (m.attributes source 4).1 = .ok ⟨4, .file 2 0, {}⟩ := by decide +kernel
  have hfile : m.inodes.get? 4 = some ⟨.ofString "/a/b/State", .file, 1⟩ := by decide +kernel
  have hleft : m.inodes.next < Inodes.maxNumber := by decide +kernel
  have hrun : m = ({ policy := .strict } : Mount).serveAll requests := rfl
  have hsource := failures_change_nothing .strict {} requests source
  have hother := failures_change_nothing .strict {} requests failing
  rw [← hrun] at hsource hother
  -- All that had to be computed is; the mount itself is not looked into again.
  clear_value m
  obtain ⟨hlookups, -, hlistings, hopens, hserves, -, hkept⟩ := hsource
  obtain ⟨-, hfailing, -⟩ := hother
  obtain ⟨-, -, -, -, hsame, -⟩ := hkept 4 _ hfound
  exact ⟨hlookup, hlookups _ _ _ hlookup, hattributes, hfailing _ _ hattributes, hlisting,
    hlistings _ _ hlisting, hopen, hopens _ _ _ hopen, hread, hserves _ _ hread, hfile,
    (hsame hleft 4).trans hfile⟩

/-- The last number, found for a directory, for one below it and for a file in that, and the
directory looked up again: the kind put down for the file is a directory's until its attributes
are asked for. -/
theorem attributes_set_kind_of_last_number :
    let source : String → Except QueryFault (List Event) :=
      fun _ => .ok [{ host := "a", service := "b", state := "ok" }]
    let last := Inodes.maxNumber
    let listings := List.replicate (2 ^ 63) (source, .readDirectory 1 0 4096)
    let m := ({} : Mount).serveAll (listings ++ [(source, .lookup 1 (Text.encode "a")),
      (source, .lookup last (Text.encode "b")), (source, .lookup last (Text.encode "State")),
      (source, .lookup 1 (Text.encode "a"))])
    (m.attributes source last).1 = .ok ⟨last, .file 2 0, {}⟩ ∧
      m.inodes.get? last = some ⟨.ofString "/a/b/State", .directory, 2⟩ ∧
      (m.attributes source last).2.1.inodes.get? last =
        some ⟨.ofString "/a/b/State", .file, 2⟩ := by
  intro source last listings m
  have hlistings : ({} : Mount).serveAll listings = exhausted {} :=
    serveAll_listings_exhausted source 1 0 4096 (by decide) (by decide +kernel)
  simp only [m, serveAll_append, hlistings]
  decide +kernel

end EventTree.Mount
