import EventTree.Proofs.Index.Prepared
import EventTree.Proofs.Tree.Inquiry
import EventTree.Proofs.Tree.ValueListings

/-!
# The tree over the index of a list of events

What the plain branch of the tree shows is compared with the events themselves: the
names of a directory with the hosts or services that occur, a record and its files
with the events of one host and one service. The comparison does not mention filters.
It is for any events, with values repeated, empty, or written like a clause of a
filter, and for any path, whether its names occur in an event or not. The index may
have been asked before; only the branch of filters is not looked at here.
-/
namespace EventTree

/-! ## Questions to an index that answers -/

namespace ScriptedIndex

theorem Serving.run_ask {index : ScriptedIndex} (h : index.Serving) (policy : FailurePolicy)
    (filter : String) (use : List Event → Except TreeFault α) :
    ((Inquiry.ask filter use).run policy index).1 = use (index.answer filter) := by
  have hask : QuerySource.query index filter = _ := h.ask filter
  rw [Inquiry.run_ask, hask]
  rfl

/-- What the index holds does not depend on what it was asked. -/
theorem answer_asked (s : ScriptedIndex) (asked : List String) :
    ({ s with asked } : ScriptedIndex).answer = s.answer := rfl

end ScriptedIndex

open ScriptedIndex in
/-- The plain tree over the index of a list of events shows what the events say. -/
theorem plain_tree_shows_events (events : List Event) (asked : List String)
    (policy : FailurePolicy) (path : Path) :
    let index : ScriptedIndex := { ofEvents events with asked }
    (path.node = .ok .root → ∃ listed,
      ((TreeView.entries path).run policy index).1 = .ok listed ∧
      Entry.DirectoriesOf (fun name => name = ".query" ∨
        (name ≠ "" ∧ '/' ∉ name.toList ∧ ∃ e ∈ events, e.host = name)) listed) ∧
    (∀ host, path.node = .ok (.services none host) → ∃ listed,
      ((TreeView.entries path).run policy index).1 = .ok listed ∧
      Entry.DirectoriesOf (fun name => name ≠ "" ∧ '/' ∉ name.toList ∧
        ∃ e ∈ events, e.host = host ∧ e.service = name) listed) ∧
    (∀ host service, path.node = .ok (.record ⟨none, host, service⟩) →
      ((TreeView.entries path).run policy index).1 =
        match events.filter fun e => e.host = host ∧ e.service = service with
        | [] => .ok []
        | [e] => .ok (Entry.ofEvent e)
        | several =>
          .error (.ambiguous (Filter.ofSelector ⟨none, host, service⟩) several.length)) ∧
    (∀ host service name mode, path.node = .ok (.field ⟨none, host, service⟩ name) →
      mode.wantsWriting = false →
      ((TreeView.content path mode).run policy index).1 =
        match events.filter fun e => e.host = host ∧ e.service = service with
        | [] => .error (.notFound path)
        | [e] =>
          match e.fileBytes? name with
          | some bytes => .ok bytes
          | none => .error (.fieldNotFound name)
        | several =>
          .error (.ambiguous (Filter.ofSelector ⟨none, host, service⟩) several.length)) := by
  intro index
  have hserving : index.Serving := ⟨(ofEvents_serving events).1, (ofEvents_serving events).2⟩
  have hplain : none ∈ preparedFilters := List.mem_cons_self
  refine ⟨fun hnode => ?_, fun host hnode => ?_, fun host service hnode => ?_,
    fun host service name mode hnode hmode => ?_⟩
  · refine ⟨Entry.ofRoot events, ?_, Entry.directoriesOf_ofRoot events⟩
    have hentries : TreeView.entries path =
        .ask Filter.everything (TreeView.entriesOf Filter.everything .root) := by
      simp [TreeView.entries, hnode, Filter.ofNode?]
    rw [hentries, hserving.run_ask, answer_asked, ofEvents_answer_everything]
    rfl
  · refine ⟨Entry.ofValues (·.service) (ofHostEvents events host), ?_, ?_⟩
    · have hentries : TreeView.entries path = .ask (Filter.ofHost none host)
          (TreeView.entriesOf (Filter.ofHost none host) (.services none host)) := by
        simp [TreeView.entries, hnode, Filter.ofNode?]
      rw [hentries, hserving.run_ask, answer_asked, ofEvents_answer_ofHost events hplain]
      rfl
    · have hdirs := Entry.directoriesOf_ofValues (·.service) (ofHostEvents events host)
      simpa [ofHostEvents, and_assoc] using hdirs
  · have hentries : TreeView.entries path = .ask (Filter.ofSelector ⟨none, host, service⟩)
        (TreeView.entriesOf (Filter.ofSelector ⟨none, host, service⟩)
          (.record ⟨none, host, service⟩)) := by
      simp [TreeView.entries, hnode, Filter.ofNode?]
    rw [hentries, hserving.run_ask, answer_asked, ofEvents_answer_ofSelector events hplain]
    change TreeView.entriesOf _ _ (matching events host service) =
      match matching events host service with | [] => _ | [e] => _ | several => _
    rcases matching events host service with _ | ⟨e, _ | ⟨e', rest⟩⟩ <;> rfl
  · have hcontent : TreeView.content path mode =
        (TreeView.askField path ⟨none, host, service⟩ name).map (·.2) := by
      simp [TreeView.content, hnode, hmode]
    rw [hcontent, Inquiry.run_map, TreeView.askField, hserving.run_ask, answer_asked,
      ofEvents_answer_ofSelector events hplain]
    change (TreeView.fieldContent path _ name (matching events host service)).map (·.2) =
      match matching events host service with | [] => _ | [e] => _ | several => _
    rcases matching events host service with _ | ⟨e, _ | ⟨e', rest⟩⟩
    · rfl
    · cases hbytes : e.fileBytes? name <;>
        simp [TreeView.fieldContent, singleEvent, hbytes, Except.map]
    · rfl

/-- Two events of one host and service are a fault, and a host that is written like
the clauses of their filter is no third. -/
theorem plain_tree_shows_doubled_record :
    let events : List Event := [{ host := "a\" and service = \"b" },
      { host := "a", service := "b" }, { host := "a", service := "b", state := "ok" }]
    let record := Path.ofString "/a/b"
    let file := Path.ofString "/a/b/State"
    record.node = .ok (.record ⟨none, "a", "b"⟩) ∧
    file.node = .ok (.field ⟨none, "a", "b"⟩ "State") ∧
    OpenMode.reading.wantsWriting = false ∧
    ((TreeView.entries record).run .strict (ScriptedIndex.ofEvents events)).1 =
      .error (.ambiguous "host = \"a\" and service = \"b\"" 2) ∧
    ((TreeView.content file .reading).run .strict (ScriptedIndex.ofEvents events)).1 =
      .error (.ambiguous "host = \"a\" and service = \"b\"" 2) := by
  intro events record file
  have hrecord : record.node = .ok (.record ⟨none, "a", "b"⟩) :=
    eq_ok_of_toOption (by decide +kernel)
  have hfile : file.node = .ok (.field ⟨none, "a", "b"⟩ "State") :=
    eq_ok_of_toOption (by decide +kernel)
  have hlisted := (plain_tree_shows_events events [] .strict record).2.2.1 "a" "b" hrecord
  have hopened := (plain_tree_shows_events events [] .strict file).2.2.2 "a" "b" "State"
    .reading hfile rfl
  exact ⟨hrecord, hfile, rfl, hlisted.trans (by rfl), hopened.trans (by rfl)⟩

end EventTree
