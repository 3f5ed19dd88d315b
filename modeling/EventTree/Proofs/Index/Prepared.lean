import EventTree.Index.Scripted
import EventTree.Proofs.Tree.Clauses
import EventTree.Proofs.Tree.Names

/-!
# What the index of a list of events answers

The index of a list of events is filled by writing one prepared answer after another
under filter texts. No two of the texts that belong to different nodes are equal, so
no answer is lost to another node's, and the answer to the filter of a host or of a
host and a service is the events with these values, in their order. This holds of
every host and service: where no event has them nothing is prepared, and nothing is
the right answer.
-/
namespace EventTree.ScriptedIndex

/-! ## Single answers -/

/-- The events under a filter. -/
def answer (s : ScriptedIndex) (filter : String) : List Event := (s.answers.get? filter).getD []

theorem answer_respond (s : ScriptedIndex) (f filter : String) (events : List Event) :
    (s.respond f events).answer filter = if filter = f then events else s.answer filter := by
  unfold answer respond
  rw [Keyed.get?_insert]
  split <;> rfl

/-- An index whose queries succeed. -/
structure Serving (s : ScriptedIndex) : Prop where
  failing : s.failing = false
  override : s.override = none

theorem Serving.ask {s : ScriptedIndex} (h : s.Serving) (filter : String) :
    s.ask filter = (.ok (s.answer filter), { s with asked := s.asked ++ [filter] }) := by
  simp [ScriptedIndex.ask, h.failing, h.override, answer]

/-! ## Answers written one after another -/

def respondAll (s : ScriptedIndex) (prepared : List (String × List Event)) : ScriptedIndex :=
  prepared.foldl (fun s p => s.respond p.1 p.2) s

/-- Where the answers under one text agree, their order does not matter. -/
theorem answer_respondAll {prepared : List (String × List Event)} {filter : String}
    {events : List Event} (s : ScriptedIndex)
    (hsame : ∀ p ∈ prepared, p.1 = filter → p.2 = events)
    (hnone : (∀ p ∈ prepared, p.1 ≠ filter) → s.answer filter = events) :
    (s.respondAll prepared).answer filter = events := by
  induction prepared generalizing s with
  | nil => exact hnone (by simp)
  | cons p rest ih =>
    refine ih (s.respond p.1 p.2) (fun q hq => hsame q (List.mem_cons_of_mem _ hq)) ?_
    intro hrest
    rw [answer_respond]
    split
    · next heq => exact hsame p List.mem_cons_self heq.symm
    · next hne =>
      refine hnone fun q hq => ?_
      rcases List.mem_cons.1 hq with rfl | hq
      · exact fun h => hne h.symm
      · exact hrest q hq

theorem Serving.respondAll {s : ScriptedIndex} (h : s.Serving)
    (prepared : List (String × List Event)) : (s.respondAll prepared).Serving := by
  induction prepared generalizing s with
  | nil => exact h
  | cons p rest ih => exact ih (s := s.respond p.1 p.2) ⟨h.failing, h.override⟩

/-! ## The answers of a list of events -/

section
variable (events : List Event)

def ofHostEvents (host : String) : List Event := events.filter (·.host = host)

/-- The events of a host and a service. -/
def matching (host service : String) : List Event :=
  events.filter fun e => e.host = host ∧ e.service = service

theorem filter_ofHostEvents (host service : String) :
    (ofHostEvents events host).filter (·.service = service) = matching events host service := by
  rw [ofHostEvents, List.filter_filter]
  simp [matching, Bool.and_comm]

def preparedService (host service : String) : List (String × List Event) :=
  preparedFilters.map fun f => (Filter.ofSelector ⟨f, host, service⟩, matching events host service)

def preparedHost (host : String) : List (String × List Event) :=
  preparedFilters.map (fun f => (Filter.ofHost f host, ofHostEvents events host)) ++
    (distinctNames ((ofHostEvents events host).map (·.service))).flatMap
      (preparedService events host)

/-- All answers in the order in which they are written. -/
def preparedAnswers : List (String × List Event) :=
  (Filter.everything, events) ::
    (distinctNames (events.map (·.host))).flatMap (preparedHost events)

theorem respondHost_eq (s : ScriptedIndex) (host : String) :
    respondHost events s host = s.respondAll (preparedHost events host) := by
  unfold respondHost respondAll preparedHost
  rw [List.foldl_append, List.foldl_map, List.foldl_flatMap]
  simp only [preparedService, List.foldl_map, ← filter_ofHostEvents]
  rfl

theorem ofEvents_eq : ofEvents events = respondAll {} (preparedAnswers events) := by
  have hstep : respondHost events = fun s host => s.respondAll (preparedHost events host) := by
    funext s host
    exact respondHost_eq events s host
  rw [ofEvents, hstep, respondAll, preparedAnswers, List.foldl_cons, List.foldl_flatMap]
  rfl

theorem mem_preparedHost {host : String} {p : String × List Event}
    (h : p ∈ preparedHost events host) : ∃ f ∈ preparedFilters,
      p = (Filter.ofHost f host, ofHostEvents events host) ∨
        ∃ service, p = (Filter.ofSelector ⟨f, host, service⟩, matching events host service) := by
  rcases List.mem_append.1 h with h | h
  · obtain ⟨f, hf, rfl⟩ := List.mem_map.1 h
    exact ⟨f, hf, .inl rfl⟩
  · obtain ⟨service, -, h⟩ := List.mem_flatMap.1 h
    obtain ⟨f, hf, rfl⟩ := List.mem_map.1 h
    exact ⟨f, hf, .inr ⟨service, rfl⟩⟩

/-- Every prepared answer is the right one for the node of its filter. -/
theorem mem_preparedAnswers {p : String × List Event} (h : p ∈ preparedAnswers events) :
    p = (Filter.everything, events) ∨ ∃ host, ∃ f ∈ preparedFilters,
      p = (Filter.ofHost f host, ofHostEvents events host) ∨
        ∃ service, p = (Filter.ofSelector ⟨f, host, service⟩, matching events host service) := by
  rcases List.mem_cons.1 h with h | h
  · exact .inl h
  · obtain ⟨host, -, h⟩ := List.mem_flatMap.1 h
    exact .inr ⟨host, mem_preparedHost events h⟩

/-- Of an event its host is prepared, under each prepared filter. -/
theorem ofHost_mem_preparedAnswers {f : Option String} (hf : f ∈ preparedFilters) {e : Event}
    (he : e ∈ events) :
    (Filter.ofHost f e.host, ofHostEvents events e.host) ∈ preparedAnswers events := by
  refine List.mem_cons_of_mem _ (List.mem_flatMap.2 ⟨e.host, ?_, ?_⟩)
  · exact mem_distinctNames.2 (List.mem_map_of_mem he)
  · exact List.mem_append_left _ (List.mem_map.2 ⟨f, hf, rfl⟩)

theorem ofSelector_mem_preparedAnswers {f : Option String} (hf : f ∈ preparedFilters)
    {e : Event} (he : e ∈ events) :
    (Filter.ofSelector ⟨f, e.host, e.service⟩, matching events e.host e.service) ∈
      preparedAnswers events := by
  refine List.mem_cons_of_mem _ (List.mem_flatMap.2 ⟨e.host, ?_, ?_⟩)
  · exact mem_distinctNames.2 (List.mem_map_of_mem he)
  · refine List.mem_append_right _ (List.mem_flatMap.2 ⟨e.service, ?_, ?_⟩)
    · have hhost : e ∈ ofHostEvents events e.host := by simp [ofHostEvents, he]
      exact mem_distinctNames.2 (List.mem_map_of_mem hhost)
    · exact List.mem_map.2 ⟨f, hf, rfl⟩

theorem ofEvents_serving : (ofEvents events).Serving := by
  rw [ofEvents_eq]
  exact Serving.respondAll ⟨rfl, rfl⟩ _

theorem ofEvents_answer_everything : (ofEvents events).answer Filter.everything = events := by
  rw [ofEvents_eq]
  refine answer_respondAll _ (fun p hp heq => ?_) fun hnone => ?_
  · rcases mem_preparedAnswers events hp with rfl | ⟨host, f, -, rfl | ⟨service, rfl⟩⟩
    · rfl
    · exact absurd heq (Filter.ofHost_ne_everything f host)
    · exact absurd heq (Filter.ofSelector_ne_everything _)
  · exact absurd rfl (hnone _ List.mem_cons_self)

theorem ofEvents_answer_ofHost {f : Option String} (hf : f ∈ preparedFilters) (host : String) :
    (ofEvents events).answer (Filter.ofHost f host) = ofHostEvents events host := by
  rw [ofEvents_eq]
  refine answer_respondAll _ (fun p hp heq => ?_) fun hnone => ?_
  · rcases mem_preparedAnswers events hp with rfl | ⟨host', f', -, rfl | ⟨service, rfl⟩⟩
    · exact absurd heq.symm (Filter.ofHost_ne_everything f host)
    · rw [(Filter.ofHost_inj heq).2]
    · exact absurd heq.symm (Filter.ofHost_ne_ofSelector f host _)
  · -- Nothing is prepared for a host without events.
    refine (List.filter_eq_nil_iff.2 fun e he hhost => ?_).symm
    have hmem := ofHost_mem_preparedAnswers events hf he
    rw [of_decide_eq_true hhost] at hmem
    exact hnone _ hmem rfl

theorem ofEvents_answer_ofSelector {f : Option String} (hf : f ∈ preparedFilters)
    (host service : String) :
    (ofEvents events).answer (Filter.ofSelector ⟨f, host, service⟩) =
      matching events host service := by
  rw [ofEvents_eq]
  refine answer_respondAll _ (fun p hp heq => ?_) fun hnone => ?_
  · rcases mem_preparedAnswers events hp with rfl | ⟨host', f', -, rfl | ⟨service', rfl⟩⟩
    · exact absurd heq.symm (Filter.ofSelector_ne_everything _)
    · exact absurd heq (Filter.ofHost_ne_ofSelector f' host' _)
    · cases Filter.ofSelector_inj heq
      rfl
  · refine (List.filter_eq_nil_iff.2 fun e he hboth => ?_).symm
    obtain ⟨rfl, rfl⟩ := of_decide_eq_true hboth
    exact hnone _ (ofSelector_mem_preparedAnswers events hf he) rfl

end
end EventTree.ScriptedIndex
