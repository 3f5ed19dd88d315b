import EventTree.Proofs.Remote.Rounds

/-!
# The life of a connection

A client makes a connection when a query finds none, keeps it as long as its queries are
told something by the index, and closes it with the first that is not. So which connection
is at hand when a query begins follows from what became of the earlier queries, and no query
uses a connection on which an earlier one was left half-way.

What a round can be is all that is used here, whatever network the client is over.
-/
namespace EventTree

namespace NetworkUse

def isConnect : NetworkUse → Bool
  | .connect _ => true
  | _ => false

def made? : NetworkUse → Option Nat
  | .connect made => made
  | _ => none

/-- The connections that are open after a use. -/
def after (connections : List Nat) : NetworkUse → List Nat
  | .connect (some k) => k :: connections
  | .close k => connections.erase k
  | _ => connections

/-- No more than one connection is open before, between and after the uses. -/
def OneAtATime (connections : List Nat) : List NetworkUse → Prop
  | [] => connections.length ≤ 1
  | use :: rest => connections.length ≤ 1 ∧ OneAtATime (use.after connections) rest

theorem oneAtATime_append {connections : List Nat} {uses rest : List NetworkUse}
    (h : OneAtATime connections uses) (hrest : OneAtATime (uses.foldl after connections) rest) :
    OneAtATime connections (uses ++ rest) := by
  induction uses generalizing connections with
  | nil => exact hrest
  | cons use uses ih => exact ⟨h.1, ih h.2 hrest⟩

section
variable {k : Nat} {uses : List NetworkUse}

theorem Over.after_eq {use : NetworkUse} (h : use = .send k ∨ use = .receive k)
    (connections : List Nat) : use.after connections = connections := by
  rcases h with rfl | rfl <;> rfl

/-- Over an open connection it stays the one that is open. -/
theorem Over.oneAtATime (h : Over k uses) :
    OneAtATime [k] uses ∧ uses.foldl after [k] = [k] := by
  induction uses with
  | nil => exact ⟨Nat.le_refl 1, rfl⟩
  | cons use rest ih =>
    have hsame := Over.after_eq (h use List.mem_cons_self) [k]
    rw [OneAtATime, List.foldl_cons, hsame]
    obtain ⟨hrest, hafter⟩ := ih fun u hu => h u (List.mem_cons_of_mem _ hu)
    exact ⟨⟨Nat.le_refl 1, hrest⟩, hafter⟩

theorem Over.oneAtATime_close (h : Over k uses) :
    OneAtATime [k] (uses ++ [.close k]) ∧ (uses ++ [close k]).foldl after [k] = [] := by
  obtain ⟨hone, hopen⟩ := h.oneAtATime
  have hclosed : (close k).after [k] = [] := List.erase_cons_head ..
  rw [List.foldl_append, hopen]
  refine ⟨oneAtATime_append hone ?_, hclosed⟩
  rw [hopen, OneAtATime, hclosed]
  exact ⟨Nat.le_refl 1, Nat.zero_le 1⟩

/-- The uses are of one connection, which was made before them. -/
def Within (k : Nat) (uses : List NetworkUse) : Prop :=
  ∀ use ∈ uses, use = .send k ∨ use = .receive k ∨ use = .close k

theorem Over.within (h : Over k uses) : Within k uses :=
  fun use huse => (h use huse).imp_right .inl

theorem Over.within_close (h : Over k uses) : Within k (uses ++ [.close k]) := by
  intro use huse
  rcases List.mem_append.1 huse with huse | huse
  · exact h.within use huse
  · exact .inr (.inr (List.mem_singleton.1 huse))

theorem Within.connection? (h : Within k uses) : ∀ use ∈ uses, use.connection? = some k := by
  intro use huse
  rcases h use huse with rfl | rfl | rfl <;> rfl

theorem Within.findSome?_made? (h : Within k uses) : uses.findSome? made? = none := by
  rw [List.findSome?_eq_none_iff]
  intro use huse
  rcases h use huse with rfl | rfl | rfl <;> rfl

theorem Within.countP_isConnect (h : Within k uses) : uses.countP isConnect = 0 := by
  rw [List.countP_eq_zero]
  intro use huse
  rcases h use huse with rfl | rfl | rfl <;> nofun

end

end NetworkUse

namespace Client
open NetworkUse

namespace Round

/-- The connection that was made. -/
def made? (r : Round) : Option Nat := r.uses.findSome? NetworkUse.made?

/-- The connection that the query was run on, if it got one. -/
def over? (r : Round) : Option Nat := r.held.or r.made?

end Round

/-- The connection that was made last, which is the first if none was. -/
def latest (first : Option Nat) (rounds : List Round) : Option Nat :=
  rounds.foldl (fun k r => r.made?.or k) first

/-! ## What a round tells -/

section
variable {n n' k : Nat} {held : Option Nat} {opening rest : List NetworkUse}

/-- The connection that a query is run on is the one at hand or the one that it makes. -/
theorem Opens.over {result : Except ExchangeFault (List Event)} (h : Opens n held k opening n')
    (hrest : Within k rest) :
    let r : Round := ⟨held, opening ++ rest, result⟩
    r.over? = some k ∧ (held = some k ∧ r.made? = none ∧ n' = n ∨
      held = none ∧ k = n ∧ r.made? = some n ∧ n' = n + 1) := by
  cases h with
  | kept k => exact ⟨rfl, .inl ⟨rfl, hrest.findSome?_made?, rfl⟩⟩
  | made => exact ⟨rfl, .inr ⟨rfl, rfl, rfl, rfl⟩⟩

theorem Opens.connection? (h : Opens n held k opening n') (hrest : Within k rest) :
    ∀ use ∈ opening ++ rest, use.connection? = some k := by
  cases h with
  | kept k => exact hrest.connection?
  | made =>
    intro use huse
    rcases List.mem_cons.1 huse with rfl | huse
    · rfl
    · exact hrest.connection? use huse

theorem Opens.countP_isConnect (h : Opens n held k opening n') (hrest : Within k rest) :
    (opening ++ rest).countP NetworkUse.isConnect = if held = none then 1 else 0 := by
  rw [List.countP_append, hrest.countP_isConnect]
  cases h <;> rfl

theorem Opens.oneAtATime (h : Opens n held k opening n') :
    OneAtATime held.toList opening ∧ opening.foldl NetworkUse.after held.toList = [k] := by
  cases h with
  | kept k => exact ⟨Nat.le_refl 1, rfl⟩
  | made => exact ⟨⟨Nat.zero_le 1, Nat.le_refl 1⟩, rfl⟩

end

section
variable {n n' : Nat} {held held' : Option Nat} {r : Round}

/-- A query is run on no connection, or on one that it leaves at hand if the index told it
something. -/
theorem Passes.outcome (h : Passes n held r n' held') :
    (r.over? = none ∧ r.made? = none ∧ held = none ∧ n' = n ∧ ¬Told r.result ∧ held' = none) ∨
    ∃ k, r.over? = some k ∧ (held = some k ∧ r.made? = none ∧ n' = n ∨
        held = none ∧ k = n ∧ r.made? = some n ∧ n' = n + 1) ∧
      (Told r.result ∧ held' = some k ∨ ¬Told r.result ∧ held' = none) := by
  cases h with
  | unreachable hfault => exact .inl ⟨rfl, rfl, rfl, rfl, hfault, rfl⟩
  | told hopens hover htold =>
    obtain ⟨hk, hhow⟩ := hopens.over hover.within
    exact .inr ⟨_, hk, hhow, .inl ⟨htold, rfl⟩⟩
  | broken hopens hover hfault =>
    obtain ⟨hk, hhow⟩ := hopens.over hover.within_close
    exact .inr ⟨_, hk, hhow, .inr ⟨hfault, rfl⟩⟩

/-- All uses of a round are about the connection that the query is run on. -/
theorem Passes.connection? (h : Passes n held r n' held') :
    ∀ use ∈ r.uses, use.connection? = r.over? := by
  cases h with
  | unreachable _ =>
    intro use huse
    rw [List.mem_singleton.1 huse]
    rfl
  | told hopens hover _ =>
    rw [(hopens.over hover.within).1]
    exact hopens.connection? hover.within
  | broken hopens hover _ =>
    rw [(hopens.over hover.within_close).1]
    exact hopens.connection? hover.within_close

/-- One attempt to connect if no connection is at hand, and none else. -/
theorem Passes.countP_isConnect (h : Passes n held r n' held') :
    r.uses.countP NetworkUse.isConnect = if held = none then 1 else 0 := by
  cases h with
  | unreachable _ => rfl
  | told hopens hover _ => exact hopens.countP_isConnect hover.within
  | broken hopens hover _ => exact hopens.countP_isConnect hover.within_close

theorem Passes.held_of_unconnected (h : Passes n held r n' held')
    (hfailed : .connect none ∈ r.uses) : held' = none := by
  have hnone : none = r.over? := h.connection? _ hfailed
  rcases h.outcome with ⟨-, -, -, -, -, hend⟩ | ⟨k, hover, -, -⟩
  · exact hend
  · rw [hover] at hnone
    cases hnone

/-- At the end of a round the connection at hand is the one that is open. -/
theorem Passes.oneAtATime (h : Passes n held r n' held') :
    OneAtATime held.toList r.uses ∧ r.uses.foldl NetworkUse.after held.toList = held'.toList := by
  cases h with
  | unreachable _ => exact ⟨⟨Nat.zero_le 1, Nat.zero_le 1⟩, rfl⟩
  | told hopens hover _ =>
    obtain ⟨hone, hopened⟩ := hopens.oneAtATime
    rw [List.foldl_append, hopened]
    exact ⟨oneAtATime_append hone (hopened ▸ hover.oneAtATime.1), hover.oneAtATime.2⟩
  | broken hopens hover _ =>
    obtain ⟨hone, hopened⟩ := hopens.oneAtATime
    rw [List.foldl_append, hopened]
    exact ⟨oneAtATime_append hone (hopened ▸ hover.oneAtATime_close.1), hover.oneAtATime_close.2⟩

end

/-! ## The history of a client -/

/-- What earlier rounds say of the connection at hand. -/
structure History (first : Option Nat) (past : List Round) (n : Nat) (held : Option Nat) :
    Prop where
  latest_lt : ∀ k, latest first past = some k → k < n
  over_lt : ∀ r ∈ past, ∀ k, r.over? = some k → k < n
  held_iff : ∀ k, held = some k ↔
    latest first past = some k ∧ ∀ r ∈ past, r.over? = some k → Told r.result

theorem latest_concat (first : Option Nat) (past : List Round) (r : Round) :
    latest first (past ++ [r]) = r.made?.or (latest first past) :=
  List.foldl_concat _ _ _ _

theorem forall_mem_concat {past : List Round} {r : Round} {P : Round → Prop} :
    (∀ s ∈ past ++ [r], P s) ↔ (∀ s ∈ past, P s) ∧ P r := by
  simp only [List.mem_append, List.mem_singleton, or_imp, forall_and, forall_eq]

/-- A round over the connection that was made last, if no earlier round has broken it. -/
theorem History.ran {first : Option Nat} {past : List Round} {n n' k : Nat}
    {held held' : Option Nat} {r : Round} (h : History first past n held) (hn : n ≤ n')
    (hk : k < n') (hlatest : latest first (past ++ [r]) = some k) (hover : r.over? = some k)
    (hpast : ∀ s ∈ past, s.over? = some k → Told s.result)
    (hend : Told r.result ∧ held' = some k ∨ ¬Told r.result ∧ held' = none) :
    History first (past ++ [r]) n' held' where
  latest_lt := by
    rw [hlatest]
    rintro j ⟨⟩
    exact hk
  over_lt := by
    rw [forall_mem_concat, hover]
    constructor
    · intro s hs j hj
      exact Nat.lt_of_lt_of_le (h.over_lt s hs j hj) hn
    · rintro j ⟨⟩
      exact hk
  held_iff j := by
    rw [hlatest, forall_mem_concat, hover]
    rcases hend with ⟨htold, rfl⟩ | ⟨hfault, rfl⟩
    · constructor
      · rintro ⟨⟩
        exact ⟨rfl, hpast, fun _ => htold⟩
      · exact And.left
    · constructor
      · nofun
      · rintro ⟨hj, -, htold⟩
        exact absurd (htold hj) hfault

theorem History.step {first : Option Nat} {past : List Round} {n n' : Nat}
    {held held' : Option Nat} {r : Round} (h : History first past n held)
    (p : Passes n held r n' held') : History first (past ++ [r]) n' held' := by
  have hsame : r.made? = none → latest first (past ++ [r]) = latest first past := by
    intro hmade
    rw [latest_concat, hmade, Option.none_or]
  rcases p.outcome with ⟨hover, hmade, rfl, rfl, -, rfl⟩ |
    ⟨k, hover, ⟨rfl, hmade, rfl⟩ | ⟨rfl, rfl, hmade, rfl⟩, hend⟩
  · constructor
    · rw [hsame hmade]
      exact h.latest_lt
    · rw [forall_mem_concat, hover]
      exact ⟨h.over_lt, nofun⟩
    · intro j
      rw [h.held_iff j, hsame hmade, forall_mem_concat, hover]
      exact and_congr_right fun _ => (and_iff_left nofun).symm
  · obtain ⟨hlatest, hpast⟩ := (h.held_iff k).1 rfl
    exact h.ran (Nat.le_refl _) (h.latest_lt k hlatest) ((hsame hmade).trans hlatest) hover
      hpast hend
  · -- No earlier round was over a connection of the new number.
    have hpast : ∀ s ∈ past, s.over? = some k → Told s.result := by
      intro s hs hk
      exact absurd (h.over_lt s hs k hk) (Nat.lt_irrefl k)
    have hlatest : latest first (past ++ [r]) = some k := by
      rw [latest_concat, hmade, Option.some_or]
    exact h.ran (Nat.le_succ k) (Nat.lt_succ_self k) hlatest hover hpast hend

/-- The uses of a round are about the connection that it is run on, and about none on which
an earlier round has ended in a fault. -/
theorem History.avoids {first : Option Nat} {past : List Round} {n n' : Nat}
    {held held' : Option Nat} {r : Round} (h : History first past n held)
    (p : Passes n held r n' held') {s : Round} (hs : s ∈ past) {k : Nat} (hk : s.over? = some k)
    (hfault : ¬Told s.result) : ∀ use ∈ r.uses, use.connection? ≠ some k := by
  intro use huse hsame
  have hover : r.over? = some k := (p.connection? use huse).symm.trans hsame
  rcases p.outcome with ⟨hnone, -⟩ | ⟨j, hj, ⟨rfl, -⟩ | ⟨-, rfl, -⟩, -⟩
  · rw [hnone] at hover
    cases hover
  · obtain rfl : j = k := Option.some.inj (hj.symm.trans hover)
    exact hfault (((h.held_iff j).1 rfl).2 s hs hk)
  · obtain rfl : j = k := Option.some.inj (hj.symm.trans hover)
    exact Nat.lt_irrefl j (h.over_lt s hs j hk)

section
variable {ν : Type} [Network ν]

theorem rounds_concat (c : Client (Watched ν)) (filters : List String) (filter : String) :
    c.rounds (filters ++ [filter]) = c.rounds filters ++ [(c.queryAll filters).round filter] := by
  induction filters generalizing c with
  | nil => rfl
  | cons f rest ih => exact congrArg (c.round f :: ·) (ih _)

theorem queryAll_closed (c : Client ν) (filters : List String) :
    (c.queryAll filters).closed = c.closed := by
  induction filters generalizing c with
  | nil => rfl
  | cons filter rest ih => exact (ih _).trans (c.query_closed filter)

/-- What is noted in a run are the uses of its rounds. -/
theorem uses_queryAll (c : Client (Watched ν)) (filters : List String) :
    (c.queryAll filters).network.uses =
      c.network.uses ++ (c.rounds filters).flatMap (·.uses) := by
  induction filters generalizing c with
  | nil => exact (List.append_nil _).symm
  | cons filter rest ih =>
    refine (ih _).trans ?_
    rw [uses_query, List.append_assoc]
    rfl

theorem watch_history (c : Client ν) :
    History c.watch.held [] c.watch.network.made c.watch.held := by
  obtain ⟨network, limit, connection, closed⟩ := c
  constructor
  · intro k hk
    cases connection with
    | none => cases hk
    | some id =>
      cases hk
      exact Nat.zero_lt_one
  · nofun
  · exact fun k => (and_iff_left nofun).symm

theorem History.rounds {first : Option Nat} {past : List Round} {c : Client (Watched ν)}
    (hopen : c.closed = false) (h : History first past c.network.made c.held)
    (filters : List String) :
    History first (past ++ c.rounds filters) (c.queryAll filters).network.made
      (c.queryAll filters).held := by
  induction filters generalizing c past with
  | nil =>
    rw [Client.rounds, List.append_nil]
    exact h
  | cons filter rest ih =>
    have hstill := (c.query_closed filter).trans hopen
    have hrest := ih hstill (h.step (round_passes hopen filter))
    rw [List.append_assoc] at hrest
    exact hrest

/-- The connection at hand is the one that is open, at all times of a run. -/
theorem rounds_oneAtATime {c : Client (Watched ν)} (hopen : c.closed = false)
    (filters : List String) :
    OneAtATime c.held.toList ((c.rounds filters).flatMap (·.uses)) := by
  induction filters generalizing c with
  | nil =>
    change c.held.toList.length ≤ 1
    cases c.held with
    | none => exact Nat.zero_le 1
    | some k => exact Nat.le_refl 1
  | cons filter rest ih =>
    obtain ⟨hone, hafter⟩ := (round_passes hopen filter).oneAtATime
    have hrest := ih ((c.query_closed filter).trans hopen)
    rw [← hafter] at hrest
    exact oneAtATime_append hone hrest

/-- As long as every query is told something, one connection is used and no other. -/
theorem rounds_one_connection {c : Client (Watched ν)} (hopen : c.closed = false)
    (filters : List String) (htold : ∀ r ∈ c.rounds filters, Told r.result) :
    ∃ k, (∀ j, c.held = some j → j = k) ∧
      ∀ use ∈ (c.rounds filters).flatMap (·.uses), use.connection? = some k := by
  induction filters generalizing c with
  | nil =>
    refine ⟨c.held.getD 0, ?_, nofun⟩
    intro j hj
    rw [hj]
    rfl
  | cons filter rest ih =>
    have hpasses := round_passes hopen filter
    obtain ⟨hfirst, hrest⟩ := List.forall_mem_cons.1 htold
    obtain ⟨k, hk, huses⟩ := ih ((c.query_closed filter).trans hopen) hrest
    rcases hpasses.outcome with ⟨-, -, -, -, hfault, -⟩ |
      ⟨j, hover, hhow, ⟨-, hheld⟩ | ⟨hfault, -⟩⟩
    · exact absurd hfirst hfault
    · obtain rfl := hk j hheld
      refine ⟨j, ?_, ?_⟩
      · intro i hi
        rcases hhow with ⟨hkept, -⟩ | ⟨hnone, -⟩
        · exact Option.some.inj (hi.symm.trans hkept)
        · rw [hnone] at hi
          cases hi
      · intro use huse
        rcases List.mem_append.1 huse with huse | huse
        · exact (hpasses.connection? use huse).trans hover
        · exact huses use huse
    · exact absurd hfirst hfault

/-- A client begins a query with the connection that was made last, exactly if no query on
it was left without a word of the index; else it makes one attempt to connect. -/
theorem connection_lifecycle (c : Client ν) (hopen : c.closed = false) (filters : List String)
    (filter : String) :
    let start := c.watch
    let before := start.queryAll filters
    let after := (before.query filter).2
    let past := start.rounds filters
    let now := before.round filter
    now.result = ((c.queryAll filters).query filter).1 ∧
    now.held.isSome = (c.queryAll filters).connection.isSome ∧
    (∀ k, now.held = some k ↔
      latest start.held past = some k ∧ ∀ r ∈ past, r.over? = some k → Told r.result) ∧
    now.uses.countP (·.isConnect) = (if now.held = none then 1 else 0) ∧
    (.connect none ∈ now.uses → ((c.queryAll filters).query filter).2.connection = none) ∧
    OneAtATime start.held.toList after.network.uses ∧
    ((∀ r ∈ past ++ [now], Told r.result) →
      ∃ k, ∀ use ∈ after.network.uses, use.connection? = some k) ∧
    (∀ r ∈ past, ∀ k, r.over? = some k → ¬Told r.result →
      ∀ use ∈ now.uses, use.connection? ≠ some k) := by
  intro start before after past now
  have hstart : start.closed = false := hopen
  have hbefore : before.closed = false := (start.queryAll_closed filters).trans hstart
  have hunwatch : c.queryAll filters = before.unwatch := by
    rw [← queryAll_unwatch, unwatch_watch]
  have hquery : (c.queryAll filters).query filter = (now.result, after.unwatch) := by
    rw [hunwatch, query_unwatch]
    rfl
  have hhistory : History start.held past before.network.made before.held :=
    c.watch_history.rounds hstart filters
  have hpasses := round_passes hbefore filter
  have hrounds : start.rounds (filters ++ [filter]) = past ++ [now] := start.rounds_concat ..
  have huses : after.network.uses = (past ++ [now]).flatMap (·.uses) := by
    have hnoted := start.uses_queryAll (filters ++ [filter])
    rw [queryAll_concat, hrounds] at hnoted
    exact hnoted
  refine ⟨?_, ?_, hhistory.held_iff, hpasses.countP_isConnect, ?_, ?_, ?_, ?_⟩
  · rw [hquery]
  · rw [hunwatch]
    exact before.held_isSome
  · intro hfailed
    have hnone := hpasses.held_of_unconnected hfailed
    rw [hquery, ← Option.not_isSome_iff_eq_none, ← held_isSome]
    change after.held = none at hnone
    rw [hnone]
    nofun
  · rw [huses, ← hrounds]
    exact rounds_oneAtATime hstart _
  · intro htold
    obtain ⟨k, -, hall⟩ := rounds_one_connection hstart (filters ++ [filter]) (hrounds ▸ htold)
    rw [huses, ← hrounds]
    exact ⟨k, hall⟩
  · intro r hr k hk hfault
    exact hhistory.avoids hpasses hr hk hfault

end

/-- A query that runs out of time on the connection that was handed over, one that cannot
connect, and one that is told no events over a new connection. -/
theorem connection_lifecycle_of_timeout :
    let c : Client Course :=
      { network := ⟨[.fresh], [{}, { fault := some .timeout }, { fault := some .timeout }, {}, {},
          { moves := [(1, .answer ⟨0, []⟩)] }]⟩
        connection := some (0 : Nat) }
    let start := c.watch
    let past := start.rounds ["a", "b"]
    let now := (start.queryAll ["a", "b"]).round "c"
    c.closed = false ∧ past.map (·.over?) = [some 0, none] ∧
      now.uses = [.connect (some 1), .send 1, .receive 1, .receive 1] ∧ now.held = none ∧
      latest start.held past = some 0 ∧ ∃ r ∈ past, r.over? = some 0 ∧ ¬Told r.result := by
  intro c start past now
  have hover : past.map (·.over?) = [some 0, none] := by decide +kernel
  have huses : now.uses = [.connect (some 1), .send 1, .receive 1, .receive 1] := by decide +kernel
  have hlatest : latest start.held past = some 0 := by decide +kernel
  obtain ⟨-, -, hheld, hconnects, -⟩ := connection_lifecycle c rfl ["a", "b"] "c"
  change ∀ k, now.held = some k ↔ latest start.held past = some k ∧
    ∀ r ∈ past, r.over? = some k → Told r.result at hheld
  change now.uses.countP (·.isConnect) = if now.held = none then 1 else 0 at hconnects
  have hnone : now.held = none := by
    by_contra hsome
    rw [huses, if_neg hsome] at hconnects
    cases hconnects
  refine ⟨rfl, hover, huses, hnone, hlatest, ?_⟩
  by_contra hall
  push Not at hall
  have hkept := (hheld 0).2 ⟨hlatest, hall⟩
  rw [hnone] at hkept
  cases hkept

end Client
end EventTree
