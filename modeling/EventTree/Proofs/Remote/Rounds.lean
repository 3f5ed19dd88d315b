import EventTree.Proofs.Remote.Watched

/-!
# Queries, seen on the network

A query is seen from outside as a round: the connection at hand when it begins, its uses of
the network, and its result. There are three kinds of rounds. A client that has no connection
tries once to make one, and that may be all. Over a connection it does nothing but send and
receive, and closes it behind a result that is no word of the index.
-/
namespace EventTree

/-- The uses send and receive over one connection and do nothing else. -/
def NetworkUse.Over (k : Nat) (uses : List NetworkUse) : Prop :=
  ∀ use ∈ uses, use = .send k ∨ use = .receive k

namespace Client
open NetworkUse

/-! ## Rounds -/

/-- A query as it is seen from outside. -/
structure Round where
  /-- The connection at hand when the query begins. -/
  held : Option Nat
  uses : List NetworkUse
  result : Except ExchangeFault (List Event)

section
variable {ν : Type} [Network ν]

def round (c : Client (Watched ν)) (filter : String) : Round where
  held := c.held
  uses := (c.query filter).2.network.uses.drop c.network.uses.length
  result := (c.query filter).1

def rounds (c : Client (Watched ν)) : List String → List Round
  | [] => []
  | filter :: rest => c.round filter :: rounds (c.query filter).2 rest

end

/-! ## What a round can be -/

/-- How a query comes to its connection: what is at hand, the connection, the uses that
this takes, and the number of the next connection behind it. -/
inductive Opens (n : Nat) : Option Nat → Nat → List NetworkUse → Nat → Prop where
  | kept (k : Nat) : Opens n (some k) k [] n
  | made : Opens n none n [.connect (some n)] (n + 1)

/-- One round, from the number of the next connection and the one at hand to those behind
it. -/
inductive Passes : Nat → Option Nat → Round → Nat → Option Nat → Prop where
  | unreachable {n : Nat} {result : Except ExchangeFault (List Event)} :
    ¬Told result → Passes n none ⟨none, [.connect none], result⟩ n none
  | told {n n' k : Nat} {held : Option Nat} {opening body : List NetworkUse}
    {result : Except ExchangeFault (List Event)} :
    Opens n held k opening n' → Over k body → Told result →
    Passes n held ⟨held, opening ++ body, result⟩ n' (some k)
  | broken {n n' k : Nat} {held : Option Nat} {opening body : List NetworkUse}
    {result : Except ExchangeFault (List Event)} :
    Opens n held k opening n' → Over k body → ¬Told result →
    Passes n held ⟨held, opening ++ (body ++ [.close k]), result⟩ n' none

section
variable {ν : Type} [Network ν]

theorem uses_query (c : Client (Watched ν)) (filter : String) :
    (c.query filter).2.network.uses = c.network.uses ++ (c.round filter).uses := by
  have hkept : c.network.uses <+: (c.query filter).2.network.uses := by
    apply query_keeps (fun w : Watched ν => c.network.uses <+: w.uses)
    · intro w h
      change _ <+: w.connect.2.uses
      unfold Watched.connect
      split <;> exact h.trans (List.prefix_append _ _)
    · exact fun w k bytes h => h.trans (List.prefix_append _ _)
    · exact fun w k count h => h.trans (List.prefix_append _ _)
    · exact fun w k h => h.trans (List.prefix_append _ _)
    · exact List.prefix_refl _
  exact (List.prefix_iff_eq_append.1 hkept).symm

/-- A fault of an exchange leaves the connection half-way. -/
theorem exchange_breaks {c : Client ν} {k : Network.Connection ν} {filter : String}
    {fault : ExchangeFault} {network : ν} (h : c.exchange k filter = (.error fault, network)) :
    fault.breaksConnection = true := by
  unfold exchange at h
  cases hframe : (Wire.Message.ofFilter filter).frame with
  | error reason =>
    rw [hframe] at h
    cases h
    exact frame_error_breaks hframe
  | ok frame =>
    rw [hframe] at h
    dsimp only at h
    rcases hsend : Network.send c.network k frame with ⟨reason | _, sent⟩
    · rw [hsend] at h
      cases h
      exact ofNetwork_breaksConnection reason
    · rw [hsend] at h
      dsimp only at h
      rcases takeMessage_cases c.frameLimit (fun n => Network.receive n k) sent with
        ⟨reason, rest, htake, hbreaks⟩ | ⟨_, _, _, _, message, -, -, -, htake⟩
      · rw [htake] at h
        cases h
        exact hbreaks
      · rw [htake] at h
        cases h

theorem told_events? (message : Wire.Message) : Told message.events? := by
  unfold Wire.Message.events?
  split
  · exact .inr ⟨_, rfl⟩
  · exact .inl ⟨_, rfl⟩

theorem connect_opens (c : Client (Watched ν)) :
    (∃ fault next, c.connect = (.error (.ofNetwork fault), next) ∧ c.held = none ∧
      next.held = none ∧ next.network.made = c.network.made ∧
      next.network.uses = c.network.uses ++ [.connect none]) ∨
    ∃ (k : Nat × Network.Connection ν) (opened : Client (Watched ν)) (opening : List NetworkUse),
      c.connect = (.ok k, opened) ∧ opened.connection = some k ∧
      Opens c.network.made c.held k.1 opening opened.network.made ∧
      opened.network.uses = c.network.uses ++ opening := by
  obtain ⟨w, limit, connection, closed⟩ := c
  cases connection with
  | some k => exact .inr ⟨k, _, [], rfl, rfl, .kept k.1, (List.append_nil _).symm⟩
  | none =>
    have hwatched : Network.connect w = w.connect := rfl
    simp only [connect, hwatched, Watched.connect]
    rcases Network.connect w.network with ⟨fault | k, network⟩
    · exact .inl ⟨fault, _, rfl, rfl, rfl, rfl, rfl⟩
    · exact .inr ⟨(w.made, k), _, [.connect (some w.made)], rfl, rfl, .made, rfl⟩

/-- Whatever its answer, an exchange uses no other connection than its own. -/
theorem exchange_over {c : Client (Watched ν)} {k : Nat × Network.Connection ν}
    {filter : String} {answer : Except ExchangeFault Wire.Message} {network : Watched ν}
    (h : c.exchange k filter = (answer, network)) :
    network.made = c.network.made ∧
      ∃ body, network.uses = c.network.uses ++ body ∧ Over k.1 body := by
  obtain rfl : (c.exchange k filter).2 = network := congrArg Prod.snd h
  clear h
  unfold exchange
  cases (Wire.Message.ofFilter filter).frame with
  | error fault => exact ⟨rfl, [], (List.append_nil _).symm, nofun⟩
  | ok frame =>
    have hwatched : Network.send c.network k frame = c.network.send k frame := rfl
    have hsent : Over k.1 [.send k.1] := fun use huse => .inl (List.mem_singleton.1 huse)
    simp only [hwatched, Watched.send]
    rcases Network.send c.network.network k.2 frame with ⟨fault | ⟨⟩, network⟩
    · exact ⟨rfl, _, rfl, hsent⟩
    · apply takeMessage_keeps fun w : Watched ν => w.made = c.network.made ∧
        ∃ body, w.uses = c.network.uses ++ body ∧ Over k.1 body
      · rintro w count ⟨hmade, body, huses, hbody⟩
        refine ⟨hmade, body ++ [.receive k.1], ?_, ?_⟩
        · change w.uses ++ _ = _
          rw [huses, List.append_assoc]
        · intro use huse
          rcases List.mem_append.1 huse with huse | huse
          · exact hbody use huse
          · exact .inr (List.mem_singleton.1 huse)
      · exact ⟨rfl, _, rfl, hsent⟩

theorem round_eq {c : Client (Watched ν)} {filter : String} {uses : List NetworkUse}
    (h : (c.query filter).2.network.uses = c.network.uses ++ uses) :
    c.round filter = ⟨c.held, uses, (c.query filter).1⟩ := by
  rw [uses_query] at h
  rw [← List.append_cancel_left h]
  rfl

/-- Whatever the network does, a query of a client that is not closed is one of the rounds. -/
theorem round_passes {c : Client (Watched ν)} (hopen : c.closed = false) (filter : String) :
    Passes c.network.made c.held (c.round filter) (c.query filter).2.network.made
      (c.query filter).2.held := by
  have hquery : c.query filter = c.ask filter := by
    rw [query, hopen]
    rfl
  rcases c.connect_opens with ⟨fault, next, hconnect, hnone, hheld, hmade, huses⟩ |
    ⟨k, opened, opening, hconnect, hheld, hopens, huses⟩
  · have hask := ask_connect_error hconnect filter
    rw [← hquery] at hask
    have hround : (c.query filter).2.network.uses = c.network.uses ++ [.connect none] := by
      rw [hask]
      exact huses
    rw [round_eq hround, hask, hnone, hheld, hmade]
    exact .unreachable (not_told_of_breaks (ofNetwork_breaksConnection fault))
  · rcases hexchange : opened.exchange k filter with ⟨answer, network⟩
    obtain ⟨hmade, body, hbody, hover⟩ := exchange_over hexchange
    rw [huses] at hbody
    cases answer with
    | error fault =>
      have hbreaks := exchange_breaks hexchange
      have hask := ask_exchange_error hconnect hexchange hbreaks
      have hdisconnect : ({ opened with network } : Client (Watched ν)).disconnect =
          { opened with network := network.close k, connection := none } := by
        simp only [disconnect, hheld]
        rfl
      rw [← hquery, hdisconnect] at hask
      have hround : (c.query filter).2.network.uses =
          c.network.uses ++ (opening ++ (body ++ [.close k.1])) := by
        rw [hask]
        change network.uses ++ _ = _
        rw [hbody, List.append_assoc, List.append_assoc]
      rw [round_eq hround, hask]
      exact .broken (hmade ▸ hopens) hover (not_told_of_breaks hbreaks)
    | ok message =>
      have hask := ask_exchange_ok hconnect hexchange
      rw [← hquery] at hask
      have hround : (c.query filter).2.network.uses = c.network.uses ++ (opening ++ body) := by
        rw [hask, ← List.append_assoc]
        exact hbody
      rw [round_eq hround, hask]
      have hkept : ({ opened with network } : Client (Watched ν)).held = some k.1 := by
        rw [held, hheld]
        rfl
      rw [hkept]
      exact .told (hmade ▸ hopens) hover (told_events? message)

end

end Client
end EventTree
