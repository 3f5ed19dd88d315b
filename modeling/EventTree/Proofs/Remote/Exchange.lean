import EventTree.Remote.Client
import EventTree.Proofs.Remote.Links

/-!
# A query over any course

A query over a settled connection either breaks the connection or is answered with the
response to its own request. So a connection that a client still holds behind a query is
settled, and the next query begins as this one did.
-/
namespace EventTree

/-- Between the two networks the request of `filter` was sent over link `k` and nothing
else over any link; the response to it says `message`. -/
structure Exchanged (old new : Course) (k : Nat) (filter : String) (message : Wire.Message) :
    Prop where
  own : ∃ frame, (Wire.Message.ofFilter filter).frame = .ok frame ∧
    (new.link k).requests = (old.link k).requests ++ [frame]
  others : ∀ j ≠ k, (new.link j).requests = (old.link j).requests
  answer : ∃ r ∈ (new.link k).responses, r.request = (old.link k).requests.length ∧
    Wire.Message.decode r.body = .ok message

/-- Only the requests count of what was before. -/
theorem Exchanged.of_requests {old middle new : Course} {k : Nat} {filter : String}
    {message : Wire.Message} (h : Exchanged middle new k filter message)
    (hrequests : ∀ j, (middle.link j).requests = (old.link j).requests) :
    Exchanged old new k filter message where
  own := by
    rw [← hrequests k]
    exact h.own
  others := by
    intro j hj
    rw [← hrequests j]
    exact h.others j hj
  answer := by
    rw [← hrequests k]
    exact h.answer

namespace Client

/-! ## A query, case by case -/

section
variable {ν : Type} [Network ν]

theorem disconnect_connection (c : Client ν) : c.disconnect.connection = none := by
  unfold disconnect
  split
  · next h => exact h
  · rfl

theorem disconnect_closed (c : Client ν) : c.disconnect.closed = c.closed := by
  unfold disconnect
  split <;> rfl

theorem query_closed (c : Client ν) (filter : String) : (c.query filter).2.closed = c.closed := by
  have hconnect : c.connect.2.closed = c.closed := by
    unfold connect
    split
    · rfl
    · split <;> rfl
  unfold query
  split
  · rfl
  · unfold ask
    rcases hc : c.connect with ⟨_ | k, opened⟩ <;> rw [hc] at hconnect
    · exact hconnect
    · dsimp only
      split
      · exact hconnect
      · split
        · rw [disconnect_closed]
          exact hconnect
        · exact hconnect

theorem ask_connect_error {c next : Client ν} {fault : ExchangeFault}
    (h : c.connect = (.error fault, next)) (filter : String) :
    c.ask filter = (.error fault, next) := by
  simp only [ask, h]

theorem ask_exchange_error {c opened : Client ν} {k : Network.Connection ν} {filter : String}
    {fault : ExchangeFault} {network : ν} (hconnect : c.connect = (.ok k, opened))
    (h : opened.exchange k filter = (.error fault, network))
    (hbreaks : fault.breaksConnection = true) :
    c.ask filter = (.error fault, ({ opened with network } : Client ν).disconnect) := by
  simp only [ask, hconnect, h, Except.bind, hbreaks, if_true]

theorem events?_error {message : Wire.Message} {fault : ExchangeFault}
    (h : message.events? = .error fault) : fault.breaksConnection = false := by
  unfold Wire.Message.events? at h
  split at h
  · cases h
    rfl
  · cases h

/-- A refusal leaves the connection, as events do. -/
theorem ask_exchange_ok {c opened : Client ν} {k : Network.Connection ν} {filter : String}
    {message : Wire.Message} {network : ν} (hconnect : c.connect = (.ok k, opened))
    (h : opened.exchange k filter = (.ok message, network)) :
    c.ask filter = (message.events?, { opened with network }) := by
  simp only [ask, hconnect, h, Except.bind]
  cases hevents : message.events? with
  | ok events => rfl
  | error fault => simp only [events?_error hevents, Bool.false_eq_true, if_false]

/-- What every use of the network keeps is kept by a query, however it ends. -/
theorem query_keeps (P : ν → Prop) (hconnect : ∀ n, P n → P (Network.connect n).2)
    (hsend : ∀ n k bytes, P n → P (Network.send n k bytes).2)
    (hreceive : ∀ n k count, P n → P (Network.receive n k count).2)
    (hclose : ∀ n k, P n → P (Network.close n k)) (c : Client ν) (filter : String)
    (h : P c.network) : P (c.query filter).2.network := by
  have hopened : P c.connect.2.network := by
    unfold connect
    split
    · exact h
    · have hnext := hconnect c.network h
      split <;> next heq => rw [heq] at hnext; exact hnext
  have hexchange : ∀ (opened : Client ν) k, P opened.network →
      P (opened.exchange k filter).2 := by
    intro opened k hnetwork
    unfold exchange
    split
    · exact hnetwork
    · next frame _ =>
      have hsent := hsend opened.network k frame hnetwork
      split
      · next heq =>
        rw [heq] at hsent
        exact hsent
      · next heq =>
        rw [heq] at hsent
        exact takeMessage_keeps P (fun n count hn => hreceive n k count hn) _ hsent
  have hdisconnect : ∀ opened : Client ν, P opened.network → P opened.disconnect.network := by
    intro opened hnetwork
    unfold disconnect
    split
    · exact hnetwork
    · exact hclose _ _ hnetwork
  unfold query
  split
  · exact h
  · unfold ask
    rcases hc : c.connect with ⟨_ | k, opened⟩ <;> rw [hc] at hopened
    · exact hopened
    · have hnext := hexchange opened k hopened
      dsimp only
      split
      · exact hnext
      · split
        · exact hdisconnect _ hnext
        · exact hnext

end

/-! ## A query over a course -/

theorem frame_error_breaks {message : Wire.Message} {fault : ExchangeFault}
    (h : message.frame = .error fault) : fault.breaksConnection = true := by
  unfold Wire.Message.frame at h
  dsimp only at h
  split at h
  · cases h
  · cases h
    rfl

theorem exchange_cases {c : Client Course} {k : Nat} (hk : k < c.network.links.length)
    (hsettled : (c.network.link k).Settled) (filter : String) :
    (∃ fault next, c.exchange k filter = (.error fault, next) ∧
      fault.breaksConnection = true) ∨
    ∃ message next, c.exchange k filter = (.ok message, next) ∧
      Exchanged c.network next k filter message ∧ k < next.links.length ∧
      (next.link k).Settled := by
  unfold exchange
  cases hframe : (Wire.Message.ofFilter filter).frame with
  | error fault => exact .inl ⟨_, _, rfl, frame_error_breaks hframe⟩
  | ok frame =>
    dsimp only
    rcases hsend : Network.send c.network k frame with ⟨fault | _, sent⟩
    · exact .inl ⟨_, _, rfl, ofNetwork_breaksConnection fault⟩
    · obtain ⟨hlink, hothers, hlength⟩ := Course.send_ok hk hsend
      have hksent : k < sent.links.length := hlength ▸ hk
      dsimp only
      rcases takeMessage_cases c.frameLimit (fun n => Network.receive n k) sent with
        ⟨fault, rest, htake, hbreaks⟩ |
        ⟨head, middle, body, rest, message, hhead, hbody, hdecode, htake⟩
      · exact .inl ⟨fault, rest, htake, hbreaks⟩
      · have hheard := (Course.begin_settled hsettled).hear frame
        rw [← hlink, Course.begin_requests] at hheard
        rcases hheard with ⟨hawaits, hasked⟩ | hover
        · obtain ⟨r, hr, rfl, hlast, hdone, hkrest, hrequests⟩ :=
            Course.receive_response hksent hawaits hhead hbody
          refine .inr ⟨message, rest, htake, ⟨⟨frame, hframe, ?_⟩, ?_, ?_⟩, hkrest, hdone⟩
          · rw [hrequests, hasked]
          · intro j hj
            rw [hrequests, hothers j hj]
          · exact ⟨r, List.mem_of_getLast? hlast, hr, hdecode⟩
        · exact absurd hhead (Course.receive_over hksent hover)

/-- The result comes from the index: events or a refusal. -/
def Told (result : Except ExchangeFault (List Event)) : Prop :=
  (∃ events, result = .ok events) ∨ ∃ reason, result = .error (.server reason)

theorem not_told_of_breaks {fault : ExchangeFault} (h : fault.breaksConnection = true) :
    ¬ Told (.error fault) := by
  rintro (⟨events, hresult⟩ | ⟨reason, hresult⟩)
  · cases hresult
  · cases hresult
    cases h

/-- A connection that the client holds is settled. -/
def Clean (c : Client Course) : Prop :=
  ∀ k : Nat, c.connection = some k → k < c.network.links.length ∧ (c.network.link k).Settled

theorem clean_of_none {c : Client Course} (h : c.connection = none) : c.Clean := by
  intro k hk
  rw [h] at hk
  cases hk

theorem Clean.connect {c : Client Course} (h : c.Clean) :
    (∃ fault next, c.connect = (.error (.ofNetwork fault), next) ∧ next.connection = none) ∨
    ∃ (k : Nat) (opened : Client Course), c.connect = (.ok k, opened) ∧
      opened.connection = some k ∧ k < opened.network.links.length ∧
      (opened.network.link k).Settled ∧
      ∀ j, (opened.network.link j).requests = (c.network.link j).requests := by
  unfold Client.connect
  cases hheld : c.connection with
  | some k =>
    obtain ⟨hk, hsettled⟩ := h k hheld
    exact .inr ⟨k, c, rfl, hheld, hk, hsettled, fun _ => rfl⟩
  | none =>
    dsimp only
    rcases hconnect : Network.connect c.network with ⟨fault | k, network⟩
    · exact .inl ⟨fault, _, rfl, rfl⟩
    · obtain ⟨hk, hfresh, hrequests⟩ := Course.connect_ok hconnect
      refine .inr ⟨k, _, rfl, rfl, hk, ?_, hrequests⟩
      change (network.link k).Settled
      rw [hfresh]
      exact Link.fresh_settled

/-- A query leaves the client clean, and what it was told it was told in answer to its
own request. -/
theorem Clean.query {c : Client Course} (h : c.Clean) (filter : String) :
    (c.query filter).2.Clean ∧ (Told (c.query filter).1 → ∃ k message,
      Exchanged c.network (c.query filter).2.network k filter message ∧
      message.events? = (c.query filter).1) := by
  unfold Client.query
  split
  · refine ⟨h, ?_⟩
    rintro (⟨events, hresult⟩ | ⟨reason, hresult⟩) <;> cases hresult
  · rcases h.connect with ⟨fault, next, hconnect, hnone⟩ |
      ⟨k, opened, hconnect, hheld, hk, hsettled, hrequests⟩
    · rw [ask_connect_error hconnect]
      exact ⟨clean_of_none hnone,
        fun htold => absurd htold (not_told_of_breaks (ofNetwork_breaksConnection fault))⟩
    · rcases exchange_cases hk hsettled filter with
        ⟨fault, network, hexchange, hbreaks⟩ |
        ⟨message, network, hexchange, hexchanged, hk', hsettled'⟩
      · rw [ask_exchange_error hconnect hexchange hbreaks]
        exact ⟨clean_of_none (disconnect_connection _),
          fun htold => absurd htold (not_told_of_breaks hbreaks)⟩
      · rw [ask_exchange_ok hconnect hexchange]
        refine ⟨?_, fun _ => ⟨k, message, hexchanged.of_requests hrequests, rfl⟩⟩
        intro j hj
        have hsame : k = j := Option.some.inj (hheld.symm.trans hj)
        rw [← hsame]
        exact ⟨hk', hsettled'⟩

theorem shutdown_clean (c : Client Course) : c.shutdown.Clean :=
  clean_of_none (disconnect_connection c)

theorem query_link_keeps {P : Link → Prop} (hP : Link.Kept P) (c : Client Course)
    (filter : String) {k : Nat} (h : P (c.network.link k)) :
    P ((c.query filter).2.network.link k) :=
  query_keeps (fun n : Course => P (n.link k)) (fun _ hn => Course.connect_keeps hP hn)
    (fun _ j frame hn => Course.send_keeps hP j frame hn)
    (fun _ j count hn => Course.receive_keeps hP j count hn) (fun _ _ hn => hn) c filter h

theorem shutdown_network (c : Client Course) : c.shutdown.network = c.network := by
  change c.disconnect.network = c.network
  unfold disconnect
  split <;> rfl

end Client
end EventTree
