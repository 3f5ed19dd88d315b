import EventTree.Proofs.Remote.Course
import EventTree.Proofs.Remote.Framing
import Mathlib.Data.List.Infix

/-!
# What a connection owes

A connection is settled when the index owes nothing on it and nothing is left to take.
A request on a settled connection is owed one response at most, and it begins right where
the client reads; when the whole frame is taken the connection is settled again.
-/
namespace EventTree

namespace Link

/-! ## What a link owes -/

structure Settled (l : Link) : Prop where
  taken : l.unread = []
  whole : l.torn = false
  answered : l.passed = l.requests.length

/-- The last request is answered, and `taken` bytes of the response are taken. -/
structure Holds (l : Link) (r : Response) (taken : Nat) : Prop where
  last : l.responses.getLast? = some r
  whole : l.torn = false
  asked : l.requests.length = r.request + 1
  short : r.body.length < 0x100000000
  rest : l.unread <+: r.frame.drop taken

/-- The last request is not answered, or nothing of the response is taken. -/
def Awaits (l : Link) (request : Nat) : Prop :=
  (l.unread = [] ∧ l.torn = false ∧ l.passed = request ∧ l.requests.length = request + 1) ∨
    ∃ r, r.request = request ∧ l.Holds r 0

/-- The index has hung up and everything is taken. -/
def Over (l : Link) : Prop := l.unread = [] ∧ l.ended = true

theorem fresh_settled : Settled .fresh := ⟨rfl, rfl, rfl⟩

theorem Holds.passed_eq {l : Link} {r : Response} {taken : Nat} (h : l.Holds r taken) :
    l.passed = r.request + 1 := by
  simp only [passed, h.last]

theorem Holds.settled {l : Link} {r : Response} (h : l.Holds r r.frame.length) : l.Settled where
  taken := by
    have hrest := h.rest
    rw [List.drop_length] at hrest
    exact List.prefix_nil.1 hrest
  whole := h.whole
  answered := by rw [h.passed_eq, h.asked]

@[simp] theorem after_requests (l : Link) (move : ServerMove) :
    (l.after move).requests = l.requests := by
  cases move with
  | hangUp => rfl
  | _ =>
    unfold after
    dsimp only
    split <;> rfl

/-- The index has nothing to say on a link without an open request, other than farewell. -/
theorem after_of_passed {l : Link} (h : l.passed = l.requests.length) (move : ServerMove) :
    l.after move = l ∨ l.after move = { l with ended := true } := by
  have hadmits : ∀ r, ¬ l.Admits r := by
    intro r hr
    have hlow := hr.2.1
    have hhigh := hr.2.2.1
    omega
  cases move with
  | answer r => exact .inl (if_neg (hadmits r))
  | cut r count => exact .inl (if_neg (hadmits r))
  | hangUp => exact .inr rfl

theorem Settled.after {l : Link} (h : l.Settled) (move : ServerMove) : (l.after move).Settled := by
  rcases after_of_passed h.answered move with heq | heq <;> rw [heq]
  · exact h
  · exact ⟨h.taken, h.whole, h.answered⟩

theorem Holds.after {l : Link} {r : Response} {taken : Nat} (h : l.Holds r taken)
    (move : ServerMove) : (l.after move).Holds r taken := by
  have hpassed : l.passed = l.requests.length := by rw [h.passed_eq, h.asked]
  rcases after_of_passed hpassed move with heq | heq <;> rw [heq]
  · exact h
  · exact ⟨h.last, h.whole, h.asked, h.short, h.rest⟩

theorem Over.after {l : Link} (h : l.Over) (move : ServerMove) : (l.after move).Over := by
  have hadmits : ∀ r, ¬ l.Admits r := by
    intro r hr
    have hopen := hr.1
    rw [h.2] at hopen
    cases hopen
  cases move with
  | answer r =>
    rw [Link.after, if_neg (hadmits r)]
    exact h
  | cut r count =>
    rw [Link.after, if_neg (hadmits r)]
    exact h
  | hangUp => exact ⟨h.1, rfl⟩

/-- The only response that may come is the one to the last request, from its first byte. -/
theorem Admits.holds {l : Link} {r : Response} (h : l.Admits r) (hwhole : l.torn = false)
    (hpassed : l.requests.length = l.passed + 1) {unread : Bytes} (hunread : unread <+: r.frame)
    (ended : Bool) :
    r.request = l.passed ∧
      ({ l with responses := l.responses ++ [r], unread, ended } : Link).Holds r 0 := by
  obtain ⟨-, hlow, hhigh, hshort⟩ := h
  have hrequest : r.request = l.passed := by omega
  refine ⟨hrequest, List.getLast?_concat, hwhole, ?_, hshort, hunread⟩
  change l.requests.length = r.request + 1
  rw [hpassed, hrequest]

theorem Awaits.after {l : Link} {request : Nat} (h : l.Awaits request) (move : ServerMove) :
    (l.after move).Awaits request := by
  rcases h with ⟨hunread, hwhole, rfl, hasked⟩ | ⟨r, hr, hholds⟩
  · have hopen : l.Awaits l.passed := .inl ⟨hunread, hwhole, rfl, hasked⟩
    cases move with
    | answer r =>
      unfold Link.after
      dsimp only
      split
      · next hr =>
        refine .inr ⟨r, hr.holds hwhole hasked ?_ _⟩
        rw [hunread]
        exact List.prefix_rfl
      · exact hopen
    | cut r count =>
      unfold Link.after
      dsimp only
      split
      · next hr =>
        refine .inr ⟨r, hr.holds hwhole hasked ?_ _⟩
        rw [hunread]
        exact List.take_prefix count r.frame
      · exact hopen
    | hangUp => exact .inl ⟨hunread, hwhole, rfl, hasked⟩
  · exact .inr ⟨r, hr, hholds.after move⟩

theorem Holds.skip {l : Link} {r : Response} {taken : Nat} (h : l.Holds r taken) (count : Nat) :
    (l.skip count).Holds r (taken + count) where
  last := h.last
  whole := h.whole
  asked := h.asked
  short := h.short
  rest := by
    rw [← List.drop_drop]
    exact h.rest.drop count

/-- A request on a settled link is owed a response, unless nobody hears it. -/
theorem Settled.hear {l : Link} (h : l.Settled) (frame : Bytes) :
    ((l.hear frame).Awaits l.requests.length ∧
      (l.hear frame).requests = l.requests ++ [frame]) ∨ (l.hear frame).Over := by
  unfold Link.hear
  by_cases hended : l.ended = true
  · rw [if_pos (.inl hended)]
    exact .inr ⟨h.taken, hended⟩
  · have hlost : ¬ (l.ended = true ∨ l.torn = true) := by
      rw [h.whole]
      simpa using hended
    rw [if_neg hlost]
    refine .inl ⟨.inl ⟨h.taken, h.whole, h.answered, ?_⟩, rfl⟩
    exact List.length_append

end Link

/-! ## Uses of the network -/

namespace Course

theorem begin_requests (c : Course) (k : Nat) :
    (c.begin.link k).requests = (c.link k).requests :=
  link_begin (·.requests = (c.link k).requests)
    (fun l move h => (l.after_requests move).trans h) rfl

theorem begin_settled {c : Course} {k : Nat} (h : (c.link k).Settled) :
    (c.begin.link k).Settled :=
  link_begin Link.Settled (fun _ move hl => hl.after move) h

theorem receive_next (c : Course) (k count : Nat) :
    ∃ n, (c.receive k count).2 = c.begin.modify k (·.skip n) := by
  unfold receive
  split
  · exact ⟨_, rfl⟩
  · exact ⟨_, rfl⟩

/-- Taking bytes makes no connection and asks for nothing. -/
theorem receive_asks_nothing {c next : Course} {k count : Nat}
    {result : Except NetworkFault (Option Bytes)} (h : c.receive k count = (result, next)) :
    next.links.length = c.links.length ∧ ∀ j, (next.link j).requests = (c.link j).requests := by
  obtain ⟨n, hnext⟩ := c.receive_next k count
  rw [h] at hnext
  dsimp only at hnext
  rw [hnext]
  refine ⟨by rw [length_modify, length_begin], fun j => ?_⟩
  rw [link_modify]
  split
  · exact c.begin_requests j
  · exact c.begin_requests j

/-- Bytes that were taken stood at the front of what had come. -/
theorem receive_some {c next : Course} {k count : Nat} {bytes : Bytes} (hk : k < c.links.length)
    (h : c.receive k count = (.ok (some bytes), next)) :
    bytes = (c.begin.link k).unread.take count ∧ count ≤ (c.begin.link k).unread.length ∧
      next.link k = (c.begin.link k).skip count := by
  unfold receive at h
  split at h
  · cases h
  · dsimp only at h
    split at h
    · next hcount =>
      cases h
      refine ⟨rfl, hcount, ?_⟩
      rw [link_modify, length_begin, if_pos ⟨rfl, hk⟩]
    · split at h <;> cases h

/-- The first four bytes behind a request are the length of the response to it. -/
theorem receive_head {c next : Course} {k request : Nat} {head : Bytes}
    (hk : k < c.links.length) (hawaits : (c.link k).Awaits request)
    (h : c.receive k 4 = (.ok (some head), next)) :
    ∃ r, r.request = request ∧ head = bigEndian32 r.body.length ∧ (next.link k).Holds r 4 := by
  obtain ⟨hhead, hcount, hnext⟩ := receive_some hk h
  have hbegun : (c.begin.link k).Awaits request :=
    link_begin (·.Awaits request) (fun _ move h => h.after move) hawaits
  rcases hbegun with ⟨hunread, -⟩ | ⟨r, hr, hholds⟩
  · rw [hunread] at hcount
    cases hcount
  · refine ⟨r, hr, ?_, ?_⟩
    · obtain ⟨rest, hrest⟩ := hholds.rest
      rw [List.drop_zero] at hrest
      have htake : head = r.frame.take 4 := by
        rw [hhead, ← hrest, List.take_append_of_le_length hcount]
      rw [htake, Response.frame, List.take_left' (length_bigEndian32 _)]
    · rw [hnext, ← Nat.zero_add 4]
      exact hholds.skip 4

theorem receive_body {c next : Course} {k : Nat} {r : Response} {body : Bytes}
    (hk : k < c.links.length) (hholds : (c.link k).Holds r 4)
    (h : c.receive k r.body.length = (.ok (some body), next)) :
    body = r.body ∧ (next.link k).responses.getLast? = some r ∧ (next.link k).Settled := by
  obtain ⟨hbody, hcount, hnext⟩ := receive_some hk h
  have hheld : (c.begin.link k).Holds r 4 :=
    link_begin (·.Holds r 4) (fun _ move h => h.after move) hholds
  have hrest : r.frame.drop 4 = r.body := List.drop_left' (length_bigEndian32 _)
  have hlength : r.frame.length = 4 + r.body.length := by
    rw [Response.frame, List.length_append, length_bigEndian32]
  have htaken : (next.link k).Holds r r.frame.length := by
    rw [hnext, hlength]
    exact hheld.skip _
  refine ⟨?_, htaken.last, htaken.settled⟩
  have hprefix := hheld.rest
  rw [hrest] at hprefix
  have hwhole : (c.begin.link k).unread = r.body :=
    hprefix.eq_of_length (Nat.le_antisymm hprefix.length_le hcount)
  rw [hbody, hwhole, List.take_length]

/-- A frame that is taken behind a request is the response to it. -/
theorem receive_response {sent middle rest : Course} {k request : Nat} {head body : Bytes}
    (hk : k < sent.links.length) (hawaits : (sent.link k).Awaits request)
    (hhead : sent.receive k 4 = (.ok (some head), middle))
    (hbody : middle.receive k (ofBigEndian head) = (.ok (some body), rest)) :
    ∃ r, r.request = request ∧ body = r.body ∧ (rest.link k).responses.getLast? = some r ∧
      (rest.link k).Settled ∧ k < rest.links.length ∧
      ∀ j, (rest.link j).requests = (sent.link j).requests := by
  obtain ⟨r, hr, rfl, hholds⟩ := receive_head hk hawaits hhead
  rw [ofBigEndian_bigEndian32 hholds.short] at hbody
  obtain ⟨hmiddle, hasked⟩ := receive_asks_nothing hhead
  obtain ⟨hrest, hasked'⟩ := receive_asks_nothing hbody
  have hkmiddle : k < middle.links.length := hmiddle ▸ hk
  obtain ⟨hsame, hlast, hdone⟩ := receive_body hkmiddle hholds hbody
  exact ⟨r, hr, hsame, hlast, hdone, hrest ▸ hkmiddle, fun j => (hasked' j).trans (hasked j)⟩

/-- Nothing more comes from an index that has hung up. -/
theorem receive_over {c next : Course} {k : Nat} {head : Bytes} (hk : k < c.links.length)
    (hover : (c.link k).Over) : c.receive k 4 ≠ (.ok (some head), next) := by
  intro h
  obtain ⟨-, hcount, -⟩ := receive_some hk h
  have hbegun : (c.begin.link k).Over := link_begin Link.Over (fun _ move h => h.after move) hover
  rw [hbegun.1] at hcount
  cases hcount

theorem send_ok {c next : Course} {k : Nat} {frame : Bytes} (hk : k < c.links.length)
    (h : c.send k frame = (.ok (), next)) :
    next.link k = (c.begin.link k).hear frame ∧
      (∀ j ≠ k, (next.link j).requests = (c.link j).requests) ∧
      next.links.length = c.links.length := by
  unfold send at h
  split at h
  · cases h
  · cases h
    refine ⟨?_, ?_, ?_⟩
    · rw [link_modify, length_begin, if_pos ⟨rfl, hk⟩]
    · intro j hj
      rw [link_modify, if_neg fun h => hj h.1]
      exact c.begin_requests j
    · rw [length_modify, length_begin]

/-- A new connection is fresh, and so is every place behind the connections there are. -/
theorem connect_ok {c next : Course} {k : Nat} (h : c.connect = (.ok k, next)) :
    k < next.links.length ∧ next.link k = .fresh ∧
      ∀ j, (next.link j).requests = (c.link j).requests := by
  unfold connect at h
  split at h
  · cases h
  · cases h
    refine ⟨?_, ?_, ?_⟩
    · rw [List.length_append]
      exact Nat.lt_succ_self _
    · rw [link_append, link, List.getElem?_eq_none (Nat.le_refl _)]
      rfl
    · intro j
      rw [link_append]
      exact c.begin_requests j

end Course
end EventTree
