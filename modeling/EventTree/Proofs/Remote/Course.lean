import EventTree.Remote.Frame
import EventTree.Remote.Network

/-!
# Courses of outside events

A network under an index that answers in the order of the requests, each at most once
and none before it was received. It may pass requests over, answer at any later time,
put anything into a frame, or hang up, also within a frame. The network may fail or run
out of time at any use, with a part of the bytes sent or taken.

A course fixes all of this beforehand, use by use, so what holds for every course holds
whatever happens outside of the client. Bytes that arrive in pieces need no event of
their own: to the client they are bytes that are all there in time or a use that failed.
-/
namespace EventTree

/-- What the index sent for the request at a place among those of its connection. -/
structure Response where
  request : Nat
  body : Bytes
deriving DecidableEq, Repr

def Response.frame (r : Response) : Bytes := bigEndian32 r.body.length ++ r.body

/-- A connection as it is seen from outside. -/
structure Link where
  /-- The frames that were sent over it as a whole. -/
  requests : List Bytes := []
  /-- A frame was cut short, so nothing behind it can be made out. -/
  torn : Bool := false
  responses : List Response := []
  /-- Bytes that have come from the index and are not yet taken. -/
  unread : Bytes := []
  /-- The index has hung up. -/
  ended : Bool := false
deriving DecidableEq, Repr

inductive ServerMove where
  | answer (response : Response)
  /-- Hangs up after a part of the frame. -/
  | cut (response : Response) (count : Nat)
  | hangUp
deriving DecidableEq, Repr

namespace Link

def fresh : Link := {}

/-- The requests that are answered or passed over. -/
def passed (l : Link) : Nat :=
  match l.responses.getLast? with
  | none => 0
  | some r => r.request + 1

/-- The index may send this response. -/
def Admits (l : Link) (r : Response) : Prop :=
  l.ended = false ∧ l.passed ≤ r.request ∧ r.request < l.requests.length ∧
    r.body.length < 0x100000000

instance (l : Link) (r : Response) : Decidable (l.Admits r) :=
  inferInstanceAs (Decidable (_ ∧ _))

/-- A move that the index may not make does nothing. -/
def after (l : Link) : ServerMove → Link
  | .answer r =>
    if l.Admits r then
      { l with responses := l.responses ++ [r], unread := l.unread ++ r.frame }
    else l
  | .cut r count =>
    if l.Admits r then
      { l with
        responses := l.responses ++ [r]
        unread := l.unread ++ r.frame.take count
        ended := true }
    else l
  | .hangUp => { l with ended := true }

/-- A whole frame arrives, unless it is lost. -/
def hear (l : Link) (frame : Bytes) : Link :=
  if l.ended ∨ l.torn then l else { l with requests := l.requests ++ [frame] }

def tear (l : Link) : Link := { l with torn := true }

/-- The first `count` bytes of a frame arrive. -/
def hearPart (l : Link) (frame : Bytes) (count : Nat) : Link :=
  if frame.length ≤ count then l.hear frame else if count = 0 then l else l.tear

def skip (l : Link) (count : Nat) : Link := { l with unread := l.unread.drop count }

end Link

/-- What happens at one use of the network: the moves of the index on its connections,
then perhaps a fault, before which `progress` bytes were sent or taken. -/
structure Turn where
  moves : List (Nat × ServerMove) := []
  fault : Option NetworkFault := none
  progress : Nat := 0
deriving DecidableEq, Repr

/-- A network with the turns to come. Behind the last, nothing happens any more. -/
structure Course where
  links : List Link := []
  turns : List Turn := []
deriving DecidableEq, Repr

namespace Course

def link (c : Course) (k : Nat) : Link := (c.links[k]?).getD .fresh

def modify (c : Course) (k : Nat) (f : Link → Link) : Course :=
  { c with links := c.links.modify k f }

def move (c : Course) (m : Nat × ServerMove) : Course := c.modify m.1 (·.after m.2)

def turn (c : Course) : Turn := c.turns.headD {}

/-- The network after the moves of the turn. -/
def begin (c : Course) : Course := c.turn.moves.foldl move { c with turns := c.turns.tail }

def connect (c : Course) : Except NetworkFault Nat × Course :=
  match c.turn.fault with
  | some fault => (.error fault, c.begin)
  | none => (.ok c.begin.links.length, { c.begin with links := c.begin.links ++ [.fresh] })

def send (c : Course) (k : Nat) (frame : Bytes) : Except NetworkFault Unit × Course :=
  match c.turn.fault with
  | some fault => (.error fault, c.begin.modify k (·.hearPart frame c.turn.progress))
  | none => (.ok (), c.begin.modify k (·.hear frame))

/-- Bytes that are not there will not come: this is the turn that waited for them. -/
def receive (c : Course) (k count : Nat) : Except NetworkFault (Option Bytes) × Course :=
  match c.turn.fault with
  | some fault => (.error fault, c.begin.modify k (·.skip (min c.turn.progress count)))
  | none =>
    let l := c.begin.link k
    (if count ≤ l.unread.length then .ok (some (l.unread.take count))
      else if l.ended then .ok none
      else .error .timeout,
      c.begin.modify k (·.skip count))

instance : Network Course where
  Connection := Nat
  connect := connect
  send := send
  receive := receive
  close c _ := c

/-! ## Links after a use -/

theorem link_modify (c : Course) (k j : Nat) (f : Link → Link) :
    (c.modify k f).link j = if j = k ∧ k < c.links.length then f (c.link j) else c.link j := by
  unfold link modify
  rw [List.getElem?_modify]
  by_cases hj : k = j
  · subst hj
    by_cases hk : k < c.links.length
    · simp [hk]
    · simp [hk]
  · have hne : ¬ (j = k ∧ k < c.links.length) := fun h => hj h.1.symm
    rw [if_neg hne]
    simp [hj]

@[simp] theorem length_modify (c : Course) (k : Nat) (f : Link → Link) :
    (c.modify k f).links.length = c.links.length :=
  List.length_modify f c.links k

/-- A place behind the connections there are is like a fresh one. -/
theorem link_append (links : List Link) (turns : List Turn) (k : Nat) :
    link ⟨links ++ [.fresh], turns⟩ k = link ⟨links, turns⟩ k := by
  unfold link
  rcases Nat.lt_or_ge k links.length with hk | hk
  · rw [List.getElem?_append_left hk]
  · rw [List.getElem?_append_right hk, List.getElem?_eq_none hk]
    cases k - links.length <;> rfl

/-- What every move keeps is kept by a turn. -/
theorem link_begin (P : Link → Prop) (hP : ∀ l move, P l → P (l.after move)) {c : Course}
    {k : Nat} (h : P (c.link k)) : P (c.begin.link k) := by
  unfold begin
  have hstart : P (({ c with turns := c.turns.tail } : Course).link k) := h
  generalize ({ c with turns := c.turns.tail } : Course) = d at hstart
  induction c.turn.moves generalizing d with
  | nil => exact hstart
  | cons m rest ih =>
    apply ih
    rw [move, link_modify]
    split
    · exact hP _ _ hstart
    · exact hstart

@[simp] theorem length_begin (c : Course) : c.begin.links.length = c.links.length := by
  unfold begin
  have hstart : ({ c with turns := c.turns.tail } : Course).links.length = c.links.length := rfl
  generalize ({ c with turns := c.turns.tail } : Course) = d at hstart
  induction c.turn.moves generalizing d with
  | nil => exact hstart
  | cons m rest ih =>
    apply ih
    rw [move, length_modify]
    exact hstart

end Course

/-! ## What every use of the network keeps -/

structure Link.Kept (P : Link → Prop) : Prop where
  after : ∀ l move, P l → P (l.after move)
  hear : ∀ l frame, P l → P (l.hear frame)
  tear : ∀ l, P l → P l.tear
  skip : ∀ l count, P l → P (l.skip count)

theorem Link.Kept.hearPart {P : Link → Prop} (hP : Kept P) (l : Link) (frame : Bytes)
    (count : Nat) (h : P l) : P (l.hearPart frame count) := by
  unfold Link.hearPart
  split
  · exact hP.hear l frame h
  · split
    · exact h
    · exact hP.tear l h

namespace Course
variable {P : Link → Prop} {c : Course} {k : Nat}

theorem link_modify_keeps (j : Nat) {f : Link → Link} (hf : ∀ l, P l → P (f l))
    (h : P (c.link k)) : P ((c.modify j f).link k) := by
  rw [link_modify]
  split
  · exact hf _ h
  · exact h

theorem connect_keeps (hP : Link.Kept P) (h : P (c.link k)) : P (c.connect.2.link k) := by
  have hbegun := link_begin P hP.after h
  unfold connect
  split
  · exact hbegun
  · rw [link_append]
    exact hbegun

theorem send_keeps (hP : Link.Kept P) (j : Nat) (frame : Bytes) (h : P (c.link k)) :
    P ((c.send j frame).2.link k) := by
  have hbegun := link_begin P hP.after h
  unfold send
  split
  · exact link_modify_keeps j (fun l hl => hP.hearPart l frame _ hl) hbegun
  · exact link_modify_keeps j (fun l hl => hP.hear l frame hl) hbegun

theorem receive_keeps (hP : Link.Kept P) (j count : Nat) (h : P (c.link k)) :
    P ((c.receive j count).2.link k) := by
  have hbegun := link_begin P hP.after h
  unfold receive
  split
  · exact link_modify_keeps j (fun l hl => hP.skip l _ hl) hbegun
  · exact link_modify_keeps j (fun l hl => hP.skip l _ hl) hbegun

end Course

namespace Link

/-- Requests and responses are only added. -/
structure Extends (l m : Link) : Prop where
  requests : l.requests <+: m.requests
  responses : l.responses <+: m.responses

theorem Extends.refl (l : Link) : l.Extends l := ⟨List.prefix_rfl, List.prefix_rfl⟩

theorem extends_kept (l : Link) : Kept l.Extends where
  after := by
    intro m move h
    cases move with
    | hangUp => exact ⟨h.requests, h.responses⟩
    | _ =>
      unfold Link.after
      dsimp only
      split
      · exact ⟨h.requests, h.responses.trans (List.prefix_append _ _)⟩
      · exact h
  hear := by
    intro m frame h
    unfold Link.hear
    split
    · exact h
    · exact ⟨h.requests.trans (List.prefix_append _ _), h.responses⟩
  tear := fun _ h => ⟨h.requests, h.responses⟩
  skip := fun _ _ h => ⟨h.requests, h.responses⟩

/-- Responses are to requests of the link, in their order and one to each at most. -/
structure Ordered (l : Link) : Prop where
  ascending : l.responses.Pairwise (·.request < ·.request)
  asked : ∀ r ∈ l.responses, r.request < l.requests.length

theorem fresh_ordered : Ordered .fresh := ⟨.nil, nofun⟩

theorem request_lt_passed {l : Link} (h : l.Ordered) {r : Response} (hr : r ∈ l.responses) :
    r.request < l.passed := by
  unfold passed
  cases hlast : l.responses.getLast? with
  | none =>
    rw [List.getLast?_eq_none_iff.1 hlast] at hr
    cases hr
  | some last =>
    change r.request < last.request + 1
    obtain ⟨front, hfront⟩ := List.getLast?_eq_some_iff.1 hlast
    have hascending := h.ascending
    rw [hfront, List.pairwise_append] at hascending
    rw [hfront] at hr
    rcases List.mem_append.1 hr with hr | hr
    · have hlt := hascending.2.2 r hr last List.mem_cons_self
      omega
    · rw [List.mem_singleton.1 hr]
      exact Nat.lt_succ_self _

theorem Ordered.add {l : Link} (h : l.Ordered) {r : Response} (hr : l.Admits r) {unread : Bytes}
    {ended : Bool} :
    ({ l with responses := l.responses ++ [r], unread, ended } : Link).Ordered := by
  obtain ⟨-, hlow, hhigh, -⟩ := hr
  constructor
  · refine List.pairwise_append.2 ⟨h.ascending, List.pairwise_singleton _ _, ?_⟩
    intro a ha b hb
    have hlt := request_lt_passed h ha
    rw [List.mem_singleton.1 hb]
    omega
  · intro s hs
    rcases List.mem_append.1 hs with hs | hs
    · exact h.asked s hs
    · rw [List.mem_singleton.1 hs]
      exact hhigh

theorem ordered_kept : Kept Ordered where
  after := by
    intro l move h
    cases move with
    | hangUp => exact ⟨h.ascending, h.asked⟩
    | _ =>
      unfold Link.after
      dsimp only
      split
      · next hr => exact h.add hr
      · exact h
  hear := by
    intro l frame h
    unfold Link.hear
    split
    · exact h
    · exact ⟨h.ascending, fun r hr => List.length_append ▸ Nat.lt_add_right _ (h.asked r hr)⟩
  tear := fun _ h => ⟨h.ascending, h.asked⟩
  skip := fun _ _ h => ⟨h.ascending, h.asked⟩

/-- A request has one response at most. -/
theorem Ordered.unique {l : Link} (h : l.Ordered) :
    ∀ r ∈ l.responses, ∀ s ∈ l.responses, r.request = s.request → r = s := by
  apply List.Pairwise.forall_of_forall_of_flip
  · intro r _ _
    rfl
  · refine h.ascending.imp fun hlt hsame => ?_
    omega
  · refine h.ascending.imp fun hlt hsame => ?_
    omega

end Link
end EventTree
