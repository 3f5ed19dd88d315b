import EventTree.Remote.Frame
import EventTree.Proofs.Wire.Primitive
import Mathlib.Tactic.SplitIfs

/-!
# Reading one frame

A length in four bytes is read back as it was written. A message is read by taking four
bytes and then as many as they say; every other end of a reading is a fault after which
the connection is given up.
-/
namespace EventTree
open Wire

@[simp] theorem length_bigEndian32 (n : Nat) : (bigEndian32 n).length = 4 := by
  rw [bigEndian32, List.length_reverse, length_littleEndian]

theorem ofBigEndian_bigEndian32 {n : Nat} (h : n < 0x100000000) :
    ofBigEndian (bigEndian32 n) = n := by
  rw [ofBigEndian, bigEndian32, List.reverse_reverse]
  exact ofLittleEndian_littleEndian h

theorem ofNetwork_breaksConnection (fault : NetworkFault) :
    (ExchangeFault.ofNetwork fault).breaksConnection = true := by
  cases fault <;> rfl

/-- A reading ends in a fault that breaks the connection, or two takings are behind it. -/
theorem takeMessage_cases {σ : Type} (limit : Nat) (take : TakeBytes σ) (stream : σ) :
    (∃ fault rest, takeMessage limit take stream = (.error fault, rest) ∧
      fault.breaksConnection = true) ∨
    ∃ head middle body rest message, take stream 4 = (.ok (some head), middle) ∧
      take middle (ofBigEndian head) = (.ok (some body), rest) ∧
      Wire.Message.decode body = .ok message ∧
      takeMessage limit take stream = (.ok message, rest) := by
  unfold takeMessage
  rcases hhead : take stream 4 with ⟨fault | _ | head, middle⟩
  · exact .inl ⟨_, _, rfl, ofNetwork_breaksConnection fault⟩
  · exact .inl ⟨_, _, rfl, rfl⟩
  · dsimp only
    split_ifs with hlimit
    · exact .inl ⟨_, _, rfl, rfl⟩
    · rcases hbody : take middle (ofBigEndian head) with ⟨fault | _ | body, rest⟩
      · exact .inl ⟨_, _, rfl, ofNetwork_breaksConnection fault⟩
      · exact .inl ⟨_, _, rfl, rfl⟩
      · dsimp only
        cases hdecode : Wire.Message.decode body with
        | error fault => exact .inl ⟨_, _, rfl, rfl⟩
        | ok message => exact .inr ⟨head, middle, body, rest, message, rfl, hbody, hdecode, rfl⟩

/-- A stream that can be seen as another gives the same message. -/
theorem takeMessage_map {σ τ : Type} (f : σ → τ) (take : TakeBytes σ) (take' : TakeBytes τ)
    (htake : ∀ stream count,
      take' (f stream) count = ((take stream count).1, f (take stream count).2))
    (limit : Nat) (stream : σ) :
    takeMessage limit take' (f stream) =
      ((takeMessage limit take stream).1, f (takeMessage limit take stream).2) := by
  unfold takeMessage
  rw [htake]
  rcases take stream 4 with ⟨fault | _ | head, middle⟩
  · rfl
  · rfl
  · dsimp only
    split
    · rfl
    · rw [htake]
      rcases take middle (ofBigEndian head) with ⟨fault | _ | body, rest⟩ <;> rfl

/-- What every use of the network keeps is kept by a message that is taken. -/
theorem takeMessage_keeps {σ : Type} (P : σ → Prop) {take : TakeBytes σ}
    (htake : ∀ stream count, P stream → P (take stream count).2) (limit : Nat) {stream : σ}
    (h : P stream) : P (takeMessage limit take stream).2 := by
  unfold takeMessage
  have hhead := htake stream 4 h
  rcases hs : take stream 4 with ⟨_ | _ | head, middle⟩ <;> rw [hs] at hhead
  · exact hhead
  · exact hhead
  · dsimp only
    split
    · exact hhead
    · have hbody := htake middle (ofBigEndian head) hhead
      rcases hm : take middle (ofBigEndian head) with ⟨_ | _ | body, rest⟩ <;>
        rw [hm] at hbody <;> exact hbody

end EventTree
