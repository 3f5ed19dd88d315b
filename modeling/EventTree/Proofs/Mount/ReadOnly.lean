import EventTree.Index.Scripted
import EventTree.Proofs.Mount.Handles
import EventTree.Proofs.Tree.Nodes
import EventTree.Proofs.Tree.Operations

/-!
# Opens that ask for writing

Nothing is ever opened for writing. An open that asks for it is refused before its path is
looked at, and no other open is refused for that reason.

The access is one number of two bits and not two flags. It asks for writing as a 1 or as
a 2. With both bits set it is none of the accesses that there are: it asks for nothing, and
such an open is served as one for reading is.
-/
namespace EventTree

namespace OpenMode

/-! ## Bits of flags -/

section
variable {x p q : UInt32}

theorem and_or_distrib (x p q : UInt32) : x &&& (p ||| q) = (x &&& p) ||| (x &&& q) :=
  UInt32.toBitVec_inj.1 BitVec.and_or_distrib_left

theorem and_or_eq_zero_iff : x &&& (p ||| q) = 0 ↔ x &&& p = 0 ∧ x &&& q = 0 := by
  rw [and_or_distrib, UInt32.or_eq_zero_iff]

theorem or_and_left (p q : UInt32) : (p ||| q) &&& p = p := by
  apply UInt32.toBitVec_inj.1
  ext i hi
  simp only [UInt32.toBitVec_and, UInt32.toBitVec_or, BitVec.getElem_and, BitVec.getElem_or,
    Bool.and_eq_right_iff_imp, Bool.or_eq_true]
  exact Or.inl

theorem or_and_right (p q : UInt32) : (p ||| q) &&& q = q := by
  rw [UInt32.or_comm, or_and_left]

/-- Of two masks without a common bit, the first is all that is set. -/
theorem and_or_eq_left_iff (h : p &&& q = 0) :
    x &&& (p ||| q) = p ↔ x &&& p = p ∧ x &&& q = 0 := by
  constructor
  · intro hp
    constructor
    · calc x &&& p = x &&& (p ||| q) &&& p := by rw [UInt32.and_assoc, or_and_left]
        _ = p := by rw [hp, UInt32.and_self]
    · calc x &&& q = x &&& (p ||| q) &&& q := by rw [UInt32.and_assoc, or_and_right]
        _ = 0 := by rw [hp, h]
  · rintro ⟨hp, hq⟩
    rw [and_or_distrib, hp, hq, UInt32.or_zero]

/-- Two bits are a number below four. -/
theorem and_three_cases (x : UInt32) :
    x &&& 3 = 0 ∨ x &&& 3 = 1 ∨ x &&& 3 = 2 ∨ x &&& 3 = 3 := by
  have hle : (x &&& 3).toNat ≤ 3 := by
    rw [UInt32.toNat_and]
    exact Nat.and_le_right
  simp only [← UInt32.toNat_inj]
  change _ = 0 ∨ _ = 1 ∨ _ = 2 ∨ _ = 3
  omega

end

def writeOnlyBit : UInt32 := 1
def readWriteBit : UInt32 := 2

/-- The bits of the access. -/
def accessBits : UInt32 := writeOnlyBit ||| readWriteBit

/-- The bits that ask for writing whatever the access is. -/
def changeBits : UInt32 := appendBit ||| createBit ||| truncateBit

/-- All bits by which an open can ask for writing. -/
def writeBits : UInt32 := accessBits ||| changeBits

theorem wantsWriting_ofFlags (flags : Int32) :
    (ofFlags flags).wantsWriting = true ↔
      (flags.toUInt32 &&& accessBits = 1 ∨ flags.toUInt32 &&& accessBits = 2) ∨
        flags.toUInt32 &&& changeBits ≠ 0 := by
  have haccess : accessBits = 3 := rfl
  simp only [wantsWriting, ofFlags, changeBits, haccess, Ne, and_or_eq_zero_iff, Bool.or_eq_true,
    beq_iff_eq, bne_iff_ne, not_and_or, or_assoc]

/-- The flags that ask for writing are those with a bit of writing, but for those in which
the two bits of the access stand and no other. -/
theorem wantsWriting_ofFlags_iff (flags : Int32) :
    (ofFlags flags).wantsWriting = true ↔
      flags.toUInt32 &&& writeBits ≠ 0 ∧ flags.toUInt32 &&& writeBits ≠ accessBits := by
  have hzero : flags.toUInt32 &&& writeBits = 0 ↔
      flags.toUInt32 &&& accessBits = 0 ∧ flags.toUInt32 &&& changeBits = 0 := and_or_eq_zero_iff
  have hboth : flags.toUInt32 &&& writeBits = accessBits ↔
      flags.toUInt32 &&& accessBits = accessBits ∧ flags.toUInt32 &&& changeBits = 0 :=
    and_or_eq_left_iff rfl
  have haccess : accessBits = 3 := rfl
  rw [wantsWriting_ofFlags, Ne, Ne, Ne, hzero, hboth, haccess]
  rcases and_three_cases flags.toUInt32 with h | h | h | h <;> simp [h]

end OpenMode

/-! ## The tree -/

theorem Inquiry.run_ask_fault {σ : Type} [QuerySource σ] {policy : FailurePolicy} {source : σ}
    {filter : String} {use : List Event → Except TreeFault α} {fault : TreeFault}
    (h : ((ask filter use).run policy source).1 = .error fault) :
    (∃ reason, fault = .query reason) ∨ ∃ events, use events = .error fault := by
  rw [run_ask] at h
  rcases conclude_cases policy (QuerySource.query source filter).1 with
    ⟨events, hused⟩ | ⟨reason, hfailed⟩
  · exact .inr ⟨events, (hused use).symm.trans h⟩
  · rw [hfailed] at h
    exact .inl ⟨reason, (Except.error.inj h).symm⟩

namespace TreeView

theorem fieldContent_permitted {path : Path} {filter name : String} {events : List Event}
    {fault : TreeFault} (h : fieldContent path filter name events = .error fault) :
    fault.errorNumber ≠ .notPermitted := by
  rcases fieldContent_error h with rfl | rfl | ⟨count, rfl⟩ <;> nofun

theorem node_permitted {path : Path} {fault : TreeFault} (h : path.node = .error fault) :
    fault.errorNumber ≠ .notPermitted := by
  rcases Path.node_error h with rfl | rfl <;> nofun

/-- No fault of an open without a wish to write says that it is not permitted. -/
theorem content_permitted {σ : Type} [QuerySource σ] {policy : FailurePolicy} {source : σ}
    {path : Path} {mode : OpenMode} (hmode : ¬mode.wantsWriting = true) {fault : TreeFault}
    (h : ((content path mode).run policy source).1 = .error fault) :
    fault.errorNumber ≠ .notPermitted := by
  rw [content, if_neg hmode] at h
  cases hnode : path.node with
  | error reason =>
    rw [hnode] at h
    cases h
    exact node_permitted hnode
  | ok node =>
    rw [hnode] at h
    cases node with
    | field selector name =>
      rw [Inquiry.run_map] at h
      cases hask : ((askField path selector name).run policy source).1 with
      | ok answer =>
        rw [hask] at h
        cases h
      | error reason =>
        rw [hask] at h
        cases h
        rcases Inquiry.run_ask_fault hask with ⟨reason, rfl⟩ | ⟨events, huse⟩
        · nofun
        · exact fieldContent_permitted huse
    | _ =>
      cases h
      nofun

end TreeView

/-! ## The mount -/

namespace Mount
variable {σ : Type} [QuerySource σ]

/-- An open of a tracked number that asks for writing is refused, whatever is or is not at
its path; nothing is asked of the index and the mount stays as it is. Any other open is
not refused in that way. The flags in which of all bits of writing the two of the access
stand alone are among the others. -/
theorem openFile_refuses_writing (m : Mount) (source : σ) (inode : Nat) (flags : Int32) :
    let asked := flags.toUInt32 &&& OpenMode.writeBits
    (∀ path, m.inodes.pathOf? inode = some path → asked ≠ 0 → asked ≠ OpenMode.accessBits →
      m.openFile source inode flags = (.error .notPermitted, m, source)) ∧
    (asked = 0 ∨ asked = OpenMode.accessBits →
      (m.openFile source inode flags).1 ≠ .error .notPermitted) := by
  intro asked
  constructor
  · intro path hpath hwrite haccess
    have hmode := (OpenMode.wantsWriting_ofFlags_iff flags).2 ⟨hwrite, haccess⟩
    apply openFile_error hpath
    rw [TreeView.content, if_pos hmode]
    rfl
  · intro hread
    have hmode : ¬(OpenMode.ofFlags flags).wantsWriting = true := by
      rw [OpenMode.wantsWriting_ofFlags_iff]
      rintro ⟨hwrite, haccess⟩
      exact hread.elim hwrite haccess
    cases hpath : m.inodes.pathOf? inode with
    | none =>
      simp only [openFile, hpath]
      rintro ⟨⟩
    | some path =>
      rcases hrun : (TreeView.content path (.ofFlags flags)).run m.policy source with
        ⟨fault | content, next⟩
      · rw [openFile_error hpath (inquire_eq hrun)]
        intro hrefused
        have hfault := congrArg Prod.fst hrun
        exact TreeView.content_permitted hmode hfault (Except.error.inj hrefused)
      · rw [openFile_ok hpath (inquire_eq hrun)]
        rintro ⟨⟩

/-- A file that is opened to be cut off and, with other bits, to be read. -/
theorem openFile_refuses_writing_to_file :
    let index := ScriptedIndex.ofEvents [{ host := "a", service := "b", state := "ok" }]
    let mount := ({} : Mount).serveAll [(index, .lookup 1 (Text.encode "a")),
      (index, .lookup 2 (Text.encode "b")), (index, .lookup 3 (Text.encode "State"))]
    mount.openFile index 4 0x8200 = (.error .notPermitted, mount, index) ∧
      (mount.openFile index 4 0x8000).1 = .ok 1 ∧
      (mount.openFile index 4 0x8000).1 ≠ .error .notPermitted := by
  intro index mount
  have hpath : mount.inodes.pathOf? 4 = some (.ofString "/a/b/State") := by decide +kernel
  have hopen : (mount.openFile index 4 0x8000).1 = .ok 1 := eq_ok_of_toOption (by decide +kernel)
  refine ⟨?_, hopen, ?_⟩
  · exact (mount.openFile_refuses_writing index 4 0x8200).1 _ hpath (by decide) (by decide)
  · exact (mount.openFile_refuses_writing index 4 0x8000).2 (.inl (by decide))

/-- Both bits of the access do not ask for writing: the index is asked, and what it says is
kept under a handle. -/
theorem openFile_both_access_bits :
    let index := ScriptedIndex.ofEvents [{ host := "a", service := "b", state := "ok" }]
    let mount := ({} : Mount).serveAll [(index, .lookup 1 (Text.encode "a")),
      (index, .lookup 2 (Text.encode "b")), (index, .lookup 3 (Text.encode "State"))]
    let flags : Int32 := 3
    flags.toUInt32 &&& OpenMode.writeOnlyBit ≠ 0 ∧ flags.toUInt32 &&& OpenMode.readWriteBit ≠ 0 ∧
      mount.inodes.pathOf? 4 = some (.ofString "/a/b/State") ∧
      (mount.openFile index 4 flags).1 = .ok 1 ∧
      (mount.openFile index 4 flags).2.1.handles.get? 1 = some (Text.encode "ok") ∧
      (mount.openFile index 4 flags).2.2.asked = ["host = \"a\" and service = \"b\""] := by
  intro index mount flags
  have hopen : (mount.openFile index 4 flags).1 = .ok 1 := eq_ok_of_toOption (by decide +kernel)
  refine ⟨by decide, by decide, ?_, hopen, ?_, ?_⟩
  · decide +kernel
  · decide +kernel
  · decide +kernel

end Mount
end EventTree
