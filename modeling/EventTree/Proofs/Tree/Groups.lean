import EventTree.Proofs.Tree.Literals
import Mathlib.Tactic.SplitIfs

/-!
# The group around a user's filter

A user's filter is put between parentheses as it is. A reader who pairs parentheses, and
passes over literals as he does so, takes the two of them for partners exactly if the filter
is balanced in itself. He then finds the clauses for host and service outside of every group
and literal. A filter with a parenthesis too many does not stay in its group: what stands
there is not looked into, so nothing refuses it.
-/
namespace EventTree.Filter

/-- Where a reader stands: within how many groups, and whether in a literal, or in one behind
a backslash. -/
inductive Standing where
  | code (depth : Nat)
  | literal (depth : Nat)
  | escaped (depth : Nat)
deriving DecidableEq, Repr

namespace Standing

def step : Standing → Char → Standing
  | .code depth, c =>
    if c = '(' then .code (depth + 1)
    else if c = ')' then .code (depth - 1)
    else if c = '"' then .literal depth
    else .code depth
  | .literal depth, c =>
    if c = '\\' then .escaped depth
    else if c = '"' then .code depth
    else .literal depth
  | .escaped depth, _ => .literal depth

def after (p : Standing) (text : List Char) : Standing := text.foldl step p

end Standing

/-- How many characters stand before the first parenthesis that closes a group opened in front
of the text, if one does. -/
def closing? : Standing → List Char → Option Nat
  | _, [] => none
  | p, c :: rest =>
    if p = .code 0 ∧ c = ')' then some 0 else (closing? (p.step c) rest).map (· + 1)

/-- The position of the partner of the parenthesis at the front. -/
def partner? : List Char → Option Nat
  | '(' :: rest => (closing? (.code 0) rest).map (· + 1)
  | _ => none

/-- What stands outside of groups and literals, with the parentheses and quotes around them. -/
def topLevel : Standing → List Char → List Char
  | _, [] => []
  | p, c :: rest =>
    if p = .code 0 ∨ p.step c = .code 0 then c :: topLevel (p.step c) rest
    else topLevel (p.step c) rest

/-- A text whose literals are closed and whose parentheses outside of them are in pairs. -/
inductive Balanced : List Char → Prop
  | nil : Balanced []
  | plain {c : Char} {rest : List Char} : c ≠ '(' → c ≠ ')' → c ≠ '"' → Balanced rest →
      Balanced (c :: rest)
  | literal {text value rest : List Char} : readLiteral text = some (value, []) →
      Balanced rest → Balanced ('"' :: (text ++ rest))
  | group {inner rest : List Char} : Balanced inner → Balanced rest →
      Balanced ('(' :: (inner ++ ')' :: rest))

/-! ## Reading on -/

theorem Standing.after_append (p : Standing) (xs ys : List Char) :
    p.after (xs ++ ys) = (p.after xs).after ys :=
  List.foldl_append

theorem closing?_append {p : Standing} {xs : List Char} (h : closing? p xs = none)
    (ys : List Char) :
    closing? p (xs ++ ys) = (closing? (p.after xs) ys).map (· + xs.length) := by
  induction xs generalizing p with
  | nil => exact Option.map_id'.symm
  | cons c xs ih =>
    rw [closing?] at h
    split at h
    · cases h
    · next hopen =>
      rw [List.cons_append, closing?, if_neg hopen, ih (Option.map_eq_none_iff.1 h),
        Option.map_map]
      rfl

theorem topLevel_append (p : Standing) (xs ys : List Char) :
    topLevel p (xs ++ ys) = topLevel p xs ++ topLevel (p.after xs) ys := by
  induction xs generalizing p with
  | nil => rfl
  | cons c xs ih =>
    rw [List.cons_append, topLevel, topLevel, ih]
    split <;> rfl

/-- A text that leads from a kind of place back to the groups around it. It closes none of
them, and within them nothing of it is at the top level. -/
structure Passes (start : Nat → Standing) (text : List Char) : Prop where
  after : ∀ depth, (start depth).after text = .code depth
  closing : ∀ depth, closing? (start depth) text = none
  inner : ∀ depth, topLevel (start (depth + 1)) text = []

namespace Passes
variable {start next : Nat → Standing} {text rest : List Char}

theorem nil : Passes .code [] := ⟨fun _ => rfl, fun _ => rfl, fun _ => rfl⟩

theorem cons {c : Char} (h : Passes next text) (hstep : ∀ depth, (start depth).step c = next depth)
    (hclose : ∀ depth, ¬(start depth = .code 0 ∧ c = ')'))
    (hstart : ∀ depth, start (depth + 1) ≠ .code 0) (hnext : ∀ depth, next (depth + 1) ≠ .code 0) :
    Passes start (c :: text) where
  after depth := by
    rw [Standing.after, List.foldl_cons, hstep]
    exact h.after depth
  closing depth := by
    rw [closing?, if_neg (hclose depth), hstep, h.closing]
    rfl
  inner depth := by
    rw [topLevel, hstep, if_neg (not_or.2 ⟨hstart depth, hnext depth⟩), h.inner]

theorem append (h : Passes start text) (hrest : Passes .code rest) :
    Passes start (text ++ rest) where
  after depth := by
    rw [Standing.after_append, h.after, hrest.after]
  closing depth := by
    rw [closing?_append (h.closing depth), h.after, hrest.closing]
    rfl
  inner depth := by
    rw [topLevel_append, h.inner, h.after, hrest.inner]
    rfl

/-- A group that was opened before is closed behind the text. -/
theorem closed (h : Passes .code text) (hrest : Passes .code rest) :
    Passes (fun depth => .code (depth + 1)) (text ++ ')' :: rest) where
  after depth := by
    rw [Standing.after_append, h.after]
    exact hrest.after depth
  closing depth := by
    rw [closing?_append (h.closing _), h.after, closing?, if_neg (by simp)]
    change Option.map _ (Option.map _ (closing? (.code depth) rest)) = none
    rw [hrest.closing]
    rfl
  inner depth := by
    rw [topLevel_append, h.inner, h.after, topLevel, if_neg (by simp [Standing.step])]
    exact hrest.inner depth

end Passes

/-- A literal leads out of itself, and shows no more of itself than its quotes. -/
theorem passes_literal {text value : List Char} (h : readLiteral text = some (value, [])) :
    Passes .literal text ∧ topLevel (.literal 0) text = ['"'] := by
  fun_induction readLiteral text generalizing value with
  | case1 => cases h
  | case2 rest =>
    obtain rfl : rest = [] := congrArg Prod.snd (Option.some.inj h)
    exact ⟨Passes.nil.cons (fun _ => rfl) (by simp) (by simp) (by simp), rfl⟩
  | case3 => cases h
  | case4 c rest ih =>
    obtain ⟨⟨read, behind⟩, hrest, heq⟩ := Option.map_eq_some_iff.1 h
    obtain rfl : behind = [] := congrArg Prod.snd heq
    obtain ⟨hpasses, htop⟩ := ih hrest
    have hescaped : Passes .escaped (c :: rest) :=
      hpasses.cons (fun _ => rfl) (by simp) (by simp) (by simp)
    refine ⟨hescaped.cons (fun _ => rfl) (by simp) (by simp) (by simp), ?_⟩
    exact htop
  | case5 c rest hquote hlast hescape ih =>
    obtain ⟨⟨read, behind⟩, hrest, heq⟩ := Option.map_eq_some_iff.1 h
    obtain rfl : behind = [] := congrArg Prod.snd heq
    obtain ⟨hpasses, htop⟩ := ih hrest
    have hslash : c ≠ '\\' := by
      intro hc
      cases rest with
      | nil => exact hlast hc rfl
      | cons d rest => exact hescape d rest hc rfl
    have hstep : ∀ depth, (Standing.literal depth).step c = .literal depth := by
      intro depth
      rw [Standing.step, if_neg hslash, if_neg hquote]
    refine ⟨hpasses.cons hstep (by simp) (by simp) (by simp), ?_⟩
    rw [topLevel, hstep, if_neg (by simp)]
    exact htop

theorem Balanced.passes {text : List Char} (h : Balanced text) : Passes .code text := by
  induction h with
  | nil => exact .nil
  | plain hopen hclose hquote _ ih =>
    refine ih.cons (fun depth => ?_) (fun _ hc => hclose hc.2) (by simp) (by simp)
    rw [Standing.step, if_neg hopen, if_neg hclose, if_neg hquote]
  | literal hread _ ih =>
    exact ((passes_literal hread).1.append ih).cons (fun _ => rfl) (by simp) (by simp) (by simp)
  | group _ _ ih ih' => exact (ih.closed ih').cons (fun _ => rfl) (by simp) (by simp) (by simp)

/-! ## Reading back -/

/-- A text that closes so many groups opened in front of it, and what it opens itself. -/
def Closes : Nat → List Char → Prop
  | 0, text => Balanced text
  | depth + 1, text =>
    ∃ inner rest, text = inner ++ ')' :: rest ∧ Balanced inner ∧ Closes depth rest

namespace Closes
variable {depth : Nat} {text rest : List Char}

theorem prepend {item : List Char}
    (hitem : ∀ {behind}, Balanced behind → Balanced (item ++ behind))
    (h : Closes depth text) : Closes depth (item ++ text) := by
  cases depth with
  | zero => exact hitem h
  | succ depth =>
    obtain ⟨inner, rest, rfl, hinner, hrest⟩ := h
    exact ⟨item ++ inner, rest, (List.append_assoc _ _ _).symm, hitem hinner, hrest⟩

theorem plain {c : Char} (hopen : c ≠ '(') (hclose : c ≠ ')') (hquote : c ≠ '"')
    (h : Closes depth rest) : Closes depth (c :: rest) := by
  have hitem : ∀ {behind}, Balanced behind → Balanced ([c] ++ behind) :=
    .plain hopen hclose hquote
  exact h.prepend hitem

theorem literal {value : List Char} (hread : readLiteral text = some (value, []))
    (h : Closes depth rest) : Closes depth ('"' :: (text ++ rest)) := by
  have hitem : ∀ {behind}, Balanced behind → Balanced (('"' :: text) ++ behind) :=
    .literal hread
  exact h.prepend hitem

/-- The group that is closed first was opened at the front. -/
theorem group (h : Closes (depth + 1) text) : Closes depth ('(' :: text) := by
  obtain ⟨inner, rest, rfl, hinner, hrest⟩ := h
  have hitem : ∀ {behind}, Balanced behind →
      Balanced (('(' :: (inner ++ [')'])) ++ behind) := by
    intro behind hbehind
    have hgroup := Balanced.group hinner hbehind
    rwa [List.append_cons] at hgroup
  have hcloses := hrest.prepend hitem
  rwa [List.cons_append, ← List.append_cons] at hcloses

theorem close (h : Closes depth rest) : Closes (depth + 1) (')' :: rest) :=
  ⟨[], rest, rfl, .nil, h⟩

end Closes

/-- A text in front of which a reader stands so, and in which all is closed that is open
there, the literal first. -/
def Standing.Completes : Standing → List Char → Prop
  | .code depth, text => Closes depth text
  | .literal depth, text => ∃ read value rest, text = read ++ rest ∧
      readLiteral read = some (value, []) ∧ Closes depth rest
  | .escaped depth, text => ∃ c read value rest, text = c :: (read ++ rest) ∧
      readLiteral read = some (value, []) ∧ Closes depth rest

theorem Standing.Completes.cons {p : Standing} {c : Char} {text : List Char}
    (hopen : ¬(p = .code 0 ∧ c = ')')) (h : (p.step c).Completes text) :
    p.Completes (c :: text) := by
  cases p with
  | code depth =>
    simp only [step] at h
    split_ifs at h with hgroup hclose hquote
    · subst hgroup
      exact Closes.group h
    · subst hclose
      cases depth with
      | zero => exact absurd ⟨rfl, rfl⟩ hopen
      | succ depth => exact Closes.close h
    · subst hquote
      obtain ⟨read, value, rest, rfl, hread, hrest⟩ := h
      exact hrest.literal hread
    · exact Closes.plain hgroup hclose hquote h
  | literal depth =>
    simp only [step] at h
    split_ifs at h with hslash hquote
    · subst hslash
      obtain ⟨d, read, value, rest, rfl, hread, hrest⟩ := h
      refine ⟨'\\' :: d :: read, d :: value, rest, rfl, ?_, hrest⟩
      rw [readLiteral, hread]
      rfl
    · subst hquote
      exact ⟨['"'], [], text, rfl, rfl, h⟩
    · obtain ⟨read, value, rest, rfl, hread, hrest⟩ := h
      refine ⟨c :: read, c :: value, rest, rfl, ?_, hrest⟩
      rw [readLiteral_plain hquote hslash, hread]
      rfl
  | escaped depth =>
    obtain ⟨read, value, rest, rfl, hread, hrest⟩ := h
    exact ⟨c, read, value, rest, rfl, hread, hrest⟩

theorem completes_of_closing? {p : Standing} {text behind : List Char}
    (h : closing? p (text ++ ')' :: behind) = some text.length) : p.Completes text := by
  induction text generalizing p with
  | nil =>
    rw [List.nil_append, closing?] at h
    split at h
    · next hp =>
      rw [hp.1]
      exact Balanced.nil
    · obtain ⟨n, -, hn⟩ := Option.map_eq_some_iff.1 h
      cases hn
  | cons c text ih =>
    rw [List.cons_append, closing?] at h
    split at h
    · cases h
    · next hopen =>
      obtain ⟨n, hn, hlength⟩ := Option.map_eq_some_iff.1 h
      rw [List.length_cons, Nat.add_right_cancel_iff] at hlength
      exact .cons hopen (ih (hlength ▸ hn))

/-- The parenthesis behind a text closes the group opened in front of it just if the text is
balanced. -/
theorem closing?_behind_iff {text : List Char} (behind : List Char) :
    closing? (.code 0) (text ++ ')' :: behind) = some text.length ↔ Balanced text := by
  constructor
  · exact completes_of_closing?
  · intro h
    rw [closing?_append (h.passes.closing 0), h.passes.after, closing?, if_pos ⟨rfl, rfl⟩,
      Option.map_some, Nat.zero_add]

instance (text : List Char) : Decidable (Balanced text) :=
  decidable_of_iff (closing? (.code 0) (text ++ [')']) = some text.length) (closing?_behind_iff [])

/-! ## Filters -/

theorem partner?_group_iff {inner behind : List Char} :
    partner? ('(' :: (inner ++ ')' :: behind)) = some (inner.length + 1) ↔ Balanced inner := by
  rw [← closing?_behind_iff behind, partner?, Option.map_eq_some_iff]
  simp

theorem topLevel_group {inner : List Char} (h : Balanced inner) (behind : List Char) :
    topLevel (.code 0) ('(' :: (inner ++ ')' :: behind)) =
      "()".toList ++ topLevel (.code 0) behind := by
  change '(' :: topLevel (.code 1) (inner ++ ')' :: behind) = _
  rw [topLevel_append, h.passes.inner, h.passes.after]
  rfl

/-- Of a clause all but what is in its literal is at the top level. -/
theorem topLevel_clause {clause : List Char} (hclause : topLevel (.code 0) clause = clause)
    (hafter : (Standing.code 0).after clause = .literal 0) (value : String) (behind : List Char) :
    topLevel (.code 0) (clause ++ (literalBody value ++ '"' :: behind)) =
      clause ++ '"' :: topLevel (.code 0) behind := by
  obtain ⟨hpasses, htop⟩ := passes_literal (readLiteral_body value [])
  rw [topLevel_append, hclause, hafter, List.append_cons, topLevel_append, htop, hpasses.after]
  rfl

theorem toList_ofHost_some (f host : String) :
    (ofHost (some f) host).toList = '(' :: (f.toList ++ ')' :: (" and host = \"".toList ++
      (literalBody host ++ ['"']))) := by
  rw [toList_ofHost, toList_literal]
  simp [front]

theorem toList_ofSelector_some (f host service : String) :
    (ofSelector ⟨some f, host, service⟩).toList =
      '(' :: (f.toList ++ ')' :: (" and host = \"".toList ++ (literalBody host ++
        '"' :: (" and service = \"".toList ++ (literalBody service ++ ['"']))))) := by
  rw [toList_ofSelector, toList_ofHost, toList_literal, toList_literal]
  simp [front]

/-- The parenthesis in front of a user's filter has the one right behind the filter for its
partner just if the filter is balanced. If it is, the clauses for host and service are what
there is beside the group, and only their values are in literals. -/
theorem group_holds_filter_iff (f host service : String) :
    (partner? (ofHost (some f) host).toList = some (f.length + 1) ↔ Balanced f.toList) ∧
    (partner? (ofSelector ⟨some f, host, service⟩).toList = some (f.length + 1) ↔
      Balanced f.toList) ∧
    (ofHost (some f) host).toList[f.length + 1]? = some ')' ∧
    (ofSelector ⟨some f, host, service⟩).toList[f.length + 1]? = some ')' ∧
    (Balanced f.toList →
      topLevel (.code 0) (ofHost (some f) host).toList = "() and host = \"\"".toList ∧
      topLevel (.code 0) (ofSelector ⟨some f, host, service⟩).toList =
        "() and host = \"\" and service = \"\"".toList) := by
  rw [toList_ofHost_some, toList_ofSelector_some, ← String.length_toList]
  refine ⟨partner?_group_iff, partner?_group_iff, by simp, by simp, fun hf => ⟨?_, ?_⟩⟩
  · rw [topLevel_group hf, topLevel_clause (by decide) (by decide)]
    rfl
  · rw [topLevel_group hf, topLevel_clause (by decide) (by decide),
      topLevel_clause (by decide) (by decide)]
    rfl

/-- Parentheses and quotes in the filter and in the names, all of them paired or in literals. -/
theorem group_holds_filter_of_quoted_parentheses :
    let f := "(state = \")\" or true) and service =~ \"\\\"(%\""
    let eventFilter := (ofSelector ⟨some f, "a) or (\"b", "c\\"⟩).toList
    Balanced f.toList ∧ partner? eventFilter = some (f.length + 1) ∧
      topLevel (.code 0) eventFilter = "() and host = \"\" and service = \"\"".toList := by
  intro f eventFilter
  have hf : Balanced f.toList := by decide +kernel
  obtain ⟨-, hpartner, -, -, htop⟩ := group_holds_filter_iff f "a) or (\"b" "c\\"
  exact ⟨hf, hpartner.2 hf, (htop hf).2⟩

/-- A filter that closes its group and opens another one: the clauses bind to its second half
alone. -/
theorem group_left_by_filter :
    let f := "a) or (b"
    let hostFilter := (ofHost (some f) "web1").toList
    let eventFilter := (ofSelector ⟨some f, "web1", "cpu"⟩).toList
    hostFilter[f.length + 1]? = some ')' ∧ partner? hostFilter = some 2 ∧
      partner? hostFilter ≠ some (f.length + 1) ∧
      topLevel (.code 0) hostFilter = "() or () and host = \"\"".toList ∧
      eventFilter[f.length + 1]? = some ')' ∧ partner? eventFilter = some 2 ∧
      partner? eventFilter ≠ some (f.length + 1) ∧
      topLevel (.code 0) eventFilter =
        "() or () and host = \"\" and service = \"\"".toList := by
  decide +kernel

end EventTree.Filter
