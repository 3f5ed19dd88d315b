import EventTree.Tree.View

/-!
# Filters name their nodes

A filter made for the directory of a host or of an event ends in a string literal.
Inside a literal a quote always follows a backslash, while the opening quote of a
generated literal follows a blank. So a text is cut at its last literal in one way
only, whatever a host or service holds, and from the end backwards the clauses, and
with them the user's filter in front, can be read off. The user's filter itself is
never looked into. Hence no two directories of hosts or events ask the same filter.
-/
namespace EventTree.Filter

/-! ## Literals -/

/-- The characters between the quotes of a literal. -/
def literalBody (value : String) : List Char := value.toList.flatMap literalChar

theorem toList_literal (value : String) :
    (literal value).toList = '"' :: (literalBody value ++ ['"']) := by
  simp [literal, literalBody]

theorem literalChar_eq (c : Char) :
    literalChar c = if c = '"' ∨ c = '\\' then ['\\', c] else [c] := by
  unfold literalChar
  split
  · rfl
  · rfl
  · next hquote hslash => rw [if_neg (not_or.2 ⟨hquote, hslash⟩)]

/-- Characters of a literal are told apart from the front. -/
theorem literalChar_append_inj {c d : Char} {xs ys : List Char}
    (h : literalChar c ++ xs = literalChar d ++ ys) : c = d ∧ xs = ys := by
  rw [literalChar_eq, literalChar_eq] at h
  by_cases hc : c = '"' ∨ c = '\\' <;> by_cases hd : d = '"' ∨ d = '\\' <;>
    simp only [hc, hd, if_true, if_false, List.cons_append, List.nil_append,
      List.cons.injEq] at h
  · exact ⟨h.2.1, h.2.2⟩
  · exact absurd (.inr h.1.symm) hd
  · exact absurd (.inr h.1) hc
  · exact h

theorem literalBody_injective {v w : String} (h : literalBody v = literalBody w) : v = w := by
  have hlist : ∀ {cs ds : List Char},
      cs.flatMap literalChar = ds.flatMap literalChar → cs = ds := by
    intro cs
    induction cs with
    | nil =>
      intro ds h
      cases ds with
      | nil => rfl
      | cons d ds =>
        rw [List.flatMap_nil, List.flatMap_cons, literalChar_eq] at h
        split at h <;> cases h
    | cons c cs ih =>
      intro ds h
      cases ds with
      | nil =>
        rw [List.flatMap_nil, List.flatMap_cons, literalChar_eq] at h
        split at h <;> cases h
      | cons d ds =>
        obtain ⟨rfl, hrest⟩ := literalChar_append_inj h
        rw [ih hrest]
  exact String.toList_inj.1 (hlist h)

/-- Between the quotes of a literal a quote follows a backslash. -/
theorem backslash_before_quote {cs before after : List Char}
    (h : cs.flatMap literalChar = before ++ '"' :: after) :
    ∃ start, before = start ++ ['\\'] := by
  induction cs generalizing before with
  | nil => simp at h
  | cons d cs ih =>
    rw [List.flatMap_cons, literalChar_eq] at h
    split at h
    · match before, h with
      | [], h => exact absurd (List.cons.inj h).1 (by decide)
      | [c], h => exact ⟨[], by rw [← (List.cons.inj h).1]; rfl⟩
      | c :: c' :: rest, h =>
        obtain ⟨start, rfl⟩ := ih (List.cons.inj (List.cons.inj h).2).2
        exact ⟨c :: c' :: start, rfl⟩
    · next hd =>
      match before, h with
      | [], h => exact absurd (.inl (List.cons.inj h).1) hd
      | c :: rest, h =>
        obtain ⟨start, rfl⟩ := ih (List.cons.inj h).2
        exact ⟨c :: start, rfl⟩

/-- No literal behind a blank is the end of a longer one. -/
theorem no_blank_before_inner_literal {middle : List Char} {v w : String}
    (h : ' ' :: (literal v).toList = middle ++ ' ' :: (literal w).toList) : middle = [] := by
  rw [toList_literal, toList_literal] at h
  match middle, h with
  | [], _ => rfl
  | [_], h => exact absurd (List.cons.inj (List.cons.inj h).2).1 (by decide)
  | _ :: _ :: rest, h =>
    have hbody : literalBody v ++ ['"'] = (rest ++ ' ' :: '"' :: literalBody w) ++ ['"'] := by
      simpa using (List.cons.inj (List.cons.inj h).2).2
    have hquote : literalBody v = (rest ++ [' ']) ++ '"' :: literalBody w := by
      simpa using List.append_cancel_right hbody
    obtain ⟨start, hstart⟩ := backslash_before_quote hquote
    have hchar := (List.append_inj' hstart rfl).2
    exact absurd (List.cons.inj hchar).1 (by decide)

/-- Behind a blank a text is cut before its last literal in one way only. -/
theorem literal_behind_blank {xs ys : List Char} {v w : String}
    (h : xs ++ ' ' :: (literal v).toList = ys ++ ' ' :: (literal w).toList) :
    xs = ys ∧ v = w := by
  have hxy : xs = ys := by
    rcases List.append_eq_append_iff.1 h with ⟨middle, hy, hv⟩ | ⟨middle, hx, hw⟩
    · rw [no_blank_before_inner_literal hv, List.append_nil] at hy
      exact hy.symm
    · rw [no_blank_before_inner_literal hw, List.append_nil] at hx
      exact hx
  subst hxy
  have hbody := List.append_cancel_left h
  rw [toList_literal, toList_literal] at hbody
  exact ⟨rfl, literalBody_injective
    (List.append_cancel_right (List.cons.inj (List.cons.inj hbody).2).2)⟩

/-! ## Clauses -/

/-- What stands in front of the clauses. -/
def front : Option String → List Char
  | some f => '(' :: (f.toList ++ ") and ".toList)
  | none => []

theorem front_injective {f g : Option String} (h : front f = front g) : f = g := by
  match f, g, h with
  | none, none, _ => rfl
  | some f, some g, h =>
    have hlist := List.append_cancel_right (List.cons.inj h).2
    rw [String.toList_inj.1 hlist]

theorem toList_under (filter : Option String) (clause : String) :
    (under filter clause).toList = front filter ++ clause.toList := by
  cases filter <;> simp [under, front]

theorem toList_hostIs (host : String) :
    (hostIs host).toList = "host =".toList ++ ' ' :: (literal host).toList := by
  simp [hostIs]

theorem toList_ofHost (filter : Option String) (host : String) :
    (ofHost filter host).toList =
      (front filter ++ "host =".toList) ++ ' ' :: (literal host).toList := by
  rw [ofHost, toList_under, toList_hostIs, List.append_assoc]

theorem toList_ofSelector (s : Selector) :
    (ofSelector s).toList =
      ((ofHost s.filter s.host).toList ++ " and service =".toList) ++
        ' ' :: (literal s.service).toList := by
  rw [ofSelector, ofHost, toList_under, toList_under]
  simp [serviceIs]

theorem ofHost_inj {f g : Option String} {h k : String} (he : ofHost f h = ofHost g k) :
    f = g ∧ h = k := by
  have hlist := congrArg String.toList he
  rw [toList_ofHost, toList_ofHost] at hlist
  obtain ⟨hfront, hhost⟩ := literal_behind_blank hlist
  exact ⟨front_injective (List.append_cancel_right hfront), hhost⟩

theorem ofSelector_inj {s t : Selector} (he : ofSelector s = ofSelector t) : s = t := by
  have hlist := congrArg String.toList he
  rw [toList_ofSelector, toList_ofSelector] at hlist
  obtain ⟨hhead, hservice⟩ := literal_behind_blank hlist
  obtain ⟨hfilter, hhost⟩ := ofHost_inj (String.toList_inj.1 (List.append_cancel_right hhead))
  cases s
  cases t
  simp_all

/-- The clause in front of the last literal tells the two kinds of filters apart. -/
theorem ofHost_ne_ofSelector (f : Option String) (h : String) (s : Selector) :
    ofHost f h ≠ ofSelector s := by
  intro he
  have hlist := congrArg String.toList he
  rw [toList_ofHost, toList_ofSelector] at hlist
  have hclause := (literal_behind_blank hlist).1
  have hends : ∀ {xs ys : List Char}, xs ++ "host =".toList ≠ ys ++ " and service =".toList := by
    intro xs ys h
    have htail : (xs ++ "hos".toList) ++ "t =".toList =
        (ys ++ " and servic".toList) ++ "e =".toList := by simpa using h
    exact absurd (List.append_inj' htail rfl).2 (by decide)
  exact hends hclause

theorem getLast?_literal (xs : List Char) (v : String) :
    (xs ++ (literal v).toList).getLast? = some '"' := by
  rw [toList_literal, ← List.cons_append, ← List.append_assoc, List.getLast?_concat]

theorem getLast?_ofHost (f : Option String) (h : String) :
    (ofHost f h).toList.getLast? = some '"' := by
  rw [toList_ofHost, List.append_cons, getLast?_literal]

theorem getLast?_ofSelector (s : Selector) : (ofSelector s).toList.getLast? = some '"' := by
  rw [toList_ofSelector, List.append_cons, getLast?_literal]

theorem getLast?_everything : everything.toList.getLast? = some 'e' := by decide

theorem ofHost_ne_everything (f : Option String) (h : String) : ofHost f h ≠ everything := by
  intro he
  have hlast := getLast?_ofHost f h
  rw [he, getLast?_everything] at hlast
  exact absurd hlast (by decide)

theorem ofSelector_ne_everything (s : Selector) : ofSelector s ≠ everything := by
  intro he
  have hlast := getLast?_ofSelector s
  rw [he, getLast?_everything] at hlast
  exact absurd hlast (by decide)

/-! ## Nodes -/

/-- The directory of a host or of an event, under a user's filter or not. The files of an
event ask the same filter as its directory, so they are left out. -/
def Selective : Node → Prop
  | .services .. => True
  | .record _ => True
  | _ => False

theorem ofNode?_of_selective {n : Node} (hn : Selective n) :
    ∃ f, ofNode? n = some f ∧ f ≠ everything := by
  cases n with
  | services filter host => exact ⟨_, rfl, ofHost_ne_everything filter host⟩
  | record selector => exact ⟨_, rfl, ofSelector_ne_everything selector⟩
  | _ => exact hn.elim

theorem ofNode?_inj {n k : Node} (hn : Selective n) (hk : Selective k)
    (h : ofNode? n = ofNode? k) : n = k := by
  cases n with
  | services f host =>
    cases k with
    | services g host' =>
      obtain ⟨rfl, rfl⟩ := ofHost_inj (Option.some.inj h)
      rfl
    | record t => exact absurd (Option.some.inj h) (ofHost_ne_ofSelector f host t)
    | _ => exact hk.elim
  | record s =>
    cases k with
    | services g host => exact absurd (Option.some.inj h).symm (ofHost_ne_ofSelector g host s)
    | record t => rw [ofSelector_inj (Option.some.inj h)]
    | _ => exact hk.elim
  | _ => exact hn.elim

/-- A directory is listed by the filter of its node. -/
theorem entries_filter? {p : Path} {n : Node} (h : p.node = .ok n) (hn : n.kind = .directory) :
    (TreeView.entries p).filter? = ofNode? n := by
  unfold TreeView.entries
  rw [h]
  cases n with
  | field selector name => cases hn
  | _ => rfl

/-- Each directory of a host or of an event has a filter of its own, which is not that for
everything, and it is listed by this filter. -/
theorem filter_identifies_node {n k : Node} (hn : Selective n) (hk : Selective k) :
    (∃ f g, ofNode? n = some f ∧ ofNode? k = some g ∧ f ≠ everything ∧ g ≠ everything ∧
      (f = g → n = k)) ∧
    ∀ p q : Path, p.node = .ok n → q.node = .ok k → n ≠ k →
      (TreeView.entries p).filter? ≠ (TreeView.entries q).filter? := by
  have hinj : ofNode? n = ofNode? k → n = k := ofNode?_inj hn hk
  have hdirectory : ∀ {m : Node}, Selective m → m.kind = .directory := by
    intro m hm
    cases m with
    | field selector name => exact hm.elim
    | _ => rfl
  constructor
  · obtain ⟨f, hf, hfe⟩ := ofNode?_of_selective hn
    obtain ⟨g, hg, hge⟩ := ofNode?_of_selective hk
    refine ⟨f, g, hf, hg, hfe, hge, ?_⟩
    intro hfg
    apply hinj
    rw [hf, hg, hfg]
  · intro p q hp hq hne hsame
    rw [entries_filter? hp (hdirectory hn), entries_filter? hq (hdirectory hk)] at hsame
    exact hne (hinj hsame)

/-- A user's filter that goes on like the clauses of an event. -/
theorem filter_identifies_node_spliced :
    let n : Node := .services (some "true) and host = \"a\" and service = \"b") "c"
    let k : Node := .record ⟨some "true", "a", "b) and host = \"c"⟩
    Selective n ∧ Selective k ∧ ofNode? n ≠ ofNode? k := by
  intro n k
  have hn : Selective n := trivial
  have hk : Selective k := trivial
  obtain ⟨⟨f, g, hf, hg, -, -, hfg⟩, -⟩ := filter_identifies_node hn hk
  refine ⟨hn, hk, ?_⟩
  rw [hf, hg]
  intro h
  exact absurd (hfg (Option.some.inj h)) (by decide)

end EventTree.Filter
