import BoxDiagram.Key
import BoxDiagram.Proofs.Attribute

/-!
# Keys: what reading a key gives

Whatever the text of a key, the objects it addresses have ids that can be written: the path of an
object and the endpoints of a connection are paths of names without keywords (`of_parse_object`,
`isObjectPath_of_parse_edge`). In the other direction such a path, joined, is the key of its object
(`parse_join`).
-/

namespace BoxDiagram

open Text Attribute

namespace Key

/-! ### Connections -/

/-- **An endpoint that is read** is a path without keywords. -/
theorem of_readEndpoint {cs : List Char} {path : List String} (h : readEndpoint cs = .ok path) :
    readPath cs = .ok path ∧ ∀ n ∈ path, isReserved n = false := by
  unfold readEndpoint at h
  rw [bind_eq_ok] at h
  obtain ⟨p, hp, h⟩ := h
  split_ifs at h with hres
  obtain rfl := Except.ok.inj h
  exact ⟨hp, by simpa using hres⟩

theorem isObjectPath_of_readEndpoint {cs : List Char} {path : List String}
    (h : readEndpoint cs = .ok path) (hf : Arrow.Free cs) : IsObjectPath path := by
  obtain ⟨hread, hnone⟩ := of_readEndpoint h
  have hpath := isPath_of_readPath hread hf
  exact ⟨hpath.ne_nil, fun n hn => ⟨hpath.names n hn, hnone n hn⟩⟩

theorem length_hops : ∀ {endpoints : List (List String)} {arrows : List Arrow},
    endpoints.length = arrows.length + 1 → (hops endpoints arrows).length = arrows.length
  | [_], [], _ => rfl
  | source :: target :: rest, arrow :: arrows, h => by
    have hrest : (target :: rest).length = arrows.length + 1 := by simpa using h
    rw [hops, List.length_cons, length_hops hrest, List.length_cons]

/-- **A connection that is read** is cut at its only arrow into the texts of its endpoints. -/
theorem of_readEdge {cs : List Char} {k : EdgeKey} (h : readEdge cs = .ok k) :
    ∃ source target, splitChain? (trim cs) = some ([source, target], [k.arrow]) ∧
      readEndpoint source = .ok k.source ∧ readEndpoint target = .ok k.target ∧
      k.index = none ∧ k.attr = [] := by
  unfold readEdge readChain at h
  simp only [bind_eq_ok] at h
  obtain ⟨keys, hkeys, h⟩ := h
  cases hs : splitChain? (trim cs) with
  | none => simp [hs] at hkeys
  | some chain =>
    obtain ⟨endpoints, arrows⟩ := chain
    obtain ⟨-, hlength, -⟩ := splitChain?_eq_some hs
    simp only [hs, bind_eq_ok, pure_eq_ok] at hkeys
    obtain ⟨paths, hpaths, rfl⟩ := hkeys
    have hcount := length_hops ((length_of_mapM hpaths).symm.trans hlength)
    split at h
    · next key heq =>
      obtain rfl := Except.ok.inj h
      rw [heq] at hcount
      obtain ⟨arrow, rfl⟩ := List.length_eq_one_iff.mp hcount.symm
      obtain ⟨source, target, rfl⟩ := List.length_eq_two.mp hlength
      have hread := mapM_eq_ok_iff.mp hpaths
      obtain ⟨s, t, rfl⟩ := List.length_eq_two.mp hread.length_eq.symm
      obtain ⟨hsource, htarget⟩ : readEndpoint source = .ok s ∧ readEndpoint target = .ok t := by
        simpa using hread
      obtain rfl : EdgeKey.mk s t arrow none [] = key := by simpa [hops] using heq
      exact ⟨source, target, rfl, hsource, htarget, rfl, rfl⟩
    · simp at h

/-- **The endpoints of a connection that is read** are paths of objects. -/
theorem isObjectPath_of_readEdge {cs : List Char} {k : EdgeKey} (h : readEdge cs = .ok k) :
    IsObjectPath k.source ∧ IsObjectPath k.target := by
  obtain ⟨source, target, hsplit, hsource, htarget, -, -⟩ := of_readEdge h
  obtain ⟨-, -, hfree⟩ := splitChain?_eq_some hsplit
  exact ⟨isObjectPath_of_readEndpoint hsource (hfree source (by simp)),
    isObjectPath_of_readEndpoint htarget (hfree target (by simp))⟩

/-- **An indexed connection that is read** is one with an index below the bound and an attribute path,
if there is one. -/
theorem of_readIndexed {cut : Indexed} {k : EdgeKey} (h : readIndexed cut = .ok k) :
    ∃ e n attr, readEdge cut.inner = .ok e ∧ n < indexBound ∧
      (attr = [] ∨ ∃ cs, readPath cs = .ok attr) ∧ k = { e with index := some n, attr := attr } := by
  unfold readIndexed at h
  simp only [bind_eq_ok] at h
  obtain ⟨e, he, h⟩ := h
  obtain ⟨-, -, -, -, -, -, hattr⟩ := of_readEdge he
  split at h
  · simp at h
  · next n hn =>
    split at h
    · exact ⟨e, n, e.attr, he, readBelow?_lt hn, Or.inl hattr, (Except.ok.inj h).symm⟩
    · simp only [bind_eq_ok, pure_eq_ok] at h
      obtain ⟨attr, hread, hk⟩ := h
      exact ⟨e, n, attr, he, readBelow?_lt hn, Or.inr ⟨_, hread⟩, hk.symm⟩

theorem isObjectPath_of_readIndexed {cut : Indexed} {k : EdgeKey} (h : readIndexed cut = .ok k) :
    IsObjectPath k.source ∧ IsObjectPath k.target := by
  obtain ⟨e, n, attr, he, -, -, rfl⟩ := of_readIndexed h
  have hpaths := isObjectPath_of_readEdge he
  exact hpaths

/-! ### Keys -/

/-- **What a key is read as**: an indexed connection, a connection, or a path cut at its first
keyword. -/
theorem parse_eq_ok {key : String} {k : Key} (h : parse key = .ok k) :
    (∃ cut e, readIndexed cut = .ok e ∧ k = .edge e) ∨
      (∃ e, readEdge (trim key.toList) = .ok e ∧ k = .edge e) ∨
      ∃ names, Arrow.Free (trim key.toList) ∧ readPath (trim key.toList) = .ok names ∧
        k = .object (splitReserved names).1 (splitReserved names).2 := by
  unfold parse at h
  dsimp only at h
  split_ifs at h with hne hcut
  · split at h
    · simp only [bind_eq_ok, pure_eq_ok] at h
      obtain ⟨e, he, rfl⟩ := h
      exact Or.inl ⟨_, e, he, rfl⟩
    · simp only [bind_eq_ok, pure_eq_ok] at h
      obtain ⟨e, he, rfl⟩ := h
      exact Or.inr (Or.inl ⟨e, he, rfl⟩)
  · split at h
    · simp only [bind_eq_ok, pure_eq_ok] at h
      obtain ⟨e, he, rfl⟩ := h
      exact Or.inl ⟨_, e, he, rfl⟩
    · simp only [bind_eq_ok, pure_eq_ok] at h
      obtain ⟨names, hnames, rfl⟩ := h
      have hfree := Arrow.cut_snd_eq_nil_iff.mp (not_not.mp hcut)
      exact Or.inr (Or.inr ⟨names, hfree, hnames, rfl⟩)

/-- **The endpoints that a key addresses** are paths of objects. -/
theorem isObjectPath_of_parse_edge {key : String} {k : EdgeKey} (h : parse key = .ok (.edge k)) :
    IsObjectPath k.source ∧ IsObjectPath k.target := by
  rcases parse_eq_ok h with ⟨cut, e, he, heq⟩ | ⟨e, he, heq⟩ | ⟨names, -, -, heq⟩
  · obtain rfl := Key.edge.inj heq
    exact isObjectPath_of_readIndexed he
  · obtain rfl := Key.edge.inj heq
    exact isObjectPath_of_readEdge he
  · simp at heq

/-- **A key without an index** is read as a connection throughout. -/
theorem readEdge_of_parse {key : String} {k : EdgeKey} (h : parse key = .ok (.edge k))
    (hindex : k.index = none) : readEdge (trim key.toList) = .ok k := by
  rcases parse_eq_ok h with ⟨cut, e, he, heq⟩ | ⟨e, he, heq⟩ | ⟨names, -, -, heq⟩
  · obtain rfl := Key.edge.inj heq
    obtain ⟨e, n, attr, -, -, -, rfl⟩ := of_readIndexed he
    simp at hindex
  · obtain rfl := Key.edge.inj heq
    exact he
  · simp at heq

/-- An index that is read is a word. -/
theorem index_lt_of_parse {key : String} {k : EdgeKey} {n : Nat} (h : parse key = .ok (.edge k))
    (hindex : k.index = some n) : n < indexBound := by
  rcases parse_eq_ok h with ⟨cut, e, he, heq⟩ | ⟨e, he, heq⟩ | ⟨names, -, -, heq⟩
  · obtain rfl := Key.edge.inj heq
    obtain ⟨e, m, attr, -, hm, -, rfl⟩ := of_readIndexed he
    exact Option.some.inj hindex ▸ hm
  · obtain rfl := Key.edge.inj heq
    obtain ⟨-, -, -, -, -, hnone, -⟩ := of_readEdge he
    rw [hnone] at hindex
    cases hindex
  · simp at heq

theorem exists_index_of_attr {key : String} {k : EdgeKey} (h : parse key = .ok (.edge k))
    (hattr : k.attr ≠ []) : ∃ n, k.index = some n := by
  refine Option.ne_none_iff_exists'.mp fun hindex => hattr ?_
  obtain ⟨-, -, -, -, -, -, hnone⟩ := of_readEdge (readEdge_of_parse h hindex)
  exact hnone

/-- **A key of an object** is read as a path throughout, the attribute path after the object path. -/
theorem readPath_of_parse {key : String} {path attr : List String}
    (h : parse key = .ok (.object path attr)) : Arrow.Free (trim key.toList) ∧
      readPath (trim key.toList) = .ok (path ++ attr) ∧
      splitReserved (path ++ attr) = (path, attr) := by
  rcases parse_eq_ok h with ⟨cut, e, -, heq⟩ | ⟨e, -, heq⟩ | ⟨names, hfree, hnames, heq⟩
  · simp at heq
  · simp at heq
  · obtain ⟨rfl, rfl⟩ := Key.object.inj heq
    rw [splitReserved_append]
    exact ⟨hfree, hnames, rfl⟩

/-- **The path that a key addresses** is one of names without keywords; it is empty only in front of
an attribute path. -/
theorem of_parse_object {key : String} {path attr : List String}
    (h : parse key = .ok (.object path attr)) :
    (∀ n ∈ path, IsObjectName n) ∧ (attr = [] → path ≠ []) := by
  obtain ⟨hfree, hread, hsplit⟩ := readPath_of_parse h
  have hpath := isPath_of_readPath hread hfree
  have hreserved : ∀ n ∈ (splitReserved (path ++ attr)).1, isReserved n = false :=
    notReserved_of_splitReserved
  rw [hsplit] at hreserved
  refine ⟨fun n hn => ⟨hpath.names n (List.mem_append_left _ hn), hreserved n hn⟩,
    fun hattr hnil => hpath.ne_nil ?_⟩
  rw [hattr, hnil, List.append_nil]

theorem isObjectPath_of_parse {key : String} {path : List String}
    (h : parse key = .ok (.object path [])) : IsObjectPath path := by
  obtain ⟨hnames, hne⟩ := of_parse_object h
  exact ⟨hne rfl, hnames⟩

/-! ### Ids as keys -/

theorem readIndex?_eq_none {cs : List Char} (h : '[' ∉ cs) : readIndex? cs = none := by
  unfold readIndex?
  split
  · simp at h
  · rfl

theorem cutIndexed?_eq_none : ∀ {cs : List Char}, '[' ∉ cs → cutIndexed? cs = none
  | [], _ => rfl
  | c :: cs, h => by
    have hcs : '[' ∉ cs := fun hm => h (List.mem_cons_of_mem _ hm)
    rw [cutIndexed?, cutIndexed?_eq_none hcs, readIndex?_eq_none hcs]
    split_ifs <;> rfl

theorem indexed?_eq_none {cs : List Char} (h : '[' ∉ cs) : indexed? cs = none := by
  unfold indexed?
  split
  · exact cutIndexed?_eq_none fun hm => h (List.mem_cons_of_mem _ hm)
  · rfl

/-- A path of names is the key of what it addresses: the part from the first keyword on is an
attribute path. -/
theorem parse_join_of_isPath {path : List String} (h : IsPath path) :
    parse (Dotted.join path) = .ok (.object (splitReserved path).1 (splitReserved path).2) := by
  have hindexed : indexed? (Dotted.join path).toList = none :=
    indexed?_eq_none fun hm => h.allowed _ hm (by decide)
  unfold parse
  rw [h.trim_join]
  dsimp only
  rw [if_neg h.opensSolid.ne_nil, hindexed]
  dsimp only
  rw [if_neg (not_not.mpr (Arrow.cut_snd_eq_nil_iff.mpr h.free))]
  simp only [bind_eq_ok, pure_eq_ok]
  exact ⟨path, readPath_join h h.trim_join, rfl⟩

/-- **A path of names without keywords is the key of its object.** -/
theorem parse_join {path : List String} (h : IsObjectPath path) :
    parse (Dotted.join path) = .ok (.object path []) := by
  rw [parse_join_of_isPath h.isPath, splitReserved_of_notReserved h.notReserved]

end Key

end BoxDiagram
