import BoxDiagram.Proofs.Edit.IndexedKey

/-!
# Normal forms: one key for each address

There are many ways to write one key: blanks around names, endpoints and arrows do not count, nor do
zeros in front of an index. What a key is read as is an *address*; the addresses are exactly what
keys are read as (`isAddress_iff`), and each has a normal form, which is read as that address again
(`parse_render_of_isAddress`). So keys are read alike exactly if they have one normal form, and the
edits do not tell a key from its normal form (`act_congr`).

Between blanks an arrow is cut where it stands, since a name neither holds an arrow nor reaches across
a blank into one. No name holds a bracket, so no path gains or loses an index by being written anew.
-/

namespace BoxDiagram

open Text Attribute

namespace Key

/-! ### Addresses -/

/-- **What a key can be read as.** -/
inductive IsAddress : Key → Prop
  /-- A path of names, cut in front of its first keyword. -/
  | object {path attr : List String} (names : IsPath (path ++ attr))
      (cut : splitReserved (path ++ attr) = (path, attr)) : IsAddress (.object path attr)
  /-- A connection without an index has no attribute path. -/
  | connection {source target : List String} (hs : IsObjectPath source) (ht : IsObjectPath target)
      (arrow : Arrow) : IsAddress (.edge ⟨source, target, arrow, none, []⟩)
  /-- The attribute path of an indexed connection is made of segments, which may hold arrows. -/
  | indexed {source target attr : List String} {n : Nat} (hs : IsObjectPath source)
      (ht : IsObjectPath target) (arrow : Arrow) (hn : n < indexBound)
      (hattr : attr = [] ∨ IsSegmentPath attr) :
      IsAddress (.edge ⟨source, target, arrow, some n, attr⟩)

theorem isAddress_of_readEdge {cs : List Char} {k : EdgeKey} (h : readEdge cs = .ok k) :
    IsAddress (.edge k) := by
  obtain ⟨hs, ht⟩ := isObjectPath_of_readEdge h
  obtain ⟨-, -, -, -, -, hindex, hattr⟩ := of_readEdge h
  obtain ⟨source, target, arrow, index, attr⟩ := k
  obtain rfl : index = none := hindex
  obtain rfl : attr = [] := hattr
  exact .connection hs ht arrow

theorem isAddress_of_readIndexed {cut : Indexed} {k : EdgeKey} (h : readIndexed cut = .ok k) :
    IsAddress (.edge k) := by
  obtain ⟨e, n, attr, he, hn, hattr, rfl⟩ := of_readIndexed h
  obtain ⟨hs, ht⟩ := isObjectPath_of_readEdge he
  refine .indexed hs ht e.arrow hn (hattr.imp_right ?_)
  rintro ⟨cs, hread⟩
  exact isSegmentPath_of_readPath hread

/-- **Keys are read as addresses.** -/
theorem isAddress_of_parse {key : String} {k : Key} (h : parse key = .ok k) : IsAddress k := by
  rcases parse_eq_ok h with ⟨cut, e, he, rfl⟩ | ⟨e, he, rfl⟩ | ⟨names, hfree, hread, rfl⟩
  · exact isAddress_of_readIndexed he
  · exact isAddress_of_readEdge he
  · have hnames := isPath_of_readPath hread hfree
    rw [← splitReserved_append names] at hnames
    exact .object hnames (by rw [splitReserved_append])

/-! ### Reading normal forms -/

section Paths

variable {source target : List String} (hs : IsObjectPath source) (ht : IsObjectPath target)
include hs ht

/-- **A connection between blanks is read back.** -/
theorem parse_spaced (a : Arrow) :
    parse (Dotted.join source ++ " " ++ a.token ++ " " ++ Dotted.join target) =
      .ok (.edge ⟨source, target, a, none, []⟩) := by
  have hkey : (Dotted.join source ++ " " ++ a.token ++ " " ++ Dotted.join target).toList =
      spaced source a target := by
    simp [spaced]
  have hbracket : '[' ∉ spaced source a target := fun hm => allowed_spaced hs ht a _ hm (by decide)
  have harrow : ¬ Arrow.Free (spaced source a target) := fun hfree =>
    hfree a ⟨(Dotted.join source).toList ++ [' '], ' ' :: (Dotted.join target).toList, by simp [spaced]⟩
  rw [← hkey] at hbracket harrow
  rw [parse_of_notMem hbracket harrow, hkey, trim_spaced hs ht a, readEdge_spaced hs ht a]
  rfl

/-- **The attribute path behind an index is read back.** -/
theorem parse_indexedEdgeKey_append (a : Arrow) {n : Nat} (hn : n < indexBound) {attr : List String}
    (hattr : IsSegmentPath attr) :
    parse (indexedEdgeKey (Dotted.join source) a (Dotted.join target) n ++ "." ++ Dotted.join attr) =
      .ok (.edge ⟨source, target, a, some n, attr⟩) := by
  have hopens : OpensSolid (indexedEdgeKey (Dotted.join source) a (Dotted.join target) n).toList :=
    opensSolid_indexedEdgeKey ..
  have hcut := indexed?_indexedEdgeKey hs ht a n
  rw [← trimStart_eq_self hopens] at hcut
  rw [parse_append_path hcut rfl hattr, readIndexed_spaced hs ht a hn]
  rfl

end Paths

/-- **The normal form of an address is read as that address.** -/
theorem parse_render_of_isAddress {k : Key} (h : IsAddress k) : parse (render k) = .ok k := by
  cases h with
  | object names cut =>
    have hparse := parse_join_of_isPath names
    rwa [cut] at hparse
  | connection hs ht arrow => exact parse_spaced hs ht arrow
  | indexed hs ht arrow hn hattr =>
    unfold render
    dsimp only
    rcases hattr with rfl | hattr
    · rw [if_pos rfl]
      exact parse_indexedEdgeKey hs ht arrow hn
    · rw [if_neg hattr.ne_nil]
      exact parse_indexedEdgeKey_append hs ht arrow hn hattr

/-- **Addresses are what keys are read as.** -/
theorem isAddress_iff {k : Key} : IsAddress k ↔ ∃ key, parse key = .ok k :=
  ⟨fun h => ⟨render k, parse_render_of_isAddress h⟩, fun ⟨_, h⟩ => isAddress_of_parse h⟩

theorem IsAddress.render_inj {k k' : Key} (h : IsAddress k) (h' : IsAddress k') :
    render k = render k' ↔ k = k' := by
  refine ⟨fun heq => ?_, fun heq => heq ▸ rfl⟩
  have hparse := parse_render_of_isAddress h'
  rw [← heq, parse_render_of_isAddress h] at hparse
  exact Except.ok.inj hparse

end Key

namespace Graph

open Edit

/-! ### Editing by normal forms -/

section Alike

variable {g : Graph} {key key' : String} {k : Key} (h : Key.parse key = .ok k)
  (h' : Key.parse key' = .ok k)
include h h'

theorem parseKey_congr : parseKey key = parseKey key' := by
  unfold parseKey
  rw [h, h']

theorem objectId_congr : (objectId key).toOption = (objectId key').toOption := by
  unfold objectId
  rw [parseKey_congr h h', toOption_bind, toOption_bind]
  refine Option.bind_congr fun k' _ => ?_
  cases k' with
  | object path attr => dsimp only; split_ifs <;> rfl
  | edge e => rfl

theorem create_congr : (g.create key).toOption = (g.create key').toOption := by
  unfold create
  rw [parseKey_congr h h', toOption_bind, toOption_bind]
  refine Option.bind_congr fun k' _ => ?_
  cases k' with
  | object path attr => dsimp only; split_ifs <;> rfl
  | edge e => dsimp only; split_ifs <;> rfl

theorem renameTarget_congr (name : String) :
    (g.renameTarget key name).toOption = (g.renameTarget key' name).toOption := by
  unfold renameTarget
  rw [parseKey_congr h h', toOption_bind, toOption_bind]
  refine Option.bind_congr fun k' _ => ?_
  cases k' with
  | object path attr => dsimp only; rw [toOption_bind, toOption_bind, objectId_congr h h']
  | edge e => rfl

/-- **Edits do not tell keys apart that are read alike**: the graph after an edit is the same, or
there is none. -/
theorem act_congr (action : Action) :
    (g.act key action).toOption.map Prod.fst = (g.act key' action).toOption.map Prod.fst := by
  have hkey := parseKey_congr h h'
  cases action with
  | create => exact congrArg _ (create_congr h h')
  | set tag value =>
    have hset : g.set key tag value = g.set key' tag value := by
      unfold set
      rw [hkey]
    unfold act
    dsimp only
    rw [hset]
    cases g.set key' tag value <;> rfl
  | delete =>
    have hdelete : g.delete key = g.delete key' := by
      unfold delete
      rw [hkey]
    unfold act
    dsimp only
    rw [hdelete]
    cases g.delete key' <;> rfl
  | move newKey withDescendants =>
    have hmove : (g.move key newKey withDescendants).toOption =
        (g.move key' newKey withDescendants).toOption := by
      unfold move
      rw [toOption_bind, toOption_bind, objectId_congr h h']
    unfold act
    dsimp only
    rw [toOption_bind, toOption_bind, hmove]
  | rename newName =>
    have hrename : (g.rename key newName).toOption = (g.rename key' newName).toOption := by
      unfold rename
      rw [toOption_bind, toOption_bind, renameTarget_congr h h']
    exact congrArg _ hrename

end Alike

end Graph

namespace Key

/-- **Keys have a normal form that is read back.** What a key is read as has a normal form, which is
read as the same again; all keys that are read as it, and no others, have that normal form. So a key
and its normal form address the same element: every edit of every graph does the same under both, or
is rejected under both. -/
theorem parse_render {key : String} {k : Key} (h : parse key = .ok k) :
    parse (render k) = .ok k ∧
      (∀ key' k', parse key' = .ok k' → (render k' = render k ↔ parse key' = parse key)) ∧
      ∀ (g : Graph) action,
        (g.act (render k) action).toOption.map Prod.fst = (g.act key action).toOption.map Prod.fst := by
  have haddress := isAddress_of_parse h
  have hback := parse_render_of_isAddress haddress
  refine ⟨hback, fun key' k' h' => ?_, fun g action => ?_⟩
  · rw [(isAddress_of_parse h').render_inj haddress, h, h', Except.ok.injEq]
  · exact Graph.act_congr hback h action

/-- Blanks around the parts, zeros in front of the index, parentheses, dashes and an angle bracket in
the names, and an arrow in the attribute path. -/
theorem parse_render_spelled :
    parse " ( (x -- > y) )[007].style . a->b\t" =
        .ok (.edge ⟨["(x"], ["> y)"], .plain, some 7, ["style", "a->b"]⟩) ∧
      parse "((x -- > y))[7].style.a->b" = parse " ( (x -- > y) )[007].style . a->b\t" := by
  have hparse : parse " ( (x -- > y) )[007].style . a->b\t" =
      .ok (.edge ⟨["(x"], ["> y)"], .plain, some 7, ["style", "a->b"]⟩) := by
    decide +kernel
  exact ⟨hparse, (parse_render hparse).1.trans hparse.symm⟩

end Key

end BoxDiagram
