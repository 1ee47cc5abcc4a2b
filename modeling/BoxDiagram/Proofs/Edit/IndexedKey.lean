import BoxDiagram.Proofs.Edit.PublicId

/-!
# Indexed keys: an address for every edge

The key of an edge with its number among those between the same endpoints is read back, whatever
parentheses, dashes and angle brackets its names hold (`parse_indexedEdgeKey`): no name holds an
opening bracket, so the index is found behind the only one, and the arrow of the key stands between
blanks. No public id holds a bracket either, and so reading, setting and deleting by that key all act
on that very edge, as long as the ids of its endpoints can be written (`locateEdge?_indexed`). An
attribute path stands behind the index, after a dot (`parse_append_path`).
-/

namespace BoxDiagram

open Text

namespace Key

/-! ### Reading an index -/

theorem readBelow?_toString {n bound : Nat} (h : n < bound) :
    readBelow? bound (toString n) = some n := by
  have hdigits : ∀ c ∈ (toString n).toList, c.isDigit = true := fun c hc =>
    Graph.isDigit_of_mem_toString hc
  have hne : (toString n).toList ≠ [] := (Graph.closesSolid_toString n).ne_nil
  have hplus : dropPlus (toString n).toList = (toString n).toList := by
    obtain ⟨c, r, hcr⟩ := List.exists_cons_of_ne_nil hne
    have hc : c.isDigit = true := hdigits c (by rw [hcr]; simp)
    rw [hcr]
    unfold dropPlus
    split
    · next heq =>
      obtain ⟨rfl, -⟩ := List.cons.inj heq
      exact absurd hc (by decide)
    · rfl
  have hvalue : digitsValue (toString n).toList = n := Graph.ofDigitChars_toString n
  unfold readBelow?
  rw [hplus]
  dsimp only
  rw [hvalue]
  exact if_pos ⟨hne, List.all_eq_true.mpr hdigits, h⟩

section Cut

variable {inner digits tail : List Char} {attr : Option (List Char)}

theorem readIndex?_append (hdigits : ∀ c ∈ digits, isDecimalDigit c = true) (hne : digits ≠ [])
    (htail : readTail? tail = some attr) :
    readIndex? (')' :: '[' :: (digits ++ ']' :: tail)) = some (digits, attr) := by
  have hbracket : isDecimalDigit ']' = false := by decide
  have htake : (digits ++ ']' :: tail).takeWhile isDecimalDigit = digits := by
    rw [List.takeWhile_append_of_pos hdigits, List.takeWhile_cons_of_neg (by simp [hbracket]),
      List.append_nil]
  have hdrop : (digits ++ ']' :: tail).dropWhile isDecimalDigit = ']' :: tail := by
    rw [List.dropWhile_append_of_pos hdigits, List.dropWhile_cons_of_neg (by simp [hbracket])]
  simp only [readIndex?, hdrop, htake, if_neg hne, htail, Option.map_some]

theorem cutIndexed?_close {cs : List Char} (h : '[' ∉ cs) : cutIndexed? (')' :: '[' :: cs) = none := by
  have hopen : cutIndexed? ('[' :: cs) = none := by
    rw [cutIndexed?, if_neg (by decide), cutIndexed?_eq_none h, readIndex?_eq_none h]
    rfl
  rw [cutIndexed?, if_neg (by decide), hopen]
  rfl

/-- **The text in the parentheses is cut off in front of the only bracket.** -/
theorem cutIndexed?_append (hinner : inner ≠ []) (hnewline : '\n' ∉ inner)
    (hdigits : ∀ c ∈ digits, isDecimalDigit c = true) (hne : digits ≠ [])
    (hbracket : '[' ∉ digits ++ ']' :: tail) (htail : readTail? tail = some attr) :
    cutIndexed? (inner ++ ')' :: '[' :: (digits ++ ']' :: tail)) = some ⟨inner, digits, attr⟩ := by
  induction inner with
  | nil => exact absurd rfl hinner
  | cons c inner ih =>
    obtain ⟨hc, hrest⟩ := not_or.mp fun hm => hnewline (List.mem_cons.mpr hm)
    rw [List.cons_append, cutIndexed?, if_neg (Ne.symm hc)]
    cases inner with
    | nil =>
      rw [List.nil_append, cutIndexed?_close hbracket, readIndex?_append hdigits hne htail]
      rfl
    | cons d inner =>
      rw [ih (by simp) hrest]

theorem of_readIndex? {cs : List Char} (h : readIndex? cs = some (digits, attr)) :
    (∀ c ∈ digits, isDecimalDigit c = true) ∧ digits ≠ [] ∧
      ∃ tail, cs = ')' :: '[' :: (digits ++ ']' :: tail) ∧ readTail? tail = some attr := by
  unfold readIndex? at h
  split at h
  · next rest =>
    dsimp only at h
    split at h
    · next tail hdrop =>
      split_ifs at h with hdigits
      obtain ⟨attr', htail, heq⟩ := Option.map_eq_some_iff.mp h
      obtain ⟨rfl, rfl⟩ := Prod.mk.inj heq
      refine ⟨fun c hc => List.mem_takeWhile_imp hc, hdigits, tail, ?_, htail⟩
      rw [← hdrop, List.takeWhile_append_dropWhile]
    · simp at h
  · simp at h

theorem of_cutIndexed? : ∀ {cs : List Char} {cut : Indexed}, cutIndexed? cs = some cut →
    (cut.inner ≠ [] ∧ '\n' ∉ cut.inner) ∧
      ((∀ c ∈ cut.index, isDecimalDigit c = true) ∧ cut.index ≠ []) ∧
        ∃ tail, cs = cut.inner ++ ')' :: '[' :: (cut.index ++ ']' :: tail) ∧
          readTail? tail = some cut.attr
  | [], _, h => by simp [cutIndexed?] at h
  | c :: cs, cut, h => by
    rw [cutIndexed?] at h
    split_ifs at h with hc
    split at h
    · next cut' hcut =>
      obtain ⟨⟨-, hnewline⟩, hindex, tail, rfl, htail⟩ := of_cutIndexed? hcut
      obtain rfl := Option.some.inj h
      exact ⟨⟨by simp, by simp [Ne.symm hc, hnewline]⟩, hindex, tail, by simp, htail⟩
    · obtain ⟨⟨digits, attr⟩, hread, heq⟩ := Option.map_eq_some_iff.mp h
      obtain ⟨hdigits, hne, tail, rfl, htail⟩ := of_readIndex? hread
      obtain rfl := heq
      exact ⟨⟨by simp, by simpa using Ne.symm hc⟩, ⟨hdigits, hne⟩, tail, rfl, htail⟩

end Cut

/-! ### Attributes of an indexed connection -/

theorem indexed?_append {cs : List Char} {cut : Indexed} (hcut : indexed? cs = some cut)
    (hattr : cut.attr = none) {path : List String} (hp : IsSegmentPath path) :
    indexed? (cs ++ '.' :: (Dotted.join path).toList) =
      some { cut with attr := some (Dotted.join path).toList } := by
  have htail : readTail? ('.' :: (Dotted.join path).toList) = some (some (Dotted.join path).toList) :=
    if_pos ⟨hp.opensSolid.ne_nil, fun hm => hp.allowed _ hm (by decide)⟩
  unfold indexed? at hcut
  split at hcut
  · next rest =>
    obtain ⟨⟨hinner, hnewline⟩, ⟨hdigits, hne⟩, tail, rfl, hnone⟩ := of_cutIndexed? hcut
    obtain rfl : tail = [] := by
      rw [hattr] at hnone
      unfold readTail? at hnone
      split at hnone
      · rfl
      · split_ifs at hnone
        simp at hnone
      · simp at hnone
    have hbracket : '[' ∉ cut.index ++ ']' :: '.' :: (Dotted.join path).toList := by
      intro hm
      simp only [List.mem_append, List.mem_cons] at hm
      rcases hm with hm | hm | hm | hm
      · exact absurd (hdigits _ hm) (by decide)
      · exact absurd hm (by decide)
      · exact absurd hm (by decide)
      · exact hp.allowed _ hm (by decide)
    have happend := cutIndexed?_append hinner hnewline hdigits hne hbracket htail
    simpa [indexed?] using happend
  · simp at hcut

/-- **The key of an attribute of an indexed connection** is the key of the connection, a dot and the
attribute path. Blanks in front of the key of the connection do not count. -/
theorem parse_append_path {e : String} {cut : Indexed}
    (hcut : indexed? (trimStart e.toList) = some cut) (hattr : cut.attr = none) {path : List String}
    (hp : IsSegmentPath path) : parse (e ++ "." ++ Dotted.join path) =
      (readIndexed cut).map fun k => .edge { k with attr := path } := by
  have hne : trimStart e.toList ≠ [] := fun hnil => by simp [hnil, indexed?] at hcut
  have hstart : trimStart (e ++ "." ++ Dotted.join path).toList =
      trimStart e.toList ++ '.' :: (Dotted.join path).toList := by
    unfold trimStart at hne ⊢
    rw [String.toList_append, String.toList_append, List.append_assoc, List.dropWhile_append,
      if_neg (by simpa using hne)]
    rfl
  have hcloses : ClosesSolid (trimStart e.toList ++ '.' :: (Dotted.join path).toList) := by
    have happend := hp.closesSolid.append (trimStart e.toList ++ ['.'])
    simpa using happend
  have htrim : trim (e ++ "." ++ Dotted.join path).toList =
      trimStart e.toList ++ '.' :: (Dotted.join path).toList := by
    unfold trim
    rw [hstart, trimEnd_eq_self hcloses]
  have hpath : readPath (Dotted.join path).toList = .ok path :=
    readPath_join_of_segments hp hp.trim_join
  unfold parse
  dsimp only
  rw [htrim, if_neg (by simp), indexed?_append hcut hattr hp]
  dsimp only
  unfold readIndexed
  rw [hattr]
  dsimp only
  cases readEdge cut.inner with
  | error err => rfl
  | ok k =>
    simp only [ok_bind]
    cases readBelow? indexBound (String.ofList cut.index) with
    | none => rfl
    | some n =>
      dsimp only
      rw [hpath]
      rfl

theorem opensSolid_indexedEdgeKey (source : String) (a : Arrow) (target : String) (n : Nat) :
    OpensSolid (indexedEdgeKey source a target n).toList := by
  unfold indexedEdgeKey
  simp only [String.toList_append, List.append_assoc]
  exact opensSolid_cons.mpr (by decide)

theorem closesSolid_indexedEdgeKey (source : String) (a : Arrow) (target : String) (n : Nat) :
    ClosesSolid (indexedEdgeKey source a target n).toList := by
  unfold indexedEdgeKey
  rw [String.toList_append]
  exact ClosesSolid.append ⟨']', by decide⟩ _

theorem trim_indexedEdgeKey (source : String) (a : Arrow) (target : String) (n : Nat) :
    trim (indexedEdgeKey source a target n).toList = (indexedEdgeKey source a target n).toList :=
  trim_eq_self (opensSolid_indexedEdgeKey ..) (closesSolid_indexedEdgeKey ..)

/-! ### Reading an indexed connection -/

/-- The text of a connection, with blanks around the arrow. -/
def spaced (source : List String) (a : Arrow) (target : List String) : List Char :=
  (Dotted.join source).toList ++ ' ' :: (a.token.toList ++ ' ' :: (Dotted.join target).toList)

section Paths

variable {source target : List String} (hs : IsObjectPath source) (ht : IsObjectPath target)
include hs ht

theorem trim_spaced (a : Arrow) : trim (spaced source a target) = spaced source a target := by
  refine trim_eq_self (hs.isPath.opensSolid.append _) ?_
  have hcloses := ht.isPath.closesSolid.append
    ((Dotted.join source).toList ++ ' ' :: (a.token.toList ++ [' ']))
  simpa [spaced] using hcloses

theorem readEdge_spaced (a : Arrow) :
    readEdge (spaced source a target) = .ok ⟨source, target, a, none, []⟩ := by
  have hcut : Arrow.cut (trim (spaced source a target)) =
      ((Dotted.join source).toList ++ [' '], [(a, ' ' :: (Dotted.join target).toList)]) := by
    rw [trim_spaced hs ht a, spaced, Arrow.cut_append_token hs.isPath.free,
      Arrow.cut_of_free ht.isPath.free]
  have hsource : trim ((Dotted.join source).toList ++ [' ']) = trim (Dotted.join source).toList :=
    trim_concat (by decide) _
  have htarget : trim (' ' :: (Dotted.join target).toList) = trim (Dotted.join target).toList :=
    trim_cons_of_blank (by decide) _
  rw [readEdge_of_cut hcut, hsource, htarget, readEndpoint_join hs, readEndpoint_join ht]
  rfl

theorem allowed_spaced (a : Arrow) : ∀ c ∈ spaced source a target, c ∉ forbidden := by
  intro c hc
  simp only [spaced, List.mem_append, List.mem_cons] at hc
  rcases hc with hc | rfl | hc | rfl | hc
  · exact hs.isPath.allowed c hc
  · decide
  · rcases Arrow.mem_token hc with rfl | rfl | rfl <;> decide
  · decide
  · exact ht.isPath.allowed c hc

/-- **An indexed key is cut at its index**, whatever the names of the endpoints. -/
theorem indexed?_indexedEdgeKey (a : Arrow) (n : Nat) :
    indexed? (indexedEdgeKey (Dotted.join source) a (Dotted.join target) n).toList =
      some ⟨spaced source a target, (toString n).toList, none⟩ := by
  have hne : spaced source a target ≠ [] := by simp [spaced]
  have hnewline : '\n' ∉ spaced source a target := fun hm =>
    allowed_spaced hs ht a _ hm (by decide)
  have hbracket : '[' ∉ (toString n).toList ++ [']'] := by
    rw [List.mem_append, not_or]
    exact ⟨Graph.notMem_toString (by decide), by decide⟩
  have hcut := cutIndexed?_append hne hnewline
    (fun c hc => isDecimalDigit_of_isDigit (Graph.isDigit_of_mem_toString hc))
    (Graph.closesSolid_toString n).ne_nil hbracket rfl
  simpa [indexedEdgeKey, indexed?, spaced] using hcut

theorem readIndexed_spaced (a : Arrow) {n : Nat} (hn : n < indexBound) :
    readIndexed ⟨spaced source a target, (toString n).toList, none⟩ =
      .ok ⟨source, target, a, some n, []⟩ := by
  unfold readIndexed
  dsimp only
  rw [readEdge_spaced hs ht a, ok_bind, String.ofList_toList, readBelow?_toString hn]

/-- **Indexed keys are read back**, whatever the names of the endpoints. -/
theorem parse_indexedEdgeKey (a : Arrow) {n : Nat} (hn : n < indexBound) :
    parse (indexedEdgeKey (Dotted.join source) a (Dotted.join target) n) =
      .ok (.edge ⟨source, target, a, some n, []⟩) := by
  have hcut := indexed?_indexedEdgeKey hs ht a n
  have hne : (indexedEdgeKey (Dotted.join source) a (Dotted.join target) n).toList ≠ [] := by
    simp [indexedEdgeKey]
  unfold parse
  dsimp only
  rw [trim_indexedEdgeKey, if_neg hne, hcut]
  dsimp only
  rw [readIndexed_spaced hs ht a hn]
  rfl

end Paths

end Key

namespace Graph

open Edit

variable {g : Graph} {e : Edge} {i : Nat}

/-! ### The number of an edge -/

/-- The number of an edge at a position among those with its endpoints. -/
def number (g : Graph) (i : Nat) (e : Edge) : Nat :=
  (g.edges.take i).countP (Edge.joins e.source e.target)

theorem number_le_length (g : Graph) (i : Nat) (e : Edge) : g.number i e ≤ g.edges.length :=
  List.countP_le_length.trans (List.length_take_le' i g.edges)

theorem trimmed_indexedEdgeKey (source target : String) (a : Arrow) (n : Nat) :
    Text.trimmed (indexedEdgeKey source a target n) = indexedEdgeKey source a target n := by
  rw [Text.trimmed, Key.trim_indexedEdgeKey, String.ofList_toList]

theorem bracket_mem_indexedEdgeKey (source target : String) (a : Arrow) (n : Nat) :
    '[' ∈ (indexedEdgeKey source a target n).toList := by
  simp [indexedEdgeKey]

/-- No public id is an indexed key, since no segment holds a bracket. -/
theorem findEdge?_eq_none (hg : g.Integral) (hn : g.Named IsSegment) {id : String}
    (hid : '[' ∈ id.toList) : g.findEdge? id = none := by
  unfold findEdge?
  rw [publicIds_of_integral hg, List.findIdx?_eq_none_iff, List.forall_mem_map]
  intro e he
  obtain ⟨hs, ht⟩ := hg.endpoints e he
  have hnone : '[' ∉ e.publicId.toList :=
    Key.notMem_edgeId (hn _ hs).allowed (hn _ ht).allowed (by decide)
  exact decide_eq_false fun heq => hnone (heq ▸ hid)

section Endpoints
variable (hs : IsId e.source) (ht : IsId e.target) (hnumber : g.number i e < Key.indexBound)
  (he : g.edges[i]? = some e) (a : Arrow)
include hs ht hnumber he

/-- **The indexed key of an edge addresses its position.** -/
theorem parse_indexed : ∃ k, Key.parse (indexedEdgeKey e.source a e.target (g.number i e)) =
    .ok (.edge k) ∧ k.attr = [] ∧ g.edgeAt? k = some i := by
  have hparse := Key.parse_indexedEdgeKey hs.isObjectPath ht.isObjectPath a hnumber
  rw [Dotted.join_segments, Dotted.join_segments] at hparse
  refine ⟨_, hparse, rfl, edgeAt?_eq_some_iff.mpr ⟨e, he, ?_⟩⟩
  unfold EdgeKey.sourceId EdgeKey.targetId
  rw [Dotted.join_segments, Dotted.join_segments]
  exact ⟨⟨rfl, rfl⟩, rfl⟩

theorem locateEdge?_indexed (hg : g.Integral) (hn : g.Named IsSegment) :
    g.locateEdge? (indexedEdgeKey e.source a e.target (g.number i e)) = some i := by
  obtain ⟨k, hparse, hattr, hk⟩ := parse_indexed hs ht hnumber he a
  unfold locateEdge?
  rw [findEdge?_eq_none hg hn (bracket_mem_indexedEdgeKey _ _ _ _), hparse]
  dsimp only
  rw [if_pos hattr, hk]

end Endpoints

end Graph

end BoxDiagram
