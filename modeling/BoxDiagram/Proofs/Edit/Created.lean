import BoxDiagram.Proofs.Edit.IndexedKey
import BoxDiagram.Proofs.Graph.View

/-!
# Created elements: what the key that creating answers with shows

Creating an object chooses the id that is asked for, or the first free numbered one where it is taken;
creating a connection puts an edge at the end and answers with its indexed key. Either answer is read
back in the graph that creating leaves behind: the object is shown under that id, and the connection
with the endpoints and the arrow heads that were asked for (`keys_address`).
-/

namespace BoxDiagram

namespace Graph

open Edit

variable {g h : Graph} {key created : String}

/-! ### Addresses -/

/-- **The key addresses the edge at a position**: reading shows that edge, deleting removes it, and
setting writes its attributes. -/
structure Addresses (g : Graph) (key : String) (i : Nat) : Prop where
  located : g.locateEdge? key = some i
  read : g.readEdge [] key = .ok (g.edgeView? i)
  deleted : g.delete key = .ok (g.removeEdge i)
  set : ∀ tag value k, g.set key tag value = .ok k ↔ ∃ name,
    connectionAttribute tag [] = .ok name ∧ checkConnectionName name = .ok () ∧
      checkValue name value = .ok () ∧ k = g.assignEdge i name value

theorem readEdge_of_located {i : Nat} (hkey : Text.trimmed key = key)
    (h : g.locateEdge? key = some i) : g.readEdge [] key = .ok (g.edgeView? i) := by
  unfold readEdge
  rw [hkey, h]
  rfl

/-- **Indexed keys address edges** whose endpoints have ids that can be written. -/
theorem addresses_of_isId (hg : g.Integral) (hn : g.Named IsSegment) {i : Nat} {e : Edge}
    (hs : IsId e.source) (ht : IsId e.target) (hnumber : g.number i e < Key.indexBound)
    (he : g.edges[i]? = some e) (a : Arrow) :
    g.Addresses (indexedEdgeKey e.source a e.target (g.number i e)) i where
  located := locateEdge?_indexed hs ht hnumber he a hg hn
  read := readEdge_of_located (trimmed_indexedEdgeKey _ _ _ _)
    (locateEdge?_indexed hs ht hnumber he a hg hn)
  deleted := by
    obtain ⟨k, hparse, hattr, hk⟩ := parse_indexed hs ht hnumber he a
    exact (delete_eq_ok_iff hparse hattr).mpr ⟨i, hk, rfl⟩
  set tag value k' := by
    obtain ⟨k, hparse, hattr, hk⟩ := parse_indexed hs ht hnumber he a
    rw [set_eq_ok_iff hparse, hattr, hk]
    simp

/-- **Indexed keys address every edge** of a graph whose names can be written. -/
theorem addresses_indexed (hg : g.Integral) (hn : g.Named IsObjectName) {i : Nat} {e : Edge}
    (hnumber : g.number i e < Key.indexBound) (he : g.edges[i]? = some e) (a : Arrow) :
    g.Addresses (indexedEdgeKey e.source a e.target (g.number i e)) i := by
  obtain ⟨hs, ht⟩ := hg.endpoints e (List.mem_of_getElem? he)
  have hsegments : g.Named IsSegment := fun id hid => IsId.everySegment (hn id hid)
  exact addresses_of_isId hg hsegments (hn _ hs) (hn _ ht) hnumber he a

/-! ### Created objects -/

theorem freePath_of_free {path : List String} (hne : path ≠ []) (h : Dotted.join path ∉ g.ids) :
    g.freePath path = Dotted.join path := by
  have hbelow := below_dropLast hne
  unfold freePath
  rw [freeId_of_free g (hbelow ▸ h), hbelow]

theorem exists_freePath_of_mem {path : List String} (hne : path ≠ [])
    (h : Dotted.join path ∈ g.ids) : ∃ n, g.freePath path = numbered (Dotted.join path) n ∧
      numbered (Dotted.join path) n ∉ g.ids ∧ ∀ m < n, numbered (Dotted.join path) m ∈ g.ids := by
  have hbelow := below_dropLast hne
  obtain ⟨n, -, hchosen, hfree, htaken⟩ := g.exists_freeId_of_mem (hbelow ▸ h)
  simp only [below_numbered, hbelow] at hchosen hfree htaken
  exact ⟨n, hchosen, hfree, htaken⟩

/-- **Objects are read under their ids.** -/
theorem Integral.readObject_id (hh : h.Integral) {o : Object} (hid : EverySegment IsSegment o.id)
    (ho : o ∈ h.objects) : h.readObject [] o.id = .ok (some o.view) := by
  unfold readObject
  rw [hid.trimmed, hh.find?_eq ho]
  rfl

theorem readObject_of_mem (hh : h.Integral) {id : String} (hid : IsId id) (hmem : id ∈ h.ids) :
    ∃ v, h.readObject [] id = .ok (some v) ∧ v.id = id := by
  obtain ⟨o, ho, rfl⟩ := List.mem_map.mp hmem
  exact ⟨o.view, hh.readObject_id hid.everySegment ho, rfl⟩

/-! ### Created connections -/

theorem flags_view (source target id : String) (a : Arrow) :
    ((Edge.blank source a target).view id).attributes.get? "src_arrow" =
        some (.flag a.headAtSource) ∧
      ((Edge.blank source a target).view id).attributes.get? "dst_arrow" =
        some (.flag a.headAtTarget) := by
  rw [Edge.get?_view, Edge.get?_view, if_neg (by decide), if_pos rfl, if_pos rfl]
  exact ⟨rfl, rfl⟩

/-- **The edge at the end is addressed** by the number of edges in front of it. -/
theorem addresses_last_of_isId (hh : h.Integral) (hn : h.Named IsSegment) {es : List Edge} {e : Edge}
    (hs : IsId e.source) (ht : IsId e.target) (hedges : h.edges = es ++ [e])
    (hsize : es.length < Key.indexBound) (a : Arrow) :
    h.Addresses (indexedEdgeKey e.source a e.target (es.countP (Edge.joins e.source e.target)))
      es.length := by
  have he : h.edges[es.length]? = some e := by
    rw [hedges]
    exact List.getElem?_concat_length
  have hnumber : h.number es.length e = es.countP (Edge.joins e.source e.target) := by
    rw [number, hedges, List.take_left]
  have hle : es.countP (Edge.joins e.source e.target) ≤ es.length := List.countP_le_length
  rw [← hnumber]
  exact addresses_of_isId hh hn hs ht (by omega) he a

theorem Integral.edgeView?_last (hh : h.Integral) {es : List Edge} {e : Edge}
    (hedges : h.edges = es ++ [e]) : h.edgeView? es.length = some (e.view e.publicId) := by
  have he : h.edges[es.length]? = some e := by
    rw [hedges]
    exact List.getElem?_concat_length
  unfold edgeView?
  rw [he, Option.map_some, publicIdOf_of_integral hh (List.mem_of_getElem? he)]

theorem addresses_last (hh : h.Integral) (hn : h.Named IsObjectName) {es : List Edge} {e : Edge}
    (hedges : h.edges = es ++ [e]) (hsize : es.length < Key.indexBound) (a : Arrow) :
    h.Addresses (indexedEdgeKey e.source a e.target (es.countP (Edge.joins e.source e.target)))
        es.length ∧ h.edgeView? es.length = some (e.view e.publicId) := by
  have he : e ∈ h.edges := by rw [hedges]; simp
  obtain ⟨hs, ht⟩ := hh.endpoints e he
  have hsegments : h.Named IsSegment := fun id hid => IsId.everySegment (hn id hid)
  exact ⟨addresses_last_of_isId hh hsegments (hn _ hs) (hn _ ht) hedges hsize a,
    hh.edgeView?_last hedges⟩

/-! ### All keys -/

/-- **Every edge has an address, and what is created is read back.** In a graph whose names can be
written, the indexed key of an edge, with any arrow, addresses its position. The id of a created object
is the one that is asked for if it is free, and otherwise the first free numbered one, and the object
is read under it. The key of a created connection reads the edge at the end, with the endpoints and
the arrow heads that are asked for. -/
theorem keys_address (hg : g.Integral) (hn : g.Named IsObjectName)
    (hsize : g.edges.length < Key.indexBound) :
    (∀ i e a, g.edges[i]? = some e →
      g.Addresses (indexedEdgeKey e.source a e.target (g.number i e)) i) ∧
    ∀ board key h created, g.perform board key .create = .ok (h, created) →
      (∃ path, Key.parse key = .ok (.object path []) ∧
        (∃ v, h.readObject board created = .ok (some v) ∧ v.id = created) ∧
        (Dotted.join path ∉ g.ids → created = Dotted.join path) ∧
        (Dotted.join path ∈ g.ids → ∃ n, created = numbered (Dotted.join path) n ∧
          created ∉ g.ids ∧ ∀ m < n, numbered (Dotted.join path) m ∈ g.ids)) ∨
      ∃ k, Key.parse key = .ok (.edge k) ∧ k.attr = [] ∧
        h.edges = g.edges ++ [.blank k.sourceId k.arrow k.targetId] ∧
        h.Addresses created g.edges.length ∧
        ∃ v, h.readEdge board created = .ok (some v) ∧
          (v.source = k.sourceId ∧ v.target = k.targetId) ∧
          v.attributes.get? "src_arrow" = some (.flag k.arrow.headAtSource) ∧
          v.attributes.get? "dst_arrow" = some (.flag k.arrow.headAtTarget) := by
  refine ⟨fun i e a he => addresses_indexed hg hn ?_ he a, fun board key h created hp => ?_⟩
  · have hnumber := number_le_length g i e
    omega
  obtain ⟨rfl, h', hact, rfl⟩ := perform_eq_ok_iff.mp hp
  have hedited : g.Edited .create h' := edited_of_create hact
  have hintegral : h'.Integral := hedited.integral hg
  have hnamed : h'.Named IsObjectName := hedited.named hg hn (fun _ hs => hs) (by simp)
  have hfresh : h'.refresh.Integral := hintegral.withStatements _
  have hwritable : h'.refresh.Named IsObjectName := hnamed
  obtain ⟨parsed, hparse⟩ := exists_parse_of_create hact
  cases parsed with
  | object path attr =>
    left
    obtain ⟨rfl, hpath, hid, rfl⟩ := of_create_object hparse hact
    have hwritten : IsId created := hid ▸ isId_freePath hpath
    refine ⟨path, hparse, ?read, fun hfree => ?free, fun htaken => ?taken⟩
    case read => exact readObject_of_mem hfresh hwritten (mem_ids_ensure g created)
    case free => exact hid.trans (freePath_of_free hpath.ne_nil hfree)
    case taken =>
      obtain ⟨n, hchosen, hfree, hbefore⟩ := exists_freePath_of_mem hpath.ne_nil htaken
      have hcreated : created = numbered (Dotted.join path) n := hid.trans hchosen
      exact ⟨n, hcreated, hcreated ▸ hfree, hbefore⟩
  | edge k =>
    right
    obtain ⟨hattr, hh, hid⟩ := of_create_edge hparse hact
    have hedges : h'.refresh.edges = g.edges ++ [.blank k.sourceId k.arrow k.targetId] := by
      rw [hh]
      rfl
    have hlength : (g.edgesBetween k.sourceId k.targetId).length =
        g.edges.countP (Edge.joins k.sourceId k.targetId) := length_positionsFrom _ _ _
    obtain ⟨haddress, hview⟩ := addresses_last hfresh hwritable hedges hsize k.arrow
    have hcreated : created = indexedEdgeKey k.sourceId k.arrow k.targetId
        (g.edges.countP (Edge.joins k.sourceId k.targetId)) := by rw [hid, hlength]
    rw [hcreated]
    refine ⟨k, hparse, hattr, hedges, haddress, _, haddress.read.trans (congrArg Except.ok hview), ?_⟩
    exact ⟨⟨rfl, rfl⟩, flags_view k.sourceId k.targetId _ k.arrow⟩

/-- Two edges from an object with a parenthesis and a dash in its name, and one that leads back. -/
def crossed : Graph where
  objects := [.blank "x ) -", .blank "b"]
  edges := [.blank "x ) -" .forward "b", .blank "b" .plain "x ) -", .blank "x ) -" .both "b"]
  board := ∅
  statements := none

/-- The second of the two edges has its address, with another arrow; a taken id is numbered; and a
third edge between the two is addressed behind all others. -/
theorem keys_address_crossed : crossed.Addresses "(x ) - <- b)[1]" 2 ∧
    (∃ h v, crossed.perform [] "b" .create = .ok (h, "b 2") ∧
      h.readObject [] "b 2" = .ok (some v) ∧ v.id = "b 2") ∧
    ∃ h, crossed.perform [] "x ) - -- b" .create = .ok (h, "(x ) - -- b)[2]") ∧
      h.Addresses "(x ) - -- b)[2]" 3 := by
  have hnamed : ∀ id ∈ crossed.ids, IsId id := by decide +kernel
  have hintegral : crossed.Integral := ⟨by decide +kernel, by decide +kernel, by decide +kernel⟩
  obtain ⟨hindexed, hcreated⟩ := keys_address hintegral hnamed (by decide)
  have hobject : crossed.perform [] "b" .create = .ok ((crossed.ensure "b 2").refresh, "b 2") := by
    decide +kernel
  have hconnection : crossed.perform [] "x ) - -- b" .create =
      .ok ((crossed.addEdge (.blank "x ) -" .plain "b")).refresh, "(x ) - -- b)[2]") := by
    decide +kernel
  have hname : Key.parse "b" = .ok (.object ["b"] []) := by decide +kernel
  have hends : Key.parse "x ) - -- b" = .ok (.edge ⟨["x ) -"], ["b"], .plain, none, []⟩) := by
    decide +kernel
  refine ⟨hindexed 2 (.blank "x ) -" .both "b") .backward rfl, ?object, ?connection⟩
  case object =>
    rcases hcreated [] "b" _ _ hobject with ⟨path, -, ⟨v, hv, hid⟩, -⟩ | ⟨k, hparse, -⟩
    · exact ⟨_, v, hobject, hv, hid⟩
    · cases hname.symm.trans hparse
  case connection =>
    rcases hcreated [] _ _ _ hconnection with ⟨path, hparse, -⟩ | ⟨k, -, -, -, haddress, -⟩
    · cases hends.symm.trans hparse
    · exact ⟨_, hconnection, haddress⟩

/-- A graph with one object. -/
def occupied : Graph := ⟨[.blank "a"], [], ∅, none⟩

/-- **The id that is asked for need not be the one that is shown**: where it is taken, the object is
created under a numbered id, and shown with that one. -/
theorem created_under_numbered_id : occupied.Integral ∧ occupied.Named IsObjectName ∧
    Key.parse "a" = .ok (.object ["a"] []) ∧
    ∃ h v, occupied.perform [] "a" .create = .ok (h, "a 2") ∧
      h.readObject [] "a 2" = .ok (some v) ∧ v.id ≠ Dotted.join ["a"] := by
  have hnamed : ∀ id ∈ occupied.ids, IsId id := by decide +kernel
  have hintegral : occupied.Integral := ⟨by decide +kernel, by decide +kernel, by decide +kernel⟩
  refine ⟨hintegral, hnamed, by decide +kernel, ?_⟩
  exact ⟨(Graph.mk [.blank "a", .blank "a 2"] [] ∅ none).refresh, (Object.blank "a 2").view,
    by decide +kernel, by decide +kernel, by decide +kernel⟩

end Graph

end BoxDiagram
