import BoxDiagram.Edit.Request
import BoxDiagram.Proofs.Edit.Connection
import BoxDiagram.Proofs.Key
import BoxDiagram.Proofs.Run

/-!
# Public ids: when they are keys

The public id of an edge is its source and its target with `->` in between and no blanks around it.
Among public ids it stands for the first edge between the endpoints, since it determines them
(`edgeId_injective`). Read as a key, it is cut at its first arrow; that arrow is the one in between
exactly if the source does not run on into it, that is, if it ends neither in `<` nor in a dash
(`parse_edgeId`, `sourceId_ne_of_runsOn`). So edits, which know keys only, reach the edge by its
public id exactly if its source does not run on (`publicId_addresses_iff`).
-/

namespace BoxDiagram

open Text

theorem toList_edgeId (source target : String) :
    (edgeId source target).toList = source.toList ++ '-' :: '>' :: target.toList := by
  simp [edgeId]

/-- Where two ids are equal, the one whose source is shorter has its arrow where that of the other one
is, or holds a second one. -/
theorem eq_nil_or_of_edgeId {u t t' : List Char} (heq : '-' :: '>' :: t = u ++ '-' :: '>' :: t') :
    u = [] ∨ ∃ w, u = '-' :: '>' :: w ∧ t = w ++ '-' :: '>' :: t' := by
  rcases u with _ | ⟨c, _ | ⟨d, w⟩⟩
  · exact Or.inl rfl
  · simp at heq
  · obtain ⟨rfl, rfl, ht⟩ : '-' = c ∧ '>' = d ∧ t = w ++ '-' :: '>' :: t' := by simpa using heq
    exact Or.inr ⟨w, rfl, ht⟩

/-- A source without arrows does not reach into the arrow of an equal id. -/
theorem eq_nil_of_edgeId {s u t t' : List Char} (h : Arrow.Free (s ++ u))
    (heq : '-' :: '>' :: t = u ++ '-' :: '>' :: t') : u = [] := by
  refine (eq_nil_or_of_edgeId heq).resolve_right ?_
  rintro ⟨w, rfl, -⟩
  exact h .forward ⟨s, w, by simp [Arrow.token]⟩

theorem eq_nil_of_edgeId_of_target {u t t' : List Char} (h : Arrow.Free t)
    (heq : '-' :: '>' :: t = u ++ '-' :: '>' :: t') : u = [] := by
  refine (eq_nil_or_of_edgeId heq).resolve_right ?_
  rintro ⟨w, -, rfl⟩
  exact h .forward ⟨w, t', by simp [Arrow.token]⟩

/-- Equal public ids have equal endpoints if neither source is longer than the other. -/
theorem eq_of_edgeId {s s' t t' : String} (h : edgeId s t = edgeId s' t')
    (hs : ∀ u, s'.toList = s.toList ++ u → '-' :: '>' :: t.toList = u ++ '-' :: '>' :: t'.toList →
      u = [])
    (hs' : ∀ u, s.toList = s'.toList ++ u → '-' :: '>' :: t'.toList = u ++ '-' :: '>' :: t.toList →
      u = []) : s = s' ∧ t = t' := by
  have hlists := congrArg String.toList h
  rw [toList_edgeId, toList_edgeId] at hlists
  suffices hsource : s.toList = s'.toList by
    rw [hsource, List.append_cancel_left_eq, List.cons.injEq, List.cons.injEq] at hlists
    exact ⟨String.toList_injective hsource, String.toList_injective hlists.2.2⟩
  rcases List.append_eq_append_iff.mp hlists with ⟨u, hu, heq⟩ | ⟨u, hu, heq⟩
  · obtain rfl := hs u hu heq
    rw [hu, List.append_nil]
  · obtain rfl := hs' u hu heq
    rw [hu, List.append_nil]

/-- **A public id determines the endpoints**, if the sources are free of arrows. -/
theorem edgeId_injective {s s' t t' : String} (hs : Arrow.Free s.toList)
    (hs' : Arrow.Free s'.toList) (h : edgeId s t = edgeId s' t') : s = s' ∧ t = t' :=
  eq_of_edgeId h (fun _ hu => eq_nil_of_edgeId (hu ▸ hs'))
    fun _ hu => eq_nil_of_edgeId (hu ▸ hs)

/-- **A public id of endpoints that are free of arrows** is that of no others, whatever these hold. -/
theorem edgeId_injective_of_free {s s' t t' : String} (hs : Arrow.Free s.toList)
    (ht : Arrow.Free t.toList) (h : edgeId s t = edgeId s' t') : s = s' ∧ t = t' :=
  eq_of_edgeId h (fun _ _ => eq_nil_of_edgeId_of_target ht)
    fun _ hu => eq_nil_of_edgeId (hu ▸ hs)

namespace Key

/-! ### Reading a connection of two endpoints -/

theorem sublist_intercalate_trim : ∀ ls : List (List Char),
    (['.'].intercalate (ls.map trim)).Sublist (['.'].intercalate ls)
  | [] => List.Sublist.refl _
  | [l] => by simpa using (trim_isInfix l).sublist
  | l :: m :: rest => by
    rw [List.map_cons, List.map_cons, List.intercalate_cons_cons, List.intercalate_cons_cons,
      ← List.map_cons]
    exact ((trim_isInfix l).sublist.append (List.Sublist.refl _)).append
      (sublist_intercalate_trim (m :: rest))

/-- **A path that is read is no longer than its text**, since all it leaves out are blanks. -/
theorem length_join_le {cs : List Char} {path : List String} (h : readPath cs = .ok path) :
    (Dotted.join path).toList.length ≤ cs.length := by
  obtain ⟨-, -, -, rfl⟩ := readPath_eq_ok_iff.mp h
  have hsub := sublist_intercalate_trim ((trim cs).splitOn '.')
  rw [List.intercalate_splitOn] at hsub
  rw [Dotted.toList_join, List.map_map, List.map_congr_left (g := id) (by simp), List.map_id]
  exact (hsub.trans (trim_isInfix cs).sublist).length_le

theorem readEndpoint_join {path : List String} (h : IsObjectPath path) :
    readEndpoint (trim (Dotted.join path).toList) = .ok path := by
  have hnone : path.any Attribute.isReserved = false := by simpa using h.notReserved
  unfold readEndpoint
  rw [h.isPath.trim_join, readPath_join h.isPath h.isPath.trim_join, ok_bind, hnone]
  rfl

/-- A text with a single arrow is read as the connection of the texts around it. -/
theorem readEdge_of_cut {cs first last : List Char} {a : Arrow}
    (h : Arrow.cut (trim cs) = (first, [(a, last)])) : readEdge cs = do
      let source ← readEndpoint (trim first)
      let target ← readEndpoint (trim last)
      return ⟨source, target, a, none, []⟩ := by
  have hsplit : splitChain? (trim cs) = some ([trim first, trim last], [a]) := by
    unfold splitChain?
    rw [h]
    rfl
  unfold readEdge readChain
  dsimp only
  rw [hsplit]
  dsimp only
  cases hsource : readEndpoint (trim first) with
  | error e => simp only [List.mapM_cons, hsource, error_bind]
  | ok source =>
    cases htarget : readEndpoint (trim last) with
    | error e => simp only [List.mapM_cons, hsource, htarget, ok_bind, error_bind]
    | ok target =>
      simp only [List.mapM_cons, List.mapM_nil, hsource, htarget, ok_bind]
      rfl

theorem parse_of_notMem {key : String} (hbracket : '[' ∉ key.toList)
    (harrow : ¬ Arrow.Free key.toList) :
    parse key = (readEdge (trim key.toList)).map .edge := by
  have hne : trim key.toList ≠ [] := fun hnil =>
    harrow (free_trim_iff.mp (hnil ▸ Arrow.free_nil))
  have hindexed : indexed? (trim key.toList) = none :=
    indexed?_eq_none fun hm => hbracket ((trim_isInfix _).subset hm)
  have hcut : (Arrow.cut (trim key.toList)).2 ≠ [] := fun hnil =>
    harrow (free_trim_iff.mp (Arrow.cut_snd_eq_nil_iff.mp hnil))
  unfold parse
  dsimp only
  rw [if_neg hne, hindexed]
  dsimp only
  rw [if_pos hcut]
  cases readEdge (trim key.toList) <;> rfl

/-! ### Reading a public id -/

theorem notMem_edgeId {source target : String} (hs : ∀ c ∈ source.toList, c ∉ forbidden)
    (ht : ∀ c ∈ target.toList, c ∉ forbidden) {c : Char} (hc : c ∈ forbidden) :
    c ∉ (edgeId source target).toList := by
  intro hm
  simp only [toList_edgeId, List.mem_append, List.mem_cons] at hm
  rcases hm with hm | rfl | rfl | hm
  · exact hs _ hm hc
  · exact absurd hc (by decide)
  · exact absurd hc (by decide)
  · exact ht _ hm hc

section PublicId
variable {source target : List String} (hs : IsObjectPath source) (ht : IsObjectPath target)
include hs ht

theorem trim_edgeId : trim (edgeId (Dotted.join source) (Dotted.join target)).toList =
    (edgeId (Dotted.join source) (Dotted.join target)).toList := by
  rw [toList_edgeId]
  refine trim_eq_self (hs.isPath.opensSolid.append _) ?_
  simpa using ht.isPath.closesSolid.append ((Dotted.join source).toList ++ ['-', '>'])

theorem parse_edgeId_of_cut {first last : List Char} {a : Arrow}
    (h : Arrow.cut (edgeId (Dotted.join source) (Dotted.join target)).toList = (first, [(a, last)])) :
    parse (edgeId (Dotted.join source) (Dotted.join target)) = do
      let source ← readEndpoint (trim first)
      let target ← readEndpoint (trim last)
      return .edge ⟨source, target, a, none, []⟩ := by
  have hbracket : '[' ∉ (edgeId (Dotted.join source) (Dotted.join target)).toList :=
    notMem_edgeId hs.isPath.allowed ht.isPath.allowed (by decide)
  have harrow : ¬ Arrow.Free (edgeId (Dotted.join source) (Dotted.join target)).toList := by
    rw [← Arrow.cut_snd_eq_nil_iff, h]
    simp
  rw [parse_of_notMem hbracket harrow, trim_edgeId hs ht,
    readEdge_of_cut ((trim_edgeId hs ht).symm ▸ h)]
  cases readEndpoint (trim first) with
  | error e => rfl
  | ok source => cases readEndpoint (trim last) <;> rfl

/-- **A public id whose source does not run on is the key of its edges.** -/
theorem parse_edgeId (hend : ¬ Arrow.RunsOn (Dotted.join source).toList) :
    parse (edgeId (Dotted.join source) (Dotted.join target)) =
      .ok (.edge ⟨source, target, .forward, none, []⟩) := by
  have hcut : Arrow.cut (edgeId (Dotted.join source) (Dotted.join target)).toList =
      ((Dotted.join source).toList, [(.forward, (Dotted.join target).toList)]) := by
    rw [toList_edgeId, Arrow.cut_append_forward hs.isPath.free hend,
      Arrow.cut_of_free ht.isPath.free]
  rw [parse_edgeId_of_cut hs ht hcut, readEndpoint_join hs, readEndpoint_join ht]
  rfl

/-- **A public id whose source runs on is no key of its edges**: as a key, it is rejected, or
addresses a connection from another source. -/
theorem sourceId_ne_of_runsOn (hend : Arrow.RunsOn (Dotted.join source).toList) {key : Key}
    (h : parse (edgeId (Dotted.join source) (Dotted.join target)) = .ok key) :
    ∃ k, key = .edge k ∧ k.attr = [] ∧ k.sourceId ≠ Dotted.join source := by
  obtain ⟨first, a, last, hcut, hlen⟩ :=
    Arrow.exists_cut_of_runsOn hs.isPath.free ht.isPath.free hend
  rw [← toList_edgeId] at hcut
  rw [parse_edgeId_of_cut hs ht hcut] at h
  simp only [bind_eq_ok, pure_eq_ok] at h
  obtain ⟨source', hsource', target', -, rfl⟩ := h
  refine ⟨_, rfl, rfl, fun heq => ?_⟩
  -- the source that is read is no longer than its text, which is too short
  have hle := (length_join_le (of_readEndpoint hsource').1).trans (trim_isInfix first).length_le
  have hlen' : (Dotted.join source').toList.length = (Dotted.join source).toList.length :=
    congrArg (fun s : String => s.toList.length) heq
  omega

end PublicId

end Key

namespace Graph

open Edit

variable {g : Graph} {e : Edge} {i j : Nat}

/-! ### Finding an edge by its public id -/

theorem findIdx?_congr {p q : Edge → Bool} {es : List Edge} (h : ∀ e ∈ es, p e = q e) :
    es.findIdx? p = es.findIdx? q := by
  have hmap : ∀ p : Edge → Bool, es.findIdx? p = (es.map p).findIdx? id := fun p => by
    rw [List.findIdx?_map]
    rfl
  rw [hmap p, hmap q, List.map_congr_left h]

theorem publicIds_of_integral (hg : g.Integral) : g.publicIds = g.edges.map Edge.publicId := by
  have hpublic : ∀ x ∈ g.edges.zipIdx, g.publicIdOf x.1 x.2 = x.1.publicId := fun x hx =>
    publicIdOf_of_integral hg (List.fst_mem_of_mem_zipIdx hx) x.2
  calc g.publicIds = g.edges.zipIdx.map fun x => x.1.publicId := List.map_congr_left hpublic
    _ = (g.edges.zipIdx.map Prod.fst).map Edge.publicId := by rw [List.map_map]; rfl
    _ = g.edges.map Edge.publicId := by rw [List.zipIdx_map_fst]

section Named
variable (hg : g.Integral) (hn : g.Named IsObjectName)
include hg hn

theorem isObjectPath_endpoints (he : e ∈ g.edges) :
    IsObjectPath (Dotted.segments e.source) ∧ IsObjectPath (Dotted.segments e.target) :=
  ⟨IsId.isObjectPath (hn _ (hg.endpoints e he).1), IsId.isObjectPath (hn _ (hg.endpoints e he).2)⟩

theorem free_source (he : e ∈ g.edges) : Arrow.Free e.source.toList :=
  IsId.free (hn _ (hg.endpoints e he).1)

/-- **The first edge with a public id** is the first one between the endpoints. -/
theorem findEdge?_publicId (he : e ∈ g.edges) :
    g.findEdge? e.publicId = g.nthEdge? e.source e.target 0 := by
  have hsame : ∀ e' ∈ g.edges,
      decide (e'.publicId = e.publicId) = e'.joins e.source e.target := fun e' he' => by
    rw [Edge.joins, ← Bool.decide_and]
    refine decide_eq_decide.mpr ⟨fun h => ?_, ?_⟩
    · exact edgeId_injective (free_source hg hn he') (free_source hg hn he) h
    · rintro ⟨hs, ht⟩
      rw [Edge.publicId, hs, ht, Edge.publicId]
  unfold findEdge? nthEdge? edgesBetween
  rw [publicIds_of_integral hg, List.findIdx?_map, ← findIdx?_eq_getElem?_positions]
  exact findIdx?_congr hsame

theorem trimmed_publicId (he : e ∈ g.edges) : Text.trimmed e.publicId = e.publicId := by
  obtain ⟨hs, ht⟩ := isObjectPath_endpoints hg hn he
  have htrim := Key.trim_edgeId hs ht
  rw [Dotted.join_segments, Dotted.join_segments] at htrim
  unfold Text.trimmed Edge.publicId
  rw [htrim, String.ofList_toList]

/-- **Reading an edge by its public id** gives the first edge between its endpoints. -/
theorem readEdge_publicId (he : e ∈ g.edges) : ∃ j first,
    g.nthEdge? e.source e.target 0 = some j ∧ g.edges[j]? = some first ∧
      (first.source = e.source ∧ first.target = e.target) ∧
      g.readEdge [] e.publicId = .ok (some (first.view e.publicId)) := by
  obtain ⟨j, hj⟩ := exists_nthEdge?_zero he
  obtain ⟨first, hfirst, hends, -⟩ := nthEdge?_eq_some_iff.mp hj
  have hlocate : g.locateEdge? e.publicId = some j := by
    unfold locateEdge?
    rw [findEdge?_publicId hg hn he, hj]
  have hpublic : g.publicIdOf first j = e.publicId := by
    rw [publicIdOf_of_integral hg (List.mem_of_getElem? hfirst), Edge.publicId, hends.1, hends.2]
    rfl
  refine ⟨j, first, hj, hfirst, hends, ?_⟩
  unfold readEdge edgeView?
  rw [trimmed_publicId hg hn he, hlocate, Option.bind_some, hfirst, Option.map_some, hpublic]
  rfl

/-! ### Editing an edge by its public id -/

/-- A public id whose source does not run on is a key of the first edge between the endpoints. -/
theorem exists_parse_of_not_runsOn (he : e ∈ g.edges) (hend : ¬ Arrow.RunsOn e.source.toList) :
    ∃ k, Key.parse e.publicId = .ok (.edge k) ∧ k.attr = [] ∧
      (k.sourceId = e.source ∧ k.targetId = e.target) ∧
      g.edgeAt? k = g.nthEdge? e.source e.target 0 := by
  obtain ⟨hs, ht⟩ := isObjectPath_endpoints hg hn he
  have hparse := Key.parse_edgeId hs ht (by rwa [Dotted.join_segments])
  rw [Dotted.join_segments, Dotted.join_segments] at hparse
  have hsource : Dotted.join (Dotted.segments e.source) = e.source := Dotted.join_segments _
  have htarget : Dotted.join (Dotted.segments e.target) = e.target := Dotted.join_segments _
  refine ⟨_, hparse, rfl, ⟨hsource, htarget⟩, ?_⟩
  unfold edgeAt? EdgeKey.sourceId EdgeKey.targetId
  rw [hsource, htarget]
  rfl

/-- A public id whose source runs on is read, if at all, as a key of a connection from another
source. -/
theorem exists_of_parse_of_runsOn (he : e ∈ g.edges) (hend : Arrow.RunsOn e.source.toList)
    {key : Key} (h : Key.parse e.publicId = .ok key) :
    ∃ k, key = .edge k ∧ k.attr = [] ∧ k.sourceId ≠ e.source := by
  obtain ⟨hs, ht⟩ := isObjectPath_endpoints hg hn he
  rw [← Dotted.join_segments e.source] at hend
  have hne := @Key.sourceId_ne_of_runsOn _ _ hs ht hend key
  rw [Dotted.join_segments, Dotted.join_segments] at hne
  exact hne h

/-- **A public id is a key with the endpoints of its edges** exactly if the source does not run
on. -/
theorem exists_parse_iff (he : e ∈ g.edges) :
    (∃ k, Key.parse e.publicId = .ok (.edge k) ∧ k.sourceId = e.source ∧ k.targetId = e.target) ↔
      ¬ Arrow.RunsOn e.source.toList := by
  constructor
  · rintro ⟨k, hparse, hsource, -⟩ hend
    obtain ⟨k', hk', -, hne⟩ := exists_of_parse_of_runsOn hg hn he hend hparse
    obtain rfl := Key.edge.inj hk'
    exact hne hsource
  · intro hend
    obtain ⟨k, hparse, -, hends, -⟩ := exists_parse_of_not_runsOn hg hn he hend
    exact ⟨k, hparse, hends⟩

omit hg hn in
theorem removeEdge_ne {e' : Edge} (hi : g.edges[i]? = some e) (hj : g.edges[j]? = some e')
    (hne : e ≠ e') : g.removeEdge i ≠ g.removeEdge j := by
  intro heq
  have herase : g.edges.eraseIdx i = g.edges.eraseIdx j := congrArg Graph.edges heq
  obtain ⟨hli, rfl⟩ := List.getElem?_eq_some_iff.mp hi
  obtain ⟨hlj, rfl⟩ := List.getElem?_eq_some_iff.mp hj
  have hperm := (List.getElem_cons_eraseIdx_perm hli).trans (List.getElem_cons_eraseIdx_perm hlj).symm
  rw [herase] at hperm
  have hsingle : [g.edges[i]].Perm [g.edges[j]] := (List.perm_append_right_iff _).mp hperm
  exact hne (List.singleton_perm_singleton.mp hsingle)

/-- **Deleting by a public id** deletes the first edge between the endpoints exactly if the source
does not run on. -/
theorem delete_publicId_iff (he : e ∈ g.edges) (hj : g.nthEdge? e.source e.target 0 = some j) :
    g.delete e.publicId = .ok (g.removeEdge j) ↔ ¬ Arrow.RunsOn e.source.toList := by
  constructor
  · intro hdelete hend
    obtain ⟨key, hparse, -⟩ := of_delete hdelete
    obtain ⟨k, rfl, hattr, hne⟩ := exists_of_parse_of_runsOn hg hn he hend hparse
    obtain ⟨i, hi, heq⟩ := (delete_eq_ok_iff hparse hattr).mp hdelete
    obtain ⟨e', he', ⟨hsource, -⟩, -⟩ := edgeAt?_eq_some_iff.mp hi
    obtain ⟨first, hfirst, hends, -⟩ := nthEdge?_eq_some_iff.mp hj
    have hdiffer : first ≠ e' := by
      rintro rfl
      exact hne (hsource.symm.trans hends.1)
    exact removeEdge_ne hfirst he' hdiffer heq
  · intro hend
    obtain ⟨k, hparse, hattr, -, hk⟩ := exists_parse_of_not_runsOn hg hn he hend
    exact (delete_eq_ok_iff hparse hattr).mpr ⟨j, hk.trans hj, rfl⟩

/-- **Where a public id goes.** It is shown for its edge, and read as the first edge between the
endpoints. It is a key with these endpoints exactly if the source does not run on; exactly then the
edits act on that same edge. -/
theorem publicId_addresses_iff (he : g.edges[i]? = some e) :
    g.publicId? i = some e.publicId ∧ ∃ j first,
      g.nthEdge? e.source e.target 0 = some j ∧ g.edges[j]? = some first ∧
      g.readEdge [] e.publicId = .ok (some (first.view e.publicId)) ∧
      ((∃ k, Key.parse e.publicId = .ok (.edge k) ∧ k.sourceId = e.source ∧ k.targetId = e.target) ↔
        ¬ Arrow.RunsOn e.source.toList) ∧
      (g.delete e.publicId = .ok (g.removeEdge j) ↔ ¬ Arrow.RunsOn e.source.toList) ∧
      (¬ Arrow.RunsOn e.source.toList →
        (∀ tag value h, g.set e.publicId tag value = .ok h ↔ ∃ name,
          connectionAttribute tag [] = .ok name ∧ checkConnectionName name = .ok () ∧
            checkValue name value = .ok () ∧ h = g.assignEdge j name value) ∧
        g.deleteDeltas e.publicId = .ok (gone [e.publicId])) := by
  have hmem := List.mem_of_getElem? he
  obtain ⟨j, first, hj, hfirst, hends, hread⟩ := readEdge_publicId hg hn hmem
  refine ⟨publicId?_of_integral hg he, j, first, hj, hfirst, hread, exists_parse_iff hg hn hmem,
    delete_publicId_iff hg hn hmem hj, fun hend => ?_⟩
  obtain ⟨k, hparse, hattr, -, hk⟩ := exists_parse_of_not_runsOn hg hn hmem hend
  have hpublic : g.publicId? j = some e.publicId := by
    rw [publicId?_of_integral hg hfirst, hends.1, hends.2]
    rfl
  constructor
  · intro tag value h
    rw [set_eq_ok_iff hparse, hattr, hk, hj]
    simp
  · rw [deleteDeltas_of_parse hparse hattr, resolve_eq_ok_iff.mpr (hk.trans hj)]
    show Except.ok (gone (g.publicId? j).toList) = _
    rw [hpublic]
    rfl

end Named

/-- An edge whose source ends in a dash, and two parallel ones whose source does not. -/
def dashed : Graph where
  objects := [.blank "a-", .blank "a", .blank "b"]
  edges := [.blank "a-" .forward "b", .blank "a" .forward "b", .blank "a" .forward "b"]
  board := ∅
  statements := none

/-- The editor reaches the first of the parallel edges by the id of the second one, and does not reach
the edge from `a-` by its id. -/
theorem publicId_addresses_iff_dashed : dashed.Integral ∧ dashed.Named IsObjectName ∧
    dashed.publicId? 0 = some "a-->b" ∧ dashed.delete "a-->b" ≠ .ok (dashed.removeEdge 0) ∧
    dashed.publicId? 2 = some "a->b" ∧ dashed.delete "a->b" = .ok (dashed.removeEdge 1) := by
  have hnamed : ∀ id ∈ dashed.ids, IsId id := by decide +kernel
  have hintegral : dashed.Integral := ⟨by decide +kernel, by decide +kernel, by decide +kernel⟩
  have hdash : dashed.edges[0]? = some (.blank "a-" .forward "b") := rfl
  have hplain : dashed.edges[2]? = some (.blank "a" .forward "b") := rfl
  obtain ⟨hid, j, -, hj, -, -, -, hdelete, -⟩ := publicId_addresses_iff hintegral hnamed hdash
  obtain ⟨hid', j', -, hj', -, -, -, hdelete', -⟩ :=
    publicId_addresses_iff hintegral hnamed hplain
  obtain rfl : 0 = j := Option.some.inj ((by decide +kernel : _ = some 0).symm.trans hj)
  obtain rfl : 1 = j' := Option.some.inj ((by decide +kernel : _ = some 1).symm.trans hj')
  exact ⟨hintegral, hnamed, hid, fun h => absurd (hdelete.mp h) (by decide), hid',
    hdelete'.mpr (by decide)⟩

end Graph

end BoxDiagram
