import BoxDiagram.Proofs.Edit.Deletion
import BoxDiagram.Proofs.Patch.Deletion
import BoxDiagram.Proofs.Store.Export

/-!
# Fallbacks: deletions that go around the editor

A store changes its graphs through the editor, which knows no board but the root, and which empties
one slot at the key of an attribute. Only where the editor crashes at a deletion whose key holds an
arrow does the store take a connection out of the text instead. That removal goes by the endpoints,
the arrow and the index of the key; it looks neither at the board of the request nor at the attribute
part of the key. So a request for another board is refused exactly if it does not fall back on the
text (`other_board_refused_iff`), and the deletion of an attribute spares objects and edges exactly if
it does not (`attribute_deletion_outcomes`): a removal from the text never leaves all of them as they
were (`skeleton_ne_of_deleteTextually`).
-/

namespace BoxDiagram

namespace Graph

variable {g h : Graph} {key : String} {k : EdgeKey}

/-! ### What a removal from the text takes away -/

theorem WellFormed.occursIn_eq_false (hg : g.WellFormed) {id : String} (hid : id ∈ g.ids) :
    Arrow.occursIn id = false := Arrow.occursIn_eq_false_iff.mpr (IsId.free (hg.named id hid))

/-- **A removal from the text changes the objects or the edges.** -/
theorem skeleton_ne_of_deleteTextually (hg : g.Sound)
    (hd : Record.deleteTextually .standard g key = .ok h) : h.skeleton ≠ g.skeleton := by
  intro hs
  obtain ⟨hids, hedges⟩ := Prod.mk.inj hs
  obtain ⟨k, patched, hk, -, hcompile⟩ := Record.of_deleteTextually hd
  have hh : h.WellFormed := wellFormed_of_compile (contain_compile_standard.mp hcompile)
  -- with the same ids, the graph before is well formed as well, so it has lost an edge
  have hfree : ∀ o ∈ g.objects, Arrow.occursIn o.id = false := fun o ho =>
    hh.occursIn_eq_false (hids ▸ mem_ids_of_mem ho)
  rw [(hg.wellFormed hfree).deleteTextually_eq (Key.parseEdge_eq_ok_iff.mp hk)] at hd
  split_ifs at hd with hleft
  obtain rfl := Except.ok.inj hd
  have hlength := congrArg List.length hedges
  rw [List.length_map, List.length_map] at hlength
  exact hleft ((g.textuallyLeft_sublist k).eq_of_length hlength)

/-- **With the key of an attribute, a removal from the text takes away one edge.** -/
theorem eraseIdx_of_deleteTextually (hg : g.WellFormed) (hk : Key.parse key = .ok (.edge k))
    (hattr : k.attr ≠ []) (hd : Record.deleteTextually .standard g key = .ok h) :
    h.objects.Perm g.objects ∧ ∃ i < g.edges.length, h.edges = g.edges.eraseIdx i := by
  obtain ⟨n, hn⟩ := Key.exists_index_of_attr hk hattr
  rw [hg.deleteTextually_eq hk] at hd
  split_ifs at hd with hleft
  obtain rfl := Except.ok.inj hd
  exact ⟨hg.preorder_perm, textuallyLeft_of_index hn hleft⟩

theorem Clears.refresh {slot : Slot} (hc : g.Clears slot h) : g.Clears slot h.refresh :=
  ⟨hc.skeleton, hc.emptied, fun s hs => by rw [← hc.others s hs]; cases s <;> rfl⟩

/-- **The editor deletes an attribute by emptying its slot.** -/
theorem clears_of_perform {k : Key} {newKey : String} (hg : g.Integral)
    (hk : Key.parse key = .ok k) (hattr : k.attr ≠ [])
    (hp : g.perform [] key .delete = .ok (h, newKey)) : ∃ slot, g.Locates k slot ∧ g.Clears slot h := by
  obtain ⟨-, h', hact, rfl⟩ := perform_eq_ok_iff.mp hp
  obtain ⟨h'', hdelete, heq⟩ := bind_eq_ok.mp hact
  obtain ⟨rfl, -⟩ := Prod.mk.inj (pure_eq_ok.mp heq)
  obtain ⟨parsed, hparsed, hdeleted⟩ := deleted_of_delete hg hdelete
  obtain rfl : k = parsed := Except.ok.inj (hk.symm.trans hparsed)
  cases hdeleted with
  | pruned => exact absurd rfl hattr
  | disconnected hnil => exact absurd hnil hattr
  | cleared _ hslot hclears => exact ⟨_, hslot, hclears.refresh⟩

end Graph

namespace Record

variable {b : Backend} {g h : Graph} {board : List String} {key : String}

theorem deleteTextually_standard (hb : b.MayCrash) (hd : deleteTextually b g key = .ok h) :
    deleteTextually .standard g key = .ok h := by
  obtain ⟨k, patched, hk, hstrip, hcompile⟩ := of_deleteTextually hd
  exact deleteTextually_of_stripKey hk rfl hstrip
    (contain_compile_standard.mp ((hb.compile patched).of_contain hcompile))

/-- **Only a crash of the editor makes a deletion fall back on the text.** -/
theorem FallsBack.crashes (hf : FallsBack b g board key h) (hb : b.MayCrash) :
    ∃ message, b.editor.perform g board key .delete = .crashed message := by
  obtain ⟨message, hfault⟩ := hf.fault
  rcases hb.perform g board key .delete with heq | hcrash
  · rw [heq] at hfault
    exact absurd hfault (Editor.isFaultless_standard.perform _ _ _ _ message)
  · exact hcrash

end Record

namespace Store

variable {s : Store} {b : Backend} {isCancelled : Bool} {request : Request} {id : DiagramId}
  {r : Record} {h : Graph}

/-- A store that calls lead to, whichever calls to the compiler, the editor and the renderer crash. -/
def Reachable (s : Store) : Prop :=
  ∃ attempts : List Attempt, (∀ a ∈ attempts, a.backend.MayCrash) ∧ s = (run ∅ attempts).1

theorem Reachable.sound (hs : s.Reachable) (hr : s.fetch isCancelled id = .ok r) :
    r.graph.Sound := by
  obtain ⟨attempts, hattempts, rfl⟩ := hs
  obtain ⟨-, -, hsound, -⟩ := (agrees_of_run kept_sound hattempts).exists_log (Call.get?_of_fetch hr)
  exact hsound

/-- **A request that falls back on the text**: it is a complete request for a deletion, its diagram is
there, and the deletion falls back. -/
structure FallsBack (s : Store) (b : Backend) (isCancelled : Bool) (request : Request)
    (id : DiagramId) (r : Record) (h : Graph) : Prop where
  action : request.action = .delete
  complete : validate request = .ok id
  found : s.fetch isCancelled id = .ok r
  deletion : Record.FallsBack b r.graph request.board request.key h

theorem FallsBack.run_execute (hf : FallsBack s b isCancelled request id r h) : ∃ report r',
    (Call.execute b isCancelled request).run s = (.ok report, s.write id r') ∧ r'.graph = h := by
  obtain ⟨deltas, happly⟩ := hf.deletion.apply
  have hplan : Call.planned s b isCancelled request = .ok (id, r, ⟨h, request.key, deltas, true⟩) :=
    Call.planned_eq_ok_iff.mpr ⟨hf.complete, hf.found, hf.action.symm ▸ happly⟩
  have hrun : (Call.execute b isCancelled request).run s = _ := Call.run_execute request
  rw [hplan] at hrun
  exact ⟨_, _, hrun, rfl⟩

/-- **A request that falls back on the text changes the objects or the edges.** -/
theorem FallsBack.skeleton_ne (hf : FallsBack s b isCancelled request id r h) (hs : s.Reachable)
    (hb : b.MayCrash) : h.skeleton ≠ r.graph.skeleton :=
  Graph.skeleton_ne_of_deleteTextually (hs.sound hf.found)
    (Record.deleteTextually_standard hb hf.deletion.patched)

/-- **How a request ends**: it fails and leaves the store as it was, the editor has carried it out, or
it has fallen back on the text. -/
theorem run_execute_cases (hb : b.MayCrash) :
    (∃ e, (Call.execute b isCancelled request).run s = (.error e, s)) ∨
      ∃ id r r' report, validate request = .ok id ∧ s.fetch isCancelled id = .ok r ∧
        (Call.execute b isCancelled request).run s = (.ok report, s.write id r') ∧
        ((∃ newKey, r.graph.perform request.board request.key request.action =
            .ok (r'.graph, newKey)) ∨ FallsBack s b isCancelled request id r r'.graph) := by
  have hrun : (Call.execute b isCancelled request).run s = _ := Call.run_execute request
  cases hplan : Call.planned s b isCancelled request with
  | error e =>
    rw [hplan] at hrun
    exact Or.inl ⟨e, hrun⟩
  | ok plan =>
    obtain ⟨id, r, a⟩ := plan
    rw [hplan] at hrun
    obtain ⟨hid, hr, ha⟩ := Call.planned_eq_ok_iff.mp hplan
    refine Or.inr ⟨id, r, _, _, hid, hr, hrun, ?_⟩
    refine (Record.perform_of_apply hb ha).imp_right fun ⟨hdelete, hfalls⟩ => ?_
    exact ⟨hdelete, hid, hr, hfalls⟩

/-! ### Other boards -/

/-- **A request for another board than the root** fails and leaves the store as it was, exactly if it
does not fall back on the text. It falls back only where the editor crashes at it; it then succeeds,
and the objects or the edges of the root board change. -/
theorem other_board_refused_iff (hs : s.Reachable) (hb : b.MayCrash) (hboard : request.board ≠ []) :
    ((∃ e, (Call.execute b isCancelled request).run s = (.error e, s)) ↔
      ∀ id r h, ¬ FallsBack s b isCancelled request id r h) ∧
    ∀ id r h, FallsBack s b isCancelled request id r h →
      (∃ message, b.editor.perform r.graph request.board request.key .delete = .crashed message) ∧
      (∃ report r', (Call.execute b isCancelled request).run s = (.ok report, s.write id r') ∧
        r'.graph = h) ∧ h.skeleton ≠ r.graph.skeleton := by
  refine ⟨⟨?_, fun hnone => ?_⟩, fun id r h hf =>
    ⟨hf.deletion.crashes hb, hf.run_execute, hf.skeleton_ne hs hb⟩⟩
  · rintro ⟨e, herror⟩ id r h hf
    obtain ⟨report, r', hok, -⟩ := hf.run_execute
    cases herror.symm.trans hok
  · rcases run_execute_cases hb with herror | ⟨id, r, r', report, -, -, -, ⟨newKey, hp⟩ | hf⟩
    · exact herror
    · exact absurd (Graph.perform_eq_ok_iff.mp hp).1 hboard
    · exact absurd hf (hnone id r r'.graph)

/-- The store with one diagram, of which the text was loaded. -/
def storing (text : String) : Store := (run ∅ [⟨.load "d" text, .standard, false⟩]).1

theorem reachable_storing (text : String) : (storing text).Reachable :=
  ⟨_, by simp [mayCrash_standard], rfl⟩

/-- A request for the deletion of an edge of another board. -/
def layered : Request := ⟨"d", ["layers", "x"], "a -> b", .delete⟩

/-- The editor at hand refuses the request; where it crashes, the edge of the root board is taken
away. -/
theorem other_board_refused_iff_layered :
    (∃ e, (Call.execute .standard false layered).run (storing "a -> b") =
      (.error e, storing "a -> b")) ∧
    ∃ id r h, FallsBack (storing "a -> b") crashing false layered id r h ∧
      h.skeleton ≠ r.graph.skeleton := by
  have hboard : layered.board ≠ [] := by decide
  constructor
  · obtain ⟨hiff, hfalls⟩ := @other_board_refused_iff (storing "a -> b") .standard false layered
      (reachable_storing _) mayCrash_standard hboard
    refine hiff.mpr fun id r h hf => ?_
    obtain ⟨⟨message, hcrash⟩, -⟩ := hfalls id r h hf
    cases hcrash
  · obtain ⟨hiff, hfalls⟩ := @other_board_refused_iff (storing "a -> b") crashing false layered
      (reachable_storing _) mayCrash_crashing hboard
    have hok : ((Call.execute crashing false layered).run (storing "a -> b")).1.isOk = true := by
      decide +kernel
    have hexists : ∃ id r h, FallsBack (storing "a -> b") crashing false layered id r h := by
      by_contra hnone
      obtain ⟨e, herror⟩ := hiff.mpr fun id r h hf => hnone ⟨id, r, h, hf⟩
      rw [herror] at hok
      cases hok
    obtain ⟨id, r, h, hf⟩ := hexists
    exact ⟨id, r, h, hf, (hfalls id r h hf).2.2⟩

/-! ### Attributes -/

/-- **How the deletion of an attribute ends**: it fails and leaves the store as it was; it empties the
slot that its key addresses, and nothing else; or it falls back on the text. That happens only where
the editor crashes and the key is that of a connection, and then the objects or the edges change: if
no id of the diagram holds an arrow, an edge is missing. -/
theorem attribute_deletion_outcomes (hs : s.Reachable) (hb : b.MayCrash)
    (haction : request.action = .delete) {k : Key} (hk : Key.parse request.key = .ok k)
    (hattr : k.attr ≠ []) :
    (∃ e, (Call.execute b isCancelled request).run s = (.error e, s)) ∨
    ∃ id r r' report, validate request = .ok id ∧ s.fetch isCancelled id = .ok r ∧
      (Call.execute b isCancelled request).run s = (.ok report, s.write id r') ∧
      ((∃ slot, r.graph.Locates k slot ∧ r.graph.Clears slot r'.graph) ↔
        ¬ FallsBack s b isCancelled request id r r'.graph) ∧
      (FallsBack s b isCancelled request id r r'.graph →
        (∃ message, b.editor.perform r.graph request.board request.key .delete = .crashed message) ∧
        (∃ e, k = .edge e) ∧ r'.graph.skeleton ≠ r.graph.skeleton ∧
        ((∀ o ∈ r.graph.objects, Arrow.occursIn o.id = false) →
          r'.graph.objects.Perm r.graph.objects ∧
            ∃ i < r.graph.edges.length, r'.graph.edges = r.graph.edges.eraseIdx i)) := by
  refine (run_execute_cases hb).imp_right ?_
  rintro ⟨id, r, r', report, hid, hr, hrun, hcase⟩
  have hsound : r.graph.Sound := hs.sound hr
  refine ⟨id, r, r', report, hid, hr, hrun, ⟨?_, fun hnot => ?_⟩,
    fun hf => ⟨hf.deletion.crashes hb, ?_⟩⟩
  · rintro ⟨slot, -, hclears⟩ hf
    exact hf.skeleton_ne hs hb hclears.skeleton
  · obtain ⟨newKey, hp⟩ := hcase.resolve_right hnot
    have hroot : request.board = [] := (Graph.perform_eq_ok_iff.mp hp).1
    rw [hroot, haction] at hp
    exact Graph.clears_of_perform hsound.toIntegral hk hattr hp
  · have hdelete := Record.deleteTextually_standard hb hf.deletion.patched
    obtain ⟨e, -, hparse, -⟩ := Record.of_deleteTextually hdelete
    obtain rfl : k = .edge e := Except.ok.inj (hk.symm.trans (Key.parseEdge_eq_ok_iff.mp hparse))
    exact ⟨⟨e, rfl⟩, hf.skeleton_ne hs hb, fun hfree =>
      Graph.eraseIdx_of_deleteTextually (hsound.wellFormed hfree) hk hattr hdelete⟩

/-- A store with an edge that has an attribute. -/
def stroked : Store := storing "a -> b: \x7b\n  style.stroke: red\n\x7d"

/-- A request for the deletion of that attribute. -/
def unstroke : Request := ⟨"d", [], "(a -> b)[0].style.stroke", .delete⟩

/-- The editor at hand deletes the attribute; where it crashes, the edge is taken away. -/
theorem attribute_deletion_outcomes_unstroke :
    (∃ id r r' report, stroked.fetch false id = .ok r ∧
      (Call.execute .standard false unstroke).run stroked = (.ok report, stroked.write id r') ∧
      ∃ slot, r.graph.Clears slot r'.graph) ∧
    ∃ id r r' report, stroked.fetch false id = .ok r ∧
      (Call.execute crashing false unstroke).run stroked = (.ok report, stroked.write id r') ∧
      FallsBack stroked crashing false unstroke id r r'.graph ∧
      r.graph.edges.length = 1 ∧ r'.graph.edges = [] := by
  have hparse : Key.parse unstroke.key =
      .ok (.edge ⟨["a"], ["b"], .forward, some 0, ["style", "stroke"]⟩) := by decide +kernel
  have hattr : (Key.edge ⟨["a"], ["b"], .forward, some 0, ["style", "stroke"]⟩).attr ≠ [] := by decide
  have hs : stroked.Reachable := reachable_storing _
  constructor
  · have hok : ((Call.execute .standard false unstroke).run stroked).1.isOk = true := by decide +kernel
    rcases @attribute_deletion_outcomes stroked .standard false unstroke hs mayCrash_standard rfl _
      hparse hattr with ⟨e, herror⟩ | ⟨id, r, r', report, -, hr, hrun, hiff, hfalls⟩
    · rw [herror] at hok
      cases hok
    · refine ⟨id, r, r', report, hr, hrun, ?_⟩
      obtain ⟨slot, -, hclears⟩ := hiff.mpr fun hf => by
        obtain ⟨⟨message, hcrash⟩, -⟩ := hfalls hf
        cases hcrash
      exact ⟨slot, hclears⟩
  · have hbefore : (stroked.records.get? "d").map (·.graph.edges.length) = some 1 := by decide +kernel
    have hafter : (((Call.execute crashing false unstroke).run stroked).2.records.get? "d").map
      (·.graph.edges) = some [] := by decide +kernel
    have hok : ((Call.execute crashing false unstroke).run stroked).1.isOk = true := by decide +kernel
    rcases @attribute_deletion_outcomes stroked crashing false unstroke hs mayCrash_crashing rfl _
      hparse hattr with ⟨e, herror⟩ | ⟨id, r, r', report, hid, hr, hrun, hiff, -⟩
    · rw [herror] at hok
      cases hok
    · have hd : id.text = "d" := (Call.text_of_validate hid).trans (by decide)
      have hget : stroked.records.get? "d" = some r := hd ▸ Call.get?_of_fetch hr
      have hget' : (stroked.write id r').records.get? "d" = some r' := hd ▸ get?_write_self
      rw [hget] at hbefore
      rw [hrun] at hafter
      dsimp only at hafter
      rw [hget'] at hafter
      have hlength : r.graph.edges.length = 1 := Option.some.inj hbefore
      have hedges : r'.graph.edges = [] := Option.some.inj hafter
      refine ⟨id, r, r', report, hr, hrun, ?_, hlength, hedges⟩
      -- had the attribute been deleted alone, the edge would be there
      by_contra hnot
      obtain ⟨slot, -, hclears⟩ := hiff.mpr hnot
      have hsame := congrArg (fun s => s.2.length) hclears.skeleton
      simp [Graph.skeleton, hlength, hedges] at hsame

end Store

end BoxDiagram
