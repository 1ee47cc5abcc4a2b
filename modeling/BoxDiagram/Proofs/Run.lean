import BoxDiagram.Proofs.Edit.Step
import BoxDiagram.Proofs.Graph.Regeneration
import BoxDiagram.Proofs.Store.Applied

/-!
# Runs: what every sequence of changes keeps

A run starts from the empty graph or from the graph of a text, and goes on by successful edits and
by removals of connections from the canonical text. What every change keeps, every run keeps
(`run_invariant`): graphs stay integral and attributed, and the segments of their ids stay segments
and no keywords. They stay names as well, exactly as long as no renaming gives a name that holds an
arrow (`named_iff_of_run`).
-/

namespace BoxDiagram

open Dotted Attribute

/-- A change of a diagram: an edit of a board, or the removal of a connection from the text. -/
inductive Change where
  | edit (board : List String) (key : String) (action : Action)
  | patch (key : String)

namespace Change

/-- The graph after a change, if it succeeds. -/
def result? (g : Graph) : Change → Option Graph
  | edit board key action => (g.perform board key action).toOption.map (·.1)
  | patch key => (Record.deleteTextually .standard g key).toOption

/-- The change is a renaming whose new name holds an arrow. -/
def namesArrow : Change → Bool
  | edit _ _ action => action.namesArrow
  | patch _ => false

end Change

namespace Graph

variable {g k : Graph}

/-- A graph to start from: the empty one, or that of a text. -/
def IsInitial (g : Graph) : Prop := g = ∅ ∨ ∃ text, compile text = .ok g

/-- The graph after a run of changes, if each of them succeeds. -/
def after? (g : Graph) : List Change → Option Graph
  | [] => some g
  | c :: cs => (c.result? g).bind (·.after? cs)

/-! ### One change -/

theorem result?_edit_eq_some_iff {board : List String} {key : String} {action : Action} :
    Change.result? g (.edit board key action) = some k ↔
      board = [] ∧ ∃ h newKey, g.act key action = .ok (h, newKey) ∧ k = h.refresh := by
  unfold Change.result?
  simp only [Option.map_eq_some_iff, toOption_eq_some_iff]
  constructor
  · rintro ⟨⟨k', newKey⟩, hperform, rfl⟩
    obtain ⟨hroot, h, hact, rfl⟩ := perform_eq_ok_iff.mp hperform
    exact ⟨hroot, h, newKey, hact, rfl⟩
  · rintro ⟨hroot, h, newKey, hact, rfl⟩
    exact ⟨(h.refresh, newKey), perform_eq_ok_iff.mpr ⟨hroot, h, hact, rfl⟩, rfl⟩

theorem result?_edit_of_perform {board : List String} {key newKey : String} {action : Action}
    (h : g.perform board key action = .ok (k, newKey)) :
    Change.result? g (.edit board key action) = some k := by
  show (g.perform board key action).toOption.map (·.1) = some k
  rw [h]
  rfl

theorem compile_of_result?_patch {key : String} (h : Change.result? g (.patch key) = some k) :
    ∃ text, compile text = .ok k := by
  have hdelete : Record.deleteTextually .standard g key = .ok k := toOption_eq_some_iff.mp h
  obtain ⟨text, htext⟩ := Record.exists_compile_of_deleteTextually hdelete
  exact ⟨text, contain_compile_standard.mp htext⟩

/-! ### All changes -/

/-- **What each change keeps, a run keeps.** -/
theorem run_invariant {p : Graph → Prop} : ∀ {cs : List Change} {g k : Graph},
    (∀ c ∈ cs, ∀ g k, p g → c.result? g = some k → p k) → p g → g.after? cs = some k → p k
  | [], g, k, _, hg, h => Option.some.inj h ▸ hg
  | c :: cs, g, k, hstep, hg, h => by
    obtain ⟨hc, hcs⟩ := List.forall_mem_cons.mp hstep
    obtain ⟨g', hg', h⟩ := Option.bind_eq_some_iff.mp h
    exact run_invariant hcs (hc g g' hg hg') h

theorem IsInitial.wellFormed (h : g.IsInitial) : g.WellFormed := by
  rcases h with rfl | ⟨text, h⟩
  · exact ⟨integral_empty, nofun, attributed_empty⟩
  · exact wellFormed_of_compile h

/-- The segments that any renaming can give, arrows or not. -/
def IsObjectSegment (s : String) : Prop := IsSegment s ∧ isReserved s = false

theorem isId_of_free {id : String} (h : EverySegment IsObjectSegment id)
    (hfree : Arrow.Free id.toList) : IsId id := by
  intro s hs
  obtain ⟨w, hw, rfl⟩ := List.mem_map.mp hs
  obtain ⟨hsegment, hreserved⟩ := h _ hs
  refine ⟨⟨hsegment, ?_⟩, hreserved⟩
  rw [String.toList_ofList]
  exact hfree.of_isInfix (Dotted.infix_of_mem_splitOn hw)

/-- **What every run keeps**: the graph is integral and attributed, and the segments of its ids are
segments and no keywords. -/
structure Sound (g : Graph) : Prop extends g.Integral where
  attributed : g.Attributed
  segments : g.Named IsObjectSegment

theorem WellFormed.sound (h : g.WellFormed) : g.Sound :=
  ⟨h.toIntegral, h.attributed, fun id hid =>
    EverySegment.imp (h.named id hid) fun _ hs => ⟨hs.toIsSegment, hs.notReserved⟩⟩

theorem Sound.change (h : g.Sound) {c : Change} (hc : c.result? g = some k) : k.Sound := by
  cases c with
  | edit board key action =>
    obtain ⟨-, k', newKey, hact, rfl⟩ := result?_edit_eq_some_iff.mp hc
    have hedit : g.Edited action k' := edited_of_act hact
    have hintegral : k'.Integral := hedit.integral h.toIntegral
    have hattributed : k'.Attributed := hedit.attributed h.toIntegral h.attributed
    have hsegments : k'.Named IsObjectSegment :=
      hedit.named h.toIntegral h.segments (fun s hs => ⟨hs.toIsSegment, hs.notReserved⟩)
        fun _ _ _ hname hreserved _ => ⟨hname, hreserved⟩
    exact ⟨hintegral.withStatements _, hattributed.withStatements _, hsegments⟩
  | patch key =>
    obtain ⟨text, htext⟩ := compile_of_result?_patch hc
    exact (wellFormed_of_compile htext).sound

/-- **A change that names no arrow keeps a graph well formed.** -/
theorem WellFormed.change (h : g.WellFormed) {c : Change} (hc : c.result? g = some k)
    (harrow : c.namesArrow = false) : k.WellFormed := by
  cases c with
  | edit board key action =>
    obtain ⟨-, k', newKey, hact, rfl⟩ := result?_edit_eq_some_iff.mp hc
    have hedit : g.Edited action k' := edited_of_act hact
    have hintegral : k'.Integral := hedit.integral h.toIntegral
    have hattributed : k'.Attributed := hedit.attributed h.toIntegral h.attributed
    have hnamed : k'.Named IsObjectName := by
      refine hedit.named h.toIntegral h.named (fun s hs => hs) ?_
      rintro newName name rfl hname hreserved hiff
      have hfree : Arrow.Free newName.toList := Arrow.occursIn_eq_false_iff.mp harrow
      exact ⟨⟨hname, hiff.mpr hfree⟩, hreserved⟩
    exact ⟨hintegral.withStatements _, hnamed, hattributed.withStatements _⟩
  | patch key =>
    obtain ⟨text, htext⟩ := compile_of_result?_patch hc
    exact wellFormed_of_compile htext

theorem sound_of_run {cs : List Change} (h₀ : g.IsInitial) (h : g.after? cs = some k) : k.Sound :=
  run_invariant (fun _ _ _ _ hg hc => hg.change hc) h₀.wellFormed.sound h

theorem wellFormed_of_run {cs : List Change} (hg : g.WellFormed) (h : g.after? cs = some k)
    (harrow : ∀ c ∈ cs, c.namesArrow = false) : k.WellFormed :=
  run_invariant (fun c hmem _ _ hg hc => hg.change hc (harrow c hmem)) hg h

/-! ### Integrity -/

theorem publicIdOf_of_integral (h : g.Integral) {e : Edge} (he : e ∈ g.edges) (i : Nat) :
    g.publicIdOf e i = e.publicId := by
  obtain ⟨hs, ht⟩ := h.endpoints e he
  unfold publicIdOf
  rw [contains_iff.mpr hs, contains_iff.mpr ht]
  rfl

theorem publicId?_of_integral (h : g.Integral) {i : Nat} {e : Edge} (he : g.edges[i]? = some e) :
    g.publicId? i = some (edgeId e.source e.target) := by
  unfold publicId?
  rw [he, Option.map_some, publicIdOf_of_integral h (List.mem_of_getElem? he)]
  rfl

/-- **Integrity is an invariant of every run**: ids are distinct and objects are found under them; a
parent is the dotted prefix of the id, and all that an object lies within are objects; endpoints are
objects, and the public id of an edge is made of them. -/
theorem integrity_of_run {cs : List Change} (h₀ : g.IsInitial) (h : g.after? cs = some k) :
    k.ids.Nodup ∧ (∀ o ∈ k.objects, k.find? o.id = some o) ∧
      (∀ o ∈ k.objects, (o.parent? = none ∧ '.' ∉ o.id.toList) ∨
        ∃ p, o.parent? = some p ∧ k.contains p = true ∧ o.id = p ++ "." ++ o.name ∧
          '.' ∉ o.name.toList) ∧
      (∀ o ∈ k.objects, ∀ top, isWithin o.id top = true → k.contains top = true) ∧
      (∀ e ∈ k.edges, k.contains e.source = true ∧ k.contains e.target = true) ∧
      ∀ i e, k.edges[i]? = some e → k.publicId? i = some (edgeId e.source e.target) := by
  have hk : k.Integral := (sound_of_run h₀ h).toIntegral
  refine ⟨hk.nodup, fun o ho => hk.find?_eq ho, fun o ho => ?_, fun o ho top hw => ?_, fun e he => ?_,
    fun i e he => publicId?_of_integral hk he⟩
  · rw [o.parent_eq]
    rcases parent?_spec o.id with hroot | ⟨p, hp, hid, hdot⟩
    · exact Or.inl hroot
    · have hmem := hk.parents o.id (mem_ids_of_mem ho) p hp
      exact Or.inr ⟨p, hp, contains_iff.mpr hmem, hid, hdot⟩
  · exact contains_iff.mpr (hk.mem_of_isWithin (mem_ids_of_mem ho) hw)
  · exact ⟨contains_iff.mpr (hk.endpoints e he).1, contains_iff.mpr (hk.endpoints e he).2⟩

/-- The run that puts a child in the place of its parent, takes an edge out of the text, and renames
the former parent. -/
def hoistingRun : List Change :=
  [.edit [] "a" (.move "c" false), .patch "a.b -> c", .edit [] "c" (.rename "x -> y")]

theorem integrity_of_run_hoistingRun : ∃ g k, compile "a.a.b -> a; a.a.b <-> a" = .ok g ∧
    g.after? hoistingRun = some k ∧ k.ids = ["x -> y", "a", "a.b"] ∧ k.ids.Nodup ∧
      (∀ o ∈ k.objects, ∀ top, isWithin o.id top = true → k.contains top = true) ∧
      ∀ i e, k.edges[i]? = some e → k.publicId? i = some (edgeId e.source e.target) := by
  have hrun : ((compile "a.a.b -> a; a.a.b <-> a").toOption.bind (·.after? hoistingRun)).map
    (·.ids) = some ["x -> y", "a", "a.b"] := by decide +kernel
  obtain ⟨k, hk, hids⟩ := Option.map_eq_some_iff.mp hrun
  obtain ⟨g, hg, hk⟩ := Option.bind_eq_some_iff.mp hk
  have hg' := toOption_eq_some_iff.mp hg
  obtain ⟨hnodup, -, -, hwithin, -, hpublic⟩ := integrity_of_run (Or.inr ⟨_, hg'⟩) hk
  exact ⟨g, k, hg', hk, hids, hnodup, hwithin, hpublic⟩

/-! ### Names -/

/-- **A renaming to a name that holds an arrow** leaves an id that cannot be written. -/
theorem not_named_of_rename {key newName id : String} (hg : g.Integral) (hn : g.Named IsObjectName)
    (harrow : Arrow.occursIn newName = true) (h : g.rename key newName = .ok (k, id)) :
    ¬ k.Named IsObjectName := by
  have hspoilt : ¬ Arrow.Free newName.toList := fun hf => by
    rw [Arrow.occursIn_eq_false_iff.mpr hf] at harrow
    simp at harrow
  obtain ⟨old, htarget, rfl⟩ := rename_eq_ok_iff.mp h
  obtain ⟨-, hold, name, hname, hnew⟩ := of_renameTarget htarget
  obtain ⟨hsegment, hreserved, hiff⟩ := of_newName hname
  intro hk
  rcases hnew with ⟨hsame, -⟩ | rfl
  · -- the name is that of the object already
    have hleaf : IsObjectName (leaf old) := hn old hold _ (leaf_mem_segments old)
    rw [← hsame, leaf_below hsegment.noDot] at hleaf
    exact hspoilt (hiff.mp hleaf.noArrow)
  · obtain ⟨n, hfreeId, hnsegment, -, hniff⟩ := g.exists_freeId_eq (parent? old) hsegment hreserved
    have hfree := (g.freeId_spec (parent? old) name).1
    rw [hfreeId] at hk hfree
    have hne : old ≠ below (parent? old) n := fun he => hfree (he ▸ hold)
    rw [if_neg hne] at hk
    have hmem : below (parent? old) n ∈
        (g.remap (newId (g.transplant old (below (parent? old) n)))).ids := by
      rw [ids_remap (hg.nodup.map_on (hg.injective_transplant hold hfree))]
      exact List.mem_map.mpr ⟨old, hold, newId_transplant_top hold _⟩
    have hleaf : IsObjectName (leaf (below (parent? old) n)) := hk _ hmem _ (leaf_mem_segments _)
    rw [leaf_below hnsegment.noDot] at hleaf
    exact hspoilt (hiff.mp (hniff.mp hleaf.noArrow))

theorem not_named_of_namesArrow (hg : g.WellFormed) {c : Change} (harrow : c.namesArrow = true)
    (hc : c.result? g = some k) : ¬ k.Named IsObjectName := by
  cases c with
  | patch key => simp [Change.namesArrow] at harrow
  | edit board key action =>
    obtain ⟨-, k', newKey, hact, rfl⟩ := result?_edit_eq_some_iff.mp hc
    cases action with
    | rename newName =>
      exact fun hk => not_named_of_rename hg.toIntegral hg.named harrow hact hk
    | _ => simp [Change.namesArrow, Action.namesArrow] at harrow

/-- **The graphs along a run are named exactly as long as no change names an arrow.** -/
theorem named_iff_of_run : ∀ {cs : List Change} {g k : Graph}, g.WellFormed →
    g.after? cs = some k →
      ((∀ n l, g.after? (cs.take n) = some l → l.Named IsObjectName) ↔
        ∀ c ∈ cs, c.namesArrow = false)
  | [], g, k, hg, _ => by
    refine ⟨fun _ => nofun, fun _ n l hl => ?_⟩
    rw [List.take_nil] at hl
    exact Option.some.inj hl ▸ hg.named
  | c :: cs, g, k, hg, h => by
    obtain ⟨g', hg', h⟩ := Option.bind_eq_some_iff.mp h
    constructor
    · intro hall
      -- the graph after the first change is one of those along the run, so the change names no arrow
      have hnamed : g'.Named IsObjectName := hall 1 g' (by
        rw [List.take_succ_cons, List.take_zero]
        exact Option.bind_eq_some_iff.mpr ⟨g', hg', rfl⟩)
      have hc : c.namesArrow = false := by
        by_contra harrow
        exact not_named_of_namesArrow hg (by simpa using harrow) hg' hnamed
      refine List.forall_mem_cons.mpr ⟨hc, (named_iff_of_run (hg.change hg' hc) h).mp ?_⟩
      intro n l hl
      refine hall (n + 1) l ?_
      rw [List.take_succ_cons]
      exact Option.bind_eq_some_iff.mpr ⟨g', hg', hl⟩
    · intro harrow n l hl
      exact (wellFormed_of_run hg hl fun c hc => harrow c (List.mem_of_mem_take hc)).named

/-! ### Printed graphs -/

/-- The graph is printed from its canonical statements, or from those that it was built from. -/
def Printed (g : Graph) : Prop := ∀ ss, g.statements = some ss →
  ss = g.canonical ∨ (∀ s ∈ ss, s.WellFormed) ∧ lower ss = .ok g

theorem canonical_refresh (g : Graph) : g.refresh.canonical = g.canonical :=
  canonical_congr rfl rfl fun _ => rfl

theorem printed_of_compile {text : String} (h : compile text = .ok g) : g.Printed := by
  obtain ⟨ss, hparse, hlower⟩ := compile_eq_ok_iff.mp h
  intro ts hts
  have hss : g.statements = some ss := by
    obtain ⟨cs, -, rfl⟩ := lower_eq_ok_iff.mp hlower
    rfl
  obtain rfl := Option.some.inj (hss.symm.trans hts)
  exact Or.inr ⟨Statement.wellFormed_of_parse hparse, hlower⟩

theorem printed_of_change {c : Change} (hc : c.result? g = some k) : k.Printed := by
  cases c with
  | edit board key action =>
    obtain ⟨-, h, newKey, -, rfl⟩ := result?_edit_eq_some_iff.mp hc
    exact fun ss hss => Or.inl ((Option.some.inj hss).symm.trans (canonical_refresh h).symm)
  | patch key =>
    obtain ⟨text, htext⟩ := compile_of_result?_patch hc
    exact printed_of_compile htext

theorem printed_of_run {cs : List Change} (h₀ : g.IsInitial) (h : g.after? cs = some k) :
    k.Printed := by
  have hinitial : g.Printed := by
    rcases h₀ with rfl | ⟨text, htext⟩
    · exact nofun
    · exact printed_of_compile htext
  exact run_invariant (fun _ _ _ _ _ hc => printed_of_change hc) hinitial h

/-- **The text of a printed graph gives the graph again**, with its objects reordered. -/
theorem exists_reorders_of_format (hg : g.WellFormed) (hprinted : g.Printed) {text : String}
    (h : g.format = some text) : ∃ k, compile text = .ok k ∧ k.Reorders g := by
  obtain ⟨ss, hss, rfl⟩ := Option.map_eq_some_iff.mp h
  rcases hprinted ss hss with rfl | ⟨hwell, hlower⟩
  · exact hg.exists_reorders
  · exact ⟨g, compile_eq_ok_iff.mpr ⟨ss, Statement.parse_print hwell, hlower⟩, .refl g⟩

theorem exists_compile_of_format (hg : g.WellFormed) (hprinted : g.Printed) {text : String}
    (h : g.format = some text) : ∃ l, compile text = .ok l ∧ l.objects.Perm g.objects := by
  obtain ⟨l, hcompile, hl⟩ := exists_reorders_of_format hg hprinted h
  exact ⟨l, hcompile, hl.perm (wellFormed_of_compile hcompile).toIntegral hg.toIntegral⟩

/-- **The objects can be expressed in texts**: the segments of their ids are names and no keywords,
the text of the graph declares them again, and each is addressed by its id. -/
structure Expressible (g : Graph) : Prop where
  names : ∀ o ∈ g.objects, ∀ s ∈ segments o.id, IsName s ∧ isReserved s = false
  declared : ∀ text, g.format = some text → ∃ l, compile text = .ok l ∧ l.objects.Perm g.objects
  addressed : ∀ o ∈ g.objects, Key.parse o.id = .ok (.object (segments o.id) [])

theorem Expressible.named (h : g.Expressible) : g.Named IsObjectName := by
  unfold Named ids EverySegment
  rw [List.forall_mem_map]
  exact fun o ho s hs => ⟨(h.names o ho s hs).1, (h.names o ho s hs).2⟩

theorem WellFormed.expressible (h : g.WellFormed) (hprinted : g.Printed) : g.Expressible where
  names _ ho s hs := ⟨(h.isId ho s hs).toIsName, (h.isId ho s hs).notReserved⟩
  declared _ htext := exists_compile_of_format h hprinted htext
  addressed _ ho := Key.parse_of_isId (h.isId ho)

/-- **Names along a run**: the segments of all ids are segments and no keywords, whatever the run,
and the objects of all its graphs can be expressed exactly if no renaming of the run gives a name
that holds an arrow. -/
theorem names_of_run {cs : List Change} (h₀ : g.IsInitial) (h : g.after? cs = some k) :
    (∀ o ∈ k.objects, ∀ s ∈ segments o.id, IsSegment s ∧ isReserved s = false) ∧
      ((∀ n l, g.after? (cs.take n) = some l → l.Expressible) ↔
        ∀ c ∈ cs, c.namesArrow = false) := by
  have hsegments := (sound_of_run h₀ h).segments
  have hiff := named_iff_of_run h₀.wellFormed h
  refine ⟨fun o ho => hsegments o.id (mem_ids_of_mem ho), fun hall => ?_, fun harrow n l hl => ?_⟩
  · exact hiff.mp fun n l hl => (hall n l hl).named
  · have hwell := wellFormed_of_run h₀.wellFormed hl fun c hc => harrow c (List.mem_of_mem_take hc)
    exact hwell.expressible (printed_of_run h₀ hl)

/-- The run that creates an object and renames it to a text that holds an arrow. -/
def arrowRun : List Change := [.edit [] "a" .create, .edit [] "a" (.rename "x -> y")]

theorem names_of_run_arrowRun :
    (∀ n l, (∅ : Graph).after? ((arrowRun.take 1).take n) = some l → l.Expressible) ∧
      ¬ ∀ n l, (∅ : Graph).after? (arrowRun.take n) = some l → l.Expressible := by
  have hcreated : (∅ : Graph).after? (arrowRun.take 1) =
    some (Graph.mk [.blank "a"] [] ∅ none).refresh := by decide +kernel
  have hrenamed : (∅ : Graph).after? arrowRun =
    some (Graph.mk [.blank "x -> y"] [] ∅ none).refresh := by decide +kernel
  refine ⟨(names_of_run (Or.inl rfl) hcreated).2.mpr (by decide), fun hall => ?_⟩
  exact absurd ((names_of_run (Or.inl rfl) hrenamed).2.mp hall) (by decide)

end Graph

end BoxDiagram
