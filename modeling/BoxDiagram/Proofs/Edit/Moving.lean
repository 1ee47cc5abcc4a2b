import BoxDiagram.Proofs.Edit.Relabelling
import BoxDiagram.Proofs.Edit.Step

/-!
# Moving: where objects come to lie

A move that is not refused gives its object an id that was free (`notMem_of_checkMapping`), also where
the mapping itself vacates ids. With its descendants an object can be moved to each id that is free
and not below it, and then the whole subtree lies at the new id (`move_subtree`). Without them the
object has no children at its new place, and its former children lie in its former place, one of them
perhaps under its former id (`move_alone`).
-/

namespace BoxDiagram

open Dotted

namespace Graph

variable {g h : Graph} {key newKey old new id v : String} {withDescendants : Bool}

/-! ### What a move checks -/

theorem mem_moves (g : Graph) (old new : String) (withDescendants : Bool) :
    (old, new) ∈ g.moves old new withDescendants := by
  cases withDescendants with
  | false => exact mem_hoist.mpr (Or.inl ⟨rfl, rfl⟩)
  | true => exact mem_transplant.mpr ⟨List.mem_cons_self, by simp [remainder_self]⟩

theorem functional_moves : TextMap.Functional (g.moves old new withDescendants) := by
  cases withDescendants with
  | false => exact functional_hoist old new
  | true => exact functional_transplant old new

theorem isWithin_of_mem_moves (hold : old ∈ g.ids)
    (hmem : (id, v) ∈ g.moves old new withDescendants) : isWithin id old = true := by
  cases withDescendants with
  | false =>
    rcases mem_hoist.mp hmem with ⟨rfl, -⟩ | ⟨c, hc, -, hcw, -⟩
    · exact isWithin_self id
    · exact isWithin_trans hcw (isWithin_parent (mem_children.mp hc).2)
  | true => exact ((mem_transplant_iff hold).mp hmem).2.1

/-- **A move that passes the check goes to a free id**, since what it vacates lies within the old
one. -/
theorem notMem_of_checkMapping (withDescendants : Bool) (hold : old ∈ g.ids)
    (hout : ¬ isWithin new old = true)
    (hcheck : g.checkMapping (TextMap.ofList (g.moves old new withDescendants)) []
      (TextMap.ofList (g.moves old new withDescendants)).entries = .ok ()) : new ∉ g.ids := by
  obtain ⟨-, -, hfree⟩ := checkMapping_eq_ok_iff.mp hcheck
  have hget : (TextMap.ofList (g.moves old new withDescendants)).get? old = some new :=
    (TextMap.get?_ofList_eq_some_iff functional_moves).mpr (mem_moves g old new withDescendants)
  rcases hfree (old, new) (TextMap.mem_entries_iff.mpr hget) with he | hnot | hcontains
  · obtain rfl : old = new := he
    exact absurd (isWithin_self old) hout
  · exact hnot
  · obtain ⟨v, hv⟩ := TextMap.contains_iff.mp hcontains
    exact absurd (isWithin_of_mem_moves hold (TextMap.mem_of_get?_ofList hv)) hout

/-- **A whole subtree passes the check** on its way to a free id: nothing lies within that id. -/
theorem Integral.checkMapping_transplant (hg : g.Integral) (hold : old ∈ g.ids)
    (hnew : new ∉ g.ids) : g.checkMapping (TextMap.ofList (g.transplant old new)) []
      (TextMap.ofList (g.transplant old new)).entries = .ok () := by
  have hentry : ∀ e ∈ (TextMap.ofList (g.transplant old new)).entries,
      e.1 ∈ g.ids ∧ newId (g.transplant old new) e.1 = e.2 ∧ e.2 ∉ g.ids := by
    rintro ⟨id, v⟩ he
    have hmem := TextMap.mem_of_get?_ofList (TextMap.mem_entries_iff.mp he)
    have hv := newId_of_mem (functional_transplant old new) hmem
    obtain ⟨hid, hw, rfl⟩ := (mem_transplant_iff hold).mp hmem
    exact ⟨hid, hv, hg.append_remainder_notMem hnew hw⟩
  refine checkMapping_eq_ok_iff.mpr ⟨by simp, ?_, fun e he => Or.inr (Or.inl (hentry e he).2.2)⟩
  have hnodup := (TextMap.ofList (g.transplant old new)).nodup_keys
  refine hnodup.of_map.map_on fun e he e' he' heq => ?_
  obtain ⟨hid, hv, -⟩ := hentry e he
  obtain ⟨hid', hv', -⟩ := hentry e' he'
  have hsame : newId (g.transplant old new) e.1 = newId (g.transplant old new) e'.1 := by
    rw [hv, hv', heq]
  exact Prod.ext (hg.injective_transplant hold hnew _ hid _ hid' hsame) heq

theorem move_eq_ok_iff_of_objectId (hkey : Edit.objectId key = .ok old)
    (hnewKey : Edit.objectId newKey = .ok new) : g.move key newKey withDescendants = .ok h ↔
    old ∈ g.ids ∧ (new = old ∧ h = g ∨ new ≠ old ∧ ¬ isWithin new old = true ∧
      g.checkMapping (TextMap.ofList (g.moves old new withDescendants)) []
        (TextMap.ofList (g.moves old new withDescendants)).entries = .ok () ∧
      h = (g.applyMapping (TextMap.ofList (g.moves old new withDescendants))).ensureParent new) := by
  rw [move_eq_ok_iff, hkey, hnewKey]
  constructor
  · rintro ⟨old, new, ⟨⟩, ⟨⟩, hmove⟩
    exact hmove
  · intro hmove
    exact ⟨old, new, rfl, rfl, hmove⟩

/-! ### With descendants -/

theorem mem_map_reroot_iff (hout : ¬ isWithin new old = true) {x : String}
    (hx : x ∈ ancestors new) : x ∈ g.ids.map (reroot old new) ↔ x ∈ g.ids := by
  obtain ⟨habove, hbelow⟩ := of_mem_ancestors hx
  rw [List.mem_map]
  constructor
  · rintro ⟨y, hy, rfl⟩
    by_cases hw : isWithin y old = true
    · rw [reroot_of_isWithin hw] at hbelow
      exact absurd (isWithin_append_remainder hw new) hbelow
    · rwa [reroot_of_not_isWithin hw]
  · intro hmem
    exact ⟨x, hmem, reroot_of_not_isWithin (fun hw => hout (isWithin_trans habove hw)) new⟩

/-- **Moving with descendants takes the whole subtree along, and nothing else.** In an integral graph
the move succeeds exactly if the object is there and its new id is the old one, or is no object and
not within the old one. It leaves the graph as it is if the ids are the same. Otherwise each object
and each edge keeps its place, the ids within the old one have the new one in front instead, no id is
there twice, and the missing ancestors of the new id come at the end. -/
theorem move_subtree (hg : g.Integral) (hkey : Edit.objectId key = .ok old)
    (hnewKey : Edit.objectId newKey = .ok new) :
    ((∃ h, g.move key newKey true = .ok h) ↔
      old ∈ g.ids ∧ (new = old ∨ ¬ segments old <+: segments new ∧ new ∉ g.ids)) ∧
    ∀ h, g.move key newKey true = .ok h →
      (new = old → h = g) ∧
      (new ≠ old → h.ids.Nodup ∧ h = (g.relabel (reroot old new)).addObjects
        (((ancestors new).filter (· ∉ g.ids)).map Object.blank)) := by
  simp only [move_eq_ok_iff_of_objectId hkey hnewKey, ← isWithin_iff]
  refine ⟨⟨?_, ?_⟩, ?_⟩
  · rintro ⟨h, hold, ⟨he, -⟩ | ⟨-, hout, hcheck, -⟩⟩
    · exact ⟨hold, Or.inl he⟩
    · exact ⟨hold, Or.inr ⟨hout, notMem_of_checkMapping true hold hout hcheck⟩⟩
  · rintro ⟨hold, rfl | ⟨hout, hnew⟩⟩
    · exact ⟨g, hold, Or.inl ⟨rfl, rfl⟩⟩
    · have hne : new ≠ old := fun he => hnew (he ▸ hold)
      exact ⟨_, hold, Or.inr ⟨hne, hout, hg.checkMapping_transplant hold hnew, rfl⟩⟩
  · rintro h ⟨hold, ⟨he, rfl⟩ | ⟨hne, hout, hcheck, rfl⟩⟩
    · exact ⟨fun _ => rfl, fun hne => absurd he hne⟩
    · refine ⟨fun he => absurd he hne, fun _ => ?_⟩
      have hmoves := hg.relocates_transplant hold new
      have hinj := injective_of_checkMapping hcheck
      have hmissing : (ancestors new).filter (· ∉ g.ids.map (reroot old new)) =
          (ancestors new).filter (· ∉ g.ids) :=
        List.filter_congr fun x hx => by rw [decide_eq_decide, mem_map_reroot_iff hout hx]
      refine ⟨(hg.moved hmoves hinj).nodup, ?_⟩
      rw [← hmissing]
      exact hg.moved_eq hmoves hinj fun id hid => newId_transplant hold new hid

/-- A graph in which an object has a descendant, and a sibling whose name begins with its own. -/
def neighbours : Graph where
  objects := [.blank "a", (Object.blank "a.b").assign "shape" (some "circle"), .blank "a.b.c",
    .blank "a.bc"]
  edges := [.blank "a.b.c" .forward "a.bc", .blank "a.b" .both "a.b"]
  board := ∅
  statements := none

/-- The sibling stays, both ends of the loop go along, and two ancestors are added; the ids of the
sibling and of the descendant are refused. -/
theorem move_subtree_neighbours : neighbours.Integral ∧
    (∃ h, neighbours.move "a.b" "x.y.b" true = .ok h ∧
      h.ids = ["a", "x.y.b", "x.y.b.c", "a.bc", "x", "x.y"] ∧
      h.edges = [.blank "x.y.b.c" .forward "a.bc", .blank "x.y.b" .both "x.y.b"] ∧
      h = (neighbours.relabel (reroot "a.b" "x.y.b")).addObjects [.blank "x", .blank "x.y"]) ∧
    (¬ ∃ h, neighbours.move "a.b" "a.bc" true = .ok h) ∧
    ¬ ∃ h, neighbours.move "a.b" "a.b.c" true = .ok h := by
  have hintegral : neighbours.Integral := by decide +kernel
  have hkey : Edit.objectId "a.b" = .ok "a.b" := by decide +kernel
  have hfree : Edit.objectId "x.y.b" = .ok "x.y.b" := by decide +kernel
  have hsibling : Edit.objectId "a.bc" = .ok "a.bc" := by decide +kernel
  have hbelow : Edit.objectId "a.b.c" = .ok "a.b.c" := by decide +kernel
  refine ⟨hintegral, ?_, ?_, ?_⟩
  · obtain ⟨hsucceeds, hmoved⟩ := move_subtree hintegral hkey hfree
    obtain ⟨h, hmove⟩ := hsucceeds.mpr (by decide +kernel)
    have hh := ((hmoved h hmove).2 (by decide)).2
    refine ⟨h, hmove, ?_, ?_, ?_⟩
    · rw [hh]; decide +kernel
    · rw [hh]; decide +kernel
    · rw [hh]; decide +kernel
  · rw [(move_subtree hintegral hkey hsibling).1]
    decide +kernel
  · rw [(move_subtree hintegral hkey hbelow).1]
    decide +kernel

/-! ### Without descendants -/

/-- **What moving an object alone leaves**: it has no children at its new place; its former children
are children of its former parent, each with all that lies below it; and all other ids stay. -/
structure MovesAlone (g : Graph) (old new : String) (h : Graph) : Prop where
  relabelled : h = (g.relabel (unnest old new)).addObjects
    (((ancestors new).filter (· ∉ g.ids.map (unnest old new))).map Object.blank)
  nodup : h.ids.Nodup
  top : unnest old new old = new
  childless : h.children (some new) = []
  children : ∀ c ∈ g.children (some old), unnest old new c = below (parent? old) (leaf c) ∧
    unnest old new c ∈ h.children (parent? old) ∧ ∀ id ∈ g.ids, segments c <+: segments id →
      segments (unnest old new id) =
        segments (unnest old new c) ++ (segments id).drop (segments c).length
  others : ∀ id ∈ g.ids, ¬ segments old <+: segments id → unnest old new id = id

/-- **No object comes to lie right below the moved one**, neither one that stays nor a child that
takes its former place, for the new id was free. -/
theorem Integral.parent?_unnest_ne (hg : g.Integral) (hold : old ∈ g.ids) (hnew : new ∉ g.ids)
    (hinj : ∀ x ∈ g.ids, ∀ y ∈ g.ids, unnest old new x = unnest old new y → x = y)
    (hid : id ∈ g.ids) : parent? (unnest old new id) ≠ some new := by
  intro hpar
  by_cases hself : id = old
  · rw [hself, unnest_self] at hpar
    exact not_isWithin_child hpar (isWithin_self new)
  by_cases hw : isWithin id old = true
  · obtain ⟨p, hp, hpw⟩ := isWithin_parent?_of_ne hw hself
    by_cases hpold : p = old
    · subst hpold
      rw [unnest_child hp, parent?_below (noDot_leaf id)] at hpar
      exact hnew (hg.parents p hold new hpar)
    · have hplace : unnest old new p = unnest old new old := by
        rw [unnest_self]
        exact Option.some.inj ((parent?_unnest hp hpw hpold new).symm.trans hpar)
      exact hpold (hinj p (hg.parents id hid p hp) old hold hplace)
  · rw [unnest_of_not_isWithin hw] at hpar
    exact hnew (hg.parents id hid new hpar)

theorem Integral.movesAlone (hg : g.Integral) (hold : old ∈ g.ids)
    (hout : ¬ isWithin new old = true)
    (hcheck : g.checkMapping (TextMap.ofList (g.hoist old new)) []
      (TextMap.ofList (g.hoist old new)).entries = .ok ()) :
    g.MovesAlone old new
      ((g.applyMapping (TextMap.ofList (g.hoist old new))).ensureParent new) := by
  have hmoves := hg.relocates_hoist new hold
  have hnewId := injective_of_checkMapping hcheck
  have heq := hg.moved_eq hmoves hnewId fun id hid => hg.newId_hoist new hid
  have hinj : ∀ x ∈ g.ids, ∀ y ∈ g.ids, unnest old new x = unnest old new y → x = y :=
    fun x hx y hy he => hnewId x hx y hy (by rwa [hg.newId_hoist new hx, hg.newId_hoist new hy])
  have hnew : new ∉ g.ids := notMem_of_checkMapping false hold hout hcheck
  have hids : ((g.applyMapping (TextMap.ofList (g.hoist old new))).ensureParent new).ids =
      g.ids.map (unnest old new) ++ (ancestors new).filter (· ∉ g.ids.map (unnest old new)) := by
    rw [heq, ids_addObjects_blank, ids_relabel]
  refine ⟨heq, (hg.moved hmoves hnewId).nodup, unnest_self old new, ?_, fun c hc => ?_,
    fun id _ hid => unnest_of_not_isWithin (mt isWithin_iff.mp hid) new⟩
  · refine List.eq_nil_iff_forall_not_mem.mpr fun x hx => ?_
    obtain ⟨hmem, hpar⟩ := mem_children.mp hx
    rw [hids, List.mem_append] at hmem
    rcases hmem with hmem | hmem
    · obtain ⟨id, hid, rfl⟩ := List.mem_map.mp hmem
      exact hg.parent?_unnest_ne hold hnew hinj hid hpar
    · exact not_isWithin_child hpar (of_mem_ancestors (List.mem_of_mem_filter hmem)).1
  · obtain ⟨hcmem, hpar⟩ := mem_children.mp hc
    have hplace := unnest_child hpar new
    refine ⟨hplace, mem_children.mpr ⟨?_, ?_⟩, fun id _ hid =>
      segments_unnest_of_child hpar (isWithin_iff.mpr hid) new⟩
    · rw [hids]
      exact List.mem_append_left _ (List.mem_map_of_mem hcmem)
    · rw [hplace, parent?_below (noDot_leaf c)]

/-- **Moving without descendants moves one object, and hoists its children.** -/
theorem move_alone (hg : g.Integral) (hkey : Edit.objectId key = .ok old)
    (hnewKey : Edit.objectId newKey = .ok new) (hne : new ≠ old)
    (hmove : g.move key newKey false = .ok h) : g.MovesAlone old new h := by
  obtain ⟨hold, ⟨he, -⟩ | ⟨-, hout, hcheck, rfl⟩⟩ :=
    (move_eq_ok_iff_of_objectId hkey hnewKey).mp hmove
  · exact absurd he hne
  · exact hg.movesAlone hold hout hcheck

/-- A graph in which a child has the name of its parent, and another one a child of its own. -/
def eponymous : Graph where
  objects := [(Object.blank "a").assign "shape" (some "circle"), .blank "a.a", .blank "a.a.x",
    .blank "a.c", .blank "a.c.d", .blank "b"]
  edges := [.blank "a" .forward "a.a", .blank "a.c.d" .backward "b", .blank "a" .plain "a"]
  board := ∅
  statements := none

/-- The child takes over the id of its parent, which comes to lie two steps below the other child. -/
theorem move_alone_eponymous : eponymous.Integral ∧
    ∃ h, eponymous.move "a" "c.n.y" false = .ok h ∧
      h.ids = ["c.n.y", "a", "a.x", "c", "c.d", "b", "c.n"] ∧
      h.edges = [.blank "c.n.y" .forward "a", .blank "c.d" .backward "b",
        .blank "c.n.y" .plain "c.n.y"] ∧
      eponymous.MovesAlone "a" "c.n.y" h := by
  have hintegral : eponymous.Integral := by decide +kernel
  have hmove : eponymous.move "a" "c.n.y" false =
      .ok ((eponymous.relabel (unnest "a" "c.n.y")).addObjects [.blank "c.n"]) := by decide +kernel
  exact ⟨hintegral, _, hmove, by decide +kernel, by decide +kernel,
    move_alone hintegral (by decide +kernel) (by decide +kernel) (by decide) hmove⟩

end Graph

end BoxDiagram
