import BoxDiagram.Proofs.Edit.Addition
import BoxDiagram.Proofs.Edit.Deletion
import BoxDiagram.Proofs.Edit.Moving

/-!
# Undoing: edits that take each other back

Deleting what was just created leaves the graph as it was, if creating has not added any ancestors
(`delete_addObjects`, `delete_addEdge`). A subtree that has been moved to a free id comes back by the
opposite move (`Integral.relabel_back`), since nothing else lies within the new id; a renaming is such
a move, and its old id is free for the renaming back. So each of these edits, followed by the opposite
one with the key that it answers with, restores the objects and the edges in their order, with their
attributes and endpoints (`edits_undone`).
-/

namespace BoxDiagram

open Dotted Edit

namespace Dotted

variable {old new id : String}

/-- **What lies within a moved id comes back** by the opposite move, and what lies outside of both ids
has not been moved. -/
theorem reroot_reroot (hout : ¬ isWithin id new = true) : reroot new old (reroot old new id) = id := by
  by_cases hw : isWithin id old = true
  · have hnew := isWithin_append_remainder hw new
    rw [reroot_of_isWithin hw, reroot_of_isWithin hnew]
    apply segments_injective
    rw [segments_append_remainder hnew, segments_append_remainder hw, List.drop_left]
    exact List.prefix_iff_eq_append.mp (isWithin_iff.mp hw)
  · rw [reroot_of_not_isWithin hw, reroot_of_not_isWithin hout]

end Dotted

/-! ### Names -/

theorem newName_of_isObjectName {name : String} (h : IsObjectName name) : newName name = .ok name := by
  have hpath := isPath_singleton h.toIsName
  have htrim := hpath.trim_join
  rw [join_singleton] at htrim
  have hread : Key.readPath name.toList = .ok [name] :=
    Key.readPath_join hpath (by rw [join_singleton, htrim])
  unfold newName
  rw [hread]
  show (if Attribute.isReserved name then _ else Except.ok name) = _
  rw [if_neg (by simp [h.notReserved])]

namespace Graph

variable {g h : Graph} {board : List String} {key newKey id reported old new name : String}

/-! ### Deleting what was created -/

theorem ensure_of_parent (hfree : id ∉ g.ids) (hparent : ∀ p ∈ parent? id, p ∈ g.ids) :
    g.ensure id = g.addObjects [.blank id] := by
  have hmissing : g.missing id = [id] := by
    cases hp : parent? id with
    | none => exact missing_of_root hfree hp
    | some p => rw [missing_of_parent hfree hp, missing_of_mem (hparent p hp), List.nil_append]
  rw [ensure, hmissing]
  rfl

/-- Nothing but the object at the end lies within its id, if that was free. -/
theorem prune_addObjects (hg : g.Integral) (hfree : id ∉ g.ids) :
    (g.addObjects [.blank id]).prune id = g := by
  have hout : ∀ x ∈ g.ids, ¬ segments id <+: segments x := fun x hx hw =>
    hfree (hg.mem_of_isWithin hx (isWithin_iff.mpr hw))
  have hobjects : (g.objects ++ [Object.blank id]).filter
      (fun o => ¬ segments id <+: segments o.id) = g.objects := by
    rw [List.filter_append, List.filter_eq_self.mpr fun o ho =>
      decide_eq_true (hout o.id (mem_ids_of_mem ho)), List.filter_singleton]
    simp [Object.blank]
  have hedges : (g.edges.filter fun e =>
      ¬ (segments id <+: segments e.source ∨ segments id <+: segments e.target)) = g.edges :=
    List.filter_eq_self.mpr fun e he => decide_eq_true (not_or.mpr
      ⟨hout e.source (hg.endpoints e he).1, hout e.target (hg.endpoints e he).2⟩)
  unfold prune addObjects
  dsimp only
  rw [hobjects, hedges]

/-- **An object at the end without anything below it** is deleted alone. -/
theorem delete_addObjects (hg : g.Integral) (hid : IsId id) (hfree : id ∉ g.ids)
    (hparent : ∀ p ∈ parent? id, p ∈ g.ids) : (g.addObjects [.blank id]).delete id = .ok g := by
  have hensure := ensure_of_parent hfree hparent
  have hmem : id ∈ (g.addObjects [.blank id]).ids := hensure ▸ mem_ids_ensure g id
  have hintegral : (g.addObjects [.blank id]).Integral := hensure ▸ hg.ensure id
  have hexisting : (g.addObjects [.blank id]).existing (segments id) = .ok id :=
    existing_eq_ok_iff.mpr ⟨by rwa [join_segments], join_segments id⟩
  unfold delete parseKey
  rw [Key.parse_of_isId hid]
  show ((g.addObjects [.blank id]).existing (segments id) >>= _) = _
  rw [hexisting, ok_bind, hintegral.removeObjects_subtree hmem, prune_addObjects hg hfree]
  rfl

/-- **The edge at the end** is deleted by the number of edges in front of it. -/
theorem delete_addEdge {source target : List String} (hs : IsObjectPath source)
    (ht : IsObjectPath target) (arrow : Arrow) (hsize : g.edges.length < Key.indexBound) :
    (g.addEdge (.blank (join source) arrow (join target))).delete
      (indexedEdgeKey (join source) arrow (join target)
        (g.edgesBetween (join source) (join target)).length) = .ok g := by
  have hnumber := length_edgesBetween g (join source) (join target)
  have hle : g.edges.countP (Edge.joins (join source) (join target)) ≤ g.edges.length :=
    List.countP_le_length
  have hparse := Key.parse_indexedEdgeKey hs ht arrow
    (show (g.edgesBetween (join source) (join target)).length < Key.indexBound by omega)
  refine (delete_eq_ok_iff hparse rfl).mpr ⟨g.edges.length, edgeAt?_eq_some_iff.mpr
    ⟨_, List.getElem?_concat_length, ⟨rfl, rfl⟩, ?_⟩, ?_⟩
  · rw [addEdge, List.take_left]
    exact hnumber.symm
  · have hrest : (g.edges ++ [Edge.blank (join source) arrow (join target)]).eraseIdx
        g.edges.length = g.edges := by simp [List.eraseIdx_append_of_length_le]
    unfold removeEdge addEdge
    dsimp only
    rw [hrest]

theorem parent?_freePath {path : List String} (hpath : IsObjectPath path) :
    parent? (g.freePath path) = if path.dropLast = [] then none else some (join path.dropLast) := by
  have hlast : path.getLast?.getD "" ∈ path := by
    rw [List.getLast?_eq_some_getLast hpath.ne_nil]
    exact List.getLast_mem hpath.ne_nil
  obtain ⟨n, hn, hsegment, -⟩ := g.exists_freeId_eq
    (if path.dropLast = [] then none else some (join path.dropLast))
      (hpath.names _ hlast).toIsSegment (hpath.names _ hlast).notReserved
  rw [freePath, hn, parent?_below hsegment.noDot]

/-! ### Moving back -/

theorem relabel_relabel (g : Graph) (f f' : String → String) :
    (g.relabel f).relabel f' = g.relabel fun id => f' (f id) := by
  unfold relabel
  simp only [List.map_map]
  rfl

section Back
variable (hg : g.Integral) (hold : old ∈ g.ids) (hnew : new ∉ g.ids)
include hg

/-- **A subtree that is moved to a free id comes back** by the opposite move. -/
theorem Integral.relabel_back (hnew : new ∉ g.ids) :
    (g.relabel (reroot old new)).relabel (reroot new old) = g := by
  have hback : ∀ id ∈ g.ids, reroot new old (reroot old new id) = id := fun id hid =>
    reroot_reroot fun hw => hnew (hg.mem_of_isWithin hid hw)
  rw [relabel_relabel, hg.relabel_congr hback, relabel_self]

include hold hnew

theorem Integral.not_isWithin_of_notMem : ¬ isWithin old new = true :=
  fun hw => hnew (hg.mem_of_isWithin hold hw)

theorem Integral.old_notMem_relabel : old ∉ (g.relabel (reroot old new)).ids := by
  rw [ids_relabel, List.mem_map]
  rintro ⟨id, -, he⟩
  by_cases hw : isWithin id old = true
  · rw [reroot_of_isWithin hw] at he
    exact hg.not_isWithin_of_notMem hold hnew (he ▸ isWithin_append_remainder hw new)
  · rw [reroot_of_not_isWithin hw] at he
    exact hw (he ▸ isWithin_self id)

omit hg hnew in
theorem new_mem_relabel (new : String) : new ∈ (g.relabel (reroot old new)).ids := by
  rw [ids_relabel]
  exact List.mem_map.mpr ⟨old, hold, reroot_self old new⟩

theorem Integral.applyMapping_transplant :
    g.applyMapping (TextMap.ofList (g.transplant old new)) = g.relabel (reroot old new) :=
  hg.applyMapping_eq (hg.injective_transplant hold hnew) fun _ hid => newId_transplant hold new hid

section Placed
variable (hout : ¬ isWithin new old = true) (hparent : ∀ p ∈ parent? new, p ∈ g.ids)
include hout hparent

omit hg hold hnew in
theorem ensureParent_relabel :
    (g.relabel (reroot old new)).ensureParent new = g.relabel (reroot old new) := by
  unfold Graph.ensureParent
  cases hp : parent? new with
  | none => rfl
  | some p =>
    have hkept : reroot old new p = p :=
      reroot_of_not_isWithin (fun hw => hout (isWithin_trans (isWithin_parent hp) hw)) new
    refine ensure_of_mem ?_
    rw [ids_relabel]
    exact List.mem_map.mpr ⟨p, hparent p hp, hkept⟩

theorem Integral.relabel_reroot : (g.relabel (reroot old new)).Integral := by
  have hmoved := hg.moved (hg.relocates_transplant hold new) (hg.injective_transplant hold hnew)
  rwa [hg.applyMapping_transplant hold hnew, ensureParent_relabel hout hparent] at hmoved

/-- **A move to a free id below an object, or at the root,** succeeds and relabels the graph. -/
theorem Integral.move_eq_relabel (hkey : objectId key = .ok old)
    (hnewKey : objectId newKey = .ok new) :
    g.move key newKey true = .ok (g.relabel (reroot old new)) := by
  have hne : new ≠ old := fun he => hnew (he ▸ hold)
  refine (move_eq_ok_iff_of_objectId hkey hnewKey).mpr
    ⟨hold, Or.inr ⟨hne, hout, hg.checkMapping_transplant hold hnew, ?_⟩⟩
  rw [show g.moves old new true = g.transplant old new from rfl,
    hg.applyMapping_transplant hold hnew, ensureParent_relabel hout hparent]

/-- **The opposite move undoes it.** -/
theorem Integral.move_back (hkey : objectId key = .ok new) (hnewKey : objectId newKey = .ok old) :
    (g.relabel (reroot old new)).move key newKey true = .ok g := by
  have hkept : ∀ p ∈ parent? old, p ∈ (g.relabel (reroot old new)).ids := fun p hp => by
    rw [ids_relabel]
    exact List.mem_map.mpr ⟨p, hg.parents old hold p hp,
      reroot_of_not_isWithin (not_isWithin_child hp) new⟩
  have hback := (hg.relabel_reroot hold hnew hout hparent).move_eq_relabel
    (new_mem_relabel hold new) (hg.old_notMem_relabel hold hnew)
      (hg.not_isWithin_of_notMem hold hnew) hkept hkey hnewKey
  rw [hback, hg.relabel_back hnew]

end Placed

end Back

/-! ### Renaming back -/

theorem renameTarget_eq_ok {single : String} (hkey : objectId key = .ok old) (hold : old ∈ g.ids)
    (hname : newName name = .ok single) : g.renameTarget key name = .ok
      (old, if below (parent? old) single = old then old else g.freeId (parent? old) single) := by
  obtain ⟨parsed, hparsed, hid⟩ := bind_eq_ok.mp hkey
  unfold renameTarget
  rw [hparsed, ok_bind]
  cases parsed with
  | edge k => simp at hid
  | object path attr =>
    dsimp only
    rw [hkey, ok_bind, if_neg (by simp [contains_iff.mpr hold]), hname, ok_bind]
    split_ifs <;> rfl

/-- **A renaming is undone** by the renaming of the new id to the old name. -/
theorem Integral.rename_back (hg : g.Integral) (hold : old ∈ g.ids) (hnew : new ∉ g.ids)
    (hisOld : IsId old) (hisNew : IsId new) (hparent : parent? new = parent? old) :
    (g.relabel (reroot old new)).rename new (leaf old) = .ok (g, old) := by
  have hne : new ≠ old := fun he => hnew (he ▸ hold)
  have hout : ¬ isWithin new old = true := fun hw => by
    obtain ⟨p, hp, hpw⟩ := isWithin_parent?_of_ne hw hne
    exact not_isWithin_child (hparent ▸ hp) hpw
  have hintegral := hg.relabel_reroot hold hnew hout fun p hp => hg.parents old hold p (hparent ▸ hp)
  have hvacated := hg.old_notMem_relabel hold hnew
  have hplaced := new_mem_relabel hold new
  have hchosen : (g.relabel (reroot old new)).freeId (parent? old) (leaf old) = old := by
    rw [freeId_of_free _ (by rwa [below_leaf]), below_leaf]
  refine rename_eq_ok_iff.mpr ⟨new, ?_, ?_⟩
  · rw [renameTarget_eq_ok (objectId_of_isId hisNew) hplaced (newName_of_isObjectName hisOld.leaf),
      hparent, below_leaf, if_neg (Ne.symm hne), hchosen]
  · rw [if_neg hne, hintegral.applyMapping_transplant hplaced hvacated, hg.relabel_back hnew]

/-- What a renaming to a name without arrows has done: nothing, or it has relabelled the graph with a
free id beside the old one. -/
theorem Integral.of_rename (hg : g.Integral) (harrow : Arrow.occursIn name = false)
    (hrename : g.rename key name = .ok (h, id)) : ∃ old, objectId key = .ok old ∧ old ∈ g.ids ∧
      (id = old ∧ h = g ∨ id ∉ g.ids ∧ IsId id ∧ parent? id = parent? old ∧
        h = g.relabel (reroot old id)) := by
  obtain ⟨old, htarget, rfl⟩ := rename_eq_ok_iff.mp hrename
  obtain ⟨hkey, hold, single, hname, hnew⟩ := of_renameTarget htarget
  refine ⟨old, hkey, hold, ?_⟩
  by_cases hsame : old = id
  · exact Or.inl ⟨hsame.symm, if_pos hsame⟩
  · obtain rfl := hnew.resolve_left fun hkept => hsame hkept.2.symm
    have hfree := (g.freeId_spec (parent? old) single).1
    obtain ⟨hsegment, hreserved, hiff⟩ := of_newName hname
    have hobjectName : IsObjectName single :=
      ⟨⟨hsegment, hiff.mpr (Arrow.occursIn_eq_false_iff.mp harrow)⟩, hreserved⟩
    have hparents : ∀ p ∈ parent? old, IsId p := fun p hp =>
      (isId_of_objectId hkey).of_isWithin (isWithin_parent hp)
    obtain ⟨n, hn, hnsegment, -⟩ := g.exists_freeId_eq (parent? old) hsegment hreserved
    refine Or.inr ⟨hfree, isId_freeId g hparents hobjectName, ?_, ?_⟩
    · rw [hn, parent?_below hnsegment.noDot]
    · rw [if_neg hsame, hg.applyMapping_transplant hold hfree]

/-! ### Undoing -/

theorem refresh_withStatements (g : Graph) (statements : Option (List Statement)) :
    (g.withStatements statements).refresh = g.refresh := by
  have hcanonical : (g.withStatements statements).canonical = g.canonical :=
    canonical_congr rfl rfl fun _ => rfl
  unfold refresh
  rw [hcanonical]
  rfl

theorem act_delete {k : Graph} (hdelete : g.delete key = .ok k) :
    g.act key .delete = .ok (k, key) := by
  show (g.delete key >>= _) = _
  rw [hdelete]
  rfl

theorem act_move_eq_ok_iff {withDescendants : Bool} {k : Graph} :
    g.act key (.move newKey withDescendants) = .ok (k, reported) ↔
      g.move key newKey withDescendants = .ok k ∧ newKey = reported := by
  show (g.move key newKey withDescendants >>= _) = _ ↔ _
  simp only [bind_eq_ok, pure_eq_ok, Prod.mk.injEq]
  constructor
  · rintro ⟨k', hmove, rfl, hreported⟩
    exact ⟨hmove, hreported⟩
  · rintro ⟨hmove, hreported⟩
    exact ⟨k, hmove, rfl, hreported⟩

/-- An edit of what another one leaves, whatever its statements are, is an edit after it. -/
theorem perform_back {a back : Action} {key' : String} (hp : g.perform board key a = .ok (h, id))
    (hback : ∀ k, g.act key a = .ok (k, id) → ∀ statements,
      (k.withStatements statements).act key' back = .ok (g.withStatements statements, reported)) :
    h.perform board key' back = .ok (g.refresh, reported) := by
  obtain ⟨rfl, k, hact, rfl⟩ := perform_eq_ok_iff.mp hp
  exact perform_eq_ok_iff.mpr
    ⟨rfl, _, hback k hact _, (refresh_withStatements g _).symm⟩

section Undone
variable {path attr : List String} {k : EdgeKey}

/-- **A created object is deleted again** by the key that creating answers with. -/
theorem Integral.undo_object (hg : g.Integral) (hparse : Key.parse key = .ok (.object path attr))
    (hparent : path.dropLast = [] ∨ join path.dropLast ∈ g.ids)
    (hp : g.perform board key .create = .ok (h, id)) :
    h.perform board id .delete = .ok (g.refresh, id) := by
  refine perform_back hp fun k hcreate statements => ?_
  obtain ⟨-, hpath, rfl, rfl⟩ := of_create_object hparse hcreate
  have hfree : g.freePath path ∉ g.ids := (isFreshFor_freePath hpath.ne_nil).notMem
  have hparent' : ∀ p ∈ parent? (g.freePath path), p ∈ g.ids := fun p hp => by
    rw [parent?_freePath hpath, Option.mem_def] at hp
    split_ifs at hp with hroot
    exact Option.some.inj hp ▸ hparent.resolve_left hroot
  rw [ensure_of_parent hfree hparent']
  exact act_delete (delete_addObjects (g := g.withStatements statements) (hg.withStatements _)
    (isId_freePath hpath) hfree hparent')

theorem undo_connection (hparse : Key.parse key = .ok (.edge k)) (hs : k.sourceId ∈ g.ids)
    (ht : k.targetId ∈ g.ids) (hsize : g.edges.length < Key.indexBound)
    (hp : g.perform board key .create = .ok (h, id)) :
    h.perform board id .delete = .ok (g.refresh, id) := by
  refine perform_back hp fun k' hcreate statements => ?_
  obtain ⟨-, rfl, rfl⟩ := of_create_edge hparse hcreate
  obtain ⟨hsource, htarget⟩ := Key.isObjectPath_of_parse_edge hparse
  rw [ensure_of_mem hs, ensure_of_mem ht]
  exact act_delete (delete_addEdge (g := g.withStatements statements) hsource htarget k.arrow hsize)

/-- **A move of a subtree is undone** by the opposite move. -/
theorem Integral.undo_move {key' newKey' : String} (hg : g.Integral) (hkey : objectId key = .ok old)
    (hnewKey : objectId newKey = .ok new) (hparent : ∀ p ∈ parent? new, p ∈ g.ids)
    (hp : g.perform board key (.move newKey true) = .ok (h, reported))
    (hkey' : objectId key' = .ok new) (hnewKey' : objectId newKey' = .ok old) :
    h.perform board key' (.move newKey' true) = .ok (g.refresh, newKey') := by
  refine perform_back hp fun k hact statements => act_move_eq_ok_iff.mpr ⟨?_, rfl⟩
  obtain ⟨hmove, -⟩ := act_move_eq_ok_iff.mp hact
  obtain ⟨hold, ⟨rfl, rfl⟩ | ⟨-, hout, hcheck, -⟩⟩ :=
    (move_eq_ok_iff_of_objectId hkey hnewKey).mp hmove
  · exact (move_eq_ok_iff_of_objectId hkey' hnewKey').mpr ⟨hold, Or.inl ⟨rfl, rfl⟩⟩
  · have hfree : new ∉ g.ids := notMem_of_checkMapping true hold hout hcheck
    obtain rfl := Except.ok.inj
      (hmove.symm.trans (hg.move_eq_relabel hold hfree hout hparent hkey hnewKey))
    exact (hg.withStatements statements).move_back hold hfree hout hparent hkey' hnewKey'

/-- **A renaming is undone** by the renaming of the new id to the old name. -/
theorem Integral.undo_rename (hg : g.Integral) (harrow : Arrow.occursIn name = false)
    (hp : g.perform board key (.rename name) = .ok (h, id)) : ∃ old, objectId key = .ok old ∧
      h.perform board id (.rename (leaf old)) = .ok (g.refresh, old) := by
  obtain ⟨rfl, k, hact, rfl⟩ := perform_eq_ok_iff.mp hp
  obtain ⟨old, hkey, hold, hrenamed⟩ := hg.of_rename harrow hact
  have hisOld : IsId old := isId_of_objectId hkey
  refine ⟨old, hkey, perform_back hp fun k' hact' statements => ?_⟩
  obtain ⟨rfl, -⟩ := Prod.mk.inj (Except.ok.inj (hact.symm.trans hact'))
  rcases hrenamed with ⟨rfl, rfl⟩ | ⟨hfree, hisNew, hparent, rfl⟩
  -- the object has kept its id, and so it does again
  · refine rename_eq_ok_iff.mpr ⟨id, ?_, (if_pos rfl).symm⟩
    have hleaf := newName_of_isObjectName hisOld.leaf
    rw [renameTarget_eq_ok (g := k.withStatements statements) (objectId_of_isId hisOld) hold hleaf,
      if_pos (below_leaf id)]
  · exact (hg.withStatements statements).rename_back hold hfree hisOld hisNew hparent

end Undone

/-- **Edits can be undone.** In an integral graph, and up to the statements: an object that is created
at the root or below an object is deleted again by the key that creating answers with, and so is a
connection between objects, as long as its number can be written in a key; a move with descendants to
the root or below an object is undone by the opposite move; and a renaming to a name without arrows is
undone by the renaming of the id that it answers with to the old name. Objects and edges then stand in
their old order, with their old attributes and endpoints. -/
theorem edits_undone (hg : g.Integral) :
    (∀ board key path attr h id, Key.parse key = .ok (.object path attr) →
      (path.dropLast = [] ∨ join path.dropLast ∈ g.ids) →
        g.perform board key .create = .ok (h, id) →
          h.perform board id .delete = .ok (g.refresh, id)) ∧
    (∀ board key k h id, Key.parse key = .ok (.edge k) → k.sourceId ∈ g.ids → k.targetId ∈ g.ids →
      g.edges.length < Key.indexBound → g.perform board key .create = .ok (h, id) →
        h.perform board id .delete = .ok (g.refresh, id)) ∧
    (∀ board key newKey old new h reported, objectId key = .ok old → objectId newKey = .ok new →
      (∀ p ∈ parent? new, p ∈ g.ids) → g.perform board key (.move newKey true) = .ok (h, reported) →
        ∀ key' newKey', objectId key' = .ok new → objectId newKey' = .ok old →
          h.perform board key' (.move newKey' true) = .ok (g.refresh, newKey')) ∧
    ∀ board key name h id, Arrow.occursIn name = false →
      g.perform board key (.rename name) = .ok (h, id) →
        ∃ old, objectId key = .ok old ∧
          h.perform board id (.rename (leaf old)) = .ok (g.refresh, old) := by
  refine ⟨?object, ?connection, ?move, ?rename⟩
  case object =>
    intro board key path attr h id hparse hparent hp
    exact hg.undo_object hparse hparent hp
  case connection =>
    intro board key k h id hparse hs ht hsize hp
    exact undo_connection hparse hs ht hsize hp
  case move =>
    intro board key newKey old new h reported hkey hnewKey hparent hp key' newKey' hkey' hnewKey'
    exact hg.undo_move hkey hnewKey hparent hp hkey' hnewKey'
  case rename =>
    intro board key name h id harrow hp
    exact hg.undo_rename harrow hp

/-- A graph in which an object has a descendant and an attribute, with a loop and two parallel edges. -/
def knotted : Graph where
  objects := [.blank "a", (Object.blank "a.b").assign "shape" (some "circle"), .blank "a.b.c",
    .blank "d"]
  edges := [.blank "a.b.c" .forward "d", .blank "a.b" .both "a.b", .blank "a.b.c" .plain "d"]
  board := ∅
  statements := none

/-- A numbered object, a third parallel edge, a subtree at the root, and a numbered name. -/
theorem edits_undone_knotted : knotted.Integral ∧
    (∃ h, knotted.perform [] "a . b" .create = .ok (h, "a.b 2") ∧
      h.perform [] "a.b 2" .delete = .ok (knotted.refresh, "a.b 2")) ∧
    (∃ h, knotted.perform [] "a.b.c <- d" .create = .ok (h, "(a.b.c <- d)[2]") ∧
      h.perform [] "(a.b.c <- d)[2]" .delete = .ok (knotted.refresh, "(a.b.c <- d)[2]")) ∧
    (∃ h, knotted.perform [] "a.b" (.move "e" true) = .ok (h, "e") ∧
      h.ids = ["a", "e", "e.c", "d"] ∧
      h.perform [] "e" (.move "a . b" true) = .ok (knotted.refresh, "a . b")) ∧
    ∃ h, knotted.perform [] "d" (.rename "a") = .ok (h, "a 2") ∧ h.ids = ["a", "a.b", "a.b.c", "a 2"] ∧
      h.perform [] "a 2" (.rename "d") = .ok (knotted.refresh, "d") := by
  have hintegral : knotted.Integral := by decide +kernel
  obtain ⟨hobject, hconnection, hmove, hrename⟩ := edits_undone hintegral
  have hcreated : knotted.perform [] "a . b" .create =
    .ok ((knotted.addObjects [.blank "a.b 2"]).refresh, "a.b 2") := by decide +kernel
  have hconnected : knotted.perform [] "a.b.c <- d" .create =
    .ok ((knotted.addEdge (.blank "a.b.c" .backward "d")).refresh, "(a.b.c <- d)[2]") := by
    decide +kernel
  have hmoved : knotted.perform [] "a.b" (.move "e" true) =
    .ok ((knotted.relabel (reroot "a.b" "e")).refresh, "e") := by decide +kernel
  have hrenamed : knotted.perform [] "d" (.rename "a") =
    .ok ((knotted.relabel (reroot "d" "a 2")).refresh, "a 2") := by decide +kernel
  refine ⟨hintegral, ⟨_, hcreated, ?object⟩, ⟨_, hconnected, ?connection⟩,
    ⟨_, hmoved, by decide +kernel, ?move⟩, _, hrenamed, by decide +kernel, ?rename⟩
  case object =>
    have hparse : Key.parse "a . b" = .ok (.object ["a", "b"] []) := by decide +kernel
    exact hobject _ _ _ _ _ _ hparse (Or.inr (by decide +kernel)) hcreated
  case connection =>
    have hparse : Key.parse "a.b.c <- d" =
      .ok (.edge ⟨["a", "b", "c"], ["d"], .backward, none, []⟩) := by decide +kernel
    exact hconnection _ _ _ _ _ hparse (by decide +kernel) (by decide +kernel) (by decide) hconnected
  case move =>
    exact hmove _ _ _ "a.b" "e" _ _ (by decide +kernel) (by decide +kernel) (by decide +kernel) hmoved
      _ _ (by decide +kernel) (by decide +kernel)
  case rename =>
    obtain ⟨old, hkey, hback⟩ := hrename _ _ _ _ _ (by decide +kernel) hrenamed
    have hd : objectId "d" = .ok "d" := by decide +kernel
    obtain rfl := Except.ok.inj (hkey.symm.trans hd)
    exact hback

end Graph

end BoxDiagram
