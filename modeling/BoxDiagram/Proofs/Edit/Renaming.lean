import BoxDiagram.Edit.Delta
import BoxDiagram.Proofs.Edit.PublicId
import BoxDiagram.Proofs.Edit.Relabelling

/-!
# Renaming: the report and the renaming agree

The report of a renaming is made from the graph beforehand: it pairs the ids of the subtree with the
new ones, and the public ids of the edges that touch the subtree with those that they will have. The
renaming replaces ids in place and never looks at a public id. Where the ids of objects hold no arrow,
no public id is the id of an object, and different pairs of endpoints have different public ids; so
the report has one new id for each old one (`functional_announced`), and holds just the pairs of
different ids at the same place before and after (`renaming_announced`).
-/

namespace BoxDiagram

open Dotted

/-- The id that a report gives in place of an id. -/
def Deltas.replace (d : Deltas) (id : String) : String := (d.get? id).getD id

namespace Graph

variable {g h : Graph} {key name old new id v : String}

/-! ### The report -/

/-- The pairs that a report is made of. -/
def announced (g : Graph) (old new : String) : List (String × String) :=
  g.transplant old new ++ g.edgeDeltas (TextMap.ofList (g.transplant old new))

theorem renameDeltas_eq_ok_iff {d : Deltas} : g.renameDeltas key name = .ok d ↔
    ∃ old new, g.renameTarget key name = .ok (old, new) ∧
      d = if old = new then ∅ else TextMap.ofList (g.announced old new) := by
  unfold renameDeltas
  rw [bind_eq_ok]
  constructor
  · rintro ⟨⟨old, new⟩, htarget, hd⟩
    refine ⟨old, new, htarget, ?_⟩
    dsimp only at hd
    split_ifs at hd ⊢ <;> exact (pure_eq_ok.mp hd).symm
  · rintro ⟨old, new, htarget, rfl⟩
    refine ⟨(old, new), htarget, ?_⟩
    dsimp only
    split_ifs <;> rfl

theorem exists_rename_iff : (∃ h new, g.rename key name = .ok (h, new)) ↔
    ∃ d, g.renameDeltas key name = .ok d := by
  simp only [rename_eq_ok_iff, renameDeltas_eq_ok_iff]
  constructor
  · rintro ⟨h, new, old, htarget, -⟩
    exact ⟨_, old, new, htarget, rfl⟩
  · rintro ⟨d, old, new, htarget, -⟩
    exact ⟨_, new, old, htarget, rfl⟩

section Arrows
variable (hg : g.Integral) (harrow : ∀ id ∈ g.ids, Arrow.occursIn id = false)
include hg

theorem mem_edgeDeltas {moves : List (String × String)} :
    (id, v) ∈ g.edgeDeltas (TextMap.ofList moves) ↔ ∃ e ∈ g.edges,
      ¬ (newId moves e.source = e.source ∧ newId moves e.target = e.target) ∧
        id = e.publicId ∧ v = edgeId (newId moves e.source) (newId moves e.target) := by
  unfold edgeDeltas
  rw [List.mem_filterMap]
  constructor
  · rintro ⟨⟨e, i⟩, hmem, hpair⟩
    have he : e ∈ g.edges := List.fst_mem_of_mem_zipIdx hmem
    dsimp only at hpair
    split_ifs at hpair with hstay
    rw [publicIdOf_of_integral hg he] at hpair
    obtain ⟨rfl, rfl⟩ := Prod.mk.inj (Option.some.inj hpair)
    exact ⟨e, he, hstay, rfl, rfl⟩
  · rintro ⟨e, he, hchanged, rfl, rfl⟩
    obtain ⟨i, hi⟩ := List.mem_iff_getElem?.mp he
    refine ⟨(e, i), List.mem_zipIdx_iff_getElem?.mpr hi, ?_⟩
    dsimp only
    rw [publicIdOf_of_integral hg he]
    exact if_neg hchanged

/-- **A report pairs** the ids within the renamed object with the new ones, and the public ids of edges
whose endpoints are replaced with those of the new endpoints. -/
theorem mem_announced : (id, v) ∈ g.announced old new ↔ (id, v) ∈ g.transplant old new ∨
    ∃ e ∈ g.edges, ¬ (newId (g.transplant old new) e.source = e.source ∧
        newId (g.transplant old new) e.target = e.target) ∧ id = e.publicId ∧
      v = edgeId (newId (g.transplant old new) e.source) (newId (g.transplant old new) e.target) := by
  unfold announced
  rw [List.mem_append, mem_edgeDeltas hg]

include harrow

theorem free_endpoints {e : Edge} (he : e ∈ g.edges) :
    Arrow.Free e.source.toList ∧ Arrow.Free e.target.toList :=
  ⟨Arrow.occursIn_eq_false_iff.mp (harrow _ (hg.endpoints e he).1),
    Arrow.occursIn_eq_false_iff.mp (harrow _ (hg.endpoints e he).2)⟩

theorem eq_of_publicId {e e' : Edge} (he : e ∈ g.edges) (he' : e' ∈ g.edges)
    (hsame : e.publicId = e'.publicId) : e.source = e'.source ∧ e.target = e'.target :=
  edgeId_injective (free_endpoints hg harrow he).1 (free_endpoints hg harrow he').1 hsame

omit hg in
theorem publicId_notMem (e : Edge) : e.publicId ∉ g.ids := by
  intro hmem
  have hfree := Arrow.occursIn_eq_false_iff.mp (harrow _ hmem)
  rw [Edge.publicId, toList_edgeId] at hfree
  exact hfree .forward ⟨e.source.toList, e.target.toList, by simp [Arrow.token]⟩

section Target
variable (hold : old ∈ g.ids) (new : String)
include hold

omit hg in
theorem publicId_notMem_transplant (e : Edge) (v : String) :
    (e.publicId, v) ∉ g.transplant old new := fun hmem =>
  publicId_notMem harrow e ((mem_transplant_iff hold).mp hmem).1

/-- **A report has one new id for each old one.** -/
theorem functional_announced : TextMap.Functional (g.announced old new) := by
  intro id v w hv hw
  rcases (mem_announced hg).mp hv with hv | ⟨e, he, -, rfl, rfl⟩
  · rcases (mem_announced hg).mp hw with hw | ⟨e, -, -, rfl, -⟩
    · exact functional_transplant old new id v w hv hw
    · exact absurd hv (publicId_notMem_transplant harrow hold new e v)
  · rcases (mem_announced hg).mp hw with hw | ⟨e', he', -, hsame, rfl⟩
    · exact absurd hw (publicId_notMem_transplant harrow hold new e w)
    · obtain ⟨hs, ht⟩ := eq_of_publicId hg harrow he he' hsame
      rw [hs, ht]

theorem newId_announced_of_mem (hid : id ∈ g.ids) :
    newId (g.announced old new) id = newId (g.transplant old new) id := by
  by_cases hw : isWithin id old = true
  · have hmem : (id, new ++ remainder id old) ∈ g.announced old new :=
      (mem_announced hg).mpr (Or.inl ((mem_transplant_iff hold).mpr ⟨hid, hw, rfl⟩))
    rw [newId_of_mem (functional_announced hg harrow hold new) hmem,
      newId_transplant_of_isWithin hold new hid hw]
  · have hnone : ∀ v, (id, v) ∉ g.announced old new := fun v hv => by
      rcases (mem_announced hg).mp hv with hv | ⟨e, -, -, rfl, -⟩
      · exact hw ((mem_transplant_iff hold).mp hv).2.1
      · exact publicId_notMem harrow e hid
    rw [newId_of_notMem hnone, newId_transplant_of_not_isWithin hold new hw]

/-- **On public ids the report says what becomes of them** when the endpoints are replaced. -/
theorem newId_announced_publicId {e : Edge} (he : e ∈ g.edges) :
    newId (g.announced old new) e.publicId =
      edgeId (newId (g.transplant old new) e.source) (newId (g.transplant old new) e.target) := by
  by_cases hstay : newId (g.transplant old new) e.source = e.source ∧
      newId (g.transplant old new) e.target = e.target
  · have hnone : ∀ v, (e.publicId, v) ∉ g.announced old new := fun v hv => by
      rcases (mem_announced hg).mp hv with hv | ⟨e', he', hchanged, hsame, -⟩
      · exact publicId_notMem_transplant harrow hold new e v hv
      · obtain ⟨hs, ht⟩ := eq_of_publicId hg harrow he he' hsame
        exact hchanged (hs ▸ ht ▸ hstay)
    rw [newId_of_notMem hnone, hstay.1, hstay.2]
    rfl
  · exact newId_of_mem (functional_announced hg harrow hold new)
      ((mem_announced hg).mpr (Or.inr ⟨e, he, hstay, rfl, rfl⟩))

end Target

/-- **What a report names has changed**: an id that is replaced is another one afterwards. -/
theorem ne_of_mem_announced (hold : old ∈ g.ids) (hnew : new ∉ g.ids)
    (hmem : (id, v) ∈ g.announced old new) : id ≠ v := by
  rcases (mem_announced hg).mp hmem with hmem | ⟨e, he, hchanged, rfl, rfl⟩
  · obtain ⟨hid, hw, rfl⟩ := (mem_transplant_iff hold).mp hmem
    exact fun he => hg.append_remainder_notMem hnew hw (he ▸ hid)
  · intro hsame
    -- the new endpoints may hold arrows, but the old ones hold none
    obtain ⟨hs, ht⟩ := edgeId_injective_of_free (free_endpoints hg harrow he).1
      (free_endpoints hg harrow he).2 hsame
    exact hchanged ⟨hs.symm, ht.symm⟩

end Arrows

/-! ### The renaming -/

/-- **A report says what becomes of a graph**: each object has the id that the report gives in its
place, and each edge the public id; and the report holds the pairs of different ids at the same
place, and no others. -/
structure Announces (d : Deltas) (g : Graph) (old new : String) (h : Graph) : Prop where
  relabelled : h = g.relabel d.replace
  nodup : h.ids.Nodup
  publicIds : h.publicIds = g.publicIds.map d.replace
  top : d.replace old = new
  changed : ∀ id v, d.get? id = some v ↔
    id ≠ v ∧ ((id, v) ∈ g.ids.zip h.ids ∨ (id, v) ∈ g.publicIds.zip h.publicIds)

/-- A report that holds changed ids of the graph only, and gives the ids afterwards, holds the pairs
of different ids. -/
theorem Announces.of_replace {d : Deltas} (hnodup : h.ids.Nodup) (heq : h = g.relabel d.replace)
    (hpublic : h.publicIds = g.publicIds.map d.replace) (htop : d.replace old = new)
    (hd : ∀ id v, d.get? id = some v → id ≠ v ∧ (id ∈ g.ids ∨ id ∈ g.publicIds)) :
    Announces d g old new h := by
  refine ⟨heq, hnodup, hpublic, htop, fun id v => ?_⟩
  have hids : h.ids = g.ids.map d.replace := by rw [heq, ids_relabel]
  have hzip : ∀ ids : List String, (id, v) ∈ ids.zip (ids.map d.replace) ↔
      id ∈ ids ∧ d.replace id = v := fun ids => by
    rw [← List.map_prod_left_eq_zip, List.mem_map]
    constructor
    · rintro ⟨x, hx, ⟨⟩⟩
      exact ⟨hx, rfl⟩
    · rintro ⟨hid, rfl⟩
      exact ⟨id, hid, rfl⟩
  rw [hids, hpublic, hzip, hzip, ← or_and_right]
  unfold Deltas.replace
  constructor
  · intro hget
    obtain ⟨hne, hmem⟩ := hd id v hget
    exact ⟨hne, hmem, by rw [hget]; rfl⟩
  · rintro ⟨hne, -, hv⟩
    cases hget : d.get? id with
    | none => exact absurd (by rw [hget] at hv; exact hv) hne
    | some w => rw [hget] at hv; exact congrArg some hv

/-- An object that keeps its name changes nothing, and nothing is reported. -/
theorem Integral.announces_empty (hg : g.Integral) (old : String) : Announces ∅ g old old g := by
  have hreplace : Deltas.replace ∅ = fun id => id := rfl
  refine .of_replace hg.nodup ?_ ?_ rfl (by simp)
  · rw [hreplace, relabel_self]
  · rw [hreplace, List.map_id']

/-- **The report of a free id says what replacing the ids of the subtree does.** -/
theorem Integral.announces_transplant (hg : g.Integral)
    (harrow : ∀ id ∈ g.ids, Arrow.occursIn id = false) (hold : old ∈ g.ids) (hnew : new ∉ g.ids)
    (hintegral : (g.applyMapping (TextMap.ofList (g.transplant old new))).Integral) :
    Announces (TextMap.ofList (g.announced old new)) g old new
      (g.applyMapping (TextMap.ofList (g.transplant old new))) := by
  have hreplace : Deltas.replace (TextMap.ofList (g.announced old new)) =
      newId (g.announced old new) := rfl
  have hsame : ∀ id ∈ g.ids, newId (g.transplant old new) id = newId (g.announced old new) id :=
    fun id hid => (newId_announced_of_mem hg harrow hold new hid).symm
  have heq := hg.applyMapping_eq (hg.injective_transplant hold hnew) hsame
  have hpublic : ∀ e ∈ g.edges,
      edgeId (newId (g.announced old new) e.source) (newId (g.announced old new) e.target) =
        newId (g.announced old new) e.publicId := fun e he => by
    obtain ⟨hs, ht⟩ := hg.endpoints e he
    rw [newId_announced_publicId hg harrow hold new he, hsame _ hs, hsame _ ht]
  refine .of_replace hintegral.nodup (heq.trans (hreplace ▸ rfl)) ?_ ?_ fun id v hget => ?_
  · rw [publicIds_of_integral hintegral, publicIds_of_integral hg, heq, hreplace, List.map_map]
    unfold relabel
    rw [List.map_map]
    exact List.map_congr_left hpublic
  · rw [hreplace, ← hsame old hold, newId_transplant_top hold]
  · have hmem := TextMap.mem_of_get?_ofList hget
    refine ⟨ne_of_mem_announced hg harrow hold hnew hmem, ?_⟩
    rcases (mem_announced hg).mp hmem with hmem | ⟨e, he, -, rfl, -⟩
    · exact Or.inl ((mem_transplant_iff hold).mp hmem).1
    · rw [publicIds_of_integral hg]
      exact Or.inr (List.mem_map_of_mem he)

/-- **Renaming does exactly what its report announces.** In an integral graph whose ids hold no arrow,
both succeed on the same keys and names; the report then says what becomes of each object and of each
edge, the renamed object has the new id, and nothing is reported if the id stays. -/
theorem renaming_announced (hg : g.Integral) (harrow : ∀ id ∈ g.ids, Arrow.occursIn id = false) :
    ((∃ h new, g.rename key name = .ok (h, new)) ↔ ∃ d, g.renameDeltas key name = .ok d) ∧
    ∀ h new d, g.rename key name = .ok (h, new) → g.renameDeltas key name = .ok d →
      ∃ old, Edit.objectId key = .ok old ∧ old ∈ g.ids ∧ Announces d g old new h ∧
        (new = old → d = ∅) := by
  refine ⟨exists_rename_iff, fun h new d hrename hdeltas => ?_⟩
  have hintegral : h.Integral := (edited_of_rename hrename).integral hg
  obtain ⟨old, htarget, rfl⟩ := rename_eq_ok_iff.mp hrename
  obtain ⟨old', new', htarget', rfl⟩ := renameDeltas_eq_ok_iff.mp hdeltas
  obtain ⟨rfl, rfl⟩ := Prod.mk.inj (Except.ok.inj (htarget.symm.trans htarget'))
  obtain ⟨hkey, hold, name', -, hnew⟩ := of_renameTarget htarget
  refine ⟨old, hkey, hold, ?_, fun he => if_pos he.symm⟩
  split_ifs with hsame
  · subst hsame
    exact hg.announces_empty old
  · rw [if_neg hsame] at hintegral
    rcases hnew with ⟨-, he⟩ | rfl
    · exact absurd he.symm hsame
    · have hfree := (g.freeId_spec (parent? old) name').1
      exact hg.announces_transplant harrow hold hfree hintegral

/-- A graph with a subtree that a loop, two parallel edges and an edge between others touch or pass
by. -/
def tangled : Graph where
  objects := [.blank "a", .blank "a.b", .blank "a.b.c", .blank "a.bc", .blank "a.d"]
  edges := [.blank "a.b" .both "a.b", .blank "a" .forward "a.b.c", .blank "a.bc" .plain "a.d",
    .blank "a" .backward "a.b.c"]
  board := ∅
  statements := none

/-- The name is taken, so it is numbered; and a name that holds an arrow is reported as well. -/
theorem renaming_announced_tangled : tangled.Integral ∧
    (∃ h d, tangled.rename "a.b" "d" = .ok (h, "a.d 2") ∧ tangled.renameDeltas "a.b" "d" = .ok d ∧
      d.entries = [("a->a.b.c", "a->a.d 2.c"), ("a.b", "a.d 2"), ("a.b->a.b", "a.d 2->a.d 2"),
        ("a.b.c", "a.d 2.c")] ∧
      Announces d tangled "a.b" "a.d 2" h) ∧
    ∃ h d, tangled.rename "a.b" "b->a" = .ok (h, "a.b->a") ∧
      tangled.renameDeltas "a.b" "b->a" = .ok d ∧ d.keys = ["a->a.b.c", "a.b", "a.b->a.b", "a.b.c"] ∧
      Announces d tangled "a.b" "a.b->a" h := by
  have hintegral : tangled.Integral := by decide +kernel
  have harrow : ∀ id ∈ tangled.ids, Arrow.occursIn id = false := by decide +kernel
  have hkey : Edit.objectId "a.b" = .ok "a.b" := by decide +kernel
  refine ⟨hintegral, ?_, ?_⟩
  · have hrename : tangled.rename "a.b" "d" = .ok (tangled.applyMapping
        (TextMap.ofList (tangled.transplant "a.b" "a.d 2")), "a.d 2") := by decide +kernel
    have hdeltas : tangled.renameDeltas "a.b" "d" =
        .ok (TextMap.ofList (tangled.announced "a.b" "a.d 2")) := by decide +kernel
    obtain ⟨old, hold, -, hannounces, -⟩ :=
      (renaming_announced hintegral harrow).2 _ _ _ hrename hdeltas
    obtain rfl := Except.ok.inj (hkey.symm.trans hold)
    exact ⟨_, _, hrename, hdeltas, by decide +kernel, hannounces⟩
  · have hrename : tangled.rename "a.b" "b->a" = .ok (tangled.applyMapping
        (TextMap.ofList (tangled.transplant "a.b" "a.b->a")), "a.b->a") := by decide +kernel
    have hdeltas : tangled.renameDeltas "a.b" "b->a" =
        .ok (TextMap.ofList (tangled.announced "a.b" "a.b->a")) := by decide +kernel
    obtain ⟨old, hold, -, hannounces, -⟩ :=
      (renaming_announced hintegral harrow).2 _ _ _ hrename hdeltas
    obtain rfl := Except.ok.inj (hkey.symm.trans hold)
    exact ⟨_, _, hrename, hdeltas, by decide +kernel, hannounces⟩

end Graph

end BoxDiagram
