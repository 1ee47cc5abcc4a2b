import BoxDiagram.Proofs.Edit.Undoing
import BoxDiagram.Proofs.Store.Fallback

/-!
# Reported keys: what they read right after a request

A request that creates, renames or moves reports a key for its element. Creating and renaming report
the id that the editor has chosen, or the indexed key of the new edge, and reading it gives the very
element. Moving reports the key that it was given: it has read that key name by name, while reading
looks for the id that stands in it, with no more than the blanks around it left out. So the moved
object is read under the reported key exactly if there are no blanks around the dots of that key, and
otherwise no object is (`reported_key_reads`).
-/

namespace BoxDiagram

open Dotted Edit

namespace Graph

variable {g h : Graph} {o : Object} {i : Nat} {old new key newKey name : String}

/-! ### Reading objects -/

theorem Sound.named_segments (hg : g.Sound) : g.Named IsSegment :=
  fun id hid => (hg.segments id hid).imp fun _ hs => hs.1

theorem Sound.trimmed_eq_of_mem (hg : g.Sound) (hkey : objectId key = .ok new)
    (hmem : Text.trimmed key ∈ g.ids) : Text.trimmed key = new := by
  obtain ⟨path, hparse, rfl⟩ := exists_parse_of_objectId hkey
  obtain ⟨hfree, hread, -⟩ := Key.readPath_of_parse hparse
  rw [← Text.toList_trimmed] at hfree hread
  have hid : IsId (Text.trimmed key) := isId_of_free (hg.segments _ hmem) hfree
  have hback := Key.readPath_join hid.isObjectPath.isPath hid.isObjectPath.isPath.trim_join
  rw [join_segments] at hback
  have hpath : Dotted.segments (Text.trimmed key) = path ++ [] := Except.ok.inj (hback.symm.trans hread)
  rw [← List.append_nil path, ← hpath, join_segments]

/-- **A key reads its object exactly if the id is written in it**; under all other keys of the object
none is found. -/
theorem Sound.readObject_of_objectId (hg : g.Sound) (ho : o ∈ g.objects)
    (hkey : objectId key = .ok o.id) :
    g.readObject [] key = .ok (if Text.trimmed key = o.id then some o.view else none) := by
  have hread : g.readObject [] key = .ok ((g.find? (Text.trimmed key)).map Object.view) := rfl
  rw [hread]
  by_cases hwritten : Text.trimmed key = o.id
  · rw [if_pos hwritten, hwritten, hg.find?_eq ho]
    rfl
  · have hnone : g.find? (Text.trimmed key) = none := List.find?_eq_none.mpr fun x hx hid =>
      hwritten (hg.trimmed_eq_of_mem hkey (of_decide_eq_true hid ▸ mem_ids_of_mem hx))
    rw [if_neg hwritten, hnone]
    rfl

/-! ### Created and carried objects -/

theorem blank_mem_ensure {id : String} (hfree : id ∉ g.ids) :
    Object.blank id ∈ (g.ensure id).objects := by
  have hids : id ∈ g.ids ++ g.missing id := ids_ensure g id ▸ mem_ids_ensure g id
  exact List.mem_append_right _
    (List.mem_map_of_mem ((List.mem_append.mp hids).resolve_left hfree))

/-- **The object at a position is carried to another id**; it keeps its place and its attributes. -/
structure Carries (g h : Graph) (i : Nat) (o : Object) (new : String) : Prop where
  before : g.objects[i]? = some o
  after : h.objects[i]? = some (o.withId new)

theorem carries_self (ho : g.objects[i]? = some o) : g.Carries g i o o.id :=
  ⟨ho, by rw [ho, withId_id]⟩

theorem carries_relabel {f : String → String} (ho : g.objects[i]? = some o) (hnew : f o.id = new) :
    g.Carries (g.relabel f) i o new :=
  ⟨ho, by simp only [relabel, List.getElem?_map, ho, Option.map_some, hnew]⟩

theorem Carries.ensureParent (hc : g.Carries h i o new) (id : String) :
    g.Carries (h.ensureParent id) i o new := by
  refine ⟨hc.before, ?_⟩
  unfold Graph.ensureParent
  cases parent? id with
  | none => exact hc.after
  | some p => exact List.getElem?_append_left (List.getElem?_eq_some_iff.mp hc.after).1 ▸ hc.after

theorem Carries.refresh (hc : g.Carries h i o new) : g.Carries h.refresh i o new :=
  ⟨hc.before, hc.after⟩

/-- **A move carries its object** to the id that the new key names. -/
theorem Integral.carries_of_move {withDescendants : Bool} (hg : g.Integral)
    (hmove : g.move key newKey withDescendants = .ok h) :
    ∃ i o new, objectId key = .ok o.id ∧ objectId newKey = .ok new ∧ g.Carries h i o new := by
  obtain ⟨old, new, hkey, hnewKey, hold, hmoved⟩ := move_eq_ok_iff.mp hmove
  obtain ⟨o, ho, rfl⟩ := List.mem_map.mp hold
  obtain ⟨i, hi⟩ := List.mem_iff_getElem?.mp ho
  refine ⟨i, o, new, hkey, hnewKey, ?_⟩
  rcases hmoved with ⟨rfl, rfl⟩ | ⟨-, -, hcheck, rfl⟩
  · exact carries_self hi
  -- the mapping gives the new ids itself, so both kinds of moves are one case
  · have hrelabelled := hg.applyMapping_eq (injective_of_checkMapping hcheck) fun _ _ => rfl
    have htop : newId (g.moves o.id new withDescendants) o.id = new :=
      newId_of_mem functional_moves (mem_moves g o.id new withDescendants)
    rw [hrelabelled]
    exact (carries_relabel hi htop).ensureParent new

/-- **A renaming carries its object** to the id that it answers with. -/
theorem Integral.carries_of_rename (hg : g.Integral) (hrename : g.rename key name = .ok (h, new)) :
    ∃ i o, objectId key = .ok o.id ∧ g.Carries h i o new := by
  obtain ⟨old, htarget, rfl⟩ := rename_eq_ok_iff.mp hrename
  obtain ⟨hkey, hold, single, -, hnew⟩ := of_renameTarget htarget
  obtain ⟨o, ho, rfl⟩ := List.mem_map.mp hold
  obtain ⟨i, hi⟩ := List.mem_iff_getElem?.mp ho
  refine ⟨i, o, hkey, ?_⟩
  by_cases hsame : o.id = new
  · rw [if_pos hsame, ← hsame]
    exact carries_self hi
  · obtain rfl := hnew.resolve_left fun hkept => hsame hkept.2.symm
    rw [if_neg hsame, hg.applyMapping_transplant hold (g.freeId_spec _ _).1]
    exact carries_relabel hi (reroot_self o.id _)

/-! ### What edits leave to be read -/

theorem Sound.perform {board : List String} {action : Action} {reported : String} (hg : g.Sound)
    (hp : g.perform board key action = .ok (h, reported)) : h.Sound :=
  have hchange : Change.result? g (.edit board key action) = some h := result?_edit_of_perform hp
  hg.change hchange

theorem Carries.readObject (hc : g.Carries h i o new) (hh : h.Sound) :
    h.readObject [] new = .ok (some (o.withId new).view) := by
  have ho : o.withId new ∈ h.objects := List.mem_of_getElem? hc.after
  have hread := hh.readObject_id (hh.named_segments _ (mem_ids_of_mem ho)) ho
  exact hread

section Performed

variable {board path attr : List String} {reported : String} {k : EdgeKey} (hg : g.Sound)
include hg

theorem Sound.read_created (hp : g.perform board key .create = .ok (h, reported))
    (hparse : Key.parse key = .ok (.object path attr)) : attr = [] ∧ reported ∉ g.ids ∧
      h.readObject board reported = .ok (some (Object.blank reported).view) := by
  have hh : h.Sound := hg.perform hp
  obtain ⟨rfl, h', hact, rfl⟩ := perform_eq_ok_iff.mp hp
  obtain ⟨hattr, hpath, rfl, rfl⟩ := of_create_object hparse hact
  have hfree : g.freePath path ∉ g.ids := (isFreshFor_freePath hpath.ne_nil).notMem
  have hread := hh.readObject_id (o := .blank (g.freePath path))
    (IsId.everySegment (isId_freePath hpath)) (blank_mem_ensure hfree)
  exact ⟨hattr, hfree, hread⟩

theorem Sound.read_connected (hp : g.perform board key .create = .ok (h, reported))
    (hparse : Key.parse key = .ok (.edge k)) :
    h.edges = g.edges ++ [.blank k.sourceId k.arrow k.targetId] ∧
      (g.edges.length < Key.indexBound → h.Addresses reported g.edges.length ∧
        h.readEdge board reported =
          .ok (some ((Edge.blank k.sourceId k.arrow k.targetId).view k.publicId))) := by
  have hh : h.Sound := hg.perform hp
  obtain ⟨rfl, h', hact, rfl⟩ := perform_eq_ok_iff.mp hp
  obtain ⟨-, hh', hreported⟩ := of_create_edge hparse hact
  obtain ⟨hs, ht⟩ := Key.isObjectPath_of_parse_edge hparse
  have hedges : h'.refresh.edges = g.edges ++ [.blank k.sourceId k.arrow k.targetId] := by
    rw [hh']
    rfl
  refine ⟨hedges, fun hsize => ?_⟩
  have haddress := addresses_last_of_isId (e := .blank k.sourceId k.arrow k.targetId) hh.toIntegral
    hh.named_segments (isId_join hs) (isId_join ht) hedges hsize k.arrow
  have hview := hh.edgeView?_last hedges
  rw [hreported, length_edgesBetween]
  exact ⟨haddress, haddress.read.trans (congrArg Except.ok hview)⟩

theorem Sound.read_renamed (hp : g.perform board key (.rename name) = .ok (h, reported)) :
    ∃ i o, objectId key = .ok o.id ∧ g.Carries h i o reported ∧
      h.readObject board reported = .ok (some (o.withId reported).view) := by
  have hh : h.Sound := hg.perform hp
  obtain ⟨rfl, h', hact, rfl⟩ := perform_eq_ok_iff.mp hp
  obtain ⟨i, o, hkey, hcarries⟩ := hg.carries_of_rename hact
  exact ⟨i, o, hkey, hcarries.refresh, hcarries.refresh.readObject hh⟩

/-- A moved object is read under its new id, and under the reported key only if the id is written
there. -/
theorem Sound.read_moved {withDescendants : Bool}
    (hp : g.perform board key (.move newKey withDescendants) = .ok (h, reported)) :
    ∃ i o new, objectId key = .ok o.id ∧ objectId newKey = .ok new ∧ reported = newKey ∧
      g.Carries h i o new ∧ h.readObject board new = .ok (some (o.withId new).view) ∧
        h.readObject board reported =
          .ok (if Text.trimmed reported = new then some (o.withId new).view else none) := by
  have hh : h.Sound := hg.perform hp
  obtain ⟨rfl, h', hact, rfl⟩ := perform_eq_ok_iff.mp hp
  obtain ⟨hmove, rfl⟩ := act_move_eq_ok_iff.mp hact
  obtain ⟨i, o, new, hkey, hnewKey, hcarries⟩ := hg.carries_of_move hmove
  have hreported := hh.readObject_of_objectId (List.mem_of_getElem? hcarries.refresh.after) hnewKey
  exact ⟨i, o, new, hkey, hnewKey, rfl, hcarries.refresh, hcarries.refresh.readObject hh, hreported⟩

end Performed

end Graph

namespace Store

variable {s t : Store} {b : Backend} {isCancelled : Bool} {request : Request} {report : EditReport}
  {id : DiagramId} {r : Record} {a : Applied} {name key : String} {board : List String}

/-! ### Reading what was written -/

theorem found_settled {α : Type} (what : String) (x : Option α) :
    found what key (Editor.settled (.ok x)) = x.elim (.error (.notFound what key)) .ok := by
  cases x <;> rfl

theorem fetch_write : (s.write id r).fetch false id = .ok r := by
  unfold fetch
  rw [get?_write_self]
  rfl

section Reading
variable (hid : parseId name = .ok id)
include hid

theorem object_write {x : Option ObjectView} (hread : r.graph.readObject board key = .ok x) :
    (s.write id r).object .standard false name board key =
      x.elim (.error (.notFound "object" key)) .ok := by
  unfold object
  rw [hid, ok_bind, fetch_write, ok_bind]
  show found "object" key (Editor.settled (r.graph.readObject board key)) = _
  rw [hread, found_settled]

theorem edge_write {x : Option EdgeView} (hread : r.graph.readEdge board key = .ok x) :
    (s.write id r).edge .standard false name board key =
      x.elim (.error (.notFound "edge" key)) .ok := by
  unfold edge
  rw [hid, ok_bind, fetch_write, ok_bind]
  show found "edge" key (Editor.settled (r.graph.readEdge board key)) = _
  rw [hread, found_settled]

end Reading

/-! ### Requests and their reports -/

theorem execute_eq_ok_iff : s.execute b isCancelled request = .ok (t, report) ↔ ∃ id r a,
    Call.planned s b isCancelled request = .ok (id, r, a) ∧ s.write id (r.edited b request a) = t ∧
      ⟨request.key, a.newKey, a.deltas, a.graph.view⟩ = report := by
  have hrun : (Call.execute b isCancelled request).run s = _ := Call.run_execute request
  unfold execute Call.result
  rw [hrun]
  cases Call.planned s b isCancelled request with
  | error e => simp
  | ok plan =>
    obtain ⟨id, r, a⟩ := plan
    simp

theorem perform_of_apply_standard {g : Graph} {action : Action} (haction : action ≠ .delete)
    (ha : Record.apply .standard g board key action = .ok a) :
    g.perform board key action = .ok (a.graph, a.newKey) := by
  obtain ⟨-, hperform⟩ := Record.perform_of_apply_of_ne_delete haction ha
  exact mapError_eq_ok.mp hperform

/-- **What the reported key reads**, right after a request has turned the graph `g` of its diagram
into `h`. A created object is a new one; a created connection is the edge at the end, and is read as
long as its number can be written in a key. A renamed object keeps its place and its attributes, and
so does a moved one, but its reported key is the one that the request has given. -/
structure ReadsBack (t : Store) (request : Request) (newKey : String) (g h : Graph) : Prop where
  created : request.action = .create →
    (∃ path, Key.parse request.key = .ok (.object path []) ∧ newKey ∉ g.ids ∧
      t.object .standard false request.diagram request.board newKey =
        .ok (Object.blank newKey).view) ∨
    ∃ k, Key.parse request.key = .ok (.edge k) ∧
      h.edges = g.edges ++ [.blank k.sourceId k.arrow k.targetId] ∧
      (g.edges.length < Key.indexBound → h.Addresses newKey g.edges.length ∧
        t.edge .standard false request.diagram request.board newKey =
          .ok ((Edge.blank k.sourceId k.arrow k.targetId).view k.publicId))
  renamed : ∀ name, request.action = .rename name → ∃ i o, objectId request.key = .ok o.id ∧
    g.Carries h i o newKey ∧
      t.object .standard false request.diagram request.board newKey = .ok (o.withId newKey).view
  moved : ∀ key withDescendants, request.action = .move key withDescendants → ∃ i o new,
    objectId request.key = .ok o.id ∧ objectId key = .ok new ∧ newKey = key ∧
      g.Carries h i o new ∧
      t.object .standard false request.diagram request.board new = .ok (o.withId new).view ∧
      t.object .standard false request.diagram request.board newKey =
        if Text.trimmed newKey = new then .ok (o.withId new).view
        else .error (.notFound "object" newKey)

theorem readsBack_write {g : Graph} {newKey : String} (hg : g.Sound)
    (hid : parseId request.diagram = .ok id) (hperform : request.action ≠ .delete →
      g.perform request.board request.key request.action = .ok (r.graph, newKey)) :
    ReadsBack (s.write id r) request newKey g r.graph where
  created haction := by
    rw [haction] at hperform
    have hp := hperform nofun
    obtain ⟨-, h', hact, -⟩ := Graph.perform_eq_ok_iff.mp hp
    obtain ⟨parsed, hparse⟩ := Graph.exists_parse_of_create hact
    cases parsed with
    | object path attr =>
      obtain ⟨rfl, hfree, hread⟩ := hg.read_created hp hparse
      exact Or.inl ⟨path, hparse, hfree, object_write hid hread⟩
    | edge k =>
      obtain ⟨hedges, hread⟩ := hg.read_connected hp hparse
      exact Or.inr ⟨k, hparse, hedges, fun hsize =>
        ⟨(hread hsize).1, edge_write hid (hread hsize).2⟩⟩
  renamed name haction := by
    rw [haction] at hperform
    obtain ⟨i, o, hkey, hcarries, hread⟩ := hg.read_renamed (hperform nofun)
    exact ⟨i, o, hkey, hcarries, object_write hid hread⟩
  moved key withDescendants haction := by
    rw [haction] at hperform
    obtain ⟨i, o, new, hkey, hnewKey, hreported, hcarries, hread, hwritten⟩ :=
      hg.read_moved (hperform nofun)
    have hplaced := object_write (s := s) hid hread
    have hanswer := object_write (s := s) hid hwritten
    refine ⟨i, o, new, hkey, hnewKey, hreported, hcarries, hplaced, ?_⟩
    rw [hanswer]
    split_ifs <;> rfl

/-- **What a request reports is what reading finds**, in every store that calls lead to, except that a
move with blanks around the dots of its new key reports a key under which no object is read. -/
theorem reported_key_reads (hs : s.Reachable)
    (hrun : s.execute .standard isCancelled request = .ok (t, report)) :
    ∃ id r r', validate request = .ok id ∧ s.fetch isCancelled id = .ok r ∧ t = s.write id r' ∧
      ReadsBack t request report.newKey r.graph r'.graph := by
  obtain ⟨id, r, a, hplan, rfl, rfl⟩ := execute_eq_ok_iff.mp hrun
  obtain ⟨hvalid, hr, ha⟩ := Call.planned_eq_ok_iff.mp hplan
  have hreads := readsBack_write (s := s) (r := r.edited .standard request a) (hs.sound hr)
    (Call.parseId_of_validate hvalid) fun hne => perform_of_apply_standard hne ha
  exact ⟨id, r, _, hvalid, hr, rfl, hreads⟩

/-- A store with two objects, one of which has a label. -/
def pairing : Store := storing "a: A\nb"

/-- A request whose report is known to hold a key is carried out. -/
theorem exists_of_newKey (s : Store) (request : Request) (key : String)
    (h : (s.execute .standard false request).toOption.map (·.2.newKey) = some key) :
    ∃ t report, s.execute .standard false request = .ok (t, report) ∧ report.newKey = key := by
  obtain ⟨⟨t, report⟩, hrun, hkey⟩ := Option.map_eq_some_iff.mp h
  exact ⟨t, report, toOption_eq_some_iff.mp hrun, hkey⟩

/-- The moved object is read under its id, but not under the reported key, which has blanks around the
dot; a new object is read under its id, a connection under its indexed key, and a renamed object under
the numbered name. -/
theorem reported_key_reads_pairing :
    (∃ t report, ∃ o : Object,
      pairing.execute .standard false ⟨"d", [], "a", .move "b . a" true⟩ = .ok (t, report) ∧
      o.id = "a" ∧ t.object .standard false "d" [] "b.a" = .ok (o.withId "b.a").view ∧
      report.newKey = "b . a" ∧
      t.object .standard false "d" [] "b . a" = .error (.notFound "object" "b . a")) ∧
    (∃ t report, pairing.execute .standard false ⟨"d", [], " b . x", .create⟩ = .ok (t, report) ∧
      report.newKey = "b.x" ∧
      t.object .standard false "d" [] "b.x" = .ok (Object.blank "b.x").view) ∧
    (∃ t report, pairing.execute .standard false ⟨"d", [], "a<-b", .create⟩ = .ok (t, report) ∧
      report.newKey = "(a <- b)[0]" ∧ t.edge .standard false "d" [] "(a <- b)[0]" =
        .ok ((Edge.blank "a" .backward "b").view "a->b")) ∧
    ∃ t report, ∃ o : Object,
      pairing.execute .standard false ⟨"d", [], "a", .rename " b "⟩ = .ok (t, report) ∧
      o.id = "a" ∧ report.newKey = "b 2" ∧
      t.object .standard false "d" [] "b 2" = .ok (o.withId "b 2").view := by
  have hs : pairing.Reachable := reachable_storing _
  have ha : objectId "a" = .ok "a" := by decide +kernel
  refine ⟨?moved, ?created, ?connected, ?renamed⟩
  case moved =>
    obtain ⟨t, report, hrun, hnewKey⟩ := exists_of_newKey pairing
      ⟨"d", [], "a", .move "b . a" true⟩ "b . a" (by decide +kernel)
    obtain ⟨id, r, r', -, -, -, hreads⟩ := reported_key_reads hs hrun
    obtain ⟨i, o, new, hkey, hnew, -, -, hplaced, hread⟩ := hreads.moved _ _ rfl
    have hb : objectId "b . a" = .ok "b.a" := by decide +kernel
    obtain rfl := Except.ok.inj (hb.symm.trans hnew)
    rw [hnewKey, if_neg (by decide +kernel)] at hread
    exact ⟨t, report, o, hrun, Except.ok.inj (hkey.symm.trans ha), hplaced, hnewKey, hread⟩
  case created =>
    obtain ⟨t, report, hrun, hnewKey⟩ := exists_of_newKey pairing
      ⟨"d", [], " b . x", .create⟩ "b.x" (by decide +kernel)
    obtain ⟨id, r, r', -, -, -, hreads⟩ := reported_key_reads hs hrun
    have hparse : Key.parse " b . x" = .ok (.object ["b", "x"] []) := by decide +kernel
    rcases hreads.created rfl with ⟨path, -, -, hread⟩ | ⟨k, hk, -⟩
    · rw [hnewKey] at hread
      exact ⟨t, report, hrun, hnewKey, hread⟩
    · cases hparse.symm.trans hk
  case connected =>
    obtain ⟨t, report, hrun, hnewKey⟩ := exists_of_newKey pairing
      ⟨"d", [], "a<-b", .create⟩ "(a <- b)[0]" (by decide +kernel)
    obtain ⟨id, r, r', hid, hr, -, hreads⟩ := reported_key_reads hs hrun
    have hparse : Key.parse "a<-b" = .ok (.edge ⟨["a"], ["b"], .backward, none, []⟩) := by
      decide +kernel
    have hd : id.text = "d" := (Call.text_of_validate hid).trans (by decide)
    have hsizes : ∀ r ∈ pairing.records.get? "d", r.graph.edges.length < Key.indexBound := by
      decide +kernel
    have hsize := hsizes r (hd ▸ Call.get?_of_fetch hr)
    rcases hreads.created rfl with ⟨path, hk, -⟩ | ⟨k, hk, -, hread⟩
    · cases hparse.symm.trans hk
    · obtain rfl := Key.edge.inj (Except.ok.inj (hparse.symm.trans hk))
      rw [hnewKey] at hread
      exact ⟨t, report, hrun, hnewKey, (hread hsize).2⟩
  case renamed =>
    obtain ⟨t, report, hrun, hnewKey⟩ := exists_of_newKey pairing
      ⟨"d", [], "a", .rename " b "⟩ "b 2" (by decide +kernel)
    obtain ⟨id, r, r', -, -, -, hreads⟩ := reported_key_reads hs hrun
    obtain ⟨i, o, hkey, -, hread⟩ := hreads.renamed _ rfl
    rw [hnewKey] at hread
    exact ⟨t, report, o, hrun, Except.ok.inj (hkey.symm.trans ha), hnewKey, hread⟩

end Store

end BoxDiagram
