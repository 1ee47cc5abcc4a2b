import BoxDiagram.Graph.Canonical
import BoxDiagram.Proofs.Graph.Build
import BoxDiagram.Proofs.Graph.Forest

/-!
# Canonical statements: well formed, and the commands they come down to

The canonical statements of a well-formed graph are well formed (`wellFormed_canonical`). They come
down to commands that write the attributes of the board, declare each object after its parent and
with its own attributes, and then connect the objects (`commands_canonical`).
-/

namespace BoxDiagram

open Dotted Attribute

/-! ### Attributes -/

/-- The attributes other than the label, as they are written in a block. -/
def Attributes.settings (m : Attributes) : List (String × String) :=
  m.entries.filter (·.1 ≠ "label")

theorem Attributes.mem_of_mem_settings {m : Attributes} {e : String × String}
    (h : e ∈ Attributes.settings m) : e ∈ m.entries := List.mem_of_mem_filter h

/-- **Label and other attributes together** give back the attributes. -/
theorem Graph.connectionAttributes_settings (m : Attributes) :
    Graph.connectionAttributes (m.get? "label") (Attributes.settings m) = m := by
  refine TextMap.ofList_eq_of_mem_iff fun name value => ?_
  rw [List.mem_append, Attributes.settings, List.mem_filter, TextMap.mem_entries_iff]
  simp only [Option.mem_toList, Option.map_eq_some_iff, Prod.mk.injEq, decide_not,
    Bool.not_eq_true', decide_eq_false_iff_not]
  constructor
  · rintro (⟨v, hv, rfl, rfl⟩ | ⟨hv, -⟩)
    · exact hv
    · exact hv
  · intro hv
    by_cases hname : name = "label"
    · exact Or.inl ⟨value, hname ▸ hv, hname.symm, rfl⟩
    · exact Or.inr ⟨hv, hname⟩

theorem Statement.wellFormed_assignment {name value : String} (h : IsValid name value) :
    (Statement.assignment (segments name) value).WellFormed :=
  .intro (isPath_of_nameOf h.named) nofun

theorem Attributes.wellFormed_statements {m : Attributes} (h : Attributes.Valid m) :
    ∀ s ∈ Attributes.statements m, s.WellFormed := by
  intro s hs
  obtain ⟨e, he, rfl⟩ := List.mem_map.mp hs
  exact Statement.wellFormed_assignment (h e (Attributes.mem_of_mem_settings he))

/-! ### Commands of statements, one after the other -/

namespace Statement

variable {scope : Option String}

theorem wellFormed_ofBody {head : Head} {value : Option String} {body : List Statement}
    (hh : head.WellFormed) (hb : ∀ s ∈ body, s.WellFormed) : (ofBody head value body).WellFormed := by
  refine .intro hh fun t ht => ?_
  unfold ofBody at ht
  split_ifs at ht
  · simp at ht
  · exact hb t ht

theorem commandsAll_append : ∀ {ss ts : List Statement} {cs ds : List Command},
    commandsAll scope ss = .ok cs → commandsAll scope ts = .ok ds →
      commandsAll scope (ss ++ ts) = .ok (cs ++ ds)
  | [], ts, cs, ds, hs, ht => by
    rw [commandsAll] at hs
    rw [← Except.ok.inj hs]
    exact ht
  | s :: ss, ts, cs, ds, hs, ht => by
    rw [commandsAll] at hs
    simp only [bind_eq_ok, pure_eq_ok] at hs
    obtain ⟨xs, hxs, ys, hys, rfl⟩ := hs
    rw [List.cons_append, commandsAll]
    simp only [bind_eq_ok, pure_eq_ok]
    exact ⟨xs, hxs, ys ++ ds, commandsAll_append hys ht, (List.append_assoc ..).symm⟩

theorem commandsAll_map {α : Type} {f : α → Statement} {c : α → List Command} :
    ∀ {xs : List α}, (∀ x ∈ xs, commands scope (f x) = .ok (c x)) →
      commandsAll scope (xs.map f) = .ok (xs.flatMap c)
  | [], _ => by
    rw [List.map_nil, commandsAll]
    rfl
  | x :: xs, h => by
    obtain ⟨hx, hxs⟩ := List.forall_mem_cons.mp h
    rw [List.map_cons, commandsAll, List.flatMap_cons]
    simp only [bind_eq_ok, pure_eq_ok]
    exact ⟨_, hx, _, commandsAll_map hxs, rfl⟩

theorem commandsAll_map_singleton {α : Type} {f : α → Statement} {c : α → Command} {xs : List α}
    (h : ∀ x ∈ xs, commands scope (f x) = .ok [c x]) :
    commandsAll scope (xs.map f) = .ok (xs.map c) := by
  rw [commandsAll_map h, List.map_eq_flatMap]

theorem commandsBlock_ofBody {body : List Statement} :
    commandsBlock scope (if body = [] then none else some body) = commandsAll scope body := by
  split_ifs with h
  · rw [commandsBlock, h, commandsAll]
  · rw [commandsBlock]

/-- **A statement with an attribute path writes the attribute**, of the object in front of the
attribute path or of what the statement stands in. -/
theorem commands_setting {path attr : List String} {name value : String}
    (hsplit : splitReserved (path ++ attr) = (path, attr)) (hname : nameOf attr = .ok name)
    (hcheck : checkValue name value = .ok ()) :
    commands scope ⟨.declaration (path ++ attr), some value, none⟩ =
      .ok [.assign (if path = [] then scope else some (absolute scope path)) name value] := by
  have hset : ∀ key, setting key attr (some value) = .ok (name, value) := fun key => by
    unfold setting
    simp only [bind_eq_ok, mapError_eq_ok, pure_eq_ok]
    exact ⟨name, hname, (), hcheck, rfl⟩
  have hsettings : settings (path ++ attr) attr (some value) none = .ok [(name, value)] := by
    unfold settings
    rw [if_neg (by simp), if_neg (by simp)]
    simp only [bind_eq_ok, pure_eq_ok]
    exact ⟨_, hset _, rfl⟩
  cases attr with
  | nil => simp [nameOf] at hname
  | cons s rest =>
    rw [commands, hsplit]
    simp only [bind_eq_ok, pure_eq_ok]
    exact ⟨_, hsettings, rfl⟩

/-- **A valid attribute is written** where its statement stands. -/
theorem commands_assignment {name value : String} (h : IsValid name value) :
    commands scope (assignment (segments name) value) = .ok [.assign scope name value] := by
  have hsplit : splitReserved ([] ++ segments name) = ([], segments name) :=
    splitReserved_of_nameOf h.named
  exact commands_setting hsplit h.named h.checked

/-- **A statement with a path of objects declares an object.** -/
theorem commands_declare {path : List String} (h : IsObjectPath path) (value : Option String) :
    commands scope ⟨.declaration path, value, none⟩ = .ok [.declare (absolute scope path) value] := by
  rw [commands, splitReserved_of_notReserved h.notReserved]
  simp only [bind_eq_ok, pure_eq_ok]
  exact ⟨[], by rw [commandsBlock], rfl⟩

/-- **A statement with two paths of objects connects them**, with the settings of its block. -/
theorem commands_connect {source target : List String} (hs : IsObjectPath source)
    (ht : IsObjectPath target) (a : Arrow) (value : Option String) {block : Option (List Statement)}
    {settings : List (String × String)} (h : connectionSettingsBlock [] block = .ok settings) :
    commands none ⟨.connection [source, target] [a], value, block⟩ =
      .ok [.connect [join source, join target] [a] value settings] := by
  have hids : [source, target].map (absolute none) = [join source, join target] := by
    simp [absolute]
  have hfind : [join source, join target].find? (fun id => (segments id).any isReserved) = none := by
    rw [List.find?_eq_none]
    simpa [hs.isPath.segments_join, ht.isPath.segments_join] using ⟨hs.notReserved, ht.notReserved⟩
  rw [commands, hids, hfind]
  simp only [bind_eq_ok, pure_eq_ok]
  exact ⟨_, h, rfl⟩

theorem commandsAll_statements {m : Attributes} (h : Attributes.Valid m) :
    commandsAll scope (Attributes.statements m) =
      .ok ((Attributes.settings m).map fun e => .assign scope e.1 e.2) :=
  commandsAll_map_singleton fun e he =>
    commands_assignment (h e (Attributes.mem_of_mem_settings he))

theorem connectionSettingsAll_statements : ∀ {es : List (String × String)},
    (∀ e ∈ es, IsValidOnConnection e.1 e.2) →
      connectionSettingsAll [] (es.map fun e => .assignment (segments e.1) e.2) = .ok es
  | [], _ => by rw [List.map_nil, connectionSettingsAll]
  | (name, value) :: es, h => by
    obtain ⟨he, hes⟩ := List.forall_mem_cons.mp h
    have hset : connectionSettings [] (assignment (segments name) value) = .ok [(name, value)] := by
      unfold assignment
      rw [connectionSettings, if_neg (by simp)]
      simp only [bind_eq_ok, pure_eq_ok]
      refine ⟨(name, value), ?_, rfl⟩
      unfold connectionSetting setting
      simp only [List.nil_append, bind_eq_ok, mapError_eq_ok, pure_eq_ok]
      exact ⟨name, he.named, (), he.carried, name, he.named, (), he.checked, rfl⟩
    rw [List.map_cons, connectionSettingsAll]
    simp only [bind_eq_ok, pure_eq_ok]
    exact ⟨_, hset, es, connectionSettingsAll_statements hes, rfl⟩

end Statement

/-! ### Commands of objects and edges -/

/-- The commands that make an object whose parent is there. -/
def Object.commands (o : Object) : List Command :=
  .declare o.id (o.attributes.get? "label") ::
    (Attributes.settings o.attributes).map fun e => .assign (some o.id) e.1 e.2

/-- The command that makes an edge. -/
def Edge.command (e : Edge) : Command :=
  .connect [e.source, e.target] [e.arrow] e.label? (Attributes.settings e.attributes)

namespace Graph

variable {g : Graph}

theorem statementsAll_eq_map : ∀ ts : List Tree, Tree.statementsAll ts = ts.map Tree.statement
  | [] => by rw [Tree.statementsAll, List.map_nil]
  | t :: ts => by rw [Tree.statementsAll, List.map_cons, statementsAll_eq_map ts]

theorem statement_tree (o : Object) : (g.tree o).statement =
    .ofBody (.declaration [o.name]) (o.attributes.get? "label")
      (Attributes.statements o.attributes ++
        (g.childObjects (some o.id)).map fun c => (g.tree c).statement) := by
  rw [tree_eq, Tree.statement, statementsAll_eq_map, List.map_map]
  rfl

section WellFormed
variable (h : g.WellFormed)
include h

theorem WellFormed.isId {o : Object} (ho : o ∈ g.objects) : IsId o.id :=
  h.named o.id (mem_ids_of_mem ho)

theorem WellFormed.wellFormed_tree {o : Object} (ho : o ∈ g.objects) :
    (g.tree o).statement.WellFormed := by
  induction o using g.treeInduction with
  | h o ih =>
    rw [statement_tree]
    refine Statement.wellFormed_ofBody (isPath_singleton (h.isId ho).leaf.toIsName) ?_
    refine List.forall_mem_append.mpr
      ⟨Attributes.wellFormed_statements (h.attributed.objects o ho), fun s hs => ?_⟩
    obtain ⟨c, hc, rfl⟩ := List.mem_map.mp hs
    exact ih c hc (mem_childObjects.mp hc).1

theorem WellFormed.wellFormed_edge {e : Edge} (he : e ∈ g.edges) : e.statement.WellFormed := by
  obtain ⟨hs, ht⟩ := h.endpoints e he
  have hsource : IsObjectPath (segments e.source) := IsId.isObjectPath (h.named _ hs)
  have htarget : IsObjectPath (segments e.target) := IsId.isObjectPath (h.named _ ht)
  refine Statement.wellFormed_ofBody ⟨by simp, rfl, ?_⟩ ?_
  · simpa using ⟨hsource.isPath, htarget.isPath⟩
  · exact Attributes.wellFormed_statements fun a ha => (h.attributed.edges e he a ha).toIsValid

/-- **The canonical statements are well formed.** -/
theorem WellFormed.wellFormed_canonical : ∀ s ∈ g.canonical, s.WellFormed := by
  unfold canonical boardStatements forest
  rw [statementsAll_eq_map, List.map_map, List.forall_mem_append, List.forall_mem_append]
  refine ⟨⟨fun s hs => ?_, fun s hs => ?_⟩, fun s hs => ?_⟩
  · obtain ⟨e, he, rfl⟩ := List.mem_map.mp hs
    exact Statement.wellFormed_assignment (h.attributed.board e he)
  · obtain ⟨o, ho, rfl⟩ := List.mem_map.mp hs
    exact h.wellFormed_tree (mem_childObjects.mp ho).1
  · obtain ⟨e, he, rfl⟩ := List.mem_map.mp hs
    exact h.wellFormed_edge he

theorem WellFormed.commands_tree {o : Object} (ho : o ∈ g.objects) :
    Statement.commands (parent? o.id) (g.tree o).statement =
      .ok ((g.tree o).objects.flatMap Object.commands) := by
  induction o using g.treeInduction with
  | h o ih =>
    have hsplit : splitReserved [o.name] = ([o.name], []) :=
      splitReserved_of_notReserved (List.forall_mem_singleton.mpr (h.isId ho).leaf.notReserved)
    have habs : Statement.absolute (parent? o.id) [o.name] = o.id := by
      have hbelow := below_leaf o.id
      cases hp : parent? o.id with
      | none =>
        rw [hp] at hbelow
        exact (join_singleton _).trans hbelow
      | some p =>
        rw [hp] at hbelow
        rw [Statement.absolute, join_singleton]
        · exact hbelow
        · simp
    have hchildren : Statement.commandsAll (some o.id)
        ((g.childObjects (some o.id)).map fun c => (g.tree c).statement) =
          .ok ((g.childObjects (some o.id)).flatMap fun c =>
            (g.tree c).objects.flatMap Object.commands) :=
      Statement.commandsAll_map fun c hc => by
        obtain ⟨hmem, hpar⟩ := mem_childObjects.mp hc
        exact hpar ▸ ih c hc hmem
    have hattributes : Statement.commandsAll (some o.id) (Attributes.statements o.attributes) = _ :=
      Statement.commandsAll_statements (h.attributed.objects o ho)
    rw [statement_tree, Statement.ofBody, Statement.commands, hsplit]
    simp only [habs, Statement.commandsBlock_ofBody, bind_eq_ok, pure_eq_ok]
    refine ⟨_, Statement.commandsAll_append hattributes hchildren, ?_⟩
    rw [objects_tree, List.flatMap_cons, List.flatMap_assoc]
    rfl

theorem WellFormed.commands_edge {e : Edge} (he : e ∈ g.edges) :
    Statement.commands none e.statement = .ok [e.command] := by
  obtain ⟨hs, ht⟩ := h.endpoints e he
  have hsource : IsObjectPath (segments e.source) := IsId.isObjectPath (h.named _ hs)
  have htarget : IsObjectPath (segments e.target) := IsId.isObjectPath (h.named _ ht)
  have hsettings : Statement.connectionSettingsAll [] (Attributes.statements e.attributes) =
      .ok (Attributes.settings e.attributes) :=
    Statement.connectionSettingsAll_statements fun a ha =>
      h.attributed.edges e he a (Attributes.mem_of_mem_settings ha)
  have hblock : Statement.connectionSettingsBlock []
      (if Attributes.statements e.attributes = [] then none
        else some (Attributes.statements e.attributes)) = .ok (Attributes.settings e.attributes) := by
    split_ifs with hnil
    · rw [hnil, Statement.connectionSettingsAll] at hsettings
      rw [Statement.connectionSettingsBlock, hsettings]
    · rw [Statement.connectionSettingsBlock, hsettings]
  have hcommand := Statement.commands_connect hsource htarget e.arrow e.label? hblock
  rwa [join_segments, join_segments] at hcommand

/-- **The canonical statements come down** to writing the attributes of the board, making each
object in the order of the forest, and making each edge. -/
theorem WellFormed.commands_canonical : Statement.commandsAll none g.canonical =
    .ok (g.board.entries.map (fun e => .assign none e.1 e.2) ++
      g.preorder.flatMap Object.commands ++ g.edges.map Edge.command) := by
  have hboard : Statement.commandsAll none g.boardStatements =
      .ok (g.board.entries.map fun e => .assign none e.1 e.2) :=
    Statement.commandsAll_map_singleton fun e he =>
      Statement.commands_assignment (h.attributed.board e he)
  have htrees : Statement.commandsAll none (Tree.statementsAll g.forest) =
      .ok (g.preorder.flatMap Object.commands) := by
    unfold forest
    rw [statementsAll_eq_map, List.map_map, preorder_eq, List.flatMap_assoc]
    refine Statement.commandsAll_map fun o ho => ?_
    obtain ⟨hmem, hpar⟩ := mem_childObjects.mp ho
    exact hpar ▸ h.commands_tree hmem
  have hedges : Statement.commandsAll none (g.edges.map Edge.statement) =
      .ok (g.edges.map Edge.command) :=
    Statement.commandsAll_map_singleton fun _ he => h.commands_edge he
  exact Statement.commandsAll_append (Statement.commandsAll_append hboard htrees) hedges

end WellFormed

end Graph

end BoxDiagram
