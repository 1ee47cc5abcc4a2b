import BoxDiagram.Proofs.Graph.Build
import BoxDiagram.Proofs.Store.Redo

/-!
# Coherence: text, graph and session of a diagram do not drift apart

A store keeps a text, a graph and a session for each diagram, and writes them at different places: at
loading, after an edit, and after a graph was rebuilt from a patched text. Whichever calls to the
compiler, to the editor and to the renderer crash, the three stay coherent: without a session the
graph is that of the text as it was loaded, and with a session the text is printed from the statements
of the graph (`coherence_of_run`). So the text that a store hands out is the one that it keeps.
-/

namespace BoxDiagram

/-! ### Backends that may crash -/

/-- The first call gives what the second one gives, or it crashes. -/
def Outcome.OrCrashes {α : Type} (x y : Outcome α) : Prop := x = y ∨ ∃ message, x = .crashed message

/-- The backend at hand with any writer of pictures, except that calls to its compiler, its editor and
its renderer may crash. -/
structure Backend.MayCrash (b : Backend) : Prop where
  compile : ∀ text, (b.compile text).OrCrashes (standard.compile text)
  format : b.format = standard.format
  perform : ∀ g board key action,
    (b.editor.perform g board key action).OrCrashes (standard.editor.perform g board key action)
  deleteDeltas : ∀ g board key,
    (b.editor.deleteDeltas g board key).OrCrashes (standard.editor.deleteDeltas g board key)
  renameDeltas : ∀ g board key name,
    (b.editor.renameDeltas g board key name).OrCrashes (standard.editor.renameDeltas g board key name)
  readObject : ∀ g board id,
    (b.editor.readObject g board id).OrCrashes (standard.editor.readObject g board id)
  readEdge : ∀ g board id,
    (b.editor.readEdge g board id).OrCrashes (standard.editor.readEdge g board id)
  readChildren : ∀ g board parent,
    (b.editor.readChildren g board parent).OrCrashes (standard.editor.readChildren g board parent)
  render : ∃ w, ∀ text format theme,
    (b.render text format theme).OrCrashes ((writing w).render text format theme)

namespace Outcome

variable {α : Type}

theorem OrCrashes.refl (x : Outcome α) : x.OrCrashes x := Or.inl rfl

theorem OrCrashes.crashed (message : Option String) (y : Outcome α) :
    (crashed message).OrCrashes y := Or.inr ⟨message, rfl⟩

theorem OrCrashes.of_contain {x y : Outcome α} (h : x.OrCrashes y) {a : α}
    (ha : x.contain = .ok a) : y.contain = .ok a := by
  rcases h with rfl | ⟨message, rfl⟩
  · exact ha
  · cases ha

theorem OrCrashes.of_guarded {x y : Outcome (Except EditFailure α)} (h : x.OrCrashes y) {a : α}
    (ha : Editor.guarded x = .ok a) : Editor.guarded y = .ok a := by
  rcases h with rfl | ⟨message, rfl⟩
  · exact ha
  · cases ha

end Outcome

/-! ### Graphs with statements -/

theorem Graph.exists_statements_of_compile {text : String} {g : Graph} (h : compile text = .ok g) :
    ∃ ss, g.statements = some ss := by
  obtain ⟨ss, -, hlower⟩ := compile_eq_ok_iff.mp h
  obtain ⟨cs, -, rfl⟩ := lower_eq_ok_iff.mp hlower
  exact ⟨ss, rfl⟩

theorem Graph.exists_statements_of_perform {g h : Graph} {board : List String} {key newKey : String}
    {action : Action} (hp : g.perform board key action = .ok (h, newKey)) :
    ∃ ss, h.statements = some ss := by
  obtain ⟨-, h', -, rfl⟩ := perform_eq_ok_iff.mp hp
  exact ⟨_, rfl⟩

namespace Record

variable {b : Backend} {g : Graph} {board : List String} {key : String} {action : Action}
  {a : Applied}

/-- **The graph after an edit** is what the edit gives, unless a deletion falls back on the text. -/
theorem perform_of_apply (hb : b.MayCrash) (ha : apply b g board key action = .ok a) :
    (∃ newKey, g.perform board key action = .ok (a.graph, newKey)) ∨
      action = .delete ∧ FallsBack b g board key a.graph := by
  rcases of_apply ha with ⟨-, newKey, hperform⟩ | hfalls
  · have hsettled : (g.perform board key action).mapError EditFailure.ofRejection =
      .ok (a.graph, newKey) := (hb.perform g board key action).of_guarded hperform
    exact Or.inl ⟨newKey, mapError_eq_ok.mp hsettled⟩
  · exact Or.inr hfalls

theorem graph_of_apply (hb : b.MayCrash) (ha : apply b g board key action = .ok a) :
    (∃ newKey, g.perform board key action = .ok (a.graph, newKey)) ∨
      ∃ text, compile text = .ok a.graph := by
  refine (perform_of_apply hb ha).imp_right fun ⟨_, hfalls⟩ => ?_
  obtain ⟨text, htext⟩ := exists_compile_of_deleteTextually hfalls.patched
  exact ⟨text, contain_compile_standard.mp ((hb.compile text).of_contain htext)⟩

/-- **An edited graph carries its statements**, whether the editor has edited it or it was rebuilt. -/
theorem exists_statements_of_apply (hb : b.MayCrash) (ha : apply b g board key action = .ok a) :
    ∃ ss, a.graph.statements = some ss := by
  rcases graph_of_apply hb ha with ⟨newKey, hperform⟩ | ⟨text, hcompile⟩
  · exact Graph.exists_statements_of_perform hperform
  · exact Graph.exists_statements_of_compile hcompile

theorem formatOr_of_statements (hb : b.MayCrash) {ss : List Statement} (hg : g.statements = some ss)
    (text : String) : formatOr b g text = Statement.print ss := by
  have hformat : (b.format g).contain = .ok (some (Statement.print ss)) := by
    rw [hb.format]
    show Except.ok g.format = _
    rw [Graph.format, hg]
    rfl
  unfold formatOr
  rw [hformat]

end Record

namespace Store

/-! ### Coherent records -/

/-- **Text, graph and session agree.** -/
structure Coherent (l : Log) (r : Record) : Prop where
  /-- Without a session, the graph is that of the text, which is the text as it was loaded. -/
  loaded : r.session = none → compile r.text = .ok r.graph ∧ r.text = l.text
  /-- With a session, something was carried out, and the text is printed from the graph. -/
  edited : ∀ session, r.session = some session → session.history ≠ [] ∧
    ∃ ss, r.graph.statements = some ss ∧ r.text = Statement.print ss

theorem kept_coherent : Kept Backend.MayCrash fun id l r => IsDiagramId id ∧ Coherent l r where
  loaded := by
    intro b hb id text g hcompile
    refine ⟨id.isDiagramId, fun _ => ⟨?_, rfl⟩, nofun⟩
    exact contain_compile_standard.mp ((hb.compile text).of_contain hcompile)
  edited := by
    rintro b hb id l r request x ⟨hid, -⟩ hx
    obtain ⟨ss, hss⟩ := Record.exists_statements_of_apply hb hx
    refine ⟨hid, nofun, fun session hsession => ⟨?_, ss, hss, Record.formatOr_of_statements hb hss _⟩⟩
    obtain rfl := Option.some.inj hsession
    simp

variable {s : Store} {b : Backend} {l : Log} {r : Record}

theorem Coherent.currentText (h : Coherent l r) (hb : b.MayCrash) : r.currentText b = r.text := by
  unfold Record.currentText Record.isEdited
  cases hsession : r.session with
  | none => rfl
  | some session =>
    obtain ⟨-, ss, hss, htext⟩ := h.edited session hsession
    rw [Option.isSome_some, if_pos rfl, Record.formatOr_of_statements hb hss, htext]

theorem serialize_of_coherent (h : Coherent l r) (hb : b.MayCrash) {name : String}
    (hname : IsDiagramId (Text.trimmed name)) (hr : s.records.get? (Text.trimmed name) = some r) :
    s.serialize b false name = .ok r.text := by
  have hparse : parseId name = .ok ⟨Text.trimmed name, hname⟩ := by
    unfold parseId DiagramId.parse DiagramId.ofText
    rw [dif_neg hname.1, dif_neg hname.2]
    rfl
  have hfetch : s.fetch false ⟨Text.trimmed name, hname⟩ = .ok r := by
    unfold fetch
    rw [hr]
    rfl
  unfold serialize
  rw [hparse, ok_bind, hfetch, ok_bind, h.currentText hb]
  rfl

/-- **Text, graph and session never drift apart**, whatever calls are made, and whichever calls to the
compiler, to the editor and to the renderer crash: every record has a log, is coherent, and is
serialized as the text that it keeps. -/
theorem coherence_of_run (attempts : List Attempt) (h : ∀ a ∈ attempts, a.backend.MayCrash)
    (id : String) (r : Record) (hr : (run ∅ attempts).1.records.get? id = some r) :
    (∃ l, logOf id (run ∅ attempts).2 = some l ∧ Coherent l r) ∧
      ∀ b name, b.MayCrash → Text.trimmed name = id →
        (run ∅ attempts).1.serialize b false name = .ok r.text := by
  obtain ⟨l, hl, hid, hcoherent⟩ := (agrees_of_run kept_coherent h).exists_log hr
  refine ⟨⟨l, hl, hcoherent⟩, fun b name hb hname => ?_⟩
  exact serialize_of_coherent hcoherent hb (hname ▸ hid) (hname ▸ hr)

/-- The backend at hand with an editor that crashes at every action. -/
def crashing : Backend :=
  { Backend.standard with
    editor := { Editor.standard with perform := fun _ _ _ _ => .crashed none } }

theorem mayCrash_writing (w : Writer) : (Backend.writing w).MayCrash where
  compile _ := .refl _
  format := rfl
  perform _ _ _ _ := .refl _
  deleteDeltas _ _ _ := .refl _
  renameDeltas _ _ _ _ := .refl _
  readObject _ _ _ := .refl _
  readEdge _ _ _ := .refl _
  readChildren _ _ _ := .refl _
  render := ⟨w, fun _ _ _ => .refl _⟩

theorem mayCrash_standard : Backend.standard.MayCrash := mayCrash_writing .svg

theorem mayCrash_crashing : crashing.MayCrash :=
  { mayCrash_standard with perform := fun _ _ _ _ => .crashed none _ }

/-- An object is created; then the editor crashes, at deleting the object and at deleting the
connection. -/
def rebuilding : List Attempt :=
  [⟨.load "d" "a -> b", .standard, false⟩, ⟨.execute ⟨"d", [], "c", .create⟩, .standard, false⟩,
    ⟨.execute ⟨"d", [], "c", .delete⟩, crashing, false⟩,
    ⟨.execute ⟨"d", [], "a -> b", .delete⟩, crashing, false⟩]

/-- The graph is rebuilt from a patched text, and a new session begins; the text is printed from it. -/
theorem coherence_of_run_rebuilding : ∃ r ss, (run ∅ rebuilding).1.records.get? "d" = some r ∧
    r.session = some ⟨[⟨"d", [], "a -> b", .delete⟩]⟩ ∧ r.graph.statements = some ss ∧
    r.text = Statement.print ss ∧
    (run ∅ rebuilding).1.serialize .standard false " d " = .ok r.text := by
  have hsession : ((run ∅ rebuilding).1.records.get? "d").map (·.session) =
    some (some ⟨[⟨"d", [], "a -> b", .delete⟩]⟩) := by decide +kernel
  have hbackends : ∀ a ∈ rebuilding, a.backend.MayCrash := by
    simp [rebuilding, mayCrash_standard, mayCrash_crashing]
  obtain ⟨r, hr, hsome⟩ := Option.map_eq_some_iff.mp hsession
  obtain ⟨⟨l, -, hcoherent⟩, hserialize⟩ := coherence_of_run rebuilding hbackends "d" r hr
  obtain ⟨-, ss, hss, htext⟩ := hcoherent.edited _ hsome
  exact ⟨r, ss, hr, hsome, hss, htext, hserialize .standard " d " mayCrash_standard (by decide)⟩

end Store

end BoxDiagram
