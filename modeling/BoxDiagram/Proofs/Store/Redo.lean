import BoxDiagram.Proofs.Edit.Fault
import BoxDiagram.Proofs.Store.Run

/-!
# Redoing: the session of a diagram is a complete log of its edits

The editor at hand is never at fault, so with it a store never rebuilds a graph from a patched text,
and no session begins anew. The session of a diagram then holds the requests that were carried out
since it was loaded, all of them and in order, and carrying them out once more on the graph of the
loaded text gives the graph of the diagram (`redo_of_run`).
-/

namespace BoxDiagram

/-! ### The editor at hand -/

/-- The result of a call to an editor is not a fault of the editor. -/
def Outcome.IsFaultless {α : Type} (x : Outcome (Except EditFailure α)) : Prop :=
  ∀ message, Editor.guarded x ≠ .error (.fault message)

theorem Editor.isFaultless_settled {α : Type} {x : Except Rejection α} (h : Faultless x) :
    (Editor.settled x).IsFaultless := by
  intro message hfault
  cases x with
  | ok a => cases hfault
  | error e =>
    have hreported : EditFailure.ofRejection e = .fault message := Except.error.inj hfault
    rw [EditFailure.ofRejection, h e rfl] at hreported
    cases hreported

/-- No call to the editor ends in a fault. -/
structure Editor.IsFaultless (e : Editor) : Prop where
  perform : ∀ g board key action, (e.perform g board key action).IsFaultless
  deleteDeltas : ∀ g board key, (e.deleteDeltas g board key).IsFaultless
  renameDeltas : ∀ g board key name, (e.renameDeltas g board key name).IsFaultless
  readObject : ∀ g board id, (e.readObject g board id).IsFaultless
  readEdge : ∀ g board id, (e.readEdge g board id).IsFaultless
  readChildren : ∀ g board parent, (e.readChildren g board parent).IsFaultless

/-- **The editor at hand is never at fault.** -/
theorem Editor.isFaultless_standard : Editor.standard.IsFaultless where
  perform g board key action := isFaultless_settled (g.faultless_perform key board action)
  deleteDeltas g board key := isFaultless_settled
    ((Graph.faultless_checkBoard board).bind fun _ _ => g.faultless_deleteDeltas key)
  renameDeltas g board key name := isFaultless_settled
    ((Graph.faultless_checkBoard board).bind fun _ _ => g.faultless_renameDeltas key name)
  readObject g board id := isFaultless_settled (g.faultless_readObject id board)
  readEdge g board id := isFaultless_settled (g.faultless_readEdge id board)
  readChildren g board parent := isFaultless_settled (g.faultless_readChildren parent board)

/-- The graph after an edit by the editor at hand. -/
def redo (g : Graph) (request : Request) : Except EditFailure Graph :=
  (Editor.guarded (Editor.standard.perform g request.board request.key request.action)).map (·.1)

namespace Store

/-- A session that is there exactly if something was carried out since the diagram was loaded, and
that redoes it: from the graph of the loaded text, its requests lead to the graph of the diagram. -/
structure Redoes (l : Log) (r : Record) : Prop where
  history : r.history = l.requests
  session : r.session.isSome ↔ l.requests ≠ []
  redone : ∃ g, compile l.text = .ok g ∧ l.requests.foldlM redo g = .ok r.graph

theorem kept_redoes : Kept (· = .standard) fun _ => Redoes where
  loaded := by
    rintro b rfl id text g hcompile
    exact ⟨rfl, by simp [Record.loaded], g, contain_compile_standard.mp hcompile, rfl⟩
  edited := by
    rintro b rfl id l r request x ⟨hhistory, -, g, hg, hredo⟩ hx
    rcases Record.of_apply hx with ⟨hrebuilt, newKey, hperform⟩ | ⟨-, hfalls⟩
    · refine ⟨?_, by simp [Record.edited, Log.add], g, hg, ?_⟩
      · simp [Record.edited, Record.history, Log.add, hrebuilt, ← hhistory]
      · have hlast : redo r.graph request = .ok x.graph := by
          unfold redo
          rw [show Editor.standard = Backend.standard.editor from rfl, hperform]
          rfl
        rw [Log.add, List.foldlM_append, bind_eq_ok]
        exact ⟨r.graph, hredo, by rw [List.foldlM_cons, hlast]; rfl⟩
    · obtain ⟨message, hfault⟩ := hfalls.fault
      exact absurd hfault (Editor.isFaultless_standard.perform _ _ _ _ message)

/-- **The session of a diagram is a complete log of its edits.** The editor at hand is never at fault;
and whatever calls are made with the backend at hand, to whatever diagrams and cancelled or not, the
diagrams in the store are those with a log, and the session of each redoes its log. -/
theorem redo_of_run (attempts : List Attempt) (h : ∀ a ∈ attempts, a.backend = .standard) :
    Editor.standard.IsFaultless ∧ ∀ id,
      Option.Rel Redoes (logOf id (run ∅ attempts).2) ((run ∅ attempts).1.records.get? id) :=
  ⟨Editor.isFaultless_standard, agrees_of_run kept_redoes h⟩

/-- Calls to two diagrams: an edit that succeeds between one that is refused and one that is
cancelled, and a deletion under the id with blanks. -/
def interleaved : List Attempt :=
  [⟨.load " d " "a -> b", .standard, false⟩, ⟨.load "e" "a", .standard, false⟩,
    ⟨.execute ⟨"d", [], "c", .delete⟩, .standard, false⟩,
    ⟨.execute ⟨"d", [], "c", .create⟩, .standard, false⟩,
    ⟨.execute ⟨"e", [], "c", .create⟩, .standard, false⟩,
    ⟨.execute ⟨"d", [], "c", .create⟩, .standard, true⟩,
    ⟨.execute ⟨"d ", [], "(a -> b)[0]", .delete⟩, .standard, false⟩]

theorem redo_of_run_interleaved : ∃ r g, (run ∅ interleaved).1.records.get? "d" = some r ∧
    r.history = [⟨"d", [], "c", .create⟩, ⟨"d ", [], "(a -> b)[0]", .delete⟩] ∧
    compile "a -> b" = .ok g ∧ r.history.foldlM redo g = .ok r.graph := by
  have hlog : logOf "d" (run ∅ interleaved).2 =
    some ⟨"a -> b", [⟨"d", [], "c", .create⟩, ⟨"d ", [], "(a -> b)[0]", .delete⟩]⟩ := by decide +kernel
  obtain ⟨-, hrel⟩ := redo_of_run interleaved (by simp [interleaved])
  have hagrees : Agrees (fun _ => Redoes) (fun id => logOf id (run ∅ interleaved).2)
    (run ∅ interleaved).1 := hrel
  obtain ⟨r, hr, hredoes⟩ := hagrees.exists_record hlog
  obtain ⟨g, hg, hredo⟩ := hredoes.redone
  exact ⟨r, g, hr, hredoes.history, hg, hredoes.history ▸ hredo⟩

end Store

end BoxDiagram
