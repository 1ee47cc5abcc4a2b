import BoxDiagram.Proofs.Success
import BoxDiagram.Store.Basic

/-!
# Applied edits: where the graph after an edit comes from

The graph after an edit that succeeds is the one that the editor gives. Only where the editor is at
fault at a deletion whose key holds an arrow, it is the one that the compiler gives for a patched text
(`Record.of_apply`).
-/

namespace BoxDiagram

theorem contain_compile_standard {text : String} {g : Graph} :
    (Backend.standard.compile text).contain = .ok (.ok g) ↔ compile text = .ok g := by
  unfold Backend.standard Backend.writing Outcome.contain
  simp

namespace Record

variable {b : Backend} {g h : Graph} {board : List String} {key : String} {action : Action}
  {a : Applied}

/-- **A graph that is rebuilt** is the one that the compiler gives for the canonical text without the
connection of the key. -/
theorem of_deleteTextually (hd : deleteTextually b g key = .ok h) : ∃ k patched,
    Key.parseEdge key = .ok k ∧ Patch.stripKey (Statement.print g.canonical) k = some patched ∧
      (b.compile patched).contain = .ok (.ok h) := by
  unfold deleteTextually at hd
  rw [bind_eq_ok] at hd
  obtain ⟨k, hk, hd⟩ := hd
  split at hd
  · cases hd
  · next patched hstrip =>
    split at hd
    · next h' hcompile =>
      rw [← Except.ok.inj hd]
      exact ⟨k, patched, mapError_eq_ok.mp hk, hstrip, hcompile⟩
    · cases hd
    · cases hd

theorem exists_compile_of_deleteTextually (hd : deleteTextually b g key = .ok h) :
    ∃ text, (b.compile text).contain = .ok (.ok h) := by
  obtain ⟨-, patched, -, -, hcompile⟩ := of_deleteTextually hd
  exact ⟨patched, hcompile⟩

/-- **A deletion falls back on the text**: the editor is at fault, the key holds an arrow, and the text
without the connection of the key gives a graph. -/
structure FallsBack (b : Backend) (g : Graph) (board : List String) (key : String) (h : Graph) :
    Prop where
  fault : ∃ message,
    Editor.guarded (b.editor.perform g board key .delete) = .error (.fault message)
  arrow : Arrow.occursIn key = true
  patched : deleteTextually b g key = .ok h

/-- **An edit that is no deletion** has done what the editor does, and has its key. -/
theorem perform_of_apply_of_ne_delete (haction : action ≠ .delete)
    (ha : apply b g board key action = .ok a) : a.rebuilt = false ∧
      Editor.guarded (b.editor.perform g board key action) = .ok (a.graph, a.newKey) := by
  cases action with
  | delete => exact absurd rfl haction
  | rename name =>
    unfold apply at ha
    simp only [bind_eq_ok, mapError_eq_ok, pure_eq_ok] at ha
    obtain ⟨deltas, -, p, hp, rfl⟩ := ha
    exact ⟨rfl, hp⟩
  | create | set | move =>
    unfold apply at ha
    simp only [bind_eq_ok, mapError_eq_ok, pure_eq_ok] at ha
    obtain ⟨p, hp, rfl⟩ := ha
    exact ⟨rfl, hp⟩

/-- **What an edit that succeeds has done**: what the editor does, or it is a deletion that falls
back on the text. -/
theorem of_apply (ha : apply b g board key action = .ok a) :
    (a.rebuilt = false ∧
      ∃ newKey, Editor.guarded (b.editor.perform g board key action) = .ok (a.graph, newKey)) ∨
    action = .delete ∧ FallsBack b g board key a.graph := by
  by_cases haction : action = .delete
  · subst haction
    unfold apply applyDelete at ha
    dsimp only at ha
    split at ha
    · next h newKey hperform =>
      rw [← Except.ok.inj ha]
      exact Or.inl ⟨rfl, newKey, hperform⟩
    · next message hfault =>
      split_ifs at ha with harrow
      simp only [bind_eq_ok, pure_eq_ok] at ha
      obtain ⟨h, hh, rfl⟩ := ha
      exact Or.inr ⟨rfl, ⟨message, hfault⟩, harrow, hh⟩
    · cases ha
  · obtain ⟨hrebuilt, hperform⟩ := perform_of_apply_of_ne_delete haction ha
    exact Or.inl ⟨hrebuilt, a.newKey, hperform⟩

/-- A deletion that falls back on the text succeeds. -/
theorem FallsBack.apply (hf : FallsBack b g board key h) :
    ∃ deltas, Record.apply b g board key .delete = .ok ⟨h, key, deltas, true⟩ := by
  obtain ⟨message, hfault⟩ := hf.fault
  refine ⟨Graph.removedIds g h, ?_⟩
  unfold Record.apply applyDelete
  simp only [hfault, if_pos hf.arrow, hf.patched, ok_bind]
  rfl

end Record

end BoxDiagram
