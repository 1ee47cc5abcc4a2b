import BoxDiagram.Proofs.Store.Run

/-!
# Isolation: diagrams do not notice each other

All diagrams of a store are in one map. Yet what a call for one diagram answers, and the record that
it leaves there, depends on the record of that diagram alone (`Step.endsAlike`), and a call that is
not for the diagram leaves the record as it is (`Step.get?_after_of_not_isFor`). So two sequences of
calls with the same calls for a diagram, in the same order, have the same answers to these and leave
the same record of the diagram, whatever is done to other diagrams in between (`isolation`).
-/

namespace BoxDiagram

namespace Store

variable {s t : Store} {b : Backend} {isCancelled : Bool} {d : String}

/-! ### Steps -/

/-- The diagram that a call is for, be it to write or to read; blanks around its id do not count.
Drawing a text is for none. -/
def Operation.diagram? : Operation → Option String
  | load id _ | serialize id | exportPicture id _ _ | view id | object id _ _ | edge id _ _
  | children id _ _ => some (Text.trimmed id)
  | execute request => some (Text.trimmed request.diagram)
  | render .. => none

/-- A call to a store, or a look at it that always has an answer. -/
inductive Step where
  | call (attempt : Attempt)
  | contains (id : String)
  | session (id : String)
  | list

namespace Step

/-- What a step answers. -/
def Answer : Step → Type
  | call a => Except StoreError a.operation.Answer
  | contains _ => Bool
  | session _ => Option Session
  | list => List Summary

/-- The diagram that a step is for. -/
def diagram? : Step → Option String
  | call a => a.operation.diagram?
  | contains id | session id => some (Text.trimmed id)
  | list => none

/-- Is the step for the diagram? -/
def isFor (d : String) (x : Step) : Bool := x.diagram? = some d

def answer (s : Store) : (x : Step) → x.Answer
  | call a => (a.outcome s).1
  | contains id => s.contains id
  | session id => s.session? id
  | list => s.list

/-- The store that a step leaves behind. -/
def after (s : Store) : Step → Store
  | call a => a.after s
  | contains _ | session _ | list => s

end Step

/-- The answers to steps one after the other, each with its step, and the store after them. -/
def trace : Store → List Step → List ((x : Step) × x.Answer) × Store
  | s, [] => ([], s)
  | s, x :: xs =>
    let (answers, t) := trace (x.after s) xs
    (⟨x, x.answer s⟩ :: answers, t)

/-- The answers to the steps for a diagram. -/
def answersFor (d : String) (s : Store) (xs : List Step) : List ((x : Step) × x.Answer) :=
  (s.trace xs).1.filter (·.1.isFor d)

/-! ### Steps for the diagram -/

/-- Two calls end alike for a diagram: they have the same answer, and leave the same record of it. -/
def EndsAlike {α : Type} (d : String) (x y : Except StoreError α × Store) : Prop :=
  x.1 = y.1 ∧ x.2.records.get? d = y.2.records.get? d

section Agreement
variable (hst : s.records.get? d = t.records.get? d)
include hst

theorem fetch_congr {id : DiagramId} (hid : id.text = d) :
    s.fetch isCancelled id = t.fetch isCancelled id := by
  rw [fetch, fetch, hid, hst]

theorem record?_congr {name : String} (hname : Text.trimmed name = d) :
    s.record? name = t.record? name := by
  rw [record?, record?, hname, hst]

theorem fetched_congr {α : Type} {name : String} (hname : Text.trimmed name = d)
    (f : Record → Except StoreError α) :
    (do f (← s.fetch isCancelled (← parseId name))) =
      (do f (← t.fetch isCancelled (← parseId name))) := by
  cases hid : parseId name with
  | error e => rfl
  | ok id => rw [ok_bind, ok_bind, fetch_congr hst ((Call.text_of_parseId hid).trans hname)]

theorem planned_congr {request : Request} (hname : Text.trimmed request.diagram = d) :
    Call.planned s b isCancelled request = Call.planned t b isCancelled request := by
  unfold Call.planned
  cases hid : validate request with
  | error e => rfl
  | ok id => rw [ok_bind, ok_bind, fetch_congr hst ((Call.text_of_validate hid).trans hname)]

theorem endsAlike_reading {α : Type} {f : Store → Except StoreError α} (hf : f s = f t) :
    EndsAlike d ((Operation.reading f).run s) ((Operation.reading f).run t) := by
  rw [Operation.run_reading, Operation.run_reading]
  exact ⟨hf, hst⟩

theorem endsAlike_load {name text : String} (hname : Text.trimmed name = d) :
    EndsAlike d ((Call.load b isCancelled name text).run s)
      ((Call.load b isCancelled name text).run t) := by
  rw [Call.run_load, Call.run_load]
  cases hread : Call.readable b isCancelled name text with
  | error e => exact ⟨rfl, hst⟩
  | ok found =>
    obtain ⟨id, g⟩ := found
    obtain rfl : id.text = d := (Call.text_of_readable hread).trans hname
    exact ⟨rfl, get?_write_self.trans get?_write_self.symm⟩

theorem endsAlike_execute {request : Request} (hname : Text.trimmed request.diagram = d) :
    EndsAlike d ((Call.execute b isCancelled request).run s)
      ((Call.execute b isCancelled request).run t) := by
  rw [Call.run_execute, Call.run_execute, planned_congr hst hname]
  cases hplan : Call.planned t b isCancelled request with
  | error e => exact ⟨rfl, hst⟩
  | ok plan =>
    obtain ⟨id, r, a⟩ := plan
    obtain rfl : id.text = d := (Call.text_of_planned hplan).trans hname
    exact ⟨rfl, get?_write_self.trans get?_write_self.symm⟩

/-- **A call for a diagram depends on the record of the diagram alone.** -/
theorem endsAlike_call {o : Operation} (hd : o.diagram? = some d) :
    EndsAlike d ((o.call b isCancelled).run s) ((o.call b isCancelled).run t) := by
  cases o with
  | render text format theme => exact absurd hd nofun
  | load name text => exact endsAlike_load hst (Option.some.inj hd)
  | execute request => exact endsAlike_execute hst (Option.some.inj hd)
  | serialize name => exact endsAlike_reading hst (fetched_congr hst (Option.some.inj hd) _)
  | view name => exact endsAlike_reading hst (fetched_congr hst (Option.some.inj hd) _)
  | object name board id => exact endsAlike_reading hst (fetched_congr hst (Option.some.inj hd) _)
  | edge name board id => exact endsAlike_reading hst (fetched_congr hst (Option.some.inj hd) _)
  | children name board parent =>
    exact endsAlike_reading hst (fetched_congr hst (Option.some.inj hd) _)
  | exportPicture name format theme =>
    have htext : s.serialize b isCancelled name = t.serialize b isCancelled name :=
      fetched_congr hst (Option.some.inj hd) _
    refine endsAlike_reading hst ?_
    rw [exportPicture, exportPicture, htext]

/-- **A step for a diagram depends on the record of the diagram alone**: it has the same answer in
stores that agree there, and they still agree after it. -/
theorem Step.endsAlike {x : Step} (hd : x.isFor d = true) :
    x.answer s = x.answer t ∧ (x.after s).records.get? d = (x.after t).records.get? d := by
  have hdiagram : x.diagram? = some d := of_decide_eq_true hd
  cases x with
  | call a => exact endsAlike_call hst hdiagram
  | contains id =>
    have hrecord := record?_congr hst (Option.some.inj hdiagram)
    exact ⟨congrArg Option.isSome hrecord, hst⟩
  | session id =>
    have hrecord := record?_congr hst (Option.some.inj hdiagram)
    have hsession : s.session? id = t.session? id := by rw [session?, session?, hrecord]
    exact ⟨hsession, hst⟩
  | list => exact absurd hdiagram nofun

end Agreement

/-! ### Other steps -/

theorem Call.IsAtomic.get?_run {α : Type} {c : Call α} {target? : Option String}
    {written? : α → Option GraphView} (h : c.IsAtomic s target? written?) (hd : target? ≠ some d) :
    (c.run s).2.records.get? d = s.records.get? d := by
  cases hrun : c.run s with
  | mk answer u =>
    cases answer with
    | error e => rw [h.unchanged e u hrun]
    | ok a => exact h.frame a u hrun d hd

theorem get?_reading {α : Type} (f : Store → Except StoreError α) :
    ((Operation.reading f).run s).2.records.get? d = s.records.get? d := by
  rw [Operation.run_reading]

/-- **A call that is not for a diagram leaves its record as it is.** -/
theorem get?_run_of_diagram? {o : Operation} (hd : o.diagram? ≠ some d) :
    ((o.call b isCancelled).run s).2.records.get? d = s.records.get? d := by
  cases o with
  | load name text =>
    have hatomic : ((Operation.load name text).call b isCancelled).IsAtomic s
      (some (Text.trimmed name)) some := Call.isAtomic_load name text
    exact hatomic.get?_run hd
  | execute request =>
    have hatomic : ((Operation.execute request).call b isCancelled).IsAtomic s
      (some (Text.trimmed request.diagram)) fun report => some report.view :=
      Call.isAtomic_execute request
    exact hatomic.get?_run hd
  | serialize name => exact get?_reading _
  | exportPicture name format theme => exact get?_reading _
  | render text format theme => exact get?_reading _
  | view name => exact get?_reading _
  | object name board id => exact get?_reading _
  | edge name board id => exact get?_reading _
  | children name board parent => exact get?_reading _

theorem Step.get?_after_of_not_isFor {x : Step} (hd : x.isFor d = false) :
    (x.after s).records.get? d = s.records.get? d := by
  cases x with
  | call a => exact get?_run_of_diagram? (of_decide_eq_false hd)
  | contains id | session id | list => rfl

/-! ### Sequences of steps -/

theorem answersFor_cons_of_isFor {x : Step} (hx : x.isFor d = true) (xs : List Step) :
    answersFor d s (x :: xs) = ⟨x, x.answer s⟩ :: answersFor d (x.after s) xs :=
  List.filter_cons_of_pos hx

theorem answersFor_cons_of_not_isFor {x : Step} (hx : x.isFor d = false) (xs : List Step) :
    answersFor d s (x :: xs) = answersFor d (x.after s) xs :=
  List.filter_cons_of_neg (by rw [hx]; exact Bool.false_ne_true)

/-- **Leaving out the steps that are not for a diagram** changes no answer to the others, nor the
record that they leave behind. -/
theorem trace_filter : ∀ (xs : List Step) {s t : Store},
    s.records.get? d = t.records.get? d →
      answersFor d s xs = answersFor d t (xs.filter (·.isFor d)) ∧
        (s.trace xs).2.records.get? d = (t.trace (xs.filter (·.isFor d))).2.records.get? d
  | [], _, _, hst => ⟨rfl, hst⟩
  | x :: xs, s, t, hst => by
    cases hx : x.isFor d with
    | true =>
      obtain ⟨hanswer, hafter⟩ := Step.endsAlike hst hx
      obtain ⟨hanswers, hfinal⟩ := trace_filter xs hafter
      rw [List.filter_cons_of_pos hx, answersFor_cons_of_isFor hx, answersFor_cons_of_isFor hx,
        hanswer, hanswers]
      exact ⟨rfl, hfinal⟩
    | false =>
      -- only the first store takes the step; both still agree at the diagram
      have hafter : (x.after s).records.get? d = t.records.get? d :=
        (Step.get?_after_of_not_isFor hx).trans hst
      rw [List.filter_cons_of_neg (by simp [hx]), answersFor_cons_of_not_isFor hx]
      exact trace_filter xs hafter

/-- **Diagrams are isolated.** Two sequences of steps, from stores with the same record of a diagram,
with the same steps for that diagram in the same order: each of these steps has the same answer in
both, and the record of the diagram is the same in the end, whatever other steps come before, between
and after them, and whatever their backends do. -/
theorem isolation (d : String) (xs ys : List Step)
    (h : xs.filter (·.isFor d) = ys.filter (·.isFor d)) (s t : Store)
    (hst : s.records.get? d = t.records.get? d) :
    answersFor d s xs = answersFor d t ys ∧
      (s.trace xs).2.records.get? d = (t.trace ys).2.records.get? d := by
  obtain ⟨hanswers, hfinal⟩ := trace_filter xs hst
  obtain ⟨hanswers', hfinal'⟩ := trace_filter ys (rfl : t.records.get? d = t.records.get? d)
  rw [← h] at hanswers' hfinal'
  exact ⟨hanswers.trans hanswers'.symm, hfinal.trans hfinal'.symm⟩

/-- Calls for `d`, under different spellings; the editor crashes at the second one. -/
def editing : List Step :=
  [.call ⟨.load " d " "a -> b", .standard, false⟩,
    .call ⟨.execute ⟨"d ", [], "a -> b", .delete⟩, fragile, false⟩, .session "d",
    .call ⟨.execute ⟨"d", [], "c", .create⟩, .standard, false⟩]

/-- The same calls, with calls for `e` in between: it is loaded, edited and exported. -/
def editingAmidst : List Step :=
  .call ⟨.load "e" "a -> b", .standard, false⟩ :: editing.take 1 ++
    [.call ⟨.execute ⟨"e", [], "a -> b", .delete⟩, .standard, false⟩, .list] ++ editing.drop 1 ++
    [.call ⟨.exportPicture "e" .svg 0, .standard, false⟩]

theorem isolation_editing : answersFor "d" ∅ editing = answersFor "d" ∅ editingAmidst ∧
    ∃ r, (trace ∅ editing).2.records.get? "d" = some r ∧
      (trace ∅ editingAmidst).2.records.get? "d" = some r ∧
      r.history = [⟨"d ", [], "a -> b", .delete⟩, ⟨"d", [], "c", .create⟩] := by
  have hfilter : editing.filter (·.isFor "d") = editingAmidst.filter (·.isFor "d") := rfl
  have hhistory : ((trace ∅ editing).2.records.get? "d").map (·.history) =
    some [⟨"d ", [], "a -> b", .delete⟩, ⟨"d", [], "c", .create⟩] := by decide +kernel
  obtain ⟨r, hr, hrequests⟩ := Option.map_eq_some_iff.mp hhistory
  obtain ⟨hanswers, hfinal⟩ := isolation "d" editing editingAmidst hfilter ∅ ∅ rfl
  exact ⟨hanswers, r, hr, hfinal ▸ hr, hrequests⟩

end Store

end BoxDiagram
