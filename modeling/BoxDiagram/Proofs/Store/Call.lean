import BoxDiagram.Proofs.Success
import BoxDiagram.Proofs.TextMap
import BoxDiagram.Store.Basic

/-!
# Calls: what they write, and that they fail before they write

A call that changes a store first finds out what to write, which may fail in many places, and then
writes it, which cannot fail. Loading writes the record of a compiled text (`run_load`); carrying out
a request writes the record with the edited graph, its text and its session (`run_execute`). A call
that fails leaves the store as it was, whatever its backend does, and a call that succeeds touches no
diagram but its own (`all_or_nothing`).
-/

namespace BoxDiagram

namespace Record

/-- The record after an edit: graph, text and session together. -/
def edited (b : Backend) (r : Record) (request : Request) (a : Applied) : Record where
  text := formatOr b a.graph r.text
  graph := a.graph
  session := some ⟨(if a.rebuilt then [] else r.history) ++ [request]⟩

theorem history_restarted (r : Record) (rebuilt : Bool) :
    history { r with session := if rebuilt then none else r.session } =
      if rebuilt then [] else r.history := by
  cases rebuilt <;> rfl

end Record

namespace Store

/-- The store with the record of a diagram put in the place of what was there. -/
def write (s : Store) (id : DiagramId) (r : Record) : Store := ⟨s.records.insert id.text r⟩

variable {s : Store} {b : Backend} {isCancelled : Bool} {id : DiagramId} {r : Record}

@[simp] theorem get?_write_self : (s.write id r).records.get? id.text = some r :=
  TextMap.get?_insert_self ..

theorem get?_write_of_ne {other : String} (h : other ≠ id.text) :
    (s.write id r).records.get? other = s.records.get? other :=
  TextMap.get?_insert_of_ne _ _ h

@[simp] theorem write_write {r' : Record} : (s.write id r).write id r' = s.write id r' := by
  have hrecords : (s.write id r).records.insert id.text r' = s.records.insert id.text r' := by
    refine TextMap.ext_get? fun k => ?_
    unfold write
    rw [TextMap.get?_insert, TextMap.get?_insert, TextMap.get?_insert]
    split_ifs <;> rfl
  exact congrArg Store.mk hrecords

theorem write_of_get? (hr : s.records.get? id.text = some r) : s.write id r = s := by
  have hrecords : s.records.insert id.text r = s.records := by
    refine TextMap.ext_get? fun k => ?_
    rw [TextMap.get?_insert]
    split_ifs with h
    · rw [h, hr]
    · rfl
  exact congrArg Store.mk hrecords

namespace Call

variable {α β : Type}

/-! ### Steps -/

theorem run_get : (get : Call Store).run s = (.ok s, s) := rfl

theorem run_lift (x : Except StoreError α) : (liftM x : Call α).run s = (x, s) := by
  cases x <;> rfl

theorem run_modify (f : Store → Store) : (modify f : Call Unit).run s = (.ok (), f s) := rfl

theorem run_bind (c : Call α) (f : α → Call β) : (c >>= f).run s =
    match c.run s with
    | (.ok a, t) => (f a).run t
    | (.error e, t) => (.error e, t) := by
  show (match StateT.run (ExceptT.run c) s with
    | (x, t) => StateT.run (ExceptT.bindCont f x) t) = _
  unfold run
  rcases StateT.run (ExceptT.run c) s with ⟨_ | a, t⟩
  · rfl
  · rfl

theorem run_bind_of_ok {c : Call α} {f : α → Call β} {a : α} {t : Store}
    (h : c.run s = (.ok a, t)) : (c >>= f).run s = (f a).run t := by
  rw [run_bind, h]

theorem run_lift_bind (x : Except StoreError α) (f : α → Call β) :
    ((liftM x : Call α) >>= f).run s =
      match x with
      | .ok a => (f a).run s
      | .error e => (.error e, s) := by
  rw [run_bind, run_lift]
  cases x <;> rfl

theorem run_update (hr : s.records.get? id.text = some r) (f : Record → Record) :
    (update id f).run s = (.ok (), s.write id (f r)) := by
  unfold update
  rw [run_modify, hr]
  rfl

/-! ### Loading -/

/-- The id and the graph of a text that can be loaded. -/
def readable (b : Backend) (isCancelled : Bool) (id text : String) :
    Except StoreError (DiagramId × Graph) := do
  let id ← parseId id
  checkCancelled isCancelled
  match (b.compile text).contain with
  | .ok (.ok g) => return (id, g)
  | .ok (.error reason) => .error (.notCompiled reason)
  | .error message => .error (Record.failed "load" (.fault message))

theorem text_of_parseId {name : String} (h : parseId name = .ok id) :
    id.text = Text.trimmed name := by
  unfold parseId DiagramId.parse DiagramId.ofText at h
  rw [mapError_eq_ok] at h
  split_ifs at h
  exact congrArg DiagramId.text (Except.ok.inj h).symm

theorem get?_of_fetch (h : s.fetch isCancelled id = .ok r) :
    s.records.get? id.text = some r := by
  unfold fetch at h
  split at h
  · simp at h
  · next r' hr =>
    simp only [bind_eq_ok, pure_eq_ok] at h
    obtain ⟨-, -, rfl⟩ := h
    exact hr

/-- **Loading writes one record**, once all that can fail has succeeded. -/
theorem run_load (name text : String) : (load b isCancelled name text).run s =
    match readable b isCancelled name text with
    | .ok (id, g) => (.ok g.view, s.write id (.loaded text g))
    | .error e => (.error e, s) := by
  unfold load readable
  rw [run_lift_bind]
  cases hid : parseId name with
  | error e => rfl
  | ok id =>
    dsimp only
    rw [run_lift_bind]
    cases hoff : checkCancelled isCancelled with
    | error e => rfl
    | ok _ =>
      cases hcompile : (b.compile text).contain with
      | error message => rfl
      | ok result => cases result <;> rfl

/-! ### Carrying out a request -/

/-- What a request comes to: the diagram, its record, and the edit of its graph. -/
def planned (s : Store) (b : Backend) (isCancelled : Bool) (request : Request) :
    Except StoreError (DiagramId × Record × Applied) := do
  let id ← validate request
  let r ← s.fetch isCancelled id
  let a ← Record.apply b r.graph request.board request.key request.action
  return (id, r, a)

theorem planned_eq_ok_iff {request : Request} {a : Applied} :
    planned s b isCancelled request = .ok (id, r, a) ↔ validate request = .ok id ∧
      s.fetch isCancelled id = .ok r ∧
      Record.apply b r.graph request.board request.key request.action = .ok a := by
  unfold planned
  simp only [bind_eq_ok, pure_eq_ok, Prod.mk.injEq]
  constructor
  · rintro ⟨id, hid, r, hr, a, ha, rfl, rfl, rfl⟩
    exact ⟨hid, hr, ha⟩
  · rintro ⟨hid, hr, ha⟩
    exact ⟨id, hid, r, hr, a, ha, rfl, rfl, rfl⟩

theorem run_restart (hr : s.records.get? id.text = some r) (rebuilt : Bool) :
    (restart id rebuilt).run s =
      (.ok (), s.write id { r with session := if rebuilt then none else r.session }) := by
  unfold restart
  cases rebuilt with
  | true => exact run_update hr _
  | false => exact congrArg (Prod.mk _) (write_of_get? hr).symm

theorem run_writeText (hr : s.records.get? id.text = some r) (g : Graph) :
    (writeText b id g).run s =
      (.ok (), s.write id { r with text := Record.formatOr b g r.text }) := by
  unfold writeText Record.formatOr
  cases (b.format g).contain with
  | error message => exact congrArg (Prod.mk _) (write_of_get? hr).symm
  | ok formatted =>
    cases formatted with
    | none => exact congrArg (Prod.mk _) (write_of_get? hr).symm
    | some text => exact run_update hr _

/-- **The writes of an edit cannot fail.** Each of them changes one field of the record that the
writes before it have left. -/
theorem run_commit (hr : s.records.get? id.text = some r) (request : Request) (g : Graph) :
    (commit b id request g).run s = (.ok (), s.write id
      { text := Record.formatOr b g r.text, graph := g, session := some ⟨r.history ++ [request]⟩ }) := by
  unfold commit
  rw [run_bind_of_ok (run_writeText hr g), run_bind_of_ok (run_update get?_write_self _),
    write_write, run_update get?_write_self, write_write]
  rfl

/-- **Carrying out a request writes one record**, once all that can fail has succeeded. -/
theorem run_execute (request : Request) : (execute b isCancelled request).run s =
    match planned s b isCancelled request with
    | .ok (id, r, a) => (.ok ⟨request.key, a.newKey, a.deltas, a.graph.view⟩,
        s.write id (r.edited b request a))
    | .error e => (.error e, s) := by
  unfold execute planned
  rw [run_lift_bind]
  cases hid : validate request with
  | error e => rfl
  | ok id =>
    rw [ok_bind]
    dsimp only
    rw [run_bind_of_ok run_get, run_lift_bind]
    cases hr : s.fetch isCancelled id with
    | error e => rfl
    | ok r =>
      rw [ok_bind]
      dsimp only
      rw [run_lift_bind]
      cases ha : Record.apply b r.graph request.board request.key request.action with
      | error e => rfl
      | ok a =>
        rw [ok_bind]
        dsimp only
        rw [run_bind_of_ok (run_restart (get?_of_fetch hr) _),
          run_bind_of_ok (run_commit get?_write_self _ _), write_write, Record.history_restarted]
        rfl

theorem parseId_of_validate {request : Request} (h : validate request = .ok id) :
    parseId request.diagram = .ok id := by
  unfold validate at h
  rw [mapError_eq_ok] at h
  unfold Request.validate at h
  rw [bind_eq_ok] at h
  obtain ⟨id', hparse, h⟩ := h
  have hid : id' = id := by
    split_ifs at h
    split at h
    · split_ifs at h
      exact Except.ok.inj h
    · split_ifs at h
      exact Except.ok.inj h
    · exact Except.ok.inj h
  rw [mapError_eq_ok, hid] at hparse
  rw [parseId, hparse]
  rfl

theorem text_of_validate {request : Request} (h : validate request = .ok id) :
    id.text = Text.trimmed request.diagram := text_of_parseId (parseId_of_validate h)

theorem text_of_readable {name text : String} {g : Graph}
    (h : readable b isCancelled name text = .ok (id, g)) : id.text = Text.trimmed name := by
  unfold readable at h
  rw [bind_eq_ok] at h
  obtain ⟨id', hparse, h⟩ := h
  rw [bind_eq_ok] at h
  obtain ⟨-, -, h⟩ := h
  split at h
  · rw [pure_eq_ok] at h
    obtain ⟨rfl, -⟩ := Prod.mk.inj h
    exact text_of_parseId hparse
  · cases h
  · cases h

theorem text_of_planned {request : Request} {a : Applied}
    (h : planned s b isCancelled request = .ok (id, r, a)) :
    id.text = Text.trimmed request.diagram :=
  text_of_validate (planned_eq_ok_iff.mp h).1

end Call

/-! ### Calls of every kind -/

/-- A call to a store, with what it is given. -/
inductive Operation where
  | load (id text : String)
  | execute (request : Request)
  | serialize (id : String)
  | exportPicture (id : String) (format : PictureFormat) (theme : Int)
  | render (text : String) (format : PictureFormat) (theme : Int)
  | view (id : String)
  | object (id : String) (board : List String) (objectId : String)
  | edge (id : String) (board : List String) (edgeId : String)
  | children (id : String) (board : List String) (parent : String)

namespace Operation

/-- What a call answers. -/
def Answer : Operation → Type
  | load .. | view .. => GraphView
  | execute _ => EditReport
  | serialize _ => String
  | exportPicture .. | render .. => ByteArray
  | object .. => ObjectView
  | edge .. => EdgeView
  | children .. => List String

/-- The diagram that a call is to write; blanks around its id do not count. -/
def target? : Operation → Option String
  | load id _ => some (Text.trimmed id)
  | execute request => some (Text.trimmed request.diagram)
  | _ => none

/-- The graph that a call reports to have written. -/
def written? : (o : Operation) → o.Answer → Option GraphView
  | load .., shown => some shown
  | execute _, report => some report.view
  | serialize _, _ | exportPicture .., _ | render .., _ | view _, _ | object .., _ | edge .., _
  | children .., _ => none

/-- A call that looks at the store. -/
def reading {α : Type} (f : Store → Except StoreError α) : Call α := do f (← get)

theorem run_reading {α : Type} (f : Store → Except StoreError α) :
    (reading f).run s = (f s, s) := by
  unfold reading
  rw [Call.run_bind_of_ok Call.run_get, Call.run_lift]

/-- The call itself. -/
def call (b : Backend) (isCancelled : Bool) : (o : Operation) → Call o.Answer
  | load id text => Call.load b isCancelled id text
  | execute request => Call.execute b isCancelled request
  | serialize id => reading fun s => s.serialize b isCancelled id
  | exportPicture id format theme => reading fun s => s.exportPicture b isCancelled id format theme
  | render text format theme => reading fun _ => Store.render b isCancelled text format theme
  | view id => reading fun s => s.view isCancelled id
  | object id board objectId => reading fun s => s.object b isCancelled id board objectId
  | edge id board edgeId => reading fun s => s.edge b isCancelled id board edgeId
  | children id board parent => reading fun s => s.children b isCancelled id board parent

end Operation

/-- A call to a store does all or nothing, for the diagram that it is to write, if any, and the
graph that it reports to have written. -/
structure Call.IsAtomic {α : Type} (c : Call α) (s : Store) (target? : Option String)
    (written? : α → Option GraphView) : Prop where
  /-- A call that fails leaves the store as it was. -/
  unchanged : ∀ e t, c.run s = (.error e, t) → t = s
  /-- A call that succeeds leaves every record as it was but that of its target. -/
  frame : ∀ a t, c.run s = (.ok a, t) → ∀ other, target? ≠ some other →
    t.records.get? other = s.records.get? other
  /-- At the target of a call that succeeds, the store keeps the graph that the call reports. -/
  kept : ∀ a t, c.run s = (.ok a, t) → ∀ target, target? = some target →
    ∃ r, t.records.get? target = some r ∧ written? a = some r.graph.view

namespace Call

variable {α : Type} {c : Call α} {target? : Option String} {written? : α → Option GraphView}

theorem isAtomic_of_error {e : StoreError} (h : c.run s = (.error e, s)) :
    c.IsAtomic s target? written? where
  unchanged e' t ht := (congrArg Prod.snd (h.symm.trans ht)).symm
  frame a t ht := by cases h.symm.trans ht
  kept a t ht := by cases h.symm.trans ht

theorem isAtomic_of_reading {x : Except StoreError α} (h : c.run s = (x, s)) :
    c.IsAtomic s none written? where
  unchanged e t ht := (congrArg Prod.snd (h.symm.trans ht)).symm
  frame a t ht other _ := by
    obtain ⟨-, rfl⟩ := Prod.mk.inj (h.symm.trans ht)
    rfl
  kept a t ht target htarget := by cases htarget

theorem isAtomic_of_write {a : α} (h : c.run s = (.ok a, s.write id r))
    (hwritten : written? a = some r.graph.view) : c.IsAtomic s (some id.text) written? where
  unchanged e t ht := by cases h.symm.trans ht
  frame a' t ht other hother := by
    obtain ⟨-, rfl⟩ := Prod.mk.inj (h.symm.trans ht)
    exact get?_write_of_ne fun heq => hother (congrArg some heq.symm)
  kept a' t ht target htarget := by
    obtain ⟨ha, rfl⟩ := Prod.mk.inj (h.symm.trans ht)
    rw [← Except.ok.inj ha, ← Option.some.inj htarget]
    exact ⟨r, get?_write_self, hwritten⟩

theorem isAtomic_load (name text : String) :
    (load b isCancelled name text).IsAtomic s (some (Text.trimmed name)) some := by
  have hrun : (load b isCancelled name text).run s = _ := run_load name text
  cases hread : readable b isCancelled name text with
  | error e =>
    rw [hread] at hrun
    exact isAtomic_of_error hrun
  | ok found =>
    obtain ⟨id, g⟩ := found
    rw [hread] at hrun
    rw [← text_of_readable hread]
    exact isAtomic_of_write hrun rfl

theorem isAtomic_execute (request : Request) :
    (execute b isCancelled request).IsAtomic s (some (Text.trimmed request.diagram))
      fun report => some report.view := by
  have hrun : (execute b isCancelled request).run s = _ := run_execute request
  cases hplan : planned s b isCancelled request with
  | error e =>
    rw [hplan] at hrun
    exact isAtomic_of_error hrun
  | ok plan =>
    obtain ⟨id, r, a⟩ := plan
    rw [hplan] at hrun
    rw [← text_of_planned hplan]
    exact isAtomic_of_write hrun rfl

end Call

/-- **A call to a store does all or nothing**, whatever the parts of the backend return, refuse or
crash at, and whether or not the call was cancelled. -/
theorem all_or_nothing (b : Backend) (isCancelled : Bool) (o : Operation) (s : Store) :
    (o.call b isCancelled).IsAtomic s o.target? o.written? := by
  cases o with
  | load id text => exact Call.isAtomic_load id text
  | execute request => exact Call.isAtomic_execute request
  | serialize id => exact Call.isAtomic_of_reading (Operation.run_reading _)
  | exportPicture id format theme => exact Call.isAtomic_of_reading (Operation.run_reading _)
  | render text format theme => exact Call.isAtomic_of_reading (Operation.run_reading _)
  | view id => exact Call.isAtomic_of_reading (Operation.run_reading _)
  | object id board objectId => exact Call.isAtomic_of_reading (Operation.run_reading _)
  | edge id board edgeId => exact Call.isAtomic_of_reading (Operation.run_reading _)
  | children id board parent => exact Call.isAtomic_of_reading (Operation.run_reading _)

/-- A backend that compiles every text to the graph without elements and crashes at all else. -/
def fragile : Backend where
  compile _ := .returned (.ok ∅)
  format _ := .crashed none
  editor :=
    { perform := fun _ _ _ _ => .crashed none
      deleteDeltas := fun _ _ _ => .crashed none
      renameDeltas := fun _ _ _ _ => .crashed none
      readObject := fun _ _ _ => .crashed none
      readEdge := fun _ _ _ => .crashed none
      readChildren := fun _ _ _ => .crashed none }
  render _ _ _ := .crashed none

/-- A store with one diagram. -/
def stocked : Store := ⟨(∅ : TextMap Record).insert "d" (.loaded "a" ∅)⟩

/-- With the fragile backend, loading ` d ` replaces the diagram `d` and no other one, and a deletion
in it leaves it as it is. -/
theorem all_or_nothing_fragile :
    (∃ a t, ((Operation.load " d " "b").call fragile false).run stocked = (.ok a, t) ∧
      t.records.get? "e" = stocked.records.get? "e" ∧
      ∃ r, t.records.get? "d" = some r ∧ some a = some r.graph.view) ∧
    ∃ e, ((Operation.execute ⟨" d ", [], "a", .delete⟩).call fragile false).run stocked =
      (.error e, stocked) := by
  have hload := all_or_nothing fragile false (.load " d " "b") stocked
  have hdelete := all_or_nothing fragile false (.execute ⟨" d ", [], "a", .delete⟩) stocked
  have hcrash : ∃ e t, ((Operation.execute ⟨" d ", [], "a", .delete⟩).call fragile false).run
      stocked = (.error e, t) := ⟨_, _, rfl⟩
  obtain ⟨e, t, hrun⟩ := hcrash
  refine ⟨⟨_, _, rfl, ?other, ?own⟩, e, hdelete.unchanged e t hrun ▸ hrun⟩
  case other => exact hload.frame _ _ rfl "e" (by decide)
  case own => exact hload.kept _ _ rfl "d" (by decide)

end Store

end BoxDiagram
