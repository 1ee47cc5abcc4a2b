import BoxDiagram.Proofs.Store.Applied
import BoxDiagram.Proofs.Store.Call

/-!
# Runs: calls to a store one after the other, and their log

A run makes calls to a store that is empty at first. The backend may be another one at each call, and
a call may be cancelled. From the calls that succeed follows the log of each diagram: the text that
was loaded last, and the requests that were carried out since. What loading establishes and every
edit keeps holds of each diagram and its log after every run (`agrees_of_run`); in particular, exactly
the diagrams with a log are in the store.
-/

namespace BoxDiagram

namespace Store

open Call

/-- A call to a store: the parts of the backend at that time, and whether it is cancelled. -/
structure Attempt where
  operation : Operation
  backend : Backend
  isCancelled : Bool

namespace Attempt

variable (a : Attempt) (s : Store)

def outcome : Except StoreError a.operation.Answer × Store :=
  (a.operation.call a.backend a.isCancelled).run s

/-- The store that the call leaves behind. -/
def after : Store := (a.outcome s).2

def succeeds : Bool := (a.outcome s).1.isOk

end Attempt

/-- What was done to a diagram: the text that was loaded last, and the requests that were carried out
since, in order. -/
structure Log where
  text : String
  requests : List Request
  deriving DecidableEq, Repr

namespace Log

/-- The log after one more request. -/
def add (l : Log) (request : Request) : Log := { l with requests := l.requests ++ [request] }

/-- The log of the diagram `id` after a call that succeeds; blanks around ids do not count. -/
def note (id : String) (l : Option Log) : Operation → Option Log
  | .load name text => if Text.trimmed name = id then some ⟨text, []⟩ else l
  | .execute request => if Text.trimmed request.diagram = id then l.map (·.add request) else l
  | _ => l

end Log

/-- The store after calls one after the other, and those of them that succeed. -/
def run : Store → List Attempt → Store × List Operation
  | s, [] => (s, [])
  | s, a :: rest =>
    let (t, done) := run (a.after s) rest
    (t, if a.succeeds s then a.operation :: done else done)

/-- The log of a diagram after calls that succeed; none if it was never loaded. -/
def logOf (id : String) (done : List Operation) : Option Log := done.foldl (Log.note id) none

variable {s : Store} {a : Attempt}

/-! ### What one call does -/

/-- The log of a diagram after one call. -/
def Attempt.noted (a : Attempt) (s : Store) (id : String) (l : Option Log) : Option Log :=
  if a.succeeds s then Log.note id l a.operation else l

/-- **What a call does to a store**: it loads a text that compiles, carries out a request, or leaves
store and logs as they are. -/
inductive Effect (a : Attempt) (s : Store) : Store → Prop
  | loaded {name text : String} {id : DiagramId} {g : Graph} (hid : id.text = Text.trimmed name)
      (hcompile : (a.backend.compile text).contain = .ok (.ok g))
      (hnoted : ∀ x l, a.noted s x l = Log.note x l (.load name text)) :
      Effect a s (s.write id (.loaded text g))
  | edited {request : Request} {id : DiagramId} {r : Record} {x : Applied}
      (hid : id.text = Text.trimmed request.diagram) (hr : s.records.get? id.text = some r)
      (hx : Record.apply a.backend r.graph request.board request.key request.action = .ok x)
      (hnoted : ∀ x l, a.noted s x l = Log.note x l (.execute request)) :
      Effect a s (s.write id (r.edited a.backend request x))
  | unchanged (hnoted : ∀ x l, a.noted s x l = l) : Effect a s s

theorem compile_of_readable {b : Backend} {isCancelled : Bool} {name text : String} {id : DiagramId}
    {g : Graph} (h : readable b isCancelled name text = .ok (id, g)) :
    (b.compile text).contain = .ok (.ok g) := by
  unfold readable at h
  simp only [bind_eq_ok] at h
  obtain ⟨id', -, ⟨⟩, -, h⟩ := h
  split at h
  · next g' hg =>
    rw [pure_eq_ok] at h
    obtain ⟨-, rfl⟩ := Prod.mk.inj h
    exact hg
  · cases h
  · cases h

theorem of_planned {b : Backend} {isCancelled : Bool} {request : Request} {id : DiagramId}
    {r : Record} {x : Applied} (h : planned s b isCancelled request = .ok (id, r, x)) :
    s.records.get? id.text = some r ∧
      Record.apply b r.graph request.board request.key request.action = .ok x := by
  obtain ⟨-, hr, hx⟩ := planned_eq_ok_iff.mp h
  exact ⟨get?_of_fetch hr, hx⟩

theorem Effect.of_error {e : StoreError} (h : a.outcome s = (.error e, s)) :
    Effect a s (a.after s) := by
  have hafter : a.after s = s := congrArg Prod.snd h
  have hfails : a.succeeds s = false := by
    unfold Attempt.succeeds
    rw [h]
    rfl
  rw [hafter]
  exact .unchanged fun x l => by rw [Attempt.noted, hfails]; rfl

theorem Effect.of_reading {answer : Except StoreError a.operation.Answer}
    (h : a.outcome s = (answer, s)) (hnote : ∀ id l, Log.note id l a.operation = l) :
    Effect a s (a.after s) := by
  have hafter : a.after s = s := congrArg Prod.snd h
  rw [hafter]
  refine .unchanged fun x l => ?_
  rw [Attempt.noted, hnote, ite_self]

theorem of_ok {answer : a.operation.Answer} {t : Store} (h : a.outcome s = (.ok answer, t)) :
    a.after s = t ∧ ∀ id l, a.noted s id l = Log.note id l a.operation := by
  have hsucceeds : a.succeeds s = true := by
    unfold Attempt.succeeds
    rw [h]
    rfl
  refine ⟨congrArg Prod.snd h, fun id l => ?_⟩
  rw [Attempt.noted, hsucceeds, if_pos rfl]

theorem effect_load (b : Backend) (isCancelled : Bool) (name text : String) (s : Store) :
    Effect ⟨.load name text, b, isCancelled⟩ s
      (Attempt.after ⟨.load name text, b, isCancelled⟩ s) := by
  have hrun : (Call.load b isCancelled name text).run s = _ := run_load name text
  cases hread : readable b isCancelled name text with
  | error e =>
    rw [hread] at hrun
    exact .of_error hrun
  | ok found =>
    obtain ⟨id, g⟩ := found
    rw [hread] at hrun
    obtain ⟨hafter, hnoted⟩ := of_ok (a := ⟨.load name text, b, isCancelled⟩) hrun
    rw [hafter]
    exact .loaded (text_of_readable hread) (compile_of_readable hread) hnoted

theorem effect_execute (b : Backend) (isCancelled : Bool) (request : Request) (s : Store) :
    Effect ⟨.execute request, b, isCancelled⟩ s
      (Attempt.after ⟨.execute request, b, isCancelled⟩ s) := by
  have hrun : (Call.execute b isCancelled request).run s = _ := run_execute request
  cases hplan : planned s b isCancelled request with
  | error e =>
    rw [hplan] at hrun
    exact .of_error hrun
  | ok plan =>
    obtain ⟨id, r, x⟩ := plan
    rw [hplan] at hrun
    obtain ⟨hr, hx⟩ := of_planned hplan
    obtain ⟨hafter, hnoted⟩ := of_ok (a := ⟨.execute request, b, isCancelled⟩) hrun
    rw [hafter]
    exact .edited (text_of_planned hplan) hr hx hnoted

/-- **Every call has one of the effects.** -/
theorem effect (a : Attempt) (s : Store) : Effect a s (a.after s) := by
  obtain ⟨o, b, isCancelled⟩ := a
  cases o with
  | load name text => exact effect_load b isCancelled name text s
  | execute request => exact effect_execute b isCancelled request s
  | serialize id => exact .of_reading (Operation.run_reading _) fun _ _ => rfl
  | exportPicture id format theme => exact .of_reading (Operation.run_reading _) fun _ _ => rfl
  | render text format theme => exact .of_reading (Operation.run_reading _) fun _ _ => rfl
  | view id => exact .of_reading (Operation.run_reading _) fun _ _ => rfl
  | object id board objectId => exact .of_reading (Operation.run_reading _) fun _ _ => rfl
  | edge id board edgeId => exact .of_reading (Operation.run_reading _) fun _ _ => rfl
  | children id board parent => exact .of_reading (Operation.run_reading _) fun _ _ => rfl

/-! ### What runs keep -/

/-- A relation between the id of a diagram, its log and its record that loading establishes and edits
keep, with all the given backends. -/
structure Kept (admits : Backend → Prop) (p : String → Log → Record → Prop) : Prop where
  loaded : ∀ {b : Backend}, admits b → ∀ (id : DiagramId) {text : String} {g : Graph},
    (b.compile text).contain = .ok (.ok g) → p id.text ⟨text, []⟩ (.loaded text g)
  edited : ∀ {b : Backend}, admits b → ∀ {id : String} {l : Log} {r : Record} {request : Request}
    {x : Applied}, p id l r →
      Record.apply b r.graph request.board request.key request.action = .ok x →
        p id (l.add request) (r.edited b request x)

/-- Each diagram has a log exactly if it is in the store, and log and record are related. -/
def Agrees (p : String → Log → Record → Prop) (log : String → Option Log) (s : Store) : Prop :=
  ∀ id, Option.Rel (p id) (log id) (s.records.get? id)

variable {admits : Backend → Prop} {p : String → Log → Record → Prop} {log : String → Option Log}

theorem agrees_empty : Agrees p (fun _ => none) ∅ := fun _ => .none

theorem Agrees.exists_log (h : Agrees p log s) {id : String} {r : Record}
    (hr : s.records.get? id = some r) : ∃ l, log id = some l ∧ p id l r := by
  have hrel := h id
  rw [hr] at hrel
  cases hl : log id with
  | none =>
    rw [hl] at hrel
    cases hrel
  | some l =>
    rw [hl] at hrel
    cases hrel with
    | some hp => exact ⟨l, rfl, hp⟩

theorem Agrees.exists_record (h : Agrees p log s) {id : String} {l : Log} (hl : log id = some l) :
    ∃ r, s.records.get? id = some r ∧ p id l r := by
  have hrel := h id
  rw [hl] at hrel
  cases hr : s.records.get? id with
  | none =>
    rw [hr] at hrel
    cases hrel
  | some r =>
    rw [hr] at hrel
    cases hrel with
    | some hp => exact ⟨r, rfl, hp⟩

theorem Agrees.write (h : Agrees p log s) {log' : String → Option Log} {id : DiagramId} {l : Log}
    {r : Record} (hlog : log' id.text = some l) (hother : ∀ x, x ≠ id.text → log' x = log x)
    (hp : p id.text l r) : Agrees p log' (s.write id r) := by
  intro x
  by_cases hx : x = id.text
  · rw [hx, hlog, get?_write_self]
    exact .some hp
  · rw [hother x hx, get?_write_of_ne hx]
    exact h x

/-- **What loading and edits establish, a call keeps.** -/
theorem Agrees.step (hp : Kept admits p) (h : Agrees p log s) (ha : admits a.backend) :
    Agrees p (fun id => a.noted s id (log id)) (a.after s) := by
  have heffect := effect a s
  generalize a.after s = t at heffect ⊢
  cases heffect with
  | @loaded name text id g hid hcompile hnoted =>
    refine h.write ?_ (fun x hx => ?_) (hp.loaded ha id hcompile)
    · rw [hnoted, Log.note, if_pos hid.symm]
    · rw [hnoted, Log.note, if_neg fun he => hx (he.symm.trans hid.symm)]
  | @edited request id r x hid hr hx hnoted =>
    obtain ⟨l, hl, hpl⟩ := h.exists_log hr
    refine h.write ?_ (fun y hy => ?_) (hp.edited ha hpl hx)
    · rw [hnoted, Log.note, if_pos hid.symm, hl]
      rfl
    · rw [hnoted, Log.note, if_neg fun he => hy (he.symm.trans hid.symm)]
  | unchanged hnoted =>
    intro id
    show Option.Rel (p id) (a.noted s id (log id)) (s.records.get? id)
    rw [hnoted]
    exact h id

theorem Agrees.run (hp : Kept admits p) : ∀ {attempts : List Attempt} {s : Store}
    {log : String → Option Log}, (∀ a ∈ attempts, admits a.backend) → Agrees p log s →
      Agrees p (fun id => (s.run attempts).2.foldl (Log.note id) (log id)) (s.run attempts).1
  | [], _, _, _, h => h
  | a :: rest, s, log, hall, h => by
    obtain ⟨ha, hrest⟩ := List.forall_mem_cons.mp hall
    have hrun := Agrees.run hp hrest (h.step hp ha)
    unfold Store.run
    intro id
    have hfold : (if a.succeeds s then a.operation :: ((a.after s).run rest).2
        else ((a.after s).run rest).2).foldl (Log.note id) (log id) =
          ((a.after s).run rest).2.foldl (Log.note id) (a.noted s id (log id)) := by
      unfold Attempt.noted
      split_ifs <;> rfl
    dsimp only
    rw [hfold]
    exact hrun id

/-- **What loading establishes and edits keep holds after every run**, of each diagram in the store
and its log. -/
theorem agrees_of_run (hp : Kept admits p) {attempts : List Attempt}
    (hall : ∀ a ∈ attempts, admits a.backend) :
    Agrees p (fun id => logOf id (run ∅ attempts).2) (run ∅ attempts).1 :=
  Agrees.run hp hall agrees_empty

end Store

end BoxDiagram
