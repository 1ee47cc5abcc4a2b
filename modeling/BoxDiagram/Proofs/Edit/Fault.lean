import BoxDiagram.Proofs.Edit.Connection
import BoxDiagram.Proofs.Edit.Step

/-!
# Faults: the editor finds what it writes

An edit is at fault where it writes a slot whose object or edge is not there. Every edit has found or
added that element before, so it ends in a refusal if it fails at all (`faultless_act`). The readings
and the deltas write nothing, and are faultless as well.
-/

namespace BoxDiagram

open Edit

variable {α β : Type}

/-- The step is not at fault: if it fails, it is a refusal. -/
def Faultless (x : Except Rejection α) : Prop := ∀ e, x = .error e → e.isFault = false

/-! ### Steps in a row -/

theorem faultless_ok (a : α) : Faultless (.ok a) := nofun

theorem faultless_error {e : Rejection} (h : e.isFault = false) :
    Faultless (.error e : Except Rejection α) := by
  intro e' he
  rw [← Except.error.inj he]
  exact h

/-- **Steps in a row are faultless** if the first one is, and the next one is on what the first one
gives. -/
theorem Faultless.bind {x : Except Rejection α} {f : α → Except Rejection β} (hx : Faultless x)
    (hf : ∀ a, x = .ok a → Faultless (f a)) : Faultless (x >>= f) := by
  cases x with
  | error e => exact faultless_error (hx e rfl)
  | ok a => exact hf a rfl

theorem Faultless.ite {c : Prop} [Decidable c] {x y : Except Rejection α} (hx : c → Faultless x)
    (hy : ¬ c → Faultless y) : Faultless (if c then x else y) := by
  split_ifs with h
  · exact hx h
  · exact hy h

theorem faultless_mapError {ε : Type} {f : ε → Rejection} (hf : ∀ e, (f e).isFault = false)
    (x : Except ε α) : Faultless (x.mapError f) := by
  cases x with
  | error e => exact faultless_error (hf e)
  | ok a => exact faultless_ok a

/-! ### Keys, attributes and values -/

theorem faultless_parseKey (key : String) : Faultless (parseKey key) :=
  faultless_mapError (fun _ => rfl) _

theorem faultless_attributeName (path : List String) : Faultless (attributeName path) :=
  faultless_mapError (fun _ => rfl) _

theorem faultless_checkValue (name : String) (value : Option String) :
    Faultless (checkValue name value) := by
  cases value with
  | none => exact faultless_ok ()
  | some v => exact faultless_mapError (fun _ => rfl) _

theorem faultless_checkConnectionName (name : String) : Faultless (checkConnectionName name) :=
  faultless_mapError (fun _ => rfl) _

theorem faultless_connectionAttribute (tag : Option String) (attr : List String) :
    Faultless (connectionAttribute tag attr) := by
  unfold connectionAttribute
  split
  · exact faultless_attributeName _
  · exact .ite (fun _ => faultless_ok _) fun _ => faultless_attributeName _

theorem faultless_objectId (key : String) : Faultless (objectId key) := by
  refine (faultless_parseKey key).bind fun k _ => ?_
  cases k with
  | edge k => exact faultless_error rfl
  | object path attr => exact .ite (fun _ => faultless_ok _) fun _ => faultless_error rfl

theorem faultless_newName (name : String) : Faultless (newName name) := by
  refine (faultless_mapError (fun _ => rfl) _).bind fun names _ => ?_
  split
  · exact .ite (fun _ => faultless_error rfl) fun _ => faultless_ok _
  · exact faultless_error rfl

namespace Graph

variable (g : Graph) (key : String)

theorem faultless_checkBoard (board : List String) : Faultless (checkBoard board) :=
  .ite (fun _ => faultless_ok ()) fun _ => faultless_error rfl

theorem faultless_existing (path : List String) : Faultless (g.existing path) :=
  .ite (fun _ => faultless_ok _) fun _ => faultless_error rfl

theorem faultless_resolve (k : EdgeKey) : Faultless (g.resolve k) := by
  unfold resolve
  split
  · exact faultless_ok _
  · exact faultless_error rfl

/-! ### Writing -/

/-- **Writing is faultless where the element is there.** -/
theorem faultless_write {g : Graph} {slot : Slot} (h : slot.IsIn g) (value : Option String) :
    Faultless (g.write value slot) := by
  rw [write_of_isIn h]
  exact faultless_ok _

theorem faultless_setObject (path attr : List String) (value : Option String) :
    Faultless (g.setObject path attr value) := by
  refine .ite (fun _ => ?label) fun _ => ?named
  case label =>
    have hslot : (Slot.object (Dotted.join path) "label").IsIn (g.ensure (Dotted.join path)) :=
      mem_ids_ensure g _
    exact faultless_write hslot value
  case named =>
    refine (faultless_attributeName _).bind fun name _ => ?_
    refine (faultless_checkValue name value).bind fun _ _ => ?_
    refine .ite (fun _ => ?board) fun _ => (g.faultless_existing path).bind fun id hid => ?object
    case board =>
      have hslot : (Slot.board name).IsIn g := trivial
      exact faultless_write hslot value
    case object =>
      have hslot : (Slot.object id name).IsIn g := mem_ids_of_existing hid
      exact faultless_write hslot value

theorem faultless_setEdge (k : EdgeKey) (tag value : Option String) :
    Faultless (g.setEdge k tag value) := by
  refine (g.faultless_resolve k).bind fun i hi => ?_
  refine (faultless_connectionAttribute tag _).bind fun name _ => ?_
  refine (faultless_checkConnectionName name).bind fun _ _ => ?_
  refine (faultless_checkValue name value).bind fun _ _ => ?_
  exact faultless_write (isIn_of_edgeAt? (resolve_eq_ok_iff.mp hi) name) value

theorem faultless_set (tag value : Option String) : Faultless (g.set key tag value) := by
  refine (faultless_parseKey key).bind fun k _ => ?_
  cases k with
  | object path attr => exact g.faultless_setObject _ _ value
  | edge k => exact g.faultless_setEdge k tag value

/-! ### Creating and deleting -/

theorem faultless_create : Faultless (g.create key) := by
  refine (faultless_parseKey key).bind fun k _ => ?_
  cases k with
  | object path attr => exact .ite (fun _ => faultless_error rfl) fun _ => faultless_ok _
  | edge k => exact .ite (fun _ => faultless_error rfl) fun _ => faultless_ok _

theorem faultless_attributeSlot (k : Key) : Faultless (g.attributeSlot k) := by
  cases k with
  | object path attr =>
    refine (faultless_attributeName attr).bind fun name _ => .ite (fun _ => faultless_ok _) fun _ => ?_
    exact (g.faultless_existing path).bind fun _ _ => faultless_ok _
  | edge k =>
    refine (g.faultless_resolve k).bind fun i _ => ?_
    exact (faultless_attributeName _).bind fun _ _ => faultless_ok _

theorem isIn_of_attributeSlot {path attr : List String} {slot : Slot}
    (h : g.attributeSlot (.object path attr) = .ok slot) : slot.IsIn g := by
  unfold attributeSlot at h
  rw [bind_eq_ok] at h
  obtain ⟨name, -, h⟩ := h
  split_ifs at h
  · rw [← pure_eq_ok.mp h]
    trivial
  · rw [bind_eq_ok] at h
    obtain ⟨id, hid, h⟩ := h
    rw [← pure_eq_ok.mp h]
    exact mem_ids_of_existing hid

theorem faultless_delete : Faultless (g.delete key) := by
  refine (faultless_parseKey key).bind fun k _ => ?_
  split
  · exact (g.faultless_existing _).bind fun _ _ => faultless_ok _
  · exact (g.faultless_resolve _).bind fun _ _ => faultless_ok _
  · refine (g.faultless_attributeSlot _).bind fun slot hslot => ?_
    exact faultless_write (g.isIn_of_attributeSlot hslot) none
  · exact (g.faultless_attributeSlot _).bind fun _ _ => faultless_ok _

theorem faultless_deleteDeltas : Faultless (g.deleteDeltas key) := by
  refine (faultless_parseKey key).bind fun k _ => ?_
  cases k with
  | object path attr =>
    refine .ite (fun _ => faultless_ok _) fun _ => ?_
    exact (g.faultless_existing path).bind fun _ _ => faultless_ok _
  | edge k =>
    refine .ite (fun _ => faultless_ok _) fun _ => ?_
    exact (g.faultless_resolve k).bind fun _ _ => faultless_ok _

/-! ### Moving and renaming -/

theorem faultless_checkMapping (mapping : TextMap String) :
    ∀ (seen : List String) (pairs : List (String × String)),
      Faultless (g.checkMapping mapping seen pairs)
  | _, [] => faultless_ok ()
  | seen, (old, new) :: rest => by
    unfold checkMapping
    refine .ite (fun _ => faultless_error rfl) fun _ => .ite (fun _ => faultless_error rfl) fun _ => ?_
    exact faultless_checkMapping mapping _ rest

theorem faultless_move (newKey : String) (withDescendants : Bool) :
    Faultless (g.move key newKey withDescendants) := by
  refine (faultless_objectId key).bind fun old _ => .ite (fun _ => faultless_error rfl) fun _ => ?_
  refine (faultless_objectId newKey).bind fun new _ => .ite (fun _ => faultless_ok _) fun _ => ?_
  refine .ite (fun _ => faultless_error rfl) fun _ => ?_
  exact (g.faultless_checkMapping _ _ _).bind fun _ _ => faultless_ok _

theorem faultless_renameTarget (name : String) : Faultless (g.renameTarget key name) := by
  refine (faultless_parseKey key).bind fun k _ => ?_
  cases k with
  | edge k => exact faultless_error rfl
  | object path attr =>
    refine (faultless_objectId key).bind fun old _ => .ite (fun _ => faultless_error rfl) fun _ => ?_
    refine (faultless_newName name).bind fun single _ => ?_
    exact .ite (fun _ => faultless_ok _) fun _ => faultless_ok _

theorem faultless_rename (name : String) : Faultless (g.rename key name) := by
  refine (g.faultless_renameTarget key name).bind fun target _ => ?_
  exact .ite (fun _ => faultless_ok _) fun _ => faultless_ok _

theorem faultless_renameDeltas (name : String) : Faultless (g.renameDeltas key name) := by
  refine (g.faultless_renameTarget key name).bind fun target _ => ?_
  exact .ite (fun _ => faultless_ok _) fun _ => faultless_ok _

/-! ### Actions -/

/-- **No action is at fault**, whatever the graph and the key. -/
theorem faultless_act (action : Action) : Faultless (g.act key action) := by
  cases action with
  | create => exact g.faultless_create key
  | set tag value => exact (g.faultless_set key tag value).bind fun _ _ => faultless_ok _
  | delete => exact (g.faultless_delete key).bind fun _ _ => faultless_ok _
  | move newKey withDescendants =>
    exact (g.faultless_move key newKey withDescendants).bind fun _ _ => faultless_ok _
  | rename name => exact g.faultless_rename key name

theorem faultless_perform (board : List String) (action : Action) :
    Faultless (g.perform board key action) := by
  refine (faultless_checkBoard board).bind fun _ _ => ?_
  exact (g.faultless_act key action).bind fun _ _ => faultless_ok _

/-! ### Reading -/

theorem faultless_readObject (board : List String) : Faultless (g.readObject board key) :=
  (faultless_checkBoard board).bind fun _ _ => faultless_ok _

theorem faultless_readEdge (board : List String) : Faultless (g.readEdge board key) :=
  (faultless_checkBoard board).bind fun _ _ => faultless_ok _

theorem faultless_readChildren (board : List String) : Faultless (g.readChildren board key) := by
  refine (faultless_checkBoard board).bind fun _ _ => .ite (fun _ => faultless_ok _) fun _ => ?_
  exact .ite (fun _ => faultless_ok _) fun _ => faultless_ok _

end Graph

end BoxDiagram
