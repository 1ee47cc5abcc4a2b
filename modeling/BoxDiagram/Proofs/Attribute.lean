import BoxDiagram.Proofs.Name
import BoxDiagram.Proofs.Success
import BoxDiagram.TextMap
import Mathlib.Data.List.TakeWhile

/-!
# Attributes: what their names and values pass

The path that names an attribute is given by the name (`nameOf_eq_ok`): it is a path of names that
starts with a keyword and is more than `style` alone, so it can be written and is read as that
attribute again.
-/

namespace BoxDiagram

/-- A name that is no keyword. -/
structure IsObjectName (s : String) : Prop extends IsName s where
  notReserved : Attribute.isReserved s = false

instance : DecidablePred IsObjectName := fun s =>
  decidable_of_iff (IsName s ∧ Attribute.isReserved s = false)
    ⟨fun ⟨h₁, h₂⟩ => ⟨h₁, h₂⟩, fun h => ⟨h.toIsName, h.notReserved⟩⟩

/-- A path of names that are no keywords, and so the path of an object. -/
structure IsObjectPath (path : List String) : Prop where
  ne_nil : path ≠ []
  names : ∀ n ∈ path, IsObjectName n

theorem IsObjectPath.isPath {path : List String} (h : IsObjectPath path) : IsPath path :=
  ⟨h.ne_nil, fun n hn => (h.names n hn).toIsName⟩

theorem IsObjectPath.notReserved {path : List String} (h : IsObjectPath path) :
    ∀ n ∈ path, Attribute.isReserved n = false := fun n hn => (h.names n hn).notReserved

namespace Attribute

/-- The name and the value pass the checks of attributes. -/
structure IsValid (name value : String) : Prop where
  named : nameOf (Dotted.segments name) = .ok name
  checked : checkValue name value = .ok ()

/-- They pass the checks of attributes of connections. -/
structure IsValidOnConnection (name value : String) : Prop extends IsValid name value where
  carried : checkConnectionName name = .ok ()

instance (name value : String) : Decidable (IsValid name value) :=
  decidable_of_iff (nameOf (Dotted.segments name) = .ok name ∧ checkValue name value = .ok ())
    ⟨fun ⟨h₁, h₂⟩ => ⟨h₁, h₂⟩, fun h => ⟨h.named, h.checked⟩⟩

instance (name value : String) : Decidable (IsValidOnConnection name value) :=
  decidable_of_iff (IsValid name value ∧ checkConnectionName name = .ok ())
    ⟨fun ⟨h₁, h₂⟩ => ⟨h₁, h₂⟩, fun h => ⟨h.toIsValid, h.carried⟩⟩

/-! ### Names of attributes -/

theorem isName_of_reserved : ∀ k ∈ reserved, IsName k := by decide

theorem isName_of_styleProperty : ∀ p ∈ styleProperties, IsName p := by decide

/-- The paths that name attributes: a keyword other than `style`, or `style` and a property. -/
theorem nameOf_eq_ok {path : List String} {name : String} (h : nameOf path = .ok name) :
    (path = [name] ∧ name ≠ "style" ∧ isReserved name = true) ∨
      ∃ p ∈ styleProperties, path = ["style", p] ∧ name = "style." ++ p := by
  unfold nameOf at h
  split at h
  · simp at h
  · next single =>
    split_ifs at h with hstyle hres
    obtain rfl := Except.ok.inj h
    exact Or.inl ⟨rfl, hstyle, hres⟩
  · next style property =>
    split_ifs at h with hstyle hprop
    obtain rfl := Except.ok.inj h
    exact Or.inr ⟨property, List.contains_iff_mem.mp hprop, by rw [hstyle], rfl⟩
  · simp at h

/-- **The path of an attribute is given by its name.** -/
theorem eq_segments_of_nameOf {path : List String} {name : String} (h : nameOf path = .ok name) :
    path = Dotted.segments name := by
  rcases nameOf_eq_ok h with ⟨rfl, -, hk⟩ | ⟨p, hp, rfl, rfl⟩
  · have hname : IsName name := isName_of_reserved name (List.contains_iff_mem.mp hk)
    rw [Dotted.segments_of_noDot hname.noDot]
  · have hproperty : IsName p := isName_of_styleProperty p hp
    rw [show "style." ++ p = "style" ++ "." ++ p from rfl, Dotted.segments_append_dot,
      Dotted.segments_of_noDot hproperty.noDot]
    rfl

theorem isPath_of_nameOf {path : List String} {name : String} (h : nameOf path = .ok name) :
    IsPath path := by
  rcases nameOf_eq_ok h with ⟨rfl, -, hk⟩ | ⟨p, hp, rfl, -⟩
  · exact isPath_singleton (isName_of_reserved name (List.contains_iff_mem.mp hk))
  · have hstyle : IsName "style" := isName_of_reserved _ (by decide)
    have hproperty : IsName p := isName_of_styleProperty p hp
    exact ⟨by simp, by simpa using ⟨hstyle, hproperty⟩⟩

theorem splitReserved_of_nameOf {path : List String} {name : String} (h : nameOf path = .ok name) :
    splitReserved path = ([], path) := by
  rcases nameOf_eq_ok h with ⟨rfl, -, hk⟩ | ⟨p, -, rfl, -⟩
  · simp [splitReserved, hk]
  · simp [splitReserved, show isReserved "style" = true by decide]

theorem isValid_of_nameOf {path : List String} {name value : String} (h : nameOf path = .ok name)
    (hv : checkValue name value = .ok ()) : IsValid name value :=
  ⟨eq_segments_of_nameOf h ▸ h, hv⟩

theorem isValidOnConnection_label (value : String) : IsValidOnConnection "label" value where
  named := by decide
  checked := by simp [checkValue, naturalNames, booleanNames]
  carried := by decide

theorem IsValid.ne_flag {name value : String} (h : IsValid name value) :
    name ≠ "src_arrow" ∧ name ≠ "dst_arrow" := by
  constructor <;> rintro rfl <;> exact absurd h.named (by decide)

theorem splitReserved_of_notReserved {path : List String}
    (h : ∀ s ∈ path, isReserved s = false) : splitReserved path = (path, []) := by
  unfold splitReserved
  rw [List.takeWhile_eq_self_iff.mpr (by simpa using h),
    List.dropWhile_eq_nil_iff.mpr (by simpa using h)]

theorem splitReserved_append_of_notReserved {path : List String}
    (h : ∀ s ∈ path, isReserved s = false) (rest : List String) : splitReserved (path ++ rest) =
      (path ++ (splitReserved rest).1, (splitReserved rest).2) := by
  unfold splitReserved
  rw [List.takeWhile_append_of_pos (by simpa using h),
    List.dropWhile_append_of_pos (by simpa using h)]

theorem notReserved_of_splitReserved {path : List String} :
    ∀ s ∈ (splitReserved path).1, isReserved s = false := by
  intro s hs
  have hb := List.all_eq_true.mp List.all_takeWhile s hs
  simpa using hb

end Attribute

/-- All attributes pass the checks. -/
def Attributes.Valid (m : Attributes) : Prop := ∀ e ∈ m.entries, Attribute.IsValid e.1 e.2

instance : DecidablePred Attributes.Valid := fun m =>
  inferInstanceAs (Decidable (∀ e ∈ m.entries, Attribute.IsValid e.1 e.2))

/-- All attributes pass the checks of connections. -/
def Attributes.ValidOnConnection (m : Attributes) : Prop :=
  ∀ e ∈ m.entries, Attribute.IsValidOnConnection e.1 e.2

instance : DecidablePred Attributes.ValidOnConnection := fun m =>
  inferInstanceAs (Decidable (∀ e ∈ m.entries, Attribute.IsValidOnConnection e.1 e.2))

end BoxDiagram
