/-!
# Text maps: finite maps from texts, in code point order

The entries are kept with increasing keys, so two maps with the same entries are equal, and every
listing of a map comes out in one order. Attributes of boxes and arrows, the changes an edit
reports, and the diagrams of a store are such maps.
-/

namespace BoxDiagram

/-- A finite map whose keys are texts. -/
structure TextMap (α : Type) where
  entries : List (String × α)
  sorted : entries.Pairwise fun a b => a.1 < b.1

namespace TextMap

variable {α β : Type}

instance [Repr α] : Repr (TextMap α) where
  reprPrec m n := reprPrec m.entries n

theorem ext {m n : TextMap α} (h : m.entries = n.entries) : m = n := by
  cases m; cases n; cases h; rfl

instance [DecidableEq α] : DecidableEq (TextMap α) := fun m n =>
  decidable_of_iff (m.entries = n.entries) ⟨ext, fun h => h ▸ rfl⟩

def empty : TextMap α := ⟨[], .nil⟩

instance : EmptyCollection (TextMap α) := ⟨empty⟩

instance : Inhabited (TextMap α) := ⟨empty⟩

def isEmpty (m : TextMap α) : Bool := m.entries.isEmpty

def keys (m : TextMap α) : List String := m.entries.map (·.1)

/-- The value at a key. -/
def get? (m : TextMap α) (k : String) : Option α := m.entries.lookup k

/-- The key is in the map. -/
def contains (m : TextMap α) (k : String) : Bool := (m.get? k).isSome

/-! ### Writing -/

/-- Puts a value at its place among increasing keys. -/
def put (k : String) (v : α) : List (String × α) → List (String × α)
  | [] => [(k, v)]
  | e :: rest =>
    if e.1 = k then (k, v) :: rest
    else if e.1 < k then e :: put k v rest
    else (k, v) :: e :: rest

theorem mem_put {k : String} {v : α} {e : String × α} {es : List (String × α)}
    (h : e ∈ put k v es) : e = (k, v) ∨ e ∈ es := by
  induction es with
  | nil => simpa [put] using h
  | cons d rest ih =>
    simp only [put] at h
    split at h
    · rcases List.mem_cons.1 h with h | h <;> simp [h]
    · split at h
      · rcases List.mem_cons.1 h with h | h
        · simp [h]
        · rcases ih h with h | h <;> simp [h]
      · simpa using h

theorem put_sorted {k : String} {v : α} {es : List (String × α)}
    (h : es.Pairwise fun a b => a.1 < b.1) : (put k v es).Pairwise fun a b => a.1 < b.1 := by
  induction es with
  | nil => simp [put]
  | cons d rest ih =>
    obtain ⟨hd, hrest⟩ := List.pairwise_cons.1 h
    simp only [put]
    split
    · next he => exact List.pairwise_cons.2 ⟨fun b hb => he ▸ hd b hb, hrest⟩
    · next he =>
      split
      · next hlt =>
        refine List.pairwise_cons.2 ⟨fun b hb => ?_, ih hrest⟩
        rcases mem_put hb with rfl | hb
        · exact hlt
        · exact hd b hb
      · next hlt =>
        have hkd : k < d.1 := Std.lt_of_le_of_ne (Std.not_lt.1 hlt) (Ne.symm he)
        refine List.pairwise_cons.2 ⟨fun b hb => ?_, h⟩
        rcases List.mem_cons.1 hb with rfl | hb
        · exact hkd
        · exact String.lt_trans hkd (hd b hb)

/-- The map with the value at the key. -/
def insert (m : TextMap α) (k : String) (v : α) : TextMap α :=
  ⟨put k v m.entries, put_sorted m.sorted⟩

def erase (m : TextMap α) (k : String) : TextMap α :=
  ⟨m.entries.filter (·.1 ≠ k), m.sorted.filter _⟩

/-- Writes a value, or erases the key if there is none. -/
def assign (m : TextMap α) (k : String) : Option α → TextMap α
  | some v => m.insert k v
  | none => m.erase k

/-- The map of a list of entries; a later entry wins. -/
def ofList (es : List (String × α)) : TextMap α := es.foldl (fun m e => m.insert e.1 e.2) ∅

/-! ### Reading what was written -/

theorem lookup_put_self (k : String) (v : α) (es : List (String × α)) :
    (put k v es).lookup k = some v := by
  induction es with
  | nil => simp [put]
  | cons d rest ih =>
    simp only [put]
    split
    · simp
    · next he =>
      split
      · rw [List.lookup_cons, beq_false_of_ne (Ne.symm he)]; exact ih
      · simp

theorem lookup_put_of_ne {k k' : String} (v : α) (es : List (String × α)) (h : k' ≠ k) :
    (put k v es).lookup k' = es.lookup k' := by
  induction es with
  | nil => simp [put, List.lookup_cons, beq_false_of_ne h]
  | cons d rest ih =>
    simp only [put]
    split
    · next he => rw [List.lookup_cons, List.lookup_cons, beq_false_of_ne h, he, beq_false_of_ne h]
    · split
      · rw [List.lookup_cons, List.lookup_cons, ih]
      · rw [List.lookup_cons, beq_false_of_ne h]

@[simp] theorem get?_empty (k : String) : (∅ : TextMap α).get? k = none := rfl

@[simp] theorem get?_insert_self (m : TextMap α) (k : String) (v : α) :
    (m.insert k v).get? k = some v := lookup_put_self k v m.entries

theorem get?_insert_of_ne (m : TextMap α) {k k' : String} (v : α) (h : k' ≠ k) :
    (m.insert k v).get? k' = m.get? k' := lookup_put_of_ne v m.entries h

end TextMap

/-- Attributes: names with their values. -/
abbrev Attributes := TextMap String

end BoxDiagram
