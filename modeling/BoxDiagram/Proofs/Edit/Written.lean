import BoxDiagram.Proofs.Edit.Created
import BoxDiagram.Proofs.Statement.Joined
import BoxDiagram.Proofs.Statement.KeyHead

/-!
# Editing and writing: an edit does what a line at the end of the text does

A line at the end of a text runs the commands of its statement on the graph of the text
(`compile_joined`). The key of an edit is the head of such a statement, and the statement comes down
to one command. So creating an object or a connection gives what the text with the key on a line of
its own describes, and setting a label or an attribute gives what the text with the key, a colon and
the written value describes (`edits_as_lines`).
-/

namespace BoxDiagram

open Text

namespace Graph

open Edit

variable {g h k : Graph} {text key : String}

/-- **The graphs hold the same**: the objects in one order and with the same attributes, the same
edges and the same board. The statements they are printed from may differ. -/
structure Alike (g h : Graph) : Prop where
  objects : g.objects = h.objects
  edges : g.edges = h.edges
  board : g.board = h.board

/-! ### Lines at the end of a text -/

theorem foldl_ensure_withStatements (ids : List String) (g : Graph)
    (statements : Option (List Statement)) : ids.foldl ensure (g.withStatements statements) =
      (ids.foldl ensure g).withStatements statements := by
  induction ids generalizing g with
  | nil => rfl
  | cons id ids ih => exact ih (g.ensure id)

theorem run_withStatements (g : Graph) (statements : Option (List Statement)) (c : Command) :
    (g.withStatements statements).run c = (g.run c).withStatements statements := by
  cases c with
  | declare id label => cases label <;> rfl
  | assign target name value => cases target <;> rfl
  | connect ids arrows label settings =>
    simp only [run, foldl_ensure_withStatements]
    rfl

/-- **A line at the end of a text** runs the command of its statement on the graph of the text. -/
theorem compile_joined {line : String} {s : Statement} {c : Command} (hg : compile text = .ok g)
    (hl : Spells [line] [s]) (hs : Statement.commands none s = .ok [c]) :
    ∃ l, compile (text ++ "\n" ++ line) = .ok l ∧ (g.run c).Alike l := by
  obtain ⟨ss, hparse, hlower⟩ := compile_eq_ok_iff.mp hg
  obtain ⟨cs, hcs, rfl⟩ := lower_eq_ok_iff.mp hlower
  have hall : Statement.commandsAll none (ss ++ [s]) = .ok (cs ++ [c]) := by
    refine Statement.commandsAll_append hcs ?_
    simp [Statement.commandsAll, hs]
  refine ⟨_, compile_eq_ok_iff.mpr ⟨_, Statement.parse_joined hparse hl, lower_eq_ok_iff.mpr
    ⟨_, hall, rfl⟩⟩, ?_⟩
  rw [List.foldl_append, List.foldl_cons, List.foldl_nil, run_withStatements]
  exact ⟨rfl, rfl, rfl⟩

/-! ### Edits as commands -/

theorem create_of_free {path : List String} (hkey : Key.parse key = .ok (.object path []))
    (hfree : Dotted.join path ∉ g.ids) :
    g.create key = .ok (g.ensure (Dotted.join path), Dotted.join path) := by
  have hne : path ≠ [] := (Key.isObjectPath_of_parse hkey).ne_nil
  rw [create_of_parse_object hkey, if_neg (by simp [hne]), freePath_of_free hne hfree]

theorem run_connect (g : Graph) (source target : String) (a : Arrow) :
    g.run (.connect [source, target] [a] none []) =
      ((g.ensure source).ensure target).addEdge (.blank source a target) := rfl

theorem set_of_parse_object {path attr : List String} (hkey : Key.parse key = .ok (.object path attr))
    (tag value : Option String) : g.set key tag value =
      g.setObject (applyTag tag path attr).1 (applyTag tag path attr).2 value := by
  unfold set parseKey
  rw [hkey]
  rfl

/-- **Setting runs one command**: it declares the object with a label, or writes an attribute of an
object that is there or of the board. -/
theorem run_of_setObject {path attr : List String} {value : String}
    (hset : g.setObject path attr (some value) = .ok k) :
    (attr = [] ∧ k = g.run (.declare (Dotted.join path) (some value))) ∨
      ∃ name, Attribute.nameOf attr = .ok name ∧ Attribute.checkValue name value = .ok () ∧
        k = g.run (.assign (if path = [] then none else some (Dotted.join path)) name value) := by
  unfold setObject attributeName checkValue at hset
  by_cases hattr : attr = []
  · rw [if_pos hattr] at hset
    exact Or.inl ⟨hattr, (eq_of_write hset).symm⟩
  · rw [if_neg hattr] at hset
    simp only [bind_eq_ok, mapError_eq_ok] at hset
    obtain ⟨name, hname, ⟨⟩, hcheck, hset⟩ := hset
    refine Or.inr ⟨name, hname, hcheck, ?_⟩
    split_ifs at hset with hpath
    · rw [if_pos hpath]
      exact (eq_of_write hset).symm
    · rw [bind_eq_ok] at hset
      obtain ⟨id, hid, hset⟩ := hset
      have hmem : id ∈ g.ids := mem_ids_of_existing hid
      obtain rfl : Dotted.join path = id := by
        unfold existing at hid
        dsimp only at hid
        split_ifs at hid
        exact Except.ok.inj hid
      rw [if_neg hpath, run, ensure_of_mem hmem]
      exact (eq_of_write hset).symm

/-! ### Editing and writing -/

/-- **Editing and writing are the same.** Creating an object that is not there, or a connection with a
key on one line and without an index, gives what the text with the key on a further line describes;
setting an object, the board or an attribute of them to a value gives what the text with the key, a
colon and the written value on a further line describes. These texts all describe a graph. -/
theorem edits_as_lines (hg : compile text = .ok g) :
    (∀ key path, Key.parse key = .ok (.object path []) → Dotted.join path ∉ g.ids →
      ∃ h created l, g.create key = .ok (h, created) ∧
        compile (text ++ "\n" ++ trimmed key) = .ok l ∧ h.Alike l) ∧
    (∀ key e h created, Key.parse key = .ok (.edge e) → e.index = none → '\n' ∉ key.toList →
      g.create key = .ok (h, created) →
        ∃ l, compile (text ++ "\n" ++ trimmed key) = .ok l ∧ h.Alike l) ∧
    ∀ key path attr value h, Key.parse key = .ok (.object path attr) →
      g.set key none (some value) = .ok h →
        ∃ l, compile (text ++ "\n" ++ (trimmed key ++ ": " ++ Value.quote value)) = .ok l ∧
          h.Alike l := by
  refine ⟨?object, ?connection, ?value⟩
  case object =>
    intro key path hkey hfree
    have hpath : IsObjectPath path := Key.isObjectPath_of_parse hkey
    have hbody := (Key.isHead_of_parse_object hkey).isBody
    rw [List.append_nil] at hbody
    obtain ⟨l, hl, halike⟩ := compile_joined hg hbody.spells (Statement.commands_declare hpath none)
    exact ⟨_, _, l, create_of_free hkey hfree, hl, halike⟩
  case connection =>
    intro key e h created hkey hindex hline hcreate
    obtain ⟨-, rfl, -⟩ := of_create_edge hkey hcreate
    obtain ⟨hs, ht⟩ := Key.isObjectPath_of_parse_edge hkey
    have hbody := (Key.isHead_of_parse_edge hkey hindex hline).isBody
    have hsettings : Statement.connectionSettingsBlock [] none = .ok [] := by
      rw [Statement.connectionSettingsBlock]
    rw [← run_connect]
    exact compile_joined hg hbody.spells (Statement.commands_connect hs ht e.arrow none hsettings)
  case value =>
    intro key path attr value h hkey hset
    have hbody := (Key.isHead_of_parse_object hkey).isBody_quote value
    have hline : (trimmed key ++ ": " ++ Value.quote value).toList =
        (trimmed key).toList ++ ':' :: ' ' :: (Value.quote value).toList := by simp
    rw [← hline] at hbody
    rw [set_of_parse_object hkey] at hset
    rcases run_of_setObject hset with ⟨rfl, rfl⟩ | ⟨name, hname, hcheck, rfl⟩
    · have hpath : IsObjectPath path := Key.isObjectPath_of_parse hkey
      rw [List.append_nil] at hbody
      exact compile_joined hg hbody.spells (Statement.commands_declare hpath (some value))
    · obtain ⟨-, -, hsplit⟩ := Key.readPath_of_parse hkey
      exact compile_joined hg hbody.spells (Statement.commands_setting hsplit hname hcheck)

/-- The graph of a text with one object and its label. -/
def sketch : Graph where
  objects := [(Object.blank "a").assign "label" (some "1")]
  edges := []
  board := ∅
  statements := some [⟨.declaration ["a"], some "1", none⟩]

/-- An object below a new parent, a connection with a tab and a carriage return around its arrow, and
a label with punctuation. -/
theorem edits_as_lines_sketch : compile "a: 1" = .ok sketch ∧
    (∃ h l, sketch.create " b . c" = .ok (h, "b.c") ∧ compile "a: 1\nb . c" = .ok l ∧ h.Alike l) ∧
    (∃ h l, sketch.create "a\r<-\tb " = .ok (h, "(a <- b)[0]") ∧
      compile "a: 1\na\r<-\tb" = .ok l ∧ h.Alike l) ∧
    ∃ h l, sketch.set "a . label" none (some "; \x7d") = .ok h ∧
      compile "a: 1\na . label: \"; \x7d\"" = .ok l ∧ h.Alike l := by
  have hobject : Key.parse " b . c" = .ok (.object ["b", "c"] []) := by decide +kernel
  have hedge : Key.parse "a\r<-\tb " = .ok (.edge ⟨["a"], ["b"], .backward, none, []⟩) := by
    decide +kernel
  have hlabel : Key.parse "a . label" = .ok (.object ["a"] ["label"]) := by decide +kernel
  have hg : compile "a: 1" = .ok sketch := by decide +kernel
  obtain ⟨hobjects, hedges, hvalues⟩ := edits_as_lines hg
  refine ⟨hg, ?object, ?connection, ?value⟩
  case object =>
    obtain ⟨h, created, l, hcreate, hl, halike⟩ := hobjects _ _ hobject (by decide +kernel)
    have hcreated : sketch.create " b . c" = .ok (sketch.ensure "b.c", "b.c") := by decide +kernel
    obtain ⟨rfl, rfl⟩ := Prod.mk.inj (Except.ok.inj (hcreate.symm.trans hcreated))
    exact ⟨_, l, hcreated, hl, halike⟩
  case connection =>
    have hcreated : sketch.create "a\r<-\tb " = .ok (((sketch.ensure "a").ensure "b").addEdge
      (.blank "a" .backward "b"), "(a <- b)[0]") := by decide +kernel
    obtain ⟨l, hl, halike⟩ := hedges _ _ _ _ hedge rfl (by decide) hcreated
    exact ⟨_, l, hcreated, hl, halike⟩
  case value =>
    have hset : sketch.set "a . label" none (some "; \x7d") =
      .ok (sketch.assignObject "a" "label" (some "; \x7d")) := by decide +kernel
    obtain ⟨l, hl, halike⟩ := hvalues _ _ _ _ _ hlabel hset
    exact ⟨_, l, hset, hl, halike⟩

end Graph

end BoxDiagram
