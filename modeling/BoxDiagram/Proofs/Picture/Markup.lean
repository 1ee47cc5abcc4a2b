import BoxDiagram.Picture.Element
import BoxDiagram.Proofs.TextMap
import Mathlib.Tactic.SplitIfs

/-!
# Markup: reading what a writer has written

A reader of markup goes through a text character by character. It is in a text, in the name of a tag,
between the attributes of a tag, or in a value between quotes, and finds the characters of the texts
and the tags with their attributes (`read`). Of a writer it is known how it writes nodes, and that it
escapes what would open a tag or end a value (`Writer.Lawful`, `Writer.EscapesQuotes`). What a lawful
writer writes is read as it is meant exactly if no value, as it is written, holds a quote
(`Writer.Lawful.read_write_iff`), and that is so if quotes are escaped
(`Writer.EscapesQuotes.unquoted_value`).
-/

namespace BoxDiagram

/-! ### Reading -/

namespace Markup

inductive TagKind where
  | opening
  | closing
  | empty
  deriving DecidableEq, Repr

/-- A tag as it is read, with the values of its attributes as they are written. -/
structure Tag where
  kind : TagKind
  name : String
  attributes : List (String × String)
  deriving DecidableEq, Repr

/-- What a reader finds: a character of a text, or a tag. -/
inductive Item where
  | char (c : Char)
  | tag (t : Tag)
  deriving DecidableEq, Repr

/-- Where a reader is, with what it has read of a tag so far. -/
inductive Place where
  | text
  | name (kind : TagKind) (read : List Char)
  | key (t : Tag) (read : List Char)
  | value (t : Tag) (key : String) (read : List Char)
  deriving Repr

/-- Where the reader is after a character in a tag, behind the name and outside values. -/
def Place.inTag (t : Tag) (read : List Char) (c : Char) : Place :=
  if c = '>' then text
  else if c = '/' then key { t with kind := .empty } read
  else if c = '"' then value t (String.ofList read) []
  else if c = ' ' ∨ c = '=' then key t read
  else key t (read ++ [c])

/-- Where the reader is after a character. A slash in front of a name makes a tag a closing one, and
one behind the name an empty one. -/
def Place.next : Place → Char → Place
  | text, c => if c = '<' then name .opening [] else text
  | name kind read, c =>
    if c = '/' ∧ read = [] then name .closing []
    else if c = ' ' ∨ c = '/' ∨ c = '>' then inTag ⟨kind, String.ofList read, []⟩ [] c
    else name kind (read ++ [c])
  | key t read, c => inTag t read c
  | value t k read, c =>
    if c = '"' then key { t with attributes := t.attributes ++ [(k, String.ofList read)] } []
    else value t k (read ++ [c])

/-- What the reader finds at a character. -/
def Place.found : Place → Char → List Item
  | text, c => if c = '<' then [] else [.char c]
  | name kind read, c => if c = '>' then [.tag ⟨kind, String.ofList read, []⟩] else []
  | key t _, c => if c = '>' then [.tag t] else []
  | value _ _ _, _ => []

def readFrom : Place → List Char → List Item
  | _, [] => []
  | p, c :: cs => p.found c ++ readFrom (p.next c) cs

/-- The items of a text of markup. -/
def read (s : String) : List Item := readFrom .text s.toList

/-- A tag without the values of its attributes. -/
def Tag.outline (t : Tag) : TagKind × String × List String :=
  (t.kind, t.name, t.attributes.map Prod.fst)

/-- **The structure of markup**: the tags with the names of their attributes, without the texts and
values. -/
def outlines (ps : List Item) : List (TagKind × String × List String) :=
  ps.filterMap fun
    | .char _ => none
    | .tag t => some t.outline

/-- The class and the id of each group, in the order in which they open. -/
def groups (ps : List Item) : List (Option String × Option String) :=
  ps.filterMap fun
    | .char _ => none
    | .tag t =>
      if t.name = "g" ∧ t.kind ≠ .closing then
        some (t.attributes.lookup "class", t.attributes.lookup "data-id")
      else none

end Markup

/-- A name of elements and attributes. -/
def IsTagName (n : String) : Prop := n ≠ "" ∧ ∀ c ∈ n.toList, c ∉ [' ', '/', '=', '>', '"']

instance : DecidablePred IsTagName := fun n =>
  @instDecidableAnd (n ≠ "") _ inferInstance (List.decidableBAll _ n.toList)

/-- A text that holds no quote. -/
def Unquoted (s : String) : Prop := '"' ∉ s.toList

instance : DecidablePred Unquoted := fun s => inferInstanceAs (Decidable ('"' ∉ s.toList))

/-! ### Writers -/

/-- A reference to a character: a name or a number, between `&` and `;`. -/
def IsReference (cs : List Char) : Prop :=
  ∃ name : List Char, (∀ c ∈ name, c.isAlphanum = true ∨ c = '#') ∧ cs = '&' :: (name ++ [';'])

/-- **Texts are escaped** character by character. The marks become references, letters and digits stay
as they are, and any other character does one or the other. -/
def Escapes (written : String → String) (marks : List Char) : Prop :=
  ∃ char : Char → List Char, (∀ s, (written s).toList = s.toList.flatMap char) ∧
    ∀ c, IsReference (char c) ∧ c.isAlphanum = false ∨ char c = [c] ∧ c ∉ marks

namespace Writer

variable (w : Writer)

/-- Attributes with their values as they are written. -/
def written (m : Attributes) : List (String × String) := m.entries.map fun (k, v) => (k, w.value v)

/-- The written form of an attribute, with a blank in front of it. -/
def binding (a : String × String) : String := " " ++ a.1 ++ "=\"" ++ a.2 ++ "\""

/-- The written form of an element up to the end of its attributes. -/
def opener (name : String) (m : Attributes) : String :=
  "<" ++ name ++ String.join ((w.written m).map binding)

/-- **What is known of a writer.** An element is written as one tag if it is empty, or else as two with
its children between them, each on a line of its own. The attributes of an element come in the order of
their names, with their values between double quotes. In values and in texts `&`, `<` and `>` are
escaped. -/
structure Lawful : Prop where
  names : ∀ a ∈ w.documentAttributes, IsTagName a.1
  value : Escapes w.value ['&', '<', '>']
  content : Escapes w.content ['&', '<', '>']
  text : ∀ s, w.write (.text s) = w.content s
  empty : ∀ name m, w.write (.tag name m []) = w.opener name m ++ "/>"
  tag : ∀ name m e es, w.write (.tag name m (e :: es)) =
    w.opener name m ++ ">" ++ String.join ((e :: es).map fun e => "\n" ++ w.write e) ++
      "\n</" ++ name ++ ">"

/-- Double quotes are escaped in values. -/
def EscapesQuotes : Prop := Escapes w.value ['"']

end Writer

theorem IsReference.not_mem {cs : List Char} (h : IsReference cs) {c : Char}
    (hc : c.isAlphanum = false) (hmarks : c ∉ ['&', '#', ';']) : c ∉ cs := by
  obtain ⟨name, hname, rfl⟩ := h
  simp only [List.mem_cons, List.not_mem_nil, or_false, not_or] at hmarks
  obtain ⟨hopens, hnumber, hcloses⟩ := hmarks
  have hinside : c ∉ name := fun hmem => by
    rcases hname c hmem with h | h
    · rw [hc] at h
      cases h
    · exact hnumber h
  simp [hopens, hcloses, hinside]

/-- What is escaped does not occur in the written form. -/
theorem Escapes.not_mem {written : String → String} {marks : List Char} (h : Escapes written marks)
    {c : Char} (hmem : c ∈ marks) (hc : c.isAlphanum = false) (hmarks : c ∉ ['&', '#', ';'])
    (s : String) : c ∉ (written s).toList := by
  obtain ⟨char, hwritten, hchar⟩ := h
  rw [hwritten, List.mem_flatMap]
  rintro ⟨d, -, hd⟩
  rcases hchar d with ⟨hreference, -⟩ | ⟨hself, hnot⟩
  · exact hreference.not_mem hc hmarks hd
  · rw [hself, List.mem_singleton] at hd
    exact hnot (hd ▸ hmem)

theorem Escapes.eq_self {written : String → String} {marks : List Char} (h : Escapes written marks)
    {s : String} (hs : s.toList.all Char.isAlphanum = true) : written s = s := by
  obtain ⟨char, hwritten, hchar⟩ := h
  have hself : ∀ c ∈ s.toList, char c = [c] := fun c hc => by
    rcases hchar c with ⟨-, hnot⟩ | ⟨hself, -⟩
    · rw [List.all_eq_true.mp hs c hc] at hnot
      cases hnot
    · exact hself
  rw [← String.toList_inj, hwritten, List.flatMap_congr hself]
  simp

theorem Writer.EscapesQuotes.unquoted_value {w : Writer} (h : w.EscapesQuotes) (s : String) :
    Unquoted (w.value s) :=
  h.not_mem (by simp) (by decide) (by decide) s

/-! ### Names and attributes -/

namespace Element

mutual

/-- The attributes of an element and of those inside it. -/
def allAttributes : Element → List (String × String)
  | .text _ => []
  | .tag _ attributes children => attributes.entries ++ allAttributesAll children

def allAttributesAll : List Element → List (String × String)
  | [] => []
  | e :: rest => allAttributes e ++ allAttributesAll rest

end

mutual

/-- The names of an element, of its attributes, and of those inside it. -/
def names : Element → List String
  | .text _ => []
  | .tag name attributes children => name :: attributes.keys ++ namesAll children

def namesAll : List Element → List String
  | [] => []
  | e :: rest => names e ++ namesAll rest

end

/-- All names can stand in tags. -/
def TagNamed (e : Element) : Prop := ∀ n ∈ e.names, IsTagName n

theorem allAttributesAll_eq (es : List Element) : allAttributesAll es = es.flatMap allAttributes := by
  induction es with
  | nil => rw [allAttributesAll, List.flatMap_nil]
  | cons e es ih => rw [allAttributesAll, List.flatMap_cons, ih]

theorem namesAll_eq (es : List Element) : namesAll es = es.flatMap names := by
  induction es with
  | nil => rw [namesAll, List.flatMap_nil]
  | cons e es ih => rw [namesAll, List.flatMap_cons, ih]

theorem tagNamed_text (content : String) : (Element.text content).TagNamed := by
  simp [TagNamed, names]

theorem tagNamed_tag {name : String} {attributes : Attributes} {children : List Element} :
    (tag name attributes children).TagNamed ↔
      IsTagName name ∧ (∀ n ∈ attributes.keys, IsTagName n) ∧ ∀ e ∈ children, e.TagNamed := by
  simp only [TagNamed, names, namesAll_eq, List.cons_append, List.forall_mem_cons,
    List.forall_mem_append, List.forall_mem_flatMap]

/-! ### Items as they are meant -/

open Markup

variable (w : Writer)

mutual

/-- The items of a node as it is meant: each value is in its own attribute, and each text between the
tags of its element. -/
def items : Element → List Item
  | .text s => (w.content s).toList.map .char
  | .tag name m children =>
    if children.isEmpty then [.tag ⟨.empty, name, w.written m⟩]
    else .tag ⟨.opening, name, w.written m⟩ :: (itemsAll children ++
      [.char '\n', .tag ⟨.closing, name, []⟩])

def itemsAll : List Element → List Item
  | [] => []
  | e :: rest => .char '\n' :: (items e ++ itemsAll rest)

end

end Element

/-! ### Reading the parts -/

namespace Markup

variable {t : Tag} {kind : TagKind} {cs rest : List Char}

theorem readFrom_text (h : '<' ∉ cs) :
    readFrom .text (cs ++ rest) = cs.map .char ++ readFrom .text rest := by
  induction cs with
  | nil => rfl
  | cons c cs ih =>
    obtain ⟨hc, hcs⟩ := not_or.mp (mt List.mem_cons.mpr h)
    have hne : c ≠ '<' := fun he => hc he.symm
    rw [List.cons_append, readFrom, Place.found, Place.next, if_neg hne, if_neg hne, ih hcs]
    rfl

theorem readFrom_name {n : List Char} (h : ∀ c ∈ cs, c ∉ [' ', '/', '=', '>', '"']) :
    readFrom (.name kind n) (cs ++ rest) = readFrom (.name kind (n ++ cs)) rest := by
  induction cs generalizing n with
  | nil => rw [List.nil_append, List.append_nil]
  | cons c cs ih =>
    obtain ⟨hc, hcs⟩ := List.forall_mem_cons.mp h
    simp only [List.mem_cons, List.not_mem_nil, or_false, not_or] at hc
    obtain ⟨hblank, hslash, -, hend, -⟩ := hc
    rw [List.cons_append, readFrom, Place.found, Place.next, if_neg hend, if_neg (by simp [hslash]),
      if_neg (by simp [hblank, hslash, hend]), ih hcs, List.append_assoc]
    rfl

theorem readFrom_name_end {n : List Char} (hn : n ≠ []) {c : Char} (hc : c = ' ' ∨ c = '/' ∨ c = '>') :
    readFrom (.name kind n) (c :: rest) =
      readFrom (.key ⟨kind, String.ofList n, []⟩ []) (c :: rest) := by
  rw [readFrom, readFrom, Place.next, Place.next, if_neg (by simp [hn]), if_pos hc]
  rfl

theorem readFrom_key {k : List Char} (h : ∀ c ∈ cs, c ∉ [' ', '/', '=', '>', '"']) :
    readFrom (.key t k) (cs ++ rest) = readFrom (.key t (k ++ cs)) rest := by
  induction cs generalizing k with
  | nil => rw [List.nil_append, List.append_nil]
  | cons c cs ih =>
    obtain ⟨hc, hcs⟩ := List.forall_mem_cons.mp h
    simp only [List.mem_cons, List.not_mem_nil, or_false, not_or] at hc
    obtain ⟨hblank, hslash, hequals, hend, hquote⟩ := hc
    rw [List.cons_append, readFrom, Place.found, Place.next, Place.inTag, if_neg hend, if_neg hend,
      if_neg hslash, if_neg hquote, if_neg (by simp [hblank, hequals]), ih hcs, List.append_assoc]
    rfl

theorem readFrom_value {k : String} {v : List Char} (h : '"' ∉ cs) :
    readFrom (.value t k v) (cs ++ '"' :: rest) =
      readFrom (.key { t with attributes := t.attributes ++ [(k, String.ofList (v ++ cs))] } [])
        rest := by
  induction cs generalizing v with
  | nil => rw [List.append_nil]; rfl
  | cons c cs ih =>
    obtain ⟨hc, hcs⟩ := not_or.mp (mt List.mem_cons.mpr h)
    have hne : c ≠ '"' := fun he => hc he.symm
    rw [List.cons_append, readFrom, Place.found, Place.next, if_neg hne, ih hcs, List.append_assoc]
    rfl

theorem readFrom_attribute {a : String × String} (hname : IsTagName a.1) (hvalue : Unquoted a.2) :
    readFrom (.key t []) ((Writer.binding a).toList ++ rest) =
      readFrom (.key { t with attributes := t.attributes ++ [a] } []) rest := by
  have hwritten : (Writer.binding a).toList ++ rest =
      ' ' :: (a.1.toList ++ '=' :: '"' :: (a.2.toList ++ '"' :: rest)) := by
    simp [Writer.binding]
  calc readFrom (.key t []) ((Writer.binding a).toList ++ rest)
      = readFrom (.key t []) (a.1.toList ++ '=' :: '"' :: (a.2.toList ++ '"' :: rest)) := by
        rw [hwritten]; rfl
    _ = readFrom (.key t a.1.toList) ('=' :: '"' :: (a.2.toList ++ '"' :: rest)) :=
        readFrom_key hname.2
    _ = readFrom (.value t (String.ofList a.1.toList) []) (a.2.toList ++ '"' :: rest) := rfl
    _ = readFrom (.key { t with attributes := t.attributes ++ [a] } []) rest := by
        rw [readFrom_value hvalue, List.nil_append, String.ofList_toList, String.ofList_toList]

theorem readFrom_attributes {as : List (String × String)} (hnames : ∀ a ∈ as, IsTagName a.1)
    (hvalues : ∀ a ∈ as, Unquoted a.2) :
    readFrom (.key t []) ((String.join (as.map Writer.binding)).toList ++ rest) =
      readFrom (.key { t with attributes := t.attributes ++ as } []) rest := by
  induction as generalizing t with
  | nil => simp
  | cons a as ih =>
    obtain ⟨hname, hnames⟩ := List.forall_mem_cons.mp hnames
    obtain ⟨hvalue, hvalues⟩ := List.forall_mem_cons.mp hvalues
    have hjoin : (String.join ((a :: as).map Writer.binding)).toList ++ rest =
        (Writer.binding a).toList ++ ((String.join (as.map Writer.binding)).toList ++ rest) := by
      simp
    rw [hjoin, readFrom_attribute hname hvalue, ih hnames hvalues, List.append_assoc]
    rfl

theorem readFrom_opener {w : Writer} {name : String} {m : Attributes} (hname : IsTagName name)
    (hkeys : ∀ n ∈ m.keys, IsTagName n) (hvalues : ∀ a ∈ m.entries, Unquoted (w.value a.2))
    {c : Char} (hc : c = '/' ∨ c = '>') :
    readFrom .text ((w.opener name m).toList ++ c :: rest) =
      readFrom (.key ⟨.opening, name, w.written m⟩ []) (c :: rest) := by
  have hnonempty : name.toList ≠ [] := fun h => hname.1 (String.toList_eq_nil_iff.mp h)
  have hopens : (w.opener name m).toList ++ c :: rest = '<' ::
      (name.toList ++ ((String.join ((w.written m).map Writer.binding)).toList ++ c :: rest)) := by
    simp [Writer.opener]
  have hnames : ∀ a ∈ w.written m, IsTagName a.1 :=
    List.forall_mem_map.mpr fun a ha => hkeys a.1 (List.mem_map_of_mem ha)
  have hunquoted : ∀ a ∈ w.written m, Unquoted a.2 := List.forall_mem_map.mpr hvalues
  -- what stands behind the name is the blank of an attribute, or the end of the tag
  obtain ⟨d, ds, hd, hbehind⟩ : ∃ d ds, (d = ' ' ∨ d = '/' ∨ d = '>') ∧
      (String.join ((w.written m).map Writer.binding)).toList ++ c :: rest = d :: ds := by
    cases w.written m with
    | nil => exact ⟨c, rest, Or.inr hc, by simp⟩
    | cons a as => exact ⟨' ', _, Or.inl rfl, by simp [Writer.binding]; rfl⟩
  rw [hopens, hbehind]
  show readFrom (.name .opening []) _ = _
  rw [readFrom_name hname.2, List.nil_append, readFrom_name_end hnonempty hd, ← hbehind,
    readFrom_attributes hnames hunquoted, String.ofList_toList, List.nil_append]

theorem readFrom_closing {name : String} (hname : IsTagName name) :
    readFrom .text ('<' :: '/' :: (name.toList ++ '>' :: rest)) =
      .tag ⟨.closing, name, []⟩ :: readFrom .text rest := by
  have hnonempty : name.toList ≠ [] := fun h => hname.1 (String.toList_eq_nil_iff.mp h)
  show readFrom (.name .closing []) _ = _
  rw [readFrom_name hname.2, List.nil_append, readFrom_name_end hnonempty (by simp),
    String.ofList_toList]
  rfl

/-! ### Reading nodes -/

variable {w : Writer}

mutual

/-- A node is read as it is meant if no value holds a quote as it is written. -/
theorem readFrom_write (hw : w.Lawful) : ∀ {e : Element} {rest : List Char}, e.TagNamed →
    (∀ a ∈ e.allAttributes, Unquoted (w.value a.2)) →
    readFrom .text ((w.write e).toList ++ rest) = e.items w ++ readFrom .text rest
  | .text s, rest, _, _ => by
    rw [hw.text, Element.items]
    exact readFrom_text (hw.content.not_mem (by simp) (by decide) (by decide) s)
  | .tag name m [], rest, hnamed, hvalues => by
    obtain ⟨hname, hkeys, -⟩ := Element.tagNamed_tag.mp hnamed
    have hopener : ∀ a ∈ m.entries, Unquoted (w.value a.2) := fun a ha =>
      hvalues a (List.mem_append_left _ ha)
    rw [hw.empty, Element.items, if_pos List.isEmpty_nil, String.toList_append, List.append_assoc]
    exact readFrom_opener hname hkeys hopener (Or.inl rfl)
  | .tag name m (e :: es), rest, hnamed, hvalues => by
    obtain ⟨hname, hkeys, hchildren⟩ := Element.tagNamed_tag.mp hnamed
    obtain ⟨hopener, hinside⟩ := List.forall_mem_append.mp hvalues
    rw [Element.allAttributesAll_eq] at hinside
    have hwritten : (w.write (.tag name m (e :: es))).toList ++ rest =
        (w.opener name m).toList ++ '>' ::
          ((String.join ((e :: es).map fun e => "\n" ++ w.write e)).toList ++
            '\n' :: '<' :: '/' :: (name.toList ++ '>' :: rest)) := by
      rw [hw.tag]
      simp
    rw [hwritten, readFrom_opener hname hkeys hopener (Or.inr rfl), Element.items,
      if_neg (by simp)]
    show Item.tag _ :: readFrom .text _ = _
    rw [readFrom_writeAll hw hchildren hinside]
    show _ :: (_ ++ .char '\n' :: readFrom .text _) = _
    rw [readFrom_closing hname]
    simp

theorem readFrom_writeAll (hw : w.Lawful) : ∀ {es : List Element} {rest : List Char},
    (∀ e ∈ es, e.TagNamed) → (∀ a ∈ es.flatMap Element.allAttributes, Unquoted (w.value a.2)) →
    readFrom .text ((String.join (es.map fun e => "\n" ++ w.write e)).toList ++ rest) =
      Element.itemsAll w es ++ readFrom .text rest
  | [], rest, _, _ => by simp [Element.itemsAll]
  | e :: es, rest, hnamed, hvalues => by
    obtain ⟨he, hes⟩ := List.forall_mem_cons.mp hnamed
    rw [List.flatMap_cons, List.forall_mem_append] at hvalues
    have hwritten : (String.join ((e :: es).map fun e => "\n" ++ w.write e)).toList ++ rest =
        '\n' :: ((w.write e).toList ++
          ((String.join (es.map fun e => "\n" ++ w.write e)).toList ++ rest)) := by
      simp
    rw [hwritten, Element.itemsAll]
    show Item.char '\n' :: readFrom .text _ = _
    rw [readFrom_write hw he hvalues.1, readFrom_writeAll hw hes hvalues.2]
    simp

end

/-! ### Values with quotes -/

/-- What was read of a tag holds no quotes in its values. -/
def Place.Unquoted : Place → Prop
  | text => True
  | name _ _ => True
  | key t _ => ∀ a ∈ t.attributes, BoxDiagram.Unquoted a.2
  | value t _ v => (∀ a ∈ t.attributes, BoxDiagram.Unquoted a.2) ∧ '"' ∉ v

theorem Place.Unquoted.inTag {t : Tag} (h : ∀ a ∈ t.attributes, BoxDiagram.Unquoted a.2)
    (k : List Char) (c : Char) : (Place.inTag t k c).Unquoted := by
  unfold Place.inTag
  split_ifs
  · trivial
  · exact h
  · exact ⟨h, List.not_mem_nil⟩
  · exact h
  · exact h

theorem Place.Unquoted.next {p : Place} (h : p.Unquoted) (c : Char) : (p.next c).Unquoted := by
  cases p with
  | text =>
    rw [Place.next]
    split_ifs <;> trivial
  | name kind n =>
    rw [Place.next]
    split_ifs
    · trivial
    · exact Place.Unquoted.inTag (by simp) _ _
    · trivial
  | key t k => exact Place.Unquoted.inTag h k c
  | value t k v =>
    obtain ⟨ht, hv⟩ := h
    rw [Place.next]
    split_ifs with hc
    · refine List.forall_mem_append.mpr ⟨ht, List.forall_mem_singleton.mpr ?_⟩
      rwa [BoxDiagram.Unquoted, String.toList_ofList]
    · refine ⟨ht, fun hmem => ?_⟩
      rcases List.mem_append.mp hmem with hmem | hmem
      · exact hv hmem
      · exact hc (List.mem_singleton.mp hmem).symm

theorem Place.Unquoted.found {p : Place} (h : p.Unquoted) {c : Char} {t : Tag}
    (ht : .tag t ∈ p.found c) : ∀ a ∈ t.attributes, BoxDiagram.Unquoted a.2 := by
  cases p with
  | text =>
    rw [Place.found] at ht
    split_ifs at ht <;> simp at ht
  | name kind n =>
    rw [Place.found] at ht
    split_ifs at ht <;> simp at ht
    rw [ht]
    exact nofun
  | key t' k =>
    rw [Place.found] at ht
    split_ifs at ht <;> simp at ht
    exact ht ▸ h
  | value t' k v => cases ht

/-- **A reader finds no quotes in values.** -/
theorem unquoted_of_mem_readFrom {p : Place} (hp : p.Unquoted) {t : Tag} {cs : List Char}
    (ht : .tag t ∈ readFrom p cs) : ∀ a ∈ t.attributes, Unquoted a.2 := by
  induction cs generalizing p with
  | nil => cases ht
  | cons c cs ih =>
    rw [readFrom, List.mem_append] at ht
    exact ht.elim hp.found (ih (hp.next c))

end Markup

namespace Element

open Markup

variable {w : Writer}

mutual

theorem exists_tag_of_mem : ∀ {e : Element} {a : String × String}, a ∈ e.allAttributes →
    ∃ t, .tag t ∈ e.items w ∧ (a.1, w.value a.2) ∈ t.attributes
  | .text s, a, ha => by cases ha
  | .tag name m children, a, ha => by
    have hopener : a ∈ m.entries → (a.1, w.value a.2) ∈ w.written m := List.mem_map_of_mem
    rw [allAttributes, List.mem_append] at ha
    rw [items]
    split_ifs with hempty
    · rw [List.isEmpty_iff.mp hempty] at ha
      exact ⟨_, List.mem_singleton.mpr rfl, hopener (ha.resolve_right List.not_mem_nil)⟩
    · rcases ha with ha | ha
      · exact ⟨_, List.mem_cons_self, hopener ha⟩
      · obtain ⟨t, ht, hmem⟩ := exists_tag_of_mem_all ha
        exact ⟨t, List.mem_cons_of_mem _ (List.mem_append_left _ ht), hmem⟩

theorem exists_tag_of_mem_all : ∀ {es : List Element} {a : String × String},
    a ∈ allAttributesAll es → ∃ t, .tag t ∈ itemsAll w es ∧ (a.1, w.value a.2) ∈ t.attributes
  | [], a, ha => by cases ha
  | e :: es, a, ha => by
    rw [itemsAll]
    rcases List.mem_append.mp ha with ha | ha
    · obtain ⟨t, ht, hmem⟩ := exists_tag_of_mem ha
      exact ⟨t, List.mem_cons_of_mem _ (List.mem_append_left _ ht), hmem⟩
    · obtain ⟨t, ht, hmem⟩ := exists_tag_of_mem_all ha
      exact ⟨t, List.mem_cons_of_mem _ (List.mem_append_right _ ht), hmem⟩

end

end Element

/-- **What is written is read as it is meant** exactly if no value holds a quote as it is written. -/
theorem Writer.Lawful.read_write_iff {w : Writer} (hw : w.Lawful) {e : Element} (h : e.TagNamed) :
    Markup.read (w.write e) = e.items w ↔ ∀ a ∈ e.allAttributes, Unquoted (w.value a.2) := by
  constructor
  · intro hread a ha
    obtain ⟨t, ht, hmem⟩ := Element.exists_tag_of_mem (w := w) ha
    rw [← hread] at ht
    exact Markup.unquoted_of_mem_readFrom (p := .text) trivial ht _ hmem
  · intro hvalues
    have hread : Markup.readFrom .text ((w.write e).toList ++ []) =
        e.items w ++ Markup.readFrom .text [] := Markup.readFrom_write hw h hvalues
    rwa [List.append_nil, Markup.readFrom, List.append_nil] at hread

/-! ### Structure and groups -/

namespace Markup

theorem outlines_append (ps qs : List Item) : outlines (ps ++ qs) = outlines ps ++ outlines qs :=
  List.filterMap_append

theorem groups_append (ps qs : List Item) : groups (ps ++ qs) = groups ps ++ groups qs :=
  List.filterMap_append

theorem outlines_map_char (cs : List Char) : outlines (cs.map .char) = [] := by
  simp [outlines, List.filterMap_map]

theorem groups_map_char (cs : List Char) : groups (cs.map .char) = [] := by
  simp [groups, List.filterMap_map]

end Markup

theorem Writer.lookup_written (w : Writer) (m : Attributes) (k : String) :
    (w.written m).lookup k = (m.get? k).map w.value := by
  unfold written TextMap.get?
  induction m.entries with
  | nil => rfl
  | cons a as ih =>
    rw [List.map_cons, List.lookup_cons, List.lookup_cons, ih]
    cases k == a.1 <;> rfl

namespace Element

open Markup

mutual

/-- The structure of an element: its tags and those inside it. -/
def outlines : Element → List (TagKind × String × List String)
  | .text _ => []
  | .tag name m children =>
    if children.isEmpty then [(.empty, name, m.keys)]
    else (.opening, name, m.keys) :: (outlinesAll children ++ [(.closing, name, [])])

def outlinesAll : List Element → List (TagKind × String × List String)
  | [] => []
  | e :: rest => outlines e ++ outlinesAll rest

end

mutual

/-- The class and the id of each group in an element, in the order in which they open. -/
def groups : Element → List (Option String × Option String)
  | .text _ => []
  | .tag name m children =>
    (if name = "g" then [(m.get? "class", m.get? "data-id")] else []) ++ groupsAll children

def groupsAll : List Element → List (Option String × Option String)
  | [] => []
  | e :: rest => groups e ++ groupsAll rest

end

theorem outlinesAll_eq (es : List Element) : outlinesAll es = es.flatMap outlines := by
  induction es with
  | nil => rw [outlinesAll, List.flatMap_nil]
  | cons e es ih => rw [outlinesAll, List.flatMap_cons, ih]

theorem groupsAll_eq (es : List Element) : groupsAll es = es.flatMap groups := by
  induction es with
  | nil => rw [groupsAll, List.flatMap_nil]
  | cons e es ih => rw [groupsAll, List.flatMap_cons, ih]

variable {w : Writer}

theorem keys_written (m : Attributes) : (w.written m).map Prod.fst = m.keys := by
  simp [Writer.written, TextMap.keys, Function.comp_def]

mutual

/-- The structure of the items is that of the element. -/
theorem outlines_items : ∀ e : Element, Markup.outlines (e.items w) = e.outlines
  | .text s => by rw [items, outlines_map_char, outlines]
  | .tag name m children => by
    rw [items, outlines]
    split_ifs
    · simp [Markup.outlines, Tag.outline, keys_written]
    · have hopens : ∀ ps, Markup.outlines (.tag ⟨.opening, name, w.written m⟩ :: ps) =
          (.opening, name, m.keys) :: Markup.outlines ps := fun ps => by
        simp [Markup.outlines, Tag.outline, keys_written]
      rw [hopens, outlines_append, outlines_itemsAll children]
      rfl

theorem outlines_itemsAll : ∀ es : List Element,
    Markup.outlines (itemsAll w es) = outlinesAll es
  | [] => rfl
  | e :: es => by
    rw [itemsAll, outlinesAll, ← outlines_items e, ← outlines_itemsAll es, ← outlines_append]
    rfl

end

/-- The written form of the class and of the id of a group. -/
def writtenGroup (w : Writer) (p : Option String × Option String) : Option String × Option String :=
  (p.1.map w.value, p.2.map w.value)

mutual

/-- The groups of the items are those of the element. -/
theorem groups_items : ∀ e : Element,
    Markup.groups (e.items w) = e.groups.map (writtenGroup w)
  | .text s => by rw [items, groups_map_char, groups]; rfl
  | .tag name m children => by
    have hopens : ∀ kind ps, kind ≠ .closing → Markup.groups (.tag ⟨kind, name, w.written m⟩ :: ps) =
        (if name = "g" then [(m.get? "class", m.get? "data-id")] else []).map (writtenGroup w) ++
          Markup.groups ps := fun kind ps hkind => by
      by_cases hname : name = "g"
      · simp [Markup.groups, hname, hkind, w.lookup_written, writtenGroup]
      · simp [Markup.groups, hname]
    rw [items, groups, List.map_append, ← groups_itemsAll children]
    by_cases hempty : children.isEmpty = true
    · rw [if_pos hempty, hopens _ _ (by simp), List.isEmpty_iff.mp hempty]
      rfl
    · rw [if_neg hempty, hopens _ _ (by simp), groups_append]
      simp [Markup.groups]

theorem groups_itemsAll : ∀ es : List Element,
    Markup.groups (itemsAll w es) = (groupsAll es).map (writtenGroup w)
  | [] => rfl
  | e :: es => by
    rw [itemsAll, groupsAll, List.map_append, ← groups_items e, ← groups_itemsAll es,
      ← groups_append]
    rfl

end

end Element

end BoxDiagram
