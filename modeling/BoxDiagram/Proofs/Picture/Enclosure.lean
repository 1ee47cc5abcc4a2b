import BoxDiagram.Proofs.Graph.Build
import BoxDiagram.Proofs.Picture.Painting

/-!
# Enclosure: which values of a picture can hold quotes

Besides ids, numbers and attributes with a type, the values of attributes in a picture are colours and
dashes, which can be any text. Ids and numbers hold no quotes (`WellFormed.unquoted_id`,
`unquoted_renderFloat`), nor do typed values (`unquoted_of_isValid`), and labels are texts of their own.
So the values hold quotes exactly if the untyped styles that are shown hold some
(`WellFormed.enclosed_document`). A writer that escapes `&`, `<` and `>` only has exactly the pictures
without them read as they are meant (`read_draw_iff`), so it is not enough (`picture_unenclosed`).
-/

namespace BoxDiagram

open Text

@[simp] theorem unquoted_append {s t : String} : Unquoted (s ++ t) ↔ Unquoted s ∧ Unquoted t := by
  simp [Unquoted]

theorem unquoted_intercalate : ∀ {ss : List String}, (∀ s ∈ ss, Unquoted s) →
    Unquoted (" ".intercalate ss)
  | [], _ => by decide
  | [s], h => by simpa using h
  | s :: t :: ss, h => by
    obtain ⟨hs, hrest⟩ := List.forall_mem_cons.mp h
    have hblank : Unquoted " " := by decide
    have htail := unquoted_intercalate hrest
    rw [String.intercalate_cons_cons]
    simp only [unquoted_append]
    exact ⟨⟨hs, hblank⟩, htail⟩

/-! ### Numbers that are written -/

theorem not_mem_of_isDigit {cs : List Char} (h : ∀ c ∈ cs, c.isDigit = true) : '"' ∉ cs :=
  fun hq => absurd (h _ hq) (by decide)

theorem not_mem_dropZeros {cs : List Char} (h : '"' ∉ cs) : '"' ∉ Decimal.dropZeros cs := fun hq =>
  h (List.mem_reverse.mp ((List.dropWhile_suffix _).subset (List.mem_reverse.mp hq)))

theorem not_mem_render (d : Decimal) : '"' ∉ d.render := by
  have hdigits : '"' ∉ Nat.toDigits 10 d.digits := not_mem_of_isDigit fun c hc =>
    Nat.isDigit_of_mem_toDigits (by decide) (by decide) hc
  have hzeros : ∀ n, '"' ∉ List.replicate n '0' := fun n => by simp [List.mem_replicate]
  unfold Decimal.render
  cases d.exponent with
  | ofNat e => simp [hdigits, hzeros]
  | negSucc e =>
    dsimp -zeta only
    extract_lets ds padded whole fraction
    have hpadded : '"' ∉ padded := by
      simp [padded, ds, hdigits, hzeros]
    have hwhole : '"' ∉ whole := fun hq => hpadded (List.mem_of_mem_take hq)
    have hfraction : '"' ∉ fraction := not_mem_dropZeros fun hq => hpadded (List.mem_of_mem_drop hq)
    split_ifs
    · exact hwhole
    · simp [hwhole, hfraction]

@[simp] theorem unquoted_renderFloat (x : Float) : Unquoted (renderFloat x) := by
  unfold renderFloat
  extract_lets bits sign scale mantissa r
  have hsign : Unquoted sign := by
    unfold sign
    split_ifs <;> decide
  split_ifs
  · exact unquoted_append.mpr ⟨hsign, by decide⟩
  · decide
  · exact unquoted_append.mpr ⟨hsign, by decide⟩
  · exact unquoted_append.mpr ⟨hsign, by simp [Unquoted, not_mem_render]⟩

/-! ### Numbers that are read -/

theorem unquoted_of_readBelow {bound n : Nat} {s : String} (h : readBelow? bound s = some n) :
    Unquoted s := by
  unfold readBelow? at h
  extract_lets ds at h
  split_ifs at h with hds
  have hfree : '"' ∉ ds := not_mem_of_isDigit (List.all_eq_true.mp hds.2.1)
  unfold Unquoted
  unfold ds dropPlus at hfree
  split at hfree
  · next r heq => simp [heq, hfree]
  · exact hfree

theorem mem_sign {cs : List Char} (h : '"' ∈ cs) : '"' ∈ (Numeral.sign cs).2 := by
  unfold Numeral.sign
  split <;> simp_all

theorem mem_dropWhile_isDigit {cs : List Char} (h : '"' ∈ cs) : '"' ∈ cs.dropWhile Char.isDigit := by
  rw [← List.takeWhile_append_dropWhile (p := Char.isDigit) (l := cs)] at h
  refine (List.mem_append.mp h).resolve_left (not_mem_of_isDigit fun c hc => ?_)
  exact List.all_eq_true.mp List.all_takeWhile c hc

theorem not_mem_of_readExponent {cs : List Char} {e : Int} (h : Numeral.readExponent? cs = some e) :
    '"' ∉ cs := by
  unfold Numeral.readExponent? at h
  split at h
  · simp
  · next c r =>
    dsimp only at h
    split at h
    · next hexponent =>
      obtain ⟨hc, -, hds⟩ := hexponent
      have hrest : '"' ∉ r := fun hq => not_mem_of_isDigit (List.all_eq_true.mp hds) (mem_sign hq)
      rcases hc with rfl | rfl <;> simp [hrest]
    · cases h

theorem not_mem_of_readFinite {negative : Bool} {cs : List Char} {n : Numeral}
    (h : Numeral.readFinite? negative cs = some n) : '"' ∉ cs := by
  intro hq
  have hrest := mem_dropWhile_isDigit hq
  unfold Numeral.readFinite? at h
  dsimp only at h
  split_ifs at h
  obtain ⟨e, he, -⟩ := Option.map_eq_some_iff.mp h
  -- a quote would stand behind the digits, behind a point and more digits, and so in the exponent
  refine not_mem_of_readExponent he ?_
  split
  · next r heq =>
    rw [heq] at hrest
    exact mem_dropWhile_isDigit (by simpa using hrest)
  · exact hrest

theorem unquoted_of_read {s : String} {n : Numeral} (h : Numeral.read? s = some n) : Unquoted s := by
  intro hq
  have hcs := mem_sign hq
  unfold Numeral.read? at h
  dsimp only at h
  have hword : '"' ∈ (String.ofList ((Numeral.sign s.toList).2.map Char.toLower)).toList := by
    rw [String.toList_ofList]
    exact List.mem_map.mpr ⟨'"', hcs, by decide⟩
  split_ifs at h with hinf hnan
  · rcases hinf with hinf | hinf <;> rw [hinf] at hword <;> exact absurd hword (by decide)
  · rw [hnan] at hword
    exact absurd hword (by decide)
  · exact not_mem_of_readFinite h hcs

/-- **Typed values hold no quotes**: those of natural numbers and that of the opacity. -/
theorem unquoted_of_isValid {name value : String} (h : Attribute.IsValid name value)
    (hname : name ∈ Attribute.naturalNames ∨ name = "style.opacity") : Unquoted value := by
  have hchecked := h.checked
  rcases hname with hname | rfl
  · have hne : name ≠ "shape" ∧ name ≠ "direction" := by
      constructor <;> rintro rfl <;> exact absurd hname (by decide)
    unfold Attribute.checkValue at hchecked
    rw [if_neg hne.1, if_neg hne.2, if_pos (List.contains_iff_mem.mpr hname)] at hchecked
    split_ifs at hchecked with hread
    obtain ⟨n, hn⟩ := Option.isSome_iff_exists.mp hread
    exact unquoted_of_readBelow hn
  · have hfraction : Attribute.isFraction value = true := by
      by_contra hnot
      simp [Attribute.checkValue, Attribute.naturalNames, Attribute.booleanNames, hnot] at hchecked
    unfold Attribute.isFraction at hfraction
    split at hfraction
    · next n hn => exact unquoted_of_read hn
    · cases hfraction

/-! ### Elements of lists of attributes -/

namespace Element

/-- No value of an attribute holds a quote. -/
def Enclosed (e : Element) : Prop := ∀ a ∈ e.allAttributes, Unquoted a.2

theorem enclosed_text (content : String) : (Element.text content).Enclosed := by
  simp [Enclosed, allAttributes]

theorem enclosed_tag {name : String} {attributes : Attributes} {children : List Element} :
    (tag name attributes children).Enclosed ↔
      (∀ a ∈ attributes.entries, Unquoted a.2) ∧ ∀ e ∈ children, e.Enclosed := by
  simp only [Enclosed, allAttributes, allAttributesAll_eq, List.forall_mem_append,
    List.forall_mem_flatMap]

variable {name : String} {attributes : List (String × String)} {children : List Element}

theorem enclosed_ofAttributes (h : (attributes.map Prod.fst).Nodup) :
    (ofAttributes name attributes children).Enclosed ↔
      (∀ a ∈ attributes, Unquoted a.2) ∧ ∀ e ∈ children, e.Enclosed := by
  unfold ofAttributes
  rw [enclosed_tag]
  refine and_congr_left fun _ => forall_congr' fun ⟨k, v⟩ => ?_
  rw [TextMap.mem_entries_iff, TextMap.get?_ofList_eq_some_iff (TextMap.functional_of_nodup h)]

theorem enclosed_ofAttributes_of_forall (h : ∀ a ∈ attributes, Unquoted a.2) :
    (ofAttributes name attributes children).Enclosed ↔ ∀ e ∈ children, e.Enclosed := by
  unfold ofAttributes
  rw [enclosed_tag, and_iff_right]
  exact fun a ha => h a (TextMap.mem_of_get?_ofList (TextMap.mem_entries_iff.mp ha))

end Element

theorem unquoted_optional {name : String} {value : Option String} :
    (∀ a ∈ (value.map (name, ·)).toList, Unquoted a.2) ↔ ∀ v ∈ value, Unquoted v := by
  cases value <;> simp

/-! ### Styles and palettes -/

/-- The values of the named attributes hold no quotes. -/
def Attributes.UnquotedAt (m : Attributes) (names : List String) : Prop :=
  ∀ name ∈ names, ∀ v ∈ m.get? name, Unquoted v

instance (m : Attributes) : DecidablePred m.UnquotedAt := fun names =>
  inferInstanceAs (Decidable (∀ name ∈ names, ∀ v ∈ m.get? name, Unquoted v))

/-- The untyped styles of the outline of an object. -/
def Object.penStyles : List String := ["style.fill", "style.stroke", "style.stroke-dash"]

/-- The untyped styles that an object shows; a mere text has no outline. -/
def Object.shownStyles (o : Object) : List String :=
  (if o.shape = "text" then [] else penStyles) ++ ["style.font-color"]

/-- The untyped styles that an edge shows; without a label there is nothing to write. -/
def Edge.shownStyles (e : Edge) : List String :=
  ["style.stroke", "style.stroke-dash"] ++ if e.label?.isSome then ["style.font-color"] else []

theorem Object.unquotedAt_shownStyles (o : Object) : o.attributes.UnquotedAt o.shownStyles ↔
    (o.shape ≠ "text" → o.attributes.UnquotedAt penStyles) ∧
      ∀ v ∈ o.attributes.get? "style.font-color", Unquoted v := by
  unfold Attributes.UnquotedAt shownStyles
  split_ifs with htext
  · simp [htext]
  · simp only [List.forall_mem_append, List.forall_mem_singleton, htext, ne_eq, not_false_eq_true,
      true_implies]

theorem Edge.unquotedAt_shownStyles (e : Edge) : e.attributes.UnquotedAt e.shownStyles ↔
    ((∀ v ∈ e.attributes.get? "style.stroke", Unquoted v) ∧
      ∀ v ∈ e.attributes.get? "style.stroke-dash", Unquoted v) ∧
    (e.label?.isSome → ∀ v ∈ e.attributes.get? "style.font-color", Unquoted v) := by
  unfold Attributes.UnquotedAt shownStyles
  split_ifs with hlabel <;> simp [hlabel, and_assoc]

/-- The colours of a palette hold no quotes. -/
structure Palette.Enclosed (p : Palette) : Prop where
  background : Unquoted p.background
  fill : Unquoted p.fill
  containerFill : Unquoted p.containerFill
  stroke : Unquoted p.stroke
  text : Unquoted p.text
  edge : Unquoted p.edge

instance : DecidablePred Palette.Enclosed := fun p =>
  decidable_of_iff (Unquoted p.background ∧ Unquoted p.fill ∧ Unquoted p.containerFill ∧
      Unquoted p.stroke ∧ Unquoted p.text ∧ Unquoted p.edge)
    ⟨fun ⟨h₁, h₂, h₃, h₄, h₅, h₆⟩ => ⟨h₁, h₂, h₃, h₄, h₅, h₆⟩,
      fun h => ⟨h.background, h.fill, h.containerFill, h.stroke, h.text, h.edge⟩⟩

theorem Palette.enclosed_of_ofTheme {theme : Int} {p : Palette} (h : ofTheme? theme = some p) :
    p.Enclosed := by
  have hall : ∀ e ∈ numbered, e.2.Enclosed := by decide
  obtain ⟨before, after, he, -⟩ := List.lookup_eq_some_iff.mp h
  exact hall (theme, p) (by rw [he]; simp)

namespace Paint

open Element

theorem unquoted_styleOr {m : Attributes} {name default : String} (h : Unquoted default) :
    Unquoted (styleOr m name default) ↔ ∀ v ∈ m.get? name, Unquoted v := by
  unfold styleOr
  cases m.get? name <;> simp [h]

theorem unquoted_natural {m : Attributes} (h : m.Valid) {name default : String}
    (hname : name ∈ Attribute.naturalNames) (hdefault : Unquoted default) :
    Unquoted (styleOr m name default) :=
  (unquoted_styleOr hdefault).mpr fun v hv =>
    unquoted_of_isValid (h (name, v) (TextMap.mem_entries_iff.mpr hv)) (Or.inl hname)

/-! ### What the parts of a picture take from attributes and palette -/

theorem enclosed_label (text : String) (x y : Float) (colour : String) (size : Float) :
    (label text x y colour size).Enclosed ↔ Unquoted colour := by
  unfold label
  rw [enclosed_ofAttributes (by simp)]
  simp +decide [enclosed_text]

theorem unquoted_numbers (xs : List Float) : Unquoted (numbers xs) :=
  unquoted_intercalate (by simp)

theorem unquoted_route (source target : Rect) : Unquoted (route source target).1 := by
  unfold route
  dsimp only
  split_ifs <;> simp +decide [unquoted_numbers]

section Palette

variable {palette : Palette} (hp : palette.Enclosed)
include hp

theorem enclosed_background : (background palette).Enclosed := by
  unfold background
  rw [enclosed_ofAttributes (by simp)]
  simp +decide [hp.background]

theorem enclosed_arrowHead {id path refX : String} (hid : Unquoted id) (hpath : Unquoted path)
    (hrefX : Unquoted refX) : (arrowHead id path refX palette).Enclosed := by
  unfold arrowHead
  rw [enclosed_ofAttributes (by simp)]
  simp +decide [enclosed_ofAttributes, hid, hpath, hrefX, hp.edge]

theorem enclosed_definitions : (definitions palette).Enclosed := by
  unfold definitions
  rw [enclosed_ofAttributes (by simp)]
  refine ⟨nofun, List.forall_mem_cons.mpr ⟨?_, List.forall_mem_singleton.mpr ?_⟩⟩
  · exact enclosed_arrowHead hp (by decide) (by decide) (by decide)
  · exact enclosed_arrowHead hp (by decide) (by decide) (by decide)

theorem enclosed_outline {b : Box} (h : b.object.attributes.Valid) :
    (∀ e ∈ outline b palette, e.Enclosed) ↔
      (b.object.shape ≠ "text" → b.object.attributes.UnquotedAt Object.penStyles) := by
  have hwidth : Unquoted (styleOr b.object.attributes "style.stroke-width" "2") :=
    unquoted_natural h (by decide) (by decide)
  have hradius : Unquoted (styleOr b.object.attributes "style.border-radius" "4") :=
    unquoted_natural h (by decide) (by decide)
  have hfill : Unquoted (if b.isContainer then palette.containerFill else palette.fill) := by
    split_ifs
    · exact hp.containerFill
    · exact hp.fill
  have hnone : Unquoted "none" := by decide
  have hpoint : ∀ x y, Unquoted (point x y) := fun x y => by simp +decide [point]
  have hblank : Unquoted " " := by decide
  unfold outline
  dsimp only
  generalize (if b.isContainer then palette.containerFill else palette.fill) = fill at hfill ⊢
  -- the outlines differ in their places only, which are numbers
  split_ifs with htext
  · simp [htext]
  all_goals simp [htext, enclosed_ofAttributes, hpoint, hblank, unquoted_styleOr hfill,
    unquoted_styleOr hp.stroke, unquoted_styleOr hnone, hwidth, hradius, Attributes.UnquotedAt,
    Object.penStyles]

theorem enclosed_object {b : Box} (hid : Unquoted b.object.id) (h : b.object.attributes.Valid) :
    (object b palette).Enclosed ↔ b.object.attributes.UnquotedAt b.object.shownStyles := by
  have hfront : ∀ a ∈ [("class", "shape"), ("data-id", b.object.id)], Unquoted a.2 := by
    simp +decide [hid]
  have hopacity : ∀ v ∈ b.object.attributes.get? "style.opacity", Unquoted v := fun v hv =>
    unquoted_of_isValid (h (_, v) (TextMap.mem_entries_iff.mpr hv)) (Or.inr rfl)
  have hnames : (([("class", "shape"), ("data-id", b.object.id)] ++
      ((b.object.attributes.get? "style.opacity").map ("opacity", ·)).toList).map Prod.fst).Nodup := by
    cases b.object.attributes.get? "style.opacity" <;> simp
  unfold object
  rw [enclosed_ofAttributes hnames, List.forall_mem_append, unquoted_optional, List.forall_mem_append,
    enclosed_outline hp h, List.forall_mem_singleton, enclosed_label, unquoted_styleOr hp.text,
    b.object.unquotedAt_shownStyles]
  exact and_iff_right ⟨hfront, hopacity⟩

theorem enclosed_edge {e : Edge} {source target : Rect} (hid : Unquoted e.publicId)
    (h : e.attributes.Valid) :
    (edge e source target palette).Enclosed ↔ e.attributes.UnquotedAt e.shownStyles := by
  have hwidth : Unquoted (styleOr e.attributes "style.stroke-width" "2") :=
    unquoted_natural h (by decide) (by decide)
  have hheads : Unquoted (headRef headAtEnd) ∧ Unquoted (headRef headAtStart) := by decide
  have hroute := unquoted_route source target
  unfold edge
  generalize route source target = r at hroute ⊢
  obtain ⟨path, x, y⟩ := r
  dsimp -zeta only at hroute ⊢
  extract_lets style dash atTarget atSource line text
  have hline : line.Enclosed ↔ (∀ v ∈ e.attributes.get? "style.stroke", Unquoted v) ∧
      ∀ v ∈ e.attributes.get? "style.stroke-dash", Unquoted v := by
    have hnames : (([("d", path), ("fill", "none"), ("stroke", style "style.stroke" palette.edge),
        ("stroke-width", style "style.stroke-width" "2")] ++ dash ++ atTarget ++ atSource).map
          Prod.fst).Nodup := by
      unfold dash atTarget atSource
      cases e.attributes.get? "style.stroke-dash" <;> split_ifs <;> simp
    have htargets : ∀ a ∈ atTarget ++ atSource, Unquoted a.2 := by
      unfold atTarget atSource
      split_ifs <;> simp [hheads]
    unfold line
    rw [enclosed_ofAttributes hnames, List.append_assoc, List.forall_mem_append,
      List.forall_mem_append, unquoted_optional, and_iff_left htargets]
    simp +decide [hroute, style, unquoted_styleOr hp.edge, hwidth]
  have htext : (∀ t ∈ text, t.Enclosed) ↔
      (e.label?.isSome → ∀ v ∈ e.attributes.get? "style.font-color", Unquoted v) := by
    unfold text
    cases e.label? <;> simp [enclosed_label, style, unquoted_styleOr hp.text]
  rw [enclosed_ofAttributes (by simp), List.forall_mem_cons (l := text), hline, htext,
    e.unquotedAt_shownStyles]
  simp +decide [hid]

end Palette

end Paint

/-! ### Pictures -/

theorem forall_mem_iff_of_forall₂ {α β : Type} {r : α → β → Prop} {p : α → Prop} {q : β → Prop}
    {xs : List α} {ys : List β} (h : List.Forall₂ r xs ys)
    (hpq : ∀ x ∈ xs, ∀ y, r x y → (q y ↔ p x)) : (∀ y ∈ ys, q y) ↔ ∀ x ∈ xs, p x := by
  induction h with
  | nil => simp
  | cons hxy _ ih =>
    obtain ⟨hx, hxs⟩ := List.forall_mem_cons.mp hpq
    rw [List.forall_mem_cons, List.forall_mem_cons, hx _ hxy, ih hxs]

namespace Graph

/-- The untyped styles that a picture shows hold no quotes. -/
structure ShowsUnquoted (g : Graph) : Prop where
  objects : ∀ o ∈ g.objects, o.attributes.UnquotedAt o.shownStyles
  edges : ∀ e ∈ g.edges, e.attributes.UnquotedAt e.shownStyles

instance : DecidablePred ShowsUnquoted := fun g =>
  decidable_of_iff ((∀ o ∈ g.objects, o.attributes.UnquotedAt o.shownStyles) ∧
      ∀ e ∈ g.edges, e.attributes.UnquotedAt e.shownStyles)
    ⟨fun ⟨hobjects, hedges⟩ => ⟨hobjects, hedges⟩, fun h => ⟨h.objects, h.edges⟩⟩

section WellFormed

variable {g : Graph} (h : g.WellFormed) {palette : Palette} (hp : palette.Enclosed)
include h

theorem WellFormed.unquoted_id {id : String} (hid : id ∈ g.ids) : Unquoted id := fun hq =>
  EverySegment.allowed (IsId.everySegment (h.named id hid)) '"' hq (by decide)

theorem WellFormed.unquoted_publicId {e : Edge} (he : e ∈ g.edges) : Unquoted e.publicId := by
  obtain ⟨hsource, htarget⟩ := h.endpoints e he
  unfold Edge.publicId edgeId
  simp +decide [h.unquoted_id hsource, h.unquoted_id htarget]

include hp

theorem WellFormed.enclosed_objects :
    (∀ group ∈ Paint.objects g (Layout.ofGraph g) palette (g.children none), group.Enclosed) ↔
      ∀ o ∈ g.objects, o.attributes.UnquotedAt o.shownStyles := by
  rw [forall_mem_iff_of_forall₂ (h.paintsObject_objects palette)
    (p := fun o => o.attributes.UnquotedAt o.shownStyles)]
  · exact forall_congr' fun o => by rw [h.mem_preorder]
  · rintro o ho _ ⟨r, -, rfl⟩
    have ho : o ∈ g.objects := h.mem_preorder.mp ho
    exact Paint.enclosed_object hp (h.unquoted_id (List.mem_map_of_mem ho))
      (h.attributed.objects o ho)

theorem WellFormed.enclosed_edges :
    (∀ group ∈ g.edges.filterMap (Paint.edge? (Layout.ofGraph g) palette), group.Enclosed) ↔
      ∀ e ∈ g.edges, e.attributes.UnquotedAt e.shownStyles := by
  refine forall_mem_iff_of_forall₂ (h.paintsEdge_edges palette) ?_
  rintro e he _ ⟨source, target, -, -, rfl⟩
  have hvalid : e.attributes.Valid := fun a ha => (h.attributed.edges e he a ha).toIsValid
  exact Paint.enclosed_edge hp (h.unquoted_publicId he) hvalid

/-- **The values in a picture hold no quotes exactly if the untyped styles that it shows hold none.** -/
theorem WellFormed.enclosed_document {w : Writer}
    (hw : ∀ a ∈ w.documentAttributes, Unquoted a.2) :
    (Paint.document w g palette).Enclosed ↔ g.ShowsUnquoted := by
  have hfront : ∀ l : Layout, ∀ a ∈ w.documentAttributes ++
      [("viewBox", "0 0 " ++ Paint.numbers [l.width, l.height]), ("width", renderFloat l.width),
        ("height", renderFloat l.height)], Unquoted a.2 := fun l =>
    List.forall_mem_append.mpr ⟨hw, by simp +decide [Paint.unquoted_numbers]⟩
  unfold Paint.document
  dsimp only
  rw [Element.enclosed_ofAttributes_of_forall (hfront _), List.forall_mem_append,
    List.forall_mem_cons, List.forall_mem_cons, h.enclosed_objects hp, h.enclosed_edges hp,
    and_iff_right (Paint.enclosed_background hp), and_iff_right (Paint.enclosed_definitions hp)]
  exact ⟨fun ⟨hobjects, hedges⟩ => ⟨hobjects, hedges⟩, fun hall => ⟨hall.objects, hall.edges⟩⟩

end WellFormed

/-- **Which pictures are read as they are meant** without quotes being escaped: those that show no
fill, stroke, dash or font colour with a quote. No id, label, number or other attribute makes a
difference. -/
theorem read_draw_iff {w : Writer} (hw : w.Lawful)
    (hfront : ∀ a ∈ w.documentAttributes, Unquoted a.2)
    (hvalue : EscapesOnly w.value ['&', '<', '>']) {text : String} {g : Graph} {palette : Palette}
    (hg : compile text = .ok g) (hp : palette.Enclosed) :
    Markup.read (g.draw w palette) = (Paint.document w g palette).items w ↔ g.ShowsUnquoted := by
  have hself : ∀ s, Unquoted (w.value s) ↔ Unquoted s := fun s =>
    not_congr (hvalue.mem_iff (by decide) (by decide) (by decide) s)
  rw [← (wellFormed_of_compile hg).enclosed_document hp hfront]
  refine (hw.read_write_iff (Paint.tagNamed_document hw g palette)).trans ?_
  exact forall₂_congr fun a _ => hself a.2

/-- A text whose fill would end the value that it is written in, and bring an attribute of its own. -/
def piercingText : String := "a.style.fill: \"red\\\" onload=\\\"b\""

/-- The writer at hand does escape quotes. One that does not would have a value with a quote in it, and
the picture read as another than it is meant. -/
theorem picture_unenclosed : ∃ g palette,
    compile piercingText = .ok g ∧ Palette.ofTheme? 0 = some palette ∧
    ¬ EscapesOnly Writer.svg.value ['&', '<', '>'] ∧
    (Svg.writer Svg.content).Lawful ∧
    EscapesOnly (Svg.writer Svg.content).value ['&', '<', '>'] ∧
    EscapesOnly (Svg.writer Svg.content).content ['&', '<', '>'] ∧
    (∃ a ∈ (Paint.document (Svg.writer Svg.content) g palette).allAttributes,
      ¬ Unquoted ((Svg.writer Svg.content).value a.2)) ∧
    Markup.read (g.draw (Svg.writer Svg.content) palette) ≠
      (Paint.document (Svg.writer Svg.content) g palette).items (Svg.writer Svg.content) := by
  have hshows : (compile piercingText).toOption.map (fun g => decide g.ShowsUnquoted) =
      some false := by
    decide +kernel
  obtain ⟨g, hg, hbad⟩ := Option.map_eq_some_iff.mp hshows
  have hg := toOption_eq_some_iff.mp hg
  obtain ⟨palette, htheme⟩ : ∃ palette, Palette.ofTheme? 0 = some palette := ⟨_, rfl⟩
  have hlawful : (Svg.writer Svg.content).Lawful :=
    Svg.lawful_writer (Svg.escapesOnly_content.escapes (by simp) (by decide))
  have hread := mt (read_draw_iff hlawful (by decide) Svg.escapesOnly_content hg
    (Palette.enclosed_of_ofTheme htheme)).mp (of_decide_eq_false hbad)
  have hquote := mt (hlawful.read_write_iff
    (Paint.tagNamed_document hlawful g palette)).mpr hread
  refine ⟨g, palette, hg, htheme, fun hself => ?_, hlawful, Svg.escapesOnly_content,
    Svg.escapesOnly_content, by simpa only [not_forall, exists_prop] using hquote, hread⟩
  have hmem : '"' ∈ (Writer.svg.value "\"").toList :=
    (hself.mem_iff (by decide) (by decide) (by decide) "\"").mpr (by decide)
  exact absurd hmem (by decide)

end Graph

end BoxDiagram
