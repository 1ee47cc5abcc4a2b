import BoxDiagram.Proofs.Graph.Build
import BoxDiagram.Proofs.Picture.Painting

/-!
# Structure: texts of a diagram stay inside the markup

The structure of a picture is that of its tags, without texts and values. It depends on the shape of each
object and on whether the object has an opacity, and on the arrow of each edge and on whether the edge
has a label and dashes (`outlines_document_congr`). With a writer that escapes quotes, this structure is
read in the text of the picture as well: whatever an id, a label, a colour or a pattern of dashes holds,
it stays inside its own attribute or text (`picture_encloses`).
-/

namespace BoxDiagram

theorem map_eq_map_of_forall₂ {α β γ δ : Type} {r s : α → β → Prop} {f : α → γ} {q : β → δ}
    (hrs : ∀ x y a b, r x a → s y b → f x = f y → q a = q b) {xs ys : List α} {as bs : List β}
    (hr : List.Forall₂ r xs as) (hs : List.Forall₂ s ys bs) (hf : xs.map f = ys.map f) :
    as.map q = bs.map q := by
  induction hr generalizing ys bs with
  | nil =>
    obtain rfl := List.map_eq_nil_iff.mp hf.symm
    cases hs
    rfl
  | cons hxa _ ih =>
    cases hs with
    | nil => cases hf
    | cons hyb hs =>
      obtain ⟨hxy, hf⟩ := List.cons.inj hf
      rw [List.map_cons, List.map_cons, hrs _ _ _ _ hxa hyb hxy, ih hs hf]

/-- What the structure of the group of an object depends on. -/
def Object.features (o : Object) : String × Bool :=
  (o.shape, (o.attributes.get? "style.opacity").isSome)

/-- What the structure of the group of an edge depends on. -/
def Edge.features (e : Edge) : Arrow × Bool × Bool :=
  (e.arrow, (e.attributes.get? "style.stroke-dash").isSome, e.label?.isSome)

/-- **Graphs that differ in texts only**: in preorder, their objects have the same features, and so have
their edges. -/
structure Graph.SameFeatures (g k : Graph) : Prop where
  objects : g.preorder.map Object.features = k.preorder.map Object.features
  edges : g.edges.map Edge.features = k.edges.map Edge.features

theorem Element.outlines_ofAttributes_congr {name : String} {as bs : List (String × String)}
    {es fs : List Element} (h : as.map Prod.fst = bs.map Prod.fst)
    (hchildren : es.map outlines = fs.map outlines) :
    (ofAttributes name as es).outlines = (ofAttributes name bs fs).outlines := by
  have hempty : es.isEmpty = fs.isEmpty := by
    rw [← List.isEmpty_map (f := outlines), hchildren, List.isEmpty_map]
  have hinside : outlinesAll es = outlinesAll fs := by
    rw [outlinesAll_eq, outlinesAll_eq, List.flatMap_def, List.flatMap_def, hchildren]
  unfold ofAttributes
  rw [outlines, outlines, hempty, hinside, TextMap.keys_ofList_congr h]

namespace Paint

open Element

/-! ### The structure of the parts -/

theorem map_fst_optional {name : String} {v v' : Option String} (h : v.isSome = v'.isSome) :
    (v.map (name, ·)).toList.map Prod.fst = (v'.map (name, ·)).toList.map Prod.fst := by
  cases v <;> cases v' <;> first | rfl | cases h

theorem outlines_label (text text' : String) (x x' y y' : Float) (colour colour' : String)
    (size size' : Float) :
    (label text x y colour size).outlines = (label text' x' y' colour' size').outlines := by
  unfold label
  exact outlines_ofAttributes_congr (by simp) (by simp [outlines])

variable (palette palette' : Palette)

theorem outlines_background : (background palette).outlines = (background palette').outlines :=
  outlines_ofAttributes_congr rfl rfl

theorem outlines_definitions : (definitions palette).outlines = (definitions palette').outlines := by
  have harrow : ∀ id path refX, (arrowHead id path refX palette).outlines =
      (arrowHead id path refX palette').outlines := fun id path refX =>
    outlines_ofAttributes_congr rfl
      (List.cons_eq_cons.mpr ⟨outlines_ofAttributes_congr rfl rfl, rfl⟩)
  exact outlines_ofAttributes_congr rfl (by simp [harrow])

theorem outlines_outline {b b' : Box} (h : b.object.shape = b'.object.shape) :
    (outline b palette).map outlines = (outline b' palette').map outlines := by
  unfold outline
  dsimp only
  rw [h]
  split_ifs
  · rfl
  all_goals exact List.cons_eq_cons.mpr ⟨outlines_ofAttributes_congr (by simp) rfl, rfl⟩

/-- **The structure of the group of an object** does not depend on its texts. -/
theorem outlines_object {b b' : Box} (h : b.object.features = b'.object.features) :
    (object b palette).outlines = (object b' palette').outlines := by
  obtain ⟨hshape, hopacity⟩ := Prod.mk.inj h
  unfold object
  refine outlines_ofAttributes_congr ?_ ?_
  · rw [List.map_append, List.map_append, map_fst_optional hopacity]
    rfl
  · rw [List.map_append, List.map_append, outlines_outline palette palette' hshape]
    exact congrArg _ (List.cons_eq_cons.mpr ⟨outlines_label .., rfl⟩)

/-- **The structure of the group of an edge** does not depend on its texts. -/
theorem outlines_edge {e e' : Edge} (h : e.features = e'.features) (source source' target target' : Rect) :
    (edge e source target palette).outlines = (edge e' source' target' palette').outlines := by
  obtain ⟨harrow, hrest⟩ := Prod.mk.inj h
  obtain ⟨hdash, hlabel⟩ := Prod.mk.inj hrest
  unfold edge
  generalize route source target = r, route source' target' = r'
  obtain ⟨path, x, y⟩ := r
  obtain ⟨path', x', y'⟩ := r'
  dsimp only
  refine outlines_ofAttributes_congr (by simp) (List.cons_eq_cons.mpr ⟨?_, ?_⟩)
  · refine outlines_ofAttributes_congr ?_ rfl
    simp only [List.map_append, map_fst_optional hdash, harrow, List.map_cons, List.map_nil]
  · cases htext : e.label? <;> cases htext' : e'.label? <;> rw [htext, htext'] at hlabel
    · rw [Option.map_none, Option.map_none]
    · cases hlabel
    · cases hlabel
    · exact List.cons_eq_cons.mpr ⟨outlines_label .., rfl⟩

variable {g k : Graph}

/-- **The structure of a picture** does not depend on the texts of the graph, nor on the palette. -/
theorem outlines_document_congr (hg : g.Integral) (hk : k.Integral) (h : k.SameFeatures g) (w : Writer) :
    (document w k palette').outlines = (document w g palette).outlines := by
  have hobjects : (objects k (Layout.ofGraph k) palette' (k.children none)).map outlines =
      (objects g (Layout.ofGraph g) palette (g.children none)).map outlines := by
    refine map_eq_map_of_forall₂ ?_ (hk.paintsObject_objects palette')
      (hg.paintsObject_objects palette) h.objects
    rintro o o' _ _ ⟨r, -, rfl⟩ ⟨r', -, rfl⟩ hfeatures
    exact outlines_object _ _ hfeatures
  have hedges : (k.edges.filterMap (edge? (Layout.ofGraph k) palette')).map outlines =
      (g.edges.filterMap (edge? (Layout.ofGraph g) palette)).map outlines := by
    refine map_eq_map_of_forall₂ ?_ (hk.paintsEdge_edges palette') (hg.paintsEdge_edges palette)
      h.edges
    rintro e e' _ _ ⟨s, t, -, -, rfl⟩ ⟨s', t', -, -, rfl⟩ hfeatures
    exact outlines_edge _ _ hfeatures ..
  refine outlines_ofAttributes_congr (by simp) ?_
  rw [List.map_append, List.map_append, hedges, List.map_cons, List.map_cons, List.map_cons,
    List.map_cons, hobjects, outlines_background palette' palette,
    outlines_definitions palette' palette]

end Paint

namespace Graph

/-- **Texts of a diagram bring no markup into its picture.** With a writer that escapes quotes, no value
of an attribute holds a quote as it is written. The picture is read as it is meant, so each id, label,
colour and pattern of dashes stays inside its own attribute or text. And graphs of texts that differ in
nothing else have pictures of the same structure. -/
theorem picture_encloses {w : Writer} (hw : w.Lawful) (hq : w.EscapesQuotes) {text : String}
    {g : Graph} (hg : compile text = .ok g) (palette : Palette) :
    (∀ a ∈ (Paint.document w g palette).allAttributes, Unquoted (w.value a.2)) ∧
    Markup.read (g.draw w palette) = (Paint.document w g palette).items w ∧
    ∀ (text' : String) (k : Graph) (palette' : Palette), compile text' = .ok k → k.SameFeatures g →
      Markup.outlines (Markup.read (k.draw w palette')) =
        Markup.outlines (Markup.read (g.draw w palette)) := by
  refine ⟨fun a _ => hq.unquoted_value a.2, read_draw hw hq g palette, ?_⟩
  intro text' k palette' hk hfeatures
  rw [read_draw hw hq, read_draw hw hq, Element.outlines_items, Element.outlines_items]
  exact Paint.outlines_document_congr _ _ (wellFormed_of_compile hg).toIntegral
    (wellFormed_of_compile hk).toIntegral hfeatures w

/-- A text with markup in its labels, its colours and its dashes. -/
def wildText : String :=
  "a: \"<b c=\\\"d\\\">\"\na.style.fill: \"red\\\" onload=\\\"b\"\n" ++
    "a -> b: \"\\\"&\" \x7b\nstyle.stroke-dash: \"\\\"/><g x=\\\"\"\n\x7d"

/-- A text of the same kind without any. -/
def tameText : String :=
  "user: phone\nuser.style.fill: red\nuser -> web: reads \x7b\nstyle.stroke-dash: 3\n\x7d"

theorem picture_encloses_wild : ∃ g k palette,
    compile wildText = .ok g ∧ compile tameText = .ok k ∧ Palette.ofTheme? 0 = some palette ∧
    g.edges.map (·.attributes.get? "style.stroke-dash") = [some "\"/><g x=\""] ∧
    Markup.read (g.draw .svg palette) = (Paint.document .svg g palette).items .svg ∧
    Markup.outlines (Markup.read (k.draw .svg palette)) =
      Markup.outlines (Markup.read (g.draw .svg palette)) := by
  have hwild : (compile wildText).toOption.map (fun g => (g.preorder.map Object.features,
      g.edges.map Edge.features, g.edges.map (·.attributes.get? "style.stroke-dash"))) =
      some ([("rectangle", false), ("rectangle", false)], [(.forward, true, true)],
        [some "\"/><g x=\""]) := by
    decide +kernel
  have htame : (compile tameText).toOption.map (fun g => (g.preorder.map Object.features,
      g.edges.map Edge.features)) =
      some ([("rectangle", false), ("rectangle", false)], [(.forward, true, true)]) := by
    decide +kernel
  obtain ⟨g, hg, hseen⟩ := Option.map_eq_some_iff.mp hwild
  obtain ⟨k, hk, hseen'⟩ := Option.map_eq_some_iff.mp htame
  obtain ⟨hobjects, hrest⟩ := Prod.mk.inj hseen
  obtain ⟨hedges, hdash⟩ := Prod.mk.inj hrest
  obtain ⟨hobjects', hedges'⟩ := Prod.mk.inj hseen'
  have hg := toOption_eq_some_iff.mp hg
  have hk := toOption_eq_some_iff.mp hk
  obtain ⟨palette, htheme⟩ : ∃ palette, Palette.ofTheme? 0 = some palette := ⟨_, rfl⟩
  obtain ⟨-, hread, hstructure⟩ :=
    picture_encloses Writer.lawful_svg Writer.escapesQuotes_svg hg palette
  exact ⟨g, k, palette, hg, hk, htheme, hdash, hread, hstructure tameText k palette hk
    ⟨hobjects'.trans hobjects.symm, hedges'.trans hedges.symm⟩⟩

end Graph

end BoxDiagram
