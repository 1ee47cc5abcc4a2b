import BoxDiagram.Graph.View
import BoxDiagram.Proofs.Run

/-!
# Views: what of a graph they show

The view of an edge holds the two flags for its arrow heads among its attributes. No attribute has
the name of a flag, along every run (`valid_attributes_of_run`), so the view shows each attribute
next to them.
-/

namespace BoxDiagram

open Attribute

theorem Edge.get?_view (e : Edge) (id name : String) : (e.view id).attributes.get? name =
    if name = "dst_arrow" then some (.flag e.arrow.headAtTarget)
    else if name = "src_arrow" then some (.flag e.arrow.headAtSource)
    else (e.attributes.get? name).map .text := by
  unfold Edge.view
  dsimp only
  rw [TextMap.get?_insert, TextMap.get?_insert, TextMap.get?_ofList_map]

/-- **A view shows an edge in full**: the flags of its arrow, and besides them as texts exactly the
attributes that the edge holds. -/
structure Edge.ShownBy (e : Edge) (v : EdgeView) : Prop where
  headAtSource : v.attributes.get? "src_arrow" = some (.flag e.arrow.headAtSource)
  headAtTarget : v.attributes.get? "dst_arrow" = some (.flag e.arrow.headAtTarget)
  texts : ∀ name value,
    v.attributes.get? name = some (.text value) ↔ e.attributes.get? name = some value

theorem Attributes.Valid.get? {m : Attributes} (h : m.Valid) {name value : String}
    (hv : m.get? name = some value) : IsValid name value :=
  h (name, value) (TextMap.mem_entries_iff.mpr hv)

theorem Attributes.ValidOnConnection.get? {m : Attributes} (h : m.ValidOnConnection)
    {name value : String} (hv : m.get? name = some value) : IsValidOnConnection name value :=
  h (name, value) (TextMap.mem_entries_iff.mpr hv)

theorem Attributes.ValidOnConnection.get?_flag {m : Attributes} (h : m.ValidOnConnection) :
    m.get? "src_arrow" = none ∧ m.get? "dst_arrow" = none := by
  constructor <;> refine Option.eq_none_iff_forall_ne_some.mpr fun value hv => ?_
  · exact (h.get? hv).ne_flag.1 rfl
  · exact (h.get? hv).ne_flag.2 rfl

/-- **An edge with valid attributes is shown in full** by its view. -/
theorem Edge.shownBy_view {e : Edge} (h : e.attributes.ValidOnConnection) (id : String) :
    e.ShownBy (e.view id) where
  headAtSource := by rw [get?_view, if_neg (by decide), if_pos rfl]
  headAtTarget := by rw [get?_view, if_pos rfl]
  texts name value := by
    obtain ⟨hsource, htarget⟩ := h.get?_flag
    rw [get?_view]
    split_ifs with ht hs
    · simp [ht, htarget]
    · simp [hs, hsource]
    · simp

namespace Graph

variable {g k : Graph}

theorem getElem?_edges_view (g : Graph) (i : Nat) : g.view.edges[i]? = g.edgeView? i := by
  unfold view edgeView?
  simp [List.getElem?_zipIdx, Function.comp_def]

/-- **Only valid attributes are ever stored**: whatever the run, the name of each attribute is the
one that its segments give, its value passes the check for the name, and the attributes of edges pass
the check of connections as well. So no edge holds an attribute with the name of a flag, and the view
of the graph shows every edge in full. -/
theorem valid_attributes_of_run {cs : List Change} (h₀ : g.IsInitial) (h : g.after? cs = some k) :
    (∀ name value, k.board.get? name = some value → IsValid name value) ∧
      (∀ o ∈ k.objects, ∀ name value, o.attributes.get? name = some value → IsValid name value) ∧
      (∀ e ∈ k.edges, ∀ name value, e.attributes.get? name = some value →
        IsValidOnConnection name value) ∧
      (∀ e ∈ k.edges, e.attributes.get? "src_arrow" = none ∧
        e.attributes.get? "dst_arrow" = none) ∧
      ∀ (i : Nat) e, k.edges[i]? = some e → ∃ v, k.view.edges[i]? = some v ∧ e.ShownBy v := by
  have hk : k.Attributed := (sound_of_run h₀ h).attributed
  refine ⟨fun _ _ hv => hk.board.get? hv, fun o ho _ _ hv => (hk.objects o ho).get? hv,
    fun e he _ _ hv => (hk.edges e he).get? hv, fun e he => (hk.edges e he).get?_flag,
    fun i e he => ⟨e.view (k.publicIdOf e i), ?_, ?_⟩⟩
  · rw [getElem?_edges_view]
    unfold edgeView?
    rw [he, Option.map_some]
  · exact Edge.shownBy_view (hk.edges e (List.mem_of_getElem? he)) _

/-- A text with the label and the style of an object, and with the style of a chain. -/
def styledText : String :=
  "a: hi \x7b\n  style: \x7b\n    fill: red\n  \x7d\n\x7d\na -> b <-> c: \x7b\n  style.stroke: blue\n\x7d"

/-- The run that sets the style of an object by a tag, takes an edge out of the text, and sets the
style of the other one. -/
def stylingRun : List Change :=
  [.edit [] "b.stroke" (.set (some " style ") (some "red")), .patch "a -> b",
    .edit [] "(b <-> c)[0].style.animated" (.set none (some "true"))]

theorem valid_attributes_of_run_stylingRun : ∃ g k,
    compile styledText = .ok g ∧ g.after? stylingRun = some k ∧
    k.edges.map (·.attributes.entries) = [[("style.animated", "true"), ("style.stroke", "blue")]] ∧
    (∀ o ∈ k.objects, ∀ name value, o.attributes.get? name = some value → IsValid name value) ∧
    ∀ (i : Nat) e, k.edges[i]? = some e → ∃ v, k.view.edges[i]? = some v ∧ e.ShownBy v := by
  have hrun : ((compile styledText).toOption.bind (·.after? stylingRun)).map
      (fun k => k.edges.map (·.attributes.entries)) =
    some [[("style.animated", "true"), ("style.stroke", "blue")]] := by decide +kernel
  obtain ⟨k, hk, hedges⟩ := Option.map_eq_some_iff.mp hrun
  obtain ⟨g, hg, hk⟩ := Option.bind_eq_some_iff.mp hk
  have hg' := toOption_eq_some_iff.mp hg
  obtain ⟨-, hobjects, -, -, hshown⟩ := valid_attributes_of_run (Or.inr ⟨_, hg'⟩) hk
  exact ⟨g, k, hg', hk, hedges, hobjects, hshown⟩

end Graph

end BoxDiagram
