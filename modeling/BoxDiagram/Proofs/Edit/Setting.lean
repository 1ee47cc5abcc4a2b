import BoxDiagram.Proofs.Edit.Deletion
import BoxDiagram.Proofs.Edit.IndexedKey
import BoxDiagram.Proofs.Edit.Written
import BoxDiagram.Proofs.Graph.Ancestors

/-!
# Setting: one slot is written

A key and a tag address one slot (`Targets`): without an attribute path and without a tag the label,
which an object that is not there is given along with its missing ancestors; else the attribute that
the tagged attribute path stands for. In an integral graph, setting writes that slot and nothing else
(`exists_targets_of_set`), and doing it again changes nothing (`set_again`). The tag `style` is another way to
write a key: it stands for the segment `style` in front of the last name (`setting_writes`).
-/

namespace BoxDiagram

open Dotted Edit

/-! ### Tags -/

theorem effectiveTag_style : effectiveTag (some "style") = some "style" := by decide

theorem effectiveTag_none : effectiveTag none = none := rfl

theorem applyTag_of_untagged {tag : Option String} (htag : effectiveTag tag = none)
    (path attr : List String) : applyTag tag path attr = (path, attr) := by
  unfold applyTag
  rw [htag]

theorem applyTag_snd_eq_nil_iff {tag : Option String} {path attr : List String} :
    (applyTag tag path attr).2 = [] ↔ effectiveTag tag = none ∧ attr = [] := by
  unfold applyTag
  cases effectiveTag tag with
  | none => simp
  | some t =>
    dsimp only
    split_ifs with hhead hattr
    · have hne : attr ≠ [] := fun hnil => by simp [hnil] at hhead
      simp [hne]
    · simp
    · simp

namespace Key

/-- The key with a tag in front of its attribute path. In the path of an object without an attribute
path, the last name becomes one. -/
def withTag (tag : Option String) : Key → Key
  | .object path attr => .object (applyTag tag path attr).1 (applyTag tag path attr).2
  | .edge k => .edge { k with attr := (applyTag tag [] k.attr).2 }

end Key

theorem connectionAttribute_eq (tag : Option String) (attr : List String) :
    connectionAttribute tag attr = if effectiveTag tag = none ∧ attr = [] then .ok "label"
      else attributeName (applyTag tag [] attr).2 := by
  unfold connectionAttribute applyTag
  cases effectiveTag tag with
  | none =>
    dsimp only
    split_ifs with hattr hlabel hlabel
    · rfl
    · exact absurd ⟨rfl, hattr⟩ hlabel
    · exact absurd hlabel.2 hattr
    · rfl
  | some t =>
    have htagged : ¬ (some t = none ∧ attr = []) := by simp
    rw [if_neg htagged]
    dsimp only
    split_ifs with hhead hattr
    · rfl
    · rw [hattr]
      rfl
    · rfl

/-! ### Slots and values -/

namespace Slot

/-- The attribute of the slot can have the value, and an edge can carry it. -/
def Accepts (value : Option String) : Slot → Prop
  | .board name | .object _ name => checkValue name value = .ok ()
  | .edge _ name => checkConnectionName name = .ok () ∧ checkValue name value = .ok ()

end Slot

theorem checkValue_label (value : Option String) : checkValue "label" value = .ok () := by
  unfold checkValue
  cases value with
  | none => rfl
  | some v => exact mapError_eq_ok.mpr (Attribute.isValidOnConnection_label v).checked

namespace Graph

variable {g h : Graph} {key : String} {k : Key} {tag value : Option String} {slot : Slot}
  {added : List String}

/-- **The slot that a key and a tag address**, with the ids that setting it adds. Without a tag and an
attribute path it is the label; the label of an object comes with the object and its ancestors. -/
inductive Targets (g : Graph) (tag : Option String) : Key → Slot → List String → Prop
  | label {path : List String} (htag : effectiveTag tag = none) :
      Targets g tag (.object path []) (.object (join path) "label")
        ((ancestors (join path) ++ [join path]).filter (· ∉ g.ids))
  | connectionLabel {k : EdgeKey} {i : Nat} (htag : effectiveTag tag = none) (hattr : k.attr = [])
      (hi : g.edgeAt? k = some i) : Targets g tag (.edge k) (.edge i "label") []
  | named {k : Key} {slot : Slot} (hslot : g.Locates (k.withTag tag) slot) :
      Targets g tag k slot []

/-- The graph with objects without attributes added for some ids, and with a slot written. -/
def settle (g : Graph) (added : List String) (value : Option String) (slot : Slot) : Graph :=
  (g.addObjects (added.map Object.blank)).assign value slot

theorem settle_nil (g : Graph) (value : Option String) (slot : Slot) :
    g.settle [] value slot = g.assign value slot := by
  simp [settle, addObjects]

theorem Locates.name_ne_nil {path attr : List String} (hl : g.Locates (.object path attr) slot) :
    attr ≠ [] := by
  rintro rfl
  cases hl with
  | board hname => simp [Attribute.nameOf] at hname
  | object _ _ hname => simp [Attribute.nameOf] at hname

theorem Targets.isIn (ht : g.Targets tag k slot added) :
    slot.IsIn (g.addObjects (added.map Object.blank)) := by
  cases ht with
  | @label path htag =>
    show join path ∈ (g.addObjects _).ids
    rw [ids_addObjects_blank, List.mem_append, List.mem_filter, decide_eq_true_iff]
    by_cases hid : join path ∈ g.ids
    · exact Or.inl hid
    · exact Or.inr ⟨by simp, hid⟩
  | connectionLabel htag hattr hi => exact isIn_of_edgeAt? hi "label"
  | named hslot => simpa [addObjects] using hslot.isIn

/-! ### When setting succeeds -/

theorem setObject_label (hg : g.Integral) (path : List String) (value : Option String) :
    g.setObject path [] value = .ok (g.settle
      ((ancestors (join path) ++ [join path]).filter (· ∉ g.ids)) value
        (.object (join path) "label")) := by
  unfold setObject
  rw [if_pos rfl, write_of_isIn (show Slot.IsIn _ (.object (join path) "label") from
    mem_ids_ensure g (join path)), hg.ensure_eq]
  rfl

theorem setObject_attribute_eq_ok_iff {path attr : List String} (hattr : attr ≠ []) :
    g.setObject path attr value = .ok h ↔ ∃ slot, g.Locates (.object path attr) slot ∧
      slot.Accepts value ∧ h = g.assign value slot := by
  unfold setObject attributeName
  rw [if_neg hattr]
  simp only [bind_eq_ok, mapError_eq_ok]
  constructor
  · rintro ⟨name, hname, ⟨⟩, hcheck, hset⟩
    split_ifs at hset with hpath
    · rw [hpath]
      exact ⟨_, .board hname, hcheck, (eq_of_write hset).symm⟩
    · obtain ⟨id, hid, hset⟩ := bind_eq_ok.mp hset
      obtain ⟨hmem, rfl⟩ := existing_eq_ok_iff.mp hid
      exact ⟨_, .object hpath hmem hname, hcheck, (eq_of_write hset).symm⟩
  · rintro ⟨slot, hslot, haccepts, rfl⟩
    cases hslot with
    | board hname =>
      refine ⟨_, hname, (), haccepts, ?_⟩
      rw [if_pos rfl]
      rfl
    | object hpath hid hname =>
      refine ⟨_, hname, (), haccepts, ?_⟩
      rw [if_neg hpath, existing_eq_ok_iff.mpr ⟨hid, rfl⟩, ok_bind]
      exact write_of_isIn (show Slot.IsIn g (.object _ _) from hid)

theorem exists_targets_of_set (hg : g.Integral) (hset : g.set key tag value = .ok h) :
    ∃ k slot added, Key.parse key = .ok k ∧ g.Targets tag k slot added ∧ slot.Accepts value ∧
      h = g.settle added value slot := by
  obtain ⟨k, hk⟩ : ∃ k, Key.parse key = .ok k := by
    obtain ⟨k, hk, -⟩ := bind_eq_ok.mp (show (parseKey key >>= _) = Except.ok h from hset)
    exact ⟨k, mapError_eq_ok.mp hk⟩
  cases k with
  | object path attr =>
    rw [set_of_parse_object hk] at hset
    by_cases hattr : (applyTag tag path attr).2 = []
    · obtain ⟨htag, rfl⟩ := applyTag_snd_eq_nil_iff.mp hattr
      rw [applyTag_of_untagged htag, setObject_label hg] at hset
      exact ⟨_, _, _, hk, .label htag, checkValue_label value, (Except.ok.inj hset).symm⟩
    · obtain ⟨slot, hslot, haccepts, rfl⟩ := (setObject_attribute_eq_ok_iff hattr).mp hset
      exact ⟨_, slot, [], hk, .named hslot, haccepts, (settle_nil g value slot).symm⟩
  | edge k =>
    obtain ⟨i, name, hi, hname, hcheck, hvalue, rfl⟩ := (set_eq_ok_iff hk).mp hset
    rw [connectionAttribute_eq] at hname
    split_ifs at hname with hlabel
    · obtain rfl := Except.ok.inj hname
      exact ⟨_, _, [], hk, .connectionLabel hlabel.1 hlabel.2 hi, ⟨hcheck, hvalue⟩,
        (settle_nil g value (.edge i "label")).symm⟩
    · exact ⟨_, .edge i name, [], hk, .named (.edge hi (mapError_eq_ok.mp hname)),
        ⟨hcheck, hvalue⟩, (settle_nil g value (.edge i name)).symm⟩

theorem set_of_targets (hg : g.Integral) (hk : Key.parse key = .ok k)
    (htargets : g.Targets tag k slot added) (haccepts : slot.Accepts value) :
    g.set key tag value = .ok (g.settle added value slot) := by
  cases htargets with
  | label htag =>
    rw [set_of_parse_object hk, applyTag_of_untagged htag]
    exact setObject_label hg _ value
  | connectionLabel htag hattr hi =>
    rw [settle_nil]
    refine (set_eq_ok_iff hk).mpr ⟨_, "label", hi, ?_, haccepts.1, haccepts.2, rfl⟩
    rw [connectionAttribute_eq, if_pos ⟨htag, hattr⟩]
  | named hslot =>
    rw [settle_nil]
    cases k with
    | object path attr =>
      rw [set_of_parse_object hk]
      exact (setObject_attribute_eq_ok_iff hslot.name_ne_nil).mpr ⟨slot, hslot, haccepts, rfl⟩
    | edge k =>
      cases hslot with
      | edge hi hname =>
        refine (set_eq_ok_iff hk).mpr ⟨_, _, hi, ?_, haccepts.1, haccepts.2, rfl⟩
        rw [connectionAttribute_eq, if_neg, attributeName, hname]
        · rfl
        -- without a tag and an attribute path there would be no name
        · rintro ⟨htag, hattr⟩
          rw [applyTag_snd_eq_nil_iff.mpr ⟨htag, hattr⟩] at hname
          simp [Attribute.nameOf] at hname

/-! ### What setting changes -/

/-- **One slot is written**: it holds the value, or nothing if there is no value; the other slots hold
what they held. Objects are added at the end under the given ids and without attributes, and the other
objects and the edges are those that were there, in the same order. -/
structure Writes (g : Graph) (added : List String) (slot : Slot) (value : Option String)
    (h : Graph) : Prop where
  holds : h.slot? slot = value
  others : ∀ s, s ≠ slot → h.slot? s = g.slot? s
  skeleton : h.skeleton = (g.ids ++ added, g.skeleton.2)
  statements : h.statements = g.statements

theorem slot?_addObjects_blank (g : Graph) (added : List String) (s : Slot) :
    (g.addObjects (added.map Object.blank)).slot? s = g.slot? s := by
  cases s with
  | board name => rfl
  | edge i name => rfl
  | object id name =>
    simp only [slot?, find?, addObjects, List.find?_append]
    cases g.objects.find? (·.id = id) with
    | some o => rfl
    | none =>
      rw [Option.none_or, List.find?_map]
      cases added.find? _ <;> rfl

theorem Targets.writes (ht : g.Targets tag k slot added) (value : Option String) :
    g.Writes added slot value (g.settle added value slot) where
  holds := slot?_assign_self ht.isIn
  others s hs := (slot?_assign_of_ne hs).trans (slot?_addObjects_blank g added s)
  skeleton := by
    unfold settle
    rw [skeleton_assign]
    exact Prod.ext (ids_addObjects_blank g added) rfl
  statements := statements_assign _ value slot

/-! ### Setting again -/

theorem edgesBetween_eq (g : Graph) (source target : String) : g.edgesBetween source target =
    (g.skeleton.2.zipIdx.filter fun x => x.1.1 = source && x.1.2.2 = target).map (·.2) := by
  unfold skeleton
  rw [List.zipIdx_map, List.filter_map, List.map_map]
  rfl

theorem edgeAt?_congr (hedges : h.skeleton.2 = g.skeleton.2) (k : EdgeKey) :
    h.edgeAt? k = g.edgeAt? k := by
  unfold edgeAt? nthEdge?
  rw [edgesBetween_eq, edgesBetween_eq, hedges]

theorem Locates.mono (hl : g.Locates k slot) (hids : ∀ id ∈ g.ids, id ∈ h.ids)
    (hedges : h.skeleton.2 = g.skeleton.2) : h.Locates k slot := by
  cases hl with
  | board hname => exact .board hname
  | object hpath hid hname => exact .object hpath (hids _ hid) hname
  | edge hi hname => exact .edge ((edgeAt?_congr hedges _).trans hi) hname

/-- The slot is addressed the same once it is written; then nothing is missing any more. -/
theorem Targets.again (ht : g.Targets tag k slot added) (hw : g.Writes added slot value h) :
    h.Targets tag k slot [] := by
  obtain ⟨hids, hedges⟩ := Prod.mk.inj hw.skeleton
  cases ht with
  | @label path htag =>
    have hnone : (ancestors (join path) ++ [join path]).filter (· ∉ h.ids) = [] := by
      refine List.filter_eq_nil_iff.mpr fun x hx => ?_
      rw [decide_eq_true_iff, not_not, hids, List.mem_append, List.mem_filter, decide_eq_true_iff]
      exact (Classical.em (x ∈ g.ids)).imp_right fun hx' => ⟨hx, hx'⟩
    have hlabel : h.Targets tag (.object path []) _ _ := .label htag
    rwa [hnone] at hlabel
  | connectionLabel htag hattr hi =>
    exact .connectionLabel htag hattr ((edgeAt?_congr hedges _).trans hi)
  | named hslot =>
    exact .named (hslot.mono (fun id hid => hids ▸ List.mem_append_left _ hid) hedges)

theorem Targets.integral_settle (ht : g.Targets tag k slot added) (hg : g.Integral)
    (value : Option String) : (g.settle added value slot).Integral := by
  cases ht with
  | label htag =>
    unfold settle
    rw [← hg.ensure_eq]
    exact (hg.ensure _).assign value _
  | connectionLabel => exact settle_nil g value _ ▸ hg.assign value _
  | named => exact settle_nil g value _ ▸ hg.assign value _

/-- **Setting the same again changes nothing.** -/
theorem set_again (hg : g.Integral) (hset : g.set key tag value = .ok h) :
    h.set key tag value = .ok h := by
  obtain ⟨k, slot, added, hk, htargets, haccepts, rfl⟩ := exists_targets_of_set hg hset
  have hagain := htargets.again (htargets.writes value)
  rw [set_of_targets (htargets.integral_settle hg value) hk hagain haccepts, settle_nil]
  exact congrArg Except.ok (assign_assign _ value slot)

/-! ### Two ways to write a style -/

section Style
variable {x : String} (hx : IsName x) (hstyle : x ≠ "style")
include hx hstyle

theorem isPath_style : IsPath ["style", x] := by
  refine ⟨by simp, fun n hn => ?_⟩
  rcases List.mem_pair.mp hn with rfl | rfl
  · exact Attribute.isName_of_reserved "style" (by decide)
  · exact hx

/-- **The tag `style` is the segment `style`** in front of the last name of a path. -/
theorem set_style_object {path : List String} (hpath : ∀ n ∈ path, IsObjectName n)
    (value : Option String) : g.set (join (path ++ [x])) (some "style") value =
      g.set (join (path ++ ["style", x])) none value := by
  have hnotReserved : ∀ n ∈ path, Attribute.isReserved n = false := fun n hn =>
    (hpath n hn).notReserved
  have hnames : ∀ rest, IsPath rest → IsPath (path ++ rest) := fun rest hrest =>
    ⟨by simp [hrest.ne_nil], fun n hn => (List.mem_append.mp hn).elim
      (fun hn => (hpath n hn).toIsName) (hrest.names n)⟩
  have hlong := Key.parse_join_of_isPath (hnames _ (isPath_style hx hstyle))
  have hshort := Key.parse_join_of_isPath (hnames _ (isPath_singleton hx))
  rw [Attribute.splitReserved_append_of_notReserved hnotReserved] at hlong hshort
  rw [set_of_parse_object hlong, set_of_parse_object hshort, applyTag_of_untagged effectiveTag_none]
  have hstyled : Attribute.splitReserved ["style", x] = ([], ["style", x]) := by
    simp [Attribute.splitReserved, show Attribute.isReserved "style" = true by decide]
  have htagged : applyTag (some "style") (path ++ (Attribute.splitReserved [x]).1)
      (Attribute.splitReserved [x]).2 = (path, ["style", x]) := by
    unfold applyTag
    rw [effectiveTag_style]
    cases hreserved : Attribute.isReserved x with
    -- the name is an attribute path of its own, with the tag in front
    | true => simp [Attribute.splitReserved, hreserved, hstyle]
    -- the name is the last one of the object path, from where the tag takes it
    | false => simp [Attribute.splitReserved, hreserved]
  rw [hstyled, htagged, List.append_nil]

theorem set_style_indexed {e : String} {cut : Key.Indexed}
    (hcut : Key.indexed? (Text.trimStart e.toList) = some cut) (hattr : cut.attr = none)
    (value : Option String) : g.set (e ++ "." ++ x) (some "style") value =
      g.set (e ++ ".style." ++ x) none value := by
  have hshort := Key.parse_append_path hcut hattr (isPath_singleton hx).segmented
  have hlong := Key.parse_append_path hcut hattr (isPath_style hx hstyle).segmented
  have hjoin : e ++ "." ++ join ["style", x] = e ++ ".style." ++ x := by
    apply String.toList_injective
    simp [join]
  rw [join_singleton] at hshort
  rw [hjoin] at hlong
  cases hread : Key.readIndexed cut with
  | error err =>
    rw [hread] at hshort hlong
    unfold set parseKey
    rw [hshort, hlong]
    rfl
  | ok k =>
    rw [hread] at hshort hlong
    have hname : connectionAttribute (some "style") [x] = connectionAttribute none ["style", x] := by
      rw [connectionAttribute_eq, connectionAttribute_eq, effectiveTag_style,
        applyTag_of_untagged effectiveTag_none]
      simp [applyTag, effectiveTag_style, hstyle]
    rw [set_of_parse hshort, set_of_parse hlong]
    unfold setEdge
    dsimp only
    rw [hname]
    rfl

end Style

/-! ### Setting -/

/-- **Setting writes one slot.** In an integral graph, a successful setting writes the slot that its
key and its tag address and leaves the others as they are. Only the label of an object adds anything:
the object and its ancestors, as far as they are missing. Setting the same again changes nothing. The
tag `style` is the segment `style` in front of the last name, with the same result or the same error:
behind a path without keywords, which may be that of the board, and behind an indexed connection. -/
theorem setting_writes (hg : g.Integral) :
    (∀ key tag value h, g.set key tag value = .ok h → ∃ k slot added, Key.parse key = .ok k ∧
      g.Targets tag k slot added ∧ g.Writes added slot value h ∧ h.set key tag value = .ok h) ∧
    (∀ path x value, (∀ n ∈ path, IsObjectName n) → IsName x → x ≠ "style" →
      g.set (join (path ++ [x])) (some "style") value =
        g.set (join (path ++ ["style", x])) none value) ∧
    ∀ e cut x value, Key.indexed? (Text.trimStart e.toList) = some cut → cut.attr = none →
      IsName x → x ≠ "style" →
        g.set (e ++ "." ++ x) (some "style") value = g.set (e ++ ".style." ++ x) none value := by
  refine ⟨?slot, ?object, ?connection⟩
  case slot =>
    intro key tag value h hset
    obtain ⟨k, slot, added, hk, htargets, -, rfl⟩ := exists_targets_of_set hg hset
    exact ⟨k, slot, added, hk, htargets, htargets.writes value, set_again hg hset⟩
  case object =>
    intro path x value hpath hx hstyle
    exact set_style_object hx hstyle hpath value
  case connection =>
    intro e cut x value hcut hattr hx hstyle
    exact set_style_indexed hx hstyle hcut hattr value

/-- A graph with a colour on the second of two edges. -/
def tinted : Graph where
  objects := [.blank "a", .blank "a.b"]
  edges := [.blank "a" .forward "a.b",
    (Edge.blank "a" .forward "a.b").assign "style.fill" (some "red")]
  board := ∅
  statements := none

/-- A blank tag does not count, so the key is that of a label, and its object is added below a new
parent. The colour is written by a tag or in the key, on the board and on the second edge. -/
theorem setting_writes_tinted : tinted.Integral ∧
    (∃ h, tinted.set "c . d" (some " ") (some "far") = .ok h ∧
      tinted.Writes ["c", "c.d"] (.object "c.d" "label") (some "far") h ∧
      h.set "c . d" (some " ") (some "far") = .ok h) ∧
    tinted.set "fill" (some "style") (some "blue") =
      tinted.set "style.fill" none (some "blue") ∧
    ∃ h, tinted.set "(a -> a.b)[1].fill" (some "style") none = .ok h ∧
      tinted.set "(a -> a.b)[1].style.fill" none none = .ok h ∧ h.slot? (.edge 1 "style.fill") = none := by
  have hintegral : tinted.Integral := by decide +kernel
  obtain ⟨hslot, hobject, hconnection⟩ := setting_writes hintegral
  have hlabel : tinted.set "c . d" (some " ") (some "far") = .ok (tinted.settle ["c", "c.d"]
    (some "far") (.object "c.d" "label")) := by decide +kernel
  have herased : tinted.set "(a -> a.b)[1].style.fill" none none =
    .ok (tinted.assign none (.edge 1 "style.fill")) := by decide +kernel
  refine ⟨hintegral, ⟨_, hlabel, ?label, ?again⟩, ?board, _, ?tagged, herased, by decide +kernel⟩
  case label =>
    obtain ⟨k, slot, added, hk, htargets, hwrites, -⟩ := hslot _ _ _ _ hlabel
    have hparse : Key.parse "c . d" = .ok (.object ["c", "d"] []) := by decide +kernel
    obtain rfl := Except.ok.inj (hparse.symm.trans hk)
    cases htargets with
    | label => exact hwrites
    | named hlocates => exact absurd rfl hlocates.name_ne_nil
  case again => exact (hslot _ _ _ _ hlabel).choose_spec.choose_spec.choose_spec.2.2.2
  case board => exact hobject [] "fill" (some "blue") (by simp) (by decide) (by decide)
  case tagged =>
    have hcut : Key.indexed? (Text.trimStart "(a -> a.b)[1]".toList) =
      some ⟨"a -> a.b".toList, "1".toList, none⟩ := by decide +kernel
    exact (hconnection "(a -> a.b)[1]" _ "fill" none hcut rfl (by decide) (by decide)).trans herased

end Graph

end BoxDiagram
