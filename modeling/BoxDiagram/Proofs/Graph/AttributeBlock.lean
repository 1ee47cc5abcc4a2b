import BoxDiagram.Proofs.Graph.Build
import Mathlib.Logic.Relation

/-!
# Blocks of attributes: which are refused and which are dropped

Nothing can stand in the block of an attribute, unless it is `style` without a value. Where objects are
declared, an attribute with something in its block is refused. The entries of `style` and the settings
of a connection are read by their name and their value only: what stands in their blocks is dropped,
right or wrong. `heeded` is a statement without what is dropped. It has the same commands
(`commands_heeded`), and a statement that has commands is left as it is exactly if none of its
attributes but `style` holds anything (`sparse_iff_heeded`).
-/

namespace BoxDiagram

open Attribute

namespace Statement

/-! ### Attribute statements -/

/-- The statements in the block, if there is one. -/
def held (s : Statement) : List Statement := s.block.getD []

/-- One statement stands in the block of another. -/
def Holds (s t : Statement) : Prop := t ∈ s.held

def Declares (s : Statement) : Prop := ∃ path, s.head = .declaration path

/-- The part of the key of a declaration that addresses an attribute. -/
def attributePath (s : Statement) : List String :=
  match s.head with
  | .declaration path => (splitReserved path).2
  | .connection _ _ => []

/-- `style` without a value, whose block stands for style properties. -/
def IsStyle (s : Statement) : Prop := s.attributePath = ["style"] ∧ s.value = none

/-- Where an attribute is declared: among objects, in the block of `style`, or in a connection. -/
inductive Site where
  | object
  | style
  | connection
  deriving DecidableEq, Repr

/-- **The attribute statements in a statement**, itself or somewhere in its block. All declarations in
the block of `style` and anywhere in that of a connection are. -/
inductive Assigns : Site → Statement → Statement → Prop
  | direct {s : Statement} (hs : s.attributePath ≠ []) : Assigns .object s s
  | entry {s t : Statement} (hs : s.IsStyle) (hst : s.Holds t) (ht : t.Declares) :
      Assigns .style s t
  | setting {s t : Statement} (hs : ¬ s.Declares) (hst : Relation.TransGen Holds s t)
      (ht : t.Declares) : Assigns .connection s t
  | inside {site : Site} {s t x : Statement} (hs : s.Declares) (hobject : s.attributePath = [])
      (hst : s.Holds t) (h : Assigns site t x) : Assigns site s x

/-- No attribute statement but `style` holds anything. -/
def Sparse (s : Statement) : Prop := ∀ site x, Assigns site s x → x.held ≠ [] → x.IsStyle

/-! ### What is read -/

/-- The statement with nothing in its block. -/
def emptied (s : Statement) : Statement := { s with block := s.block.map fun _ => [] }

/-- A setting of a connection as far as it is read. -/
def heededSetting (s : Statement) : Statement :=
  if s.head = .declaration ["style"] ∧ s.value = none then
    { s with block := s.block.map (·.map emptied) }
  else s.emptied

mutual

/-- The statement without the blocks that are not read. -/
def heeded : Statement → Statement
  | ⟨.declaration path, value, block⟩ =>
    if (splitReserved path).2 = [] then ⟨.declaration path, value, heededBlock block⟩
    else if (splitReserved path).2 = ["style"] ∧ value = none then
      ⟨.declaration path, value, block.map (·.map emptied)⟩
    else ⟨.declaration path, value, block⟩
  | ⟨.connection endpoints arrows, value, block⟩ =>
    ⟨.connection endpoints arrows, value, block.map (·.map heededSetting)⟩

def heededBlock : Option (List Statement) → Option (List Statement)
  | none => none
  | some ss => some (heededAll ss)

def heededAll : List Statement → List Statement
  | [] => []
  | s :: rest => heeded s :: heededAll rest

end

variable {scope : Option String} {s x : Statement} {ss : List Statement}

theorem heededAll_eq_map : ∀ ss : List Statement, heededAll ss = ss.map heeded
  | [] => by rw [heededAll, List.map_nil]
  | s :: ss => by rw [heededAll, heededAll_eq_map ss, List.map_cons]

theorem heededBlock_eq_map (block : Option (List Statement)) :
    heededBlock block = block.map (·.map heeded) := by
  cases block with
  | none => rw [heededBlock, Option.map_none]
  | some ss => rw [heededBlock, heededAll_eq_map, Option.map_some]

theorem map_eq_self_iff {f : Statement → Statement} : ss.map f = ss ↔ ∀ s ∈ ss, f s = s := by
  have h := List.map_inj_left (l := ss) (f := f) (g := id)
  rwa [List.map_id] at h

theorem block_map_eq_self_iff {f : Statement → Statement} {block : Option (List Statement)} :
    block.map (·.map f) = block ↔ ∀ s ∈ block.getD [], f s = s := by
  cases block with
  | none => simp
  | some ss => rw [Option.map_some, Option.some_inj, map_eq_self_iff, Option.getD_some]

theorem emptied_eq_self_iff : s.emptied = s ↔ s.held = [] := by
  obtain ⟨head, value, _ | ss⟩ := s
  · simp [emptied, held]
  · simp [emptied, held, eq_comm]

/-! ### What is not read does not count -/

theorem connectionSettingsAll_eq (outer : List String) (ss : List Statement) :
    connectionSettingsAll outer ss = (ss.mapM (connectionSettings outer)).map List.flatten :=
  eq_map_flatten (by rw [connectionSettingsAll]) (fun s ss => by rw [connectionSettingsAll]) ss

theorem commandsAll_eq (scope : Option String) (ss : List Statement) :
    commandsAll scope ss = (ss.mapM (commands scope)).map List.flatten :=
  eq_map_flatten (by rw [commandsAll]) (fun s ss => by rw [commandsAll]) ss

theorem connectionSettingsBlock_eq (outer : List String) (block : Option (List Statement)) :
    connectionSettingsBlock outer block = connectionSettingsAll outer (block.getD []) := by
  cases block with
  | none => rw [connectionSettingsBlock, Option.getD_none, connectionSettingsAll]
  | some ss => rw [connectionSettingsBlock, Option.getD_some]

theorem commandsBlock_eq (scope : Option String) (block : Option (List Statement)) :
    commandsBlock scope block = commandsAll scope (block.getD []) := by
  cases block with
  | none => rw [commandsBlock, Option.getD_none, commandsAll]
  | some ss => rw [commandsBlock, Option.getD_some]

theorem getD_block_map (f : Statement → Statement) (block : Option (List Statement)) :
    (block.map (·.map f)).getD [] = (block.getD []).map f := by
  cases block <;> rfl

theorem styleSetting_emptied (key : String) (s : Statement) :
    styleSetting key s.emptied = styleSetting key s := rfl

/-- An entry of `style` in a connection is read without its block: its path is longer than `style`. -/
theorem connectionSettings_emptied (hs : s.WellFormed) :
    connectionSettings ["style"] s.emptied = connectionSettings ["style"] s := by
  obtain ⟨hhead, -⟩ := hs
  obtain ⟨path | ⟨endpoints, arrows⟩, value, block⟩ := s
  · obtain ⟨hne, -⟩ : IsPath path := hhead
    rw [emptied, connectionSettings, connectionSettings, if_neg (by simp [hne]), if_neg (by simp [hne])]
  · rw [emptied, connectionSettings, connectionSettings]

theorem connectionSettings_heededSetting (hs : s.WellFormed) :
    connectionSettings [] s.heededSetting = connectionSettings [] s := by
  obtain ⟨-, hblock⟩ := hs
  obtain ⟨path | ⟨endpoints, arrows⟩, value, block⟩ := s
  · unfold heededSetting
    split_ifs with hstyle
    · obtain ⟨hhead, hvalue⟩ := hstyle
      obtain rfl := Head.declaration.inj hhead
      have hstyle : ([] ++ ["style"] = ["style"]) ∧ value = none := ⟨rfl, hvalue⟩
      simp only [connectionSettings, if_pos hstyle, connectionSettingsBlock_eq,
        connectionSettingsAll_eq, getD_block_map]
      rw [mapM_map_congr fun t ht => connectionSettings_emptied (hblock t ht)]
    · have hnot : ¬ (([] ++ path = ["style"]) ∧ value = none) := fun ⟨hpath, hvalue⟩ =>
        hstyle ⟨congrArg Head.declaration hpath, hvalue⟩
      rw [emptied, connectionSettings, connectionSettings, if_neg hnot, if_neg hnot]
  · rw [heededSetting, if_neg (by simp), emptied, connectionSettings, connectionSettings]

/-! ### Commands, by what the key addresses -/

theorem commands_object {path : List String} {value : Option String}
    {block : Option (List Statement)} (h : (splitReserved path).2 = []) (scope : Option String) :
    commands scope ⟨.declaration path, value, block⟩ = do
      return .declare (absolute scope path) value ::
        (← commandsAll (some (absolute scope path)) (block.getD [])) := by
  rw [commands, ← commandsBlock_eq]
  split
  · rfl
  · next hne heq =>
    rw [heq] at h
    exact absurd h hne

theorem commands_attribute {path : List String} {value : Option String}
    {block : Option (List Statement)} (h : (splitReserved path).2 ≠ []) (scope : Option String) :
    commands scope ⟨.declaration path, value, block⟩ = do
      let target := if (splitReserved path).1 = [] then scope
        else some (absolute scope (splitReserved path).1)
      return (← settings path (splitReserved path).2 value block).map fun (name, v) =>
        .assign target name v := by
  rw [commands]
  split
  · next heq =>
    rw [heq] at h
    exact absurd rfl h
  · next heq => simp only [heq]

theorem settings_style (path : List String) (entries : List Statement) :
    settings path ["style"] none (some entries) =
      entries.mapM (styleSetting (Dotted.join path)) := by
  rw [settings, if_pos ⟨rfl, rfl⟩]

/-- **What is not heeded does not count**: the statement asks for the same, or is refused alike. -/
theorem commands_heeded (hs : s.WellFormed) :
    ∀ scope, commands scope s.heeded = commands scope s := by
  induction hs with
  | @intro s head hblock ih =>
    intro scope
    obtain ⟨path | ⟨endpoints, arrows⟩, value, block⟩ := s
    · rw [heeded]
      split_ifs with hobject hstyle
      · rw [commands_object hobject, commands_object hobject, heededBlock_eq_map, getD_block_map,
          commandsAll_eq, commandsAll_eq, mapM_map_congr fun t ht => ih t ht _]
      · obtain ⟨hpath, rfl⟩ := hstyle
        rw [commands_attribute hobject, commands_attribute hobject, hpath]
        cases block with
        | none => rfl
        | some entries =>
          rw [Option.map_some, settings_style, settings_style,
            mapM_map_congr fun t _ => styleSetting_emptied _ t]
      · rfl
    · rw [heeded, commands, commands, connectionSettingsBlock_eq, connectionSettingsBlock_eq,
        connectionSettingsAll_eq, connectionSettingsAll_eq, getD_block_map,
        mapM_map_congr fun t ht => connectionSettings_heededSetting (hblock t ht)]

/-! ### What the commands of a statement say about it -/

theorem exists_of_commandsAll {cs : List Command} (h : commandsAll scope ss = .ok cs) :
    ∀ s ∈ ss, ∃ cs, commands scope s = .ok cs := by
  rw [commandsAll_eq, map_eq_ok] at h
  obtain ⟨css, hcss, -⟩ := h
  exact exists_of_mem_of_mapM hcss

theorem exists_of_connectionSettingsBlock {outer : List String} {block : Option (List Statement)}
    {l : List (String × String)} (h : connectionSettingsBlock outer block = .ok l) :
    ∀ s ∈ block.getD [], ∃ l, connectionSettings outer s = .ok l := by
  rw [connectionSettingsBlock_eq, connectionSettingsAll_eq, map_eq_ok] at h
  obtain ⟨ls, hls, -⟩ := h
  exact exists_of_mem_of_mapM hls

theorem value_of_setting {key : String} {path : List String} {value : Option String}
    {x : String × String} (h : setting key path value = .ok x) : value ≠ none := by
  rintro rfl
  unfold setting at h
  simp at h

theorem value_of_connectionSetting {path : List String} {value : Option String}
    {x : String × String} (h : connectionSetting path value = .ok x) : value ≠ none := by
  unfold connectionSetting at h
  simp only [bind_eq_ok] at h
  obtain ⟨-, -, -, -, hset⟩ := h
  exact value_of_setting hset

theorem of_styleSetting {key : String} {x : String × String} (h : styleSetting key s = .ok x) :
    s.Declares ∧ s.value ≠ none := by
  unfold styleSetting at h
  split at h
  · simp at h
  · next path hhead => exact ⟨⟨path, hhead⟩, value_of_setting h⟩

theorem of_connectionSettings {outer : List String} {l : List (String × String)}
    (h : connectionSettings outer s = .ok l) : ∃ path, s.head = .declaration path ∧
      (s.value ≠ none ∨ outer ++ path = ["style"] ∧ s.value = none ∧
        ∃ l, connectionSettingsBlock ["style"] s.block = .ok l) := by
  obtain ⟨path | ⟨endpoints, arrows⟩, value, block⟩ := s
  · refine ⟨path, rfl, ?_⟩
    rw [connectionSettings] at h
    split_ifs at h with hstyle
    · exact Or.inr ⟨hstyle.1, hstyle.2, l, h⟩
    · obtain ⟨x, hx, -⟩ := bind_eq_ok.mp h
      exact Or.inl (value_of_connectionSetting hx)
  · rw [connectionSettings] at h
    split_ifs at h

/-- An attribute that is declared where objects are has nothing in its block, unless it is `style`. -/
theorem isStyle_of_commands {cs : List Command} (h : commands scope s = .ok cs)
    (hs : s.attributePath ≠ []) (hbody : s.held ≠ []) : s.IsStyle := by
  obtain ⟨path | ⟨endpoints, arrows⟩, value, block⟩ := s
  · have hattr : (splitReserved path).2 ≠ [] := hs
    rw [commands_attribute hattr] at h
    obtain ⟨l, hl, -⟩ := bind_eq_ok.mp h
    unfold settings at hl
    dsimp only at hl
    split_ifs at hl with hstyle hblock
    · exact hstyle
    · exact absurd hbody hblock
  · exact absurd rfl hs

/-- **Attributes of objects are guarded.** -/
theorem isStyle_of_assigns {cs : List Command} (h : commands scope s = .ok cs)
    (hx : Assigns .object s x) (hbody : x.held ≠ []) : x.IsStyle := by
  generalize hsite : Site.object = site at hx
  induction hx generalizing scope cs with
  | direct hs => exact isStyle_of_commands h hs hbody
  | entry => cases hsite
  | setting => cases hsite
  | @inside site s t x hs hobject hst _ ih =>
    obtain ⟨path | ⟨endpoints, arrows⟩, value, block⟩ := s
    · have hnone : (splitReserved path).2 = [] := hobject
      rw [commands_object hnone] at h
      obtain ⟨inner, hinner, -⟩ := bind_eq_ok.mp h
      obtain ⟨ds, hds⟩ := exists_of_commandsAll hinner t hst
      exact ih hds hbody hsite
    · obtain ⟨path, hpath⟩ := hs
      cases hpath

/-! ### What is dropped -/

theorem declares_of_attributePath (h : s.attributePath ≠ []) : s.Declares := by
  obtain ⟨path | ⟨endpoints, arrows⟩, value, block⟩ := s
  · exact ⟨path, rfl⟩
  · exact absurd rfl h

theorem IsStyle.attributePath_ne_nil (h : s.IsStyle) : s.attributePath ≠ [] := by
  simp [h.1]

theorem sparse_iff_of_object (hs : s.Declares) (hobject : s.attributePath = []) :
    s.Sparse ↔ ∀ t ∈ s.held, t.Sparse := by
  constructor
  · exact fun h t ht site x hx => h site x (.inside hs hobject ht hx)
  · intro h site x hx
    cases hx with
    | direct hattr => exact absurd hobject hattr
    | entry hstyle => exact absurd hobject hstyle.attributePath_ne_nil
    | setting hconnection => exact absurd hs hconnection
    | inside _ _ hst hx => exact h _ hst site x hx

theorem sparse_iff_of_style (hs : s.IsStyle)
    (hentries : ∀ t ∈ s.held, t.Declares ∧ t.value ≠ none) :
    s.Sparse ↔ ∀ t ∈ s.held, t.held = [] := by
  constructor
  · intro h t ht
    obtain ⟨hdecl, hvalue⟩ := hentries t ht
    by_contra hbody
    exact hvalue (h .style t (.entry hs ht hdecl) hbody).2
  · intro h site x hx hbody
    cases hx with
    | direct => exact hs
    | entry _ hst => exact absurd (h x hst) hbody
    | setting hconnection =>
      exact absurd (declares_of_attributePath hs.attributePath_ne_nil) hconnection
    | inside _ hobject => exact absurd hobject hs.attributePath_ne_nil

theorem sparse_of_attribute (hs : s.attributePath ≠ []) (hstyle : ¬ s.IsStyle) (hbody : s.held = []) :
    s.Sparse := by
  intro site x hx hne
  cases hx with
  | direct => exact absurd hbody hne
  | entry hs' => exact absurd hs' hstyle
  | setting hconnection => exact absurd (declares_of_attributePath hs) hconnection
  | inside _ hobject => exact absurd hobject hs

theorem eq_of_reaches (hs : s.held = []) (h : Relation.ReflTransGen Holds s x) : x = s := by
  rcases h.cases_head with rfl | ⟨t, ht, -⟩
  · rfl
  · rw [Holds, hs] at ht
    exact absurd ht List.not_mem_nil

/-- A setting of a connection is left as it is if nothing below it but `style` holds anything. -/
theorem heededSetting_eq_self_iff (hs : s.WellFormed) {l : List (String × String)}
    (h : connectionSettings [] s = .ok l) : s.heededSetting = s ↔
      ∀ x, Relation.ReflTransGen Holds s x → x.Declares → x.held ≠ [] → x.IsStyle := by
  obtain ⟨path, hhead, hvalue | ⟨hpath, hvalue, l, hl⟩⟩ := of_connectionSettings h
  · rw [heededSetting, if_neg fun h => hvalue h.2, emptied_eq_self_iff]
    constructor
    · intro hbody x hx _ hne
      exact absurd (eq_of_reaches hbody hx ▸ hbody) hne
    · intro hall
      by_contra hbody
      exact hvalue (hall s .refl ⟨path, hhead⟩ hbody).2
  · rw [List.nil_append] at hpath
    subst hpath
    have hstyle : s.IsStyle := ⟨by rw [attributePath, hhead]; rfl, hvalue⟩
    have hself : s.heededSetting = s ↔ ∀ u ∈ s.held, u.held = [] := by
      rw [heededSetting, if_pos ⟨hhead, hvalue⟩]
      obtain ⟨head, value, block⟩ := s
      simp only [mk.injEq, true_and, block_map_eq_self_iff, emptied_eq_self_iff, held]
    rw [hself]
    constructor
    · intro hbodies x hx _ hne
      rcases hx.cases_head with rfl | ⟨u, hu, hux⟩
      · exact hstyle
      · exact absurd (eq_of_reaches (hbodies u hu) hux ▸ hbodies u hu) hne
    · intro hall u hu
      by_contra hbody
      obtain ⟨k, hk⟩ := exists_of_connectionSettingsBlock hl u hu
      obtain ⟨-, hblock⟩ := hs
      obtain ⟨hname, -⟩ := hblock u hu
      obtain ⟨inner, hinner, hvalue' | ⟨hlong, -⟩⟩ := of_connectionSettings hk
      · exact hvalue' (hall u (.single hu) ⟨inner, hinner⟩ hbody).2
      · rw [hinner] at hname
        have hne : inner ≠ [] := IsPath.ne_nil hname
        simp [hne] at hlong

theorem sparse_iff_of_connection (hs : ¬ s.Declares) (hblock : ∀ t ∈ s.held, t.WellFormed)
    {l : List (String × String)} (h : connectionSettingsBlock [] s.block = .ok l) :
    s.Sparse ↔ ∀ t ∈ s.held, t.heededSetting = t := by
  have hsettings : (∀ t ∈ s.held, t.heededSetting = t) ↔ ∀ t ∈ s.held, ∀ x,
      Relation.ReflTransGen Holds t x → x.Declares → x.held ≠ [] → x.IsStyle := by
    refine forall₂_congr fun t ht => ?_
    obtain ⟨k, hk⟩ := exists_of_connectionSettingsBlock h t ht
    exact heededSetting_eq_self_iff (hblock t ht) hk
  rw [hsettings]
  constructor
  · intro hsparse t ht x htx hx
    exact hsparse .connection x (.setting hs (.head' ht htx) hx)
  · intro hall site x hx
    cases hx with
    | direct hattr => exact absurd (declares_of_attributePath hattr) hs
    | entry hstyle =>
      exact absurd (declares_of_attributePath hstyle.attributePath_ne_nil) hs
    | setting _ hsx hdecl =>
      obtain ⟨t, ht, htx⟩ := Relation.TransGen.head'_iff.mp hsx
      exact hall t ht x htx hdecl
    | inside hdecl => exact absurd hdecl hs

/-- **Nothing is dropped from a statement exactly if no attribute but `style` holds anything.** -/
theorem sparse_iff_heeded (hs : s.WellFormed) : ∀ {scope : Option String} {cs : List Command},
    commands scope s = .ok cs → (s.Sparse ↔ s.heeded = s) := by
  induction hs with
  | @intro s head hblock ih =>
    intro scope cs h
    obtain ⟨path | ⟨endpoints, arrows⟩, value, block⟩ := s
    · rw [heeded]
      split_ifs with hobject hstyle
      · rw [commands_object hobject] at h
        obtain ⟨inner, hinner, -⟩ := bind_eq_ok.mp h
        have hdecl : Declares ⟨.declaration path, value, block⟩ := ⟨path, rfl⟩
        rw [sparse_iff_of_object hdecl hobject, heededBlock_eq_map]
        simp only [mk.injEq, true_and, block_map_eq_self_iff]
        refine forall₂_congr fun t ht => ?_
        obtain ⟨ds, hds⟩ := exists_of_commandsAll hinner t ht
        exact ih t ht hds
      · rw [commands_attribute hobject] at h
        obtain ⟨l, hl, -⟩ := bind_eq_ok.mp h
        obtain ⟨hpath, rfl⟩ := hstyle
        have hentries : ∀ t ∈ block.getD [], t.Declares ∧ t.value ≠ none := by
          rw [hpath] at hl
          cases block with
          | none => exact nofun
          | some entries =>
            rw [settings_style] at hl
            intro t ht
            obtain ⟨x, hx⟩ := exists_of_mem_of_mapM hl t ht
            exact of_styleSetting hx
        have hstyle : IsStyle ⟨.declaration path, none, block⟩ := ⟨hpath, rfl⟩
        rw [sparse_iff_of_style hstyle hentries]
        simp only [mk.injEq, true_and, block_map_eq_self_iff, emptied_eq_self_iff]
        rfl
      · have hbody : block.getD [] = [] := by
          by_contra hbody
          exact hstyle (isStyle_of_commands h hobject hbody)
        exact iff_of_true (sparse_of_attribute hobject hstyle hbody) rfl
    · rw [commands] at h
      split at h
      · simp at h
      · obtain ⟨l, hl, -⟩ := bind_eq_ok.mp h
        have hconnection : ¬ Declares ⟨.connection endpoints arrows, value, block⟩ := by
          rintro ⟨path, hpath⟩
          cases hpath
        rw [sparse_iff_of_connection hconnection hblock hl, heeded]
        simp only [mk.injEq, true_and, block_map_eq_self_iff]
        rfl

end Statement

/-! ### Texts -/

namespace Graph

open Statement

/-- The graph of statements does not depend on what is dropped from them. -/
theorem lower_heededAll {ss : List Statement} (hss : ∀ s ∈ ss, s.WellFormed) :
    (lower (heededAll ss)).map (·.withStatements none) =
      (lower ss).map (·.withStatements none) := by
  have hcommands : commandsAll none (heededAll ss) = commandsAll none ss := by
    rw [heededAll_eq_map, commandsAll_eq, commandsAll_eq,
      mapM_map_congr fun s hs => commands_heeded (hss s hs) none]
  unfold lower
  rw [hcommands]
  cases commandsAll none ss <;> rfl

/-- **Blocks of attributes are refused for objects only.** A text in which an attribute other than
`style` is declared among objects and holds anything is refused. The entries of `style` and the
settings of a connection are not guarded: what they hold is dropped, and the text describes the same
graph without it, or is refused alike. So a text that describes a graph has nothing dropped exactly if
no attribute other than `style` holds anything. -/
theorem attribute_blocks {text : String} {ss : List Statement}
    (hparse : Statement.parse text = .ok ss) :
    (∀ s ∈ ss, ∀ x, Assigns .object s x → x.held ≠ [] → ¬ x.IsStyle →
      ∃ e, compile text = .error (.meaningless e)) ∧
    (lower (heededAll ss)).map (·.withStatements none) =
      (lower ss).map (·.withStatements none) ∧
    ∀ g, compile text = .ok g → ((∀ s ∈ ss, s.Sparse) ↔ heededAll ss = ss) := by
  have hss : ∀ s ∈ ss, s.WellFormed := wellFormed_of_parse hparse
  have hcompile : compile text = (lower ss).mapError .meaningless := by
    unfold compile
    rw [hparse]
    rfl
  refine ⟨fun s hs x hx hbody hstyle => ?_, lower_heededAll hss, fun g hg => ?_⟩
  · cases hlower : lower ss with
    | error e => exact ⟨e, by rw [hcompile, hlower]; rfl⟩
    | ok g =>
      obtain ⟨cs, hcs, -⟩ := lower_eq_ok_iff.mp hlower
      obtain ⟨ds, hds⟩ := exists_of_commandsAll hcs s hs
      exact absurd (isStyle_of_assigns hds hx hbody) hstyle
  · rw [hcompile, mapError_eq_ok] at hg
    obtain ⟨cs, hcs, -⟩ := lower_eq_ok_iff.mp hg
    rw [heededAll_eq_map, map_eq_self_iff]
    refine forall₂_congr fun s hs => ?_
    obtain ⟨ds, hds⟩ := exists_of_commandsAll hcs s hs
    exact sparse_iff_heeded (hss s hs) hds

/-- A connection and a `style` block with an attribute that holds a statement each. -/
def leakyText : String :=
  "a -> b: \x7b\n  label: x \x7b\n    c\n  \x7d\n\x7d\n" ++
    "d.style: \x7b\n  fill: red \x7b\n    e\n  \x7d\n\x7d"

/-- Its statements. -/
def leaky : List Statement := [
  ⟨.connection [["a"], ["b"]] [.forward], none,
    some [⟨.declaration ["label"], some "x", some [⟨.declaration ["c"], none, none⟩]⟩]⟩,
  ⟨.declaration ["d", "style"], none,
    some [⟨.declaration ["fill"], some "red", some [⟨.declaration ["e"], none, none⟩]⟩]⟩]

theorem attribute_blocks_leaky : ∃ g, Statement.parse leakyText = .ok leaky ∧
    compile leakyText = .ok g ∧ g.ids = ["a", "b", "d"] ∧ ¬ ∀ s ∈ leaky, s.Sparse := by
  have hparse : Statement.parse leakyText = .ok leaky := by decide +kernel
  have hids : (compile leakyText).toOption.map ids = some ["a", "b", "d"] := by decide +kernel
  obtain ⟨g, hg, hids⟩ := Option.map_eq_some_iff.mp hids
  have hg := toOption_eq_some_iff.mp hg
  refine ⟨g, hparse, hg, hids, fun hsparse => ?_⟩
  have hleft : heededAll leaky = leaky := ((attribute_blocks hparse).2.2 g hg).mp hsparse
  have hdropped : heededAll leaky ≠ leaky := by decide +kernel
  exact hdropped hleft

end Graph

end BoxDiagram
