import BoxDiagram.Graph.Compile
import BoxDiagram.Proofs.Graph.WellFormed
import BoxDiagram.Proofs.Statement.WellFormed

/-!
# Building graphs: what commands keep, and what statements come down to

Any command keeps a graph integral (`Integral.run`), and commands with ids that can be written and
valid settings keep it well formed (`WellFormed.run`). Well-formed statements come down to such
commands only (`valid_of_commands`), so the graph of any text is well formed
(`wellFormed_of_compile`).
-/

namespace BoxDiagram

open Dotted Attribute

/-- **A valid command**: its ids can be written, and what it writes passes the checks. -/
def Command.Valid : Command → Prop
  | .declare id _ => IsId id
  | .assign target name value => (∀ id ∈ target, IsId id) ∧ IsValid name value
  | .connect ids _ _ settings =>
    (∀ id ∈ ids, IsId id) ∧ ∀ s ∈ settings, IsValidOnConnection s.1 s.2

namespace Graph

variable {g : Graph}

/-! ### Running commands -/

theorem of_mem_chain {m : Attributes} : ∀ {ids : List String} {arrows : List Arrow} {e : Edge},
    e ∈ chain m ids arrows → e.source ∈ ids ∧ e.target ∈ ids ∧ e.attributes = m
  | source :: target :: rest, arrow :: arrows, e, h => by
    rcases List.mem_cons.mp h with rfl | h
    · simp
    · obtain ⟨hs, ht, hm⟩ := of_mem_chain h
      exact ⟨List.mem_cons_of_mem _ hs, List.mem_cons_of_mem _ ht, hm⟩
  | [], _, _, h => by simp [chain] at h
  | [_], _, _, h => by simp [chain] at h
  | _ :: _ :: _, [], _, h => by simp [chain] at h

theorem validOnConnection_connectionAttributes {label : Option String}
    {settings : List (String × String)} (h : ∀ s ∈ settings, IsValidOnConnection s.1 s.2) :
    Attributes.ValidOnConnection (connectionAttributes label settings) := by
  intro ⟨name, value⟩ he
  have hmem := TextMap.mem_of_get?_ofList (TextMap.mem_entries_iff.mp he)
  rcases List.mem_append.mp hmem with hl | hs
  · cases label with
    | none => simp at hl
    | some v =>
      simp only [Option.map_some, Option.toList_some, List.mem_singleton, Prod.mk.injEq] at hl
      obtain ⟨rfl, rfl⟩ := hl
      exact isValidOnConnection_label value
  · exact h _ hs

/-- **Any command keeps a graph integral.** -/
theorem Integral.run (h : g.Integral) (c : Command) : (g.run c).Integral := by
  cases c with
  | declare id label =>
    cases label with
    | none => exact h.ensure id
    | some label => exact (h.ensure id).assign (some label) (.object id "label")
  | assign target name value =>
    cases target with
    | none => exact h.assign (some value) (.board name)
    | some id => exact (h.ensure id).assign (some value) (.object id name)
  | connect ids arrows label settings =>
    have hens : (ids.foldl Graph.ensure g).Integral := h.foldl_ensure ids
    refine hens.addEdges fun e he => ?_
    obtain ⟨hs, ht, -⟩ := of_mem_chain he
    exact ⟨mem_ids_foldl_ensure hs, mem_ids_foldl_ensure ht⟩

theorem Named.run (h : g.Named IsObjectName) {c : Command} (hc : c.Valid) :
    (g.run c).Named IsObjectName := by
  cases c with
  | declare id label =>
    have hens : (g.ensure id).Named IsObjectName := h.ensure hc
    cases label with
    | none => exact hens
    | some label => exact hens.assign (some label) (.object id "label")
  | assign target name value =>
    cases target with
    | none => exact h.assign (some value) (.board name)
    | some id => exact (h.ensure (hc.1 id rfl)).assign (some value) (.object id name)
  | connect ids arrows label settings => exact h.foldl_ensure hc.1

theorem Attributed.run (h : g.Attributed) {c : Command} (hc : c.Valid) : (g.run c).Attributed := by
  cases c with
  | declare id label =>
    cases label with
    | none => exact h.ensure id
    | some label =>
      refine (h.ensure id).assign (.object id "label") fun v _ => ?_
      exact (isValidOnConnection_label v).toIsValid
  | assign target name value =>
    have hv : ∀ v ∈ some value, IsValid name v := fun v hv => Option.some.inj hv ▸ hc.2
    cases target with
    | none => exact h.assign (.board name) hv
    | some id => exact (h.ensure id).assign (.object id name) hv
  | connect ids arrows label settings =>
    refine (h.foldl_ensure ids).addEdges fun e he => ?_
    obtain ⟨-, -, hattributes⟩ := of_mem_chain he
    rw [hattributes]
    exact validOnConnection_connectionAttributes hc.2

/-- **A valid command keeps a graph well formed.** -/
theorem WellFormed.run (h : g.WellFormed) {c : Command} (hc : c.Valid) : (g.run c).WellFormed :=
  ⟨h.toIntegral.run c, h.named.run hc, h.attributed.run hc⟩

end Graph

/-! ### The commands of statements -/

namespace Statement

variable {scope : Option String}

theorem of_mem_segments_absolute {path : List String} (hp : IsPath path) {s : String}
    (hs : s ∈ segments (absolute scope path)) : (∃ id ∈ scope, s ∈ segments id) ∨ s ∈ path := by
  cases scope with
  | none =>
    rw [absolute, hp.segments_join] at hs
    exact Or.inr hs
  | some id =>
    rw [absolute, segments_append_dot, hp.segments_join] at hs
    · exact (List.mem_append.mp hs).imp_left fun hs => ⟨id, rfl, hs⟩
    · exact hp.ne_nil

theorem isId_absolute {path : List String} (hscope : ∀ id ∈ scope, IsId id) (hp : IsPath path)
    (hr : ∀ s ∈ path, isReserved s = false) : IsId (absolute scope path) := by
  intro s hs
  rcases of_mem_segments_absolute hp hs with ⟨id, hid, hs⟩ | hs
  · exact hscope id hid s hs
  · exact ⟨hp.names s hs, hr s hs⟩

theorem isValid_of_setting {key : String} {path : List String} {value : Option String}
    {s : String × String} (h : setting key path value = .ok s) :
    IsValid s.1 s.2 ∧ nameOf path = .ok s.1 := by
  unfold setting at h
  simp only [bind_eq_ok, mapError_eq_ok] at h
  obtain ⟨name, hname, h⟩ := h
  cases value with
  | none => simp at h
  | some v =>
    simp only [bind_eq_ok, mapError_eq_ok, pure_eq_ok] at h
    obtain ⟨⟨⟩, hv, rfl⟩ := h
    exact ⟨isValid_of_nameOf hname hv, hname⟩

theorem isValidOnConnection_of_connectionSetting {path : List String} {value : Option String}
    {s : String × String} (h : connectionSetting path value = .ok s) :
    IsValidOnConnection s.1 s.2 := by
  unfold connectionSetting at h
  simp only [bind_eq_ok, mapError_eq_ok] at h
  obtain ⟨name, hname, ⟨⟩, hcarried, hset⟩ := h
  obtain ⟨hvalid, hname'⟩ := isValid_of_setting hset
  rw [hname] at hname'
  exact ⟨hvalid, Except.ok.inj hname' ▸ hcarried⟩

theorem isValid_of_settings {path attr : List String} {value : Option String}
    {block : Option (List Statement)} {ss : List (String × String)}
    (h : settings path attr value block = .ok ss) : ∀ s ∈ ss, IsValid s.1 s.2 := by
  unfold settings at h
  dsimp only at h
  split_ifs at h
  · cases block with
    | none => simp at h
    | some entries =>
      intro s hs
      obtain ⟨entry, -, hset⟩ := exists_of_mapM h s hs
      unfold styleSetting at hset
      split at hset
      · simp at hset
      · exact (isValid_of_setting hset).1
  · simp only [bind_eq_ok, pure_eq_ok] at h
    obtain ⟨s, hset, rfl⟩ := h
    simpa using (isValid_of_setting hset).1

mutual

theorem isValid_of_connectionSettings : ∀ (outer : List String) (s : Statement)
    {ss : List (String × String)}, connectionSettings outer s = .ok ss →
      ∀ x ∈ ss, IsValidOnConnection x.1 x.2
  | outer, ⟨.connection endpoints arrows, value, block⟩, ss, h => by
    rw [connectionSettings] at h
    split_ifs at h
  | outer, ⟨.declaration path, value, block⟩, ss, h => by
    rw [connectionSettings] at h
    split_ifs at h
    · exact isValid_of_connectionSettingsBlock ["style"] block h
    · simp only [bind_eq_ok, pure_eq_ok] at h
      obtain ⟨x, hx, rfl⟩ := h
      simpa using isValidOnConnection_of_connectionSetting hx

theorem isValid_of_connectionSettingsBlock : ∀ (outer : List String)
    (block : Option (List Statement)) {ss : List (String × String)},
    connectionSettingsBlock outer block = .ok ss → ∀ x ∈ ss, IsValidOnConnection x.1 x.2
  | outer, none, ss, h => by
    rw [connectionSettingsBlock] at h
    rw [← Except.ok.inj h]
    exact nofun
  | outer, some statements, ss, h => by
    rw [connectionSettingsBlock] at h
    exact isValid_of_connectionSettingsAll outer statements h

theorem isValid_of_connectionSettingsAll : ∀ (outer : List String) (statements : List Statement)
    {ss : List (String × String)}, connectionSettingsAll outer statements = .ok ss →
      ∀ x ∈ ss, IsValidOnConnection x.1 x.2
  | outer, [], ss, h => by
    rw [connectionSettingsAll] at h
    rw [← Except.ok.inj h]
    exact nofun
  | outer, s :: rest, ss, h => by
    rw [connectionSettingsAll] at h
    simp only [bind_eq_ok, pure_eq_ok] at h
    obtain ⟨xs, hxs, ys, hys, rfl⟩ := h
    exact List.forall_mem_append.mpr ⟨isValid_of_connectionSettings outer s hxs,
      isValid_of_connectionSettingsAll outer rest hys⟩

end

theorem valid_of_commandsAll : ∀ {ss : List Statement},
    (∀ s ∈ ss, ∀ cs, commands scope s = .ok cs → ∀ c ∈ cs, c.Valid) →
      ∀ {cs : List Command}, commandsAll scope ss = .ok cs → ∀ c ∈ cs, c.Valid
  | [], _, cs, hcs => by
    rw [commandsAll] at hcs
    rw [← Except.ok.inj hcs]
    exact nofun
  | s :: ss, h, cs, hcs => by
    rw [commandsAll] at hcs
    simp only [bind_eq_ok, pure_eq_ok] at hcs
    obtain ⟨xs, hxs, ys, hys, rfl⟩ := hcs
    obtain ⟨hs, hss⟩ := List.forall_mem_cons.mp h
    exact List.forall_mem_append.mpr ⟨hs xs hxs, valid_of_commandsAll hss hys⟩

theorem valid_of_declaration {path : List String} {value : Option String}
    {block : Option (List Statement)} (hpath : IsPath path)
    (hblock : ∀ id, IsId id → ∀ t ∈ block.getD [], ∀ cs, commands (some id) t = .ok cs →
      ∀ c ∈ cs, c.Valid)
    (hscope : ∀ id ∈ scope, IsId id) {cs : List Command}
    (h : commands scope ⟨.declaration path, value, block⟩ = .ok cs) : ∀ c ∈ cs, c.Valid := by
  have hsplit := splitReserved_append path
  have hfree : ∀ s ∈ (splitReserved path).1, isReserved s = false := notReserved_of_splitReserved
  rw [commands] at h
  split at h
  · next before heq =>
    rw [heq, List.append_nil] at hsplit
    obtain rfl := hsplit
    rw [heq] at hfree
    have hid := isId_absolute hscope hpath hfree
    simp only [bind_eq_ok, pure_eq_ok] at h
    obtain ⟨inner, hinner, rfl⟩ := h
    refine List.forall_mem_cons.mpr ⟨hid, ?_⟩
    cases block with
    | none =>
      rw [commandsBlock] at hinner
      rw [← Except.ok.inj hinner]
      exact nofun
    | some ss =>
      rw [commandsBlock] at hinner
      exact valid_of_commandsAll (hblock _ hid) hinner
  · next before attr hne heq =>
    rw [heq] at hsplit hfree
    simp only [bind_eq_ok, pure_eq_ok] at h
    obtain ⟨settings, hsettings, rfl⟩ := h
    intro c hc
    obtain ⟨s, hs, rfl⟩ := List.mem_map.mp hc
    refine ⟨fun id hid => ?_, isValid_of_settings hsettings s hs⟩
    split_ifs at hid with hbefore
    · exact hscope id hid
    · obtain rfl := Option.some.inj hid
      have hnames : IsPath before :=
        ⟨hbefore, fun n hn => hpath.names n (hsplit ▸ List.mem_append_left _ hn)⟩
      exact isId_absolute hscope hnames hfree

theorem valid_of_connection {endpoints : List (List String)} {arrows : List Arrow}
    {value : Option String} {block : Option (List Statement)} (hpaths : ∀ e ∈ endpoints, IsPath e)
    (hscope : ∀ id ∈ scope, IsId id) {cs : List Command}
    (h : commands scope ⟨.connection endpoints arrows, value, block⟩ = .ok cs) :
    ∀ c ∈ cs, c.Valid := by
  rw [commands] at h
  split at h
  · simp at h
  · next hfind =>
    simp only [bind_eq_ok, pure_eq_ok] at h
    obtain ⟨settings, hsettings, rfl⟩ := h
    rw [List.forall_mem_singleton]
    refine ⟨fun id hid => ?_, isValid_of_connectionSettingsBlock [] block hsettings⟩
    have hres : ∀ s ∈ segments id, isReserved s = false := by
      simpa using List.find?_eq_none.mp hfind id hid
    obtain ⟨path, hpath, rfl⟩ := List.mem_map.mp hid
    intro s hs
    rcases of_mem_segments_absolute (hpaths path hpath) hs with ⟨id, hid, hs'⟩ | hs'
    · exact hscope id hid s hs'
    · exact ⟨(hpaths path hpath).names s hs', hres s hs⟩

/-- **Well-formed statements come down to valid commands.** -/
theorem valid_of_commands {s : Statement} (h : s.WellFormed) : ∀ (scope : Option String),
    (∀ id ∈ scope, IsId id) → ∀ cs, commands scope s = .ok cs → ∀ c ∈ cs, c.Valid := by
  induction h with
  | @intro s head block ih =>
    -- the statements of a block are read in the scope of its declaration
    intro scope hscope cs hcs
    obtain ⟨_ | _, value, block⟩ := s
    · refine valid_of_declaration head (fun id hid t ht => ih t ht (some id) ?_) hscope hcs
      exact fun x hx => Option.some.inj hx ▸ hid
    · exact valid_of_connection head.2.2 hscope hcs

end Statement

/-! ### Graphs of texts -/

namespace Graph

theorem lower_eq_ok_iff {ss : List Statement} {g : Graph} : lower ss = .ok g ↔
    ∃ cs, Statement.commandsAll none ss = .ok cs ∧ (cs.foldl run ∅).withStatements (some ss) = g := by
  unfold lower
  simp only [bind_eq_ok, pure_eq_ok]

theorem compile_eq_ok_iff {text : String} {g : Graph} :
    compile text = .ok g ↔ ∃ ss, Statement.parse text = .ok ss ∧ lower ss = .ok g := by
  unfold compile
  simp only [bind_eq_ok, mapError_eq_ok]

/-- **The graph of well-formed statements is well formed.** -/
theorem wellFormed_of_lower {ss : List Statement} {g : Graph} (hss : ∀ s ∈ ss, s.WellFormed)
    (h : lower ss = .ok g) : g.WellFormed := by
  obtain ⟨cs, hcs, rfl⟩ := lower_eq_ok_iff.mp h
  have hvalid : ∀ c ∈ cs, c.Valid := Statement.valid_of_commandsAll
    (fun s hs => Statement.valid_of_commands (hss s hs) none (by simp)) hcs
  have hempty : (∅ : Graph).WellFormed := ⟨integral_empty, nofun, attributed_empty⟩
  have hrun : (cs.foldl run ∅).WellFormed :=
    List.foldlRecOn cs run hempty fun g hg c hc => hg.run (hvalid c hc)
  exact ⟨hrun.toIntegral.withStatements _, hrun.named, hrun.attributed.withStatements _⟩

/-- **The graph of any text is well formed.** -/
theorem wellFormed_of_compile {text : String} {g : Graph} (h : compile text = .ok g) :
    g.WellFormed := by
  obtain ⟨ss, hparse, hlower⟩ := compile_eq_ok_iff.mp h
  exact wellFormed_of_lower (Statement.wellFormed_of_parse hparse) hlower

end Graph

end BoxDiagram
