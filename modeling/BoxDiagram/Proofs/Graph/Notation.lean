import BoxDiagram.Proofs.Graph.Build
import Mathlib.Logic.Relation

/-!
# Notation: blocks of objects and chains, written out

A declaration with a block stands for the declaration without it, followed by the statements of the
block with the path of the object in front of theirs; a chain stands for its connections one after the
other, each with the value and the block of the chain (`WritesOut`). What statements do is told by
their effect on any graph (`effect`), or by nothing if they have none because something is wrong with
them. Writing out one piece keeps that effect, also deep inside of blocks (`WritesOut.keeps`), so it
does not change the graph that a text describes, nor whether it describes one (`lower_of_unfolds`).
-/

namespace BoxDiagram

open Dotted Attribute

namespace Statement

/-! ### Writing out -/

/-- What stands in a block: declarations of objects and connections, or settings. -/
inductive Place where
  | objects
  | settings
  deriving DecidableEq, Repr

end Statement

/-- What stands in the block of a statement. -/
def Head.place : Head → Statement.Place
  | .declaration path => if path.any isReserved then .settings else .objects
  | .connection _ _ => .settings

namespace Statement

/-- A statement of the block of an object as it reads outside of the block, with the path of the object
in front of its key or of its endpoints. -/
def within (path : List String) : Statement → Statement
  | ⟨.declaration inner, value, block⟩ => ⟨.declaration (path ++ inner), value, block⟩
  | ⟨.connection endpoints arrows, value, block⟩ =>
    ⟨.connection (endpoints.map (path ++ ·)) arrows, value, block⟩

/-- The connections of a chain, each with its value and its block. -/
def links (value : Option String) (block : Option (List Statement)) :
    List (List String) → List Arrow → List Statement
  | source :: target :: rest, arrow :: arrows =>
    ⟨.connection [source, target] [arrow], value, block⟩ :: links value block (target :: rest) arrows
  | _, _ => []

/-- **One piece of notation is written out** in a statement: the block of an object that is declared
where objects are, or a chain; either may be the statement itself or stand somewhere in its block. -/
inductive WritesOut : Place → Statement → List Statement → Prop
  | block {path : List String} {value : Option String} {body : List Statement}
      (hpath : ∀ n ∈ path, isReserved n = false) :
      WritesOut .objects ⟨.declaration path, value, some body⟩
        (⟨.declaration path, value, none⟩ :: body.map (within path))
  | chain {place : Place} {endpoints : List (List String)} {arrows : List Arrow}
      {value : Option String} {block : Option (List Statement)} :
      WritesOut place ⟨.connection endpoints arrows, value, block⟩
        (links value block endpoints arrows)
  | inside {place : Place} {head : Head} {value : Option String} {front rest : List Statement}
      {s : Statement} {us : List Statement} (h : WritesOut head.place s us) :
      WritesOut place ⟨head, value, some (front ++ s :: rest)⟩
        [⟨head, value, some (front ++ us ++ rest)⟩]

/-- One piece of notation is written out in one of the statements of a text. -/
inductive Unfolds : List Statement → List Statement → Prop
  | intro {front rest : List Statement} {s : Statement} {us : List Statement}
      (h : WritesOut .objects s us) : Unfolds (front ++ s :: rest) (front ++ us ++ rest)

/-! ### Effects -/

/-- What commands do to a graph, if there are any commands. -/
def effect (x : Except SemanticError (List Command)) : Option (Graph → Graph) :=
  x.toOption.map fun cs g => cs.foldl Graph.run g

/-- One effect after another. -/
def andThen (x y : Option (Graph → Graph)) : Option (Graph → Graph) :=
  x.bind fun f => y.map (· ∘ f)

theorem andThen_assoc (x y z : Option (Graph → Graph)) :
    andThen (andThen x y) z = andThen x (andThen y z) := by
  cases x <;> cases y <;> cases z <;> rfl

theorem id_andThen (x : Option (Graph → Graph)) : andThen (some id) x = x := by
  cases x <;> rfl

theorem andThen_id (x : Option (Graph → Graph)) : andThen x (some id) = x := by
  cases x <;> rfl

theorem andThen_ite (p q : Bool) (x y : Option (Graph → Graph)) :
    andThen (if p then none else x) (if q then none else y) =
      if p || q then none else andThen x y := by
  cases p <;> cases q <;> cases x <;> rfl

variable {scope : Option String} {path : List String} {value : Option String}

theorem effect_append (x y : Except SemanticError (List Command)) :
    effect (do return (← x) ++ (← y)) = andThen (effect x) (effect y) := by
  cases x with
  | error e => rfl
  | ok cs =>
    cases y with
    | error e => rfl
    | ok ds => exact congrArg some (funext fun g => List.foldl_append)

theorem effect_commandsAll_cons (scope : Option String) (s : Statement) (ss : List Statement) :
    effect (commandsAll scope (s :: ss)) =
      andThen (effect (commands scope s)) (effect (commandsAll scope ss)) := by
  rw [commandsAll]
  exact effect_append _ _

theorem effect_commandsAll_nil (scope : Option String) :
    effect (commandsAll scope []) = some id := by
  rw [commandsAll]
  rfl

theorem effect_commandsAll_append (scope : Option String) (ss ts : List Statement) :
    effect (commandsAll scope (ss ++ ts)) =
      andThen (effect (commandsAll scope ss)) (effect (commandsAll scope ts)) := by
  induction ss with
  | nil => rw [List.nil_append, effect_commandsAll_nil, id_andThen]
  | cons s ss ih =>
    rw [List.cons_append, effect_commandsAll_cons, effect_commandsAll_cons, ih, andThen_assoc]

theorem effect_declaration (hpath : ∀ n ∈ path, isReserved n = false)
    (block : Option (List Statement)) : effect (commands scope ⟨.declaration path, value, block⟩) =
      andThen (some fun g => g.run (.declare (absolute scope path) value))
        (effect (commandsBlock (some (absolute scope path)) block)) := by
  rw [commands, splitReserved_of_notReserved hpath]
  dsimp only
  cases commandsBlock (some (absolute scope path)) block <;> rfl

/-! ### Blocks of objects -/

theorem absolute_absolute (hne : path ≠ []) (scope : Option String) (inner : List String) :
    absolute (some (absolute scope path)) inner = absolute scope (path ++ inner) := by
  cases inner with
  | nil => rw [List.append_nil, absolute]
  | cons n rest =>
    cases scope with
    | none =>
      show join path ++ "." ++ join (n :: rest) = join (path ++ n :: rest)
      rw [join_append hne (by simp)]
    | some id =>
      obtain ⟨m, front, rfl⟩ := List.exists_cons_of_ne_nil hne
      show id ++ "." ++ join (m :: front) ++ "." ++ join (n :: rest) = id ++ "." ++ join _
      rw [join_append (by simp) (by simp)]
      simp only [String.append_assoc]

theorem toOption_setting (key key' : String) (attr : List String) (value : Option String) :
    (setting key attr value).toOption = (setting key' attr value).toOption := by
  unfold setting
  simp only [toOption_bind, toOption_mapError]
  cases value with
  | none => rfl
  | some v => simp only [toOption_bind, toOption_mapError]

theorem toOption_styleSetting (key key' : String) (s : Statement) :
    (styleSetting key s).toOption = (styleSetting key' s).toOption := by
  unfold styleSetting
  split <;> rfl

theorem toOption_settings (path path' attr : List String) (value : Option String)
    (block : Option (List Statement)) : (settings path attr value block).toOption =
      (settings path' attr value block).toOption := by
  unfold settings
  split_ifs
  · cases block with
    | none => rfl
    | some entries => exact toOption_mapM_congr (toOption_styleSetting _ _) entries
  · rfl
  · dsimp only
    rw [toOption_bind, toOption_bind, toOption_setting]

theorem effect_attribute {before attr : List String} {name : String}
    (hsplit : splitReserved path = (before, name :: attr)) (block : Option (List Statement)) :
    effect (commands scope ⟨.declaration path, value, block⟩) =
      (settings path (name :: attr) value block).toOption.map fun l g =>
        (l.map fun (n, v) => Command.assign
          (if before = [] then scope else some (absolute scope before)) n v).foldl Graph.run g := by
  rw [commands, hsplit]
  dsimp only
  cases settings path (name :: attr) value block <;> rfl

/-- **A statement of a block has the same effect outside**, with the path of the object in front. -/
theorem effect_within (hne : path ≠ []) (hpath : ∀ n ∈ path, isReserved n = false)
    (s : Statement) : effect (commands scope (within path s)) =
      effect (commands (some (absolute scope path)) s) := by
  obtain ⟨head, value, block⟩ := s
  cases head with
  | declaration inner =>
    show effect (commands scope ⟨.declaration (path ++ inner), value, block⟩) = _
    obtain ⟨before, attr, hsplit⟩ : ∃ before attr, splitReserved inner = (before, attr) := ⟨_, _, rfl⟩
    have hlong : splitReserved (path ++ inner) = (path ++ before, attr) := by
      rw [splitReserved_append_of_notReserved hpath, hsplit]
    cases attr with
    | nil =>
      rw [commands, commands, hsplit, hlong]
      dsimp only
      rw [absolute_absolute hne]
    | cons name attr =>
      have htarget : (if path ++ before = [] then scope else some (absolute scope (path ++ before))) =
          if before = [] then some (absolute scope path)
          else some (absolute (some (absolute scope path)) before) := by
        rw [if_neg (by simp [hne]), absolute_absolute hne]
        split_ifs with hbefore
        · rw [hbefore, List.append_nil]
        · rfl
      rw [effect_attribute hlong, effect_attribute hsplit, htarget,
        toOption_settings (path ++ inner) inner]
  | connection endpoints arrows =>
    show effect (commands scope ⟨.connection (endpoints.map (path ++ ·)) arrows, value, block⟩) = _
    have hids : (endpoints.map (path ++ ·)).map (absolute scope) =
        endpoints.map (absolute (some (absolute scope path))) := by
      rw [List.map_map]
      exact List.map_congr_left fun inner _ => (absolute_absolute hne scope inner).symm
    rw [commands, commands, hids]

theorem effect_map_within (hne : path ≠ []) (hpath : ∀ n ∈ path, isReserved n = false)
    (body : List Statement) : effect (commandsAll scope (body.map (within path))) =
      effect (commandsAll (some (absolute scope path)) body) := by
  induction body with
  | nil => rw [List.map_nil, effect_commandsAll_nil, effect_commandsAll_nil]
  | cons s body ih =>
    rw [List.map_cons, effect_commandsAll_cons, effect_commandsAll_cons, effect_within hne hpath, ih]

/-! ### Chains -/

end Statement

namespace Graph

theorem foldl_ensure_addEdge (ids : List String) (g : Graph) (e : Edge) :
    ids.foldl ensure (g.addEdge e) = (ids.foldl ensure g).addEdge e := by
  induction ids generalizing g with
  | nil => rfl
  | cons id ids ih => exact ih (g.ensure id)

/-- **The first connection of a chain can be made first**: its target is there for the next one. -/
theorem run_connect_cons (g : Graph) (source target : String) (arrow : Arrow) (ids : List String)
    (arrows : List Arrow) (label : Option String) (settings : List (String × String)) :
    (g.run (.connect [source, target] [arrow] label settings)).run
        (.connect (target :: ids) arrows label settings) =
      g.run (.connect (source :: target :: ids) (arrow :: arrows) label settings) := by
  obtain ⟨e, he⟩ : ∃ e : Edge, e = ⟨source, target, arrow, connectionAttributes label settings⟩ :=
    ⟨_, rfl⟩
  have hfirst : g.run (.connect [source, target] [arrow] label settings) =
      ((g.ensure source).ensure target).addEdge e := he ▸ rfl
  have hrest : (target :: ids).foldl ensure (((g.ensure source).ensure target).addEdge e) =
      (ids.foldl ensure ((g.ensure source).ensure target)).addEdge e := by
    rw [foldl_ensure_addEdge, List.foldl_cons, ensure_of_mem (mem_ids_ensure _ target)]
  have hchain : chain (connectionAttributes label settings) (source :: target :: ids)
      (arrow :: arrows) = e :: chain (connectionAttributes label settings) (target :: ids) arrows := by
    rw [chain, he]
  rw [hfirst, run, run, hrest, hchain]
  simp only [addEdge, List.foldl_cons, List.append_assoc, List.singleton_append]

end Graph

namespace Statement

theorem effect_connection (scope : Option String) (endpoints : List (List String))
    (arrows : List Arrow) (value : Option String) (block : Option (List Statement)) :
    effect (commands scope ⟨.connection endpoints arrows, value, block⟩) =
      if (endpoints.map (absolute scope)).any fun id => (segments id).any isReserved then none
      else (connectionSettingsBlock [] block).toOption.map fun l g =>
        g.run (.connect (endpoints.map (absolute scope)) arrows value l) := by
  rw [commands]
  cases hfind : (endpoints.map (absolute scope)).find? fun id => (segments id).any isReserved with
  | some id =>
    have hany : (endpoints.map (absolute scope)).any fun id => (segments id).any isReserved :=
      List.any_eq_true.mpr ⟨id, List.mem_of_find?_eq_some hfind, by simpa using List.find?_some hfind⟩
    rw [if_pos hany]
    rfl
  | none =>
    have hnone : ¬ (endpoints.map (absolute scope)).any fun id => (segments id).any isReserved := by
      simpa using hfind
    rw [if_neg hnone]
    dsimp only
    cases connectionSettingsBlock [] block <;> rfl

/-- **A chain has the effect of its connections.** -/
theorem effect_links (scope : Option String) (value : Option String)
    (block : Option (List Statement)) : ∀ {endpoints : List (List String)} {arrows : List Arrow},
      arrows ≠ [] → endpoints.length = arrows.length + 1 →
        effect (commandsAll scope (links value block endpoints arrows)) =
          effect (commands scope ⟨.connection endpoints arrows, value, block⟩)
  | [source, target], [arrow], _, _ => by
    show effect (commandsAll scope [⟨.connection [source, target] [arrow], value, block⟩]) = _
    rw [effect_commandsAll_cons, effect_commandsAll_nil, andThen_id]
  | source :: target :: next :: rest, arrow :: arrow' :: arrows, _, hlength => by
    have hrest : (target :: next :: rest).length = (arrow' :: arrows).length + 1 := by
      simpa using hlength
    rw [links, effect_commandsAll_cons, effect_links scope value block (by simp) hrest,
      effect_connection, effect_connection, effect_connection, andThen_ite]
    -- an endpoint that addresses an attribute spoils the chain as it spoils one of its connections
    have hany : (((source :: target :: next :: rest).map (absolute scope)).any fun id =>
        (segments id).any isReserved) =
          ((([source, target].map (absolute scope)).any fun id => (segments id).any isReserved) ||
            ((target :: next :: rest).map (absolute scope)).any fun id =>
              (segments id).any isReserved) := by
      simp only [List.map_cons, List.map_nil, List.any_cons, List.any_nil, Bool.or_false,
        Bool.or_assoc, Bool.or_self_left]
    rw [hany]
    refine if_congr Iff.rfl rfl ?_
    cases (connectionSettingsBlock [] block).toOption with
    | none => rfl
    | some l => exact congrArg some (funext fun g => Graph.run_connect_cons g _ _ _ _ _ _ _)
  | [], _, _, hlength => by simp at hlength
  | [_], _, hne, hlength => by simp_all
  | [_, _], _ :: _ :: _, _, hlength => by simp at hlength
  | _ :: _ :: _ :: _, [_], _, hlength => by simp at hlength

/-! ### Meaning -/

theorem toOption_connectionSettingsAll_append (outer : List String) (ss ts : List Statement) :
    (connectionSettingsAll outer (ss ++ ts)).toOption =
      (connectionSettingsAll outer ss).toOption.bind fun a =>
        (connectionSettingsAll outer ts).toOption.map (a ++ ·) := by
  induction ss with
  | nil =>
    rw [List.nil_append, connectionSettingsAll]
    cases connectionSettingsAll outer ts <;> rfl
  | cons s ss ih =>
    rw [List.cons_append, connectionSettingsAll, connectionSettingsAll]
    simp only [toOption_bind, ih]
    cases (connectionSettings outer s).toOption with
    | none => rfl
    | some a =>
      cases (connectionSettingsAll outer ss).toOption with
      | none => rfl
      | some b =>
        cases (connectionSettingsAll outer ts).toOption with
        | none => rfl
        | some c => exact congrArg some (List.append_assoc a b c).symm

/-- **Statements that mean the same**: they have the same effect, and where settings stand, they give
the same ones, in the block of a connection as well as in that of `style`. -/
structure SameMeaning (place : Place) (ss ts : List Statement) : Prop where
  effects : ∀ scope, effect (commandsAll scope ss) = effect (commandsAll scope ts)
  connection : place = .settings → ∀ outer,
    (connectionSettingsAll outer ss).toOption = (connectionSettingsAll outer ts).toOption
  style : place = .settings → ∀ key,
    (ss.mapM (styleSetting key)).toOption = (ts.mapM (styleSetting key)).toOption
  empty : ss = [] ↔ ts = []

variable {place : Place} {head : Head} {s : Statement} {ss ts us body body' : List Statement}

theorem SameMeaning.context (h : SameMeaning place ss ts) (front rest : List Statement) :
    SameMeaning place (front ++ ss ++ rest) (front ++ ts ++ rest) where
  effects scope := by
    simp only [effect_commandsAll_append, h.effects]
  connection hplace outer := by
    simp only [toOption_connectionSettingsAll_append, h.connection hplace]
  style hplace key := by
    simp only [List.mapM_append, toOption_bind, h.style hplace]
  empty := by
    simp only [List.append_eq_nil_iff, h.empty]

/-- A declaration is one of an object, or settings stand in its block. -/
theorem isObject_or_place (path : List String) : (∀ n ∈ path, isReserved n = false) ∨
    (Head.declaration path).place = .settings ∧
      ∃ before name attr, splitReserved path = (before, name :: attr) := by
  by_cases hany : path.any isReserved = true
  · have hne : (splitReserved path).2 ≠ [] := fun hnil => by
      obtain ⟨n, hn, hreserved⟩ := List.any_eq_true.mp hany
      have hnot := List.dropWhile_eq_nil_iff.mp hnil n hn
      simp [hreserved] at hnot
    obtain ⟨name, attr, hattr⟩ := List.exists_cons_of_ne_nil hne
    exact Or.inr ⟨if_pos hany, _, name, attr, Prod.ext rfl hattr⟩
  · exact Or.inl (by simpa using hany)

/-- The settings that a block gives depend on its meaning only. -/
theorem SameMeaning.settings (h : SameMeaning .settings body body') (path attr : List String)
    (value : Option String) : (settings path attr value (some body)).toOption =
      (settings path attr value (some body')).toOption := by
  unfold Statement.settings
  have hempty : body = [] ↔ body' = [] := h.empty
  split_ifs with hstyle hbody hbody' hbody'
  · exact h.style rfl _
  · rfl
  · exact absurd (mt hempty.mpr hbody) hbody'
  · exact absurd (mt hempty.mp hbody') hbody
  · rfl

/-- **Blocks that mean the same** make statements that mean the same. -/
theorem SameMeaning.inside (h : SameMeaning head.place body body') (hhead : head.WellFormed)
    (place : Place) (value : Option String) :
    SameMeaning place [⟨head, value, some body⟩] [⟨head, value, some body'⟩] where
  effects scope := by
    rw [effect_commandsAll_cons, effect_commandsAll_cons]
    congr 1
    cases head with
    | declaration path =>
      rcases isObject_or_place path with hpath | ⟨hplace, before, name, attr, hsplit⟩
      · rw [effect_declaration hpath, effect_declaration hpath, commandsBlock, commandsBlock,
          h.effects]
      · rw [hplace] at h
        rw [effect_attribute hsplit, effect_attribute hsplit, h.settings]
    | connection endpoints arrows =>
      rw [effect_connection, effect_connection, connectionSettingsBlock, connectionSettingsBlock,
        h.connection rfl]
  connection _ outer := by
    simp only [connectionSettingsAll, toOption_bind]
    congr 1
    cases head with
    | declaration path =>
      simp only [connectionSettings]
      split_ifs with hstyle
      -- only the block of `style` is looked into, and settings stand in it
      · obtain ⟨hne, -⟩ : IsPath path := hhead
        obtain rfl : path = ["style"] := by
          rcases List.append_eq_singleton_iff.mp hstyle.1 with ⟨-, hpath⟩ | ⟨-, hnil⟩
          · exact hpath
          · exact absurd hnil hne
        rw [connectionSettingsBlock, connectionSettingsBlock]
        exact h.connection (by decide) _
      · rfl
    | connection endpoints arrows => simp only [connectionSettings]
  style _ key := by
    cases head <;> rfl
  empty := by simp

/-- A chain means what its connections mean; where settings stand, they are all out of place. -/
theorem sameMeaning_links {endpoints : List (List String)} {arrows : List Arrow} (harrows : arrows ≠ [])
    (hlength : endpoints.length = arrows.length + 1) (value : Option String)
    (block : Option (List Statement)) : SameMeaning place
      [⟨.connection endpoints arrows, value, block⟩] (links value block endpoints arrows) := by
  obtain ⟨source, target, rest, arrow, arrows', rfl, rfl⟩ : ∃ source target rest arrow arrows',
      endpoints = source :: target :: rest ∧ arrows = arrow :: arrows' := by
    match endpoints, arrows, harrows, hlength with
    | source :: target :: rest, arrow :: arrows', _, _ => exact ⟨_, _, _, _, _, rfl, rfl⟩
    | [_], _ :: _, _, hlength => simp at hlength
    | [], _, _, hlength => simp at hlength
  refine ⟨fun scope => ?_, fun _ outer => ?_, fun _ key => ?_, by simp [links]⟩
  · rw [effect_links scope value block harrows hlength, effect_commandsAll_cons,
      effect_commandsAll_nil, andThen_id]
  · have hnone : ∀ endpoints arrows, (connectionSettings outer
        ⟨.connection endpoints arrows, value, block⟩).toOption = none := fun endpoints arrows => by
      rw [connectionSettings]
      split_ifs <;> rfl
    simp only [links, connectionSettingsAll, toOption_bind, hnone]
    rfl
  · rw [links, List.mapM_cons, List.mapM_cons]
    rfl

/-- **Writing out one piece of notation keeps the meaning.** -/
theorem WritesOut.keeps (h : WritesOut place s us) (hs : s.WellFormed) : SameMeaning place [s] us := by
  induction h with
  | @block path value body hpath =>
    obtain ⟨⟨hne, -⟩, -⟩ := hs
    refine ⟨fun scope => ?_, nofun, nofun, by simp⟩
    rw [effect_commandsAll_cons, effect_commandsAll_nil, andThen_id, effect_declaration hpath,
      effect_commandsAll_cons, effect_declaration hpath, commandsBlock, commandsBlock,
      effect_map_within hne hpath]
    rfl
  | chain =>
    obtain ⟨⟨harrows, hlength, -⟩, -⟩ := hs
    exact sameMeaning_links harrows hlength _ _
  | @inside place head value front rest s us h ih =>
    obtain ⟨hhead, hblock⟩ := hs
    have hmember : s.WellFormed := hblock s (by simp)
    have hcontext := (ih hmember).context front rest
    rw [List.append_assoc, List.singleton_append] at hcontext
    exact hcontext.inside hhead place value

/-! ### What is written out can be written out again -/

theorem WellFormed.within (hs : s.WellFormed) (hpath : IsPath path) : (within path s).WellFormed := by
  obtain ⟨head, value, block⟩ := s
  obtain ⟨hhead, hblock⟩ := hs
  cases head with
  | declaration inner => exact .intro (hpath.append hhead) hblock
  | connection endpoints arrows =>
    obtain ⟨harrows, hlength, hendpoints⟩ := hhead
    refine .intro ⟨harrows, by simpa using hlength, fun e he => ?_⟩ hblock
    obtain ⟨inner, hinner, rfl⟩ := List.mem_map.mp he
    exact hpath.append (hendpoints inner hinner)

theorem wellFormed_of_mem_links {value : Option String} {block : Option (List Statement)}
    (hblock : ∀ t ∈ block.getD [], t.WellFormed) : ∀ {endpoints : List (List String)}
      {arrows : List Arrow}, (∀ e ∈ endpoints, IsPath e) →
        ∀ u ∈ links value block endpoints arrows, u.WellFormed
  | source :: target :: rest, arrow :: arrows, hendpoints, u, hu => by
    obtain ⟨hsource, htargets⟩ := List.forall_mem_cons.mp hendpoints
    rcases List.mem_cons.mp hu with rfl | hu
    · exact .intro ⟨by simp, rfl, by simpa using ⟨hsource, htargets target (by simp)⟩⟩ hblock
    · exact wellFormed_of_mem_links hblock htargets u hu
  | [], _, _, _, hu => by simp [links] at hu
  | [_], _, _, _, hu => by simp [links] at hu
  | _ :: _ :: _, [], _, _, hu => by simp [links] at hu

theorem forall_wellFormed_context {front rest : List Statement}
    (hall : ∀ t ∈ front ++ s :: rest, t.WellFormed) (hus : ∀ u ∈ us, u.WellFormed) :
    ∀ t ∈ front ++ us ++ rest, t.WellFormed := by
  intro t ht
  rcases List.mem_append.mp ht with ht | ht
  · rcases List.mem_append.mp ht with ht | ht
    · exact hall t (by simp [ht])
    · exact hus t ht
  · exact hall t (by simp [ht])

theorem WritesOut.wellFormed (h : WritesOut place s us) (hs : s.WellFormed) :
    ∀ u ∈ us, u.WellFormed := by
  induction h with
  | @block path value body hpath =>
    obtain ⟨hhead, hblock⟩ := hs
    refine List.forall_mem_cons.mpr ⟨.intro hhead (by simp), fun u hu => ?_⟩
    obtain ⟨t, ht, rfl⟩ := List.mem_map.mp hu
    exact (hblock t ht).within hhead
  | chain =>
    obtain ⟨⟨-, -, hendpoints⟩, hblock⟩ := hs
    exact wellFormed_of_mem_links hblock hendpoints
  | @inside place head value front rest s us h ih =>
    obtain ⟨hhead, hblock⟩ := hs
    have hmember : s.WellFormed := hblock s (by simp)
    refine List.forall_mem_singleton.mpr (.intro hhead ?_)
    exact forall_wellFormed_context hblock (ih hmember)

/-- **Writing out any number of pieces keeps the effect** of well-formed statements. -/
theorem effect_of_unfolds (h : Relation.ReflTransGen Unfolds ss ts) (hss : ∀ s ∈ ss, s.WellFormed) :
    (∀ t ∈ ts, t.WellFormed) ∧
      ∀ scope, effect (commandsAll scope ss) = effect (commandsAll scope ts) := by
  induction h with
  | refl => exact ⟨hss, fun _ => rfl⟩
  | tail _ hstep ih =>
    obtain ⟨hall, hsame⟩ := ih
    cases hstep with
    | @intro front rest s us hwrites =>
      have hs : s.WellFormed := hall s (by simp)
      have hmeaning := (hwrites.keeps hs).context front rest
      rw [List.append_assoc, List.singleton_append] at hmeaning
      exact ⟨forall_wellFormed_context hall (hwrites.wellFormed hs),
        fun scope => (hsame scope).trans (hmeaning.effects scope)⟩

end Statement

namespace Graph

open Statement

theorem lower_of_effect {ss ts : List Statement} {g : Graph}
    (h : effect (commandsAll none ss) = effect (commandsAll none ts)) (hl : lower ss = .ok g) :
    lower ts = .ok (g.withStatements (some ts)) := by
  obtain ⟨cs, hcs, rfl⟩ := lower_eq_ok_iff.mp hl
  cases hds : commandsAll none ts with
  | error e =>
    rw [hcs, hds] at h
    simp [effect, Except.toOption] at h
  | ok ds =>
    rw [hcs, hds] at h
    have hrun : cs.foldl run ∅ = ds.foldl run ∅ := congrFun (Option.some.inj h) ∅
    exact lower_eq_ok_iff.mpr ⟨ds, hds, by rw [hrun]; rfl⟩

/-- **Blocks of objects and chains are pure notation.** Wherever the statements of a text have some of
them written out, any number of times, the text describes a graph exactly if the statements do that
are left, and both graphs are the same but for the statements they are printed from. -/
theorem lower_of_unfolds {text : String} {ss ts : List Statement}
    (hparse : Statement.parse text = .ok ss) (h : Relation.ReflTransGen Unfolds ss ts) :
    (∀ g, lower ss = .ok g → lower ts = .ok (g.withStatements (some ts))) ∧
      ∀ g, lower ts = .ok g → lower ss = .ok (g.withStatements (some ss)) := by
  obtain ⟨-, hsame⟩ := effect_of_unfolds h (wellFormed_of_parse hparse)
  exact ⟨fun g hg => lower_of_effect (hsame none) hg,
    fun g hg => lower_of_effect (hsame none).symm hg⟩

/-- A text with a block, and in it a chain with a block of its own and an attribute. -/
def terseText : String := "a: 1 \x7b\n  b -> c <- b: x \x7b\n    tooltip: t\n  \x7d\n  shape: oval\n\x7d"

/-- Its statements. -/
def terse : List Statement := [⟨.declaration ["a"], some "1",
  some [⟨.connection [["b"], ["c"], ["b"]] [.forward, .backward], some "x",
    some [.assignment ["tooltip"] "t"]⟩, .assignment ["shape"] "oval"]⟩]

/-- Its statements with the chain and then the block written out. -/
def plain : List Statement := [⟨.declaration ["a"], some "1", none⟩,
  ⟨.connection [["a", "b"], ["a", "c"]] [.forward], some "x", some [.assignment ["tooltip"] "t"]⟩,
  ⟨.connection [["a", "c"], ["a", "b"]] [.backward], some "x", some [.assignment ["tooltip"] "t"]⟩,
  .assignment ["a", "shape"] "oval"]

theorem lower_of_unfolds_terse : ∃ g, Statement.parse terseText = .ok terse ∧
    Relation.ReflTransGen Unfolds terse plain ∧ lower terse = .ok g ∧
      g.ids = ["a", "a.b", "a.c"] ∧ g.edges.map Edge.label? = [some "x", some "x"] ∧
        lower plain = .ok (g.withStatements (some plain)) := by
  have hparse : Statement.parse terseText = .ok terse := by decide +kernel
  have hchain : Unfolds terse _ := @Unfolds.intro [] [] _ _ (@WritesOut.inside _ _ _ []
    [.assignment ["shape"] "oval"] _ _ .chain)
  have hblock : Unfolds _ plain := @Unfolds.intro [] [] _ _ (@WritesOut.block ["a"] (some "1")
    (links (some "x") (some [.assignment ["tooltip"] "t"]) [["b"], ["c"], ["b"]]
      [.forward, .backward] ++ [.assignment ["shape"] "oval"]) (by decide))
  have hsteps := (Relation.ReflTransGen.single hchain).tail hblock
  have hlower : (lower terse).toOption.map (fun g => (g.ids, g.edges.map Edge.label?)) =
      some (["a", "a.b", "a.c"], [some "x", some "x"]) := by decide +kernel
  obtain ⟨g, hg, hview⟩ := Option.map_eq_some_iff.mp hlower
  obtain ⟨hids, hlabels⟩ := Prod.mk.inj hview
  have hg := toOption_eq_some_iff.mp hg
  exact ⟨g, hparse, hsteps, hg, hids, hlabels, (lower_of_unfolds hparse hsteps).1 g hg⟩

end Graph

end BoxDiagram
