import BoxDiagram.Proofs.Edit.Connection
import BoxDiagram.Proofs.Key
import BoxDiagram.Proofs.Patch.Strip
import BoxDiagram.Proofs.Run
import BoxDiagram.Store.Basic

/-!
# Deletions in the text: which edges they remove

Removing a connection from the canonical text of a well-formed graph removes edges and nothing else.
Without an index these are all edges whose lines pass for the connection, with an index it is the one
with that number among the edges whose lines pass for a connection of the endpoints
(`deleteTextually_eq`). Whether they are the edges that the key addresses depends on the edges that
are mistaken for the connection (`deleteTextually_precise_iff`).

Such a removal is there for deletions at which the editor is at fault, so it should succeed where the
editor would, and remove the edge that the editor would. Two defects are in the way, and nothing else
(`deleteTextually_of_delete`). The editor finds an edge by its endpoints and its index, whatever its
arrow, and so does a removal from the text with an index; without one it goes by the arrow of the key,
and with `a <- b` as the only edge it refuses `a -> b`. And the line of `a -> b 2` is counted as one of
`a -> b`, so with that edge in front `(a -> b)[0]` removes the edge to `b 2`.
-/

namespace BoxDiagram

open Text Patch

namespace Patch

/-! ### Keys and the edges that pass for their connections -/

/-- The line of the edge passes for a connection between the ids, by some arrow. -/
def ResemblesAny (source target : String) (e : Edge) : Prop := ∃ arrow, Resembles source arrow target e

instance (source target : String) : DecidablePred (ResemblesAny source target) := fun e =>
  decidable_of_iff (∃ arrow ∈ Arrow.all, Resembles source arrow target e)
    ⟨fun ⟨arrow, _, h⟩ => ⟨arrow, h⟩, fun ⟨arrow, h⟩ => ⟨arrow, by cases arrow <;> decide, h⟩⟩

/-- The edge leads from one id to the other, and so passes for a connection between them. -/
theorem resemblesAny_of_joins {source target : String} {e : Edge}
    (h : e.joins source target = true) : ResemblesAny source target e := by
  obtain ⟨rfl, rfl⟩ : e.source = source ∧ e.target = target := by simpa [Edge.joins] using h
  exact ⟨e.arrow, resembles_self e⟩

section Finds

variable {source target : String} (hs : IsEndpoint source) (ht : IsEndpoint target)
  {es : List Edge} (hes : ∀ e ∈ es, IsEndpoint e.source ∧ IsEndpoint e.target)
include hs ht hes

theorem finds_spellings (arrow : Arrow) : Finds (declares (spellings source arrow target))
    (fun e => decide (Resembles source arrow target e)) es where
  plain _ _ hfree hrest := declares_spellings_of_free hs ht hfree hrest
  edge e he rest hrest := by
    obtain ⟨hsource, htarget⟩ := hes e he
    rw [Bool.eq_iff_iff, decide_eq_true_iff]
    exact declares_spellings_iff hs ht hsource htarget hrest

theorem finds_allSpellings : Finds (declares (allSpellings source target))
    (fun e => decide (ResemblesAny source target e)) es where
  plain cs rest hfree hrest := by
    rw [Bool.eq_false_iff, ne_eq, declares_allSpellings_iff]
    rintro ⟨arrow, hdeclares⟩
    rw [declares_spellings_of_free hs ht hfree hrest] at hdeclares
    exact Bool.false_ne_true hdeclares
  edge e he rest hrest := by
    obtain ⟨hsource, htarget⟩ := hes e he
    rw [Bool.eq_iff_iff, decide_eq_true_iff, declares_allSpellings_iff]
    exact exists_congr fun arrow => declares_spellings_iff hs ht hsource htarget hrest

end Finds

/-! ### Edges that are left -/

variable {p : Edge → Bool} {es : List Edge}

theorem leftEdges_all (seen : Nat) (es : List Edge) :
    leftEdges p (fun _ => true) seen es = es.filter (!p ·) := by
  induction es generalizing seen with
  | nil => rfl
  | cons e es ih =>
    rw [leftEdges, List.filter_cons]
    by_cases h : p e = true
    · simp [h, ih]
    · simp [h, ih]

theorem leftEdges_eq_self {n : Nat} : ∀ {es : List Edge} {seen : Nat},
    n < seen ∨ seen + es.countP p ≤ n → leftEdges p (fun m => decide (m = n)) seen es = es
  | [], _, _ => rfl
  | e :: es, seen, h => by
    rw [leftEdges]
    split_ifs with hp hseen
    · rw [List.countP_cons_of_pos hp] at h
      have hn : seen = n := by simpa using hseen
      omega
    · rw [List.countP_cons_of_pos hp] at h
      rw [leftEdges_eq_self (by omega)]
    · rw [List.countP_cons_of_neg hp] at h
      rw [leftEdges_eq_self h]

theorem leftEdges_eq_eraseIdx {n : Nat} : ∀ {es : List Edge} {i seen : Nat} {e : Edge},
    es[i]? = some e → p e = true → seen + (es.take i).countP p = n →
      leftEdges p (fun m => decide (m = n)) seen es = es.eraseIdx i
  | [], i, seen, e, he, _, _ => by simp at he
  | e :: es, 0, seen, e', he, hp, hn => by
    obtain rfl : e = e' := by simpa using he
    have hseen : seen = n := by simpa using hn
    rw [leftEdges, if_pos hp, if_pos (decide_eq_true hseen),
      leftEdges_eq_self (Or.inl (by omega)), List.eraseIdx_cons_zero]
  | e :: es, i + 1, seen, e', he, hp, hn => by
    have he' : es[i]? = some e' := by simpa using he
    rw [List.take_succ_cons] at hn
    rw [leftEdges, List.eraseIdx_cons_succ]
    by_cases h : p e = true
    · rw [List.countP_cons_of_pos h] at hn
      have hseen : seen ≠ n := by omega
      rw [if_pos h, if_neg (by simpa using hseen), leftEdges_eq_eraseIdx he' hp (by omega)]
    · rw [List.countP_cons_of_neg h] at hn
      rw [if_neg h, leftEdges_eq_eraseIdx he' hp hn]

end Patch

/-! ### Removals from the text, step by step -/

theorem Key.parseEdge_eq_ok_iff {key : String} {k : EdgeKey} :
    Key.parseEdge key = .ok k ↔ Key.parse key = .ok (.edge k) := by
  unfold Key.parseEdge
  rw [bind_eq_ok]
  constructor
  · rintro ⟨path | k', hparse, h⟩
    · cases h
    · rw [hparse, Except.ok.inj h]
  · exact fun hparse => ⟨_, hparse, rfl⟩

namespace Record

variable {b : Backend} {g : Graph} {key : String} {k : EdgeKey} (hk : Key.parseEdge key = .ok k)
include hk

theorem deleteTextually_of_stripKey (hb : b.compile = Backend.standard.compile) {patched : String}
    {h : Graph} (hstrip : stripKey (Statement.print g.canonical) k = some patched)
    (hcompile : compile patched = .ok h) : deleteTextually b g key = .ok h := by
  have hcontain : (b.compile patched).contain = .ok (.ok h) := by
    rw [hb]
    exact contain_compile_standard.mpr hcompile
  unfold deleteTextually
  rw [hk]
  simp only [Except.mapError, ok_bind, hstrip, hcontain]

theorem deleteTextually_of_stripKey_eq_none
    (hstrip : stripKey (Statement.print g.canonical) k = none) :
    deleteTextually b g key = .error (.rejected "delete"
      ("connection '" ++ Text.trimmed key ++ "' not found in diagram text")) := by
  unfold deleteTextually
  rw [hk]
  simp only [Except.mapError, ok_bind, hstrip]

end Record

/-- The edge is the connection that the key spells out. -/
def EdgeKey.Names (k : EdgeKey) (e : Edge) : Prop :=
  e.source = k.sourceId ∧ e.arrow = k.arrow ∧ e.target = k.targetId

instance (k : EdgeKey) : DecidablePred k.Names := fun e =>
  inferInstanceAs (Decidable (e.source = k.sourceId ∧ e.arrow = k.arrow ∧ e.target = k.targetId))

namespace Graph

variable {g : Graph} {k : EdgeKey}

/-- **The edges that are left** after removing the connection of a key from the canonical text. -/
def textuallyLeft (g : Graph) (k : EdgeKey) : List Edge :=
  match k.index with
  | none => g.edges.filter fun e => !decide (Resembles k.sourceId k.arrow k.targetId e)
  | some n =>
    match (g.positions (ResemblesAny k.sourceId k.targetId))[n]? with
    | some i => g.edges.eraseIdx i
    | none => g.edges

theorem textuallyLeft_sublist (g : Graph) (k : EdgeKey) : (g.textuallyLeft k).Sublist g.edges := by
  unfold textuallyLeft
  split
  · exact List.filter_sublist
  · split
    · exact List.eraseIdx_sublist ..
    · exact List.Sublist.refl _

theorem textuallyLeft_of_index {n : Nat} (hn : k.index = some n) (hleft : g.textuallyLeft k ≠ g.edges) :
    ∃ i < g.edges.length, g.textuallyLeft k = g.edges.eraseIdx i := by
  unfold textuallyLeft at hleft ⊢
  rw [hn] at hleft ⊢
  dsimp only at hleft ⊢
  cases hi : (g.positions (ResemblesAny k.sourceId k.targetId))[n]? with
  | none =>
    rw [hi] at hleft
    exact absurd rfl hleft
  | some i =>
    obtain ⟨e, he, -⟩ := getElem?_positions_iff.mp hi
    exact ⟨i, (List.getElem?_eq_some_iff.mp he).1, rfl⟩

section WellFormed
variable (h : g.WellFormed)
include h

theorem WellFormed.isEndpoint {e : Edge} (he : e ∈ g.edges) :
    IsEndpoint e.source ∧ IsEndpoint e.target := by
  have hid : ∀ id ∈ g.ids, IsEndpoint id := fun id hid => by
    have hpath : IsPath (Dotted.segments id) := (IsId.isObjectPath (h.named id hid)).isPath
    simpa [Dotted.join_segments] using isEndpoint_join hpath
  exact ⟨hid _ (h.endpoints e he).1, hid _ (h.endpoints e he).2⟩

/-- **What is stripped** for a key. -/
theorem WellFormed.stripKey_canonical (hs : IsEndpoint k.sourceId) (ht : IsEndpoint k.targetId) :
    stripKey (Statement.print g.canonical) k =
      if g.textuallyLeft k = g.edges then none
      else some (Statement.print (g.withEdges (g.textuallyLeft k)).canonical) := by
  have hes : ∀ e ∈ g.edges, IsEndpoint e.source ∧ IsEndpoint e.target := fun e he => h.isEndpoint he
  unfold stripKey textuallyLeft
  cases k.index with
  | none =>
    dsimp only
    unfold stripAll
    rw [h.strip_canonical (fun _ => true) (finds_spellings hs ht hes k.arrow), leftEdges_all]
  | some n =>
    have hleft : leftEdges (fun e => decide (ResemblesAny k.sourceId k.targetId e))
        (fun m => decide (m = n)) 0 g.edges =
          match (g.positions (ResemblesAny k.sourceId k.targetId))[n]? with
          | some i => g.edges.eraseIdx i
          | none => g.edges := by
      split
      · next i hi =>
        obtain ⟨e, he, hp, hn⟩ := getElem?_positions_iff.mp hi
        exact leftEdges_eq_eraseIdx he hp (by omega)
      · next hnone =>
        have hle := getElem?_positions_eq_none_iff.mp hnone
        exact leftEdges_eq_self (Or.inr (by omega))
    dsimp only
    unfold stripNth
    rw [h.strip_canonical (fun m => decide (m = n)) (finds_allSpellings hs ht hes), hleft]

/-- **A removal from the text** gives the graph with the edges that are left, its objects in the
order of the forest; it is refused exactly if all edges are left. -/
theorem WellFormed.deleteTextually_eq {key : String} (hk : Key.parse key = .ok (.edge k)) :
    Record.deleteTextually .standard g key =
      if g.textuallyLeft k = g.edges then
        .error (.rejected "delete"
          ("connection '" ++ Text.trimmed key ++ "' not found in diagram text"))
      else .ok ⟨g.preorder, g.textuallyLeft k, g.board,
        some (g.withEdges (g.textuallyLeft k)).canonical⟩ := by
  obtain ⟨hsource, htarget⟩ := Key.isObjectPath_of_parse_edge hk
  have hparse : Key.parseEdge key = .ok k := Key.parseEdge_eq_ok_iff.mpr hk
  have hstrip := h.stripKey_canonical (isEndpoint_join hsource.isPath) (isEndpoint_join htarget.isPath)
  have hcompile := h.compile_withEdges (g.textuallyLeft_sublist k).subset
  split_ifs with hleft
  · exact Record.deleteTextually_of_stripKey_eq_none hparse (hstrip.trans (if_pos hleft))
  · exact Record.deleteTextually_of_stripKey hparse rfl (hstrip.trans (if_neg hleft)) hcompile

end WellFormed

/-! ### What a removal takes away -/

/-- Leaving out what has one property is leaving out what has another one, which implies it, exactly
if nothing has the first property alone. -/
theorem filter_not_eq_iff {p q : Edge → Prop} [DecidablePred p] [DecidablePred q]
    (hqp : ∀ e, q e → p e) (es : List Edge) :
    es.filter (fun e => !decide (p e)) = es.filter (fun e => !decide (q e)) ↔
      ∀ e ∈ es, p e → q e := by
  constructor
  · intro heq e he hp
    by_contra hq
    have hmem : e ∈ es.filter fun e => !decide (q e) := List.mem_filter.mpr ⟨he, by simpa using hq⟩
    rw [← heq] at hmem
    have hnot := (List.mem_filter.mp hmem).2
    simp [hp] at hnot
  · intro hpq
    refine List.filter_congr fun e he => ?_
    have hiff : p e ↔ q e := ⟨hpq e he, hqp e⟩
    rw [decide_eq_decide.mpr hiff]

theorem resembles_of_names {e : Edge} (h : k.Names e) :
    Resembles k.sourceId k.arrow k.targetId e := by
  obtain ⟨hs, ha, ht⟩ := h
  rw [← hs, ← ha, ← ht]
  exact resembles_self e

/-- **Which edges a removal from the text takes away, and when they are those that the key
addresses.** The board and the objects stay. Without an index, all edges whose lines pass for the
connection are removed: exactly those that are this connection if and only if no other edge is
mistaken for it. With an index, one edge is removed: the one that the key addresses if and only if no
edge up to it is mistaken for one between the endpoints. -/
theorem deleteTextually_precise_iff {g' : Graph} {key : String} (h : g.WellFormed)
    (hk : Key.parse key = .ok (.edge k)) (hdel : Record.deleteTextually .standard g key = .ok g') :
    (g'.board = g.board ∧ g'.objects.Perm g.objects ∧
      ∀ parent, g'.childObjects parent = g.childObjects parent) ∧
    (k.index = none →
      g'.edges = g.edges.filter (fun e => !decide (Resembles k.sourceId k.arrow k.targetId e)) ∧
      (g'.edges = g.edges.filter (fun e => !decide (k.Names e)) ↔
        ∀ e ∈ g.edges, Resembles k.sourceId k.arrow k.targetId e → k.Names e)) ∧
    ∀ n, k.index = some n → ∃ i,
      (g.positions (ResemblesAny k.sourceId k.targetId))[n]? = some i ∧
      g'.edges = g.edges.eraseIdx i ∧
      (g.edgeAt? k = some i ↔ ∀ e ∈ g.edges.take (i + 1), ResemblesAny k.sourceId k.targetId e →
        e.joins k.sourceId k.targetId = true) := by
  rw [h.deleteTextually_eq hk] at hdel
  split_ifs at hdel with hleft
  obtain rfl := Except.ok.inj hdel
  refine ⟨⟨rfl, h.preorder_perm, h.filter_preorder⟩, fun hnone => ?_, fun n hn => ?_⟩
  · have hedges : g.textuallyLeft k =
        g.edges.filter fun e => !decide (Resembles k.sourceId k.arrow k.targetId e) := by
      unfold textuallyLeft
      rw [hnone]
    refine ⟨hedges, ?_⟩
    show g.textuallyLeft k = _ ↔ _
    rw [hedges]
    exact filter_not_eq_iff (fun e => resembles_of_names) g.edges
  · unfold textuallyLeft at hleft ⊢
    rw [hn] at hleft ⊢
    dsimp only at hleft ⊢
    cases hi : (g.positions (ResemblesAny k.sourceId k.targetId))[n]? with
    | none =>
      rw [hi] at hleft
      exact absurd rfl hleft
    | some i =>
      have hjoins : ∀ e : Edge, e.joins k.sourceId k.targetId = true →
          decide (ResemblesAny k.sourceId k.targetId e) = true :=
        fun e he => decide_eq_true (resemblesAny_of_joins he)
      have hcongr := getElem?_positions_congr hjoins hi
      refine ⟨i, rfl, rfl, ?_⟩
      unfold edgeAt? nthEdge? edgesBetween
      rw [hn, Option.getD_some, hcongr]
      simp only [decide_eq_true_iff]

/-- Parallel edges to a name that another one goes on from, and an edge with the head at its
source. -/
def lookalikes : Graph where
  objects := [.blank "a", .blank "b", .blank "b 2"]
  edges := [⟨"a", "b 2", .forward, .ofList [("label", "x")]⟩, .blank "a" .forward "b",
    .blank "b" .backward "a"]
  board := ∅
  statements := none

theorem wellFormed_lookalikes : lookalikes.WellFormed := by
  have hparents : ∀ id ∈ lookalikes.ids, ∀ p ∈ Dotted.parent? id, p ∈ lookalikes.ids := by
    decide +kernel
  have hnamed : ∀ id ∈ lookalikes.ids, IsId id := by decide +kernel
  exact ⟨⟨by decide +kernel, hparents, by decide +kernel⟩, hnamed,
    ⟨by decide +kernel, by decide +kernel, by decide +kernel⟩⟩

/-- The edge to `b 2` is mistaken for one to `b`, and removed with it. -/
theorem deleteTextually_precise_iff_lookalikes : lookalikes.WellFormed ∧
    Key.parse "a -> b" = .ok (.edge ⟨["a"], ["b"], .forward, none, []⟩) ∧
    ∃ g', Record.deleteTextually .standard lookalikes "a -> b" = .ok g' ∧
      g'.edges = [.blank "b" .backward "a"] ∧
      g'.edges ≠ lookalikes.edges.filter
        (fun e => !decide (EdgeKey.Names ⟨["a"], ["b"], .forward, none, []⟩ e)) := by
  have hparse : Key.parse "a -> b" = .ok (.edge ⟨["a"], ["b"], .forward, none, []⟩) := by
    decide +kernel
  have hrun : (Record.deleteTextually .standard lookalikes "a -> b").toOption.map (·.edges) =
      some [.blank "b" .backward "a"] := by decide +kernel
  obtain ⟨g', hdel, hedges⟩ := Option.map_eq_some_iff.mp hrun
  have hdel' := toOption_eq_some_iff.mp hdel
  obtain ⟨-, hall, -⟩ := deleteTextually_precise_iff wellFormed_lookalikes hparse hdel'
  refine ⟨wellFormed_lookalikes, hparse, g', hdel', hedges, fun heq => ?_⟩
  have hpasses : Resembles "a" .forward "b" ⟨"a", "b 2", .forward, .ofList [("label", "x")]⟩ :=
    .plainly rfl rfl ⟨[' ', '2'], rfl, by simpa using (by decide : isBlank ' ' = true)⟩
  have hmistaken := (hall rfl).2.mp heq ⟨"a", "b 2", .forward, .ofList [("label", "x")]⟩
    (List.mem_cons_self ..) hpasses
  simp [EdgeKey.Names, EdgeKey.targetId, Dotted.join_singleton] at hmistaken

/-! ### Deletions by the editor and in the text -/

/-- An edge that passes for the connection of a key without an index is removed from the text, and
every edge like it. -/
theorem deleteTextually_of_resembles {key : String} {e : Edge} (h : g.WellFormed)
    (hk : Key.parse key = .ok (.edge k)) (hindex : k.index = none) (he : e ∈ g.edges)
    (hpasses : Resembles k.sourceId k.arrow k.targetId e) :
    ∃ g', Record.deleteTextually .standard g key = .ok g' ∧ e ∉ g'.edges := by
  have hgone : e ∉ g.textuallyLeft k := by
    unfold textuallyLeft
    rw [hindex]
    simp [hpasses]
  have hleft : g.textuallyLeft k ≠ g.edges := fun heq => hgone (heq ▸ he)
  rw [h.deleteTextually_eq hk, if_neg hleft]
  exact ⟨_, rfl, hgone⟩

/-- The edge with the index of a key among those that pass for a connection of its endpoints is
removed from the text. -/
theorem deleteTextually_of_position {key : String} {n j : Nat} (h : g.WellFormed)
    (hk : Key.parse key = .ok (.edge k)) (hindex : k.index = some n)
    (hj : (g.positions (ResemblesAny k.sourceId k.targetId))[n]? = some j) :
    ∃ g', Record.deleteTextually .standard g key = .ok g' ∧ g'.edges = g.edges.eraseIdx j := by
  obtain ⟨e, he, -, -⟩ := getElem?_positions_iff.mp hj
  have hedges : g.textuallyLeft k = g.edges.eraseIdx j := by
    unfold textuallyLeft
    rw [hindex]
    dsimp only
    rw [hj]
  have hleft : g.textuallyLeft k ≠ g.edges := by
    intro heq
    have hlt : j < g.edges.length := (List.getElem?_eq_some_iff.mp he).1
    have hlength := List.length_eraseIdx_of_lt hlt
    rw [← hedges, heq] at hlength
    omega
  rw [h.deleteTextually_eq hk, if_neg hleft]
  exact ⟨_, rfl, hedges⟩

theorem textuallyLeft_eq_self_iff (hindex : k.index = none) : g.textuallyLeft k = g.edges ↔
    ∀ e ∈ g.edges, ¬ Resembles k.sourceId k.arrow k.targetId e := by
  unfold textuallyLeft
  rw [hindex]
  simp [List.filter_eq_self]

/-- **What is left of a deletion by the editor** where it is made in the text: all of it but for two
defects. With an index it succeeds and removes one edge, which is the one that the editor removes exactly
if no edge in front of it is mistaken for one between the endpoints. Without an index it goes by the
arrow of the key, as the editor does not: it removes the edge exactly if the line of the edge passes for
the connection with that arrow, as it does if the edge has that arrow, and it is refused if no line
does. -/
theorem deleteTextually_of_delete {g₁ : Graph} {key : String} (h : g.WellFormed)
    (hk : Key.parse key = .ok (.edge k)) (hattr : k.attr = []) (hdel : g.delete key = .ok g₁) :
    ∃ i e, g.edgeAt? k = some i ∧ g.edges[i]? = some e ∧ g₁ = g.removeEdge i ∧
      (∀ n, k.index = some n → ∃ g' j, Record.deleteTextually .standard g key = .ok g' ∧
        g'.edges = g.edges.eraseIdx j ∧
        (j = i ↔ ∀ e' ∈ g.edges.take i, ResemblesAny k.sourceId k.targetId e' →
          e'.joins k.sourceId k.targetId = true)) ∧
      (k.index = none →
        (e.arrow = k.arrow → Resembles k.sourceId k.arrow k.targetId e) ∧
        ((∃ g', Record.deleteTextually .standard g key = .ok g' ∧ e ∉ g'.edges) ↔
          Resembles k.sourceId k.arrow k.targetId e) ∧
        (Record.deleteTextually .standard g key = .error (.rejected "delete"
            ("connection '" ++ Text.trimmed key ++ "' not found in diagram text")) ↔
          ∀ e' ∈ g.edges, ¬ Resembles k.sourceId k.arrow k.targetId e')) := by
  obtain ⟨i, hi, rfl⟩ := (delete_eq_ok_iff hk hattr).mp hdel
  obtain ⟨e, he, ⟨hsource, htarget⟩, -⟩ := edgeAt?_eq_some_iff.mp hi
  have hmem : e ∈ g.edges := List.mem_of_getElem? he
  refine ⟨i, e, hi, he, rfl, fun n hn => ?indexed,
    fun hnone => ⟨fun harrow => ?arrow, ?removed, ?refused⟩⟩
  case indexed =>
    -- every edge between the endpoints passes, so there is one with the number among those that do
    have hall : ∀ e' : Edge, e'.joins k.sourceId k.targetId = true →
        decide (ResemblesAny k.sourceId k.targetId e') = true :=
      fun e' he' => decide_eq_true (resemblesAny_of_joins he')
    have hi' : (g.edgesBetween k.sourceId k.targetId)[n]? = some i := by
      unfold edgeAt? nthEdge? at hi
      rwa [hn, Option.getD_some] at hi
    obtain ⟨j, hj, hsame⟩ := exists_getElem?_positions hall hi'
    obtain ⟨g', hg', hedges⟩ := deleteTextually_of_position h hk hn hj
    refine ⟨g', j, hg', hedges, ?_, fun hclear => hsame (by simpa using hclear)⟩
    rintro rfl e' he' hpasses
    have hfront : e' ∈ g.edges.take (j + 1) := List.take_subset_take_left _ (Nat.le_succ j) he'
    exact (getElem?_positions_congr hall hj).mp hi' e' hfront (decide_eq_true hpasses)
  case arrow => exact resembles_of_names ⟨hsource, harrow, htarget⟩
  case removed =>
    refine ⟨fun ⟨g', hg', hgone⟩ => ?_, deleteTextually_of_resembles h hk hnone hmem⟩
    rw [h.deleteTextually_eq hk] at hg'
    split_ifs at hg' with hleft
    obtain rfl := Except.ok.inj hg'
    unfold textuallyLeft at hgone
    rw [hnone] at hgone
    by_contra hnot
    exact hgone (List.mem_filter.mpr ⟨hmem, by simpa using hnot⟩)
  case refused =>
    rw [h.deleteTextually_eq hk, ← textuallyLeft_eq_self_iff hnone]
    split_ifs with hleft <;> simp [hleft]

/-- The keys address the edges whatever their arrows. The one to `b 2` is removed instead of the one that
the editor removes; and without an index, an arrow that the edge does not have is not found. -/
theorem deleteTextually_of_delete_lookalikes : lookalikes.WellFormed ∧
    (∃ g', (lookalikes.delete "(b -> a)[0]").toOption = some (lookalikes.removeEdge 2) ∧
      Record.deleteTextually .standard lookalikes "(b -> a)[0]" = .ok g' ∧
      g'.edges = lookalikes.edges.eraseIdx 2) ∧
    (∃ g' j, (lookalikes.delete "(a -> b)[0]").toOption = some (lookalikes.removeEdge 1) ∧
      Record.deleteTextually .standard lookalikes "(a -> b)[0]" = .ok g' ∧
      g'.edges = lookalikes.edges.eraseIdx j ∧ j ≠ 1) ∧
    (lookalikes.delete "b -> a").toOption = some (lookalikes.removeEdge 2) ∧
    Record.deleteTextually .standard lookalikes "b -> a" =
      .error (.rejected "delete" "connection 'b -> a' not found in diagram text") := by
  refine ⟨wellFormed_lookalikes, ?arrow, ?mistaken, ?refused⟩
  case arrow =>
    have hparse : Key.parse "(b -> a)[0]" = .ok (.edge ⟨["b"], ["a"], .forward, some 0, []⟩) := by
      decide +kernel
    have hrun : (lookalikes.delete "(b -> a)[0]").toOption = some (lookalikes.removeEdge 2) := by
      decide +kernel
    obtain ⟨i, e, hi, -, -, hindexed, -⟩ := deleteTextually_of_delete wellFormed_lookalikes hparse rfl
      (toOption_eq_some_iff.mp hrun)
    obtain rfl : 2 = i := Option.some.inj ((by decide +kernel : _ = some 2).symm.trans hi)
    obtain ⟨g', j, hg', hedges, hsame⟩ := hindexed 0 rfl
    obtain rfl : j = 2 := hsame.mpr (by decide +kernel)
    exact ⟨g', hrun, hg', hedges⟩
  case mistaken =>
    have hparse : Key.parse "(a -> b)[0]" = .ok (.edge ⟨["a"], ["b"], .forward, some 0, []⟩) := by
      decide +kernel
    have hrun : (lookalikes.delete "(a -> b)[0]").toOption = some (lookalikes.removeEdge 1) := by
      decide +kernel
    obtain ⟨i, e, hi, -, -, hindexed, -⟩ := deleteTextually_of_delete wellFormed_lookalikes hparse rfl
      (toOption_eq_some_iff.mp hrun)
    obtain rfl : 1 = i := Option.some.inj ((by decide +kernel : _ = some 1).symm.trans hi)
    obtain ⟨g', j, hg', hedges, hsame⟩ := hindexed 0 rfl
    exact ⟨g', j, hrun, hg', hedges, mt hsame.mp (by decide +kernel)⟩
  case refused =>
    have hparse : Key.parse "b -> a" = .ok (.edge ⟨["b"], ["a"], .forward, none, []⟩) := by
      decide +kernel
    have hrun : (lookalikes.delete "b -> a").toOption = some (lookalikes.removeEdge 2) := by
      decide +kernel
    obtain ⟨i, e, -, -, -, -, hplain⟩ := deleteTextually_of_delete wellFormed_lookalikes hparse rfl
      (toOption_eq_some_iff.mp hrun)
    obtain ⟨-, -, hrefused⟩ := hplain rfl
    exact ⟨hrun, hrefused.mpr (by decide +kernel)⟩

end Graph

end BoxDiagram
