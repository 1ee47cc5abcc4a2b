import BoxDiagram.Proofs.Statement.Head
import BoxDiagram.Proofs.Statement.Quote

/-!
# Printed statements are read back

A head with its value is a *body*: four scans pass over it, for comments and braces at its ends, for
semicolons, and for the colon in front of the value. With a mark after it, it is one piece of a line
and read as one entry. Lines *spell* statements if reading them adds the statements to any reading,
wherever it stands; the lines of a well-formed statement spell it, at every depth (`spells_lines`),
so a printed text is read back (`parse_print`).
-/

namespace BoxDiagram

open Text QuoteState

/-! ### Bodies -/

/-- **A text that is read as a head and a value**, and that no scan cuts. -/
structure IsBody (head : Head) (value : Option String) (cs : List Char) : Prop where
  opens : OpensSolid cs
  noMark : cs.head? ≠ some '#' ∧ cs.head? ≠ some '\x7d'
  closes : ClosesSolid cs
  noBrace : cs.getLast? ≠ some '\x7b' ∧ cs.getLast? ≠ some '\x7d'
  outside : outside.after cs = .outside
  clear : Clear ';' .outside cs
  noNewline : '\n' ∉ cs
  reads : ∃ key rest, (breakOutside? ':' .outside cs).getD (cs, []) = (key, rest) ∧
    Value.read rest = .ok value ∧ ∀ piece, Head.read piece key = .ok head

/-- A text that is read as a head: solid at both ends, and without the characters that cannot stand
in names, apart from carriage returns between them. -/
structure IsHead (head : Head) (cs : List Char) : Prop where
  opens : OpensSolid cs
  closes : ClosesSolid cs
  allowed : ∀ c ∈ cs, c ∈ Key.forbidden → c = '\r'
  reads : ∀ piece, Head.read piece cs = .ok head

theorem Head.WellFormed.isHead {head : Head} (h : head.WellFormed) :
    IsHead head head.render.toList where
  opens := h.render.1
  closes := h.render.2.1
  allowed c hc hf := absurd hf (h.render.2.2 c hc)
  reads piece := Head.read_render h piece (trim_eq_self h.render.1 h.render.2.1)

section Body

variable {head : Head} {cs : List Char} (h : IsHead head cs)
include h

theorem IsHead.notMem {c : Char} (hc : c ∈ Key.forbidden.erase '\r') : c ∉ cs := fun hm => by
  rw [List.Nodup.mem_erase_iff (by decide)] at hc
  exact hc.1 (h.allowed c hm hc.2)

theorem IsHead.noMark : cs.head? ≠ some '#' ∧ cs.head? ≠ some '\x7d' :=
  ⟨fun he => h.notMem (by decide) (List.mem_of_head? he),
    fun he => h.notMem (by decide) (List.mem_of_head? he)⟩

theorem IsHead.isBody : IsBody head none cs := by
  have hbrace : cs.getLast? ≠ some '\x7b' ∧ cs.getLast? ≠ some '\x7d' :=
    ⟨fun he => h.notMem (by decide) (List.mem_of_getLast? he),
      fun he => h.notMem (by decide) (List.mem_of_getLast? he)⟩
  have hquote : '"' ∉ cs := h.notMem (by decide)
  have hsemicolon : ';' ∉ cs := h.notMem (by decide)
  have hcolon : ':' ∉ cs := h.notMem (by decide)
  refine ⟨h.opens, h.noMark, h.closes, hbrace, after_outside hquote, clear_of_notMem hsemicolon,
    h.notMem (by decide), ?_⟩
  rw [breakOutside?_of_clear (clear_of_notMem hcolon)]
  exact ⟨_, _, rfl, rfl, h.reads⟩

theorem IsHead.isBody_append {value : Option String} {rest : List Char}
    (hcloses : ClosesSolid (':' :: rest))
    (hbrace : (':' :: rest).getLast? ≠ some '\x7b' ∧ (':' :: rest).getLast? ≠ some '\x7d')
    (hafter : QuoteState.outside.after rest = .outside) (hclear : Clear ';' .outside rest)
    (hnewline : '\n' ∉ rest) (hread : Value.read rest = .ok value) :
    IsBody head value (cs ++ ':' :: rest) := by
  have hhead : QuoteState.outside.after cs = .outside := after_outside (h.notMem (by decide))
  have hlast : (cs ++ ':' :: rest).getLast? = (':' :: rest).getLast? := by
    rw [List.getLast?_append, Option.or_of_isSome (by simp)]
  have hfirst : (cs ++ ':' :: rest).head? = cs.head? := by
    rw [List.head?_append, Option.or_of_isSome (by simpa using h.opens.ne_nil)]
  refine ⟨h.opens.append _, by rw [hfirst]; exact h.noMark, hcloses.append _, by rwa [hlast], ?_, ?_,
    ?_, ?_⟩
  · rw [after_append, hhead]
    exact hafter
  · rw [clear_append, hhead]
    exact ⟨clear_of_notMem (h.notMem (by decide)), by decide, hclear⟩
  · rw [List.mem_append, List.mem_cons, not_or, not_or]
    exact ⟨h.notMem (by decide), by decide, hnewline⟩
  · rw [breakOutside?_append (clear_of_notMem (h.notMem (by decide))) hhead]
    exact ⟨_, _, rfl, hread, h.reads⟩

/-- **A head with a written value**, whatever the value. -/
theorem IsHead.isBody_quote (v : String) :
    IsBody head (some v) (cs ++ ':' :: ' ' :: (Value.quote v).toList) := by
  have hbrace := Value.getLast?_quote v
  have hcloses := Value.closesSolid_quote v
  have hlast : (':' :: ' ' :: (Value.quote v).toList).getLast? = (Value.quote v).toList.getLast? :=
    List.getLast?_append_of_ne_nil [':', ' '] hcloses.ne_nil
  refine h.isBody_append (hcloses.append [':', ' ']) (by rwa [hlast]) (Value.after_quote v) ?_ ?_
    (Value.read_quote v)
  · exact ⟨by decide, Value.clear_quote (by decide) (by decide) v⟩
  · simpa using Value.notMem_quote v

end Body

section Written

variable {head : Head} (h : head.WellFormed)
include h

theorem Head.WellFormed.notMem {c : Char} (hc : c ∈ Key.forbidden) : c ∉ head.render.toList :=
  fun hm => h.render.2.2 c hm hc

/-- **A head with its value is read back**, whatever the value. -/
theorem isBody_renderTop (value : Option String) :
    IsBody head value (Statement.renderTop head value).toList := by
  cases value with
  | none => exact h.isHead.isBody
  | some v =>
    have hbody := h.isHead.isBody_quote v
    simpa [Statement.renderTop] using hbody

theorem isBody_renderOpener (value : Option String) :
    IsBody head value (Statement.renderOpener head value).toList := by
  cases value with
  | none =>
    rw [show (Statement.renderOpener head none).toList = head.render.toList ++ ':' :: [] by
      simp [Statement.renderOpener, Statement.renderTop]]
    exact h.isHead.isBody_append ⟨':', by decide⟩ (by decide) rfl trivial (by simp) rfl
  | some v => exact isBody_renderTop h (some v)

end Written

/-! ### Marked bodies -/

namespace Marker

/-- The way a mark is written after a body. -/
def text : Marker → List Char
  | absent => []
  | empty => [' ', '\x7b', '\x7d']
  | opening => [' ', '\x7b']

end Marker

section Marked

variable {head : Head} {value : Option String} {cs : List Char} (h : IsBody head value cs)
include h

theorem IsBody.closes_text (m : Marker) : ClosesSolid (cs ++ m.text) := by
  cases m with
  | absent => simpa [Marker.text] using h.closes
  | empty => exact ClosesSolid.append ⟨'\x7d', by decide⟩ cs
  | opening => exact ClosesSolid.append ⟨'\x7b', by decide⟩ cs

theorem IsBody.noNewline_text (m : Marker) : '\n' ∉ cs ++ m.text := by
  have hm : '\n' ∉ m.text := by cases m <;> decide
  simpa using ⟨h.noNewline, hm⟩

theorem IsBody.strip_text (m : Marker) : Marker.strip (cs ++ m.text) = (cs, m) := by
  have htrim : trimEnd (cs ++ [' ']) = cs := by
    rw [trimEnd_concat_of_blank (by decide), trimEnd_eq_self h.closes]
  cases m with
  | empty => simpa [Marker.strip, Marker.text] using htrim
  | opening => simpa [Marker.strip, Marker.text] using htrim
  | absent =>
    obtain ⟨h₁, h₂⟩ := h.noBrace
    rw [← List.head?_reverse] at h₁ h₂
    unfold Marker.strip
    rw [Marker.text, List.append_nil]
    split
    · next heq => exact absurd (by rw [heq]; rfl) h₂
    · next heq => exact absurd (by rw [heq]; rfl) h₁
    · rfl

/-- **A marked body is read as one entry.** -/
theorem IsBody.read_text (m : Marker) : Entry.read (cs ++ m.text) = .ok ⟨head, value, m⟩ := by
  obtain ⟨key, rest, hbreak, hvalue, hhead⟩ := h.reads
  unfold Entry.read
  rw [h.strip_text m]
  dsimp only
  rw [hbreak]
  simp only [bind_eq_ok, pure_eq_ok]
  exact ⟨value, hvalue, head, hhead _, rfl⟩

/-- **A marked body is one piece** of a line, with or without blanks in front. -/
theorem IsBody.ofLine_text (m : Marker) {bs : List Char} (hbs : ∀ c ∈ bs, isBlank c = true) :
    Piece.ofLine (bs ++ (cs ++ m.text)) = .ok [.text (cs ++ m.text)] := by
  have hcloses := h.closes_text m
  have hafter : QuoteState.outside.after (cs ++ m.text) = .outside := by
    rw [after_append, h.outside]
    cases m <;> rfl
  have hclear : Clear ';' .outside (cs ++ m.text) := by
    rw [clear_append, h.outside]
    exact ⟨h.clear, clear_of_notMem (by cases m <;> decide)⟩
  have hopens := h.opens
  obtain ⟨h₁, h₂⟩ := h.noMark
  unfold Piece.ofLine
  rw [trim_append_of_blank hbs, trim_eq_self (h.opens.append _) hcloses]
  obtain ⟨c, rest, rfl⟩ := List.exists_cons_of_ne_nil hopens.ne_nil
  have hblank := opensSolid_cons.mp hopens
  unfold Piece.ofTrimmed
  rw [if_neg (by simpa using h₁), if_neg (not_not.mpr hafter), splitOutside_of_clear hclear]
  simp only [List.flatMap_singleton, trimEnd_eq_self hcloses]
  rw [List.cons_append, Piece.peel, if_neg (by simp [hblank]), if_neg (by simpa using h₂)]

end Marked

/-! ### Lines that spell statements -/

theorem isBlank_of_mem_indent (depth : Nat) : ∀ c ∈ (Statement.indent depth).toList,
    isBlank c = true := by
  unfold Statement.indent
  rw [String.toList_ofList]
  intro c hc
  rw [List.eq_of_mem_replicate hc]
  decide

theorem isLine_of_indent (depth : Nat) {cs : List Char} (hc : ClosesSolid cs) (hn : '\n' ∉ cs) :
    IsLine ((Statement.indent depth).toList ++ cs) := by
  constructor
  · have hi : '\n' ∉ (Statement.indent depth).toList := by
      unfold Statement.indent
      rw [String.toList_ofList]
      exact fun hm => absurd (List.eq_of_mem_replicate hm) (by decide)
    simpa using ⟨hi, hn⟩
  · intro hr
    obtain ⟨c, hc, hb⟩ := hc.append (Statement.indent depth).toList
    rw [Option.mem_def, hr] at hc
    obtain rfl := Option.some.inj hc
    exact absurd hb (by decide)

namespace Reading

theorem readLines_append (r : Reading) (xs ys : List (List Char)) (first : Nat) :
    r.readLines (xs ++ ys) first =
      (r.readLines xs first).bind fun r' => r'.readLines ys (first + xs.length) := by
  unfold readLines
  rw [List.zipIdx_append, List.foldlM_append]
  rfl

theorem readLines_singleton {r r' : Reading} {l : List Char} {first : Nat} {piece : Piece}
    (hpiece : Piece.ofLine l = .ok [piece]) (hstep : r.step first piece = .ok r') :
    r.readLines [l] first = .ok r' := by
  have hline : r.readLine (l, first) = .ok r' := by
    unfold readLine
    rw [mapError_eq_ok, except_bind_eq_ok]
    refine ⟨[piece], hpiece, ?_⟩
    rw [List.foldlM_cons, bind_eq_ok]
    exact ⟨r', hstep, rfl⟩
  unfold readLines
  rw [List.zipIdx_singleton, List.foldlM_cons, hline]
  rfl

theorem readLines_close (statements : List Statement) (f : Frame) (outer : List Frame)
    (depth first : Nat) :
    readLines ⟨statements, f :: outer⟩ [(Statement.indent depth).toList ++ ['\x7d']] first =
      .ok (add ⟨statements, outer⟩ (f.opener.withBlock f.statements)) := by
  have htrim : Piece.ofLine ((Statement.indent depth).toList ++ ['\x7d']) = .ok [.close] := by
    unfold Piece.ofLine
    rw [trim_append_of_blank (isBlank_of_mem_indent depth)]
    decide
  exact readLines_singleton htrim rfl

theorem foldl_add_start (ss : List Statement) (done : List Statement) :
    ss.foldl add ⟨done, []⟩ = ⟨done ++ ss, []⟩ := by
  induction ss generalizing done with
  | nil => simp
  | cons s ss ih => rw [List.foldl_cons, add, ih]; simp

theorem foldl_add_frame (ss : List Statement) (statements : List Statement) (f : Frame)
    (outer : List Frame) : ss.foldl add ⟨statements, f :: outer⟩ =
      ⟨statements, { f with statements := f.statements ++ ss } :: outer⟩ := by
  induction ss generalizing f with
  | nil => simp
  | cons s ss ih => rw [List.foldl_cons, add, ih]; simp

end Reading

/-- **The lines spell the statements**: each is a line, and together they add the statements to any
reading. -/
structure Spells (ls : List String) (ss : List Statement) : Prop where
  isLine : ∀ l ∈ ls, IsLine l.toList
  reads : ∀ (r : Reading) (first : Nat),
    r.readLines (ls.map String.toList) first = .ok (ss.foldl Reading.add r)

theorem spells_nil : Spells [] [] := ⟨by simp, fun _ _ => rfl⟩

theorem Spells.append {ls ms : List String} {ss ts : List Statement} (h : Spells ls ss)
    (h' : Spells ms ts) : Spells (ls ++ ms) (ss ++ ts) where
  isLine := List.forall_mem_append.mpr ⟨h.isLine, h'.isLine⟩
  reads r first := by
    rw [List.map_append, Reading.readLines_append, h.reads, List.foldl_append]
    exact h'.reads _ _

section Spelled

variable {head : Head} {value : Option String} {body : String}
  (h : IsBody head value body.toList) (depth : Nat)
include h

theorem spells_of_isBody {m : Marker} (hm : m ≠ .opening) {l : String}
    (hl : l.toList = (Statement.indent depth).toList ++ (body.toList ++ m.text)) :
    Spells [l] [⟨head, value, m.block?⟩] where
  isLine := by
    rw [List.forall_mem_singleton, hl]
    exact isLine_of_indent depth (h.closes_text m) (h.noNewline_text m)
  reads r first := by
    rw [List.map_singleton, hl]
    refine Reading.readLines_singleton (h.ofLine_text m (isBlank_of_mem_indent depth)) ?_
    simp only [Reading.step, bind_eq_ok]
    refine ⟨_, h.read_text m, ?_⟩
    rw [if_neg hm]
    rfl

/-- **Lines that spell statements spell a block**, between a body that opens it and a closing
brace. -/
theorem Spells.block {ls : List String} {ss : List Statement} (hs : Spells ls ss) :
    Spells ((Statement.indent depth ++ body ++ " \x7b") :: ls ++ [Statement.indent depth ++ "\x7d"])
      [⟨head, value, some ss⟩] where
  isLine := by
    have hopen : IsLine (Statement.indent depth ++ body ++ " \x7b").toList := by
      have hl := isLine_of_indent depth (h.closes_text .opening) (h.noNewline_text .opening)
      simpa [Marker.text] using hl
    have hclose : IsLine (Statement.indent depth ++ "\x7d").toList := by
      rw [String.toList_append]
      exact isLine_of_indent depth ⟨'\x7d', by decide⟩ (by decide)
    rw [List.cons_append, List.forall_mem_cons, List.forall_mem_append, List.forall_mem_singleton]
    exact ⟨hopen, hs.isLine, hclose⟩
  reads r first := by
    obtain ⟨statements, frames⟩ := r
    -- the opening line pushes a frame, the block fills it, and the closing line pops it
    have hopen : Reading.readLines ⟨statements, frames⟩
        [(Statement.indent depth ++ body ++ " \x7b").toList] first =
          .ok ⟨statements, ⟨⟨head, value, none⟩, first, []⟩ :: frames⟩ := by
      have hpiece := h.ofLine_text .opening (isBlank_of_mem_indent depth)
      rw [show (Statement.indent depth ++ body ++ " \x7b").toList =
        (Statement.indent depth).toList ++ (body.toList ++ Marker.opening.text) by
          simp [Marker.text]]
      refine Reading.readLines_singleton hpiece ?_
      simp only [Reading.step, bind_eq_ok]
      exact ⟨_, h.read_text .opening, rfl⟩
    rw [List.map_append, List.map_cons, ← List.singleton_append, Reading.readLines_append,
      Reading.readLines_append, hopen]
    simp only [Except.bind, hs.reads, Reading.foldl_add_frame, List.map_singleton,
      String.toList_append]
    exact Reading.readLines_close ..

end Spelled

/-! ### All statements -/

theorem spells_linesAll {depth : Nat} : ∀ {ss : List Statement},
    (∀ s ∈ ss, Spells (Statement.lines depth s) [s]) → Spells (Statement.linesAll depth ss) ss
  | [], _ => by
    rw [Statement.linesAll]
    exact spells_nil
  | s :: ss, h => by
    rw [Statement.linesAll]
    exact (h s (by simp)).append (spells_linesAll fun t ht => h t (List.mem_cons_of_mem _ ht))

/-- **The lines of a well-formed statement spell it**, at every depth. -/
theorem spells_lines {s : Statement} (h : s.WellFormed) :
    ∀ depth, Spells (Statement.lines depth s) [s] := by
  induction h with
  | @intro s head block ih =>
    intro depth
    obtain ⟨hd, value, _ | (_ | ⟨t, rest⟩)⟩ := s
    · rw [Statement.lines]
      exact spells_of_isBody (isBody_renderTop head value) depth (m := .absent) (by decide)
        (by simp [Marker.text])
    · rw [Statement.lines]
      exact spells_of_isBody (isBody_renderOpener head value) depth (m := .empty) (by decide)
        (by simp [Marker.text])
    · have hblock : Spells (Statement.linesAll (depth + 1) (t :: rest)) (t :: rest) :=
        spells_linesAll fun u hu => ih u hu (depth + 1)
      rw [Statement.linesAll] at hblock
      rw [Statement.lines]
      exact hblock.block (isBody_renderOpener head value) depth

theorem toList_textOfLines (ls : List String) : (Statement.textOfLines ls).toList =
    (ls.map String.toList).flatMap (· ++ ['\n']) := by
  unfold Statement.textOfLines
  rw [String.toList_join, List.flatMap_map, List.flatMap_map]
  simp

theorem spells_print {ss : List Statement} (h : ∀ s ∈ ss, s.WellFormed) :
    Spells (Statement.linesAll 0 ss) ss := spells_linesAll fun s hs => spells_lines (h s hs) 0

theorem Statement.lines_print {ss : List Statement} (h : ∀ s ∈ ss, s.WellFormed) :
    Text.lines (Statement.print ss).toList = (Statement.linesAll 0 ss).map String.toList := by
  unfold Statement.print
  rw [toList_textOfLines, lines_flatMap (by simpa using (spells_print h).isLine)]

/-- **Printed statements are read back.** -/
theorem Statement.parse_print {ss : List Statement} (h : ∀ s ∈ ss, s.WellFormed) :
    Statement.parse (Statement.print ss) = .ok ss := by
  unfold Statement.parse
  rw [Statement.lines_print h, (spells_print h).reads, Reading.start, Reading.foldl_add_start]
  rfl

/-- **Reading and printing are inverse**: reading any text gives well-formed statements only, and all
well-formed statements are read back from their printed form. -/
theorem Statement.parse_inverts_print :
    (∀ text ss, Statement.parse text = .ok ss → ∀ s ∈ ss, s.WellFormed) ∧
      ∀ ss, (∀ s ∈ ss, s.WellFormed) → Statement.parse (Statement.print ss) = .ok ss :=
  ⟨fun _ _ h => Statement.wellFormed_of_parse h, fun _ h => Statement.parse_print h⟩

/-- A connection whose value holds punctuation, with an empty block inside its block. -/
def Statement.quotedConnection : Statement :=
  ⟨.connection [["a"], ["b", "c"]] [.both], some "x\"; \x7d\r\n",
    some [⟨.declaration ["d"], none, some []⟩]⟩

theorem Statement.parse_inverts_print_quotedConnection :
    Statement.parse " a<->b.c : \"x\\\"; \x7d\r\\n\" \x7b\nd\x7b\x7d; \x7d" = .ok [quotedConnection] ∧
      quotedConnection.WellFormed ∧
      Statement.parse (Statement.print [quotedConnection]) = .ok [quotedConnection] := by
  have hread : Statement.parse " a<->b.c : \"x\\\"; \x7d\r\\n\" \x7b\nd\x7b\x7d; \x7d" =
    .ok [quotedConnection] := by decide +kernel
  have hall := Statement.parse_inverts_print.1 _ _ hread
  exact ⟨hread, hall _ (by simp), Statement.parse_inverts_print.2 _ hall⟩

end BoxDiagram
