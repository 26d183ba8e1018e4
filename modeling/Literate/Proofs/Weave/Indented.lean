import Literate.Proofs.Reader.Headings
import Literate.Proofs.Text.Lines
import Literate.Proofs.Text.Occurrence
import Literate.Proofs.Weave.Blocks

/-! Code blocks in reStructuredText hold all of their lines. The first line is indented by what the
block begins with, each of the others where its newline stands, and no reference brings in a newline
of its own: what it shows is the name of a chunk. -/

namespace Literate

open Text (newline)

namespace Weave

theorem newline_not_mem_target {path : Text} {chunks : List Chunk}
    (hchunks : ∀ c ∈ chunks, newline ∉ c.name) {name : Text} (hname : newline ∉ name) :
    newline ∉ (target (Web.ofChunks path chunks) name).name := by
  unfold target
  split
  next first rest hlookup =>
    obtain ⟨c, hc, hfull⟩ :=
      Web.exists_fullName path (isDefinition_of_lookup hlookup List.mem_cons_self)
    exact hfull ▸ hchunks c hc
  · exact hname

theorem newline_not_mem_numbered {name : Text} (h : newline ∉ name) (seq : Nat) :
    newline ∉ numbered name seq := by
  have hopen : newline ∉ Text.ofString " (" := by decide
  have hclose : newline ∉ Text.ofString ")" := by decide
  simp [numbered, h, hopen, hclose, Text.newline_not_mem_ofNat]

namespace Rst

theorem newline_not_mem_link {r : Ref} (h : newline ∉ r.name) : newline ∉ link r := by
  have harrow : newline ∉ Text.ofString "→ `" := by decide
  have hclose : newline ∉ Text.ofString "`_" := by decide
  simp [link, harrow, hclose, newline_not_mem_numbered h]

theorem indent_eq (t : Text) :
    indent t = t.flatMap fun b => if b = newline then "\n    " else [b] :=
  Text.replace_byte t

theorem indent_append (s t : Text) : indent (s ++ t) = indent s ++ indent t := by
  simp only [indent_eq, List.flatMap_append]

theorem indent_of_not_mem {t : Text} (h : newline ∉ t) : indent t = t := by
  have hkept : ∀ b ∈ t, (if b = newline then ("\n    " : Text) else [b]) = [b] :=
    fun b hb => if_neg fun he : b = newline => h (he ▸ hb)
  rw [indent_eq, List.flatMap_congr hkept, List.flatMap_singleton']

/-- An indented text has the lines of the text with four spaces before each. -/
theorem split_indent (t : Text) : Text.split newline (("    " : Text) ++ indent t) =
    (Text.split newline t).map fun line => ("    " : Text) ++ line := by
  have hspaces : newline ∉ Text.ofString "    " := by decide
  have hbreak : Text.ofString "\n    " = newline :: Text.ofString "    " := by decide
  induction t using Text.byLines with
  | last piece hp =>
    have hline : newline ∉ Text.ofString "    " ++ piece := by simp [hspaces, hp]
    rw [indent_of_not_mem hp, Text.split_of_not_mem hp, Text.split_of_not_mem hline]
    rfl
  | line piece rest hp ih =>
    have hindent : indent (piece ++ newline :: rest) =
        piece ++ newline :: (Text.ofString "    " ++ indent rest) := by
      rw [indent_append, indent_of_not_mem hp, indent_eq (newline :: rest), List.flatMap_cons,
        if_pos rfl, ← indent_eq, hbreak]
      rfl
    rw [hindent, ← List.append_assoc, Text.split_append_sep (by simp [hspaces, hp]), ih,
      Text.split_append_sep hp]
    rfl

theorem lines_indent (t : Text) :
    let body : Text := "    " ++ indent t
    (∀ line ∈ Text.split newline body, ("    " : Text) <+: line) ∧
      Text.lines ((Text.split newline body).map (List.drop 4)) = t := by
  intro body
  have hbody : Text.split newline body = _ := split_indent t
  rw [hbody]
  constructor
  · intro line hline
    obtain ⟨line, -, rfl⟩ := List.mem_map.1 hline
    exact List.prefix_append _ line
  · have hdrop : (List.drop 4 ∘ fun line : Text => ("    " : Text) ++ line) = id :=
      funext fun line => List.drop_left' (by decide)
    rw [List.map_map, hdrop, List.map_id, Text.lines_split]

/-- The lines over the code of a block. -/
def headerLines (name : Text) (d : ChunkData) : List Text :=
  [("..  _`" : Text) ++ numbered name d.seq ++ "`:",
    ("..  rubric:: " : Text) ++ numbered name d.seq ++ " =",
    ("..  code-block::" : Text) ++ styleWord d.style,
    "    :class: code"]

def header (name : Text) (d : ChunkData) : Text := (headerLines name d).flatMap (newline :: ·)

theorem opening_eq (name : Text) (d : ChunkData) :
    opening name d = header name d ++ "\n\n" ++ "    " := by
  have hanchor : Text.ofString "\n..  _`" = newline :: Text.ofString "..  _`" := by decide
  have hrubric : Text.ofString "`:\n..  rubric:: " =
      Text.ofString "`:" ++ newline :: Text.ofString "..  rubric:: " := by decide
  have hblock : Text.ofString " =\n..  code-block::" =
      Text.ofString " =" ++ newline :: Text.ofString "..  code-block::" := by decide
  have hclass : Text.ofString "\n    :class: code\n\n    " =
      newline :: Text.ofString "    :class: code" ++ "\n\n" ++ "    " := by decide
  simp [opening, header, headerLines, hanchor, hrubric, hblock, hclass]

/-- A line after a newline holds no blank line, whatever follows it. -/
theorem clear_line {line : Text} (hne : line ≠ []) (h : newline ∉ line) :
    Text.Clear [newline, newline] (newline :: line) := by
  intro rest
  refine Text.passes_cons ?_ (Text.clear_of_not_mem h rest)
  obtain ⟨b, line, rfl⟩ := List.exists_cons_of_ne_nil hne
  have hb : newline ≠ b := fun he => h (by simp [he])
  simp [hb]

theorem mem_headerLines {name : Text} {d : ChunkData} (hname : newline ∉ name)
    (hstyle : newline ∉ d.style) {line : Text} (hline : line ∈ headerLines name d) :
    line ≠ [] ∧ newline ∉ line := by
  have hnumbered := newline_not_mem_numbered hname d.seq
  have hword : newline ∉ styleWord d.style := by
    have hspace : newline ∉ Text.ofString " " := by decide
    unfold styleWord
    split
    · exact List.not_mem_nil
    · simp [hspace, hstyle]
  have hanchor : Text.ofString "..  _`" ≠ [] ∧ newline ∉ Text.ofString "..  _`" := by decide
  have hcolon : newline ∉ Text.ofString "`:" := by decide
  have hrubric : Text.ofString "..  rubric:: " ≠ [] ∧ newline ∉ Text.ofString "..  rubric:: " := by
    decide
  have hequals : newline ∉ Text.ofString " =" := by decide
  have hblock : Text.ofString "..  code-block::" ≠ [] ∧
      newline ∉ Text.ofString "..  code-block::" := by decide
  simp only [headerLines, List.mem_cons, List.not_mem_nil, or_false] at hline
  rcases hline with rfl | rfl | rfl | rfl
  · simp [hanchor, hcolon, hnumbered]
  · simp [hrubric, hequals, hnumbered]
  · simp [hblock, hword]
  · decide

/-- There is no blank line in a header, and the one after it is the first. -/
theorem no_blank_line {name : Text} {d : ChunkData} (hname : newline ∉ name)
    (hstyle : newline ∉ d.style) : ¬("\n\n" : Text) <:+: header name d ++ "\n" := by
  have hmark : Text.ofString "\n\n" = [newline, newline] := by decide
  have hheader : Text.Clear [newline, newline] (header name d) := by
    refine Text.Clear.flatMap fun line hline => ?_
    obtain ⟨hne, hnone⟩ := mem_headerLines hname hstyle hline
    exact clear_line hne hnone
  have hend : Text.Passes [newline, newline] ("\n" : Text) [] := by
    unfold Text.Passes
    decide
  rw [hmark]
  exact ((hheader _).append hend).absent (by simp)

theorem indent_flatMap {α : Type} (f : α → Text) (items : List α) :
    indent (items.flatMap f) = items.flatMap fun x => indent (f x) := by
  simp only [indent_eq, List.flatMap_assoc]

end Rst

/-- The code that a command stands for, a reference as the link to what it leads to. -/
def linkedCode (w : Web) (c : Command) : Text :=
  match c.body with
  | .code t => t
  | .text t => t
  | .reference name => Rst.link (target w name)
  | .crossReference _ => []

section Blocks

variable {path : Text} {chunks : List Chunk} {i : Nat}

theorem shownText_rst {style : Text} {c : Command} (hchunks : ∀ d ∈ chunks, newline ∉ d.name)
    (hsuits : c.Suits true) (hkind : ∀ kind, c.body ≠ .crossReference kind)
    (hfault : commandFault (Web.ofChunks path chunks) c = none) :
    shownText rst (Web.ofChunks path chunks) style c =
      Rst.indent (linkedCode (Web.ofChunks path chunks) c) := by
  obtain ⟨body, l⟩ := c
  cases body with
  | code t => rfl
  | text t => cases hsuits
  | crossReference kind => exact absurd rfl (hkind kind)
  | reference name =>
    have hlink : newline ∉ Rst.link (target (Web.ofChunks path chunks) name) :=
      Rst.newline_not_mem_link (newline_not_mem_target hchunks (IsReferenceName.line hsuits))
    rw [shownText, codePiece_reference hfault, linkedCode, Rst.indent_of_not_mem hlink]
    rfl

/-- A block begins with a header under the name of a chunk. -/
theorem opening_rst (hi : chunks[i]? = some ((Web.ofChunks path chunks).chunk i))
    (hchunks : ∀ d ∈ chunks, newline ∉ d.name) :
    ∃ name, newline ∉ name ∧ opening rst (Web.ofChunks path chunks) i =
      .ok (Rst.opening name (chunkData (Web.ofChunks path chunks) i)) := by
  unfold opening
  split
  · exact ⟨_, hchunks _ (List.mem_of_getElem? hi), rfl⟩
  · obtain ⟨hsize, -⟩ := List.getElem?_eq_some_iff.1 hi
    obtain ⟨c, hc, hname⟩ := Web.exists_displayName path hsize
    exact ⟨(Web.ofChunks path chunks).displayName i, hname ▸ hchunks c hc, rfl⟩

theorem closing_rst (w : Web) (i : Nat) : ∃ tail, closing rst w i = .ok ("\n" ++ tail) := by
  have hclosing : ∀ name d, ∃ tail, Rst.closing name d = ("\n" : Text) ++ tail := by
    intro name d
    have hbegin : Text.ofString "\n..\n\n..  container:: small\n\n    ∎ *" =
      Text.ofString "\n" ++ Text.ofString "..\n\n..  container:: small\n\n    ∎ *" := by decide
    rw [Rst.closing, hbegin, List.append_assoc, List.append_assoc]
    exact ⟨_, rfl⟩
  unfold closing
  split
  · obtain ⟨tail, htail⟩ := hclosing (chunkData w i).name (chunkData w i)
    exact ⟨tail ++ "\n", by simp [rst, htail]⟩
  · obtain ⟨tail, htail⟩ := hclosing (chunkData w i).fullName (chunkData w i)
    exact ⟨tail ++ Rst.usedBy (chunkData w i) ++ "\n", by simp [rst, htail]⟩

end Blocks

/-- All lines of a code block are in the block. What follows the header and its blank line, the
first there is, is the code of the chunk with four spaces before each of its lines, where each
reference is shown as a link; what ends the block begins with the newline after it. If the chunk has
an ambiguous reference, the block breaks off there. -/
theorem rst_block_indented {options : Reader.Options} {tree : FileTree} {name : Text}
    {source : Reader.Source} {chunks : List Chunk}
    (h : (Reader.load options tree name source).chunks = .ok chunks) (path : Text) {i : Nat}
    (hi : ((Web.ofChunks path chunks).chunk i).framed = true)
    (hindex : ∀ c ∈ ((Web.ofChunks path chunks).chunk i).commands, ∀ kind,
      c.body ≠ .crossReference kind) :
    let w := Web.ofChunks path chunks
    ∃ header body tail shown rest,
      opening rst w i = .ok (header ++ "\n\n" ++ "    ") ∧
      ¬("\n\n" : Text) <:+: header ++ "\n" ∧
      closing rst w i = .ok ("\n" ++ tail) ∧
      (w.chunk i).commands = shown ++ rest ∧ (∀ c ∈ shown, ¬Ambiguous chunks c) ∧
      (∀ c ∈ rest.head?, Ambiguous chunks c) ∧
      chunkText rst w i = header ++ "\n\n" ++ body ++ (if rest = [] then "\n" ++ tail else []) ∧
      (∀ line ∈ Text.split newline body, ("    " : Text) <+: line) ∧
      Text.lines ((Text.split newline body).map (List.drop 4)) = shown.flatMap (linkedCode w) := by
  intro w
  have hheadings := Reader.oneLine_load h
  have hnames : ∀ c ∈ chunks, newline ∉ c.name := fun c hc => (hheadings c hc).1
  have hget : chunks[i]? = some (w.chunk i) := getElem?_of_framed hi
  have hmem : w.chunk i ∈ chunks := List.mem_of_getElem? hget
  obtain ⟨hformed, -⟩ := Reader.load_wellFormed h _ hmem
  have hcode : (w.chunk i).isCode = true := Chunk.isCode_of_framed hi
  obtain ⟨first, last, shown, rest, hshows⟩ := exists_shows (m := rst) (by simp [markups]) hi
  obtain ⟨shownName, hname, hopening⟩ := opening_rst hget hnames
  obtain ⟨tail, hclosing⟩ := closing_rst w i
  cases hshows.opening.symm.trans hopening
  cases hshows.closing.symm.trans hclosing
  have hblock : shown.flatMap (shownText rst w (w.chunk i).style) =
      Rst.indent (shown.flatMap (linkedCode w)) := by
    rw [Rst.indent_flatMap]
    refine List.flatMap_congr fun c hc => ?_
    have hc' : c ∈ (w.chunk i).commands := hshows.mem_commands hc
    have hsuits : c.Suits true := hcode ▸ hformed.commands c hc'
    exact shownText_rst hnames hsuits (hindex c hc') (hshows.resolved c hc)
  have htext := hshows.text
  rw [hblock, Rst.opening_eq] at htext
  obtain ⟨hspaces, hlines⟩ := Rst.lines_indent (shown.flatMap (linkedCode w))
  refine ⟨Rst.header shownName (chunkData w i), "    " ++ Rst.indent (shown.flatMap (linkedCode w)),
    tail, shown, rest, ?_, ?_, hclosing, hshows.commands, hshows.not_ambiguous_of_mem,
    hshows.ambiguous_head, ?_, hspaces, hlines⟩
  · rw [hopening, Rst.opening_eq]
  · exact Rst.no_blank_line hname (hheadings _ hmem).2
  · rw [htext]
    simp only [List.append_assoc]
    rfl

/-- A definition with an empty line, and with a reference where a line begins. -/
theorem rst_block_indented_reference :
    let chunks : List Chunk :=
      [{ kind := .named, name := "a", options := ["a"], location := ⟨"m.w", 1⟩
         commands := [⟨.code "x\n\n", ⟨"m.w", 1⟩⟩, ⟨.reference "b", ⟨"m.w", 3⟩⟩,
          ⟨.code "y\n", ⟨"m.w", 3⟩⟩] },
        { kind := .named, name := "b", options := ["b"], location := ⟨"m.w", 4⟩
          commands := [⟨.code "z", ⟨"m.w", 4⟩⟩] }]
    let w := Web.ofChunks "m.w" chunks
    (Reader.load {} ⟨[], []⟩ "m.w"
      ⟨"@d a @\x7bx\n\n@<b@>y\n@\x7d@d b @\x7bz@\x7d", none⟩).chunks = .ok chunks ∧
    (w.chunk 0).framed = true ∧
    (∀ c ∈ (w.chunk 0).commands, ∀ kind, c.body ≠ .crossReference kind) ∧
    ∃ header body tail, chunkText rst w 0 = header ++ "\n\n" ++ body ++ ("\n" ++ tail) ∧
      (∀ line ∈ Text.split newline body, ("    " : Text) <+: line) ∧
      Text.lines ((Text.split newline body).map (List.drop 4)) = "x\n\n→ `b (2)`_y\n" := by
  intro chunks w
  have hload : (Reader.load {} ⟨[], []⟩ "m.w"
      ⟨"@d a @\x7bx\n\n@<b@>y\n@\x7d@d b @\x7bz@\x7d", none⟩).chunks = .ok chunks := by decide
  have hnames : Web.definedNames chunks = [Text.ofString "a", Text.ofString "b"] :=
    List.mergeSort_of_pairwise (by decide)
  have hw : w = _ := Web.ofChunks_of_names "m.w" chunks hnames
  have hchunk : w.chunk 0 = chunks[0] := Web.chunk_ofChunks "m.w" chunks 0
  have hframed : (w.chunk 0).framed = true := hchunk ▸ rfl
  have hindex : ∀ c ∈ (w.chunk 0).commands, ∀ kind, c.body ≠ .crossReference kind := by
    rw [hchunk]
    simp [chunks]
  obtain ⟨header, body, tail, shown, rest, -, -, -, hcommands, -, hrest, htext, hlines, hcode⟩ :=
    rst_block_indented hload "m.w" hframed hindex
  have hwhole : ∀ c ∈ chunks[0].commands,
      c.reference?.all (fun name => !isAbbreviation name) = true := by decide
  have hnil : rest = [] := by
    cases rest with
    | nil => rfl
    | cons c rest =>
      have hc : c ∈ chunks[0].commands := by
        rw [← hchunk, hcommands]
        simp
      exact absurd (hrest c rfl) (not_ambiguous (hwhole c hc))
  have hlinked : shown.flatMap (linkedCode w) = "x\n\n→ `b (2)`_y\n" := by
    rw [hnil, List.append_nil] at hcommands
    rw [← hcommands]
    change (w.chunk 0).commands.flatMap (linkedCode w) = _
    rw [hchunk, hw]
    decide
  rw [if_pos hnil] at htext
  exact ⟨hload, hframed, hindex, header, body, tail, htext, hlines, hcode.trans hlinked⟩

end Weave

end Literate
