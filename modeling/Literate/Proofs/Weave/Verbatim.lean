import Literate.Proofs.Reader.WellFormed
import Literate.Proofs.Text.Occurrence
import Literate.Proofs.Weave.Blocks

/-! Verbatim blocks in TeX end where their frame ends. The mark that ends one is broken up in code,
and no name, reference or index has it. Nor does it arise where fragments meet: code alone may end
with a beginning of the mark, and what follows code begins with a byte that does not continue it. -/

namespace Literate.Weave

open Text (Clear Passes clear_nil clear_of_drop clear_of_not_mem)

namespace Tex

def verbatimEnd : Text := environmentEnd "Verbatim"

/-- The mark but for its backslash. -/
def verbatimTail : Text := "end" ++ braced "Verbatim"

theorem verbatimEnd_eq : verbatimEnd = 92 :: verbatimTail := by decide

theorem clear_of_no_backslash {t : Text} (h : 92 ∉ t) : Clear verbatimEnd t :=
  verbatimEnd_eq ▸ clear_of_not_mem h

theorem clear_ofNat (n : Nat) : Clear verbatimEnd (Text.ofNat n) :=
  clear_of_no_backslash (Text.not_mem_ofNat (by decide) (by decide) n)

theorem clear_nameByte (b : UInt8) : Clear verbatimEnd (nameByte b) := by
  rcases eq_or_ne b 92 with rfl | hb
  · exact clear_of_drop (by decide)
  · unfold nameByte
    split
    iterate 8 exact clear_of_drop (by decide)
    exact clear_of_no_backslash (by simpa using hb.symm)

theorem clear_name (t : Text) : Clear verbatimEnd (name t) :=
  Clear.flatMap fun b _ => clear_nameByte b

/-- A command up to its argument. -/
def commandBegin (word : Text) : Text := 92 :: word ++ [0x7B]

theorem clear_command {word argument : Text} (hword : Clear verbatimEnd (commandBegin word))
    (hargument : Clear verbatimEnd argument) : Clear verbatimEnd (command word argument) := by
  have hclose : Clear verbatimEnd [0x7D] := clear_of_no_backslash (by decide)
  have hbackslash : Text.ofString "\\" = [92] := by decide
  simpa [command, commandBegin, braced, hbackslash] using (hword.append hargument).append hclose

theorem clear_numbered {n : Text} (h : Clear verbatimEnd n) (seq : Nat) :
    Clear verbatimEnd (numbered n seq) :=
  ((h.append (clear_of_no_backslash (by decide))).append (clear_ofNat seq)).append
    (clear_of_no_backslash (by decide))

theorem clear_title (r : Ref) : Clear verbatimEnd (title r) :=
  clear_command (clear_of_drop (by decide)) (clear_numbered (clear_name r.name) r.seq)

theorem clear_label (seq : Nat) : Clear verbatimEnd (label seq) :=
  (clear_of_no_backslash (by decide)).append (clear_ofNat seq)

theorem clear_link (r : Ref) : Clear verbatimEnd (link r) :=
  ((clear_title r).append (clear_of_no_backslash (by decide))).append
    (clear_command (clear_of_drop (by decide)) (clear_label r.seq))

theorem clear_links (rs : List Ref) : Clear verbatimEnd (links link rs) := by
  refine Clear.join (clear_of_no_backslash (by decide)) fun part hpart => ?_
  obtain ⟨r, -, rfl⟩ := List.mem_map.1 hpart
  exact clear_link r

theorem clear_usedBy (d : ChunkData) : Clear verbatimEnd (usedBy d) := by
  unfold usedBy
  split
  · exact clear_nil
  · exact ((clear_of_drop (by decide)).append (clear_links d.usedBy)).append
      (clear_of_no_backslash (by decide))

theorem clear_line {face : Text} (hface : Clear verbatimEnd (commandBegin face))
    (e : IndexEntry) : Clear verbatimEnd (line face e) :=
  ((((clear_of_drop (by decide)).append (clear_command hface (clear_name e.name))).append
    (clear_of_no_backslash (by decide))).append (clear_links e.refs)).append
      (clear_of_no_backslash (by decide))

theorem clear_codeTitle (d : ChunkData) : Clear verbatimEnd (codeTitle d) :=
  (clear_command (clear_of_drop (by decide)) ((clear_of_no_backslash (by decide)).append
    (clear_numbered (clear_name d.fullName) d.seq))).append (clear_of_no_backslash (by decide))

theorem clear_fileTitle (d : ChunkData) : Clear verbatimEnd (fileTitle d) :=
  (((clear_command (clear_of_drop (by decide)) (clear_name d.name)).append
    (clear_of_no_backslash (by decide))).append (clear_ofNat d.seq)).append
      (clear_of_no_backslash (by decide))

/-- What a verbatim block begins with under a title. -/
theorem clear_begin (d : ChunkData) {heading : Text} (h : Clear verbatimEnd heading) :
    Clear verbatimEnd
      (anchor d ++ command "begin" "flushleft" ++ "\n" ++ heading ++ verbatimBegin) := by
  have hnewline : Clear verbatimEnd ("\n" : Text) := clear_of_no_backslash (by decide)
  have hanchor : Clear verbatimEnd (anchor d) :=
    (hnewline.append (clear_command (clear_of_drop (by decide)) (clear_label d.seq))).append
      hnewline
  have hflush : Clear verbatimEnd (command "begin" "flushleft") := clear_of_drop (by decide)
  have hbegin : Clear verbatimEnd verbatimBegin := clear_of_drop (by decide)
  exact (((hanchor.append hflush).append hnewline).append h).append hbegin

end Tex

open Tex

variable {w : Web}

theorem opening_tex (w : Web) (i : Nat) :
    ∃ first, opening tex w i = .ok first ∧ Clear verbatimEnd first := by
  unfold opening
  split
  · exact ⟨_, rfl, clear_begin _ (clear_fileTitle _)⟩
  · exact ⟨_, rfl, clear_begin _ (clear_codeTitle _)⟩

theorem closing_tex (w : Web) (i : Nat) : ∃ after,
    closing tex w i = .ok ("\n" ++ environmentEnd "Verbatim" ++ after) ∧
      Clear verbatimEnd after := by
  have hnewline : Clear verbatimEnd ("\n" : Text) := clear_of_no_backslash (by decide)
  have hflush : Clear verbatimEnd (environmentEnd "flushleft" ++ "\n") := clear_of_drop (by decide)
  unfold closing
  split
  · exact ⟨"\n" ++ (environmentEnd "flushleft" ++ "\n"), by simp [tex], hnewline.append hflush⟩
  · exact ⟨"\n" ++ (usedBy (chunkData w i) ++ (environmentEnd "flushleft" ++ "\n")), by simp [tex],
      hnewline.append ((clear_usedBy _).append hflush)⟩

/-- All but code begins with a byte that does not continue the mark. -/
theorem shownText_tex_of_not_run (style : Text) {c : Command} (hrun : c.run? = none)
    (hfault : commandFault w c = none) : ∃ b rest, shownText tex w style c = b :: rest ∧
      b ∉ verbatimTail ∧ Clear verbatimEnd (b :: rest) := by
  obtain ⟨body, l⟩ := c
  cases body with
  | text t => cases hrun
  | code t => cases hrun
  | reference name =>
    have hshown : shownText tex w style ⟨.reference name, l⟩ = Tex.title (target w name) := by
      rw [shownText, codePiece_reference hfault]
      rfl
    exact ⟨92, _, hshown, by decide, clear_title _⟩
  | crossReference kind =>
    have hindex : ∀ (face : Text) (entries : List IndexEntry),
        Clear verbatimEnd (commandBegin face) → Clear verbatimEnd
          ("\n" ++ command "begin" "itemize" ++ "\n" ++ entries.flatMap (line face) ++
            (environmentEnd "itemize" ++ "\n")) := by
      intro face entries hface
      have hhead : Clear verbatimEnd ("\n" ++ command "begin" "itemize" ++ "\n") :=
        clear_of_drop (by decide)
      have hfoot : Clear verbatimEnd (environmentEnd "itemize" ++ "\n") := clear_of_drop (by decide)
      exact (hhead.append (Clear.flatMap fun e _ => clear_line hface e)).append hfoot
    cases kind with
    | files => exact ⟨10, _, rfl, by decide, hindex "texttt" _ (clear_of_drop (by decide))⟩
    | macros => exact ⟨10, _, rfl, by decide, hindex "textit" _ (clear_of_drop (by decide))⟩
    | identifiers => exact ⟨10, _, rfl, by decide, hindex "texttt" _ (clear_of_drop (by decide))⟩

theorem passes_run (t : Text) {rest : Text} (hrest : ∀ b ∈ rest.head?, b ∉ verbatimTail) :
    Passes verbatimEnd (quote "Verbatim" t) rest := by
  have hmark : (92 : UInt8) ∉ verbatimTail := by decide
  have hbroken : Clear (92 :: verbatimTail) ("\\end\\," ++ braced "Verbatim") :=
    clear_of_drop (by decide)
  have hpasses := Text.passes_replace (t := t) hmark rfl hbroken hrest
  rw [← verbatimEnd_eq] at hpasses
  exact hpasses

/-- The mark does not begin in what is shown for the commands of a chunk of code, in which no two
runs are adjacent, if what follows them does not continue it. -/
theorem passes_commands (style : Text) {commands : List Command}
    (hsuits : ∀ c ∈ commands, c.Suits true)
    (hapart : commands.IsChain fun a b => a.run? = none ∨ b.run? = none)
    (hfault : ∀ c ∈ commands, commandFault w c = none) {ending : Text}
    (hending : ∀ b ∈ ending.head?, b ∉ verbatimTail) :
    Passes verbatimEnd (commands.flatMap (shownText tex w style)) ending := by
  induction commands with
  | nil => exact Text.passes_nil
  | cons c commands ih =>
    have hrest := ih (fun k hk => hsuits k (by simp [hk])) hapart.tail
      fun k hk => hfault k (by simp [hk])
    rw [List.flatMap_cons]
    refine Passes.append ?_ hrest
    cases hrun : c.run? with
    | none =>
      obtain ⟨b, shown, hshown, -, hclear⟩ :=
        shownText_tex_of_not_run style hrun (hfault c (by simp))
      rw [hshown]
      exact hclear _
    | some t =>
      -- the next command is no run, so that it does not continue the mark
      have hnext : ∀ b ∈ (commands.flatMap (shownText tex w style) ++ ending).head?,
          b ∉ verbatimTail := by
        cases commands with
        | nil => exact hending
        | cons d commands =>
          have hd : d.run? = none := by simpa [hrun] using List.rel_of_isChain_cons_cons hapart
          obtain ⟨b, shown, hshown, hb, -⟩ :=
            shownText_tex_of_not_run style hd (hfault d (by simp))
          simpa [hshown] using hb
      obtain ⟨body, l⟩ := c
      have hc := hsuits ⟨body, l⟩ (by simp)
      cases body with
      | code t => exact passes_run t hnext
      | text t => cases hc
      | reference name => cases hrun
      | crossReference kind => cases hrun

/-- The mark does not begin in what a block holds before its end, if what follows does not continue
it. -/
theorem passes_content {first last : Text} {done rest : List Command} {i : Nat}
    (h : Shows tex w i first last done rest) (hcode : (w.chunk i).isCode = true)
    (hformed : (w.chunk i).WellFormed) {ending : Text}
    (hending : ∀ b ∈ ending.head?, b ∉ verbatimTail) :
    Passes verbatimEnd (first ++ done.flatMap (shownText tex w (w.chunk i).style)) ending := by
  obtain ⟨_, hopening, hfirst⟩ := opening_tex w i
  cases h.opening.symm.trans hopening
  have hsuits : ∀ c ∈ done, c.Suits true := by
    intro c hc
    rw [← hcode]
    exact hformed.commands c (h.mem_commands hc)
  have hapart := hformed.apart
  rw [h.commands] at hapart
  exact (hfirst _).append (passes_commands _ hsuits hapart.left_of_append h.resolved hending)

/-- A verbatim block ends once. Whatever the code of a chunk, its name and the names it refers to
are, its fragments hold the mark that ends the block in one place, that of the frame. If it has an
ambiguous reference its fragments end there, and do not hold the mark. -/
theorem tex_block_ends_once {options : Reader.Options} {tree : FileTree} {name : Text}
    {source : Reader.Source} {chunks : List Chunk}
    (h : (Reader.load options tree name source).chunks = .ok chunks) (path : Text) {i : Nat}
    (hi : ((Web.ofChunks path chunks).chunk i).framed = true) :
    let w := Web.ofChunks path chunks
    ∃ content after, closing tex w i = .ok ("\n" ++ environmentEnd "Verbatim" ++ after) ∧
      ¬environmentEnd "Verbatim" <:+: content ∧
      ((∀ c ∈ (w.chunk i).commands, ¬Ambiguous chunks c) →
        chunkText tex w i = content ++ "\n" ++ environmentEnd "Verbatim" ++ after ∧
        ∀ before rest, chunkText tex w i = before ++ environmentEnd "Verbatim" ++ rest ↔
          before = content ++ "\n" ∧ rest = after) ∧
      ((∃ c ∈ (w.chunk i).commands, Ambiguous chunks c) → chunkText tex w i = content) := by
  intro w
  obtain ⟨hformed, -⟩ := Reader.load_wellFormed h _ (List.mem_of_getElem? (getElem?_of_framed hi))
  have hcode : (w.chunk i).isCode = true := Chunk.isCode_of_framed hi
  obtain ⟨first, last, done, rest, hshows⟩ := exists_shows (m := tex) (by simp [markups]) hi
  have hpasses := @passes_content w first last done rest i hshows hcode hformed
  have htext := hshows.text
  obtain ⟨after, hclosing, hafter⟩ := closing_tex w i
  cases hshows.closing.symm.trans hclosing
  generalize first ++ done.flatMap (shownText tex w (w.chunk i).style) = content at hpasses htext
  have hlone : Passes verbatimEnd content [] := hpasses (by simp)
  have habsent : ¬verbatimEnd <:+: content := hlone.absent (by decide)
  refine ⟨content, after, hclosing, habsent, fun hclear => ?_, fun hambiguous => ?_⟩
  · have hwhole : chunkText tex w i = content ++ "\n" ++ verbatimEnd ++ after := by
      rw [htext, if_pos (hshows.rest_eq_nil_iff.2 hclear)]
      simp [verbatimEnd]
    have hnewline : ∀ b ∈ (("\n" : Text) ++ (verbatimEnd ++ after)).head?, b ∉ verbatimTail := by
      intro b hb
      cases hb
      decide
    have hcontent : Passes verbatimEnd (content ++ "\n") (verbatimEnd ++ after) :=
      (hpasses hnewline).append (clear_of_no_backslash (by decide) _)
    have hmark : (92 : UInt8) ∉ verbatimTail := by decide
    refine ⟨hwhole, fun before rest => ?_⟩
    rw [verbatimEnd_eq] at hcontent hafter
    have hunique := Text.occurrence_unique hmark hcontent hafter before rest
    rw [← verbatimEnd_eq] at hunique
    rw [hwhole]
    exact hunique
  · obtain ⟨c, hc, hc'⟩ := hambiguous
    have hmore : rest ≠ [] := fun hnil => hshows.rest_eq_nil_iff.1 hnil c hc hc'
    rw [htext, if_neg hmore, List.append_nil]

/-- A file whose code is the mark, with a reference right after it. -/
theorem tex_block_ends_once_quoted :
    let chunks : List Chunk :=
      [{ kind := .output, name := "f", options := ["f"], location := ⟨"m.w", 1⟩
         commands := [⟨.code (environmentEnd "Verbatim"), ⟨"m.w", 1⟩⟩,
          ⟨.reference "a", ⟨"m.w", 1⟩⟩] },
        { kind := .named, name := "a", options := ["a"], location := ⟨"m.w", 1⟩
          commands := [⟨.code "x", ⟨"m.w", 1⟩⟩] }]
    let w := Web.ofChunks "m.w" chunks
    (Reader.load {} ⟨[], []⟩ "m.w"
      ⟨"@o f @\x7b\\end\x7bVerbatim\x7d@<a@>@\x7d@d a @\x7bx@\x7d", none⟩).chunks = .ok chunks ∧
    (w.chunk 0).framed = true ∧ ∃ content after, ¬environmentEnd "Verbatim" <:+: content ∧
      chunkText tex w 0 = content ++ "\n" ++ environmentEnd "Verbatim" ++ after := by
  intro chunks w
  have hload : (Reader.load {} ⟨[], []⟩ "m.w"
      ⟨"@o f @\x7b\\end\x7bVerbatim\x7d@<a@>@\x7d@d a @\x7bx@\x7d", none⟩).chunks = .ok chunks := by
    decide
  have hchunk : w.chunk 0 = chunks[0] := Web.chunk_ofChunks "m.w" chunks 0
  have hframed : (w.chunk 0).framed = true := hchunk ▸ rfl
  have hclear : ∀ c ∈ (w.chunk 0).commands, ¬Ambiguous chunks c := by
    have hwhole : ∀ c ∈ chunks[0].commands,
        c.reference?.all (fun name => !isAbbreviation name) = true := by decide
    rw [hchunk]
    exact fun c hc => not_ambiguous (hwhole c hc)
  obtain ⟨content, after, -, hcontent, hends, -⟩ := tex_block_ends_once hload "m.w" hframed
  exact ⟨hload, hframed, content, after, hcontent, (hends hclear).1⟩

/-- A block that breaks off at an ambiguous reference is not ended. -/
theorem tex_block_broken_off :
    let chunks : List Chunk :=
      [{ kind := .output, name := "f", options := ["f"], location := ⟨"m.w", 1⟩
         commands := [⟨.code "x\n", ⟨"m.w", 1⟩⟩, ⟨.reference "a...", ⟨"m.w", 2⟩⟩] },
        { kind := .named, name := "ab", options := ["ab"], location := ⟨"m.w", 2⟩
          commands := [⟨.code "y", ⟨"m.w", 2⟩⟩] },
        { kind := .named, name := "ac", options := ["ac"], location := ⟨"m.w", 2⟩
          commands := [⟨.code "z", ⟨"m.w", 2⟩⟩] }]
    let w := Web.ofChunks "m.w" chunks
    (Reader.load {} ⟨[], []⟩ "m.w"
      ⟨"@o f @\x7bx\n@<a...@>@\x7d@d ab @\x7by@\x7d@d ac @\x7bz@\x7d", none⟩).chunks =
        .ok chunks ∧
    (w.chunk 0).framed = true ∧ ¬environmentEnd "Verbatim" <:+: chunkText tex w 0 := by
  intro chunks w
  have hload : (Reader.load {} ⟨[], []⟩ "m.w"
      ⟨"@o f @\x7bx\n@<a...@>@\x7d@d ab @\x7by@\x7d@d ac @\x7bz@\x7d", none⟩).chunks =
        .ok chunks := by
    decide
  have hnames : Web.definedNames chunks = [Text.ofString "ab", Text.ofString "ac"] :=
    List.mergeSort_of_pairwise (by decide)
  have hw : w = _ := Web.ofChunks_of_names "m.w" chunks hnames
  have hchunk : w.chunk 0 = chunks[0] := Web.chunk_ofChunks "m.w" chunks 0
  refine ⟨hload, hchunk ▸ rfl, ?_⟩
  rw [hw]
  decide +kernel

end Literate.Weave
