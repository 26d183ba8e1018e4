import Mathlib.Data.List.DropRight
import Literate.Proofs.Tangle.Writing
import Literate.Proofs.Text.Repair
import Literate.Proofs.Web.Definitions

/-! Line marks are transparent. An expansion with marks goes through the same runs of code, at the
same columns, as one without them, and fails alike; its output has one more line before each run
that begins a line. -/

namespace Literate

theorem Location.newline_not_mem_text {l : Location} (h : Text.newline ∉ l.name) :
    Text.newline ∉ l.text := by
  have hcolon : Text.newline ∉ Text.ofString ":" := by decide
  have hminus : Text.newline ∉ Text.ofString "-" := by decide
  have hline : Text.newline ∉ Text.ofInt l.line := by
    cases l.line with
    | ofNat n => exact Text.newline_not_mem_ofNat n
    | negSucc n => simp [Text.ofInt, hminus, Text.newline_not_mem_ofNat]
  simp [Location.text, h, hcolon, hline]

namespace Tangle

/-- Code that ends with a whole line, or none. -/
def beginsLine (code : Text) : Bool := code.isEmpty || code.getLast? == some Text.newline

theorem beginsLine_append {piece : Text} (hne : piece ≠ []) (h : Text.newline ∉ piece)
    (code : Text) : beginsLine (code ++ piece) = false := by
  obtain ⟨b, hb⟩ := List.getLast?_isSome.2 hne |> Option.isSome_iff_exists.1
  have hlast : b ≠ Text.newline := fun he => h (he ▸ List.mem_of_getLast? hb)
  simp [beginsLine, hne, List.getLast?_append, hb, hlast]

/-- What is written of the last line of some code. -/
def openLine (code : Text) : Text := code.rtakeWhile (· != Text.newline)

theorem openLine_eq_nil {code : Text} (h : beginsLine code = true) : openLine code = [] := by
  rw [openLine, List.rtakeWhile_eq_nil_iff]
  intro hne
  simpa [beginsLine, hne, List.getLast?_eq_some_getLast hne] using h

theorem openLine_append {code code' : Text} (h : openLine code = openLine code') (more : Text) :
    openLine (code ++ more) = openLine (code' ++ more) := by
  simp only [openLine, List.rtakeWhile, List.reverse_inj] at h
  simp only [openLine, List.rtakeWhile, List.reverse_append, List.takeWhile_append, h]

namespace Writer

variable {w : Writer}

/-- The buffer with something else in it. -/
def withOut (out : Text) (w : Writer) : Writer := { w with out }

/-- What writing a text adds to the buffer. -/
def adds (text : Text) (w : Writer) : Text := ((w.withOut []).put text).out

theorem putPiece_withOut_append (piece a : Text) (w : Writer) :
    (w.withOut (a ++ w.out)).putPiece piece =
      (w.putPiece piece).withOut (a ++ (w.putPiece piece).out) := by
  by_cases hne : piece = []
  · simp [hne]
  · rw [putPiece_of_ne_nil hne, putPiece_of_ne_nil hne]
    simp only [withOut, padding, column, List.append_assoc]
    rfl

theorem put_withOut_append (text a : Text) (w : Writer) :
    (w.withOut (a ++ w.out)).put text = (w.put text).withOut (a ++ (w.put text).out) := by
  induction text using Text.byLines generalizing w with
  | last piece hp =>
    rw [put_of_not_mem hp, put_of_not_mem hp]
    exact putPiece_withOut_append piece a w
  | line piece rest hp ih =>
    rw [put_line hp, put_line hp, putPiece_withOut_append]
    have hline : ((w.putPiece piece).withOut (a ++ (w.putPiece piece).out)).endLine =
        (w.putPiece piece).endLine.withOut (a ++ (w.putPiece piece).endLine.out) := by
      simp [withOut, endLine]
    rw [hline, ih]

/-- Writing adds the same whatever the buffer holds. -/
theorem put_withOut (text a : Text) (w : Writer) :
    (w.withOut a).put text = (w.put text).withOut (a ++ w.adds text) := by
  have hfrom : ∀ b, (w.withOut b).put text =
      ((w.withOut []).put text).withOut (b ++ w.adds text) := by
    intro b
    simpa [withOut, adds] using put_withOut_append text b (w.withOut [])
  have hself : w.put text = ((w.withOut []).put text).withOut (w.out ++ w.adds text) := hfrom w.out
  rw [hfrom, hself]
  rfl

theorem out_put (text : Text) (w : Writer) : (w.put text).out = w.out ++ w.adds text := by
  have h := put_withOut text w.out w
  exact congrArg Writer.out h

/-- The writer knows from its buffer whether a line begins. -/
structure Neat (w : Writer) : Prop where
  fresh : w.fresh = beginsLine w.out
  written : w.fresh = true → w.written = 0

namespace Neat

theorem start : Neat {} := ⟨rfl, fun _ => rfl⟩

theorem putPiece (h : Neat w) {piece : Text} (hp : Text.newline ∉ piece) :
    Neat (w.putPiece piece) := by
  by_cases hne : piece = []
  · simpa [hne] using h
  · rw [putPiece_of_ne_nil hne]
    refine ⟨?_, by simp⟩
    rw [← List.append_assoc, beginsLine_append hne hp]

theorem endLine (w : Writer) : Neat w.endLine :=
  ⟨by simp [Writer.endLine, beginsLine], fun _ => rfl⟩

theorem put (h : Neat w) (text : Text) : Neat (w.put text) := by
  induction text using Text.byLines generalizing w with
  | last piece hp =>
    rw [put_of_not_mem hp]
    exact h.putPiece hp
  | line piece rest hp ih =>
    rw [put_line hp]
    exact ih (endLine _)

theorem setIndent (h : Neat w) (n : Int) : Neat (w.setIndent n) := ⟨h.fresh, h.written⟩

theorem clearIndent (h : Neat w) : Neat w.clearIndent := by
  refine ⟨?_, ?_⟩
  · rw [fresh_clearIndent, out_clearIndent, h.fresh]
  · rw [fresh_clearIndent, written_clearIndent]
    exact h.written

end Neat

/-- A line that is written where a line begins changes nothing else. -/
theorem put_whole_line (h : Neat w) (hf : w.fresh = true) {line : Text} (hne : line ≠ [])
    (hline : Text.newline ∉ line) :
    w.put (line ++ [Text.newline]) =
      w.withOut (w.out ++ (List.replicate w.indent.toNat 32 ++ line ++ [Text.newline])) := by
  rw [put_line hline, put_of_not_mem (by simp), putPiece_nil, putPiece_of_ne_nil hne]
  simp [endLine, withOut, padding, hf, h.written hf]

end Writer

namespace Mark

/-- The mark of the code of an output file. -/
def ofChunk (c : Chunk) : Mark := ⟨c.commentStart, c.commentEnd⟩

/-- What a mark says of a run of code. -/
def text (m : Mark) (l : Location) : Text :=
  let tail : Text := if m.closing = [] then [] else " " ++ m.closing
  m.opening ++ " Web: " ++ l.text ++ tail

/-- The mark before a run of code is a line of its own, at the indent of the run. -/
def line (m : Mark) (indent : Int) (l : Location) : Text :=
  List.replicate indent.toNat 32 ++ m.text l ++ [Text.newline]

theorem newline_not_mem_text (m : Mark) (hopening : Text.newline ∉ m.opening)
    (hclosing : Text.newline ∉ m.closing) {l : Location} (hl : Text.newline ∉ l.name) :
    Text.newline ∉ m.text l := by
  have hweb : Text.newline ∉ Text.ofString " Web: " := by decide
  have hblank : Text.newline ∉ Text.ofString " " := by decide
  have hlocation := Location.newline_not_mem_text hl
  by_cases hc : m.closing = []
  · simp [text, hopening, hweb, hlocation, hc]
  · simp [text, hopening, hweb, hlocation, hc, hblank, hclosing]

end Mark

/-- A run of code in an expansion: where it is from, the indent in force there and what it adds to
the code, its indentation included. -/
structure Stretch where
  location : Location
  indent : Int
  code : Text

/-- The mark before a run that follows some code, if that run begins a line. -/
def Mark.lead (m : Mark) (before : Text) (r : Stretch) : Text :=
  if m.opening ≠ [] ∧ beginsLine before = true then m.line r.indent r.location else []

/-- The code of some runs. -/
def codeOfRuns (runs : List Stretch) : Text := (runs.map Stretch.code).flatten

/-- The code of some runs that follow other code, with a mark before each that begins a line. -/
def withMarks (m : Mark) : (before : Text) → List Stretch → Text
  | _, [] => []
  | before, r :: rest => m.lead before r ++ (r.code ++ withMarks m (before ++ r.code) rest)

/-- The runs of code that an expansion of commands goes through, from a writer to another. A
reference goes through the definitions of its full name, at an indent of its own. -/
inductive Lays (chunks : List Chunk) : Writer → List Command → List Stretch → Writer → Prop
  | nil {w : Writer} : Lays chunks w [] [] w
  | code {w v : Writer} {text : Text} {l : Location} {rest : List Command} {runs : List Stretch}
    (hrest : Lays chunks (w.put text) rest runs v) :
    Lays chunks w (⟨.code text, l⟩ :: rest) (⟨l, w.indent, w.adds text⟩ :: runs) v
  | reference {w u v : Writer} {name full : Text} {l : Location} {first : Chunk}
    {more : List Chunk} {rest : List Command} {inner runs : List Stretch}
    (hname : Web.resolveIn (Web.definedNames chunks) name = .ok full)
    (hdefs : Web.definitionsIn chunks full = first :: more)
    (hinner : Lays chunks (w.setIndent (if first.indent = .off then 0 else w.column))
      ((first :: more).flatMap Chunk.commands) inner u)
    (hrest : Lays chunks u.clearIndent rest runs v) :
    Lays chunks w (⟨.reference name, l⟩ :: rest) (inner ++ runs) v

section Runs

variable {chunks : List Chunk} {m : Mark} {before : Text} {runs runs' : List Stretch}
  {cs ds : List Command} {u v v' w : Writer}

theorem codeOfRuns_append (runs runs' : List Stretch) :
    codeOfRuns (runs ++ runs') = codeOfRuns runs ++ codeOfRuns runs' := by
  simp [codeOfRuns]

theorem withMarks_append (m : Mark) (before : Text) (runs runs' : List Stretch) :
    withMarks m before (runs ++ runs') =
      withMarks m before runs ++ withMarks m (before ++ codeOfRuns runs) runs' := by
  induction runs generalizing before with
  | nil => simp [withMarks, codeOfRuns]
  | cons r runs ih => simp [withMarks, codeOfRuns, ih]

/-- A mark stands before a run of which the line is empty, and leaves it empty. -/
theorem openLine_lead {marked : Text} (h : openLine marked = openLine before) (r : Stretch) :
    openLine (marked ++ m.lead before r) = openLine before := by
  by_cases hmark : m.opening ≠ [] ∧ beginsLine before = true
  · have hline : beginsLine (marked ++ m.line r.indent r.location) = true := by
      simp [Mark.line, beginsLine]
    rw [Mark.lead, if_pos hmark, openLine_eq_nil hmark.2, openLine_eq_nil hline]
  · rw [Mark.lead, if_neg hmark, List.append_nil, h]

theorem openLine_withMarks (m : Mark) (runs : List Stretch) :
    openLine (withMarks m [] runs) = openLine (codeOfRuns runs) := by
  induction runs using List.reverseRecOn with
  | nil => rfl
  | append_singleton runs r ih =>
    have hrun := openLine_append (openLine_lead (m := m) ih r) r.code
    simpa [withMarks_append, withMarks, codeOfRuns] using hrun

theorem Lays.append (h : Lays chunks w cs runs u) (h' : Lays chunks u ds runs' v) :
    Lays chunks w (cs ++ ds) (runs ++ runs') v := by
  induction h with
  | nil => exact h'
  | code _ ih => exact .code (ih h')
  | reference hname hdefs hinner _ _ ih =>
    rw [List.append_assoc]
    exact .reference hname hdefs hinner (ih h')

theorem Lays.unique (h : Lays chunks w cs runs v) (h' : Lays chunks w cs runs' v') :
    runs = runs' ∧ v = v' := by
  induction h generalizing runs' v' with
  | nil =>
    cases h'
    exact ⟨rfl, rfl⟩
  | code _ ih =>
    cases h' with
    | code hrest =>
      obtain ⟨rfl, rfl⟩ := ih hrest
      exact ⟨rfl, rfl⟩
  | reference hname hdefs _ _ ihinner ihrest =>
    cases h' with
    | reference hname' hdefs' hinner' hrest' =>
      rw [hname] at hname'
      cases hname'
      rw [hdefs] at hdefs'
      cases hdefs'
      obtain ⟨rfl, rfl⟩ := ihinner hinner'
      obtain ⟨rfl, rfl⟩ := ihrest hrest'
      exact ⟨rfl, rfl⟩

end Runs

/-! The two expansions side by side. -/

namespace Pass

/-- The pass with something else in its buffer. -/
def withOut (out : Text) (p : Pass) : Pass := { p with writer := p.writer.withOut out }

variable {p : Pass}

theorem write_withOut (text a : Text) (p : Pass) :
    (p.withOut a).write text = (p.write text).withOut (a ++ p.writer.adds text) := by
  simp only [withOut, write, Writer.put_withOut]

theorem clearIndent_withOut (a : Text) (p : Pass) :
    (p.withOut a).clearIndent = p.clearIndent.withOut a := by
  obtain ⟨⟨out, indent, _ | ⟨n, stack⟩, fresh, written⟩, citations, names⟩ := p <;> rfl

/-- A mark is one more line where the code without marks begins one. -/
theorem writeMark_withOut (hp : p.writer.Neat) {m : Mark} (hopening : Text.newline ∉ m.opening)
    (hclosing : Text.newline ∉ m.closing) {l : Location} (hl : Text.newline ∉ l.name)
    (a code : Text) :
    (p.withOut a).writeMark (some m) l =
      p.withOut (a ++ m.lead p.writer.out ⟨l, p.writer.indent, code⟩) := by
  by_cases hmark : m.opening ≠ [] ∧ beginsLine p.writer.out = true
  · obtain ⟨hne, hbegins⟩ := hmark
    have hf : p.writer.fresh = true := hp.fresh.trans hbegins
    have htext : m.text l ≠ [] := by simp [Mark.text, hne]
    have hput := Writer.put_whole_line hp hf htext (m.newline_not_mem_text hopening hclosing hl)
    have hadds : p.writer.adds (m.text l ++ [Text.newline]) = m.line p.writer.indent l := by
      have hout := Writer.out_put (m.text l ++ [Text.newline]) p.writer
      rw [hput] at hout
      exact (List.append_cancel_left hout).symm
    have hkeep : ¬(m.opening = [] ∨ (!(p.withOut a).writer.fresh) = true) := by
      have hfresh : (p.withOut a).writer.fresh = true := hf
      simp [hne, hfresh]
    have hmarked : (p.withOut a).writeMark (some m) l =
        (p.withOut a).write (m.text l ++ [Text.newline]) := by
      rw [writeMark, Writer.putMark]
      exact congrArg (fun writer => { p with writer }) (if_neg hkeep)
    rw [hmarked, write_withOut, hadds, Mark.lead, if_pos ⟨hne, hbegins⟩, write, hput]
    rfl
  · have hskip : m.opening = [] ∨ (!(p.withOut a).writer.fresh) = true := by
      by_cases hne : m.opening = []
      · exact .inl hne
      · have hbegins : beginsLine p.writer.out ≠ true := fun hb => hmark ⟨hne, hb⟩
        have hf : p.writer.fresh = false := by
          rw [← hp.fresh] at hbegins
          simpa using hbegins
        have hfresh : (p.withOut a).writer.fresh = false := hf
        exact .inr (by rw [hfresh]; rfl)
    rw [Mark.lead, if_neg hmark, List.append_nil, writeMark, Writer.putMark]
    exact congrArg (fun writer => { p with writer }) (if_pos hskip)

end Pass

/-- What commands do without marks, from a pass `p` to `q`, and with them, from the same pass with
`a` in its buffer. -/
structure Laid (chunks : List Chunk) (m : Mark) (cs : List Command) (p : Pass) (a : Text)
    (e : Except Fault Unit) (q : Pass) (marked : Result) (runs : List Stretch) : Prop where
  marked : marked = (e, q.withOut (a ++ withMarks m p.writer.out runs))
  neat : q.writer.Neat
  code : q.writer.out = p.writer.out ++ codeOfRuns runs
  lays : e = .ok () → Lays chunks p.writer cs runs q.writer

namespace Laid

variable {chunks : List Chunk} {m : Mark} {cs ds : List Command} {p q r : Pass} {a : Text}
  {e : Except Fault Unit} {marked marked' : Result} {runs runs' : List Stretch}

theorem nil (hp : p.writer.Neat) (a : Text) :
    Laid chunks m [] p a (.ok ()) p (.ok (), p.withOut a) [] where
  marked := by simp [withMarks]
  neat := hp
  code := by simp [codeOfRuns]
  lays _ := .nil

/-- A step that is at fault writes nothing. -/
theorem fail (hp : p.writer.Neat) (cs : List Command) (f : Fault) (a : Text) :
    Laid chunks m cs p a (.error f) p (.error f, p.withOut a) [] where
  marked := by simp [withMarks]
  neat := hp
  code := by simp [codeOfRuns]
  lays := nofun

theorem append (h : Laid chunks m cs p a (.ok ()) q marked runs)
    (h' : Laid chunks m ds q (a ++ withMarks m p.writer.out runs) e r marked' runs') :
    Laid chunks m (cs ++ ds) p a e r marked' (runs ++ runs') where
  marked := by rw [h'.marked, h.code, withMarks_append, List.append_assoc]
  neat := h'.neat
  code := by rw [h'.code, h.code, codeOfRuns_append, List.append_assoc]
  lays he := (h.lays rfl).append (h'.lays he)

/-- A reference goes through the runs of the definitions that it stands for. -/
theorem leave {path file : Text} {stack : List Text} {name full : Text} {l : Location}
    {first citing : Nat} {more : List Nat}
    (ht : target (Web.ofChunks path chunks) file stack name l = .ok (full, first, more))
    (h : Laid chunks m ((first :: more).flatMap fun d => ((Web.ofChunks path chunks).chunk d).commands)
      (p.enter (Web.ofChunks path chunks) name first more citing) a e q marked runs) :
    Laid chunks m [⟨.reference name, l⟩] p a e q.clearIndent (marked.1, marked.2.clearIndent)
      runs := by
  obtain ⟨hname, -, hget, -⟩ := target_ok.1 ht
  have hdefs : Web.definitionsIn chunks full = (Web.ofChunks path chunks).chunk first ::
      more.map (Web.ofChunks path chunks).chunk := by
    rw [← Web.definitions_ofChunks path chunks full, hget, List.map_cons]
  refine ⟨?_, h.neat.clearIndent, ?_, ?_⟩
  · rw [h.marked]
    exact congrArg (Prod.mk e) (Pass.clearIndent_withOut _ _)
  · change q.writer.clearIndent.out = _
    rw [Writer.out_clearIndent, h.code, Pass.writer_enter]
    rfl
  · intro hok
    have hinner := h.lays hok
    rw [Pass.writer_enter, List.flatMap_cons, ← List.flatMap_map, ← List.flatMap_cons] at hinner
    have hreference : Lays chunks p.writer [⟨.reference name, l⟩] (runs ++ [])
        q.clearIndent.writer := .reference hname hdefs hinner .nil
    simpa using hreference

end Laid

section Expansions

variable {path : Text} {chunks : List Chunk} {m : Mark}

/-- An expansion goes through the same runs at the same columns with marks as without. -/
theorem Expands.laid {file : Text} {depth : Nat} {stack : List Text} {as : List Step} {p q : Pass}
    {e : Except Fault Unit} (hopening : Text.newline ∉ m.opening)
    (hclosing : Text.newline ∉ m.closing)
    (hnames : ∀ d, ∀ c ∈ ((Web.ofChunks path chunks).chunk d).commands,
      Text.newline ∉ c.location.name)
    (h : Expands (Web.ofChunks path chunks) file none depth stack as p e q) (hp : p.writer.Neat)
    (has : ∀ a ∈ as, ∀ c ∈ a.commands (Web.ofChunks path chunks), Text.newline ∉ c.location.name)
    (a : Text) :
    ∃ runs, Laid chunks m (as.flatMap (Step.commands (Web.ofChunks path chunks))) p a e q
      (sequence (Step.run (Web.ofChunks path chunks) file (some m) depth stack) as
        (p.withOut a)) runs := by
  induction h generalizing a with
  | nil p => exact ⟨[], .nil hp a⟩
  | cons _ _ iha ihas =>
    obtain ⟨ha, has⟩ := List.forall_mem_cons.1 has
    obtain ⟨runs, hruns⟩ := iha hp (by simpa using ha) a
    obtain ⟨runs', hruns'⟩ := ihas hruns.neat has (a ++ withMarks m _ runs)
    have hmarked := hruns.marked
    rw [sequence_singleton] at hmarked
    rw [List.flatMap_singleton] at hruns
    rw [sequence_cons_of_ok hmarked, List.flatMap_cons]
    exact ⟨runs ++ runs', hruns.append hruns'⟩
  | abort as _ ih =>
    obtain ⟨runs, hruns⟩ := ih hp (by simpa using (List.forall_mem_cons.1 has).1) a
    have hmarked := hruns.marked
    rw [sequence_singleton] at hmarked
    rw [sequence_cons_of_error hmarked]
    exact ⟨runs, rfl, hruns.neat, hruns.code, nofun⟩
  | fault hf p =>
    rw [sequence_singleton, Step.run_of_fault hf]
    exact ⟨[], .fail hp _ _ a⟩
  | @code _ _ s c text hc p =>
    obtain ⟨body, l⟩ := c
    obtain rfl : body = .code text := hc
    have hl : Text.newline ∉ l.name := by simpa [Step.commands] using has
    refine ⟨[⟨l, p.writer.indent, p.writer.adds text⟩], ?_, hp.put text, ?_, fun _ => .code .nil⟩
    · rw [sequence_singleton, Step.run_code rfl,
        Pass.writeMark_withOut hp hopening hclosing hl a (p.writer.adds text), Pass.write_withOut]
      simp [withMarks, Pass.writeMark, Writer.putMark]
    · change (p.writer.put text).out = _
      simpa [codeOfRuns] using Writer.out_put text p.writer
  | @definition _ _ d _ _ _ hk _ ih =>
    obtain ⟨runs, hruns⟩ := ih hp (fun b hb c hc => hnames d c (mem_of_mem_stepsOf hb hc)) a
    rw [flatMap_commands_stepsOf] at hruns
    rw [sequence_singleton, Step.run_definition hk, List.flatMap_singleton]
    exact ⟨runs, hruns⟩
  | @reference _ _ s c name full first more p q e hc ht _ ih =>
    obtain ⟨body, l⟩ := c
    obtain rfl : body = .reference name := hc
    have hdefs : ∀ b ∈ (first :: more).map Step.definition,
        ∀ c ∈ b.commands (Web.ofChunks path chunks), Text.newline ∉ c.location.name := by
      intro b hb
      obtain ⟨d, -, rfl⟩ := List.mem_map.1 hb
      exact hnames d
    have henter : (p.enter (Web.ofChunks path chunks) name first more s.chunk).writer.Neat :=
      hp.setIndent _
    obtain ⟨runs, hruns⟩ := ih henter hdefs a
    rw [sequence_singleton, List.flatMap_singleton, Step.run_reference rfl ht hruns.marked]
    rw [List.flatMap_map] at hruns
    have hleave := hruns.leave ht
    rw [hruns.marked] at hleave
    exact ⟨runs, hleave⟩

/-- The two expansions of a chunk, from an empty buffer. -/
theorem expandChunk_laid {i : Nat}
    (hopening : Text.newline ∉ ((Web.ofChunks path chunks).chunk i).commentStart)
    (hclosing : Text.newline ∉ ((Web.ofChunks path chunks).chunk i).commentEnd)
    (hnames : ∀ d, ∀ c ∈ ((Web.ofChunks path chunks).chunk d).commands,
      Text.newline ∉ c.location.name) (m : Memory) :
    let p : Pass := { citations := m.citations, names := m.names }
    ∃ runs, Laid chunks (.ofChunk ((Web.ofChunks path chunks).chunk i))
      ((Web.ofChunks path chunks).chunk i).commands p []
      (expandChunk (Web.ofChunks path chunks) false i p).1
      (expandChunk (Web.ofChunks path chunks) false i p).2
      (expandChunk (Web.ofChunks path chunks) true i p) runs := by
  intro p
  obtain ⟨runs, hruns⟩ := (expands_chunk (Web.ofChunks path chunks) false i m).laid
    (m := .ofChunk ((Web.ofChunks path chunks).chunk i)) hopening hclosing hnames .start
    (fun b hb c hc => hnames i c (mem_of_mem_stepsOf hb hc)) []
  rw [flatMap_commands_stepsOf, ← sequence_stepsOf] at hruns
  exact ⟨runs, hruns⟩

end Expansions

/-- Marks do not change whether a chunk expands, nor at what it fails. The code with marks is that
without them, but for a line before each run that begins a line, and every run of code begins at the
column where it begins without them. -/
theorem render_marked {path : Text} {chunks : List Chunk} {i : Nat} (m : Memory)
    (hopening : Text.newline ∉ ((Web.ofChunks path chunks).chunk i).commentStart)
    (hclosing : Text.newline ∉ ((Web.ofChunks path chunks).chunk i).commentEnd)
    (hnames : ∀ c ∈ chunks, ∀ k ∈ c.commands, Text.newline ∉ k.location.name) :
    (∀ f, (render (Web.ofChunks path chunks) true i m).1 = .error f ↔
      (render (Web.ofChunks path chunks) false i m).1 = .error f) ∧
    (render (Web.ofChunks path chunks) true i m).2 =
      (render (Web.ofChunks path chunks) false i m).2 ∧
    ∀ out, (render (Web.ofChunks path chunks) false i m).1 = .ok out → ∃ runs,
      (∀ runs', (∃ v, Lays chunks {} ((Web.ofChunks path chunks).chunk i).commands runs' v) ↔
        runs' = runs) ∧
      out = codeOfRuns runs ∧
      (render (Web.ofChunks path chunks) true i m).1 =
        .ok (withMarks (.ofChunk ((Web.ofChunks path chunks).chunk i)) [] runs) ∧
      ∀ inner r rest, runs = inner ++ r :: rest →
        openLine (withMarks (.ofChunk ((Web.ofChunks path chunks).chunk i)) [] inner ++
          (Mark.ofChunk ((Web.ofChunks path chunks).chunk i)).lead (codeOfRuns inner) r) =
        openLine (codeOfRuns inner) := by
  have hcommands : ∀ d, ∀ k ∈ ((Web.ofChunks path chunks).chunk d).commands,
      Text.newline ∉ k.location.name := by
    intro d k hk
    rw [Web.chunk_ofChunks] at hk
    cases hd : chunks[d]? with
    | none => simp [hd, default] at hk
    | some c =>
      rw [hd, Option.getD_some] at hk
      exact hnames c (List.mem_of_getElem? hd) k hk
  obtain ⟨runs, h⟩ := expandChunk_laid hopening hclosing hcommands m
  have hmarked := h.marked
  have hcode := h.code
  have hlays := h.lays
  rcases hr : expandChunk (Web.ofChunks path chunks) false i
    { citations := m.citations, names := m.names } with ⟨⟨f⟩ | ⟨u⟩, q⟩
  · rw [hr] at hmarked
    simp only [render, hr, hmarked]
    exact ⟨fun _ => trivial, rfl, nofun⟩
  · rw [hr] at hmarked hcode hlays
    simp only [render, hr, hmarked]
    refine ⟨fun _ => ⟨nofun, nofun⟩, rfl, ?_⟩
    rintro out ⟨rfl⟩
    refine ⟨runs, fun runs' => ⟨?_, ?_⟩, hcode, rfl,
      fun inner r _ _ => openLine_lead (openLine_withMarks _ inner) r⟩
    · rintro ⟨v, hv⟩
      exact (hv.unique (hlays rfl)).1
    · rintro rfl
      exact ⟨q.writer, hlays rfl⟩

/-- A chunk with a reference that stands after some code on its line, one to a definition that is
not indented, and a run of code that is blank. -/
def remarked : List Chunk :=
  [{ Chunk.ofKind .output "a.c" with
      commands := [⟨.code "if (a)\n  ", ⟨"a.w", 1⟩⟩, ⟨.reference "body", ⟨"a.w", 2⟩⟩,
        ⟨.code ";\n", ⟨"a.w", 2⟩⟩]
      commentStart := "/*", commentEnd := "*/" },
    { Chunk.ofKind .named "body" with
      commands := [⟨.code "b;\n", ⟨"a.w", 4⟩⟩, ⟨.code "\n", ⟨"a.w", 5⟩⟩,
        ⟨.reference "label", ⟨"a.w", 6⟩⟩] },
    { Chunk.ofKind .named "label" with commands := [⟨.code "l:\n", ⟨"a.w", 8⟩⟩], indent := .off },
    { Chunk.ofKind .named "bo..." with commands := [⟨.code "c", ⟨"a.w", 10⟩⟩] }]

theorem definedNames_remarked :
    Web.definedNames remarked = (["body", "label"] : List Text) :=
  List.mergeSort_of_pairwise (by decide)

theorem render_marked_remarked :
    (render (Web.ofChunks "a.w" remarked) true 0 {}).1 = .ok (Text.ofString ("/* Web: a.w:1 */\n" ++
      "if (a)\n  b;\n  /* Web: a.w:5 */\n\n/* Web: a.w:8 */\nl:\n  /* Web: a.w:10 */\n  c;\n")) ∧
    ∃ runs, (∀ runs', (∃ v, Lays remarked {} ((Web.ofChunks "a.w" remarked).chunk 0).commands
        runs' v) ↔ runs' = runs) ∧
      "if (a)\n  b;\n\nl:\n  c;\n" = codeOfRuns runs ∧
      (render (Web.ofChunks "a.w" remarked) true 0 {}).1 =
        .ok (withMarks (.ofChunk ((Web.ofChunks "a.w" remarked).chunk 0)) [] runs) ∧
      ∀ inner r rest, runs = inner ++ r :: rest →
        openLine (withMarks (.ofChunk ((Web.ofChunks "a.w" remarked).chunk 0)) [] inner ++
          (Mark.ofChunk ((Web.ofChunks "a.w" remarked).chunk 0)).lead (codeOfRuns inner) r) =
        openLine (codeOfRuns inner) := by
  have hweb := Web.ofChunks_of_names "a.w" remarked definedNames_remarked
  have hfirst : (Web.ofChunks "a.w" remarked).chunk 0 = remarked.headD default := by
    rw [Web.chunk_ofChunks]
    rfl
  have hopening : Text.newline ∉ ((Web.ofChunks "a.w" remarked).chunk 0).commentStart := by
    rw [hfirst]
    decide
  have hclosing : Text.newline ∉ ((Web.ofChunks "a.w" remarked).chunk 0).commentEnd := by
    rw [hfirst]
    decide
  have hplain : (render (Web.ofChunks "a.w" remarked) false 0 {}).1 =
      .ok "if (a)\n  b;\n\nl:\n  c;\n" := by
    rw [hweb]
    rfl
  obtain ⟨-, -, hruns⟩ := render_marked {} hopening hclosing (by decide)
  refine ⟨?_, hruns _ hplain⟩
  rw [hweb]
  rfl

end Tangle

end Literate
