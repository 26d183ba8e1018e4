import Literate.Proofs.Tangle.Conservation
import Literate.Proofs.Tangle.Marks

/-! What a writer knows about its buffer after any operations: whether a line begins, at which
column the last line ends, and that no line is made up of indentation. Text can be written at once
or in parts. -/

namespace Literate.Tangle

theorem openLine_append_of_not_mem {more : Text} (h : Text.newline ∉ more) (code : Text) :
    openLine (code ++ more) = openLine code ++ more := by
  have hmore : ∀ b ∈ more.reverse, (b != Text.newline) = true := by
    intro b hb
    have hne : b ≠ Text.newline := fun he => h (by simpa [he] using hb)
    simpa using hne
  simp only [openLine, List.rtakeWhile, List.reverse_append]
  rw [List.takeWhile_append_of_pos hmore, List.reverse_append, List.reverse_reverse]

namespace Writer

/-- What can be done with a writer. -/
inductive Op where
  | setIndent (n : Int)
  | addIndent (n : Int)
  | clearIndent
  | write (text : Text)

namespace Op

/-- What a call leaves, and whether it returns. -/
def run (w : Writer) : Op → Writer × Bool
  | setIndent n => (w.setIndent n, true)
  | addIndent n => (w.addIndent n, true)
  | clearIndent => (w.clearIndent, true)
  | write text => w.write text

def text : Op → Text
  | write text => text
  | _ => []

end Op

/-- A call and what is done after it, unless it does not return. -/
def andThen (r : Writer × Bool) (next : Writer → Writer × Bool) : Writer × Bool :=
  if r.2 then next r.1 else r

/-- Calls one after the other, up to the first that does not return. -/
def perform : List Op → Writer → Writer × Bool
  | [], w => (w, true)
  | op :: rest, w => andThen (op.run w) (perform rest)

def textOf (ops : List Op) : Text := ops.flatMap Op.text

variable {piece text plain : Text} {u v w : Writer}

theorem write_of_not_mem (h : Text.newline ∉ piece) (w : Writer) :
    w.write piece = if w.blocks piece then (w, false) else (w.putPiece piece, true) := by
  simp [write, Text.split_of_not_mem h, writeLines]

theorem write_line (h : Text.newline ∉ piece) (rest : Text) (w : Writer) :
    w.write (piece ++ Text.newline :: rest) =
      if w.blocks piece then (w, false) else (w.putPiece piece).endLine.write rest := by
  obtain ⟨first, more, hs⟩ := List.exists_cons_of_ne_nil (Text.split_ne_nil Text.newline rest)
  simp [write, Text.split_append_sep h, hs, writeLines]

/-- What is written in a call that returns is all of the text. -/
theorem write_eq_put (h : (w.write text).2 = true) : (w.write text).1 = w.put text := by
  induction text using Text.byLines generalizing w with
  | last piece hp =>
    rw [write_of_not_mem hp] at h ⊢
    rw [put_of_not_mem hp]
    cases hb : w.blocks piece <;> simp_all
  | line piece rest hp ih =>
    rw [write_line hp] at h ⊢
    rw [put_line hp]
    cases hb : w.blocks piece with
    | true => simp [hb] at h
    | false =>
      simp only [hb, Bool.false_eq_true, if_false] at h ⊢
      exact ih h

theorem indent_putPiece (piece : Text) (w : Writer) : (w.putPiece piece).indent = w.indent :=
  (Kept.putPiece piece w).indent

theorem indent_write (text : Text) (w : Writer) : (w.write text).1.indent = w.indent := by
  induction text using Text.byLines generalizing w with
  | last piece hp =>
    rw [write_of_not_mem hp]
    split
    · rfl
    · exact indent_putPiece piece w
  | line piece rest hp ih =>
    rw [write_line hp]
    split
    · rfl
    · exact (ih _).trans (indent_putPiece piece w)

theorem blocks_nil (w : Writer) : w.blocks [] = false := by simp [blocks]

/-- Only the first piece of a line can be blocked. -/
theorem blocks_append (hne : piece ≠ []) (more : Text) (w : Writer) :
    w.blocks (piece ++ more) = w.blocks piece := by
  simp [blocks, hne]

theorem blocks_putPiece (hne : piece ≠ []) (more : Text) (w : Writer) :
    (w.putPiece piece).blocks more = false := by
  simp [putPiece_of_ne_nil hne, blocks]

theorem room_of_fresh (hf : w.fresh = true) (hne : piece ≠ []) (hb : w.blocks piece = false) :
    0 ≤ w.indent ∧ w.indent ≤ widest := by
  simpa [blocks, hf, hne] using hb

theorem blocks_of_room (hi : 0 ≤ w.indent) (hr : w.indent ≤ widest) (piece : Text) :
    w.blocks piece = false := by
  simp only [blocks, decide_eq_false_iff_not]
  omega

/-- There is room for all text at an indent that is neither negative nor too wide. -/
theorem write_of_room (hi : 0 ≤ w.indent) (hr : w.indent ≤ widest) (text : Text) :
    w.write text = (w.put text, true) := by
  induction text using Text.byLines generalizing w with
  | last piece hp => simp [write_of_not_mem hp, put_of_not_mem hp, blocks_of_room hi hr]
  | line piece rest hp ih =>
    have hindent : (w.putPiece piece).endLine.indent = w.indent := indent_putPiece piece w
    rw [write_line hp, put_line hp, blocks_of_room hi hr]
    exact ih (by rwa [hindent]) (by rwa [hindent])

theorem putPiece_append {cs : List Char} (more : Text) (w : Writer) :
    w.putPiece (Text.ofChars cs ++ more) = (w.putPiece (Text.ofChars cs)).putPiece more := by
  by_cases hc : Text.ofChars cs = []
  · simp [hc]
  by_cases hm : more = []
  · simp [hm]
  have hlength := congrArg List.length (Text.runes_ofChars_append cs more)
  rw [List.length_append] at hlength
  rw [putPiece_of_ne_nil hc, putPiece_of_ne_nil hm, putPiece_of_ne_nil (by simp [hc])]
  simp only [padding, column, List.append_assoc, hlength, Bool.false_eq_true, if_false,
    List.nil_append, Int.natCast_add, Int.add_assoc]

theorem andThen_true (u : Writer) (next : Writer → Writer × Bool) :
    andThen (u, true) next = next u := rfl

/-- Writing a text of characters and then another is writing both at once. -/
theorem write_append (htext : text.isUtf8 = true) (more : Text) (w : Writer) :
    w.write (text ++ more) = andThen (w.write text) fun u => u.write more := by
  have hlines := Text.charLines_of_isUtf8 htext
  clear htext
  induction hlines generalizing w with
  | last cs hp =>
    rw [write_of_not_mem hp]
    by_cases hne : Text.ofChars cs = []
    · rw [hne, List.nil_append, blocks_nil, putPiece_nil]
      rfl
    induction more using Text.byLines with
    | last piece hq =>
      rw [write_of_not_mem (by simp [hp, hq]), blocks_append hne, putPiece_append]
      cases hb : w.blocks (Text.ofChars cs) with
      | true => rfl
      | false => simp [andThen_true, write_of_not_mem hq, blocks_putPiece hne]
    | line piece rest hq _ =>
      have hpiece : Text.newline ∉ Text.ofChars cs ++ piece := by simp [hp, hq]
      rw [← List.append_assoc, write_line hpiece, blocks_append hne, putPiece_append]
      cases hb : w.blocks (Text.ofChars cs) with
      | true => rfl
      | false => simp [andThen_true, write_line hq, blocks_putPiece hne]
  | line cs hp _ ih =>
    rw [List.append_assoc, List.cons_append, write_line hp, write_line hp, ih]
    cases hb : w.blocks (Text.ofChars cs) <;> rfl

/-- A writer that some text was given to: it knows whether a line begins, its lines are those of the
text with indentation, and what is on its last line is a number of characters. -/
structure Aligned (w : Writer) (text : Text) : Prop where
  neat : Neat w
  tracks : Tracks w text
  column : w.fresh = false → ∃ cs, openLine w.out = Text.ofChars cs ∧ w.written = cs.length

namespace Aligned

theorem start : Aligned {} [] := ⟨.start, .start, fun h => by cases h⟩

theorem putPiece (h : Aligned w plain) {cs : List Char} (hp : Text.newline ∉ Text.ofChars cs)
    (hb : w.blocks (Text.ofChars cs) = false) :
    Aligned (w.putPiece (Text.ofChars cs)) (plain ++ Text.ofChars cs) := by
  refine ⟨h.neat.putPiece hp, h.tracks.putPiece hp, fun hfresh => ?_⟩
  by_cases hne : Text.ofChars cs = []
  · rw [hne, putPiece_nil] at hfresh ⊢
    exact h.column hfresh
  have hlength : (Text.ofChars cs).runes.length = cs.length := by simp [Text.runes_ofChars]
  rw [putPiece_of_ne_nil hne, hlength]
  cases hf : w.fresh with
  | true =>
    have hbegins : beginsLine w.out = true := h.neat.fresh ▸ hf
    have hroom := room_of_fresh hf hne hb
    have hquiet : Text.newline ∉ w.padding ++ Text.ofChars cs := by
      simp [newline_not_mem_padding, hp]
    refine ⟨List.replicate w.indent.toNat ' ' ++ cs, ?_, ?_⟩
    · rw [openLine_append_of_not_mem hquiet, openLine_eq_nil hbegins, padding, if_pos hf,
        Text.ofChars_append, Text.ofChars_replicate_space, List.nil_append]
    · simp only [Writer.column, hf, if_true, List.length_append, List.length_replicate]
      omega
  | false =>
    obtain ⟨before, hbefore, hwritten⟩ := h.column hf
    refine ⟨before ++ cs, ?_, ?_⟩
    · simp [padding, hf, openLine_append_of_not_mem hp, hbefore]
    · simp [Writer.column, hf, hwritten]

theorem endLine (h : Aligned w plain) : Aligned w.endLine (plain ++ [Text.newline]) :=
  ⟨.endLine w, h.tracks.endLine, fun hfresh => by cases hfresh⟩

theorem congr (h : Aligned w plain) (hout : v.out = w.out) (hfresh : v.fresh = w.fresh)
    (hwritten : v.written = w.written) : Aligned v plain := by
  refine ⟨⟨?_, ?_⟩, h.tracks.congr hout hfresh, ?_⟩
  · rw [hfresh, hout, h.neat.fresh]
  · rw [hfresh, hwritten]
    exact h.neat.written
  · rw [hfresh, hout, hwritten]
    exact h.column

/-- A call that writes has written a part of its text, and all of it if it returns. -/
theorem write (h : Aligned w plain) (htext : text.isUtf8 = true) :
    ∃ done, done <+: text ∧ ((w.write text).2 = true → done = text) ∧
      Aligned (w.write text).1 (plain ++ done) := by
  have hlines := Text.charLines_of_isUtf8 htext
  clear htext
  induction hlines generalizing w plain with
  | last cs hp =>
    rw [write_of_not_mem hp]
    cases hb : w.blocks (Text.ofChars cs) with
    | true => exact ⟨[], List.nil_prefix, by simp, by simpa using h⟩
    | false => exact ⟨_, List.prefix_rfl, fun _ => rfl, h.putPiece hp hb⟩
  | line cs hp _ ih =>
    rw [write_line hp]
    cases hb : w.blocks (Text.ofChars cs) with
    | true => exact ⟨[], List.nil_prefix, by simp, by simpa using h⟩
    | false =>
      obtain ⟨done, hprefix, hall, haligned⟩ := ih (h.putPiece hp hb).endLine
      refine ⟨Text.ofChars cs ++ Text.newline :: done, ?_, ?_, ?_⟩
      · exact (List.prefix_append_right_inj _).mpr ((List.prefix_cons_inj _).mpr hprefix)
      · exact fun hreturns => by rw [hall hreturns]
      · simpa using haligned

end Aligned

section Perform

variable {ops more : List Op}

theorem perform_append (ops more : List Op) (w : Writer) :
    perform (ops ++ more) w = andThen (perform ops w) (perform more) := by
  induction ops generalizing w with
  | nil => rfl
  | cons op ops ih =>
    rw [List.cons_append, perform, perform]
    rcases hr : op.run w with ⟨u, ⟨⟩ | ⟨⟩⟩
    · rfl
    · exact ih u

theorem perform_singleton (op : Op) (w : Writer) : perform [op] w = op.run w := by
  rcases hr : op.run w with ⟨u, ⟨⟩ | ⟨⟩⟩ <;> simp [perform, andThen, hr]

theorem Aligned.run (h : Aligned w plain) {op : Op} (hop : op.text.isUtf8 = true) :
    ∃ done, done <+: op.text ∧ ((op.run w).2 = true → done = op.text) ∧
      Aligned (op.run w).1 (plain ++ done) := by
  cases op with
  | write text => exact h.write hop
  | clearIndent =>
    refine ⟨[], List.prefix_rfl, fun _ => rfl, ?_⟩
    rw [List.append_nil]
    exact h.congr (out_clearIndent w) (fresh_clearIndent w) (written_clearIndent w)
  | setIndent n | addIndent n =>
    refine ⟨[], List.prefix_rfl, fun _ => rfl, ?_⟩
    rw [List.append_nil]
    exact h.congr rfl rfl rfl

theorem Aligned.perform (h : Aligned w plain) (hops : ∀ op ∈ ops, op.text.isUtf8 = true) :
    ∃ done, done <+: textOf ops ∧ ((perform ops w).2 = true → done = textOf ops) ∧
      Aligned (perform ops w).1 (plain ++ done) := by
  induction ops generalizing w plain with
  | nil => exact ⟨[], List.prefix_rfl, fun _ => rfl, by rwa [List.append_nil]⟩
  | cons op ops ih =>
    obtain ⟨first, hfirst, hall, halign⟩ := h.run (hops op (by simp))
    rw [Writer.perform, textOf, List.flatMap_cons]
    cases hr : (op.run w).2 with
    | false =>
      rw [andThen, hr]
      refine ⟨first, hfirst.trans (List.prefix_append _ _), ?_, halign⟩
      intro hreturns
      simp [hr] at hreturns
    | true =>
      obtain rfl := hall hr
      obtain ⟨done, hprefix, hrest, haligned⟩ := ih halign fun op' h' => hops op' (by simp [h'])
      rw [andThen, hr, if_pos rfl]
      refine ⟨op.text ++ done, (List.prefix_append_right_inj _).mpr hprefix, ?_, ?_⟩
      · exact fun hreturns => by rw [hrest hreturns, textOf]
      · simpa using haligned

/-- Calls return as long as the indent is neither negative nor too wide. -/
theorem perform_of_room (h : ∀ before, before <+: ops →
    0 ≤ (perform before w).1.indent ∧ (perform before w).1.indent ≤ widest) :
    (perform ops w).2 = true := by
  induction ops using List.reverseRecOn with
  | nil => rfl
  | append_singleton ops op ih =>
    have hreturns := ih fun before hb => h before (hb.trans (List.prefix_append _ _))
    have hroom := h ops (List.prefix_append _ _)
    rw [perform_append, andThen, if_pos hreturns]
    cases op with
    | write text =>
      rw [perform, Op.run, write_of_room hroom.1 hroom.2]
      rfl
    | _ => rfl

end Perform

/-- What a writer knows of a buffer that a text was written to: a line begins where the buffer is
empty or ends with a newline; otherwise the column is the number of characters after the last
newline; and the lines are those of the text, indented unless they are empty. -/
structure Columned (w : Writer) (text : Text) : Prop where
  fresh : w.fresh = true ↔ w.out = [] ∨ w.out.getLast? = some Text.newline
  column : w.fresh = false → w.column = (openLine w.out).runes.length
  lines : List.Forall₂ Padded (w.out.split Text.newline) (text.split Text.newline)

theorem Aligned.columned (h : Aligned w text) : Columned w text where
  fresh := by simp [h.neat.fresh, beginsLine]
  column hfresh := by
    obtain ⟨cs, hline, hwritten⟩ := h.column hfresh
    simp [Writer.column, hfresh, hline, hwritten, Text.runes_ofChars]
  lines := by
    obtain ⟨lines, last, plains, plainLast, hlines, hplains, hall, hlast, -⟩ := h.tracks
    rw [hlines, hplains]
    exact List.rel_append hall (.cons hlast .nil)

end Writer

end Literate.Tangle
