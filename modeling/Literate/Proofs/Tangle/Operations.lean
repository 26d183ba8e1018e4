import Mathlib.Data.List.Infix
import Literate.Proofs.Tangle.Columns
import Literate.Proofs.Tangle.Indentation

/-! The calls that an expansion makes to its writer, one after the other. They lead to the buffer of
the expansion, whether it succeeds or not, and no indent is negative on the way. -/

namespace Literate.Tangle

open Writer (Op perform Kept)

/-- The calls of steps in turn, up to the first that fails. -/
def sequenceOps {α : Type} (run : α → Pass → Result) (ops : α → Pass → List Op) :
    List α → Pass → List Op
  | [], _ => []
  | a :: rest, p =>
    ops a p ++ match run a p with
      | (.ok (), q) => sequenceOps run ops rest q
      | (.error _, _) => []

/-- The mark of a source line is written where marks are wanted and a line begins. -/
def markOps (mark : Option Mark) (l : Location) (p : Pass) : List Op :=
  match mark with
  | none => []
  | some m =>
    if m.opening = [] ∨ !p.writer.fresh then [] else [.write (m.text l ++ [Text.newline])]

def commandOps (mark : Option Mark) (expand : Text → Location → Pass → List Op) (c : Command)
    (p : Pass) : List Op :=
  match c.body with
  | .code text => markOps mark c.location p ++ [.write text]
  | .reference name => expand name c.location p
  | .text _ => []
  | .crossReference _ => []

def definitionOps (w : Web) (mark : Option Mark)
    (run : (citing : Nat) → Text → Location → Pass → Result)
    (expand : (citing : Nat) → Text → Location → Pass → List Op) (d : Nat) (p : Pass) : List Op :=
  if (w.chunk d).kind ≠ .named then []
  else sequenceOps (runCommand mark (run d)) (commandOps mark (expand d)) (w.chunk d).commands p

/-- A reference sets an indent, expands its definitions and clears the indent, also when one of them
fails. -/
def referenceOps (w : Web) (file : Text) (mark : Option Mark) :
    Nat → (stack : List Text) → (citing : Nat) → Text → Location → Pass → List Op
  | 0, _, _, _, _, _ => []
  | depth + 1, stack, citing, name, l, p =>
    match target w file stack name l with
    | .error _ => []
    | .ok (full, first, more) =>
      .setIndent (if (w.chunk first).indent = .off then 0 else p.writer.column) ::
        sequenceOps (runDefinition w mark (expandReference w file mark depth (stack ++ [full])))
          (definitionOps w mark (expandReference w file mark depth (stack ++ [full]))
            (referenceOps w file mark depth (stack ++ [full])))
          (first :: more) (p.enter w name first more citing) ++ [.clearIndent]

/-- The calls that rendering a chunk makes to its new writer. -/
def chunkOps (w : Web) (marked : Bool) (i : Nat) (m : Memory) : List Op :=
  let c := w.chunk i
  let mark := if marked then some (Mark.ofChunk c) else none
  sequenceOps (runCommand mark (expandReference w c.name mark w.definitions.length [] i))
    (commandOps mark (referenceOps w c.name mark w.definitions.length [] i)) c.commands
    { citations := m.citations, names := m.names }

/-- A column of a line that was written. -/
def Writer.Inside (w : Writer) (n : Int) : Prop := 0 ≤ n ∧ n ≤ w.out.length

/-- The indents and the column lie in what was written. -/
structure Writer.Within (w : Writer) : Prop where
  indent : w.Inside w.indent
  column : w.Inside w.column
  stack : ∀ n ∈ w.stack, w.Inside n

namespace Writer.Within

variable {u v w : Writer}

theorem start : Within {} := by
  have hmargin : Writer.Inside {} 0 := by simp [Writer.Inside]
  exact ⟨hmargin, hmargin, by simp⟩

theorem of_kept (h : Within u) (hk : Kept u v) (hc : v.column ≤ v.out.length) : Within v := by
  have hlength := hk.out.length_le
  have hgrown : ∀ n, u.Inside n → v.Inside n := fun n hn => ⟨hn.1, by have := hn.2; omega⟩
  refine ⟨?_, ⟨hk.column h.indent.1 h.column.1, hc⟩, ?_⟩
  · rw [hk.indent]
    exact hgrown _ h.indent
  · rw [hk.stack]
    exact fun n hn => hgrown n (h.stack n hn)

theorem putPiece (h : Within w) (piece : Text) : Within (w.putPiece piece) := by
  by_cases hne : piece = []
  · rwa [hne, putPiece_nil]
  refine h.of_kept (.putPiece piece w) ?_
  have hruns := Text.length_runes_le piece
  have hc := h.column.2
  rw [putPiece_of_ne_nil hne]
  simp only [Writer.column, List.length_append, Bool.false_eq_true, if_false] at hc ⊢
  omega

theorem endLine (h : Within w) : Within w.endLine := by
  refine h.of_kept (.endLine w) ?_
  have hi := h.indent.2
  simp only [Writer.endLine, Writer.column, if_true, List.length_append]
  omega

theorem put (h : Within w) (text : Text) : Within (w.put text) := by
  induction text using Text.byLines generalizing w with
  | last piece hp =>
    rw [put_of_not_mem hp]
    exact h.putPiece piece
  | line piece rest hp ih =>
    rw [put_line hp]
    exact ih (h.putPiece piece).endLine

theorem setIndent (h : Within w) {n : Int} (hn : w.Inside n) : Within (w.setIndent n) := by
  refine ⟨hn, ?_, List.forall_mem_cons.mpr ⟨h.indent, h.stack⟩⟩
  by_cases hf : w.fresh = true
  · simpa [Writer.column, Writer.setIndent, Writer.Inside, hf] using hn
  · simpa [Writer.column, Writer.setIndent, Writer.Inside, hf] using h.column

theorem clearIndent (h : Within w) : Within w.clearIndent := by
  unfold Writer.clearIndent
  cases hs : w.stack with
  | nil => exact h
  | cons n rest =>
    have hstack := h.stack
    rw [hs, List.forall_mem_cons] at hstack
    refine ⟨hstack.1, ?_, hstack.2⟩
    by_cases hf : w.fresh = true
    · simpa [Writer.column, Writer.Inside, hf] using hstack.1
    · simpa [Writer.column, Writer.Inside, hf] using h.column

end Writer.Within

/-- Calls that lead from a writer to another. They return if the buffer stays short enough to be
indented by all of its length, and no indent is negative after any of them. -/
structure Leads (ops : List Op) (u v : Writer) : Prop where
  out : u.out <+: v.out
  lands : (perform ops u).2 = true → (perform ops u).1 = v
  within : u.Within → v.Within
  returns : u.Within → v.out.length ≤ Writer.widest → (perform ops u).2 = true
  nonneg : u.Within → ∀ before after, ops = before ++ after → 0 ≤ (perform before u).1.indent

namespace Leads

variable {ops more : List Op} {u v w : Writer}

theorem nil (u : Writer) : Leads [] u u where
  out := List.prefix_rfl
  lands _ := rfl
  within h := h
  returns _ _ := rfl
  nonneg h before after he := by
    obtain ⟨rfl, -⟩ := List.append_eq_nil_iff.mp he.symm
    exact h.indent.1

theorem append (h : Leads ops u v) (h' : Leads more v w) : Leads (ops ++ more) u w := by
  refine ⟨h.out.trans h'.out, ?_, fun hu => h'.within (h.within hu), ?_, ?_⟩
  · intro hreturns
    rw [Writer.perform_append] at hreturns ⊢
    cases hr : (perform ops u).2 with
    | false => simp [Writer.andThen, hr] at hreturns
    | true =>
      rw [Writer.andThen, if_pos hr, h.lands hr] at hreturns ⊢
      exact h'.lands hreturns
  · intro hu hlength
    have hout := h'.out.length_le
    have hr := h.returns hu (by omega)
    rw [Writer.perform_append, Writer.andThen, if_pos hr, h.lands hr]
    exact h'.returns (h.within hu) hlength
  · intro hu before after he
    rcases List.append_eq_append_iff.mp he with ⟨rest, rfl, hafter⟩ | ⟨rest, hops, -⟩
    · rw [Writer.perform_append]
      cases hr : (perform ops u).2 with
      | false =>
        rw [Writer.andThen, hr]
        exact h.nonneg hu ops [] (by simp)
      | true =>
        rw [Writer.andThen, if_pos hr, h.lands hr]
        exact h'.nonneg (h.within hu) rest after hafter
    · exact h.nonneg hu before rest hops

theorem singleton {op : Op} (hout : u.out <+: v.out)
    (hlands : (op.run u).2 = true → (op.run u).1 = v) (hwithin : u.Within → v.Within)
    (hreturns : u.Within → v.out.length ≤ Writer.widest → (op.run u).2 = true)
    (hindent : u.Within → 0 ≤ (op.run u).1.indent) : Leads [op] u v := by
  refine ⟨hout, ?_, hwithin, ?_, ?_⟩
  · rwa [Writer.perform_singleton]
  · rwa [Writer.perform_singleton]
  · intro hu before after he
    cases before with
    | nil => exact hu.indent.1
    | cons op' before =>
      obtain ⟨rfl, hnil⟩ := List.cons.inj he
      obtain ⟨rfl, -⟩ := List.append_eq_nil_iff.mp hnil.symm
      rw [Writer.perform_singleton]
      exact hindent hu

theorem write (text : Text) (u : Writer) : Leads [.write text] u (u.put text) := by
  have hkept := Kept.put text u
  refine singleton hkept.out Writer.write_eq_put (fun hu => hu.put text) ?_ ?_
  · intro hu hlength
    have hindent : u.indent ≤ u.out.length := hu.indent.2
    have hgrown := hkept.out.length_le
    simp [Op.run, Writer.write_of_room hu.indent.1 (by omega)]
  · intro hu
    rw [Op.run, Writer.indent_write]
    exact hu.indent.1

theorem setIndent (u : Writer) {n : Int} (hn : u.Within → u.Inside n) :
    Leads [.setIndent n] u (u.setIndent n) :=
  singleton List.prefix_rfl (fun _ => rfl) (fun hu => hu.setIndent (hn hu)) (fun _ _ => rfl)
    fun hu => (hn hu).1

theorem clearIndent (u : Writer) : Leads [.clearIndent] u u.clearIndent :=
  singleton (by simp) (fun _ => rfl) Writer.Within.clearIndent
    (fun _ _ => rfl) fun hu => hu.clearIndent.indent.1

end Leads

section Sequence

variable {α : Type} {run : α → Pass → Result} {ops : α → Pass → List Op} {a : α} {as : List α}
  {p q : Pass}

theorem sequenceOps_cons_of_ok (h : run a p = (.ok (), q)) :
    sequenceOps run ops (a :: as) p = ops a p ++ sequenceOps run ops as q := by
  simp [sequenceOps, h]

theorem sequenceOps_cons_of_error {f : Fault} (h : run a p = (.error f, q)) :
    sequenceOps run ops (a :: as) p = ops a p := by
  simp [sequenceOps, h]

theorem sequenceOps_singleton (run : α → Pass → Result) (ops : α → Pass → List Op) (a : α)
    (p : Pass) : sequenceOps run ops [a] p = ops a p := by
  rcases h : run a p with ⟨⟨f⟩ | ⟨⟨⟩⟩, q⟩
  · exact sequenceOps_cons_of_error h
  · rw [sequenceOps_cons_of_ok h, sequenceOps, List.append_nil]

theorem sequenceOps_map {β : Type} (f : β → α) (bs : List β) (p : Pass) :
    sequenceOps run ops (bs.map f) p =
      sequenceOps (fun b => run (f b)) (fun b => ops (f b)) bs p := by
  induction bs generalizing p with
  | nil => rfl
  | cons b bs ih => simp [sequenceOps, ih]

end Sequence

section Runs

variable {w : Web} {file : Text} {mark : Option Mark} {depth : Nat} {stack : List Text}
  {s : Site} {c : Command} {d : Nat} {text name full : Text} {first : Nat} {more : List Nat}

namespace Step

def ops (w : Web) (file : Text) (mark : Option Mark) (depth : Nat) (stack : List Text) :
    Step → Pass → List Op
  | command s c => commandOps mark (referenceOps w file mark depth stack s.chunk) c
  | definition d => definitionOps w mark (expandReference w file mark depth stack)
      (referenceOps w file mark depth stack) d

end Step

theorem sequenceOps_stepsOf (w : Web) (file : Text) (mark : Option Mark) (depth : Nat)
    (stack : List Text) (d : Nat) (cs : List Command) (p : Pass) :
    sequenceOps (runCommand mark (expandReference w file mark depth stack d))
        (commandOps mark (referenceOps w file mark depth stack d)) cs p =
      sequenceOps (Step.run w file mark depth stack) (Step.ops w file mark depth stack)
        (stepsOf d cs) p := by
  conv => lhs; rw [← List.zipIdx_map_fst 0 cs, sequenceOps_map]
  rw [stepsOf, sequenceOps_map]
  rfl

namespace Step

theorem ops_of_fault {a : Step} {f : Fault} (h : a.fault? w file depth stack = some f) (p : Pass) :
    a.ops w file mark depth stack p = [] := by
  cases a with
  | definition d =>
    by_cases hk : (w.chunk d).kind = .named <;> simp_all [fault?, ops, definitionOps]
  | command s c =>
    cases hb : c.body with
    | reference name =>
      cases ht : target w file stack name c.location <;> cases depth <;>
        simp_all [fault?, ops, commandOps, referenceOps]
    | _ => simp_all [fault?, ops, commandOps]

theorem ops_code (hc : c.body = .code text) (p : Pass) :
    (command s c).ops w file mark depth stack p = markOps mark c.location p ++ [.write text] := by
  simp [ops, commandOps, hc]

theorem ops_definition (hk : (w.chunk d).kind = .named) (p : Pass) :
    (definition d).ops w file mark depth stack p =
      sequenceOps (run w file mark depth stack) (ops w file mark depth stack)
        (stepsOf d (w.chunk d).commands) p := by
  simp [ops, definitionOps, hk, sequenceOps_stepsOf]

theorem ops_reference (hc : c.body = .reference name)
    (ht : target w file stack name c.location = .ok (full, first, more)) (p : Pass) :
    (command s c).ops w file mark (depth + 1) stack p =
      .setIndent (if (w.chunk first).indent = .off then 0 else p.writer.column) ::
        sequenceOps (run w file mark depth (stack ++ [full])) (ops w file mark depth (stack ++ [full]))
          ((first :: more).map .definition) (p.enter w name first more s.chunk) ++ [.clearIndent] := by
  rw [sequenceOps_map]
  simp only [ops, commandOps, hc, referenceOps, ht]
  rfl

end Step

theorem markOps_leads (mark : Option Mark) (l : Location) (p : Pass) :
    Leads (markOps mark l p) p.writer (p.writeMark mark l).writer := by
  unfold markOps Pass.writeMark Writer.putMark
  cases mark with
  | none => exact .nil _
  | some m =>
    dsimp only
    split
    · exact .nil _
    · exact .write _ _

/-- The calls of steps lead from the buffer before them to the buffer after them. -/
theorem Expands.leads {as : List Step} {p q : Pass} {e : Except Fault Unit}
    (h : Expands w file mark depth stack as p e q) :
    Leads (sequenceOps (Step.run w file mark depth stack) (Step.ops w file mark depth stack) as p)
      p.writer q.writer := by
  induction h with
  | nil p => exact .nil _
  | cons ha _ iha ihas =>
    have hrun := ha.sequence_eq
    rw [sequence_singleton] at hrun
    rw [sequenceOps_singleton] at iha
    rw [sequenceOps_cons_of_ok hrun]
    exact iha.append ihas
  | abort as ha ih =>
    have hrun := ha.sequence_eq
    rw [sequence_singleton] at hrun
    rw [sequenceOps_singleton] at ih
    rwa [sequenceOps_cons_of_error hrun]
  | fault hf p =>
    rw [sequenceOps_singleton, Step.ops_of_fault hf]
    exact .nil _
  | code hc p =>
    rw [sequenceOps_singleton, Step.ops_code hc]
    exact (markOps_leads mark _ p).append (.write _ _)
  | definition hk _ ih => rwa [sequenceOps_singleton, Step.ops_definition hk]
  | @reference _ _ _ _ _ _ first _ p _ _ hc ht _ ih =>
    have hindent : p.writer.Within →
        p.writer.Inside (if (w.chunk first).indent = .off then 0 else p.writer.column) := by
      intro hp
      split
      · exact ⟨Int.le_refl 0, by omega⟩
      · exact hp.column
    rw [sequenceOps_singleton, Step.ops_reference hc ht]
    exact ((Leads.setIndent _ hindent).append ih).append (.clearIndent _)

/-- Rendering makes its calls to a new writer. -/
theorem chunkOps_leads (w : Web) (marked : Bool) (i : Nat) (m : Memory) :
    Leads (chunkOps w marked i m) {}
      (expandChunk w marked i { citations := m.citations, names := m.names }).2.writer := by
  have h := (expands_chunk w marked i m).leads
  rwa [← sequenceOps_stepsOf] at h

end Runs

/-- After any calls with text of characters, a writer knows where the last line of its buffer ends,
and no line is indentation only; calls return as long as the indent is neither negative nor too
wide, and text can be split between calls. Rendering makes calls that never set a negative indent,
so that all of them return unless the buffer outgrows the widest indent; and a reference restores
the indents, whether its expansion succeeds or not. -/
theorem perform_columned :
    (∀ ops, (∀ op ∈ ops, op.text.isUtf8 = true) →
      ∃ done, done <+: Writer.textOf ops ∧ (perform ops {}).1.Columned done ∧
        ((perform ops {}).2 = true → done = Writer.textOf ops) ∧
        ((∀ before, before <+: ops → 0 ≤ (perform before {}).1.indent ∧
          (perform before {}).1.indent ≤ Writer.widest) → (perform ops {}).2 = true)) ∧
    (∀ a b u, a.isUtf8 = true → perform [.write (a ++ b)] u = perform [.write a, .write b] u) ∧
    (∀ w marked i m,
      (∀ before, before <+: chunkOps w marked i m → 0 ≤ (perform before {}).1.indent) ∧
      ∀ r p, expandChunk w marked i { citations := m.citations, names := m.names } = (r, p) →
        p.writer.out.length ≤ Writer.widest →
          perform (chunkOps w marked i m) {} = (p.writer, true)) ∧
    ∀ w file mark depth stack citing name l p r q,
      expandReference w file mark depth stack citing name l p = (r, q) →
        q.writer.indent = p.writer.indent ∧ q.writer.stack = p.writer.stack := by
  refine ⟨?_, ?_, ?_, ?_⟩
  · intro ops hops
    obtain ⟨done, hprefix, hall, haligned⟩ := Writer.Aligned.start.perform hops
    exact ⟨done, hprefix, haligned.columned, hall, Writer.perform_of_room⟩
  · intro a b u ha
    rw [Writer.perform_singleton, perform, Op.run, Op.run, Writer.write_append ha]
    exact congrArg _ (funext fun v => (Writer.perform_singleton (.write b) v).symm)
  · intro w marked i m
    have hleads := chunkOps_leads w marked i m
    refine ⟨?_, ?_⟩
    · rintro before ⟨after, hafter⟩
      exact hleads.nonneg .start before after hafter.symm
    · intro r p hp hlength
      rw [hp] at hleads
      have hreturns := hleads.returns .start hlength
      exact Prod.ext (hleads.lands hreturns) hreturns
  · intro w file mark depth stack citing name l p r q hq
    have hkept := expandReference_kept w file mark depth stack citing name l p
    rw [hq] at hkept
    exact ⟨hkept.indent, hkept.stack⟩

/-- Indents that are begun and ended between and inside lines. -/
def sketch : List Op :=
  [.addIndent 2, .write "é\n\n  x", .setIndent 6, .write "", .clearIndent, .write "y\nz"]

theorem perform_columned_sketch :
    (∀ op ∈ sketch, op.text.isUtf8 = true) ∧
    (∀ before, before <+: sketch → 0 ≤ (perform before {}).1.indent ∧
      (perform before {}).1.indent ≤ Writer.widest) ∧
    (perform sketch {}).1.out = "  é\n\n    xy\n  z" ∧
    (perform sketch {}).1.Columned "é\n\n  xy\nz" ∧
    perform [.write ("é" ++ "y")] {} = perform [.write "é", .write "y"] {} ∧
    chunkOps nested false 0 {} =
      [.write "if a:\n  ", .setIndent 2, .write "b\n\nif c: ", .setIndent 8, .write "d\n\ne\n",
        .clearIndent, .clearIndent] ∧
    ∃ p, expandChunk nested false 0 {} = (.ok (), p) ∧
      perform (chunkOps nested false 0 {}) {} = (p.writer, true) := by
  obtain ⟨hops, hsplit, hrender, -⟩ := perform_columned
  have hvalid : ∀ op ∈ sketch, op.text.isUtf8 = true := by decide
  have hroom : ∀ before, before <+: sketch → 0 ≤ (perform before {}).1.indent ∧
      (perform before {}).1.indent ≤ Writer.widest := by
    simp only [← List.mem_inits]
    decide
  obtain ⟨done, -, hcolumned, hall, hreturns⟩ := hops sketch hvalid
  obtain rfl := hall (hreturns hroom)
  exact ⟨hvalid, hroom, rfl, hcolumned, hsplit "é" "y" {} (by decide), rfl, _, rfl,
    (hrender nested false 0 {}).2 _ _ rfl (by decide)⟩

end Literate.Tangle
