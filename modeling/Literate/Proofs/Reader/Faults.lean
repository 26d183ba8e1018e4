import Literate.Proofs.Reader.Grammar

/-! Where a document cannot go on. After a beginning that the grammar accepts, outside the chunks or
inside a body, the machine is in one known mode, so the next token decides. -/

open scoped Computability

namespace Literate.Reader.Grammar

open Literate.Grammar

variable {known : List Char → Bool} {m n : Mode}

/-- Tokens that lead from one mode to another. -/
def Runs (known : List Char → Bool) (m : Mode) (w : List Token) (n : Mode) : Prop :=
  w.foldlM (Mode.next known) m = some n

theorem Runs.append {a b : List Token} {p : Mode} (ha : Runs known m a n) (hb : Runs known n b p) :
    Runs known m (a ++ b) p := by
  unfold Runs at *
  rw [List.foldlM_append, ha]
  exact hb

theorem Runs.cons {t : Token} {w : List Token} {p : Mode} (ht : m.next known t = some n)
    (hw : Runs known n w p) : Runs known m (t :: w) p := by
  unfold Runs at *
  rw [List.foldlM_cons, ht]
  exact hw

theorem Runs.append_mem_iff {a w : List Token} (ha : Runs known m a n) :
    a ++ w ∈ faultless known m ↔ w ∈ faultless known n := by
  induction a generalizing m with
  | nil =>
    obtain rfl : m = n := Option.some.inj ha
    rfl
  | cons t a ih =>
    unfold Runs at ha
    rw [List.foldlM_cons] at ha
    obtain ⟨p, hp, hrest⟩ := Option.bind_eq_some_iff.mp ha
    rw [List.cons_append, cons_mem_faultless, hp]
    simpa using ih hrest

/-- A beginning of a document that ends in an open body. -/
def openBody (table : List (Text × Text)) : Language Token :=
  document table * opening * (flat table)∗

theorem runs_kstar {l : Language Token} (hl : ∀ w ∈ l, Runs known m w m) {w : List Token}
    (hw : w ∈ l∗) : Runs known m w m := by
  obtain ⟨parts, rfl, hparts⟩ := Language.mem_kstar.mp hw
  clear hw
  induction parts with
  | nil => rfl
  | cons part parts ih =>
    rw [List.flatten_cons]
    exact (hl part (hparts part (by simp))).append (ih fun y hy => hparts y (by simp [hy]))

theorem runs_newlines (hm : m.next known .newline = some m) {w : List Token} (hw : w ∈ newlines) :
    Runs known m w m := by
  refine runs_kstar ?_ hw
  rintro _ ⟨t, rfl, rfl⟩
  exact .cons hm rfl

theorem eq_newline_of_mem {w : List Token} (hw : w ∈ newlines) {t : Token} (ht : t ∈ w) :
    t = .newline := by
  obtain ⟨parts, rfl, hparts⟩ := Language.mem_kstar.mp hw
  obtain ⟨part, hpart, htp⟩ := List.mem_flatten.mp ht
  obtain ⟨u, rfl, rfl⟩ := hparts part hpart
  simpa using htp

/-- An operand that may be missing, and what follows it, which begins with no literal. -/
theorem runs_operand {p : List Char → Prop} (stop : List Char → Mode)
    (hliteral : ∀ cs, p cs → m.next known (.literal cs) = some (stop cs))
    (hwait : m.waiting = stop []) {tail : List Token} (hhead : ∃ t, t ∈ tail.head?)
    (hnone : ∀ cs, .literal cs ∉ tail.head?) (htail : ∀ cs, p cs → Runs known (stop cs) tail n)
    {w : List Token} (hw : w ∈ operand p) : Runs known m (w ++ tail) n := by
  rcases hw with ⟨_, ⟨cs, rfl, hcs⟩, rfl⟩ | ⟨hp, rfl⟩
  · exact .cons (hliteral cs hcs) (htail cs hcs)
  · obtain ⟨t, ht⟩ := hhead
    obtain ⟨rest, rfl⟩ := List.head?_eq_some_iff.mp ht
    have hnext := Mode.next_waiting known m (t := t) fun cs h => hnone cs (by simp [h])
    have hrun := htail [] hp
    unfold Runs at hrun ⊢
    rwa [← hwait, List.foldlM_cons, hnext, ← List.foldlM_cons] at hrun

theorem head?_newlines_append {nl : List Token} (hnl : nl ∈ newlines) (k : Control) :
    (∃ t, t ∈ (nl ++ [Token.control k]).head?) ∧
      ∀ cs, .literal cs ∉ (nl ++ [Token.control k]).head? := by
  cases nl with
  | nil => simp
  | cons t nl => simp [eq_newline_of_mem hnl (t := t) (by simp)]

theorem runs_reference (inside : Bool) {w : List Token} (hw : w ∈ reference) :
    Runs known (.text inside) w (.text inside) := by
  obtain ⟨_, ⟨_, ⟨_, ⟨_, rfl, rfl⟩, _, ⟨_, ⟨cs, rfl, hcs⟩, rfl⟩, rfl⟩, nl, hnl, rfl⟩, _,
    ⟨_, rfl, rfl⟩, rfl⟩ := hw
  have hname : (Text.trimChars cs != []) = true := by simpa using trimChars_ne_nil.mpr hcs
  have hnewlines : Runs known (.referenceEnd inside (Text.trimChars cs)) nl
      (.referenceEnd inside (Text.trimChars cs)) := runs_newlines rfl hnl
  have hclose : Runs known (.referenceEnd inside (Text.trimChars cs)) [.control .closeReference]
      (.text inside) := by
    simp [Runs, Mode.next, Mode.awaitReference, Mode.await, hname]
  exact Runs.append (.cons rfl (.cons rfl hnewlines)) hclose

theorem runs_substitution {table : List (Text × Text)}
    (hk : ∀ name, known name = true ↔ Known table (Text.ofChars name)) (inside : Bool)
    {w : List Token} (hw : w ∈ substitution table) :
    Runs known (.text inside) w (.text inside) := by
  obtain ⟨_, ⟨_, ⟨_, ⟨_, rfl, rfl⟩, op, hop, rfl⟩, nl, hnl, rfl⟩, _, ⟨_, rfl, rfl⟩, rfl⟩ := hw
  obtain ⟨hhead, hnone⟩ := head?_newlines_append hnl .closeSubstitution
  have hrun : Runs known (.substitutionName inside) (op ++ (nl ++ [.control .closeSubstitution]))
      (.text inside) := by
    refine runs_operand (fun cs => .substitutionEnd inside (Text.trimChars cs))
      (fun _ _ => rfl) rfl hhead hnone (fun cs hcs => ?_) hop
    refine Runs.append (runs_newlines rfl hnl) ?_
    simp [Runs, Mode.next, Mode.awaitSubstitution, Mode.await, (hk _).mpr hcs]
  simpa using Runs.cons rfl hrun

theorem runs_flat {table : List (Text × Text)}
    (hk : ∀ name, known name = true ↔ Known table (Text.ofChars name)) (inside : Bool)
    {w : List Token} (hw : w ∈ flat table) : Runs known (.text inside) w (.text inside) := by
  rcases hw with (⟨t, ht, rfl⟩ | hw) | hw
  · have hnext : Mode.next known (.text inside) t = some (.text inside) := by
      cases t with
      | newline => rfl
      | literal cs => rfl
      | control k => cases k <;> simp_all [IsPlain, Mode.next, Mode.obey]
    exact .cons hnext rfl
  · exact runs_reference inside hw
  · exact runs_substitution hk inside hw

theorem runs_options {kind : Chunk.Kind} {op : List Token} (hop : op ∈ optionLine)
    {tail : List Token} (hhead : ∃ t, t ∈ tail.head?) (hnone : ∀ cs, .literal cs ∉ tail.head?)
    (htail : Runs known (.opener kind) tail n) : Runs known (.options kind) (op ++ tail) n := by
  refine runs_operand (fun _ => .opener kind) (fun cs hcs => ?_) rfl hhead hnone
    (fun _ _ => htail) hop
  obtain ⟨ws, hws⟩ := (OptionLine.words_isOk_iff _).mpr hcs
  simp [Mode.next, hws]

theorem runs_opening {w : List Token} (hw : w ∈ opening) :
    Runs known (.text false) w (.text true) := by
  have hbody : ∀ (kind : Chunk.Kind) (k : Control) (op nl : List Token), op ∈ optionLine →
      nl ∈ newlines → Mode.opens kind k = true →
      Runs known (.options kind) (op ++ (nl ++ [.control k])) (.text true) := by
    intro kind k op nl hop hnl hk
    obtain ⟨hhead, hnone⟩ := head?_newlines_append hnl k
    refine runs_options hop hhead hnone (Runs.append (runs_newlines rfl hnl) ?_)
    simp [Runs, Mode.next, Mode.awaitOpener, Mode.await, hk]
  rcases hw with ⟨_, ⟨_, ⟨_, ⟨_, rfl, rfl⟩, op, hop, rfl⟩, nl, hnl, rfl⟩, _, ⟨_, rfl, rfl⟩, rfl⟩ |
    ⟨_, ⟨_, ⟨_, ⟨_, rfl, rfl⟩, op, hop, rfl⟩, nl, hnl, rfl⟩, _,
      ⟨_, rfl, rfl⟩ | ⟨_, rfl, rfl⟩, rfl⟩
  · simpa using Runs.cons rfl (hbody .output .openCode op nl hop hnl rfl)
  · simpa using Runs.cons rfl (hbody .named .openCode op nl hop hnl rfl)
  · simpa using Runs.cons rfl (hbody .named .openDocument op nl hop hnl rfl)

section Beginnings

variable {table : List (Text × Text)}
  (hk : ∀ name, known name = true ↔ Known table (Text.ofChars name))

include hk

theorem document_append_iff {a w : List Token} (ha : a ∈ document table) :
    a ++ w ∈ document table ↔ w ∈ faultless known (.text false) := by
  rw [← faultless_outside hk] at ha ⊢
  obtain ⟨m, hm, rfl⟩ := ha
  exact Runs.append_mem_iff hm

theorem openBody_append_iff {a w : List Token} (ha : a ∈ openBody table) :
    a ++ w ∈ document table ↔ w ∈ faultless known (.text true) := by
  obtain ⟨_, ⟨d, hd, o, ho, rfl⟩, f, hf, rfl⟩ := ha
  have hrun : Runs known (.text false) (o ++ f) (.text true) :=
    (runs_opening ho).append (runs_kstar (fun _ h => runs_flat hk true h) hf)
  rw [List.append_assoc, List.append_assoc, document_append_iff hk hd, ← List.append_assoc,
    hrun.append_mem_iff]

/-- After a beginning of a document, text goes on. -/
theorem beginning_append_iff {a : List Token} (ha : a ∈ document table + openBody table) :
    ∃ inside, ∀ w, a ++ w ∈ document table ↔ w ∈ faultless known (.text inside) := by
  rcases ha with ha | ha
  · exact ⟨false, fun _ => document_append_iff hk ha⟩
  · exact ⟨true, fun _ => openBody_append_iff hk ha⟩

theorem openBody_not_document {a : List Token} (ha : a ∈ openBody table) : a ∉ document table := by
  have h := openBody_append_iff hk ha (w := [])
  rw [List.append_nil] at h
  simp [h]

theorem chunk_in_body {a : List Token} (ha : a ∈ openBody table) {k : Control}
    (hc : k ∈ [Control.outputChunk, .namedChunk]) (rest : List Token) :
    a ++ .control k :: rest ∉ document table := by
  rw [openBody_append_iff hk ha, cons_mem_faultless]
  rcases (by simpa using hc : k = .outputChunk ∨ k = .namedChunk) with rfl | rfl <;>
    simp [Mode.next, Mode.obey]

theorem literal_before_opener {a op nl : List Token} (ha : a ∈ document table) {k : Control}
    (hc : k ∈ [Control.outputChunk, .namedChunk]) (hop : op ∈ optionLine) (hnl : nl ∈ newlines)
    (hne : nl ≠ []) (cs : List Char) (rest : List Token) :
    a ++ .control k :: (op ++ (nl ++ .literal cs :: rest)) ∉ document table := by
  obtain ⟨kind, hkind⟩ : ∃ kind, Mode.next known (.text false) (.control k) =
      some (.options kind) := by
    rcases (by simpa using hc : k = .outputChunk ∨ k = .namedChunk) with rfl | rfl
    · exact ⟨_, rfl⟩
    · exact ⟨_, rfl⟩
  obtain ⟨t, tail, rfl⟩ := List.exists_cons_of_ne_nil hne
  obtain rfl := eq_newline_of_mem hnl (t := t) (by simp)
  have hrun : Runs known (.options kind) (op ++ .newline :: tail) (.opener kind) :=
    runs_options hop (by simp) (by simp) (runs_newlines rfl hnl)
  rw [document_append_iff hk ha, cons_mem_faultless, hkind]
  rintro ⟨m, hm, hmem⟩
  obtain rfl := Option.some.inj hm
  rw [← List.append_assoc, hrun.append_mem_iff, cons_mem_faultless] at hmem
  simp [Mode.next, Mode.awaitOpener, Mode.await] at hmem

theorem stray_control {a : List Token} (ha : a ∈ document table + openBody table) {k : Control}
    (hc : k ∈ [Control.openCode, .openDocument, .closeReference, .closeSubstitution])
    (rest : List Token) : a ++ .control k :: rest ∉ document table := by
  obtain ⟨inside, h⟩ := beginning_append_iff hk ha
  rw [h, cons_mem_faultless]
  simp only [List.mem_cons, List.not_mem_nil, or_false] at hc
  rcases hc with rfl | rfl | rfl | rfl <;> simp [Mode.next, Mode.obey]

theorem empty_reference {a op nl : List Token} (ha : a ∈ document table + openBody table)
    (hop : op ∈ operand fun cs => ∀ d ∈ cs, Text.isBlank d = true) (hnl : nl ∈ newlines)
    (rest : List Token) :
    a ++ .control .openReference :: (op ++ (nl ++ .control .closeReference :: rest)) ∉
      document table := by
  obtain ⟨inside, h⟩ := beginning_append_iff hk ha
  rw [h, cons_mem_faultless]
  simp only [Mode.next, Mode.obey, Option.some.injEq, exists_eq_left']
  rw [faultless_referenceName]
  rcases hop with ⟨_, ⟨cs, rfl, hcs⟩, rfl⟩ | ⟨-, rfl⟩
  · have hblank : ¬∃ d ∈ cs, Text.isBlank d = false := by simpa using hcs
    simp [literal, hblank]
  · cases nl with
    | nil => simp [literal]
    | cons t nl =>
      obtain rfl := eq_newline_of_mem hnl (t := t) (by simp)
      simp [literal]

theorem closer_anywhere {a : List Token} (ha : a ∈ document table + openBody table) {k : Control}
    (hc : k ∈ [Control.closeCode, .closeDocument]) : a ++ [.control k] ∈ document table := by
  obtain ⟨inside, h⟩ := beginning_append_iff hk ha
  rw [h, cons_mem_faultless]
  rcases (by simpa using hc : k = .closeCode ∨ k = .closeDocument) with rfl | rfl <;>
    simp [Mode.next, Mode.obey]

end Beginnings

/-- What a document refuses, wherever it stands, and what it lets pass. -/
structure Strict (table : List (Text × Text)) : Prop where
  /-- A body is not left open at the end. -/
  unclosed : ∀ a ∈ openBody table, a ∉ document table
  /-- No chunk is opened in a body. -/
  nested : ∀ a ∈ openBody table, ∀ k ∈ [Control.outputChunk, .namedChunk], ∀ rest,
    a ++ .control k :: rest ∉ document table
  /-- No literal, be it blank, stands on the lines between the options and the opener. -/
  gap : ∀ a ∈ document table, ∀ k ∈ [Control.outputChunk, .namedChunk], ∀ op ∈ optionLine,
    ∀ nl ∈ newlines, nl ≠ [] → ∀ cs rest,
      a ++ .control k :: (op ++ (nl ++ .literal cs :: rest)) ∉ document table
  /-- No opener and no end of a bracket stands alone. -/
  stray : ∀ a ∈ document table + openBody table,
    ∀ k ∈ [Control.openCode, .openDocument, .closeReference, .closeSubstitution], ∀ rest,
      a ++ .control k :: rest ∉ document table
  /-- No reference is empty. -/
  reference : ∀ a ∈ document table + openBody table,
    ∀ op ∈ operand (fun cs => ∀ d ∈ cs, Text.isBlank d = true), ∀ nl ∈ newlines, ∀ rest,
      a ++ .control .openReference :: (op ++ (nl ++ .control .closeReference :: rest)) ∉
        document table
  /-- Between chunks and in any body, either closing control will do. -/
  closer : ∀ a ∈ document table + openBody table, ∀ k ∈ [Control.closeCode, .closeDocument],
    a ++ [.control k] ∈ document table

theorem strict {table : List (Text × Text)}
    (hk : ∀ name, known name = true ↔ Known table (Text.ofChars name)) : Strict table where
  unclosed _ ha := openBody_not_document hk ha
  nested _ ha _ hc rest := chunk_in_body hk ha hc rest
  gap _ ha _ hc _ hop _ hnl hne cs rest := literal_before_opener hk ha hc hop hnl hne cs rest
  stray _ ha _ hc rest := stray_control hk ha hc rest
  reference _ ha _ hop _ hnl rest := empty_reference hk ha hop hnl rest
  closer _ ha _ hc := closer_anywhere hk ha hc

end Literate.Reader.Grammar
