import Mathlib.Data.List.Forall2
import Literate.Proofs.Tangle.Writing
import Literate.Proofs.Web.Definitions

/-! Tangling keeps all code in order: the lines of the output are those of the plain expansion, in
which each reference is replaced by the definitions of its name, with spaces before some of them. -/

namespace Literate.Tangle

/-- The plain expansion of commands: their code in order, with the definitions of its full name
in place of each reference. -/
inductive Plain (chunks : List Chunk) : List Command → Text → Prop
  | nil : Plain chunks [] []
  | code {text n : Text} {l : Location} {rest : List Command} (hrest : Plain chunks rest n) :
    Plain chunks (⟨.code text, l⟩ :: rest) (text ++ n)
  | reference {name full m n : Text} {l : Location} {rest : List Command}
    (hname : Web.resolveIn (Web.definedNames chunks) name = .ok full)
    (hdefs : Plain chunks ((Web.definitionsIn chunks full).flatMap Chunk.commands) m)
    (hrest : Plain chunks rest n) : Plain chunks (⟨.reference name, l⟩ :: rest) (m ++ n)

namespace Plain

variable {chunks : List Chunk} {cs ds : List Command} {m n : Text}

theorem unique (h : Plain chunks cs m) (h' : Plain chunks cs n) : m = n := by
  induction h generalizing n with
  | nil =>
    cases h'
    rfl
  | code _ ih =>
    cases h' with
    | code hrest => rw [ih hrest]
  | reference hname _ _ ihdefs ihrest =>
    cases h' with
    | reference hname' hdefs' hrest' =>
      rw [hname] at hname'
      cases hname'
      rw [ihdefs hdefs', ihrest hrest']

theorem append (h : Plain chunks cs m) (h' : Plain chunks ds n) :
    Plain chunks (cs ++ ds) (m ++ n) := by
  induction h with
  | nil => exact h'
  | code _ ih =>
    rw [List.append_assoc]
    exact .code ih
  | reference hname hdefs _ _ ih =>
    rw [List.append_assoc]
    exact .reference hname hdefs ih

end Plain

/-- A line with spaces before it, unless it is empty. -/
def Padded (line plain : Text) : Prop :=
  ∃ k, line = List.replicate k 32 ++ plain ∧ (plain = [] → k = 0)

theorem padded_nil {plain : Text} (h : Padded [] plain) : plain = [] := by
  obtain ⟨k, hk, -⟩ := h
  exact (List.append_eq_nil_iff.mp hk.symm).2

/-- What a buffer holds of a plain text: the same lines, padded, of which the last is empty if it
is fresh. -/
def Tracks (w : Writer) (plain : Text) : Prop :=
  ∃ lines last plains plainLast, w.out.split Text.newline = lines ++ [last] ∧
    plain.split Text.newline = plains ++ [plainLast] ∧ List.Forall₂ Padded lines plains ∧
    Padded last plainLast ∧ (w.fresh = true → last = [])

namespace Tracks

variable {w w' : Writer} {plain : Text}

theorem start : Tracks {} [] :=
  ⟨[], [], [], [], rfl, rfl, .nil, ⟨0, rfl, fun _ => rfl⟩, fun _ => rfl⟩

theorem congr (h : Tracks w plain) (hout : w'.out = w.out) (hfresh : w'.fresh = w.fresh) :
    Tracks w' plain := by
  unfold Tracks
  rw [hout, hfresh]
  exact h

theorem putPiece (h : Tracks w plain) {piece : Text} (hp : Text.newline ∉ piece) :
    Tracks (w.putPiece piece) (plain ++ piece) := by
  by_cases hne : piece = []
  · simpa [hne] using h
  · obtain ⟨lines, last, plains, plainLast, hlines, hplains, hall, hlast, hfresh⟩ := h
    have hpad : Text.newline ∉ w.padding ++ piece := by
      simp [Writer.newline_not_mem_padding, hp]
    rw [Writer.putPiece_of_ne_nil hne]
    refine ⟨lines, last ++ (w.padding ++ piece), plains, plainLast ++ piece,
      Text.split_append_append hlines (Text.split_of_not_mem hpad),
      Text.split_append_append hplains (Text.split_of_not_mem hp), hall, ?_, by simp⟩
    cases hf : w.fresh with
    | true =>
      have hl := hfresh hf
      rw [hl] at hlast ⊢
      rw [padded_nil hlast]
      exact ⟨w.indent.toNat, by simp [Writer.padding, hf], by simp [hne]⟩
    | false =>
      obtain ⟨k, hk, -⟩ := hlast
      exact ⟨k, by simp [Writer.padding, hf, hk], by simp [hne]⟩

theorem endLine (h : Tracks w plain) : Tracks w.endLine (plain ++ [Text.newline]) := by
  obtain ⟨lines, last, plains, plainLast, hlines, hplains, hall, hlast, -⟩ := h
  have hbreak : Text.split Text.newline [Text.newline] = [[], []] := rfl
  refine ⟨lines ++ [last], [], plains ++ [plainLast], [], ?_, ?_, ?_, ⟨0, rfl, fun _ => rfl⟩,
    fun _ => rfl⟩
  · simpa [Writer.endLine] using Text.split_append_append hlines hbreak
  · simpa using Text.split_append_append hplains hbreak
  · exact List.rel_append hall (.cons hlast .nil)

theorem put (h : Tracks w plain) (text : Text) : Tracks (w.put text) (plain ++ text) := by
  induction text using Text.byLines generalizing w plain with
  | last piece hp =>
    rw [Writer.put_of_not_mem hp]
    exact h.putPiece hp
  | line piece rest hp ih =>
    rw [Writer.put_line hp]
    simpa using ih (h.putPiece hp).endLine

end Tracks

/-- An expansion that succeeds writes the plain expansion of the commands of its steps. -/
theorem Expands.tracks {path file : Text} {chunks : List Chunk} {depth : Nat} {stack : List Text}
    {as : List Step} {p q : Pass} {e : Except Fault Unit} {plain : Text}
    (h : Expands (Web.ofChunks path chunks) file none depth stack as p e q) (he : e = .ok ())
    (ht : Tracks p.writer plain) :
    ∃ n, Plain chunks (as.flatMap (Step.commands (Web.ofChunks path chunks))) n ∧
      Tracks q.writer (plain ++ n) := by
  induction h generalizing plain with
  | nil p => exact ⟨[], .nil, by simpa using ht⟩
  | cons _ _ iha ihas =>
    obtain ⟨n, hn, htn⟩ := iha rfl ht
    obtain ⟨m, hm, htm⟩ := ihas he htn
    refine ⟨n ++ m, ?_, by simpa using htm⟩
    rw [List.flatMap_singleton] at hn
    exact hn.append hm
  | abort => cases he
  | fault => cases he
  | @code _ _ _ c text hc p =>
    obtain ⟨body, l⟩ := c
    obtain rfl : body = .code text := hc
    have hplain : Plain chunks [⟨.code text, l⟩] (text ++ []) := .code .nil
    exact ⟨text, by simpa [Step.commands] using hplain, ht.put text⟩
  | definition _ _ ih =>
    obtain ⟨n, hn, htn⟩ := ih he ht
    rw [flatMap_commands_stepsOf] at hn
    exact ⟨n, by simpa [Step.commands] using hn, htn⟩
  | @reference _ _ _ c name full first more _ q _ hc htarget _ ih =>
    obtain ⟨body, l⟩ := c
    obtain rfl : body = .reference name := hc
    obtain ⟨hname, -, hg, -⟩ := target_ok.mp htarget
    obtain ⟨n, hn, htn⟩ := ih he (ht.congr rfl rfl)
    have hdefs : ((first :: more).map Step.definition).flatMap
        (Step.commands (Web.ofChunks path chunks)) =
          (Web.definitionsIn chunks full).flatMap Chunk.commands := by
      rw [← Web.definitions_ofChunks path chunks full, hg, List.flatMap_map, List.flatMap_map]
      rfl
    rw [hdefs] at hn
    have hplain : Plain chunks [⟨.reference name, l⟩] (n ++ []) := .reference hname hn .nil
    exact ⟨n, by simpa [Step.commands] using hplain,
      htn.congr (q.writer.out_clearIndent) (q.writer.fresh_clearIndent)⟩

/-- The output of a chunk has the lines of its plain expansion, each with spaces before it unless
it is empty. -/
theorem render_lines {path : Text} {chunks : List Chunk} {i : Nat} {m m' : Memory} {out : Text}
    (h : render (Web.ofChunks path chunks) false i m = (.ok out, m')) :
    ∃ n, (∀ n', Plain chunks ((Web.ofChunks path chunks).chunk i).commands n' ↔ n' = n) ∧
      out.count Text.newline = n.count Text.newline ∧
      List.Forall₂ Padded (out.split Text.newline) (n.split Text.newline) := by
  have hexpands := expands_chunk (Web.ofChunks path chunks) false i m
  rcases hr : expandChunk (Web.ofChunks path chunks) false i
    { citations := m.citations, names := m.names } with ⟨⟨f⟩ | ⟨u⟩, p⟩
  · simp [render, hr] at h
  · simp only [render, hr, Prod.mk.injEq, Except.ok.injEq] at h
    obtain ⟨rfl, -⟩ := h
    rw [hr] at hexpands
    obtain ⟨n, hn, htn⟩ := hexpands.tracks rfl .start
    rw [flatMap_commands_stepsOf] at hn
    obtain ⟨lines, last, plains, plainLast, hlines, hplains, hall, hlast, -⟩ := htn
    rw [List.nil_append] at hplains
    have hforall : List.Forall₂ Padded (p.writer.out.split Text.newline)
        (n.split Text.newline) := by
      rw [hlines, hplains]
      exact List.rel_append hall (.cons hlast .nil)
    have hlength := hforall.length_eq
    rw [Text.length_split, Text.length_split] at hlength
    refine ⟨n, fun n' => ⟨fun h' => h'.unique hn, fun h' => h' ▸ hn⟩, by omega, hforall⟩

/-- A definition that goes on under an abbreviation, and one that is not indented. -/
def continued : List Chunk :=
  [{ Chunk.ofKind .output "a.c" with
      commands := [⟨.code "if (a)\n  ", .none⟩, ⟨.reference "body", .none⟩, ⟨.code ";\n", .none⟩] },
    { Chunk.ofKind .named "body" with
      commands := [⟨.code "b;\n\n", .none⟩, ⟨.reference "label", .none⟩] },
    { Chunk.ofKind .named "label" with commands := [⟨.code "\nl:\n", .none⟩], indent := .off },
    { Chunk.ofKind .named "bo..." with commands := [⟨.code "c", .none⟩] }]

theorem definedNames_continued : Web.definedNames continued = ["body", "label"] :=
  List.mergeSort_of_pairwise (by decide)

theorem render_lines_continued :
    ∃ m, render (Web.ofChunks "a.w" continued) false 0 {} =
        (.ok "if (a)\n  b;\n\n\nl:\n  c;\n", m) ∧
      ∃ n, (∀ n', Plain continued ((Web.ofChunks "a.w" continued).chunk 0).commands n' ↔ n' = n) ∧
        List.count Text.newline ("if (a)\n  b;\n\n\nl:\n  c;\n" : Text) = n.count Text.newline ∧
        List.Forall₂ Padded (Text.split Text.newline "if (a)\n  b;\n\n\nl:\n  c;\n")
          (n.split Text.newline) := by
  have hrender : ∃ m, render (Web.ofChunks "a.w" continued) false 0 {} =
      (.ok "if (a)\n  b;\n\n\nl:\n  c;\n", m) := by
    rw [Web.ofChunks_of_names _ _ definedNames_continued]
    exact ⟨_, rfl⟩
  obtain ⟨m, hm⟩ := hrender
  exact ⟨m, hm, render_lines hm⟩

end Literate.Tangle
