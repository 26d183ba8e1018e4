import Literate.Proofs.Weave.Sequence
import Literate.Weave.Markups

/-! Consumers of a weave. Each is handed the elements of one sequence in turn, and none after it
has stopped or after an error. -/

namespace Literate.Weave

/-- The elements of a list up to the first that is an error. -/
def upToError : List Yield → List Yield
  | [] => []
  | y :: ys => if y.error.isNone then y :: upToError ys else [y]

theorem upToError_subset (ys : List Yield) : upToError ys ⊆ ys := by
  induction ys with
  | nil => exact List.Subset.refl []
  | cons y ys ih =>
    unfold upToError
    split
    · exact List.cons_subset_cons y ih
    · exact List.cons_subset_cons y (List.nil_subset ys)

theorem error_of_mem_dropLast {ys : List Yield} {y : Yield} (h : y ∈ (upToError ys).dropLast) :
    y.error = none := by
  induction ys with
  | nil => cases h
  | cons z ys ih =>
    unfold upToError at h
    split at h
    next hz =>
      cases hys : upToError ys with
      | nil => simp [hys] at h
      | cons z' zs =>
        rw [hys, List.dropLast_cons_cons, ← hys] at h
        rcases List.mem_cons.1 h with rfl | h
        · exact Option.isNone_iff_eq_none.1 hz
        · exact ih h
    · cases h

variable {σ : Type}

/-- What passes between a sequence and a consumer: what is handed over, with the answer to it. -/
def calls (take : Consumer σ) : List Yield → σ → List (Yield × Bool)
  | [], _ => []
  | y :: ys, s =>
    (y, (take y s).2) ::
      if (take y s).2 && y.error.isNone then calls take ys (take y s).1 else []

/-- A consumer that keeps a record of what it is handed and what it answers. -/
def watched (take : Consumer σ) : Consumer (σ × List (Yield × Bool)) := fun y r =>
  (((take y r.1).1, r.2 ++ [(y, (take y r.1).2)]), (take y r.1).2)

theorem feed_watched (take : Consumer σ) (ys : List Yield) (s : σ) (cs : List (Yield × Bool)) :
    feed (watched take) ys ((s, cs), true) =
      (((feed take ys (s, true)).1, cs ++ calls take ys s), (feed take ys (s, true)).2) := by
  -- by induction on what is offered: one call is recorded, and the rest only if the weave goes on
  induction ys generalizing s cs with
  | nil => simp [feed, calls]
  | cons y ys ih =>
    have hnext : feed (watched take) (y :: ys) ((s, cs), true) = feed (watched take) ys
        (((take y s).1, cs ++ [(y, (take y s).2)]), (take y s).2 && y.error.isNone) := rfl
    have hnext' : feed take (y :: ys) (s, true) =
      feed take ys ((take y s).1, (take y s).2 && y.error.isNone) := rfl
    rw [hnext, hnext', calls]
    cases (take y s).2 && y.error.isNone with
    | true => simp [ih]
    | false => simp [feed_stopped]

section Calls

variable (take : Consumer σ) (ys : List Yield) (s : σ)

theorem calls_prefix : (calls take ys s).map Prod.fst <+: upToError ys := by
  induction ys generalizing s with
  | nil => exact List.prefix_rfl
  | cons y ys ih =>
    rw [calls, upToError]
    cases y.error.isNone with
    | false => simp
    | true =>
      cases (take y s).2 with
      | false => simp
      | true => simpa using ih (take y s).1

/-- Before the last call the consumer has asked for more each time, and nothing has failed. -/
theorem calls_going {c : Yield × Bool} (h : c ∈ (calls take ys s).dropLast) :
    c.2 = true ∧ c.1.error = none := by
  induction ys generalizing s with
  | nil => cases h
  | cons y ys ih =>
    rw [calls] at h
    split at h
    next hmore =>
      cases hcs : calls take ys (take y s).1 with
      | nil => simp [hcs] at h
      | cons c' cs =>
        rw [hcs, List.dropLast_cons_cons, ← hcs] at h
        rcases List.mem_cons.1 h with rfl | h
        · simpa using hmore
        · exact ih _ h
    · cases h

/-- The calls end only with the sequence or when the consumer has had enough. -/
theorem calls_end : (calls take ys s).map Prod.fst = upToError ys ∨
    ∃ c, (calls take ys s).getLast? = some c ∧ c.2 = false := by
  induction ys generalizing s with
  | nil => exact .inl rfl
  | cons y ys ih =>
    rw [calls, upToError]
    cases herror : y.error.isNone with
    | false => simp
    | true =>
      cases hmore : (take y s).2 with
      | false => simp
      | true =>
        rcases ih (take y s).1 with h | ⟨c, hlast, hc⟩
        · exact .inl (by simp [h])
        · refine .inr ⟨c, ?_, hc⟩
          simp [List.getLast?_cons, hlast]

/-- A consumer that stops after so many elements is handed just these. -/
theorem calls_take {n : Nat} (hn : 0 < n)
    (h : ∀ k c, (calls take ys s)[k]? = some c → (c.2 = true ↔ k + 1 < n)) :
    (calls take ys s).map Prod.fst = (upToError ys).take n := by
  induction ys generalizing n s with
  | nil => simp [calls, upToError]
  | cons y ys ih =>
    obtain ⟨n, rfl⟩ := Nat.exists_eq_add_one.2 hn
    have hfirst := h 0 _ rfl
    rw [calls] at h ⊢
    rw [upToError]
    cases herror : y.error.isNone with
    | false => simp
    | true =>
      cases hmore : (take y s).2 with
      | false =>
        have hzero : n = 0 := by
          rw [hmore] at hfirst
          simpa using hfirst
        simp [hzero]
      | true =>
        have hpos : 0 < n := by
          rw [hmore] at hfirst
          simpa using hfirst
        simp only [herror, hmore, Bool.and_self, if_true] at h ⊢
        rw [List.map_cons, List.take_succ_cons]
        refine congrArg (y :: ·) (ih _ hpos fun k c hc => ?_)
        have hlater := h (k + 1) c hc
        rw [hlater]
        omega

end Calls

/-- A consumer that never stops and keeps all that it is handed. -/
def keeping : Consumer (List Yield) := fun y got => (got ++ [y], true)

theorem feed_keeping (ys got : List Yield) :
    (feed keeping ys (got, true)).1 = got ++ upToError ys := by
  induction ys generalizing got with
  | nil => simp [feed, upToError]
  | cons y ys ih =>
    have hnext : feed keeping (y :: ys) (got, true) =
      feed keeping ys (got ++ [y], y.error.isNone) := rfl
    rw [hnext, upToError]
    cases y.error.isNone with
    | true => simp [ih]
    | false => simp [feed_stopped]

theorem feed_assembler (ys : List Yield) (doc : Text) :
    (feed assembler ys (.ok doc, true)).1 = match ys.findSome? Yield.error with
      | some e => .error e
      | none => .ok (doc ++ ys.flatMap Yield.text) := by
  induction ys generalizing doc with
  | nil => simp [feed]
  | cons y ys ih =>
    obtain ⟨text, error⟩ := y
    cases error with
    | none =>
      have hnext : feed assembler (⟨text, none⟩ :: ys) (.ok doc, true) =
        feed assembler ys (.ok (doc ++ text), true) := rfl
      rw [hnext, ih]
      simp
    | some e =>
      have hnext : feed assembler (⟨text, some e⟩ :: ys) (.ok doc, true) =
        feed assembler ys (.error e, false) := rfl
      rw [hnext, feed_stopped]
      rfl

theorem findSome?_upToError (ys : List Yield) :
    (upToError ys).findSome? Yield.error = ys.findSome? Yield.error := by
  induction ys with
  | nil => rfl
  | cons y ys ih =>
    rw [upToError]
    cases herror : y.error with
    | none => simp [herror, ih]
    | some e => simp [herror]

theorem upToError_eq {ys : List Yield} (h : ∀ y ∈ upToError ys, y.error = none) :
    upToError ys = ys := by
  induction ys with
  | nil => rfl
  | cons y ys ih =>
    rw [upToError] at h ⊢
    cases hy : y.error with
    | none =>
      simp only [hy, Option.isNone_none, if_true] at h ⊢
      rw [ih fun z hz => h z (by simp [hz])]
    | some e =>
      have herror := h y (by simp [hy])
      rw [hy] at herror
      cases herror

section Generate

variable (m : Markup) (w : Web)

/-- The document is put together from the pieces, or one of them fails. -/
theorem render_eq : (render m w).1 = match ((pieces w).map (yieldOf m)).findSome? Yield.error with
      | some e => .error e
      | none => .ok (m.finish (((pieces w).map (yieldOf m)).flatMap Yield.text)) := by
  have houtcome := congrArg Prod.fst (outcome_generate m w assembler (.ok []))
  rw [feed_assembler] at houtcome
  have hrender : (render m w).1 = (generate m w assembler (.ok [])).outcome.1.map m.finish := rfl
  rw [hrender, houtcome]
  cases ((pieces w).map (yieldOf m)).findSome? Yield.error <;> rfl

theorem text_of_error {p : Except Fault Piece} (h : (yieldOf m p).error ≠ none) :
    (yieldOf m p).text = [] := by
  cases p with
  | error f => rfl
  | ok p =>
    rw [yieldOf] at h ⊢
    cases hp : p.render m with
    | error e => rfl
    | ok text =>
      rw [hp] at h
      exact absurd rfl h

/-- A weave respects its consumer. One that never stops is handed the pieces of the web up to the first
that fails, and any other the beginning of this sequence; it has asked for more and no error has come
before each further call, and the sequence is cut short only when it has had enough. An error is the
last element and comes with an empty fragment, and a document without one is all fragments put
together. -/
theorem generate_respects_consumer :
    let all := (generate m w keeping []).state
    all = upToError ((pieces w).map (yieldOf m)) ∧
    (∀ (σ : Type) (take : Consumer σ) (start : σ),
      let r := generate m w (watched take) (start, [])
      let calls := r.state.2
      r.state.1 = (generate m w take start).state ∧
      calls.map Prod.fst <+: all ∧
      (∀ c ∈ calls.dropLast, c.2 = true ∧ c.1.error = none) ∧
      (calls.map Prod.fst = all ∨ ∃ c, calls.getLast? = some c ∧ c.2 = false) ∧
      ∀ n, 0 < n → (∀ k c, calls[k]? = some c → (c.2 = true ↔ k + 1 < n)) →
        calls.map Prod.fst = all.take n) ∧
    (∀ y ∈ all.dropLast, y.error = none) ∧
    (∀ y ∈ all, y.error ≠ none → y.text = []) ∧
    ((∀ y ∈ all, y.error = none) → (render m w).1 = .ok (m.finish (all.flatMap Yield.text))) := by
  intro all
  have hall : all = upToError ((pieces w).map (yieldOf m)) :=
    (congrArg Prod.fst (outcome_generate m w keeping [])).trans (feed_keeping _ [])
  rw [hall]
  refine ⟨rfl, fun σ take start => ?_, fun y => error_of_mem_dropLast, fun y hy herror => ?_,
    fun hnone => ?_⟩
  · intro r given
    have hr : r.state = (feed (watched take) ((pieces w).map (yieldOf m)) ((start, []), true)).1 :=
      congrArg Prod.fst (outcome_generate m w (watched take) (start, []))
    have hown : (generate m w take start).state =
        (feed take ((pieces w).map (yieldOf m)) (start, true)).1 :=
      congrArg Prod.fst (outcome_generate m w take start)
    rw [feed_watched] at hr
    have hgiven : given = calls take ((pieces w).map (yieldOf m)) start := congrArg Prod.snd hr
    rw [hgiven]
    exact ⟨(congrArg Prod.fst hr).trans hown.symm, calls_prefix take _ start,
      fun c => calls_going take _ start, calls_end take _ start, fun n => calls_take take _ start⟩
  · obtain ⟨p, -, rfl⟩ := List.mem_map.1 (upToError_subset _ hy)
    exact text_of_error m herror
  · have hfound : ((pieces w).map (yieldOf m)).findSome? Yield.error = none := by
      rw [← findSome?_upToError, List.findSome?_eq_none_iff]
      exact hnone
    rw [upToError_eq hnone, render_eq, hfound]

end Generate

/-- Prose with a reference that two names complete: the consumer stops before it fails. -/
theorem generate_respects_consumer_stopped :
    let page : Chunk := { kind := .anonymous, name := [], commands :=
      [⟨.text "x", ⟨"m.w", 1⟩⟩, ⟨.reference "a...", ⟨"m.w", 2⟩⟩] }
    let entry : Web.Entry := { chunk := page, seq := 0, initial := false, fullName := none }
    let w : Web := ⟨"m.w", [entry], ["ab", "ac"], [], [], []⟩
    let take : Consumer Nat := fun _ taken => (taken + 1, decide (taken + 1 < 1))
    (generate html w keeping []).state.length = 2 ∧
      (generate html w (watched take) (0, [])).state.2.map Prod.fst = [.ofText "x"] := by
  intro page entry w take
  obtain ⟨-, hconsumers, -⟩ := generate_respects_consumer html w
  obtain ⟨-, -, -, -, htake⟩ := hconsumers Nat take 0
  have hcalls : (generate html w (watched take) (0, [])).state.2 = [(.ofText "x", false)] := rfl
  have hone := htake 1 (by decide) fun k c hc => by
    rw [hcalls] at hc
    cases k with
    | zero =>
      cases hc
      decide
    | succ k => cases hc
  exact ⟨rfl, hone.trans rfl⟩

end Literate.Weave
