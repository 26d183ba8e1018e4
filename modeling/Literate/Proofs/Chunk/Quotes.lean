import Literate.Chunk.OptionLine
import Literate.Proofs.Grammar

/-! Option lines without an open quote: characters that are no quotes, and pieces between two quotes
of the same kind. -/

open scoped Computability

namespace Literate.OptionLine

open Grammar

/-- A quote, characters other than it, and the quote again. -/
def quoted (q : Char) : Language Char := symbol (· = q) * (symbol (· ≠ q))∗ * symbol (· = q)

/-- Lines on which every quote is closed. -/
def closedLines : Language Char :=
  (symbol (fun c => isQuote c = false) + quoted '"' + quoted '\'')∗

/-- The open quote after one more character. -/
def nextQuote (quote : Option Char) (c : Char) : Option Char :=
  match quote with
  | some q => if c = q then none else some q
  | none => if isQuote c then some c else none

theorem quote_step (s : Scan) (c : Char) : (s.step c).quote = nextQuote s.quote c := by
  unfold Scan.step nextQuote
  cases s.quote with
  | some q =>
    simp only
    split <;> rfl
  | none =>
    simp only
    split
    · rfl
    · split <;> rfl

theorem quote_foldl (line : List Char) (s : Scan) :
    (line.foldl Scan.step s).quote = line.foldl nextQuote s.quote := by
  induction line generalizing s with
  | nil => rfl
  | cons c line ih => rw [List.foldl_cons, ih, quote_step, List.foldl_cons]

/-- The lines after which no quote is open, when one may be open before them. -/
def closing (quote : Option Char) : Language Char :=
  accepted (fun q c => some (nextQuote q c)) (· = none) quote

@[simp] theorem nil_mem_closing {quote : Option Char} : [] ∈ closing quote ↔ quote = none := by
  simp [closing]

@[simp] theorem cons_mem_closing {quote : Option Char} {c : Char} {line : List Char} :
    c :: line ∈ closing quote ↔ line ∈ closing (nextQuote quote c) := by
  simp [closing]

theorem mem_closing {quote : Option Char} {line : List Char} :
    line ∈ closing quote ↔ line.foldl nextQuote quote = none := by
  induction line generalizing quote with
  | nil => simp
  | cons c line ih => simpa using ih

theorem closing_some (q : Char) :
    closing (some q) = (symbol (· ≠ q))∗ * (symbol (· = q) * closing none) := by
  apply (Language.self_eq_mul_add_iff (nil_not_mem_symbol _)).mp
  ext line
  cases line with
  | nil => simp
  | cons c line => by_cases hc : c = q <;> simp [nextQuote, hc]

theorem closing_none : closing none = closedLines := by
  have hstep : closing none = symbol (fun c => isQuote c = false) * closing none +
      symbol (· = '"') * closing (some '"') + symbol (· = '\'') * closing (some '\'') + 1 := by
    ext line
    cases line with
    | nil => simp
    | cons c line =>
      by_cases hd : c = '"'
      · simp [nextQuote, isQuote, hd]
      · by_cases hs : c = '\''
        · simp [nextQuote, isQuote, hs]
        · simp [nextQuote, isQuote, hd, hs]
  have hfactor : closing none =
      (symbol (fun c => isQuote c = false) + quoted '"' + quoted '\'') * closing none + 1 := by
    rw [closing_some, closing_some] at hstep
    simpa only [quoted, add_mul, mul_assoc] using hstep
  have hnil : [] ∉ symbol (fun c => isQuote c = false) + quoted '"' + quoted '\'' := by
    simp [quoted, mul_assoc, nil_not_mem_symbol]
  rw [(Language.self_eq_mul_add_iff hnil).mp hfactor, mul_one, closedLines]

/-- The words of a line are found exactly when its quotes are closed. -/
theorem words_isOk_iff (line : List Char) :
    (∃ ws, words line = .ok ws) ↔ line ∈ closedLines := by
  have hq : (line.foldl Scan.step {}).quote = line.foldl nextQuote none := quote_foldl line {}
  rw [← closing_none, mem_closing, ← hq]
  cases h : (line.foldl Scan.step {}).quote <;> simp [words, h]

end Literate.OptionLine
