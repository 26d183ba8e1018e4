import Literate.Token

/-! A scanner of tokens: characters are read one at a time, and what was read beyond the end of a
token is put back, to be read again. A line is counted when the token of its newline is taken. -/

namespace Literate.Token

structure Scanner where
  /-- Characters that were put back, the one that is read next first. -/
  ahead : List Char := []
  rest : List Char
  lines : Nat := 0
deriving DecidableEq, Repr

namespace Scanner

def ofText (t : Text) : Scanner := { rest := t.chars }

def read (s : Scanner) : Option (Char × Scanner) :=
  match s.ahead, s.rest with
  | c :: ahead, _ => some (c, { s with ahead })
  | [], c :: rest => some (c, { s with rest })
  | [], [] => none

def unread (c : Char) (s : Scanner) : Scanner := { s with ahead := c :: s.ahead }

/-- The characters that are still to be read. -/
def remaining (s : Scanner) : List Char := s.ahead ++ s.rest

@[simp] theorem remaining_unread (c : Char) (s : Scanner) :
    (s.unread c).remaining = c :: s.remaining := rfl

@[simp] theorem lines_unread (c : Char) (s : Scanner) : (s.unread c).lines = s.lines := rfl

theorem read_eq_none {s : Scanner} (h : s.read = none) : s.remaining = [] := by
  obtain ⟨ahead, rest, lines⟩ := s
  cases ahead <;> cases rest <;> simp_all [read, remaining]

theorem read_eq_some {s t : Scanner} {c : Char} (h : s.read = some (c, t)) :
    s.remaining = c :: t.remaining ∧ t.lines = s.lines := by
  obtain ⟨ahead, rest, lines⟩ := s
  cases ahead with
  | cons d ahead => cases h; exact ⟨rfl, rfl⟩
  | nil =>
    cases rest with
    | cons d rest => cases h; exact ⟨rfl, rfl⟩
    | nil => cases h

/-- Reading takes a character away. -/
theorem length_read {s t : Scanner} {c : Char} (h : s.read = some (c, t)) :
    s.remaining.length = t.remaining.length + 1 := by
  rw [(read_eq_some h).1, List.length_cons]

/-- The next token, of which a span has been read. A newline or a control that ends a span is put
back, the last character first. -/
def next (command : Char) (span : List Char) (s : Scanner) : Option (Token × Scanner) :=
  match hs : s.read with
  | none => if span = [] then none else some (.literal span, s)
  | some (c, t) =>
    have := length_read hs
    if c = '\n' then
      if span = [] then some (.newline, { t with lines := t.lines + 1 })
      else some (.literal span, t.unread c)
    else if c = command then
      match ht : t.read with
      | none => next command (span ++ [c]) t
      | some (d, u) =>
        have := length_read ht
        match Control.ofLetter? d with
        | some kind =>
          if span = [] then some (.control kind, u)
          else some (.literal span, (u.unread d).unread c)
        | none => next command (span ++ [c]) (u.unread d)
    else next command (span ++ [c]) t
termination_by s.remaining.length
decreasing_by all_goals simp_all

/-- A token takes characters away, and those of the span that was read of it. -/
theorem length_next {command : Char} {span : List Char} {s u : Scanner} {t : Token}
    (h : next command span s = some (t, u)) :
    u.remaining.length < s.remaining.length + span.length := by
  fun_induction next command span s with
  | case1 => cases h
  | case2 span s _ hne =>
    cases h
    have := List.length_pos_iff.mpr hne
    omega
  | case3 s r hs hlen =>
    cases h
    change r.remaining.length < _
    omega
  | case4 span s r hne _ hlen =>
    cases h
    have := List.length_pos_iff.mpr hne
    rw [remaining_unread, List.length_cons]
    omega
  | case5 span s r hr hs hlen hn ih =>
    have := ih h
    rw [List.length_append, List.length_singleton] at this
    omega
  | case6 => cases h; omega
  | case7 span s r d v hv hlen' k hk hne =>
    cases h
    have := List.length_pos_iff.mpr hne
    simp only [remaining_unread, List.length_cons]
    omega
  | case8 span s r d v hv hlen' hk hs hlen hn ih =>
    have := ih h
    simp only [remaining_unread, List.length_cons, List.length_append, List.length_nil] at this
    omega
  | case9 span s d r hs hlen hn hc ih =>
    have := ih h
    rw [List.length_append, List.length_singleton] at this
    omega

/-- All tokens, each with the lines that were counted when it was taken. -/
def tokens (command : Char) (s : Scanner) : List (Token × Nat) :=
  match _h : next command [] s with
  | none => []
  | some (t, u) => (t, u.lines) :: tokens command u
termination_by s.remaining.length
decreasing_by simpa using length_next _h

end Scanner

end Literate.Token
