import Literate.Proofs.Reader.Locations

/-! Where the commands of a loaded web come from. Each goes back to a phrase of one source, the one
that was loaded or one that an include opened, and its position is the line of that phrase, but for
a newline that was looked at as an operand: it is put a line too far. -/

namespace Literate.Reader

/-- A source that is read: how many more can be open at once, what is being read already, its name
and the directory that its includes start from. -/
structure Reading where
  depth : Nat
  reading : List Text
  name : Text
  dir : Text
  source : Source

namespace Reading

variable (options : Options) (tree : FileTree)

/-- The source that a web is loaded from. -/
def start (name : Text) (source : Source) : Reading :=
  ⟨includeDepth tree, [tree.absolute name], name, Path.directory name, source⟩

def tokens (r : Reading) : List Token := Token.ofText options.command r.source.bytes

def outcome (r : Reading) : Outcome :=
  readSource options tree r.depth r.reading r.name r.dir r.source

def fetch (r : Reading) : Text → Inclusion :=
  match r.depth with
  | 0 => fun _ => .cycle
  | depth + 1 => inclusion tree r.reading r.dir (readSource options tree depth)

def context (r : Reading) : Context := options.context r.name (r.fetch options tree)

theorem outcome_eq (r : Reading) :
    r.outcome options tree = readTokens (r.context options tree) (r.tokens options) := by
  obtain ⟨depth, reading, name, dir, source⟩ := r
  cases depth <;> rfl

/-- The source that a path leads to, if it is opened. -/
inductive Includes : Reading → Text → Reading → Prop
  | opened {depth : Nat} {reading : List Text} {name dir path : Text} {source : Source}
    {node : FileNode} (hnew : tree.absolute (resolveInclude dir path) ∉ reading)
    (hopen : tree.openEntry (resolveInclude dir path) = .ok node) :
    Includes ⟨depth + 1, reading, name, dir, source⟩ path
      ⟨depth, reading ++ [tree.absolute (resolveInclude dir path)], path,
        Path.directory (resolveInclude dir path), Source.ofNode (resolveInclude dir path) node⟩

variable {options tree}

theorem Includes.fetch_eq {r inner : Reading} {path : Text} (h : Includes tree r path inner) :
    r.fetch options tree path = .read (inner.outcome options tree) inner.source.failure := by
  cases h with
  | opened hnew hopen => simp [fetch, inclusion, hnew, hopen, outcome]

theorem includes_of_fetch {r : Reading} {path : Text} {o : Outcome} {failure : Option Text}
    (h : r.fetch options tree path = .read o failure) :
    ∃ inner, Includes tree r path inner ∧ o = inner.outcome options tree ∧
      inner.depth < r.depth := by
  obtain ⟨depth, reading, name, dir, source⟩ := r
  cases depth with
  | zero => cases h
  | succ depth =>
    simp only [fetch, inclusion] at h
    split at h
    · cases h
    next hnew =>
      split at h
      · cases h
      next node hopen =>
        cases h
        exact ⟨_, .opened hnew hopen, rfl, Nat.lt_succ_self depth⟩

end Reading

/-- A command begins with a phrase of a source: it is there once the phrase is read, and not
before. -/
structure Begins (ctx : Context) (ts before phrase : List Token) (a b : Nat) : Prop where
  within : before ++ phrase <+: ts
  formed : Phrase before phrase
  absent : placeAt (readTo ctx before).chunks a b = none
  present : placeAt (readTo ctx (before ++ phrase)).chunks a b ≠ none

/-- A command of what is read begins with a phrase of that source or, when that phrase is an
include, with the phrase that it begins with in the included one. -/
inductive Origin (options : Options) (tree : FileTree) :
    Reading → Nat → Nat → Reading → List Token → List Token → Prop
  | own {r : Reading} {before phrase : List Token} {a b : Nat}
    (hb : Begins (r.context options tree) (r.tokens options) before phrase a b)
    (hpath : ∀ span, phrase ≠ [.control .includeFile, .literal span]) :
    Origin options tree r a b r before phrase
  | included {r inner source : Reading} {before earlier phrase : List Token} {span : List Char}
    {a b : Nat}
    (hb : Begins (r.context options tree) (r.tokens options) before
      [.control .includeFile, .literal span]
      ((readTo (r.context options tree) (before ++ [.control .includeFile])).chunks.length + a) b)
    (hi : Reading.Includes tree r (Text.ofChars (Text.trimChars span)) inner)
    (ho : Origin options tree inner a b source earlier phrase) :
    Origin options tree r
      ((readTo (r.context options tree) (before ++ [.control .includeFile])).chunks.length + a) b
      source earlier phrase

variable {options : Options} {tree : FileTree} {ctx : Context} {ts before phrase : List Token}
  {r : Reading} {a b : Nat} {l : Location}

theorem exists_begins (h : placeAt (readTo ctx ts).chunks a b ≠ none) :
    ∃ before phrase, Begins ctx ts before phrase a b := by
  induction ts using List.reverseRecOn with
  | nil =>
    refine absurd ?_ h
    exact placeAt_empty rfl a b
  | append_singleton ts t ih =>
    by_cases hts : placeAt (readTo ctx ts).chunks a b = none
    · obtain ⟨before, phrase, hsplit, hphrase⟩ := Phrase.exists_split (List.concat_ne_nil t ts)
      refine ⟨before, phrase, ⟨by rw [hsplit], hphrase, ?_, by rwa [← hsplit]⟩⟩
      -- the phrase ends in the last token, so what was read before it is part of the rest
      obtain ⟨rest, hrest⟩ : ∃ rest, ts = before ++ rest := by
        obtain ⟨init, last, hphrase'⟩ : ∃ init last, phrase = init ++ [last] :=
          ⟨_, _, (List.dropLast_concat_getLast hphrase.ne_nil).symm⟩
        rw [hphrase', ← List.append_assoc] at hsplit
        exact ⟨init, (List.append_inj' hsplit rfl).1⟩
      cases hl : placeAt (readTo ctx before).chunks a b with
      | none => rfl
      | some l =>
        rw [hrest, readTo_keeps hl rest] at hts
        cases hts
    · obtain ⟨before, phrase, hb⟩ := ih hts
      exact ⟨before, phrase, hb.within.trans (List.prefix_append ts [t]), hb.formed, hb.absent,
        hb.present⟩

theorem Begins.place_eq (h : Begins ctx ts before phrase a b)
    (hl : placeAt (readTokens ctx ts).chunks a b = some l) :
    placeAt (readTo ctx (before ++ phrase)).chunks a b = some l := by
  obtain ⟨rest, rfl⟩ := h.within
  obtain ⟨m, hm⟩ := Option.ne_none_iff_exists'.mp h.present
  rw [placeAt_readTokens, readTo_keeps hm rest] at hl
  rw [hm, hl]

theorem Begins.included {span : List Char}
    (h : Begins ctx ts before [.control .includeFile, .literal span] a b)
    (hl : placeAt (readTokens ctx ts).chunks a b = some l) :
    ∃ a' o failure, ctx.fetch (Text.ofChars (Text.trimChars span)) = .read o failure ∧
      a = (readTo ctx (before ++ [.control .includeFile])).chunks.length + a' ∧
      placeAt o.chunks a' b = some l := by
  have hpresent := h.place_eq hl
  have habsent := h.absent
  obtain ⟨t, ht, hfirst⟩ := h.formed.exists_first
  obtain rfl : .control .includeFile = t := by simpa using ht
  rw [← awaited_readTo ctx] at hfirst
  obtain ⟨⟨m, hp⟩, hsame⟩ :
      (∃ m, (step ctx (readTo ctx before) (.control .includeFile)).pending = .includePath m) ∧
        placeAt (step ctx (readTo ctx before) (.control .includeFile)).chunks =
          placeAt (readTo ctx before).chunks := step_include hfirst
  rw [← readTo_concat] at hp hsame
  have hsplit : before ++ [.control .includeFile, .literal span] =
      before ++ [.control .includeFile] ++ [.literal span] := by simp
  rw [hsplit, readTo_concat] at hpresent
  rw [← hsame] at habsent
  exact (step_path_grows hp span).new habsent hpresent

theorem Origin.location {source : Reading} (h : Origin options tree r a b source before phrase)
    (hl : placeAt (r.outcome options tree).chunks a b = some l) :
    l = beginning source.name before phrase := by
  induction h generalizing l with
  | own hb hpath =>
    rw [Reading.outcome_eq] at hl
    exact (phrase_growsAt hb.formed hpath).1.new hb.absent (hb.place_eq hl)
  | @included r inner source before earlier phrase span a b hb hi _ ih =>
    rw [Reading.outcome_eq] at hl
    obtain ⟨a', o, failure, hfetch, ha, hl'⟩ := hb.included hl
    obtain rfl := Nat.add_left_cancel ha
    have hread : Inclusion.read o failure =
        .read (inner.outcome options tree) inner.source.failure := hfetch.symm.trans hi.fetch_eq
    cases hread
    exact ih hl'

theorem exists_origin (r : Reading)
    (hl : placeAt (r.outcome options tree).chunks a b ≠ none) :
    ∃ source before phrase, Origin options tree r a b source before phrase := by
  induction hd : r.depth using Nat.strongRecOn generalizing r a b with
  | _ depth ih =>
    obtain ⟨l, hl⟩ := Option.ne_none_iff_exists'.mp hl
    rw [Reading.outcome_eq] at hl
    have hend : placeAt (readTo (r.context options tree) (r.tokens options)).chunks a b ≠ none := by
      rw [← placeAt_readTokens, hl]
      simp
    obtain ⟨before, phrase, hb⟩ := exists_begins hend
    by_cases hpath : ∃ span, phrase = [.control .includeFile, .literal span]
    · obtain ⟨span, rfl⟩ := hpath
      obtain ⟨a', o, failure, hfetch, rfl, hl'⟩ := hb.included hl
      obtain ⟨inner, hi, rfl, hlt⟩ := Reading.includes_of_fetch hfetch
      have hinner : placeAt (inner.outcome options tree).chunks a' b ≠ none := by simp [hl']
      obtain ⟨source, earlier, phrase, ho⟩ := ih inner.depth (hd ▸ hlt) inner hinner rfl
      exact ⟨source, earlier, phrase, .included hb hi ho⟩
    · exact ⟨r, before, phrase, .own hb fun span he => hpath ⟨span, he⟩⟩

/-- The chunks of a loaded web are those of its source but for the empty ones. Every command of them
has an origin, and its position is the name of the source that it goes back to and the line of the
phrase that it begins with: one more than the newlines before it, and one too many where the phrase
is a newline that was looked at as the operand of the control before it. -/
theorem load_location {name : Text} {source : Source} {chunks : List Chunk}
    (h : (load options tree name source).chunks = .ok chunks) :
    let r := Reading.start tree name source
    let all := (r.outcome options tree).chunks
    chunks = all.filter (fun c => !isVacuous c) ∧
      ∀ a c b k, all[a]? = some c → c.commands[b]? = some k →
        (∃ file before phrase, Origin options tree r a b file before phrase) ∧
        ∀ file before phrase, Origin options tree r a b file before phrase →
          k.location = ⟨file.name, (Token.newlines before + late before phrase : Nat) + 1⟩ := by
  intro r all
  constructor
  · cases hf : source.failure with
    | some cause => simp [load, hf] at h
    | none =>
      simp only [load, hf, Except.ok.injEq] at h
      exact h.symm
  · intro a c b k hc hk
    have hplace : placeAt all a b = some k.location := by simp [placeAt, hc, hk]
    exact ⟨exists_origin r (by simp [all, hplace]), fun _ _ _ ho => ho.location hplace⟩

/-- A source with a reference on its second line. -/
def outline : FileTree := ⟨[(["a"], .file "@d n\n@\x7b@<m@>\n@\x7d")], []⟩

theorem load_location_outline :
    let source : Source := ⟨"t\n@i a\n", none⟩
    let r := Reading.start outline "m.w" source
    let inner : Reading := ⟨2, ["/m.w", "/a"], "a", ".", ⟨"@d n\n@\x7b@<m@>\n@\x7d", none⟩⟩
    let before := [.control .namedChunk, .literal [' ', 'n'], .newline, .control .openCode]
    let phrase := [.control .openReference, .literal ['m'], .control .closeReference]
    let chunks := (r.outcome {} outline).chunks
    (load {} outline "m.w" source).chunks = .ok (chunks.filter fun c => !isVacuous c) ∧
      Origin {} outline r 2 0 inner before phrase ∧
      ∃ c k, chunks[2]? = some c ∧ c.commands[0]? = some k ∧ k.body = .reference "m" ∧
        k.location = ⟨"a", 2⟩ := by
  intro source r inner before phrase chunks
  have hload : (load {} outline "m.w" source).chunks = .ok (chunks.filter fun c => !isVacuous c) :=
    rfl
  have hopen : outline.openEntry (resolveInclude "." "a") =
      .ok (.file "@d n\n@\x7b@<m@>\n@\x7d") := by decide
  have hincludes : Reading.Includes outline r "a" inner := .opened (by decide) hopen
  have hinner : Origin {} outline inner 1 0 inner before phrase :=
    .own ⟨by decide, .more (.more (.first rfl) rfl) rfl, by decide, by decide⟩ (by simp [phrase])
  have hlength : (readTo (r.context {} outline)
      ([.literal ['t'], .newline] ++ [.control .includeFile])).chunks.length = 1 := by decide
  have hbegins : Begins (r.context {} outline) (r.tokens {}) [.literal ['t'], .newline]
      [.control .includeFile, .literal [' ', 'a']]
      ((readTo (r.context {} outline)
        ([.literal ['t'], .newline] ++ [.control .includeFile])).chunks.length + 1) 0 := by
    rw [hlength]
    exact ⟨by decide, .more (.first rfl) rfl, by decide, by decide⟩
  have horigin : Origin {} outline r 2 0 inner before phrase := by
    have hincluded := Origin.included hbegins hincludes hinner
    rwa [hlength] at hincluded
  have hcommand : (chunks[2]?.bind fun c => c.commands[0]?).map Command.body =
      some (.reference "m") := by decide
  obtain ⟨k, hk, hbody⟩ := Option.map_eq_some_iff.mp hcommand
  obtain ⟨c, hc, hk⟩ := Option.bind_eq_some_iff.mp hk
  exact ⟨hload, horigin, c, k, hc, hk, hbody,
    ((load_location hload).2 2 c 0 k hc hk).2 inner before phrase horigin⟩

/-- A newline after a control without an operand begins the code, on the first line, and the code is
put on the second. -/
theorem load_location_late :
    let source : Source := ⟨"@d n @\x7b@|\nx@\x7d", none⟩
    let r := Reading.start ⟨[], []⟩ "m.w" source
    let before := [.control .namedChunk, .literal [' ', 'n', ' '], .control .openCode,
      .control .identifiers]
    Origin {} ⟨[], []⟩ r 1 0 r before [.newline] ∧ Token.newlines before = 0 ∧
      (load {} ⟨[], []⟩ "m.w" source).chunks = .ok [{ Chunk.ofKind .named "n" with
        options := ["n"]
        commands := [⟨.code "\nx", ⟨"m.w", 2⟩⟩]
        location := ⟨"m.w", 2⟩ }] := by
  intro source r before
  refine ⟨.own ⟨by decide, .first rfl, by decide, by decide⟩ nofun, rfl, by decide⟩

end Literate.Reader
