import Mathlib.Data.List.Chain
import Literate.Proofs.Tangle.Expansion
import Literate.Proofs.Web.Citations

/-! Routes of references. An expansion that succeeds comes to each reference once for every route of
references that leads to it, and records what the last reference of the route cites. So what it has
recorded in the end is a list of all routes. -/

namespace Literate.Tangle

namespace Site

/-- The name of a reference command, as written. -/
def name? (w : Web) (s : Site) : Option Text :=
  (w.chunk s.chunk).commands[s.place]?.bind Command.reference?

/-- The full name that a reference command stands for. -/
def full? (w : Web) (s : Site) : Option Text :=
  (s.name? w).bind fun name => (w.resolve name).toOption

/-- A reference command stands in a definition of the full name of another. -/
def Follows (w : Web) (r s : Site) : Prop :=
  ∃ full, r.full? w = some full ∧ s.chunk ∈ w.definitions.get full

end Site

def ending (w : Web) (route : List Site) : Option Text := route.getLast?.bind (Site.full? w)

/-- A sequence of reference commands that leads to a full name. Each command after the first stands
in a definition of the full name of the command before it. -/
structure Route (w : Web) (start : Site → Prop) (full : Text) (route : List Site) : Prop where
  first : ∃ s ∈ route.head?, start s
  linked : route.IsChain (Site.Follows w)
  last : ending w route = some full

namespace Route

variable {w : Web} {start : Site → Prop} {full : Text} {route : List Site} {s : Site}

theorem ne_nil (h : Route w start full route) : route ≠ [] := by
  rintro rfl
  obtain ⟨s, hs, -⟩ := h.first
  simp at hs

theorem cons_iff : Route w start full (s :: route) ↔ start s ∧
    (route = [] ∧ s.full? w = some full ∨ ∃ m, s.full? w = some m ∧
      Route w (fun t => t.chunk ∈ w.definitions.get m) full route) := by
  cases route with
  | nil =>
    constructor
    · rintro ⟨hfirst, -, hlast⟩
      exact ⟨by simpa using hfirst, .inl ⟨rfl, hlast⟩⟩
    · rintro ⟨hs, ⟨-, hfull⟩ | ⟨m, -, hroute⟩⟩
      · exact ⟨by simpa using hs, .singleton _, hfull⟩
      · exact absurd rfl hroute.ne_nil
  | cons t route =>
    have hlast : ending w (s :: t :: route) = ending w (t :: route) := rfl
    constructor
    · rintro ⟨hfirst, hlinked, hend⟩
      obtain ⟨⟨m, hm, hdef⟩, hrest⟩ := List.isChain_cons_cons.1 hlinked
      exact ⟨by simpa using hfirst, .inr ⟨m, hm, by simpa using hdef, hrest, hend⟩⟩
    · rintro ⟨hs, ⟨hnil, -⟩ | ⟨m, hm, hroute⟩⟩
      · simp at hnil
      · refine ⟨by simpa using hs, List.isChain_cons_cons.2 ⟨⟨m, hm, ?_⟩, hroute.linked⟩, ?_⟩
        · simpa using hroute.first
        · rw [hlast, hroute.last]

theorem concat_iff (hne : route ≠ []) : Route w start full (route ++ [s]) ↔ s.full? w = some full ∧
    ∃ m, Route w start m route ∧ s.chunk ∈ w.definitions.get m := by
  obtain ⟨init, r, rfl⟩ : ∃ init r, route = init ++ [r] :=
    ⟨_, _, (List.dropLast_concat_getLast hne).symm⟩
  have hhead : (init ++ [r] ++ [s]).head? = (init ++ [r]).head? :=
    List.head?_append_of_ne_nil _ hne
  have hend : ∀ (l : List Site) (t : Site), ending w (l ++ [t]) = t.full? w := by
    simp [ending]
  constructor
  · rintro ⟨hfirst, hlinked, hlast⟩
    obtain ⟨hinit, -, hstep⟩ := List.isChain_append.1 hlinked
    obtain ⟨m, hm, hdef⟩ := hstep r (by simp) s (by simp)
    rw [hhead] at hfirst
    rw [hend] at hlast
    exact ⟨hlast, m, ⟨hfirst, hinit, by rw [hend, hm]⟩, hdef⟩
  · rintro ⟨hfull, m, hroute, hdef⟩
    have hm : r.full? w = some m := by rw [← hend init r, hroute.last]
    refine ⟨hhead ▸ hroute.first, List.isChain_append.2 ⟨hroute.linked, .singleton s, ?_⟩, ?_⟩
    · intro x hx y hy
      rw [List.getLast?_concat, Option.mem_some_iff] at hx
      rw [List.head?_cons, Option.mem_some_iff] at hy
      exact ⟨m, hx ▸ hm, hy ▸ hdef⟩
    · rw [hend, hfull]

end Route

/-- A list of all routes that start in a certain way, each once. -/
structure Lists (w : Web) (start : Site → Prop) (routes : List (List Site)) : Prop where
  nodup : routes.Nodup
  mem_iff : ∀ route, route ∈ routes ↔ ∃ full, Route w start full route

namespace Lists

variable {w : Web} {start start' : Site → Prop} {routes routes' : List (List Site)} {s : Site}

theorem congr (h : Lists w start routes)
    (hs : ∀ s, s.full? w ≠ none → (start s ↔ start' s)) : Lists w start' routes := by
  refine ⟨h.nodup, fun route => (h.mem_iff route).trans (exists_congr fun full => ?_)⟩
  cases route with
  | nil => exact ⟨fun h => absurd rfl h.ne_nil, fun h => absurd rfl h.ne_nil⟩
  | cons s route =>
    rw [Route.cons_iff, Route.cons_iff]
    refine and_congr_left fun hrest => hs s ?_
    rcases hrest with ⟨-, hfull⟩ | ⟨m, hm, -⟩
    · simp [hfull]
    · simp [hm]

theorem append (h : Lists w start routes) (h' : Lists w start' routes')
    (hdisjoint : ∀ s, start s → ¬start' s) :
    Lists w (fun s => start s ∨ start' s) (routes ++ routes') := by
  constructor
  · refine List.nodup_append.2 ⟨h.nodup, h'.nodup, ?_⟩
    rintro route hr _ hr' rfl
    obtain ⟨full, hroute⟩ := (h.mem_iff route).1 hr
    obtain ⟨full', hroute'⟩ := (h'.mem_iff route).1 hr'
    obtain ⟨s, hs, hstart⟩ := hroute.first
    obtain ⟨t, ht, hstart'⟩ := hroute'.first
    obtain rfl : s = t := Option.mem_unique hs ht
    exact hdisjoint s hstart hstart'
  · intro route
    rw [List.mem_append, h.mem_iff, h'.mem_iff, ← exists_or]
    refine exists_congr fun full => ?_
    cases route with
    | nil => exact ⟨fun h => h.elim (absurd rfl ·.ne_nil) (absurd rfl ·.ne_nil),
        fun h => absurd rfl h.ne_nil⟩
    | cons s route => simp only [Route.cons_iff, or_and_right]

theorem empty (hstart : ∀ s, s.full? w ≠ none → ¬start s) : Lists w start [] := by
  have hnone : Lists w (fun _ => False) [] := by
    refine ⟨List.nodup_nil, fun route => ?_⟩
    simp only [List.not_mem_nil, false_iff, not_exists]
    intro full hroute
    obtain ⟨s, -, hs⟩ := hroute.first
    exact hs
  exact hnone.congr fun s hs => by simp [hstart s hs]

theorem cons {m : Text} (hm : s.full? w = some m)
    (h : Lists w (fun t => t.chunk ∈ w.definitions.get m) routes) :
    Lists w (· = s) ([s] :: routes.map (s :: ·)) := by
  have hnil : [] ∉ routes := by
    intro hmem
    obtain ⟨full, hroute⟩ := (h.mem_iff []).1 hmem
    exact hroute.ne_nil rfl
  constructor
  · refine List.nodup_cons.2 ⟨by simpa using hnil, h.nodup.map fun a b hab => ?_⟩
    exact (List.cons.inj hab).2
  · intro route
    cases route with
    | nil => simpa using fun full (hroute : Route w (· = s) full []) => hroute.ne_nil rfl
    | cons t route =>
      simp only [Route.cons_iff, List.mem_cons, List.cons.injEq, List.mem_map]
      constructor
      · rintro (⟨rfl, rfl⟩ | ⟨rest, hrest, rfl, rfl⟩)
        · exact ⟨m, rfl, .inl ⟨rfl, hm⟩⟩
        · obtain ⟨full, hroute⟩ := (h.mem_iff _).1 hrest
          exact ⟨full, rfl, .inr ⟨m, hm, hroute⟩⟩
      · rintro ⟨full, rfl, ⟨rfl, -⟩ | ⟨m', hm', hroute⟩⟩
        · exact .inl ⟨rfl, rfl⟩
        · obtain rfl : m = m' := Option.some.inj (hm.symm.trans hm')
          exact .inr ⟨route, (h.mem_iff route).2 ⟨full, hroute⟩, rfl, rfl⟩

end Lists

/-- What is recorded of a route: its last command cites the definitions of its full name. -/
def citationsOf (w : Web) (route : List Site) : Citations :=
  match ending w route with
  | some full => (w.definitions.get full).map fun d => ⟨d, route.getLast?.map Site.chunk⟩
  | none => []

/-- The name that the last command of a route is written with. -/
def writtenName (w : Web) (route : List Site) : Option Text := route.getLast?.bind (Site.name? w)

/-- Routes that were recorded after others. -/
structure Records (w : Web) (routes : List (List Site)) (m n : Memory) : Prop where
  citations : n.citations = m.citations ++ routes.flatMap (citationsOf w)
  names : n.names = (routes.filterMap (writtenName w)).foldl collect m.names

namespace Records

variable {w : Web} {routes routes' : List (List Site)} {m n o : Memory} {s : Site}

theorem refl (w : Web) (m : Memory) : Records w [] m m := ⟨by simp, rfl⟩

theorem trans (h : Records w routes m n) (h' : Records w routes' n o) :
    Records w (routes ++ routes') m o :=
  ⟨by rw [h'.citations, h.citations, List.flatMap_append, List.append_assoc],
    by rw [h'.names, h.names, List.filterMap_append, List.foldl_append]⟩

theorem map_cons (h : Records w routes m n) (hne : [] ∉ routes) :
    Records w (routes.map (s :: ·)) m n := by
  have hlast : ∀ route ∈ routes, (s :: route).getLast? = route.getLast? := by
    intro route hr
    cases route with
    | nil => exact absurd hr hne
    | cons t route => rfl
  constructor
  · rw [h.citations, List.flatMap_map]
    refine congrArg _ (List.flatMap_congr fun route hr => ?_)
    simp only [citationsOf, ending, hlast route hr]
  · rw [h.names, List.filterMap_map]
    refine congrArg (List.foldl collect m.names) (List.filterMap_congr fun route hr => ?_)
    simp only [Function.comp_apply, writtenName, hlast route hr]

end Records

theorem Site.full?_of_name {w : Web} {s : Site} {name full : Text} (hn : s.name? w = some name)
    (hr : w.resolve name = .ok full) : s.full? w = some full := by
  simp [Site.full?, hn, hr, Except.toOption]

namespace Step

/-- The references that the routes of a step begin with. -/
def Starts : Step → Site → Prop
  | command s _ => (· = s)
  | definition d => (·.chunk = d)

/-- No route begins in both steps. -/
def Apart (a b : Step) : Prop := ∀ s, a.Starts s → ¬b.Starts s

def Placed (w : Web) : Step → Prop
  | command s c => (w.chunk s.chunk).commands[s.place]? = some c
  | definition _ => True

theorem name?_of_placed {w : Web} {s : Site} {c : Command} (h : (command s c).Placed w) :
    s.name? w = c.reference? := by
  have hplace : (w.chunk s.chunk).commands[s.place]? = some c := h
  simp [Site.name?, hplace]

end Step

section Commands

variable {w : Web} {d : Nat}

theorem placed_of_mem_stepsOf {a : Step} (h : a ∈ stepsOf d (w.chunk d).commands) : a.Placed w := by
  obtain ⟨c, hc, rfl⟩ := List.mem_map.1 h
  exact List.mem_zipIdx_iff_getElem?.1 hc

theorem pairwise_stepsOf (d : Nat) (cs : List Command) : (stepsOf d cs).Pairwise Step.Apart := by
  have hplaces : (cs.zipIdx.map Prod.snd).Pairwise (· ≠ ·) := by
    rw [List.zipIdx_map_snd]
    exact List.nodup_range'
  refine List.pairwise_map.2 ((List.pairwise_map.1 hplaces).imp ?_)
  rintro a b hab _ rfl hb
  exact hab (Site.mk.inj hb).2

/-- The routes from a definition begin in its commands. -/
theorem starts_stepsOf {s : Site} (hs : s.full? w ≠ none) :
    (∃ a ∈ stepsOf d (w.chunk d).commands, a.Starts s) ↔ s.chunk = d := by
  constructor
  · rintro ⟨a, ha, hstart⟩
    obtain ⟨c, -, rfl⟩ := List.mem_map.1 ha
    exact congrArg Site.chunk hstart
  · rintro rfl
    cases hc : (w.chunk s.chunk).commands[s.place]? with
    | none => simp [Site.full?, Site.name?, hc] at hs
    | some c =>
      exact ⟨.command s c, List.mem_map.2 ⟨(c, s.place), List.mem_zipIdx_iff_getElem?.2 hc, rfl⟩, rfl⟩

end Commands

section Runs

variable {w : Web} {file : Text} {mark : Option Mark} {depth : Nat} {stack : List Text} {p q : Pass}

/-- A run lists the routes from some places and records them. -/
def Covers (w : Web) (start : Site → Prop) (p q : Pass) : Prop :=
  ∃ routes, Lists w start routes ∧ Records w routes p.memory q.memory

theorem Covers.congr {start start' : Site → Prop} (h : Covers w start p q)
    (hs : ∀ s, s.full? w ≠ none → (start s ↔ start' s)) : Covers w start' p q := by
  obtain ⟨routes, hlists, hrecords⟩ := h
  exact ⟨routes, hlists.congr hs, hrecords⟩

theorem Covers.singleton {a : Step} :
    Covers w (fun s => ∃ b ∈ [a], b.Starts s) p q ↔ Covers w a.Starts p q := by
  simp

/-- Expanding a reference covers the routes from it if the routes from its definitions are covered:
the reference is recorded, and then they are. -/
theorem Covers.reference {s : Site} {name full : Text} {first : Nat} {more : List Nat}
    (hs : s.name? w = some name) (hfull : w.resolve name = .ok full)
    (hdefs : w.definitions.get full = first :: more)
    (h : Covers w (fun t => t.chunk ∈ w.definitions.get full)
      (p.enter w name first more s.chunk) q) : Covers w (· = s) p q := by
  obtain ⟨routes, hlists, hrecords⟩ := h
  have hend := Site.full?_of_name hs hfull
  have hnil : [] ∉ routes := fun hmem => by
    obtain ⟨full, hroute⟩ := (hlists.mem_iff []).1 hmem
    exact hroute.ne_nil rfl
  have henter : Records w [[s]] p.memory (p.enter w name first more s.chunk).memory := by
    constructor
    · simp [citationsOf, ending, hend, hdefs, Pass.enter, Pass.indentFor, Pass.cite, Pass.memory]
    · simp [writtenName, hs, Pass.enter, Pass.indentFor, Pass.cite, Pass.memory, collect]
  exact ⟨_, .cons hend hlists, henter.trans (hrecords.map_cons hnil)⟩

/-- An expansion that succeeds covers the routes that begin in its steps. -/
theorem Expands.covers (hw : ∀ full, (w.definitions.get full).Nodup) {as : List Step}
    {e : Except Fault Unit} (h : Expands w file mark depth stack as p e q) (he : e = .ok ())
    (hplaced : ∀ a ∈ as, a.Placed w) (hapart : as.Pairwise Step.Apart) :
    Covers w (fun s => ∃ a ∈ as, a.Starts s) p q := by
  induction h with
  | nil p => exact ⟨[], .empty (by simp), .refl w _⟩
  | cons _ _ iha ihas =>
    obtain ⟨ha, has⟩ := List.forall_mem_cons.1 hplaced
    obtain ⟨hfirst, hrest⟩ := List.pairwise_cons.1 hapart
    obtain ⟨routes, hlists, hrecords⟩ := iha rfl (by simpa using ha) (List.pairwise_singleton _ _)
    obtain ⟨routes', hlists', hrecords'⟩ := ihas he has hrest
    refine ⟨routes ++ routes', ?_, hrecords.trans hrecords'⟩
    have hboth := hlists.append hlists' fun s ⟨a, ha, hsa⟩ ⟨b, hb, hsb⟩ =>
      hfirst b hb s (List.mem_singleton.1 ha ▸ hsa) hsb
    exact hboth.congr fun s _ => by simp
  | abort => cases he
  | fault => cases he
  | @code _ _ s _ _ hc p =>
    have hname : s.name? w = none := by
      simp [Step.name?_of_placed (hplaced _ (List.mem_singleton.2 rfl)), Command.reference?, hc]
    refine Covers.singleton.2 ⟨[], .empty ?_, .refl w _⟩
    rintro _ hs rfl
    simp [Site.full?, hname] at hs
  | definition _ _ ih =>
    exact Covers.singleton.2
      ((ih he (fun _ ha => placed_of_mem_stepsOf ha) (pairwise_stepsOf _ _)).congr
        fun _ => starts_stepsOf)
  | @reference _ _ s _ name full first more p q _ hc ht _ ih =>
    obtain ⟨hfull, -, hdefs, -⟩ := target_ok.mp ht
    have hname : s.name? w = some name := by
      simp [Step.name?_of_placed (hplaced _ (List.mem_singleton.2 rfl)), Command.reference?, hc]
    have hdistinct : ((first :: more).map Step.definition).Pairwise Step.Apart := by
      refine List.pairwise_map.2 ((hdefs ▸ hw full).imp ?_)
      rintro a b hab t rfl hb
      exact hab hb
    have hbelow : Covers w (fun t => t.chunk ∈ w.definitions.get full)
        (p.enter w name first more s.chunk) q :=
      (ih he (by simp [Step.Placed]) hdistinct).congr fun t _ => by simp [hdefs, Step.Starts]
    exact Covers.singleton.2 (hbelow.reference hname hfull hdefs)

end Runs

end Literate.Tangle
