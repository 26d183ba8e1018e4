import Literate.Job
import Literate.Proofs.Job.Encoding
import Literate.Proofs.Text.Sorted

/-! Identifiers in the order of their making. Each is greater than those before it unless the
sequence that tells identifiers of one time apart begins anew, which it does when the clock has not
moved for so many readings. -/

namespace Literate.Job

namespace Id

section Bytes

variable {c d : Clock}

namespace Clock

/-- What identifiers are ordered by before their random bytes. -/
def rank (c : Clock) : Nat := c.time * 256 ^ 2 + c.sequence.toNat

theorem length_bytes (c : Clock) (chance : Text) : (c.bytes chance).length = 16 := by
  simp [bytes]

theorem number_bytes (h : c.time < 256 ^ 6) (chance : Text) :
    ∃ low < 256 ^ 8, number (c.bytes chance) = c.rank * 256 ^ 8 + low := by
  have hsequence : c.sequence.toNat < 256 ^ 2 := c.sequence.toNat_lt
  have hchance : ((chance.take 8 ++ List.replicate 8 0).take 8).length = 8 := by simp
  have hlow := number_lt ((chance.take 8 ++ List.replicate 8 0).take 8)
  rw [hchance] at hlow
  refine ⟨_, hlow, ?_⟩
  rw [bytes, number_append, number_append, number_bigEndian, number_bigEndian, length_bigEndian,
    hchance, Nat.mod_eq_of_lt h, Nat.mod_eq_of_lt hsequence, rank]

end Clock

theorem encode_bytes_lt (hc : c.time < 256 ^ 6) (hd : d.time < 256 ^ 6) (h : c.rank < d.rank)
    (a b : Text) : encode (c.bytes a) < encode (d.bytes b) := by
  obtain ⟨low, hlow, hnumber⟩ := Clock.number_bytes hc a
  obtain ⟨low', -, hnumber'⟩ := Clock.number_bytes hd b
  rw [encode_lt_iff (c.length_bytes a) (d.length_bytes b),
    ← number_lt_iff ((c.length_bytes a).trans (d.length_bytes b).symm), hnumber, hnumber']
  omega

end Bytes

namespace Clock

variable {c : Clock} {now : Nat} {ns : List Nat}

/-- A reading after which the sequence begins anew at the same time. -/
def Wraps (c : Clock) (now : Nat) : Prop := now ≤ c.time ∧ c.sequence.toNat = 65535

theorem tick_of_le (h : now ≤ c.time) :
    (c.tick now).time = c.time ∧
      (c.tick now).sequence.toNat = (c.sequence.toNat + 1) % 65536 := by
  rw [tick, if_pos h]
  exact ⟨rfl, UInt16.toNat_add _ _⟩

theorem tick_of_lt (h : c.time < now) : c.tick now = ⟨now, 0⟩ := by
  rw [tick, if_neg (Nat.not_le.2 h)]

theorem time_tick (c : Clock) (now : Nat) : (c.tick now).time = max c.time now := by
  rcases Nat.lt_or_ge c.time now with h | h
  · rw [tick_of_lt h, Nat.max_eq_right h.le]
  · rw [(tick_of_le h).1, Nat.max_eq_left h]

theorem rank_lt_tick (h : ¬c.Wraps now) : c.rank < (c.tick now).rank := by
  have hsequence : c.sequence.toNat < 65536 := c.sequence.toNat_lt
  rcases Nat.lt_or_ge c.time now with hnow | hnow
  · have hanew : (c.tick now).rank = now * 256 ^ 2 := by simp [tick_of_lt hnow, rank]
    rw [hanew, rank]
    omega
  · obtain ⟨htime, hnext⟩ := tick_of_le hnow
    have hroom : c.sequence.toNat ≠ 65535 := fun hlast => h ⟨hnow, hlast⟩
    rw [rank, rank, htime, hnext]
    omega

theorem rank_tick_lt (h : c.Wraps now) : (c.tick now).rank < c.rank := by
  obtain ⟨htime, hnext⟩ := tick_of_le h.1
  rw [rank, rank, htime, hnext, h.2]
  omega

/-- No reading makes the sequence begin anew. -/
def Steady : Clock → List Nat → Prop
  | _, [] => True
  | c, now :: rest => ¬c.Wraps now ∧ (c.tick now).Steady rest

/-- The clock after some readings. -/
def after (c : Clock) (ns : List Nat) : Clock := ns.foldl (fun c now => c.tick now) c

theorem steady_iff : c.Steady ns ↔
    ∀ before now rest, ns = before ++ now :: rest → ¬(c.after before).Wraps now := by
  induction ns generalizing c with
  | nil => simp [Steady]
  | cons n ns ih =>
    rw [Steady, ih]
    constructor
    · rintro ⟨hfirst, hrest⟩ before now rest h
      cases before with
      | nil =>
        cases h
        exact hfirst
      | cons b before =>
        cases h
        exact hrest before now rest rfl
    · intro h
      exact ⟨h [] n ns rfl, fun before now rest hns => h (n :: before) now rest (by simp [hns])⟩

theorem time_after_lt (c : Clock) (ns : List Nat) {now : Nat} :
    (c.after ns).time < now ↔ c.time < now ∧ ∀ n ∈ ns, n < now := by
  induction ns generalizing c with
  | nil => simp [after]
  | cons n ns ih =>
    have hnext : c.after (n :: ns) = (c.tick n).after ns := rfl
    rw [hnext, ih, time_tick, Nat.max_lt, List.forall_mem_cons, and_assoc]

/-- While no reading passes the time, the sequence counts them. -/
theorem after_of_le (h : ∀ n ∈ ns, n ≤ c.time) : (c.after ns).time = c.time ∧
    (c.after ns).sequence.toNat = (c.sequence.toNat + ns.length) % 65536 := by
  induction ns generalizing c with
  | nil => exact ⟨rfl, (Nat.mod_eq_of_lt c.sequence.toNat_lt).symm⟩
  | cons n ns ih =>
    obtain ⟨htime, hsequence⟩ := tick_of_le (h n (by simp))
    have hrest := ih (c := c.tick n) fun m hm => htime ▸ h m (by simp [hm])
    rw [htime, hsequence] at hrest
    refine ⟨hrest.1, hrest.2.trans ?_⟩
    rw [List.length_cons]
    omega

/-- The sequence counts readings just before that did not pass the time. -/
theorem exists_stretch (ns : List Nat) : ∃ early late, ns = early ++ late ∧
    late.length = (Clock.after {} ns).sequence.toNat ∧
    ∀ n ∈ late, n ≤ (Clock.after {} early).time := by
  induction ns using List.reverseRecOn with
  | nil => exact ⟨[], [], rfl, rfl, by simp⟩
  | append_singleton ns now ih =>
    obtain ⟨early, late, rfl, hlength, hlate⟩ := ih
    have hnext : Clock.after {} (early ++ late ++ [now]) =
        (Clock.after {} (early ++ late)).tick now := List.foldl_append
    have htime : (Clock.after {} (early ++ late)).time = (Clock.after {} early).time := by
      have hsplit : Clock.after {} (early ++ late) = (Clock.after {} early).after late :=
        List.foldl_append
      rw [hsplit, (after_of_le hlate).1]
    have hanew : (Clock.after {} (early ++ late ++ [now])).sequence.toNat = 0 →
        ∃ early' late', early ++ late ++ [now] = early' ++ late' ∧
          late'.length = (Clock.after {} (early ++ late ++ [now])).sequence.toNat ∧
          ∀ n ∈ late', n ≤ (Clock.after {} early').time :=
      fun hzero => ⟨early ++ late ++ [now], [], by simp, hzero.symm, by simp⟩
    rcases Nat.lt_or_ge (Clock.after {} (early ++ late)).time now with hnow | hnow
    · exact hanew (by rw [hnext, tick_of_lt hnow]; rfl)
    · obtain ⟨-, hsequence⟩ := tick_of_le hnow
      rw [← hnext, ← hlength] at hsequence
      by_cases hlast : late.length = 65535
      · exact hanew (by rw [hsequence, hlast])
      · have hroom : late.length < 65536 := hlength ▸ UInt16.toNat_lt _
        refine ⟨early, late ++ [now], by simp, ?_, ?_⟩
        · rw [hsequence, List.length_append, List.length_singleton]
          omega
        · intro n hn
          rcases List.mem_append.1 hn with hn | hn
          · exact hlate n hn
          · rw [List.mem_singleton.1 hn, ← htime]
            exact hnow

end Clock

/-- Of any 65536 readings in a row one is later than the start of the clock and all readings before
them. -/
def Advancing (ns : List Nat) : Prop :=
  ∀ before stretch rest, ns = before ++ stretch ++ rest → stretch.length = 65536 →
    ∃ now ∈ stretch, 0 < now ∧ ∀ earlier ∈ before, earlier < now

theorem steady_iff_advancing {ns : List Nat} : Clock.Steady {} ns ↔ Advancing ns := by
  rw [Clock.steady_iff]
  constructor
  · intro hsteady before stretch rest hns hlength
    by_contra hnone
    have hstalled : ∀ n ∈ stretch, n ≤ (Clock.after {} before).time := by
      intro n hn
      by_contra hlate
      exact hnone ⟨n, hn, (Clock.time_after_lt {} before).1 (Nat.not_le.1 hlate)⟩
    -- the sequence is used up after so many readings of the stretch
    have hused : (Clock.after {} before).sequence.toNat < 65536 := UInt16.toNat_lt _
    obtain ⟨counted, left, rfl, hcounted⟩ : ∃ counted left, stretch = counted ++ left ∧
        counted.length = 65535 - (Clock.after {} before).sequence.toNat :=
      ⟨_, _, (List.take_append_drop _ stretch).symm, List.length_take_of_le (by omega)⟩
    obtain ⟨now, left, rfl⟩ : ∃ now more, left = now :: more :=
      List.exists_cons_of_length_pos (by rw [List.length_append] at hlength; omega)
    have hcountedLate : ∀ n ∈ counted, n ≤ (Clock.after {} before).time := fun n hn =>
      hstalled n (by simp [hn])
    obtain ⟨htime, hsequence⟩ := Clock.after_of_le hcountedLate
    have hafter : Clock.after {} (before ++ counted) = (Clock.after {} before).after counted :=
      List.foldl_append
    rw [← hafter] at htime hsequence
    refine hsteady (before ++ counted) now (left ++ rest) (by simp [hns]) ⟨?_, ?_⟩
    · rw [htime]
      exact hstalled now (by simp)
    · rw [hsequence, hcounted]
      omega
  · rintro hadvancing before now rest rfl ⟨hnow, hlast⟩
    obtain ⟨early, late, rfl, hlength, hlate⟩ := Clock.exists_stretch before
    have hafter : Clock.after {} (early ++ late) = (Clock.after {} early).after late :=
      List.foldl_append
    have htime : (Clock.after {} (early ++ late)).time = (Clock.after {} early).time := by
      rw [hafter, (Clock.after_of_le hlate).1]
    obtain ⟨n, hn, hpasses⟩ := hadvancing early (late ++ [now]) rest (by simp)
      (by rw [List.length_append, hlength, hlast, List.length_singleton])
    have hstalled : n ≤ (Clock.after {} early).time := by
      rcases List.mem_append.1 hn with hn | hn
      · exact hlate n hn
      · rw [List.mem_singleton.1 hn, ← htime]
        exact hnow
    exact Nat.not_lt.2 hstalled ((Clock.time_after_lt {} early).2 hpasses)

/-- An identifier, and those that are made after it. -/
theorem isChain_series_iff {readings : List (Nat × Text)} (h : ∀ r ∈ readings, r.1 < 256 ^ 6)
    {c : Clock} (hc : c.time < 256 ^ 6) (chance : Text) :
    (encode (c.bytes chance) :: series readings c).IsChain (· < ·) ↔
      c.Steady (readings.map Prod.fst) := by
  induction readings generalizing c chance with
  | nil => simp [series, Clock.Steady]
  | cons r readings ih =>
    obtain ⟨now, random⟩ := r
    have hnow : (c.tick now).time < 256 ^ 6 := by
      rw [Clock.time_tick]
      exact Nat.max_lt.2 ⟨hc, h _ List.mem_cons_self⟩
    have hseries : series ((now, random) :: readings) c =
        encode ((c.tick now).bytes random) :: series readings (c.tick now) := rfl
    have hfirst : encode (c.bytes chance) < encode ((c.tick now).bytes random) ↔
        ¬c.Wraps now := by
      constructor
      · intro hlt hwraps
        exact List.lt_asymm hlt (encode_bytes_lt hnow hc (Clock.rank_tick_lt hwraps) _ _)
      · exact fun hsteady => encode_bytes_lt hc hnow (Clock.rank_lt_tick hsteady) _ _
    rw [hseries, List.isChain_cons_cons, hfirst, ih (fun r hr => h r (by simp [hr])) hnow]
    rfl

/-- Identifiers ascend exactly if the clock advances often enough. -/
theorem pairwise_series_iff {readings : List (Nat × Text)} (h : ∀ r ∈ readings, r.1 < 256 ^ 6) :
    (series readings {}).Pairwise (· < ·) ↔ Advancing (readings.map Prod.fst) := by
  rw [← steady_iff_advancing, ← isChain_series_iff h (c := {}) (by decide) []]
  rw [← List.isChain_iff_pairwise]
  cases readings with
  | nil => simp [series]
  | cons r readings =>
    have hstart : ¬Clock.Wraps {} r.1 := fun hwraps => absurd hwraps.2 (by decide)
    have htime : (Clock.tick r.1 {}).time < 256 ^ 6 := by
      rw [Clock.time_tick]
      exact Nat.max_lt.2 ⟨by decide, h r List.mem_cons_self⟩
    have hfirst := encode_bytes_lt (c := {}) (by decide) htime (Clock.rank_lt_tick hstart) [] r.2
    exact (List.isChain_cons_cons.trans (and_iff_right hfirst)).symm

end Id

namespace Store

variable {s : Store} {j k : Job}

theorem mem_put : k ∈ (s.put j).jobs ↔ k ∈ s.jobs ∧ k.id ≠ j.id ∨ k = j := by
  unfold put
  dsimp only
  split
  next hold =>
    obtain ⟨i, hi, hid⟩ := List.any_eq_true.1 hold
    simp only [List.mem_map]
    constructor
    · rintro ⟨l, hl, rfl⟩
      by_cases hsame : l.id = j.id
      · exact .inr (by simp [hsame])
      · exact .inl (by simpa [hsame] using hl)
    · rintro (⟨hk, hne⟩ | rfl)
      · exact ⟨k, hk, by simp [hne]⟩
      · exact ⟨i, hi, if_pos hid⟩
  next hnew =>
    have hothers : k ∈ s.jobs → k.id ≠ j.id := by
      rintro hk hsame
      exact hnew (List.any_eq_true.2 ⟨k, hk, by simp [hsame]⟩)
    simp only [List.mem_append, List.mem_singleton]
    exact or_congr_left (and_iff_left_of_imp hothers).symm

theorem ids_put : (s.put j).jobs.map Job.id = collect (s.jobs.map Job.id) j.id := by
  have hkept : Job.id ∘ (fun k => if (k.id == j.id) = true then j else k) = Job.id := by
    funext k
    by_cases hk : k.id = j.id <;> simp [hk]
  unfold put collect
  dsimp only
  split
  next hold =>
    obtain ⟨i, hi, hid⟩ := List.any_eq_true.1 hold
    rw [if_pos (List.mem_map.2 ⟨i, hi, eq_of_beq hid⟩), List.map_map, hkept]
  next hnew =>
    have hmem : j.id ∉ s.jobs.map Job.id := by
      intro hmem
      obtain ⟨i, hi, hid⟩ := List.mem_map.1 hmem
      exact hnew (List.any_eq_true.2 ⟨i, hi, beq_iff_eq.2 hid⟩)
    rw [if_neg hmem, List.map_append, List.map_singleton]

section Stored

variable {stored : List Job}

theorem nodup_ids_foldl_put (stored : List Job) :
    ((stored.foldl put {}).jobs.map Job.id).Nodup := by
  have hids : ∀ s : Store, (stored.foldl put s).jobs.map Job.id =
      (stored.map Job.id).foldl collect (s.jobs.map Job.id) := by
    induction stored with
    | nil => exact fun _ => rfl
    | cons j stored ih => exact fun s => by rw [List.foldl_cons, ih, ids_put]; rfl
  rw [hids]
  exact nodup_foldl_collect List.nodup_nil

/-- Where no two jobs have one identifier the store holds all that was put into it. -/
theorem mem_foldl_put (h : ∀ i ∈ stored, ∀ j ∈ stored, i.id = j.id → i = j) :
    k ∈ (stored.foldl put {}).jobs ↔ k ∈ stored := by
  induction stored using List.reverseRecOn with
  | nil => simp
  | append_singleton stored j ih =>
    have hrest := ih fun a ha b hb => h a (by simp [ha]) b (by simp [hb])
    rw [List.foldl_append, List.foldl_cons, List.foldl_nil, mem_put, hrest, List.mem_append,
      List.mem_singleton]
    constructor
    · rintro (⟨hk, -⟩ | rfl)
      · exact .inl hk
      · exact .inr rfl
    · rintro (hk | rfl)
      · by_cases hid : k.id = j.id
        · exact .inr (h k (by simp [hk]) j (by simp) hid)
        · exact .inl ⟨hk, hid⟩
      · exact .inr rfl

theorem pairwise_list (h : (s.jobs.map Job.id).Nodup) :
    s.list.Pairwise fun a b => a.id < b.id := by
  have hle : s.list.Pairwise fun a b => Text.le a.id b.id = true := by
    apply List.pairwise_mergeSort
    · intro a b c hab hbc
      exact decide_eq_true (List.le_trans (of_decide_eq_true hab) (of_decide_eq_true hbc))
    · intro a b
      simpa [Text.le] using List.le_total a.id b.id
  have hne : s.list.Pairwise fun a b => a.id ≠ b.id :=
    List.pairwise_map.1 (((List.mergeSort_perm s.jobs _).map Job.id).nodup_iff.2 h)
  exact (hle.and hne).imp fun h => Std.lt_of_le_of_ne (of_decide_eq_true h.1) h.2

/-- Jobs with ascending identifiers are listed in this order, in whatever order they were stored. -/
theorem list_foldl_put {kept : List Job} (hkept : kept.Pairwise fun a b => a.id < b.id)
    (h : ∀ j, j ∈ stored ↔ j ∈ kept) : (stored.foldl put {}).list = kept := by
  have hasymm : Std.Asymm fun a b : Job => a.id < b.id := ⟨fun _ _ => List.lt_asymm⟩
  have hunique : ∀ i ∈ stored, ∀ j ∈ stored, i.id = j.id → i = j := by
    have hnodup : (kept.map Job.id).Nodup := List.pairwise_map.2 (hkept.imp Std.ne_of_lt)
    exact fun i hi j hj => List.inj_on_of_nodup_map hnodup ((h i).1 hi) ((h j).1 hj)
  refine eq_of_pairwise_of_mem (pairwise_list (nodup_ids_foldl_put stored)) hkept fun j => ?_
  rw [← h j, ← mem_foldl_put hunique]
  exact (List.mergeSort_perm _ _).mem_iff

end Stored

end Store

namespace Id

/-- Identifiers ascend exactly if the clock, though it may stand still and run backwards, advances
once in any 65536 readings: the sequence that tells identifiers of one time apart has no more values.
Then the jobs that are stored, in whatever order, are listed in the order of their making, and the
latest of a path is the one made last. -/
theorem series_ascends (readings : List (Nat × Text)) (h : ∀ r ∈ readings, r.1 < 281474976710656) :
    ((series readings {}).Pairwise (· < ·) ↔ Advancing (readings.map Prod.fst)) ∧
    ∀ jobs : List Job, jobs.map Job.id = series readings {} → Advancing (readings.map Prod.fst) →
      ∀ kept stored : List Job, kept.Sublist jobs → (∀ j, j ∈ stored ↔ j ∈ kept) →
        let s := stored.foldl Store.put {}
        s.list = kept ∧
          ∀ path, s.latest? path = (kept.filter fun j => j.path == path).getLast? := by
  have hascends : (series readings {}).Pairwise (· < ·) ↔ Advancing (readings.map Prod.fst) :=
    pairwise_series_iff h
  refine ⟨hascends, fun jobs hjobs hadvancing kept stored hkept hstored => ?_⟩
  have hpairwise : jobs.Pairwise fun a b => a.id < b.id :=
    List.pairwise_map.1 (hjobs ▸ hascends.2 hadvancing)
  have hlist := Store.list_foldl_put (hpairwise.sublist hkept) hstored
  exact ⟨hlist, fun path => by rw [Store.latest?, hlist]⟩

/-- A clock that stands still and runs backwards, and jobs stored from the last to the first. -/
theorem series_ascends_backwards :
    let readings : List (Nat × Text) := [(5, []), (5, []), (3, [])]
    (∀ r ∈ readings, r.1 < 281474976710656) ∧ Advancing (readings.map Prod.fst) ∧
      (series readings {}).Pairwise (· < ·) ∧
      ∀ jobs : List Job, jobs.map Job.id = series readings {} →
        (jobs.reverse.foldl Store.put {}).list = jobs := by
  intro readings
  have htimes : ∀ r ∈ readings, r.1 < 281474976710656 := by decide
  have hadvancing : Advancing (readings.map Prod.fst) := by
    intro before stretch rest hreadings hlength
    have htotal := congrArg List.length hreadings
    simp only [readings, List.length_map, List.length_append, List.length_cons,
      List.length_nil] at htotal
    omega
  obtain ⟨hascends, hstored⟩ := series_ascends readings htimes
  refine ⟨htimes, hadvancing, hascends.2 hadvancing, fun jobs hjobs => ?_⟩
  exact (hstored jobs hjobs hadvancing jobs jobs.reverse (List.Sublist.refl jobs)
    fun j => List.mem_reverse).1

/-- The identifiers of 65537 readings of a clock that stands still do not ascend. -/
theorem not_pairwise_series_stalled :
    (∀ r ∈ List.replicate 65537 ((1 : Nat), ([] : Text)), r.1 < 281474976710656) ∧
      ¬(series (List.replicate 65537 (1, [])) {}).Pairwise (· < ·) := by
  have htimes : ∀ r ∈ List.replicate 65537 ((1 : Nat), ([] : Text)), r.1 < 281474976710656 := by
    intro r hr
    rw [List.eq_of_mem_replicate hr]
    decide
  refine ⟨htimes, fun hpairwise => ?_⟩
  have hadvancing := (pairwise_series_iff htimes).1 hpairwise
  rw [List.map_replicate] at hadvancing
  obtain ⟨now, hnow, -, hlater⟩ := hadvancing [1] (List.replicate 65536 1) []
    (by rw [List.append_nil, List.singleton_append, ← List.replicate_succ]) List.length_replicate
  rw [List.eq_of_mem_replicate hnow] at hlater
  exact absurd (hlater 1 List.mem_cons_self) (by decide)

end Id

end Literate.Job
