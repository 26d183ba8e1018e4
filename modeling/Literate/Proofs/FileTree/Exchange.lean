import Literate.Proofs.FileTree.Reach

/-! Files that are written in another order. Two files at separate places can change their order, and
so can whole lists of such files; the trees are then the same. -/

namespace Literate.FileTree

open Literate.Path

variable {t u : FileTree}

theorem Same.alike (h : Same t u) (place : List Text) : Alike t u place :=
  .of_eq h.current fun q _ => h.entries q

theorem Same.placeOf (h : Same t u) (path : Text) : u.placeOf path = t.placeOf path := by
  rw [FileTree.placeOf, h.current, FileTree.placeOf]

theorem Same.sound (h : Same t u) (ht : t.Sound) : u.Sound := by
  refine ⟨fun place part hsome => ?_, fun part hpart => ht.placed.names part (h.current ▸ hpart),
    fun place hplace => ?_⟩
  · rw [h.entries] at hsome ⊢
    exact ht.closed place part hsome
  · rw [h.entries]
    exact ht.placed.directories place (h.current ▸ hplace)

/-- The tree after a file was written. -/
def write (file : Text × Text) (t : FileTree) : FileTree := (writeIfChanged file.1 file.2 t).2

theorem writeAll_append (fs gs : List (Text × Text)) (t : FileTree) :
    writeAll (fs ++ gs) t = writeAll gs (writeAll fs t) := List.foldl_append ..

section Write

variable {f g : Text × Text}

theorem touched_write (hf : IsJoined f.1) : Touched t (write f t) [t.placeOf f.1] :=
  touched_writeIfChanged hf f.2

open scoped Classical in
theorem get?_write (hf : IsJoined f.1) (ht : t.WellPlaced) {q : List Text}
    (hq : q ≠ t.placeOf f.1) :
    (write f t).get? q = if t.Reached f.1 q then some .directory else t.get? q :=
  get?_elsewhere hf ht hq f.2

theorem get?_write_self (hf : IsJoined f.1) : (write f t).get? (t.placeOf f.1) =
    if (writeIfChanged f.1 f.2 t).1.toOption.isSome then some (.file f.2)
    else t.get? (t.placeOf f.1) :=
  get?_target hf f.2

theorem Sound.write (ht : t.Sound) (hf : IsJoined f.1) : (write f t).Sound :=
  ht.writeIfChanged hf f.2

theorem Same.write (hf : IsJoined f.1) (ht : t.Sound) (h : Same t u) :
    Same (write f t) (write f u) := by
  refine ⟨?_, fun q => ?_⟩
  · rw [(touched_write hf).current, (touched_write hf).current, h.current]
  · by_cases hq : q = t.placeOf f.1
    · have hu := get?_write_self (t := u) hf
      rw [h.placeOf, (h.alike _).writeIfChanged hf, h.entries] at hu
      rw [hq, hu, get?_write_self hf]
    · have hq' : q ≠ u.placeOf f.1 := by rwa [h.placeOf]
      rw [get?_write hf (h.sound ht).placed hq', get?_write hf ht.placed hq,
        (h.alike _).reached_iff, h.entries]

theorem alike_write (ht : t.Closed) (hg : IsJoined g.1)
    (hsep : Separate (t.placeOf f.1) (t.placeOf g.1)) :
    Alike t (write g t) (t.placeOf f.1) :=
  (touched_write hg).alike ht fun w hw => by
    rw [List.mem_singleton.1 hw]
    exact hsep.symm

section Separate

variable (ht : t.Sound) (hf : IsJoined f.1) (hg : IsJoined g.1)
  (hsep : Separate (t.placeOf f.1) (t.placeOf g.1))
include ht hf hg hsep

theorem get?_write_comm :
    (write f (write g t)).get? (t.placeOf f.1) = (write g (write f t)).get? (t.placeOf f.1) := by
  have hsame := (touched_write (t := t) hf).placeOf
  have halike := alike_write ht.closed hg hsep
  have hback : Alike (write f t) (write g (write f t)) (t.placeOf f.1) := by
    rw [← hsame]
    exact alike_write (ht.write hf).closed hg (by rwa [hsame, hsame])
  have hafter := get?_write_self (t := write g t) hf
  rw [(touched_write hg).placeOf, halike.writeIfChanged hf, halike.target] at hafter
  rw [hback.target, hafter, get?_write_self hf]

/-- Two files at separate places can be written in either order. -/
theorem write_comm : Same (write f (write g t)) (write g (write f t)) := by
  refine ⟨?_, fun q => ?_⟩
  · simp only [(touched_write hf).current, (touched_write hg).current]
  · by_cases hqf : q = t.placeOf f.1
    · rw [hqf, get?_write_comm ht hf hg hsep]
    by_cases hqg : q = t.placeOf g.1
    · rw [hqg, get?_write_comm ht hg hf hsep.symm]
    have hqf' : q ≠ (write g t).placeOf f.1 := by rwa [(touched_write hg).placeOf]
    have hqg' : q ≠ (write f t).placeOf g.1 := by rwa [(touched_write hf).placeOf]
    rw [get?_write hf (ht.write hg).placed hqf', get?_write hg (ht.write hf).placed hqg',
      get?_write hf ht.placed hqf, get?_write hg ht.placed hqg,
      (alike_write ht.closed hg hsep).reached_iff, (alike_write ht.closed hf hsep.symm).reached_iff]
    split_ifs <;> rfl

end Separate

end Write

section Files

variable {f : Text × Text} {fs gs : List (Text × Text)}

/-- The files are at places of their own, apart from those of the others. -/
def Apart (t : FileTree) (fs gs : List (Text × Text)) : Prop :=
  ∀ f ∈ fs, ∀ g ∈ gs, Separate (t.placeOf f.1) (t.placeOf g.1)

instance decidableApart (t : FileTree) (fs gs : List (Text × Text)) : Decidable (Apart t fs gs) :=
  inferInstanceAs (Decidable (∀ f ∈ fs, ∀ g ∈ gs, Separate (t.placeOf f.1) (t.placeOf g.1)))

theorem Sound.writeAll (ht : t.Sound) (hfs : ∀ f ∈ fs, IsJoined f.1) : (writeAll fs t).Sound := by
  induction fs generalizing t with
  | nil => exact ht
  | cons f fs ih =>
    exact ih (ht.write (hfs f (by simp))) fun g hg => hfs g (by simp [hg])

theorem Same.writeAll (hfs : ∀ f ∈ fs, IsJoined f.1) (ht : t.Sound) (h : Same t u) :
    Same (writeAll fs t) (writeAll fs u) := by
  induction fs generalizing t u with
  | nil => exact h
  | cons f fs ih =>
    have hf := hfs f (by simp)
    exact ih (fun g hg => hfs g (by simp [hg])) (ht.write hf) (h.write hf ht)

theorem write_writeAll (ht : t.Sound) (hf : IsJoined f.1) (hgs : ∀ g ∈ gs, IsJoined g.1)
    (hsep : ∀ g ∈ gs, Separate (t.placeOf f.1) (t.placeOf g.1)) :
    Same (writeAll gs (write f t)) (write f (writeAll gs t)) := by
  induction gs generalizing t with
  | nil => exact .refl _
  | cons g gs ih =>
    have hg := hgs g (by simp)
    have hrest : ∀ g' ∈ gs, IsJoined g'.1 := fun g' hg' => hgs g' (by simp [hg'])
    have hswap : Same (write g (write f t)) (write f (write g t)) :=
      write_comm ht hg hf (hsep g (by simp)).symm
    refine (hswap.writeAll hrest ((ht.write hf).write hg)).trans (ih (ht.write hg) hrest ?_)
    simp only [(touched_write hg).placeOf]
    exact fun g' hg' => hsep g' (by simp [hg'])

theorem Apart.writeAll_comm (hsep : Apart t fs gs) (ht : t.Sound) (hfs : ∀ f ∈ fs, IsJoined f.1)
    (hgs : ∀ g ∈ gs, IsJoined g.1) :
    Same (writeAll gs (writeAll fs t)) (writeAll fs (writeAll gs t)) := by
  induction fs generalizing t with
  | nil => exact .refl _
  | cons f fs ih =>
    have hf := hfs f (by simp)
    have hrest : ∀ f' ∈ fs, IsJoined f'.1 := fun f' hf' => hfs f' (by simp [hf'])
    have hfirst : Apart (write f t) fs gs := fun f' hf' g hg => by
      simpa only [(touched_write hf).placeOf] using hsep f' (by simp [hf']) g hg
    have hmoved : Same (writeAll gs (write f t)) (write f (writeAll gs t)) :=
      write_writeAll ht hf hgs (hsep f (by simp))
    exact (ih hfirst (ht.write hf) hrest).trans
      (hmoved.writeAll hrest ((ht.write hf).writeAll hgs))

theorem Apart.symm (h : Apart t fs gs) : Apart t gs fs := fun g hg f hf => (h f hf g hg).symm

theorem Apart.of_placeOf (hsame : ∀ path, u.placeOf path = t.placeOf path) (h : Apart t fs gs) :
    Apart u fs gs := fun f hf g hg => by
  simpa only [hsame] using h f hf g hg

/-- Groups of files that are apart can be written in any order of the groups. -/
theorem writeAll_perm {α : Type} {files : α → List (Text × Text)} {js ks : List α}
    (hperm : js.Perm ks) (ht : t.Sound) (hjoined : ∀ j ∈ js, ∀ f ∈ files j, IsJoined f.1)
    (hapart : js.Pairwise fun j k => Apart t (files j) (files k)) :
    Same (writeAll (js.flatMap files) t) (writeAll (ks.flatMap files) t) := by
  induction hperm generalizing t with
  | nil => exact .refl t
  | @cons j js ks _ ih =>
    obtain ⟨-, hrest⟩ := List.pairwise_cons.1 hapart
    have hj := hjoined j (by simp)
    simp only [List.flatMap_cons, writeAll_append]
    refine ih (ht.writeAll hj) (fun k hk => hjoined k (by simp [hk])) (hrest.imp fun h => ?_)
    exact h.of_placeOf (touched_writeAll hj).placeOf
  | swap j k js =>
    obtain ⟨hkj, -⟩ := List.pairwise_cons.1 hapart
    have hj := hjoined j (by simp)
    have hk := hjoined k (by simp)
    simp only [List.flatMap_cons, writeAll_append]
    have hcomm : Same (writeAll (files j) (writeAll (files k) t))
        (writeAll (files k) (writeAll (files j) t)) :=
      (hkj j (by simp)).writeAll_comm ht hk hj
    refine hcomm.writeAll (fun f hf => ?_) ((ht.writeAll hk).writeAll hj)
    obtain ⟨i, hi, hf⟩ := List.mem_flatMap.1 hf
    exact hjoined i (by simp [hi]) f hf
  | trans hjk _ ih ih' =>
    exact (ih ht hjoined hapart).trans (ih' ht (fun k hk => hjoined k (hjk.mem_iff.2 hk))
      ((hjk.pairwise_iff Apart.symm).1 hapart))

end Files

end Literate.FileTree
