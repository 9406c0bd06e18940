/-
# The calls of a file system on its tree

`unlink`, `rmdir`, `mkdir` and `rename` as a kernel has them: what each refuses and
with which reason, and the tree it leaves otherwise. A refused call leaves the tree
alone, and none takes more than one entry away.

`Refines` is what one call owes to another that stands for it, which reports success
or failure only.
-/

import FerroRemote.Math.PathTree

namespace FerroRemote

universe u v

inductive Refusal
  | missing
  | present
  | notDirectory
  | isDirectory
  | notEmpty
  | invalid
  | busy
  deriving DecidableEq, Repr

inductive TreeCall (N : Type u)
  | unlink (p : List N)
  | rmdir (p : List N)
  | mkdir (p : List N)
  | rename (src dst : List N)

namespace PathTree

variable {N : Type u} {A : Type v}

structure Found (t : PathTree N A) (p : List N) : Type where
  isDir : t.node p = some .dir

def search (t : PathTree N A) : (p : List N) → Except Refusal (t.Found p)
  | [] => .ok ⟨t.root⟩
  | n :: p =>
    match t.search p with
    | .error r => .error r
    | .ok _ =>
      if hdir : t.node (n :: p) = some .dir then .ok ⟨hdir⟩
      else if (t.node (n :: p)).isNone then .error .missing
      else .error .notDirectory

variable {t t' : PathTree N A} {p : List N}

theorem search_of_dir (hdir : t.node p = some .dir) : t.search p = .ok ⟨hdir⟩ := by
  induction p with
  | nil => rfl
  | cons n p ih =>
      have hsome : (t.node (n :: p)).isSome = true := by
        rw [hdir]
        rfl
      rw [search, ih (t.parent n p hsome)]
      exact dif_pos hdir

theorem search_of_ne_dir (hdir : t.node p ≠ some .dir) : ∃ r, t.search p = .error r := by
  cases hsearch : t.search p with
  | error r => exact ⟨r, rfl⟩
  | ok found => exact absurd found.isDir hdir

section Calls

variable [DecidableEq N]

/-- Removes an entry that is not a directory. -/
def unlink (t : PathTree N A) : List N → Except Refusal (PathTree N A)
  | [] => .error .isDirectory
  | n :: p =>
    match t.search p with
    | .error r => .error r
    | .ok _ =>
      if hdir : t.node (n :: p) = some .dir then .error .isDirectory
      else if (t.node (n :: p)).isNone then .error .missing
      else .ok (t.erase (n :: p) (List.cons_ne_nil n p) (leaf_of_ne_dir hdir))

def rmdir (t : PathTree N A) : List N → Except Refusal (PathTree N A)
  | [] => .error .busy
  | n :: p =>
    match t.search p with
    | .error r => .error r
    | .ok _ =>
      match t.node (n :: p) with
      | none => .error .missing
      | some (.file _) => .error .notDirectory
      | some .dir =>
        if hleaf : t.Leaf (n :: p) then .ok (t.erase (n :: p) (List.cons_ne_nil n p) hleaf)
        else .error .notEmpty

def mkdir (t : PathTree N A) : List N → Except Refusal (PathTree N A)
  | [] => .error .present
  | n :: p =>
    match t.search p with
    | .error r => .error r
    | .ok hdir =>
      if (t.node (n :: p)).isSome then .error .present
      else .ok (t.makeDir n p hdir.isDir)

/-- Takes an entry, with what is below it, to another place. A file may be replaced by
a file, and an empty directory by a directory. -/
def rename (t : PathTree N A) : List N → List N → Except Refusal (PathTree N A)
  | n :: p, m :: q =>
    match t.search p, t.search q with
    | .error r, _ => .error r
    | .ok _, .error r => .error r
    | .ok _, .ok hdir =>
      if (t.node (n :: p)).isNone then .error .missing
      else if n :: p = m :: q then .ok t
      else if hinside : n :: p <:+ m :: q then .error .invalid
      else if m :: q <:+ n :: p then .error .notEmpty
      else
        match t.node (n :: p), t.node (m :: q) with
        | some .dir, some (.file _) => .error .notDirectory
        | some (.file _), some .dir => .error .isDirectory
        | _, _ =>
          if t.Leaf (m :: q) then
            .ok (t.move (n :: p) (m :: q)
              ⟨List.cons_ne_nil n p, hinside, List.cons_ne_nil m q, hdir.isDir⟩)
          else .error .notEmpty
  | _, _ => .error .busy

def call (t : PathTree N A) : TreeCall N → Except Refusal (PathTree N A)
  | .unlink p => t.unlink p
  | .rmdir p => t.rmdir p
  | .mkdir p => t.mkdir p
  | .rename src dst => t.rename src dst

theorem unlink_of_file {a : A} (hp : p ≠ []) (hleaf : t.Leaf p)
    (hfile : t.node p = some (.file a)) : t.unlink p = .ok (t.erase p hp hleaf) := by
  cases p with
  | nil => exact absurd rfl hp
  | cons n p =>
      have hsome : (t.node (n :: p)).isSome = true := by
        rw [hfile]
        rfl
      have hdir : t.node (n :: p) ≠ some .dir := by
        rw [hfile]
        intro heq
        cases heq
      have hnone : ¬ (t.node (n :: p)).isNone = true := by
        rw [hfile]
        exact Bool.false_ne_true
      simp only [unlink, search_of_dir (t.parent n p hsome), dif_neg hdir, if_neg hnone]

theorem unlink_of_not_file (hfile : ∀ a, t.node p ≠ some (.file a)) :
    ∃ r, t.unlink p = .error r := by
  cases p with
  | nil => exact ⟨.isDirectory, rfl⟩
  | cons n p =>
      rw [unlink]
      cases t.search p with
      | error r => exact ⟨r, rfl⟩
      | ok found =>
          by_cases hdir : t.node (n :: p) = some .dir
          · exact ⟨.isDirectory, dif_pos hdir⟩
          · have hnone : (t.node (n :: p)).isNone = true := by
              rcases Node.cases (t.node (n :: p)) with hnode | hnode | ⟨a, hnode⟩
              · rw [hnode]
                rfl
              · exact absurd hnode hdir
              · exact absurd hnode (hfile a)
            exact ⟨.missing, by simp only [dif_neg hdir, if_pos hnone]⟩

theorem rmdir_of_empty (hp : p ≠ []) (hleaf : t.Leaf p) (hdir : t.node p = some .dir) :
    t.rmdir p = .ok (t.erase p hp hleaf) := by
  cases p with
  | nil => exact absurd rfl hp
  | cons n p =>
      have hsome : (t.node (n :: p)).isSome = true := by
        rw [hdir]
        rfl
      simp only [rmdir, search_of_dir (t.parent n p hsome), hdir, dif_pos hleaf]

theorem rmdir_of_not_empty (hempty : ¬ (p ≠ [] ∧ t.node p = some .dir ∧ t.Leaf p)) :
    ∃ r, t.rmdir p = .error r := by
  cases p with
  | nil => exact ⟨.busy, rfl⟩
  | cons n p =>
      rw [rmdir]
      cases t.search p with
      | error r => exact ⟨r, rfl⟩
      | ok found =>
          cases hnode : t.node (n :: p) with
          | none => exact ⟨.missing, rfl⟩
          | some k =>
              cases k with
              | file a => exact ⟨.notDirectory, rfl⟩
              | dir =>
                  have hleaf : ¬ t.Leaf (n :: p) :=
                    fun hleaf => hempty ⟨List.cons_ne_nil n p, hnode, hleaf⟩
                  exact ⟨.notEmpty, dif_neg hleaf⟩

/-- `mkdir` makes a directory where the name is free and there is a directory for it. -/
theorem mkdir_of_free {n : N} (hdir : t.node p = some .dir) (hfree : t.node (n :: p) = none) :
    t.mkdir (n :: p) = .ok (t.makeDir n p hdir) := by
  simp only [mkdir, search_of_dir hdir, hfree, Option.isSome_none, Bool.false_eq_true, if_false]

theorem mkdir_of_ne_dir {n : N} (hdir : t.node p ≠ some .dir) :
    ∃ r, t.mkdir (n :: p) = .error r := by
  obtain ⟨r, hsearch⟩ := search_of_ne_dir hdir
  exact ⟨r, by rw [mkdir, hsearch]⟩

theorem mkdir_of_present (hsome : (t.node p).isSome = true) : t.mkdir p = .error .present := by
  cases p with
  | nil => rfl
  | cons n p => simp only [mkdir, search_of_dir (t.parent n p hsome), if_pos hsome]

theorem unlink_eq_ok_iff : t.unlink p = .ok t' ↔
    ∃ (hp : p ≠ []) (hleaf : t.Leaf p) (a : A),
      t.node p = some (.file a) ∧ t' = t.erase p hp hleaf := by
  constructor
  · intro hok
    by_cases hfile : ∃ a, t.node p = some (.file a)
    · obtain ⟨a, hfile⟩ := hfile
      have hdir : t.node p ≠ some .dir := by
        rw [hfile]
        intro heq
        cases heq
      have hp : p ≠ [] := ne_root_of_ne_dir hdir
      rw [unlink_of_file hp (leaf_of_ne_dir hdir) hfile] at hok
      cases hok
      exact ⟨hp, leaf_of_ne_dir hdir, a, hfile, rfl⟩
    · obtain ⟨r, hrefused⟩ := unlink_of_not_file (not_exists.mp hfile)
      rw [hrefused] at hok
      cases hok
  · rintro ⟨hp, hleaf, a, hfile, rfl⟩
    exact unlink_of_file hp hleaf hfile

/-- `rmdir` succeeds on an empty directory other than the root, and then removes this
entry. -/
theorem rmdir_eq_ok_iff : t.rmdir p = .ok t' ↔
    ∃ (hp : p ≠ []) (hleaf : t.Leaf p), t.node p = some .dir ∧ t' = t.erase p hp hleaf := by
  constructor
  · intro hok
    by_cases hempty : p ≠ [] ∧ t.node p = some .dir ∧ t.Leaf p
    · obtain ⟨hp, hdir, hleaf⟩ := hempty
      rw [rmdir_of_empty hp hleaf hdir] at hok
      cases hok
      exact ⟨hp, hleaf, hdir, rfl⟩
    · obtain ⟨r, hrefused⟩ := rmdir_of_not_empty hempty
      rw [hrefused] at hok
      cases hok
  · rintro ⟨hp, hleaf, hdir, rfl⟩
    exact rmdir_of_empty hp hleaf hdir

/-- `mkdir` succeeds on a free name in a directory, and then adds this directory. -/
theorem mkdir_eq_ok_iff : t.mkdir p = .ok t' ↔
    ∃ n q, p = n :: q ∧ ∃ hdir : t.node q = some .dir,
      t.node (n :: q) = none ∧ t' = t.makeDir n q hdir := by
  constructor
  · intro hok
    cases hnode : t.node p with
    | some k =>
        rw [mkdir_of_present (by rw [hnode]; rfl)] at hok
        cases hok
    | none =>
        cases p with
        | nil =>
            rw [t.root] at hnode
            cases hnode
        | cons n q =>
            by_cases hdir : t.node q = some .dir
            · rw [mkdir_of_free hdir hnode] at hok
              cases hok
              exact ⟨n, q, rfl, hdir, hnode, rfl⟩
            · obtain ⟨r, hrefused⟩ := mkdir_of_ne_dir (n := n) hdir
              rw [hrefused] at hok
              cases hok
  · rintro ⟨n, q, rfl, hdir, hfree, rfl⟩
    exact mkdir_of_free hdir hfree

theorem rename_of_root_left (dst : List N) : t.rename [] dst = .error .busy := by
  cases dst with
  | nil => rfl
  | cons m q => rfl

theorem rename_of_root_right (src : List N) : t.rename src [] = .error .busy := by
  cases src with
  | nil => rfl
  | cons n p => rfl

/-- `rename` to the same place changes nothing, and to another one moves the entry
there, where there is nothing or a leaf. -/
theorem rename_cases {src dst : List N} (hok : t.rename src dst = .ok t') :
    (src = dst ∧ t' = t) ∨ ∃ hmovable : t.Movable src dst, (t.node src).isSome = true ∧
      ¬ dst <:+ src ∧ t.Leaf dst ∧ t' = t.move src dst hmovable := by
  cases src with
  | nil =>
      rw [rename_of_root_left] at hok
      cases hok
  | cons n p =>
      cases dst with
      | nil =>
          rw [rename_of_root_right] at hok
          cases hok
      | cons m q =>
          rw [rename] at hok
          split at hok
          · cases hok
          · cases hok
          · rename_i hdir _ _
            split_ifs at hok with hnone heq hinside hout hleaf
            · cases hok
              exact .inl ⟨heq, rfl⟩
            · split at hok
              · cases hok
              · cases hok
              · cases hok
                have hsome : (t.node (n :: p)).isSome = true := by
                  rw [← Option.ne_none_iff_isSome]
                  exact fun hnode => hnone (Option.isNone_iff_eq_none.mpr hnode)
                exact .inr ⟨⟨List.cons_ne_nil n p, hinside, List.cons_ne_nil m q, hdir.isDir⟩,
                  hsome, hout, hleaf, rfl⟩
            · split at hok
              · cases hok
              · cases hok
              · cases hok

theorem size_le_of_call {c : TreeCall N} (hok : t.call c = .ok t') : t.size ≤ t'.size + 1 := by
  cases c with
  | unlink p =>
      obtain ⟨hp, hleaf, a, hfile, rfl⟩ := unlink_eq_ok_iff.mp hok
      have hsize := size_erase hp hleaf (by rw [hfile]; rfl)
      exact Nat.le_of_eq hsize.symm
  | rmdir p =>
      obtain ⟨hp, hleaf, hdir, rfl⟩ := rmdir_eq_ok_iff.mp hok
      have hsize := size_erase hp hleaf (by rw [hdir]; rfl)
      exact Nat.le_of_eq hsize.symm
  | mkdir p =>
      obtain ⟨n, q, rfl, hdir, hfree, rfl⟩ := mkdir_eq_ok_iff.mp hok
      rw [size_makeDir hdir hfree]
      omega
  | rename src dst =>
      rcases rename_cases hok with ⟨-, rfl⟩ | ⟨hmovable, -, -, hleaf, rfl⟩
      · exact Nat.le_succ _
      · exact size_le_size_move hmovable hleaf

end Calls

/-- What is left of a tree by a request that stands for a call, and reports success or
not: a success is the call's, in anything else nothing happens, and no more than one
entry goes. `posix` is what the call does. -/
structure Refines (t : PathTree N A) (posix : Except Refusal (PathTree N A)) (success : Prop)
    (t' : PathTree N A) : Prop where
  meant : success → posix = .ok t'
  unchanged : (¬ success ∨ ∃ r, posix = .error r) → t' = t
  removes : t.size ≤ t'.size + 1

variable {posix : Except Refusal (PathTree N A)} {success : Prop}

theorem not_refines_of_refused (hsuccess : success) (hrefused : ∃ r, posix = .error r) :
    ¬ Refines t posix success t' := by
  intro hrefines
  obtain ⟨r, hrefused⟩ := hrefused
  have hmeant := hrefines.meant hsuccess
  rw [hrefused] at hmeant
  cases hmeant

theorem refines_of_failure (hfailure : ¬ success) : Refines t posix success t where
  meant := fun hsuccess => absurd hsuccess hfailure
  unchanged := fun _ => rfl
  removes := Nat.le_succ _

theorem refines_failure_iff (hfailure : ¬ success) : Refines t posix success t' ↔ t' = t := by
  constructor
  · intro hrefines
    exact hrefines.unchanged (.inl hfailure)
  · rintro rfl
    exact refines_of_failure hfailure

theorem refines_of_ok (hsuccess : success) (hposix : posix = .ok t') (hsize : t.size ≤ t'.size + 1) :
    Refines t posix success t' where
  meant := fun _ => hposix
  unchanged := by
    rintro (hfailure | ⟨r, hrefused⟩)
    · exact absurd hsuccess hfailure
    · rw [hposix] at hrefused
      cases hrefused
  removes := hsize

end PathTree

end FerroRemote
