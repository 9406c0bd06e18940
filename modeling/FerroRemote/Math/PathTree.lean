/-
# Trees of directories and files

A tree says what is at each place. A place is the list of names that lead to it,
its own name first and the root being `[]`, so that a place is in the directory
that its tail is, and it is below the places that are suffixes of it. What makes
it a tree is part of it: the root is a directory, what exists is in a directory,
and there are finitely many entries.

Each operation builds a tree again, whatever it is given; when it is what a file
system call should do is another module's matter.
-/

import Mathlib.Data.Finset.Card
import Mathlib.Data.Finset.Image

namespace FerroRemote

universe u v

/-- What is at a place: a directory, or a file with its content. -/
inductive Node (A : Type v)
  | dir
  | file (content : A)
  deriving DecidableEq, Repr

instance {A : Type v} (k : Option (Node A)) : Decidable (k = some .dir) :=
  match k with
  | none => isFalse (fun heq => by cases heq)
  | some .dir => isTrue rfl
  | some (.file _) => isFalse (fun heq => by cases heq)

theorem Node.cases {A : Type v} (k : Option (Node A)) :
    k = none ∨ k = some .dir ∨ ∃ a, k = some (.file a) := by
  cases k with
  | none => exact .inl rfl
  | some k =>
      cases k with
      | dir => exact .inr (.inl rfl)
      | file a => exact .inr (.inr ⟨a, rfl⟩)

structure PathTree (N : Type u) (A : Type v) where
  node : List N → Option (Node A)
  entries : Finset (List N)
  mem_entries : ∀ p, p ∈ entries ↔ (node p).isSome = true
  root : node [] = some .dir
  parent : ∀ n p, (node (n :: p)).isSome = true → node p = some .dir

namespace PathTree

variable {N : Type u} {A : Type v}

@[ext]
theorem ext {t t' : PathTree N A} (hnode : ∀ p, t.node p = t'.node p) : t = t' := by
  obtain ⟨node, entries, hentries, _, _⟩ := t
  obtain ⟨node', entries', hentries', _, _⟩ := t'
  have hfun : node = node' := funext hnode
  subst hfun
  have hset : entries = entries' := by
    apply Finset.ext
    intro p
    rw [hentries, hentries']
  subst hset
  rfl

/-- The tree that has a root only. -/
def bare : PathTree N A where
  node p := if p.isEmpty then some .dir else none
  entries := {[]}
  mem_entries p := by
    rw [Finset.mem_singleton]
    cases p with
    | nil => exact iff_of_true rfl rfl
    | cons n p => exact iff_of_false (List.cons_ne_nil n p) Bool.false_ne_true
  root := rfl
  parent n p := fun hsome => absurd hsome Bool.false_ne_true

/-- How many entries there are, the root included. -/
def size (t : PathTree N A) : Nat := t.entries.card

/-- Nothing is in `p`. -/
def Leaf (t : PathTree N A) (p : List N) : Prop := ∀ n, t.node (n :: p) = none

/-- On the way to `p`, or at `p`, there is a file. -/
def Blocked (t : PathTree N A) (p : List N) : Prop := ∃ q a, q <:+ p ∧ t.node q = some (.file a)

variable {t : PathTree N A} {p q : List N}

theorem ne_root_of_ne_dir (hdir : t.node p ≠ some .dir) : p ≠ [] := by
  rintro rfl
  exact hdir t.root

theorem node_above (hsome : (t.node p).isSome = true) (hbelow : q <:+ p) (hne : q ≠ p) :
    t.node q = some .dir := by
  induction p with
  | nil => exact absurd (List.suffix_nil.mp hbelow) hne
  | cons n p ih =>
      have hdir : t.node p = some .dir := t.parent n p hsome
      have hbelow : q <:+ p := (List.suffix_cons_iff.mp hbelow).resolve_left hne
      by_cases heq : q = p
      · rw [heq]
        exact hdir
      · apply ih _ hbelow heq
        rw [hdir]
        rfl

theorem blocked_cons {n : N} :
    t.Blocked (n :: p) ↔ (∃ a, t.node (n :: p) = some (.file a)) ∨ t.Blocked p := by
  constructor
  · rintro ⟨q, a, hbelow, hfile⟩
    rcases List.suffix_cons_iff.mp hbelow with rfl | hbelow
    · exact .inl ⟨a, hfile⟩
    · exact .inr ⟨q, a, hbelow, hfile⟩
  · rintro (⟨a, hfile⟩ | ⟨q, a, hbelow, hfile⟩)
    · exact ⟨n :: p, a, List.suffix_rfl, hfile⟩
    · exact ⟨q, a, hbelow.trans (List.suffix_cons n p), hfile⟩

theorem Blocked.ne_dir (hblocked : t.Blocked p) : t.node p ≠ some .dir := by
  intro hdir
  obtain ⟨q, a, hbelow, hfile⟩ := hblocked
  by_cases heq : q = p
  · rw [heq, hdir] at hfile
    cases hfile
  · rw [t.node_above (by rw [hdir]; rfl) hbelow heq] at hfile
    cases hfile

/-- Below a leaf there is nothing, however deep. The induction is on what there would
be: it would be in a directory below the leaf, or in the leaf itself. -/
theorem Leaf.eq (hleaf : t.Leaf p) (hsome : (t.node q).isSome = true) (hbelow : p <:+ q) : q = p := by
  induction q with
  | nil => exact (List.suffix_nil.mp hbelow).symm
  | cons n q ih =>
      rcases List.suffix_cons_iff.mp hbelow with heq | hbelow
      · exact heq.symm
      · have hdir : (t.node q).isSome = true := by
          rw [t.parent n q hsome]
          rfl
        have heq : q = p := ih hdir hbelow
        rw [heq, hleaf n] at hsome
        exact absurd hsome Bool.false_ne_true

theorem leaf_of_ne_dir (hdir : t.node p ≠ some .dir) : t.Leaf p := by
  intro n
  by_contra hsome
  exact hdir (t.parent n p (Option.ne_none_iff_isSome.mp hsome))

section Decidable

variable [DecidableEq N]

/-- What is in `p`. -/
def children (t : PathTree N A) (p : List N) : Finset (List N) :=
  t.entries.filter fun q => q ≠ [] ∧ q.tail = p

theorem children_eq_empty_iff : t.children p = ∅ ↔ t.Leaf p := by
  rw [children, Finset.filter_eq_empty_iff]
  constructor
  · intro hchildren n
    by_contra hsome
    rw [← ne_eq, Option.ne_none_iff_isSome, ← t.mem_entries] at hsome
    exact hchildren hsome ⟨List.cons_ne_nil n p, rfl⟩
  · rintro hleaf q hq ⟨hne, htail⟩
    rw [t.mem_entries, ← List.cons_head_tail hne, htail, hleaf] at hq
    exact absurd hq Bool.false_ne_true

instance (t : PathTree N A) (p : List N) : Decidable (t.Leaf p) :=
  decidable_of_iff (t.children p = ∅) children_eq_empty_iff

/-- Without the one entry `p`. -/
def erase (t : PathTree N A) (p : List N) (hp : p ≠ []) (hleaf : t.Leaf p) : PathTree N A where
  node q := if q = p then none else t.node q
  entries := t.entries.erase p
  mem_entries q := by
    by_cases heq : q = p
    · rw [if_pos heq, heq]
      exact iff_of_false (Finset.notMem_erase p _) Bool.false_ne_true
    · rw [if_neg heq, ← t.mem_entries, Finset.mem_erase]
      exact and_iff_right heq
  root := by
    rw [if_neg hp.symm]
    exact t.root
  parent n q := by
    intro hsome
    by_cases heq : n :: q = p
    · rw [if_pos heq] at hsome
      exact absurd hsome Bool.false_ne_true
    · rw [if_neg heq] at hsome
      by_cases hq : q = p
      · rw [hq, hleaf n] at hsome
        exact absurd hsome Bool.false_ne_true
      · rw [if_neg hq]
        exact t.parent n q hsome

/-- Without anything below `p`. -/
def clear (t : PathTree N A) (p : List N) : PathTree N A where
  node q := if p <:+ q ∧ q ≠ p then none else t.node q
  entries := t.entries.filter fun q => ¬ (p <:+ q ∧ q ≠ p)
  mem_entries q := by
    rw [Finset.mem_filter, t.mem_entries]
    by_cases hbelow : p <:+ q ∧ q ≠ p
    · rw [if_pos hbelow]
      exact iff_of_false (fun hmem => hmem.2 hbelow) Bool.false_ne_true
    · rw [if_neg hbelow]
      exact and_iff_left hbelow
  root := by
    rw [if_neg (fun hbelow => hbelow.2 (List.suffix_nil.mp hbelow.1).symm)]
    exact t.root
  parent n q := by
    intro hsome
    by_cases hbelow : p <:+ n :: q ∧ n :: q ≠ p
    · rw [if_pos hbelow] at hsome
      exact absurd hsome Bool.false_ne_true
    · have hkept : ¬ (p <:+ q ∧ q ≠ p) := by
        rintro ⟨hq, -⟩
        apply hbelow
        refine ⟨hq.trans (List.suffix_cons n q), ?_⟩
        rintro rfl
        exact absurd hq.length_le (Nat.not_succ_le_self _)
      rw [if_neg hbelow] at hsome
      rw [if_neg hkept]
      exact t.parent n q hsome

theorem node_erase (hp : p ≠ []) (hleaf : t.Leaf p) (q : List N) :
    (t.erase p hp hleaf).node q = if q = p then none else t.node q := rfl

theorem node_clear (p q : List N) :
    (t.clear p).node q = if p <:+ q ∧ q ≠ p then none else t.node q := rfl

theorem node_clear_self (p : List N) : (t.clear p).node p = t.node p := by
  rw [node_clear, if_neg (fun hbelow => hbelow.2 rfl)]

theorem leaf_clear (t : PathTree N A) (p : List N) : (t.clear p).Leaf p := by
  intro n
  have hne : n :: p ≠ p := by
    intro heq
    exact absurd (congrArg List.length heq) (Nat.succ_ne_self _)
  rw [node_clear, if_pos ⟨List.suffix_cons n p, hne⟩]

theorem clear_eq_self_iff : t.clear p = t ↔ t.Leaf p := by
  constructor
  · intro heq
    rw [← heq]
    exact leaf_clear t p
  · intro hleaf
    ext q : 1
    rw [node_clear]
    by_cases hbelow : p <:+ q ∧ q ≠ p
    · rw [if_pos hbelow]
      by_contra hsome
      exact hbelow.2 (hleaf.eq (Option.ne_none_iff_isSome.mp (Ne.symm hsome)) hbelow.1)
    · rw [if_neg hbelow]

theorem size_erase (hp : p ≠ []) (hleaf : t.Leaf p) (hsome : (t.node p).isSome = true) :
    (t.erase p hp hleaf).size + 1 = t.size :=
  Finset.card_erase_add_one ((t.mem_entries p).mpr hsome)

theorem erase_clear (hp : p ≠ []) (hleaf : t.Leaf p) :
    (t.clear p).erase p hp (leaf_clear t p) = t.erase p hp hleaf := by
  ext q : 1
  rw [node_erase, node_erase, clear_eq_self_iff.mpr hleaf]

theorem erase_ne_self (hp : p ≠ []) (hleaf : t.Leaf p) (hsome : (t.node p).isSome = true) :
    t.erase p hp hleaf ≠ t := by
  intro heq
  rw [← heq, node_erase, if_pos rfl] at hsome
  exact Bool.false_ne_true hsome

/-- With a directory `n` in `p`. -/
def makeDir (t : PathTree N A) (n : N) (p : List N) (hdir : t.node p = some .dir) : PathTree N A where
  node q := if q = n :: p then some .dir else t.node q
  entries := insert (n :: p) t.entries
  mem_entries q := by
    rw [Finset.mem_insert, t.mem_entries]
    by_cases heq : q = n :: p
    · rw [if_pos heq]
      exact iff_of_true (.inl heq) rfl
    · rw [if_neg heq]
      exact or_iff_right heq
  root := by
    rw [if_neg (List.cons_ne_nil n p).symm]
    exact t.root
  parent m q := by
    intro hsome
    have hq : t.node q = some .dir := by
      by_cases heq : m :: q = n :: p
      · rw [(List.cons.inj heq).2]
        exact hdir
      · rw [if_neg heq] at hsome
        exact t.parent m q hsome
    rw [hq]
    exact ite_self _

theorem node_makeDir (n : N) (hdir : t.node p = some .dir) (q : List N) :
    (t.makeDir n p hdir).node q = if q = n :: p then some .dir else t.node q := rfl

theorem size_makeDir {n : N} (hdir : t.node p = some .dir) (hnone : t.node (n :: p) = none) :
    (t.makeDir n p hdir).size = t.size + 1 := by
  apply Finset.card_insert_of_notMem
  rw [t.mem_entries, hnone]
  exact Bool.false_ne_true

/-- Where a place is once what is at `src`, and below, has gone to `dst`. -/
def relocate (src dst : List N) : List N → List N
  | [] => if [] = src then dst else []
  | n :: p => if n :: p = src then dst else n :: relocate src dst p

theorem relocate_append (src dst p : List N) : relocate src dst (p ++ src) = p ++ dst := by
  induction p with
  | nil =>
      cases src with
      | nil => exact if_pos rfl
      | cons n src => exact if_pos rfl
  | cons n p ih =>
      have hne : n :: (p ++ src) ≠ src := by
        intro heq
        have hlength := congrArg List.length heq
        rw [List.length_cons, List.length_append] at hlength
        omega
      rw [List.cons_append, relocate, if_neg hne, ih, List.cons_append]

theorem relocate_of_not_below {src : List N} (hbelow : ¬ src <:+ p) (dst : List N) :
    relocate src dst p = p := by
  induction p with
  | nil =>
      have hne : [] ≠ src := by
        rintro rfl
        exact hbelow List.suffix_rfl
      exact if_neg hne
  | cons n p ih =>
      rw [List.suffix_cons_iff, not_or] at hbelow
      rw [relocate, if_neg (Ne.symm hbelow.1), ih hbelow.2]

/-- The file system can take what is at `src` to `dst`: not into itself, and where
there is a directory for it. -/
structure Movable (t : PathTree N A) (src dst : List N) : Prop where
  notRoot : src ≠ []
  notInside : ¬ src <:+ dst
  dstNotRoot : dst ≠ []
  parent : t.node dst.tail = some .dir

section Move

variable {src dst : List N}

/-- What is at a place after the move: nothing where it was, and elsewhere what was
at the place that it has come from. -/
def moved (t : PathTree N A) (src dst p : List N) : Option (Node A) :=
  if src <:+ p ∧ ¬ dst <:+ p then none else t.node (relocate dst src p)

theorem moved_append (src dst p : List N) : t.moved src dst (p ++ dst) = t.node (p ++ src) := by
  rw [moved, if_neg (fun hgone => hgone.2 (List.suffix_append p dst)), relocate_append]

theorem moved_of_not_below (hsrc : ¬ src <:+ p) (hdst : ¬ dst <:+ p) :
    t.moved src dst p = t.node p := by
  rw [moved, if_neg (fun hgone => hsrc hgone.1), relocate_of_not_below hdst]

theorem moved_vacated (hsrc : src <:+ p) (hdst : ¬ dst <:+ p) : t.moved src dst p = none :=
  if_pos ⟨hsrc, hdst⟩

/-- What is somewhere after the move was an entry before, at its place or at one that
is taken there. -/
theorem moved_bound (hsome : (t.moved src dst p).isSome = true) :
    p ∈ t.entries ∪ t.entries.image (relocate src dst) := by
  rw [Finset.mem_union, Finset.mem_image]
  by_cases hdst : dst <:+ p
  · obtain ⟨r, rfl⟩ := hdst
    rw [moved_append] at hsome
    exact .inr ⟨r ++ src, (t.mem_entries _).mpr hsome, relocate_append src dst r⟩
  · by_cases hsrc : src <:+ p
    · rw [moved_vacated hsrc hdst] at hsome
      exact absurd hsome Bool.false_ne_true
    · rw [moved_of_not_below hsrc hdst] at hsome
      exact .inl ((t.mem_entries p).mpr hsome)

theorem moved_root (hmovable : t.Movable src dst) : t.moved src dst [] = some .dir := by
  rw [moved_of_not_below, t.root]
  · exact fun hbelow => hmovable.notRoot (List.suffix_nil.mp hbelow)
  · exact fun hbelow => hmovable.dstNotRoot (List.suffix_nil.mp hbelow)

/-- A name that is there after the move is in a directory. The cases are where it is:
the moved entry itself, below it, or anywhere else. -/
theorem moved_parent (hmovable : t.Movable src dst) (n : N)
    (hsome : (t.moved src dst (n :: p)).isSome = true) : t.moved src dst p = some .dir := by
  by_cases heq : n :: p = dst
  · have hsrc : ¬ src <:+ p := by
      intro hbelow
      exact hmovable.notInside (heq ▸ hbelow.trans (List.suffix_cons n p))
    have hdst : ¬ dst <:+ p := by
      intro hbelow
      have hlength := hbelow.length_le
      rw [← heq, List.length_cons] at hlength
      exact absurd hlength (Nat.not_succ_le_self _)
    have hdir := hmovable.parent
    rw [← heq, List.tail_cons] at hdir
    rw [moved_of_not_below hsrc hdst, hdir]
  · by_cases hdst : dst <:+ p
    · obtain ⟨r, rfl⟩ := hdst
      rw [← List.cons_append, moved_append, List.cons_append] at hsome
      rw [moved_append]
      exact t.parent n _ hsome
    · have hdst' : ¬ dst <:+ n :: p := by
        rw [List.suffix_cons_iff, not_or]
        exact ⟨Ne.symm heq, hdst⟩
      by_cases hsrc : src <:+ n :: p
      · rw [moved_vacated hsrc hdst'] at hsome
        exact absurd hsome Bool.false_ne_true
      · rw [moved_of_not_below hsrc hdst'] at hsome
        rw [moved_of_not_below (fun hbelow => hsrc (hbelow.trans (List.suffix_cons n p))) hdst]
        exact t.parent n p hsome

/-- With what was at `src`, and below, at `dst` instead of what was there. -/
def move (t : PathTree N A) (src dst : List N) (hmovable : t.Movable src dst) : PathTree N A where
  node := t.moved src dst
  entries := (t.entries ∪ t.entries.image (relocate src dst)).filter
    fun p => (t.moved src dst p).isSome = true
  mem_entries p := by
    rw [Finset.mem_filter]
    exact and_iff_right_of_imp moved_bound
  root := moved_root hmovable
  parent n _ := moved_parent hmovable n

theorem move_ne_self (hmovable : t.Movable src dst) (hsome : (t.node src).isSome = true)
    (hout : ¬ dst <:+ src) : t.move src dst hmovable ≠ t := by
  intro heq
  have hvacated : (t.move src dst hmovable).node src = none :=
    moved_vacated List.suffix_rfl hout
  rw [heq] at hvacated
  rw [hvacated] at hsome
  exact Bool.false_ne_true hsome

/-- An entry that is not overwritten is there after the move, where it has gone. -/
theorem moved_relocate (hkept : ¬ dst <:+ p) :
    t.moved src dst (relocate src dst p) = t.node p := by
  by_cases hsrc : src <:+ p
  · obtain ⟨r, rfl⟩ := hsrc
    rw [relocate_append, moved_append]
  · rw [relocate_of_not_below hsrc, moved_of_not_below hsrc hkept]

theorem relocate_inj (hp : ¬ dst <:+ p) (hq : ¬ dst <:+ q)
    (heq : relocate src dst p = relocate src dst q) : p = q := by
  by_cases hsrc : src <:+ p
  · obtain ⟨r, rfl⟩ := hsrc
    rw [relocate_append] at heq
    by_cases hsrc' : src <:+ q
    · obtain ⟨r', rfl⟩ := hsrc'
      rw [relocate_append] at heq
      rw [List.append_cancel_right heq]
    · rw [relocate_of_not_below hsrc'] at heq
      exact absurd (heq ▸ List.suffix_append r dst) hq
  · rw [relocate_of_not_below hsrc] at heq
    by_cases hsrc' : src <:+ q
    · obtain ⟨r', rfl⟩ := hsrc'
      rw [relocate_append] at heq
      exact absurd (heq ▸ List.suffix_append r' dst) hp
    · rw [relocate_of_not_below hsrc'] at heq
      exact heq

/-- A move onto a leaf costs one entry at most, the leaf: every other entry is still
there, at its place or at the one it has been taken to. -/
theorem size_le_size_move (hmovable : t.Movable src dst) (hleaf : t.Leaf dst) :
    t.size ≤ (t.move src dst hmovable).size + 1 := by
  have hkept : ∀ p ∈ t.entries.erase dst, ¬ dst <:+ p := by
    intro p hp hbelow
    rw [Finset.mem_erase, t.mem_entries] at hp
    exact hp.1 (hleaf.eq hp.2 hbelow)
  have hinto : (t.entries.erase dst).card ≤ (t.move src dst hmovable).entries.card := by
    apply Finset.card_le_card_of_injOn (relocate src dst)
    · intro p hp
      apply ((t.move src dst hmovable).mem_entries _).mpr
      change (t.moved src dst (relocate src dst p)).isSome = true
      rw [moved_relocate (hkept p hp)]
      exact (t.mem_entries p).mp (Finset.mem_of_mem_erase hp)
    · intro p hp q hq heq
      exact relocate_inj (hkept p hp) (hkept q hq) heq
  have herase : t.entries.card - 1 ≤ (t.entries.erase dst).card := Finset.pred_card_le_card_erase
  rw [size, size]
  omega

end Move

end Decidable

end PathTree

end FerroRemote
