/-
# The file system service and the tree

`mkdir`, `rename`, `del` and `remove_all` of the service hand the path of a request to
functions of the file system library, which are not the kernel's calls:
`bfs::remove` takes empty directories as well as files and is content with finding
nothing, `bfs::remove_all` takes what is in a directory first, and
`bfs::create_directories` makes the directories on the way. `bfs::rename` alone is
the call of its name.

Below each of these functions stands when it refines a call that removes or makes one
entry.
-/

import FerroRemote.Agent.FsService
import FerroRemote.Math.TreeCalls

namespace FerroRemote.Agent

namespace Bfs

open PathTree

variable {N A : Type}

/-- A function that comes down to a call. -/
def ofCall (t : PathTree N A) (res : Except Refusal (PathTree N A)) :
    Except Refusal Unit × PathTree N A :=
  match res with
  | .error r => (.error r, t)
  | .ok t' => (.ok (), t')

section Functions

variable [DecidableEq N]

def remove (p : List N) (t : PathTree N A) : Except Refusal Unit × PathTree N A :=
  match t.node p with
  | none => (.ok (), t)
  | some .dir => ofCall t (t.rmdir p)
  | some (.file _) => ofCall t (t.unlink p)

/-- `bfs::remove_all`: the content of a directory is gone when its own turn comes. -/
def removeAll (p : List N) (t : PathTree N A) : Except Refusal Unit × PathTree N A :=
  match t.node p with
  | none => (.ok (), t)
  | some .dir => ofCall (t.clear p) ((t.clear p).rmdir p)
  | some (.file _) => ofCall t (t.unlink p)

/-- `bfs::create_directory`. A directory that exists is no error. -/
def createDirectory (p : List N) (t : PathTree N A) : Except Refusal Unit × PathTree N A :=
  match t.mkdir p with
  | .ok t' => (.ok (), t')
  | .error r => if r = .present ∧ t.node p = some .dir then (.ok (), t) else (.error r, t)

def createDirectories : List N → PathTree N A → Except Refusal Unit × PathTree N A
  | [], t => (.ok (), t)
  | n :: p, t =>
    if t.node (n :: p) = some .dir then (.ok (), t)
    else if (t.node p).isNone then
      match createDirectories p t with
      | (.error r, t') => (.error r, t')
      | (.ok (), t') => createDirectory (n :: p) t'
    else createDirectory (n :: p) t

def rename (src dst : List N) (t : PathTree N A) : Except Refusal Unit × PathTree N A :=
  ofCall t (t.rename src dst)

end Functions

variable {t : PathTree N A} {p : List N}

theorem ofCall_refines {posix : Except Refusal (PathTree N A)}
    (hsize : ∀ t', posix = .ok t' → t.size ≤ t'.size + 1) :
    t.Refines posix ((ofCall t posix).1 = .ok ()) (ofCall t posix).2 := by
  cases posix with
  | error r => exact refines_of_failure (fun hok => by cases hok)
  | ok t' => exact refines_of_ok rfl rfl (hsize t' rfl)

variable [DecidableEq N]

theorem remove_of_none (hnode : t.node p = none) : remove p t = (.ok (), t) := by
  rw [remove, hnode]

/-- The root, and a directory that is not empty, stay. -/
theorem remove_of_kept (hdir : t.node p = some .dir) (hkept : p = [] ∨ ¬ t.Leaf p) :
    ∃ r, remove p t = (.error r, t) := by
  have hnot : ¬ (p ≠ [] ∧ t.node p = some .dir ∧ t.Leaf p) := by
    rintro ⟨hp, -, hleaf⟩
    exact hkept.elim hp (fun hfull => hfull hleaf)
  obtain ⟨r, hrefused⟩ := rmdir_of_not_empty hnot
  exact ⟨r, by rw [remove, hdir, hrefused, ofCall]⟩

theorem remove_of_empty (hp : p ≠ []) (hleaf : t.Leaf p) (hdir : t.node p = some .dir) :
    remove p t = (.ok (), t.erase p hp hleaf) := by
  rw [remove, hdir, rmdir_of_empty hp hleaf hdir, ofCall]

theorem remove_of_file {a : A} (hp : p ≠ []) (hleaf : t.Leaf p)
    (hfile : t.node p = some (.file a)) : remove p t = (.ok (), t.erase p hp hleaf) := by
  rw [remove, hfile, unlink_of_file hp hleaf hfile, ofCall]

theorem removeAll_of_none (hnode : t.node p = none) : removeAll p t = (.ok (), t) := by
  rw [removeAll, hnode]

theorem removeAll_of_root : removeAll [] t = (.error .busy, t.clear []) := by
  rw [removeAll, t.root]
  rfl

theorem removeAll_of_dir (hp : p ≠ []) (hdir : t.node p = some .dir) :
    removeAll p t = (.ok (), (t.clear p).erase p hp (leaf_clear t p)) := by
  rw [removeAll, hdir, rmdir_of_empty hp (leaf_clear t p) ((node_clear_self p).trans hdir), ofCall]

theorem removeAll_of_file {a : A} (hp : p ≠ []) (hleaf : t.Leaf p)
    (hfile : t.node p = some (.file a)) : removeAll p t = (.ok (), t.erase p hp hleaf) := by
  rw [removeAll, hfile, unlink_of_file hp hleaf hfile, ofCall]

/-- `bfs::remove` refines `unlink` where there is a file, or a directory that it cannot
remove. -/
theorem remove_refines_iff :
    t.Refines (t.unlink p) ((remove p t).1 = .ok ()) (remove p t).2 ↔
      (∃ a, t.node p = some (.file a)) ∨ (t.node p = some .dir ∧ (p = [] ∨ ¬ t.Leaf p)) := by
  rcases Node.cases (t.node p) with hnode | hnode | ⟨a, hnode⟩
  · have hrefused : ∃ r, t.unlink p = .error r := unlink_of_not_file (by simp [hnode])
    rw [remove_of_none hnode]
    exact iff_of_false (not_refines_of_refused rfl hrefused) (by simp [hnode])
  · by_cases hkept : p = [] ∨ ¬ t.Leaf p
    · obtain ⟨r, hremove⟩ := remove_of_kept hnode hkept
      rw [hremove]
      exact iff_of_true (refines_of_failure (fun hok => by cases hok)) (.inr ⟨hnode, hkept⟩)
    · have hrefused : ∃ r, t.unlink p = .error r := unlink_of_not_file (by simp [hnode])
      rw [not_or, not_not] at hkept
      rw [remove_of_empty hkept.1 hkept.2 hnode]
      exact iff_of_false (not_refines_of_refused rfl hrefused) (by simp [hnode, hkept])
  · have hdir : t.node p ≠ some .dir := by simp [hnode]
    have hunlink := unlink_of_file (ne_root_of_ne_dir hdir) (leaf_of_ne_dir hdir) hnode
    rw [remove_of_file (ne_root_of_ne_dir hdir) (leaf_of_ne_dir hdir) hnode]
    exact iff_of_true (refines_of_ok rfl hunlink (size_le_of_call (c := .unlink p) hunlink))
      (.inl ⟨a, hnode⟩)

/-- `bfs::remove_all` refines `rmdir` where there is an empty directory. The root can
be emptied, but not removed. -/
theorem removeAll_refines_iff :
    t.Refines (t.rmdir p) ((removeAll p t).1 = .ok ()) (removeAll p t).2 ↔
      t.node p = some .dir ∧ t.Leaf p := by
  rcases Node.cases (t.node p) with hnode | hnode | ⟨a, hnode⟩
  · have hrefused : ∃ r, t.rmdir p = .error r := rmdir_of_not_empty (by simp [hnode])
    rw [removeAll_of_none hnode]
    exact iff_of_false (not_refines_of_refused rfl hrefused) (by simp [hnode])
  · by_cases hp : p = []
    · subst hp
      rw [removeAll_of_root, refines_failure_iff (fun hok => by cases hok), clear_eq_self_iff]
      exact (and_iff_right hnode).symm
    · rw [removeAll_of_dir hp hnode]
      by_cases hleaf : t.Leaf p
      · have hrmdir := rmdir_of_empty hp hleaf hnode
        rw [erase_clear hp hleaf]
        exact iff_of_true (refines_of_ok rfl hrmdir (size_le_of_call (c := .rmdir p) hrmdir))
          ⟨hnode, hleaf⟩
      · have hrefused : ∃ r, t.rmdir p = .error r :=
          rmdir_of_not_empty (fun hempty => hleaf hempty.2.2)
        exact iff_of_false (not_refines_of_refused rfl hrefused) (fun hempty => hleaf hempty.2)
  · have hdir : t.node p ≠ some .dir := by simp [hnode]
    have hrefused : ∃ r, t.rmdir p = .error r := rmdir_of_not_empty (fun hempty => hdir hempty.2.1)
    rw [removeAll_of_file (ne_root_of_ne_dir hdir) (leaf_of_ne_dir hdir) hnode]
    exact iff_of_false (not_refines_of_refused rfl hrefused) (fun hempty => hdir hempty.1)

theorem createDirectory_of_free {n : N} (hdir : t.node p = some .dir)
    (hfree : t.node (n :: p) = none) :
    createDirectory (n :: p) t = (.ok (), t.makeDir n p hdir) := by
  rw [createDirectory, mkdir_of_free hdir hfree]

theorem createDirectory_of_refused (hrefused : ∃ r, t.mkdir p = .error r)
    (hdir : t.node p ≠ some .dir) : ∃ r, createDirectory p t = (.error r, t) := by
  obtain ⟨r, hrefused⟩ := hrefused
  refine ⟨r, ?_⟩
  rw [createDirectory, hrefused]
  exact if_neg (fun hpresent => hdir hpresent.2)

/-- With a file on the way nothing is made. The induction is on the way, from the file
on: at the first directory that is missing below it, or at the path itself. -/
theorem createDirectories_of_blocked (hblocked : t.Blocked p) :
    ∃ r, createDirectories p t = (.error r, t) := by
  induction p with
  | nil => exact absurd t.root hblocked.ne_dir
  | cons n p ih =>
      have hdir : t.node (n :: p) ≠ some .dir := hblocked.ne_dir
      rw [createDirectories, if_neg hdir]
      by_cases hparent : (t.node p).isNone = true
      · rcases blocked_cons.mp hblocked with ⟨a, hfile⟩ | hblocked
        · rw [t.parent n p (by rw [hfile]; rfl)] at hparent
          exact absurd hparent Bool.false_ne_true
        · obtain ⟨r, hmade⟩ := ih hblocked
          exact ⟨r, by rw [if_pos hparent, hmade]⟩
      · rw [if_neg hparent]
        apply createDirectory_of_refused _ hdir
        by_cases hfound : t.node p = some .dir
        · rcases blocked_cons.mp hblocked with ⟨a, hfile⟩ | hblocked
          · exact ⟨.present, mkdir_of_present (by rw [hfile]; rfl)⟩
          · exact absurd hfound hblocked.ne_dir
        · exact mkdir_of_ne_dir hfound

/-- With no file on the way the path is a directory in the end, and nothing else than
the way to it has changed. -/
theorem createDirectories_of_open (hopen : ¬ t.Blocked p) :
    ∃ t', createDirectories p t = (.ok (), t') ∧ t'.node p = some .dir ∧
      ∀ q, ¬ q <:+ p → t'.node q = t.node q := by
  induction p with
  | nil => exact ⟨t, rfl, t.root, fun q _ => rfl⟩
  | cons n p ih =>
      rw [blocked_cons, not_or] at hopen
      by_cases hdir : t.node (n :: p) = some .dir
      · exact ⟨t, by rw [createDirectories, if_pos hdir], hdir, fun q _ => rfl⟩
      · have hfree : t.node (n :: p) = none := by
          rcases Node.cases (t.node (n :: p)) with hnode | hnode | ⟨a, hnode⟩
          · exact hnode
          · exact absurd hnode hdir
          · exact absurd ⟨a, hnode⟩ hopen.1
        have hself : ¬ n :: p <:+ p := fun hbelow => absurd hbelow.length_le (Nat.not_succ_le_self _)
        obtain ⟨t₁, hparent, hmade, hframe⟩ : ∃ t₁, ∃ hparent : t₁.node p = some .dir,
            createDirectories (n :: p) t = createDirectory (n :: p) t₁ ∧
              ∀ q, ¬ q <:+ p → t₁.node q = t.node q := by
          by_cases hnone : (t.node p).isNone = true
          · obtain ⟨t₁, hmade, hparent, hframe⟩ := ih hopen.2
            exact ⟨t₁, hparent, by rw [createDirectories, if_neg hdir, if_pos hnone, hmade], hframe⟩
          · have hparent : t.node p = some .dir := by
              rcases Node.cases (t.node p) with hnode | hnode | ⟨a, hnode⟩
              · rw [hnode] at hnone
                exact absurd rfl hnone
              · exact hnode
              · exact absurd ⟨p, a, List.suffix_rfl, hnode⟩ hopen.2
            exact ⟨t, hparent, by rw [createDirectories, if_neg hdir, if_neg hnone], fun q _ => rfl⟩
        rw [hmade, createDirectory_of_free hparent ((hframe _ hself).trans hfree)]
        refine ⟨t₁.makeDir n p hparent, rfl, ?_, ?_⟩
        · rw [node_makeDir, if_pos rfl]
        · intro q hq
          rw [List.suffix_cons_iff, not_or] at hq
          rw [node_makeDir, if_neg hq.1, hframe q hq.2]

/-- `bfs::create_directories` refines `mkdir` where the name is free in a directory
that exists, or where a file is in the way. -/
theorem createDirectories_refines_iff :
    t.Refines (t.mkdir p) ((createDirectories p t).1 = .ok ()) (createDirectories p t).2 ↔
      (∃ n q, p = n :: q ∧ t.node q = some .dir ∧ t.node (n :: q) = none) ∨ t.Blocked p := by
  by_cases hblocked : t.Blocked p
  · obtain ⟨r, hmade⟩ := createDirectories_of_blocked hblocked
    rw [hmade]
    exact iff_of_true (refines_of_failure (fun hok => by cases hok)) (.inr hblocked)
  · by_cases hfree : ∃ n q, p = n :: q ∧ t.node q = some .dir ∧ t.node (n :: q) = none
    · apply iff_of_true _ (.inl hfree)
      obtain ⟨n, q, rfl, hdir, hfree⟩ := hfree
      have hmade : createDirectories (n :: q) t = (.ok (), t.makeDir n q hdir) := by
        rw [createDirectories, if_neg (by simp [hfree]), if_neg (by simp [hdir]),
          createDirectory_of_free hdir hfree]
      rw [hmade]
      exact refines_of_ok rfl (mkdir_of_free hdir hfree)
        (size_le_of_call (c := .mkdir (n :: q)) (mkdir_of_free hdir hfree))
    · obtain ⟨t', hmade, -, -⟩ := createDirectories_of_open hblocked
      have hrefused : ∃ r, t.mkdir p = .error r := by
        cases hposix : t.mkdir p with
        | error r => exact ⟨r, rfl⟩
        | ok t' =>
            obtain ⟨n, q, heq, hdir, hnone, -⟩ := mkdir_eq_ok_iff.mp hposix
            exact absurd ⟨n, q, heq, hdir, hnone⟩ hfree
      rw [hmade]
      exact iff_of_false (not_refines_of_refused rfl hrefused) (not_or.mpr ⟨hfree, hblocked⟩)

theorem rename_refines (src dst : List N) :
    t.Refines (t.rename src dst) ((rename src dst t).1 = .ok ()) (rename src dst t).2 :=
  ofCall_refines (fun _ hok => size_le_of_call (c := .rename src dst) hok)

theorem remove_idle_iff : (remove p t).2 = t ↔
    t.node p = none ∨ (t.node p = some .dir ∧ (p = [] ∨ ¬ t.Leaf p)) := by
  rcases Node.cases (t.node p) with hnode | hnode | ⟨a, hnode⟩
  · rw [remove_of_none hnode]
    exact iff_of_true rfl (.inl hnode)
  · by_cases hkept : p = [] ∨ ¬ t.Leaf p
    · obtain ⟨r, hremove⟩ := remove_of_kept hnode hkept
      rw [hremove]
      exact iff_of_true rfl (.inr ⟨hnode, hkept⟩)
    · rw [not_or, not_not] at hkept
      rw [remove_of_empty hkept.1 hkept.2 hnode]
      exact iff_of_false (erase_ne_self hkept.1 hkept.2 (by rw [hnode]; rfl))
        (by simp [hnode, hkept])
  · have hdir : t.node p ≠ some .dir := by simp [hnode]
    have hgone := erase_ne_self (ne_root_of_ne_dir hdir) (leaf_of_ne_dir hdir) (by rw [hnode]; rfl)
    rw [remove_of_file (ne_root_of_ne_dir hdir) (leaf_of_ne_dir hdir) hnode]
    exact iff_of_false hgone (by simp [hnode])

theorem removeAll_idle_iff : (removeAll p t).2 = t ↔ t.node p = none ∨ (p = [] ∧ t.Leaf p) := by
  rcases Node.cases (t.node p) with hnode | hnode | ⟨a, hnode⟩
  · rw [removeAll_of_none hnode]
    exact iff_of_true rfl (.inl hnode)
  · by_cases hp : p = []
    · subst hp
      rw [removeAll_of_root, clear_eq_self_iff]
      simp [hnode]
    · rw [removeAll_of_dir hp hnode]
      apply iff_of_false
      · intro heq
        have hgone := node_erase hp (leaf_clear t p) p
        change (t.clear p).erase p hp (leaf_clear t p) = t at heq
        rw [if_pos rfl, heq, hnode] at hgone
        cases hgone
      · simp [hnode, hp]
  · have hdir : t.node p ≠ some .dir := by simp [hnode]
    have hgone := erase_ne_self (ne_root_of_ne_dir hdir) (leaf_of_ne_dir hdir) (by rw [hnode]; rfl)
    rw [removeAll_of_file (ne_root_of_ne_dir hdir) (leaf_of_ne_dir hdir) hnode]
    exact iff_of_false hgone (by simp [hnode, ne_root_of_ne_dir hdir])

theorem createDirectories_of_dir (hdir : t.node p = some .dir) :
    createDirectories p t = (.ok (), t) := by
  cases p with
  | nil => rfl
  | cons n p => rw [createDirectories, if_pos hdir]

theorem createDirectories_idle_iff : (createDirectories p t).2 = t ↔
    t.node p = some .dir ∨ t.Blocked p := by
  by_cases hblocked : t.Blocked p
  · obtain ⟨r, hmade⟩ := createDirectories_of_blocked hblocked
    rw [hmade]
    exact iff_of_true rfl (.inr hblocked)
  · by_cases hdir : t.node p = some .dir
    · rw [createDirectories_of_dir hdir]
      exact iff_of_true rfl (.inl hdir)
    · obtain ⟨t', hmade, hdir', -⟩ := createDirectories_of_open hblocked
      rw [hmade]
      apply iff_of_false _ (not_or.mpr ⟨hdir, hblocked⟩)
      rintro rfl
      exact hdir hdir'

theorem rename_idle_iff {src dst : List N} : (rename src dst t).2 = t ↔
    src = dst ∨ ∃ r, t.rename src dst = .error r := by
  rw [rename]
  cases hrename : t.rename src dst with
  | error r => exact iff_of_true rfl (.inr ⟨r, rfl⟩)
  | ok t' =>
      rcases rename_cases hrename with ⟨heq, rfl⟩ | ⟨hmovable, hsome, hout, -, rfl⟩
      · exact iff_of_true rfl (.inl heq)
      · apply iff_of_false (move_ne_self hmovable hsome hout)
        rintro (rfl | ⟨r, hrefused⟩)
        · exact hout List.suffix_rfl
        · cases hrefused

end Bfs

def EBUSY : Errno := 16
def ENOTDIR : Errno := 20
def EISDIR : Errno := 21
def ENOTEMPTY : Errno := 39

def refusalErrno : Refusal → Errno
  | .missing => ENOENT
  | .present => EEXIST
  | .notDirectory => ENOTDIR
  | .isDirectory => EISDIR
  | .notEmpty => ENOTEMPTY
  | .invalid => EINVAL
  | .busy => EBUSY

/-- Paths that name the places of a tree. -/
structure PlacePaths (P N : Type) extends PathOps P where
  /-- The absolute path of a place, as a kernel passes it on. -/
  absolute : List N → P
  /-- The place the file system finds at a path. -/
  place : P → List N
  isAbsolute_absolute : ∀ p, isAbsolute (absolute p) = true
  place_absolute : ∀ p, place (normalize (absolute p)) = p

def namePlaces : PlacePaths (List String) String where
  toPathOps := namePaths
  absolute p := "/" :: p.reverse
  place path := path.tail.reverse
  isAbsolute_absolute _ := rfl
  place_absolute p := List.reverse_reverse p

/-- A `handle_path`. -/
structure HandlePath (P : Type) where
  hdl : Option Nat
  path : P

/-- An instance of the service, and the file system. -/
structure TreeService (P N A : Type) where
  agent : AgentState := {}
  fs : FsInstance P := {}
  tree : PathTree N A

namespace TreeService

variable {P N A : Type} (paths : PlacePaths P N)

/-- What a function of the library makes of the tree, and of the request: a refusal
is an exception that carries the number, and the function's name in its text. -/
def finish (s : TreeService P N A) (what : String) (hdl : Nat)
    (out : Except Refusal Unit × PathTree N A) : Outcome (TreeService P N A) Nat :=
  match out with
  | (.error r, t) => (.error (.system (refusalErrno r) what), { s with tree := t })
  | (.ok (), t) => (.ok hdl, { s with tree := t })

/-- A handler that calls `func` with the path of its request. -/
def onPath (what : String) (func : List N → PathTree N A → Except Refusal Unit × PathTree N A)
    (s : TreeService P N A) (request : HandlePath P) : Outcome (TreeService P N A) Nat :=
  match s.fs.pathFromRequest paths.toPathOps s.agent request.path request.hdl with
  | (.error err, agent) => (.error err, { s with agent := agent })
  | (.ok (p, hdl), agent) =>
    finish { s with agent := agent } what hdl (func (paths.place p) s.tree)

theorem finish_tree (s : TreeService P N A) (what : String) (hdl : Nat)
    (out : Except Refusal Unit × PathTree N A) : (s.finish what hdl out).2.tree = out.2 := by
  obtain ⟨res, t⟩ := out
  cases res with
  | error r => rfl
  | ok u => rfl

theorem finish_ok_iff (s : TreeService P N A) (what : String) (hdl : Nat)
    (out : Except Refusal Unit × PathTree N A) :
    (∃ n, (s.finish what hdl out).1 = .ok n) ↔ out.1 = .ok () := by
  obtain ⟨res, t⟩ := out
  cases res with
  | error r => exact iff_of_false (fun ⟨n, hok⟩ => by cases hok) (fun hok => by cases hok)
  | ok u => exact iff_of_true ⟨hdl, rfl⟩ rfl

/-- An absolute path is resolved to its place, whatever handle comes with it. -/
theorem pathFromRequest_absolute (fs : FsInstance P) (agent : AgentState) (p : List N)
    (hdl : Option Nat) :
    fs.pathFromRequest paths.toPathOps agent (paths.absolute p) hdl =
      (.ok (paths.normalize (paths.absolute p), agent.nextIndex.1), agent.nextIndex.2) := by
  apply FsInstance.pathFromRequest_new
  rw [FsInstance.newInstance, paths.isAbsolute_absolute, Bool.or_true]

theorem onPath_absolute (what : String)
    (func : List N → PathTree N A → Except Refusal Unit × PathTree N A) (s : TreeService P N A)
    (hdl : Option Nat) (p : List N) :
    onPath paths what func s ⟨hdl, paths.absolute p⟩ =
      finish { s with agent := s.agent.nextIndex.2 } what s.agent.nextIndex.1 (func p s.tree) := by
  rw [onPath]
  simp only [pathFromRequest_absolute, paths.place_absolute]

variable [DecidableEq N]

def mkdir : TreeService P N A → HandlePath P → Outcome (TreeService P N A) Nat :=
  onPath paths "boost::filesystem::create_directories" Bfs.createDirectories

def del : TreeService P N A → HandlePath P → Outcome (TreeService P N A) Nat :=
  onPath paths "boost::filesystem::remove" Bfs.remove

def removeAll : TreeService P N A → HandlePath P → Outcome (TreeService P N A) Nat :=
  onPath paths "boost::filesystem::remove_all" Bfs.removeAll

/-- `proto_fs_impl::rename`: the source is resolved first, and the answer has the handle
of the destination. -/
def rename (s : TreeService P N A) (src dst : HandlePath P) : Outcome (TreeService P N A) Nat :=
  match s.fs.pathFromRequest paths.toPathOps s.agent src.path src.hdl with
  | (.error err, agent) => (.error err, { s with agent := agent })
  | (.ok (srcPath, _), agent) =>
    match s.fs.pathFromRequest paths.toPathOps agent dst.path dst.hdl with
    | (.error err, agent) => (.error err, { s with agent := agent })
    | (.ok (dstPath, dhdl), agent) =>
      finish { s with agent := agent } "boost::filesystem::rename" dhdl
        (Bfs.rename (paths.place srcPath) (paths.place dstPath) s.tree)

theorem rename_absolute (s : TreeService P N A) (hdl hdl' : Option Nat) (src dst : List N) :
    rename paths s ⟨hdl, paths.absolute src⟩ ⟨hdl', paths.absolute dst⟩ =
      finish { s with agent := s.agent.nextIndex.2.nextIndex.2 } "boost::filesystem::rename"
        s.agent.nextIndex.2.nextIndex.1 (Bfs.rename src dst s.tree) := by
  rw [rename]
  simp only [pathFromRequest_absolute, paths.place_absolute]

end TreeService

end FerroRemote.Agent
