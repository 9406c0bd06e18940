/-
# The namespace of the FUSE mount

`unlink`, `rmdir`, `mkdir` and `rename` of the mounted file system are a request each.
The kernel expects of them what its own calls do, but `unlink` asks for `del`, `rmdir`
for `remove_all`, and `mkdir` for the directories on the way as well. The law says, of
every tree and every call, whether what is done and reported is the call.
-/

import FerroRemote.Agent.TreeService
import FerroRemote.Client.FileMirror

namespace FerroRemote.Client

open FerroRemote.Agent

def EIO : Errno := 5

/-- How far a request comes. Where a message is lost the channel, or the RPC library,
reports a code. -/
inductive Delivery
  | answered
  /-- The request does not arrive. -/
  | unsent (code : Errno) (hcode : code ≠ 0)
  /-- The answer does not. -/
  | unanswered (code : Errno) (hcode : code ≠ 0)

namespace Fuse

variable {P N A S : Type} (paths : PlacePaths P N) (errorCode : Error → Errno)

def fillRequest (hdl : Nat) (path : P) : HandlePath P := ⟨some hdl, path⟩

/-- `local_result` after a request, and what is left on the agent. `FUSE_CALL_INIT` has
set it to 0, and `proto_error` and `channel_error` put the code there; `errorCode` is
the one that an exception of the agent arrives with. -/
def request (d : Delivery) (s : S) (out : Outcome S Nat) : Int × S :=
  match d, out with
  | .unsent code _, _ => (MirrorState.localResult code, s)
  | .unanswered code _, (_, s') => (MirrorState.localResult code, s')
  | .answered, (.ok _, s') => (0, s')
  | .answered, (.error err, s') => (MirrorState.localResult (errorCode err), s')

section Calls

variable [DecidableEq N] (d : Delivery) (s : TreeService P N A)

def unlink (hdl : Nat) (path : P) : Int × TreeService P N A :=
  request errorCode d s (s.del paths (fillRequest hdl path))

def rmdir (hdl : Nat) (path : P) : Int × TreeService P N A :=
  request errorCode d s (s.removeAll paths (fillRequest hdl path))

def mkdir (hdl : Nat) (path : P) : Int × TreeService P N A :=
  request errorCode d s (s.mkdir paths (fillRequest hdl path))

/-- `application::impl::rename`, which alone minds that there may be no `fs`. -/
def rename (fs : Option Nat) (path newname : P) : Int × TreeService P N A :=
  match fs with
  | none => (MirrorState.localResult EIO, s)
  | some hdl =>
    request errorCode d s (s.rename paths (fillRequest hdl path) (fillRequest hdl newname))

/-- A call of the kernel, whose paths are absolute. -/
def call (hdl : Nat) : TreeCall N → Int × TreeService P N A
  | .unlink p => unlink paths errorCode d s hdl (paths.absolute p)
  | .rmdir p => rmdir paths errorCode d s hdl (paths.absolute p)
  | .mkdir p => mkdir paths errorCode d s hdl (paths.absolute p)
  | .rename src dst =>
    rename paths errorCode d s (some hdl) (paths.absolute src) (paths.absolute dst)

end Calls

/-- Where the function of the library that is asked for does what the call does:
`unlink` on a file, or on a directory that stays; `rmdir` on an empty directory;
`mkdir` of a free name in a directory, or with a file in the way; `rename` anywhere. -/
def Fits (t : PathTree N A) : TreeCall N → Prop
  | .unlink p => (∃ a, t.node p = some (.file a)) ∨ (t.node p = some .dir ∧ (p = [] ∨ ¬ t.Leaf p))
  | .rmdir p => t.node p = some .dir ∧ t.Leaf p
  | .mkdir p => (∃ n q, p = n :: q ∧ t.node q = some .dir ∧ t.node (n :: q) = none) ∨ t.Blocked p
  | .rename _ _ => True

def Idle [DecidableEq N] (t : PathTree N A) : TreeCall N → Prop
  | .unlink p => t.node p = none ∨ (t.node p = some .dir ∧ (p = [] ∨ ¬ t.Leaf p))
  | .rmdir p => t.node p = none ∨ (p = [] ∧ t.Leaf p)
  | .mkdir p => t.node p = some .dir ∨ t.Blocked p
  | .rename src dst => src = dst ∨ ∃ r, t.rename src dst = .error r

/-- The call fits, or its answer is lost and there was nothing to do, or nothing has
been asked for. -/
def Settled [DecidableEq N] (t : PathTree N A) (d : Delivery) (c : TreeCall N) : Prop :=
  match d with
  | .answered => Fits t c
  | .unsent _ _ => True
  | .unanswered _ _ => Idle t c

variable {errorCode : Error → Errno}

theorem localResult_ne_zero {code : Errno} (hcode : code ≠ 0) :
    MirrorState.localResult code ≠ 0 := by
  intro hzero
  rw [MirrorState.localResult] at hzero
  exact hcode (Int.natCast_eq_zero.mp (Int.neg_eq_zero.mp hzero))

/-- Success is reported when an answer says so: no error has the code 0. -/
theorem request_answered_iff (hcode : ∀ err, errorCode err ≠ 0) (s : S) (out : Outcome S Nat) :
    (request errorCode .answered s out).1 = 0 ↔ ∃ n, out.1 = .ok n := by
  obtain ⟨res, s'⟩ := out
  cases res with
  | ok n => exact iff_of_true rfl ⟨n, rfl⟩
  | error err =>
      apply iff_of_false (localResult_ne_zero (hcode err))
      rintro ⟨n, hok⟩
      cases hok

theorem request_answered_state (s : S) (out : Outcome S Nat) :
    (request errorCode .answered s out).2 = out.2 := by
  obtain ⟨res, s'⟩ := out
  cases res with
  | ok n => rfl
  | error err => rfl

/-- What reaches the mount is what the library has made of the tree, unless a message
is lost. -/
theorem refines_request_iff (hcode : ∀ err, errorCode err ≠ 0) (d : Delivery)
    (s s' : TreeService P N A) (posix : Except Refusal (PathTree N A)) (what : String) (hdl : Nat)
    (out : Except Refusal Unit × PathTree N A) :
    s.tree.Refines posix ((request errorCode d s (s'.finish what hdl out)).1 = 0)
        (request errorCode d s (s'.finish what hdl out)).2.tree ↔
      match d with
      | .answered => s.tree.Refines posix (out.1 = .ok ()) out.2
      | .unsent _ _ => True
      | .unanswered _ _ => out.2 = s.tree := by
  cases d with
  | answered =>
      rw [request_answered_state, TreeService.finish_tree, request_answered_iff hcode,
        TreeService.finish_ok_iff]
  | unsent code hcode =>
      exact iff_of_true (PathTree.refines_of_failure (localResult_ne_zero hcode)) trivial
  | unanswered code hcode =>
      rw [← TreeService.finish_tree s' what hdl out]
      exact PathTree.refines_failure_iff (localResult_ne_zero hcode)

/-- A call through the mount is the call, exactly where it is settled. -/
theorem refines_iff_settled [DecidableEq N] (paths : PlacePaths P N)
    (hcode : ∀ err, errorCode err ≠ 0) (d : Delivery) (s : TreeService P N A) (hdl : Nat)
    (c : TreeCall N) :
    s.tree.Refines (s.tree.call c) ((call paths errorCode d s hdl c).1 = 0)
        (call paths errorCode d s hdl c).2.tree ↔ Settled s.tree d c := by
  cases c with
  | unlink p =>
      rw [call, unlink, TreeService.del, fillRequest, TreeService.onPath_absolute,
        refines_request_iff hcode]
      cases d with
      | answered => exact Bfs.remove_refines_iff
      | unsent code hcode => rfl
      | unanswered code hcode => exact Bfs.remove_idle_iff
  | rmdir p =>
      rw [call, rmdir, TreeService.removeAll, fillRequest, TreeService.onPath_absolute,
        refines_request_iff hcode]
      cases d with
      | answered => exact Bfs.removeAll_refines_iff
      | unsent code hcode => rfl
      | unanswered code hcode => exact Bfs.removeAll_idle_iff
  | mkdir p =>
      rw [call, mkdir, TreeService.mkdir, fillRequest, TreeService.onPath_absolute,
        refines_request_iff hcode]
      cases d with
      | answered => exact Bfs.createDirectories_refines_iff
      | unsent code hcode => rfl
      | unanswered code hcode => exact Bfs.createDirectories_idle_iff
  | rename src dst =>
      rw [call, rename, fillRequest, fillRequest, TreeService.rename_absolute,
        refines_request_iff hcode]
      cases d with
      | answered => exact iff_of_true (Bfs.rename_refines src dst) trivial
      | unsent code hcode => rfl
      | unanswered code hcode => exact Bfs.rename_idle_iff

/-- The number of an exception as its code. -/
def ownCode : Error → Errno
  | .errno _ code => max code 1
  | .system code _ => max code 1

/-- A directory with a directory in it. -/
def nested : PathTree String Unit :=
  (PathTree.bare.makeDir "d" [] rfl).makeDir "e" ["d"] rfl

/-- The inner directory is empty, and `rmdir` removes it. -/
theorem refines_rmdir_nested :
    let s : TreeService (List String) String Unit := { tree := nested }
    s.tree.Refines (s.tree.rmdir ["e", "d"])
      ((rmdir namePlaces ownCode .answered s 1 ["/", "d", "e"]).1 = 0)
      (rmdir namePlaces ownCode .answered s 1 ["/", "d", "e"]).2.tree := by
  have hcode : ∀ err, ownCode err ≠ 0 := by
    intro err
    cases err with
    | errno func code => exact Nat.ne_of_gt (Nat.le_max_right code 1)
    | system code mess => exact Nat.ne_of_gt (Nat.le_max_right code 1)
  apply (refines_iff_settled namePlaces hcode .answered _ 1 (.rmdir ["e", "d"])).mpr
  exact ⟨by decide, by decide +kernel⟩

/-- The outer one is not: `rmdir` is refused by the kernel, but through the mount it
succeeds and takes two entries away. -/
theorem rmdir_takes_content :
    let s : TreeService (List String) String Unit := { tree := nested }
    s.tree.call (.rmdir ["d"]) = .error .notEmpty ∧
      (rmdir namePlaces ownCode .answered s 1 ["/", "d"]).1 = 0 ∧
      s.tree.size = 3 ∧ (rmdir namePlaces ownCode .answered s 1 ["/", "d"]).2.tree.size = 1 ∧
      ¬ s.tree.Refines (s.tree.call (.rmdir ["d"]))
        ((rmdir namePlaces ownCode .answered s 1 ["/", "d"]).1 = 0)
        (rmdir namePlaces ownCode .answered s 1 ["/", "d"]).2.tree := by
  intro s
  have hrefused : s.tree.call (.rmdir ["d"]) = .error .notEmpty := by rfl
  have hreported : (rmdir namePlaces ownCode .answered s 1 ["/", "d"]).1 = 0 := by rfl
  refine ⟨hrefused, hreported, by decide +kernel, by decide +kernel, ?_⟩
  exact PathTree.not_refines_of_refused hreported ⟨.notEmpty, hrefused⟩

end Fuse

end FerroRemote.Client
