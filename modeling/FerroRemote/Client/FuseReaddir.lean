/-
# Listing a directory of the FUSE mount

`readdir` hands the names of a directory to the kernel's filler, and asks the agent for
one entry after the other. On the channel of an iterator a call that fails does not
throw: it leaves its code in `local_result`, and the reply as it was sent. The loop
reads `local_result` only where it has just set it to 0, so that it goes on with a
reply nobody filled in.
-/

import FerroRemote.Math.Numerals
import FerroRemote.Client.DirectoryIterator
import FerroRemote.Client.FuseNamespace

namespace FerroRemote.Client

open FerroRemote.Agent

def ENOMEM : Errno := 12

namespace Fuse

/-- The codes of the RPC library that `cancel_error` asks for. No error has the code of
success. -/
structure RpcCodes where
  canceled : Nat
  timeout : Nat
  canceled_ne_zero : canceled ≠ 0
  timeout_ne_zero : timeout ≠ 0

def cancelError (codes : RpcCodes) (code : Int) : Bool :=
  code = codes.canceled || code = codes.timeout

def leaf (path : List Char) : List Char :=
  match splitLast '/' path with
  | some (_, rest) => rest
  | none => path

/-- A running `readdir`, with what it has handed to the filler and the results of the
calls that failed. -/
structure Listing where
  it : DirIterImpl (List Char)
  d : DirState (List Char)
  localResult : Int := 0
  handed : List (List Char) := []
  failures : List Int := []

/-- How a `readdir` ends. -/
structure Listed where
  handed : List (List Char)
  failures : List Int
  result : Int
  deriving DecidableEq

/-- The paths of names in a directory. -/
def pathsIn (dir : List Char) (names : List (List Char)) : List (List Char) :=
  names.map (dir ++ '/' :: ·)

section Loop

variable (tree : FileTree (List Char)) (errorCode : Error → Errno) (codes : RpcCodes)

/-- `ptr->next( )` on a channel that does not throw. The reply to a call that fails is
what was sent: it has the handle. -/
def next (delivery : Delivery) (s : Listing) : Listing :=
  let out := s.d.iterNext tree s.it.hdl
  let (result, d) := request errorCode delivery s.d (out.1.map fun _ => 0, out.2)
  match delivery, out.1 with
  | .answered, .ok info => { s with it := s.it.copyData info, d := d }
  | _, _ =>
    { s with
      it := s.it.copyData { hdl := s.it.hdl, isEnd := false }
      d := d
      localResult := result
      failures := s.failures ++ [result] }

/-- One round of the loop in `readdir`: the listing is over with a result, or goes on. -/
def round (accepts : Bool) (delivery : Delivery) (s : Listing) : Listing ⊕ Listed :=
  let s := { s with localResult := 0, handed := s.handed ++ [leaf s.it.val] }
  if accepts = false then .inr ⟨s.handed, s.failures, -(ENOMEM : Int)⟩
  else if cancelError codes (-s.localResult) then .inr ⟨s.handed, s.failures, s.localResult⟩
  else .inl (next tree errorCode delivery s)

/-- The loop from its round `k` on, for `fuel` rounds at most. -/
def listFrom (accepts : Nat → Bool) (deliveries : Nat → Delivery) :
    Nat → Nat → Listing → Option Listed
  | 0, _, _ => none
  | fuel + 1, k, s =>
    if s.it.isEnd then some ⟨s.handed, s.failures, s.localResult⟩
    else
      match round tree errorCode codes (accepts k) (deliveries k) s with
      | .inr out => some out
      | .inl s => listFrom accepts deliveries fuel (k + 1) s

/-- `application::impl::readdir`, on what `dirs_` has for the descriptor. -/
def readdir (accepts : Nat → Bool) (deliveries : Nat → Delivery) (fuel : Nat)
    (found : Option (DirIterImpl (List Char))) (d : DirState (List Char)) : Option Listed :=
  match found with
  | none => some ⟨[], [], -(EBADF : Int)⟩
  | some it => listFrom tree errorCode codes accepts deliveries fuel 0 { it := it, d := d }

end Loop

/-- A directory that is open: an iterator at the first of its names. The names have no
separator in them, and none is there twice. -/
structure OpenDirectory (tree : FileTree (List Char)) where
  dir : List Char
  names : List (List Char)
  plain : ∀ name ∈ names, name ≠ [] ∧ '/' ∉ name
  nodup : names.Nodup
  it : DirIterImpl (List Char)
  d : DirState (List Char)
  iter : DirIterator (List Char)
  shows : it.Shows tree (pathsIn dir names)
  here : d.fs.iters[it.hdl]? = some iter
  stands : d.entriesLeft iter = pathsIn dir names

variable {tree : FileTree (List Char)} (errorCode : Error → Errno) (codes : RpcCodes)
  (accepts : Nat → Bool) (deliveries : Nat → Delivery)

/-- What a `readdir` should do: it comes to an end, the filler is given names of the
directory, none of them twice, and when calls failed the result is one of theirs. -/
def ReadsWell (o : OpenDirectory tree) : Prop :=
  ∃ fuel out, readdir tree errorCode codes accepts deliveries fuel (some o.it) o.d = some out ∧
    (∀ name ∈ out.handed, name ∈ o.names) ∧ out.handed.Nodup ∧
    (out.failures ≠ [] → out.result ∈ out.failures)

/-- The call behind a name is answered, and with what comes: the agent's iterator and what
it is asked about the entry throw nothing. -/
def Answers (tree : FileTree (List Char)) (delivery : Delivery) (dir : List Char)
    (rest : List (List Char)) : Prop :=
  delivery = .answered ∧ tree.Advances dir rest

/-- Every call that is made for the names of a directory is answered with success. Behind a
name the filler refuses there are no calls. -/
def AllAnswered (o : OpenDirectory tree) : Prop :=
  ∀ i < o.names.length, (∀ j ≤ i, accepts j = true) →
    Answers tree (deliveries i) o.iter.dir (pathsIn o.dir (o.names.drop (i + 1)))

theorem leaf_append (dir : List Char) {name : List Char} (hplain : '/' ∉ name) :
    leaf (dir ++ '/' :: name) = name := by rw [leaf, splitLast_append dir hplain]

theorem cancelError_zero (codes : RpcCodes) : cancelError codes (-0) = false := by
  have hcanceled := codes.canceled_ne_zero
  have htimeout := codes.timeout_ne_zero
  simp only [cancelError, Bool.or_eq_false_iff, decide_eq_false_iff_not]
  omega

section Round

variable (tree)

/-- A round whose name is taken asks for the next entry. -/
theorem round_of_accepts (delivery : Delivery) (s : Listing) :
    round tree errorCode codes true delivery s =
      .inl (next tree errorCode delivery
        { s with localResult := 0, handed := s.handed ++ [leaf s.it.val] }) := by
  simp only [round, cancelError_zero, Bool.true_eq_false, if_false, Bool.false_eq_true]

theorem next_answered {s : Listing} {iter : DirIterator (List Char)} {p : List Char}
    {rest : List (List Char)} (hiter : s.d.fs.iters[s.it.hdl]? = some iter)
    (hleft : s.d.entriesLeft iter = p :: rest) (hadvances : tree.Advances iter.dir rest) :
    ∃ it, next tree errorCode .answered s =
        { s with it := it, d := { s.d with left := s.d.left.insert iter.id rest } } ∧
      it.hdl = s.it.hdl ∧ it.Shows tree rest := by
  rcases DirState.fillIterInfo_of_described tree hadvances.2 s.it.hdl with ⟨info, hinfo⟩
  have hnext := DirState.iterNext_of_advances tree hiter hleft hadvances
  rw [hinfo] at hnext
  refine ⟨s.it.copyData info, ?_, rfl, shows_copyData hinfo s.it⟩
  simp only [next, hnext]
  rfl

/-- After a call that is not answered, or with an error, the iterator is at no entry, and
not at the end. -/
theorem next_lost {delivery : Delivery} {s : Listing}
    (hlost : delivery = .answered → ∃ err, (s.d.iterNext tree s.it.hdl).1 = .error err) :
    (next tree errorCode delivery s).it.isEnd = false ∧
      (next tree errorCode delivery s).it.val = [] := by
  cases delivery with
  | answered =>
      rcases hlost rfl with ⟨err, hthrown⟩
      simp only [next, hthrown]
      exact ⟨rfl, rfl⟩
  | unsent code hcode => exact ⟨rfl, rfl⟩
  | unanswered code hcode => exact ⟨rfl, rfl⟩

/-- While entries are left, a call that does not answer is lost. -/
theorem lost_of_not_answers {delivery : Delivery} {s : Listing}
    {iter : DirIterator (List Char)} {p : List Char} {rest : List (List Char)}
    (hiter : s.d.fs.iters[s.it.hdl]? = some iter) (hleft : s.d.entriesLeft iter = p :: rest)
    (hnot : ¬ Answers tree delivery iter.dir rest) (hanswered : delivery = .answered) :
    ∃ err, (s.d.iterNext tree s.it.hdl).1 = .error err := by
  have hadvances : ¬ tree.Advances iter.dir rest := fun h => hnot ⟨hanswered, h⟩
  rcases DirState.iterNext_of_not_advances tree hiter hleft hadvances with
    ⟨err, rest', hthrown, -⟩
  exact ⟨err, by rw [hthrown]⟩

theorem next_handed (delivery : Delivery) (s : Listing) :
    (next tree errorCode delivery s).handed = s.handed := by
  unfold next
  dsimp only
  split <;> rfl

theorem round_handed (accepted : Bool) (delivery : Delivery) (s : Listing) :
    (round tree errorCode codes accepted delivery s).elim Listing.handed Listed.handed =
      s.handed ++ [leaf s.it.val] := by
  cases accepted with
  | false => rfl
  | true =>
      rw [round_of_accepts]
      exact next_handed tree errorCode delivery _

end Round

section Runs

variable {errorCode codes accepts deliveries}

theorem listFrom_handed {fuel k : Nat} {s : Listing} {out : Listed}
    (hout : listFrom tree errorCode codes accepts deliveries fuel k s = some out) :
    s.handed <+: out.handed ∧
      (s.it.isEnd = false → s.handed ++ [leaf s.it.val] <+: out.handed) := by
  induction fuel generalizing k s with
  | zero => cases hout
  | succ fuel ih =>
      rw [listFrom] at hout
      cases hend : s.it.isEnd with
      | true =>
          rw [hend, if_pos rfl, Option.some_inj] at hout
          subst hout
          exact ⟨List.prefix_refl _, fun hmore => nomatch hmore⟩
      | false =>
          rw [hend, if_neg Bool.false_ne_true] at hout
          have hround := round_handed tree errorCode codes (accepts k) (deliveries k) s
          have hnamed : s.handed ++ [leaf s.it.val] <+: out.handed := by
            cases hres : round tree errorCode codes (accepts k) (deliveries k) s with
            | inr res =>
                rw [hres] at hout hround
                cases hout
                rw [← hround]
                exact List.prefix_refl _
            | inl s' =>
                rw [hres] at hout hround
                rw [← hround]
                exact (ih hout).1
          exact ⟨(List.prefix_append _ _).trans hnamed, fun _ => hnamed⟩

/-- The filler takes the names up to the next but `i` when it takes this one and goes on. -/
theorem accepted_succ_iff {k i : Nat} :
    (∀ j ≤ i + 1, accepts (k + j) = true) ↔
      accepts k = true ∧ ∀ j ≤ i, accepts (k + 1 + j) = true := by
  have hshift : ∀ j, k + 1 + j = k + (j + 1) := by omega
  constructor
  · intro hall
    refine ⟨hall 0 (Nat.zero_le _), fun j hj => ?_⟩
    rw [hshift]
    exact hall (j + 1) (Nat.succ_le_succ hj)
  · rintro ⟨hfirst, hrest⟩ j hj
    cases j with
    | zero => exact hfirst
    | succ j =>
        rw [← hshift]
        exact hrest j (Nat.le_of_succ_le_succ hj)

/-- A call that gets lost before the end, and the filler is given an empty name. The
induction is on the names that are left. -/
theorem nil_mem_handed {dir : List Char} {names : List (List Char)} {fuel k : Nat} {s : Listing}
    {iter : DirIterator (List Char)} {out : Listed} (hshows : s.it.Shows tree (pathsIn dir names))
    (hiter : s.d.fs.iters[s.it.hdl]? = some iter)
    (hleft : s.d.entriesLeft iter = pathsIn dir names)
    (hlost : ∃ i < names.length, (∀ j ≤ i, accepts (k + j) = true) ∧
      ¬ Answers tree (deliveries (k + i)) iter.dir (pathsIn dir (names.drop (i + 1))))
    (hout : listFrom tree errorCode codes accepts deliveries fuel k s = some out) :
    [] ∈ out.handed := by
  rcases hlost with ⟨i, hi, haccepts, hnot⟩
  induction names generalizing fuel k s i with
  | nil => exact absurd hi (Nat.not_lt_zero i)
  | cons name names ih =>
      cases fuel with
      | zero => cases hout
      | succ fuel =>
          have haccept : accepts k = true := haccepts 0 (Nat.zero_le i)
          rw [listFrom, hshows.1, if_neg Bool.false_ne_true, haccept, round_of_accepts] at hout
          by_cases hanswers : Answers tree (deliveries k) iter.dir (pathsIn dir names)
          · rw [hanswers.1] at hout
            rcases next_answered tree errorCode
              (s := { s with localResult := 0, handed := s.handed ++ [leaf s.it.val] })
              hiter hleft hanswers.2 with ⟨it, hnext, hhdl, hshows'⟩
            cases i with
            | zero => exact absurd hanswers hnot
            | succ i =>
                rw [hnext] at hout
                rw [← Nat.succ_add_eq_add_succ] at hnot
                exact ih hshows' (hhdl ▸ hiter) (DirState.entriesLeft_moved s.d iter _) hout i
                  (Nat.lt_of_succ_lt_succ hi) (accepted_succ_iff.mp haccepts).2 hnot
          · have hlost := lost_of_not_answers tree
              (s := { s with localResult := 0, handed := s.handed ++ [leaf s.it.val] })
              hiter hleft hanswers
            rcases next_lost tree errorCode hlost with ⟨hend, hval⟩
            have hnamed := (listFrom_handed hout).2 hend
            rw [hval] at hnamed
            exact hnamed.subset (List.mem_append_right _ (List.mem_singleton.mpr rfl))

variable (errorCode codes)

/-- A loop whose calls are answered hands over names of the directory in their order,
and ends. -/
theorem listFrom_answered {dir : List Char} {names : List (List Char)} {k : Nat} {s : Listing}
    {iter : DirIterator (List Char)} (hplain : ∀ name ∈ names, name ≠ [] ∧ '/' ∉ name)
    (hshows : s.it.Shows tree (pathsIn dir names))
    (hiter : s.d.fs.iters[s.it.hdl]? = some iter)
    (hleft : s.d.entriesLeft iter = pathsIn dir names)
    (hanswers : ∀ i < names.length, (∀ j ≤ i, accepts (k + j) = true) →
      Answers tree (deliveries (k + i)) iter.dir (pathsIn dir (names.drop (i + 1)))) :
    ∃ out given, listFrom tree errorCode codes accepts deliveries (names.length + 1) k s = some out ∧
      given <+: names ∧ out.handed = s.handed ++ given ∧ out.failures = s.failures := by
  induction names generalizing k s with
  | nil =>
      have hend : s.it.isEnd = true := hshows
      refine ⟨_, [], by rw [listFrom, if_pos hend], List.prefix_refl _, ?_, rfl⟩
      rw [List.append_nil]
  | cons name names ih =>
      have hname := (hplain name List.mem_cons_self).2
      have hleaf : leaf s.it.val = name := by rw [hshows.2.1, leaf_append dir hname]
      cases haccept : accepts k with
      | false =>
          refine ⟨⟨s.handed ++ [name], s.failures, -(ENOMEM : Int)⟩, [name], ?_, ?_, rfl, rfl⟩
          · rw [listFrom, hshows.1, if_neg Bool.false_ne_true, haccept, ← hleaf]
            rfl
          · exact ⟨names, rfl⟩
      | true =>
          have hfirst : Answers tree (deliveries k) iter.dir (pathsIn dir names) := by
            apply hanswers 0 (Nat.succ_pos _)
            intro j hj
            rw [Nat.le_zero.mp hj]
            exact haccept
          rcases next_answered tree errorCode
            (s := { s with localResult := 0, handed := s.handed ++ [leaf s.it.val] })
            hiter hleft hfirst.2 with ⟨it, hnext, hhdl, hshows'⟩
          let s' : Listing :=
            { s with
              localResult := 0
              handed := s.handed ++ [leaf s.it.val]
              it := it
              d := { s.d with left := s.d.left.insert iter.id (pathsIn dir names) } }
          have hmoved := DirState.entriesLeft_moved s.d iter (pathsIn dir names)
          have hrest : ∀ i < names.length, (∀ j ≤ i, accepts (k + 1 + j) = true) →
              Answers tree (deliveries (k + 1 + i)) iter.dir (pathsIn dir (names.drop (i + 1))) := by
            intro i hi hbefore
            rw [Nat.succ_add_eq_add_succ]
            exact hanswers (i + 1) (Nat.succ_lt_succ hi)
              (accepted_succ_iff.mpr ⟨haccept, hbefore⟩)
          rcases ih (s := s') (fun n hn => hplain n (List.mem_cons_of_mem _ hn)) hshows'
            (hhdl ▸ hiter) hmoved hrest with ⟨out, given, hout, hgiven, hhanded, hfailures⟩
          refine ⟨out, name :: given, ?_, List.cons_prefix_cons.mpr ⟨rfl, hgiven⟩, ?_, hfailures⟩
          · rw [listFrom, hshows.1, if_neg Bool.false_ne_true, haccept, round_of_accepts, hfirst.1]
            exact (congrArg (listFrom tree errorCode codes accepts deliveries _ _) hnext).trans hout
          · have hgone : s'.handed = s.handed ++ [name] := congrArg (s.handed ++ [·]) hleaf
            rw [hhanded, hgone, List.append_assoc]
            rfl

end Runs

/-- **Listing a directory.** Over every directory, whatever the filler says and however
the calls go, `readdir` does what it should exactly when all its calls are answered with
success. One that is lost, or refused, is not noticed: the loop goes on with an empty name. -/
theorem readsWell_iff_allAnswered (o : OpenDirectory tree) :
    ReadsWell errorCode codes accepts deliveries o ↔ AllAnswered accepts deliveries o := by
  constructor
  · rintro ⟨fuel, out, hout, hnames, -, -⟩ i hi haccepts
    by_contra hnot
    have hlost : ∃ i < o.names.length, (∀ j ≤ i, accepts (0 + j) = true) ∧
        ¬ Answers tree (deliveries (0 + i)) o.iter.dir (pathsIn o.dir (o.names.drop (i + 1))) := by
      simp only [Nat.zero_add]
      exact ⟨i, hi, haccepts, hnot⟩
    have hnil := nil_mem_handed o.shows o.here o.stands hlost hout
    exact absurd rfl (o.plain [] (hnames [] hnil)).1
  · intro hall
    unfold AllAnswered at hall
    rcases listFrom_answered errorCode codes (k := 0) (s := { it := o.it, d := o.d }) o.plain
      o.shows o.here o.stands (by simpa only [Nat.zero_add] using hall) with
      ⟨out, given, hout, hgiven, hhanded, hfailures⟩
    rw [List.nil_append] at hhanded
    refine ⟨o.names.length + 1, out, hout, ?_, ?_, ?_⟩
    · intro name hname
      exact hgiven.subset (hhanded ▸ hname)
    · rw [hhanded]
      exact o.nodup.sublist hgiven.sublist
    · intro hfailed
      exact absurd hfailures hfailed

/-- With a filler that takes every name, a connection that stays down keeps the loop
running for ever. -/
theorem listFrom_down (haccepts : ∀ k, accepts k = true) (hdown : ∀ k, deliveries k ≠ .answered)
    (fuel k : Nat) {s : Listing} (hmore : s.it.isEnd = false) :
    listFrom tree errorCode codes accepts deliveries fuel k s = none := by
  induction fuel generalizing k s with
  | zero => rfl
  | succ fuel ih =>
      rw [listFrom, hmore, if_neg Bool.false_ne_true, haccepts, round_of_accepts]
      exact ih (k + 1) (next_lost tree errorCode fun hanswered => absurd hanswered (hdown k)).1

theorem not_readsWell_down (o : OpenDirectory tree) (hmore : o.it.isEnd = false)
    (haccepts : ∀ k, accepts k = true) (hdown : ∀ k, deliveries k ≠ .answered) :
    ¬ ReadsWell errorCode codes accepts deliveries o := by
  rintro ⟨fuel, out, hout, -⟩
  rw [readdir, listFrom_down (s := { it := o.it, d := o.d }) errorCode codes accepts deliveries
    haccepts hdown fuel 0 hmore] at hout
  cases hout

/-- A tree with one file, `/f`. -/
def flatTree : FileTree (List Char) where
  listing _ := .ok [['/', 'f']]
  status path := ⟨.ok true, .ok (path = []), .ok false, .ok (path = ['/', 'f']), .ok true⟩

def flatRoot : OpenDirectory flatTree where
  dir := []
  names := [['f']]
  plain := by decide
  nodup := by decide
  it := { hdl := 1, val := ['/', 'f'], isEnd := false, info := ⟨true, false, true, true, false⟩ }
  d := { fs := { iters := (∅ : Table _).insert 1 ⟨0, []⟩ }
         left := (∅ : Table _).insert 0 [['/', 'f']] }
  iter := ⟨0, []⟩
  shows := ⟨rfl, rfl, rfl⟩
  here := by rw [Table.getElem?_insert_self]
  stands := by
    rw [DirState.entriesLeft, Table.getElem?_insert_self]
    rfl

/-- The connection is lost before the first step, and `readdir` never returns. -/
theorem readdir_hangs_without_connection :
    ¬ ReadsWell (fun _ => EIO) ⟨1, 2, by decide, by decide⟩ (fun _ => true)
      (fun _ => .unsent EIO (by decide)) flatRoot := by
  apply not_readsWell_down _ _ _ _ flatRoot rfl
  · intro k
    rfl
  · intro k hanswered
    cases hanswered

end Fuse

end FerroRemote.Client
