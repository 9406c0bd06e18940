/-
# Stretches of a file

The content of a file is a list; `readAt` is what reading at a position gives,
`writeAt` what writing there leaves. Writing beyond the end fills the gap first,
and writing nothing changes nothing. The two laws are what a transfer in several
pieces needs: reading and writing piece by piece, each piece where the one
before ended, is reading and writing at once.
-/

import Mathlib.Tactic.Common

namespace FerroRemote

universe u

namespace Extent

variable {α : Type u}

/-- Up to `n` elements from position `p` on. -/
def readAt (content : List α) (p n : Nat) : List α := (content.drop p).take n

/-- The content after `piece` has been written at position `p`. -/
def writeAt (fill : α) (content : List α) (p : Nat) (piece : List α) : List α :=
  if piece.isEmpty then content
  else
    (content ++ List.replicate (p - content.length) fill).take p ++ piece ++
      content.drop (p + piece.length)

theorem readAt_zero (content : List α) (p : Nat) : readAt content p 0 = [] := List.take_zero

theorem length_readAt_le (content : List α) (p n : Nat) : (readAt content p n).length ≤ n :=
  List.length_take_le _ _

theorem readAt_length (content : List α) (p n : Nat) :
    readAt content p (readAt content p n).length = readAt content p n := by
  rw [readAt, readAt, List.length_take, List.take_eq_take_iff]
  omega

theorem readAt_append_drop (content : List α) (p n : Nat) :
    readAt content p n ++ content.drop (p + (readAt content p n).length) = content.drop p :=
  calc readAt content p n ++ content.drop (p + (readAt content p n).length)
      = (content.drop p).take (readAt content p n).length ++
          (content.drop p).drop (readAt content p n).length := by
        rw [List.drop_drop]
        exact congrArg (· ++ _) (readAt_length content p n).symm
    _ = content.drop p := List.take_append_drop _ _

theorem readAt_add (content : List α) (p m n : Nat) :
    readAt content p (m + n) = readAt content p m ++ readAt content (p + m) n := by
  rw [readAt, readAt, readAt, List.take_add, List.drop_drop]

@[simp]
theorem writeAt_nil (fill : α) (content : List α) (p : Nat) :
    writeAt fill content p [] = content := rfl

theorem writeAt_of_le (fill : α) {content : List α} {p : Nat} (hp : p ≤ content.length)
    (piece : List α) :
    writeAt fill content p piece = content.take p ++ piece ++ content.drop (p + piece.length) := by
  cases piece with
  | nil =>
      rw [writeAt_nil, List.append_nil, List.length_nil, Nat.add_zero, List.take_append_drop]
  | cons a as =>
      rw [writeAt, Nat.sub_eq_zero_of_le hp, List.replicate_zero, List.append_nil]
      rfl

theorem length_writeAt_of_le (fill : α) {content : List α} {p : Nat} {piece : List α}
    (hwithin : p + piece.length ≤ content.length) :
    (writeAt fill content p piece).length = content.length := by
  rw [writeAt_of_le fill (by omega), List.length_append, List.length_append, List.length_drop,
    List.length_take_of_le (by omega)]
  omega

theorem writeAt_append (fill : α) (content : List α) (p : Nat) (first second : List α) :
    writeAt fill (writeAt fill content p first) (p + first.length) second =
      writeAt fill content p (first ++ second) := by
  cases hfirst : first.isEmpty with
  | true =>
      rw [List.isEmpty_iff] at hfirst
      subst hfirst
      rfl
  | false =>
      cases hsecond : second.isEmpty with
      | true =>
          rw [List.isEmpty_iff] at hsecond
          subst hsecond
          rw [writeAt_nil, List.append_nil]
      | false =>
          have hboth : (first ++ second).isEmpty = false := by
            cases first with
            | nil => cases hfirst
            | cons a as => rfl
          -- the part before the first piece is exactly `p` long
          have hbefore : ((content ++ List.replicate (p - content.length) fill).take p).length = p := by
            rw [List.length_take, List.length_append, List.length_replicate]
            omega
          generalize hpart :
            (content ++ List.replicate (p - content.length) fill).take p = before at hbefore
          have hwritten : writeAt fill content p first =
              before ++ first ++ content.drop (p + first.length) := by
            rw [writeAt, hfirst, hpart]
            rfl
          have hlong : (before ++ first).length = p + first.length := by
            rw [List.length_append, hbefore]
          have hnogap : p + first.length - (writeAt fill content p first).length = 0 := by
            rw [hwritten, List.length_append, hlong]
            omega
          have hkept : (writeAt fill content p first).take (p + first.length) = before ++ first := by
            rw [hwritten, ← hlong, List.take_left']
            rfl
          have hrest : (writeAt fill content p first).drop (p + first.length + second.length) =
              content.drop (p + (first ++ second).length) := by
            rw [hwritten, ← List.drop_drop, ← hlong, List.drop_left' rfl, hlong, List.drop_drop,
              List.length_append, Nat.add_assoc]
          calc writeAt fill (writeAt fill content p first) (p + first.length) second
              = (writeAt fill content p first ++ List.replicate 0 fill).take (p + first.length) ++
                  second ++ (writeAt fill content p first).drop (p + first.length + second.length) := by
                rw [writeAt, hsecond, hnogap]
                rfl
            _ = before ++ first ++ second ++ content.drop (p + (first ++ second).length) := by
                rw [List.replicate_zero, List.append_nil, hkept, hrest]
            _ = writeAt fill content p (first ++ second) := by
                rw [writeAt, hboth, hpart, List.append_assoc before first second]
                rfl

end Extent

end FerroRemote
