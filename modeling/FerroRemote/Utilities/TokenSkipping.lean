/-
# Skipping tokens

`shift_while` takes one token after another with `next_info`, as long as their infos
compare with the value as they should. The iterator that it was given goes with them, and
back to the start of the token that does not compare. `next_info` moves it wherever there is
input left, in any trie, so the loop comes to an end.
-/

import FerroRemote.Utilities.PrefixTrie

namespace FerroRemote.Utilities.PrefixTrie

variable {K I : Type} [DecidableEq K] {C : Container K Nat}

namespace Heap

theorem scan_moves (t : Heap I C) (greedy : Bool) {rest : List K} {pos next last bb : Nat}
    (hbb : 0 < bb) : 0 < (t.scan greedy rest pos next last bb).2 := by
  induction rest generalizing pos next last bb with
  | nil => exact hbb
  | cons sym rest ih =>
      rw [scan]
      cases t.equalElement next sym with
      | none => exact hbb
      | some next =>
          simp only
          split
          · split
            · exact ih (Nat.succ_pos pos)
            · exact Nat.succ_pos pos
          · exact ih hbb

theorem nextInfo_moves (t : Heap I C) {input : List K} (hne : input ≠ []) (greedy : Bool) :
    0 < (t.nextInfo input greedy).2 := by
  rw [Heap.nextInfo, if_neg hne]
  exact t.scan_moves greedy Nat.one_pos

theorem length_drop_nextInfo (t : Heap I C) {input : List K} (hne : input ≠ []) (greedy : Bool) :
    (input.drop (t.nextInfo input greedy).2).length < input.length := by
  have hmoves := t.nextInfo_moves hne greedy
  have hlength := List.length_pos_of_ne_nil hne
  rw [List.length_drop]
  omega

/-- `shift_while`: what it returns, and how far `b` has moved. -/
def shiftWhile (t : Heap I C) (func : I → I → Bool) (inf : I) (input : List K) : Option I × Nat :=
  if hne : input ≠ [] then
    let tmp := t.nextInfo input true
    if tmp.1.any (func inf) then
      let behind := shiftWhile t func inf (input.drop tmp.2)
      (behind.1, tmp.2 + behind.2)
    else (tmp.1, 0)
  else (t[0]?.map (·.info), 0)
termination_by input.length
decreasing_by exact t.length_drop_nextInfo hne true

def shiftWhileNotEqual [BEq I] (t : Heap I C) (input : List K) (inf : I) : Option I × Nat :=
  t.shiftWhile (fun inf tmp => inf != tmp) inf input

def shiftWhileEqual [BEq I] (t : Heap I C) (input : List K) (inf : I) : Option I × Nat :=
  t.shiftWhile (fun inf tmp => inf == tmp) inf input

/-- The tokens of an input: the infos that `next_info` gives, and the lengths it takes -/
inductive Tokens (t : Heap I C) : List K → List (I × Nat) → Prop
  | nil : Tokens t [] []
  | cons {input : List K} {info : I} {moved : Nat} {tokens : List (I × Nat)} (hne : input ≠ [])
    (hnext : t.nextInfo input true = (some info, moved))
    (hrest : Tokens t (input.drop moved) tokens) : Tokens t input ((info, moved) :: tokens)

end Heap

/-- The elements that tokens take from the input -/
def span : List (I × Nat) → Nat
  | [] => 0
  | token :: tokens => token.2 + span tokens

/-- What a loop over the tokens of an input has to return: the first that fails, and the
place where it starts, or else the info of the root, at the end -/
inductive StopsAt (t : Heap I C) (passes : I → Bool) (root : I) (input : List K)
    (tokens : List (I × Nat)) : Option I × Nat → Prop
  | token {before behind : List (I × Nat)} {info : I} {moved : Nat}
    (htokens : tokens = before ++ (info, moved) :: behind)
    (hbefore : ∀ token ∈ before, passes token.1 = true) (hfails : passes info = false)
    (hthere : t.Tokens (input.drop (span before)) ((info, moved) :: behind)) :
    StopsAt t passes root input tokens (some info, span before)
  | root (hall : ∀ token ∈ tokens, passes token.1 = true) :
    StopsAt t passes root input tokens (some root, input.length)

namespace Heap

variable {t : Heap I C} {input : List K} {tokens : List (I × Nat)}

theorem Tokens.unique (htokens : t.Tokens input tokens) {tokens' : List (I × Nat)}
    (htokens' : t.Tokens input tokens') : tokens' = tokens := by
  induction htokens generalizing tokens' with
  | nil =>
      cases htokens' with
      | nil => rfl
      | cons hne => exact absurd rfl hne
  | cons hne hnext hrest ih =>
      cases htokens' with
      | nil => exact absurd rfl hne
      | cons hne' hnext' hrest' =>
          rw [hnext, Prod.mk.injEq, Option.some_inj] at hnext'
          rcases hnext' with ⟨rfl, rfl⟩
          rw [ih hrest']

variable {root : I} {stored : List K → Option I}

theorem Represents.exists_tokens (hrep : t.Represents root stored) (input : List K) :
    ∃ tokens, t.Tokens input tokens := by
  induction hlength : input.length using Nat.strong_induction_on generalizing input with
  | h length ih =>
      by_cases hne : input = []
      · rw [hne]
        exact ⟨[], .nil⟩
      · rcases hrep.nextInfo input true with ⟨info, moved, hnext, -⟩
        have hless := t.length_drop_nextInfo hne true
        rw [hnext, hlength] at hless
        rcases ih _ hless (input.drop moved) rfl with ⟨tokens, htokens⟩
        exact ⟨(info, moved) :: tokens, .cons hne hnext htokens⟩

end Heap

omit [DecidableEq K] in
theorem Picks.moved_le {stored : List K → Option I} {root : I} {input : List K} {greedy : Bool}
    {info : I} {moved : Nat} (hpicks : Picks stored root input greedy info moved) :
    moved ≤ input.length := by
  rcases hpicks with ⟨hmatch, -, -⟩ | ⟨-, -, hone⟩
  · exact hmatch.2.1
  · rw [hone]
    exact Nat.min_le_right 1 input.length

theorem StopsAt.cons {t : Heap I C} {passes : I → Bool} {root info : I} {input : List K}
    {moved : Nat} {tokens : List (I × Nat)} {stop : Option I × Nat}
    (hle : moved ≤ input.length) (hpass : passes info = true)
    (hstops : StopsAt t passes root (input.drop moved) tokens stop) :
    StopsAt t passes root input ((info, moved) :: tokens) (stop.1, moved + stop.2) := by
  cases hstops with
  | @token before behind _ _ htokens hbefore hfails hthere =>
      change StopsAt t passes root input _ (_, span ((info, moved) :: before))
      apply StopsAt.token (by rw [htokens, List.cons_append]) _ hfails
      · rw [span, ← List.drop_drop]
        exact hthere
      · exact List.forall_mem_cons.mpr ⟨hpass, hbefore⟩
  | root hall =>
      rw [List.length_drop, Nat.add_sub_cancel' hle]
      exact .root (List.forall_mem_cons.mpr ⟨hpass, hall⟩)

namespace Heap

variable {t : Heap I C} {input : List K} {tokens : List (I × Nat)} {root : I}
  {stored : List K → Option I}

/-- The loop stops where it should. The induction is on the tokens of the input. -/
theorem Represents.shiftWhile (hrep : t.Represents root stored) (func : I → I → Bool) (inf : I)
    (htokens : t.Tokens input tokens) :
    StopsAt t (func inf) ((stored []).getD root) input tokens (t.shiftWhile func inf input) := by
  induction htokens with
  | nil =>
      rw [Heap.shiftWhile, dif_neg (fun hne => hne rfl), hrep.root_info]
      exact .root fun token htoken => absurd htoken List.not_mem_nil
  | @cons input info moved tokens hne hnext hrest ih =>
      rw [Heap.shiftWhile, dif_pos hne]
      simp only [hnext, Option.any_some]
      cases hfunc : func inf info with
      | true =>
          rcases hrep.nextInfo input true with ⟨info', moved', hnext', hpicks⟩
          rw [hnext, Prod.mk.injEq] at hnext'
          rw [← hnext'.2] at hpicks
          exact ih.cons hpicks.moved_le hfunc
      | false =>
          exact @StopsAt.token _ _ _ _ _ _ _ _ _ [] tokens info moved rfl
            (fun token htoken => absurd htoken List.not_mem_nil) hfunc (.cons hne hnext hrest)

end Heap

/-- The loops stop at the first token, of those into which `next_info` splits the input,
whose info is not equal to the value, or is equal to it, and leave the iterator at its start.
Where there is none they stop at the end, with the info of the root. -/
theorem shift_while_stops [Inhabited I] [BEq I] (C : Container K Nat) (root : I)
    (pushes : List (List K × I)) (input : List K) (inf : I) :
    ∃ tokens, (pushAll C root pushes).Tokens input tokens ∧
      (∀ tokens', (pushAll C root pushes).Tokens input tokens' → tokens' = tokens) ∧
      StopsAt (pushAll C root pushes) (fun info => inf == info)
        ((latest pushes []).getD root) input tokens
        ((pushAll C root pushes).shiftWhileEqual input inf) ∧
      StopsAt (pushAll C root pushes) (fun info => inf != info)
        ((latest pushes []).getD root) input tokens
        ((pushAll C root pushes).shiftWhileNotEqual input inf) := by
  have hrep := represents_pushAll C root pushes
  rcases hrep.exists_tokens input with ⟨tokens, htokens⟩
  exact ⟨tokens, htokens, fun tokens' htokens' => htokens.unique htokens',
    hrep.shiftWhile (fun inf tmp => inf == tmp) inf htokens,
    hrep.shiftWhile (fun inf tmp => inf != tmp) inf htokens⟩

end FerroRemote.Utilities.PrefixTrie
