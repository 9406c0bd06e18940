/-
# How a path of names is taken apart

`split_path` reads a string by its pointer, in two loops: the inner one is for what is
between quotes. Both stop at the zero that ends the string, and then the pointer is
advanced once more for the outer loop, behind the zero. It is right there only when the
inner loop has stopped at a quote, and when a backslash has a character after it.

The scanner runs on a memory in which anything may lie behind the string.
-/

import FerroRemote.Lua.ObjectTexts
import Mathlib.Algebra.Order.Ring.Nat
import Mathlib.Data.List.Basic

namespace FerroRemote.Lua

/-- The character that ends a string. -/
abbrev nul : Char := Char.ofNat 0

/-- A string as the address of its first character. -/
structure CString where
  memory : Nat → Char
  length : Nat
  ends : memory length = nul
  apart : ∀ i < length, memory i ≠ nul

namespace CString

variable (c : CString)

/-- The characters from a position on. -/
def textFrom (i : Nat) : Text := (List.range' i (c.length - i)).map c.memory

def text : Text := c.textFrom 0

theorem textFrom_length : c.textFrom c.length = [] := by
  rw [textFrom, Nat.sub_self, List.range'_zero, List.map_nil]

theorem textFrom_of_lt {i : Nat} (hlt : i < c.length) :
    c.textFrom i = c.memory i :: c.textFrom (i + 1) := by
  have hlen : c.length - i = c.length - (i + 1) + 1 := by omega
  rw [textFrom, hlen, List.range'_succ, List.map_cons]
  rfl

/-- A string with a text, and what lies behind it. -/
def ofText (text : Text) (hfree : nul ∉ text) (beyond : Nat → Char) : CString where
  memory i := (text ++ [nul]).getD i (beyond i)
  length := text.length
  ends := by
    rw [List.getD_eq_getElem?_getD, List.getElem?_concat_length]
    rfl
  apart i hi := by
    rw [List.getD_eq_getElem?_getD, List.getElem?_append_left hi, List.getElem?_eq_getElem hi]
    exact fun heq => hfree (heq ▸ List.getElem_mem hi)

end CString

/-- `path_element_info`. A name in quotes is of type string, any other may be of any
type. -/
structure PathElementInfo where
  name : Text := []
  type : TypeId := .lua .none
  deriving DecidableEq, Repr

namespace PathElementInfo

def pushBack (info : PathElementInfo) (c : Char) : PathElementInfo :=
  { info with name := info.name ++ [c] }

def clear (_ : PathElementInfo) : PathElementInfo := ⟨[], .lua .none⟩

def empty (info : PathElementInfo) : Bool := info.name.isEmpty

def check (info : PathElementInfo) (n : Text) (t : TypeId) : Bool :=
  info.name == n && (info.type == .lua .none || info.type == t)

end PathElementInfo

/-- The variables of `split_path`, and whether it is in the inner loop. -/
structure Scanner where
  str : Nat := 0
  quoted : Bool := false
  next : PathElementInfo := {}
  tmp : List PathElementInfo := []
  deriving DecidableEq, Repr

/-- `split_path` goes on, or returns the elements. -/
inductive ScanState
  | scanning (s : Scanner)
  | returned (res : List PathElementInfo)
  deriving DecidableEq, Repr

namespace Scanner

variable (memory : Nat → Char) (s : Scanner)

/-- What is put into the result at the end. -/
def result : List PathElementInfo := if s.next.empty then s.tmp else s.tmp ++ [s.next]

/-- A turn of the inner loop. Behind it the outer loop advances the pointer, whether it is
at a quote or at the zero. -/
def quotedTurn : List Nat × ScanState :=
  let c := memory s.str
  if c = nul then ([s.str], .scanning { s with str := s.str + 1, quoted := false })
  else if c = '\\' then
    ([s.str, s.str + 1],
      .scanning { s with str := s.str + 2, next := s.next.pushBack (memory (s.str + 1)) })
  else if c = '\'' then ([s.str], .scanning { s with str := s.str + 1, quoted := false })
  else ([s.str], .scanning { s with str := s.str + 1, next := s.next.pushBack c })

/-- A turn of the outer loop. -/
def plainTurn : List Nat × ScanState :=
  let c := memory s.str
  if c = nul then ([s.str], .returned s.result)
  else if c = '\'' then
    ([s.str],
      .scanning { s with
        str := s.str + 1, quoted := true, next := { s.next with type := .lua .string } })
  else if c = '.' then
    ([s.str], .scanning { s with str := s.str + 1, tmp := s.tmp ++ [s.next], next := s.next.clear })
  else if c = '\\' then
    let escaped := memory (s.str + 1)
    -- a zero ends the switch, and not the loop
    if escaped = nul then ([s.str, s.str + 1], .scanning { s with str := s.str + 2 })
    else
      ([s.str, s.str + 1],
        .scanning { s with str := s.str + 2, next := s.next.pushBack escaped })
  else ([s.str], .scanning { s with str := s.str + 1, next := s.next.pushBack c })

/-- A turn of a loop, with the positions it reads. -/
def turn : List Nat × ScanState := if s.quoted then s.quotedTurn memory else s.plainTurn memory

def run : Nat → Scanner → List Nat × ScanState
  | 0, s => ([], .scanning s)
  | k + 1, s =>
    match s.turn memory with
    | (reads, .returned res) => (reads, .returned res)
    | (reads, .scanning s) => (reads ++ (run k s).1, (run k s).2)

end Scanner

/-- Every quote of a text is closed, and no backslash is the last character. The character
after a backslash counts for nothing. -/
def closed (quoted escaped : Bool) : Text → Bool
  | [] => !quoted && !escaped
  | c :: text =>
    if escaped then closed quoted false text
    else if c = '\\' then closed quoted true text
    else if c = '\'' then closed (!quoted) false text
    else closed quoted false text

/-- What the characters of a text make of the elements found so far. A character is part
of the name behind a backslash, in quotes, and where it is none of the three that are
special. -/
def scanned (quoted escaped : Bool) (next : PathElementInfo) (tmp : List PathElementInfo) :
    Text → List PathElementInfo
  | [] => if next.empty then tmp else tmp ++ [next]
  | c :: text =>
    if escaped then scanned quoted false (next.pushBack c) tmp text
    else if c = '\\' then scanned quoted true next tmp text
    else if c = '\'' then
      scanned (!quoted) false (if quoted then next else { next with type := .lua .string }) tmp text
    else if c = '.' ∧ quoted = false then scanned false false next.clear (tmp ++ [next]) text
    else scanned quoted false (next.pushBack c) tmp text

/-- `split_path` reads up to the zero, and takes one turn for each character and one for
the zero. -/
def CString.StaysInside (c : CString) : Prop :=
  (∀ k, ∀ i ∈ (Scanner.run c.memory k {}).1, i ≤ c.length) ∧
    ∃ res, (Scanner.run c.memory (c.length + 1) {}).2 = .returned res

theorem closed_escaped (c : CString) (quoted : Bool) {i : Nat} (hlt : i < c.length) :
    closed quoted true (c.textFrom (i + 1)) =
      (decide (i + 2 ≤ c.length) && closed quoted false (c.textFrom (i + 2))) := by
  rcases Nat.lt_or_eq_of_le hlt with hlt | heq
  · rw [c.textFrom_of_lt hlt, closed, if_pos rfl, decide_eq_true (by omega), Bool.true_and]
  · have heq : i + 1 = c.length := heq
    rw [heq, c.textFrom_length, closed, Bool.not_true, Bool.and_false, decide_eq_false (by omega),
      Bool.false_and]

theorem closed_textFrom (c : CString) (quoted : Bool) {i : Nat} (hlt : i < c.length) :
    closed quoted false (c.textFrom i) =
      if c.memory i = '\\' then
        decide (i + 2 ≤ c.length) && closed quoted false (c.textFrom (i + 2))
      else if c.memory i = '\'' then closed (!quoted) false (c.textFrom (i + 1))
      else closed quoted false (c.textFrom (i + 1)) := by
  rw [c.textFrom_of_lt hlt, closed, if_neg Bool.false_ne_true, closed_escaped c quoted hlt]

theorem scanned_escaped (c : CString) (quoted : Bool) (next : PathElementInfo)
    (tmp : List PathElementInfo) {i : Nat} (hlt : i + 1 < c.length) (hc : c.memory i = '\\') :
    scanned quoted false next tmp (c.textFrom i) =
      scanned quoted false (next.pushBack (c.memory (i + 1))) tmp (c.textFrom (i + 2)) := by
  rw [c.textFrom_of_lt (by omega), scanned, if_neg Bool.false_ne_true, if_pos hc,
    c.textFrom_of_lt hlt, scanned, if_pos rfl]

theorem scanned_textFrom (c : CString) (quoted : Bool) (next : PathElementInfo)
    (tmp : List PathElementInfo) {i : Nat} (hlt : i < c.length) (hc : c.memory i ≠ '\\') :
    scanned quoted false next tmp (c.textFrom i) =
      if c.memory i = '\'' then
        scanned (!quoted) false (if quoted then next else { next with type := .lua .string }) tmp
          (c.textFrom (i + 1))
      else if c.memory i = '.' ∧ quoted = false then
        scanned false false next.clear (tmp ++ [next]) (c.textFrom (i + 1))
      else scanned quoted false (next.pushBack (c.memory i)) tmp (c.textFrom (i + 1)) := by
  rw [c.textFrom_of_lt hlt, scanned, if_neg Bool.false_ne_true, if_neg hc]

theorem not_closed_length (c : CString) : closed true false (c.textFrom c.length) = false := by
  rw [c.textFrom_length]
  rfl

namespace Scanner

/-- What the rest of a string makes of the elements found so far. -/
def scannedFrom (c : CString) (s : Scanner) : List PathElementInfo :=
  scanned s.quoted false s.next s.tmp (c.textFrom s.str)

/-- What a turn does that is not the last one. The pointer is behind the zero exactly if
the text is not closed in what was read. -/
structure Advances (c : CString) (s s' : Scanner) (reads : List Nat) : Prop where
  lt : s.str < s'.str
  le : s'.str ≤ c.length + 1
  inside : s'.str ≤ c.length → ∀ i ∈ reads, i ≤ c.length
  closed_eq : closed s.quoted false (c.textFrom s.str) =
    (decide (s'.str ≤ c.length) && closed s'.quoted false (c.textFrom s'.str))
  scanned_eq : s'.str ≤ c.length → s.scannedFrom c = s'.scannedFrom c

variable {c : CString} {s : Scanner}

theorem advances_one {s' : Scanner} (hlt : s.str < c.length) (hstr : s'.str = s.str + 1)
    (hclosed : closed s.quoted false (c.textFrom s.str) =
      closed s'.quoted false (c.textFrom (s.str + 1)))
    (hscanned : s.scannedFrom c = scanned s'.quoted false s'.next s'.tmp (c.textFrom (s.str + 1))) :
    Advances c s s' [s.str] where
  lt := by omega
  le := by omega
  inside _ i hi := by
    rw [List.mem_singleton] at hi
    omega
  closed_eq := by rw [hclosed, hstr, decide_eq_true (by omega), Bool.true_and]
  scanned_eq _ := by rw [hscanned, scannedFrom, hstr]

theorem advances_two {s' : Scanner} (hlt : s.str < c.length) (hstr : s'.str = s.str + 2)
    (hquoted : s'.quoted = s.quoted) (htmp : s'.tmp = s.tmp)
    (hnext : s.str + 1 < c.length → s'.next = s.next.pushBack (c.memory (s.str + 1)))
    (hc : c.memory s.str = '\\') : Advances c s s' [s.str, s.str + 1] where
  lt := by omega
  le := by omega
  inside hle i hi := by
    rw [List.mem_cons, List.mem_singleton] at hi
    omega
  closed_eq := by rw [closed_textFrom c s.quoted hlt, if_pos hc, hstr, hquoted]
  scanned_eq hle := by
    have hlt' : s.str + 1 < c.length := by omega
    rw [scannedFrom, scannedFrom, scanned_escaped c s.quoted s.next s.tmp hlt' hc, hquoted, htmp,
      hnext hlt', hstr]

theorem advances_end {s' : Scanner} (hquoted : s.quoted = true) (heq : s.str = c.length)
    (hstr : s'.str = s.str + 1) : Advances c s s' [s.str] where
  lt := by omega
  le := by omega
  inside hle := by omega
  closed_eq := by
    rw [hquoted, heq, not_closed_length, decide_eq_false (by omega), Bool.false_and]
  scanned_eq hle := by omega

theorem quotedTurn_advances (hquoted : s.quoted = true) (hle : s.str ≤ c.length) :
    ∃ s' reads, s.quotedTurn c.memory = (reads, .scanning s') ∧ Advances c s s' reads := by
  rcases Nat.lt_or_eq_of_le hle with hlt | heq
  · have hne : c.memory s.str ≠ nul := c.apart _ hlt
    have hclosed := closed_textFrom c s.quoted hlt
    rw [quotedTurn, if_neg hne]
    by_cases hescape : c.memory s.str = '\\'
    · rw [if_pos hescape]
      exact ⟨_, _, rfl, advances_two hlt rfl rfl rfl (fun _ => rfl) hescape⟩
    · have hscanned := scanned_textFrom c s.quoted s.next s.tmp hlt hescape
      rw [if_neg hescape] at hclosed ⊢
      by_cases hquote : c.memory s.str = '\''
      · rw [if_pos hquote] at hclosed hscanned ⊢
        rw [if_pos hquoted] at hscanned
        exact ⟨_, _, rfl, advances_one hlt rfl (by rw [hclosed, hquoted]; rfl)
          (by rw [scannedFrom, hscanned, hquoted]; rfl)⟩
      · have hnot : ¬ (c.memory s.str = '.' ∧ s.quoted = false) := by
          rw [hquoted]
          exact fun hand => Bool.noConfusion hand.2
        rw [if_neg hquote] at hclosed hscanned ⊢
        rw [if_neg hnot] at hscanned
        exact ⟨_, _, rfl, advances_one hlt rfl hclosed hscanned⟩
  · have hnul : c.memory s.str = nul := heq ▸ c.ends
    rw [quotedTurn, if_pos hnul]
    exact ⟨_, _, rfl, advances_end hquoted heq rfl⟩

theorem plainTurn_escaped (hlt : s.str < c.length) (hescape : c.memory s.str = '\\') :
    ∃ s' reads, s.plainTurn c.memory = (reads, .scanning s') ∧ Advances c s s' reads := by
  have hne : c.memory s.str ≠ nul := c.apart _ hlt
  have hquote : c.memory s.str ≠ '\'' := hescape ▸ by decide
  have hdot : c.memory s.str ≠ '.' := hescape ▸ by decide
  rw [plainTurn, if_neg hne, if_neg hquote, if_neg hdot, if_pos hescape]
  by_cases hend : c.memory (s.str + 1) = nul
  · rw [if_pos hend]
    exact ⟨_, _, rfl, advances_two hlt rfl rfl rfl
      (fun hlt' => absurd hend (c.apart _ hlt')) hescape⟩
  · rw [if_neg hend]
    exact ⟨_, _, rfl, advances_two hlt rfl rfl rfl (fun _ => rfl) hescape⟩

theorem plainTurn_advances (hplain : s.quoted = false) (hlt : s.str < c.length) :
    ∃ s' reads, s.plainTurn c.memory = (reads, .scanning s') ∧ Advances c s s' reads := by
  by_cases hescape : c.memory s.str = '\\'
  · exact plainTurn_escaped hlt hescape
  · have hne : c.memory s.str ≠ nul := c.apart _ hlt
    have hclosed := closed_textFrom c s.quoted hlt
    have hscanned := scanned_textFrom c s.quoted s.next s.tmp hlt hescape
    rw [plainTurn, if_neg hne]
    rw [if_neg hescape] at hclosed
    by_cases hquote : c.memory s.str = '\''
    · rw [if_pos hquote] at hclosed hscanned ⊢
      exact ⟨_, _, rfl, advances_one hlt rfl (by rw [hclosed, hplain]; rfl)
        (by rw [scannedFrom, hscanned, hplain]; rfl)⟩
    · rw [if_neg hquote] at hclosed hscanned ⊢
      by_cases hdot : c.memory s.str = '.'
      · rw [if_pos ⟨hdot, hplain⟩] at hscanned
        rw [if_pos hdot]
        exact ⟨_, _, rfl, advances_one hlt rfl hclosed (by rw [scannedFrom, hscanned, hplain])⟩
      · rw [if_neg fun hand => hdot hand.1] at hscanned
        rw [if_neg hdot, if_neg hescape]
        exact ⟨_, _, rfl, advances_one hlt rfl hclosed hscanned⟩

theorem turn_end (hplain : s.quoted = false) (hstr : s.str = c.length) :
    s.turn c.memory = ([s.str], .returned s.result) := by
  have hnul : c.memory s.str = nul := hstr ▸ c.ends
  rw [turn, hplain, if_neg Bool.false_ne_true, plainTurn, if_pos hnul]

/-- Up to the zero, a turn either is the last one or advances. -/
theorem turn_cases (hle : s.str ≤ c.length) :
    (s.quoted = false ∧ s.str = c.length) ∨
      ∃ s' reads, s.turn c.memory = (reads, .scanning s') ∧ Advances c s s' reads := by
  cases hquoted : s.quoted with
  | true =>
      rw [turn, if_pos hquoted]
      exact .inr (quotedTurn_advances hquoted hle)
  | false =>
      rcases Nat.lt_or_eq_of_le hle with hlt | heq
      · rw [turn, hquoted, if_neg Bool.false_ne_true]
        exact .inr (plainTurn_advances hquoted hlt)
      · exact .inl ⟨rfl, heq⟩

theorem mem_turn (memory : Nat → Char) (s : Scanner) : s.str ∈ (s.turn memory).1 := by
  unfold turn quotedTurn plainTurn
  split
  · dsimp only
    split_ifs <;> exact List.mem_cons_self
  · dsimp only
    split_ifs <;> exact List.mem_cons_self

/-- In a closed text the scanner does not leave the string. -/
theorem run_inside (k : Nat) (hle : s.str ≤ c.length)
    (hclosed : closed s.quoted false (c.textFrom s.str) = true) :
    ∀ i ∈ (run c.memory k s).1, i ≤ c.length := by
  induction k generalizing s with
  | zero => exact fun i hi => absurd hi List.not_mem_nil
  | succ k ih =>
      rcases turn_cases hle with ⟨hplain, heq⟩ | ⟨s', reads, hturn, hadvances⟩
      · rw [run, turn_end hplain heq]
        exact fun i hi => by
          rw [List.mem_singleton] at hi
          omega
      · rw [hadvances.closed_eq, Bool.and_eq_true, decide_eq_true_eq] at hclosed
        rw [run, hturn]
        exact fun i hi => (List.mem_append.mp hi).elim (hadvances.inside hclosed.1 i)
          (ih hclosed.1 hclosed.2 i)

/-- In a closed text there is a turn for each character left and one for the zero, and
the elements are those of the text. -/
theorem run_returns {k : Nat} (hle : s.str ≤ c.length) (hk : c.length < s.str + k)
    (hclosed : closed s.quoted false (c.textFrom s.str) = true) :
    (run c.memory k s).2 = .returned (s.scannedFrom c) := by
  induction k generalizing s with
  | zero => omega
  | succ k ih =>
      rcases turn_cases hle with ⟨hplain, heq⟩ | ⟨s', reads, hturn, hadvances⟩
      · rw [run, turn_end hplain heq, scannedFrom, heq, c.textFrom_length]
        rfl
      · rw [hadvances.closed_eq, Bool.and_eq_true, decide_eq_true_eq] at hclosed
        have hlt := hadvances.lt
        rw [run, hturn, hadvances.scanned_eq hclosed.1]
        exact ih hclosed.1 (by omega) hclosed.2

theorem run_outside (hle : s.str ≤ c.length)
    (hopen : closed s.quoted false (c.textFrom s.str) = false) :
    ∃ k, c.length + 1 ∈ (run c.memory k s).1 := by
  induction hleft : c.length - s.str using Nat.strong_induction_on generalizing s with
  | _ left ih =>
      rcases turn_cases hle with ⟨hplain, heq⟩ | ⟨s', reads, hturn, hadvances⟩
      · rw [hplain, heq, c.textFrom_length] at hopen
        cases hopen
      · have hlt := hadvances.lt
        by_cases hle' : s'.str ≤ c.length
        · rw [hadvances.closed_eq, decide_eq_true hle', Bool.true_and] at hopen
          rcases ih (c.length - s'.str) (by omega) hle' hopen rfl with ⟨k, hk⟩
          use k + 1
          rw [run, hturn]
          exact List.mem_append_right reads hk
        · -- the next turn reads what is behind the zero
          have hstr : s'.str = c.length + 1 := by
            have := hadvances.le
            omega
          use 2
          rw [run, hturn]
          apply List.mem_append_right reads
          rw [run, ← hstr]
          have hmem := mem_turn c.memory s'
          split
          · next hturn' => rwa [hturn'] at hmem
          · next hturn' =>
              rw [hturn'] at hmem
              exact List.mem_append_left _ hmem

end Scanner

/-- `split_path` stays inside the string exactly if its text is closed, whatever lies
behind it. -/
theorem staysInside_iff_closed (c : CString) :
    c.StaysInside ↔ closed false false c.text = true := by
  apply Iff.intro
  · intro hinside
    rw [← Bool.not_eq_false]
    intro hopen
    rcases Scanner.run_outside (s := {}) (Nat.zero_le c.length) hopen with ⟨k, hk⟩
    have hle := hinside.1 k _ hk
    omega
  · intro hclosed
    exact ⟨fun k => Scanner.run_inside k (Nat.zero_le c.length) hclosed, _,
      Scanner.run_returns (Nat.zero_le c.length) (by simp) hclosed⟩

/-- `split_path` in a turn for each character and one for the zero, if it returns so
early. -/
def splitPath (c : CString) : Option (List PathElementInfo) :=
  match (Scanner.run c.memory (c.length + 1) {}).2 with
  | .returned res => some res
  | .scanning _ => none

theorem splitPath_closed {c : CString} (hclosed : closed false false c.text = true) :
    splitPath c = some (scanned false false {} [] c.text) := by
  have hreturns := Scanner.run_returns (s := {}) (k := c.length + 1) (Nat.zero_le c.length)
    (by simp) hclosed
  rw [splitPath, hreturns]
  rfl

/-- A quote that is not closed, and a backslash at the end. -/
theorem open_text_leaves_string :
    ¬ (CString.ofText ['\'', 'a'] (by decide) fun _ => nul).StaysInside ∧
      ¬ (CString.ofText ['a', '\\'] (by decide) fun _ => nul).StaysInside := by
  refine ⟨fun hinside => ?_, fun hinside => ?_⟩
  · exact absurd (hinside.1 4 3 (by decide)) (by decide)
  · exact absurd (hinside.1 3 3 (by decide)) (by decide)

end FerroRemote.Lua
