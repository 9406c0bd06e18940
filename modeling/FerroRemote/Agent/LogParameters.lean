/-
# The parameters of a logger output

An output is added by one text: a path, and behind it, in brackets, the levels it is
for. The scanner looks for the last bracket that opens, so that the path may have
brackets and dashes of its own, and the bracket behind the levels may be left out.

A range whose upper level is left out is read like a single level, which is the upper
one.
-/

import FerroRemote.Agent.LogOutputs
import Mathlib.Data.List.Basic

namespace FerroRemote.Agent

/-- What the parameters say about the levels of an output. -/
inductive LevelRange
  | unspecified
  | upTo (b : List Char)
  | between (a b : List Char)
  deriving DecidableEq, Repr

/-- The level a text is the name of. -/
def LogLevel.named (text : List Char) : Option LogLevel :=
  levels.lookup (String.ofList (text.takeWhile (· ≠ Char.ofNat 0)))

/-- A text that may stand for a level in the parameters. -/
def PlainLevel (text : List Char) : Prop := ∀ c ∈ text, c ≠ '[' ∧ c ≠ ']' ∧ c ≠ '-'

instance (text : List Char) : Decidable (PlainLevel text) := List.decidableBAll _ text

namespace LevelRange

def closing (closed : Bool) : List Char := if closed then [']'] else []

/-- How the levels are written behind a path. -/
def text (closed : Bool) : LevelRange → List Char
  | unspecified => []
  | upTo b => '[' :: (b ++ closing closed)
  | between a b => '[' :: (a ++ '-' :: (b ++ closing closed))

/-- The two texts of the levels. -/
def texts : LevelRange → LevelTexts
  | unspecified => ⟨[], []⟩
  | upTo b => ⟨b, []⟩
  | between a b => ⟨a, b⟩

/-- The levels that a logger of level `level` takes for an output. A range without an
upper level is not a range from its lower level on: that level is the upper one. -/
def levels (level : LogLevel) : LevelRange → LogLevel × LogLevel
  | unspecified => (.zero, level)
  | upTo b => (.zero, if b = [] then level else (LogLevel.named b).getD .info)
  | between a b =>
    if b ≠ [] then ((LogLevel.named a).getD .zero, (LogLevel.named b).getD .info)
    else (.zero, if a = [] then level else (LogLevel.named a).getD .info)

/-- The texts can be found again: the levels are plain, and a path that has no levels
has no bracket that opens. -/
def Readable (path : List Char) : LevelRange → Prop
  | unspecified => '[' ∉ path
  | upTo b => PlainLevel b
  | between a b => PlainLevel a ∧ PlainLevel b

end LevelRange

namespace LevelTexts

theorem scan_plain {text : List Char} (hplain : PlainLevel text) (str taken : List Char)
    (second foundInt : Bool) (texts : LevelTexts) :
    scan (text ++ str) taken second foundInt texts =
      scan str (taken ++ text) second foundInt texts := by
  induction text generalizing taken with
  | nil => rw [List.nil_append, List.append_nil]
  | cons c text ih =>
      obtain ⟨-, hclose, hdash⟩ := hplain c List.mem_cons_self
      have hrest : PlainLevel text := fun d hd => hplain d (List.mem_cons_of_mem c hd)
      rw [List.cons_append, scan, if_neg hclose, if_neg hdash, ih hrest, List.append_assoc,
        List.singleton_append]

theorem scan_last {text : List Char} (hplain : PlainLevel text) (closed second : Bool)
    (texts : LevelTexts) :
    scan (text ++ LevelRange.closing closed) [] second true texts = texts.assign second text := by
  rw [scan_plain hplain, List.nil_append]
  cases closed with
  | true => rfl
  | false => rfl

theorem scan_dash {text : List Char} (hplain : PlainLevel text) (str : List Char)
    (texts : LevelTexts) :
    scan (text ++ '-' :: str) [] false true texts =
      scan str [] true true (texts.assign false text) := by
  rw [scan_plain hplain, List.nil_append, scan, if_neg (by decide), if_pos rfl]

theorem range_texts (levels : LevelRange) (level : LogLevel) :
    levels.texts.range level = levels.levels level := by
  cases levels with
  | unspecified => rfl
  | upTo b =>
      cases b with
      | nil => rfl
      | cons c b => rfl
  | between a b =>
      cases b with
      | cons c b => rfl
      | nil =>
          cases a with
          | nil => rfl
          | cons c a => rfl

end LevelTexts

theorem not_mem_closing (closed : Bool) : '[' ∉ LevelRange.closing closed := by
  cases closed with
  | true => decide
  | false => decide

theorem PlainLevel.not_mem {text : List Char} (hplain : PlainLevel text) : '[' ∉ text :=
  fun hmem => (hplain '[' hmem).1 rfl

/-- The parameters are split at the levels, whatever the path is. -/
theorem str2logger_text {path : List Char} {levels : LevelRange} (closed : Bool)
    (hreadable : levels.Readable path) :
    str2logger (String.ofList (path ++ levels.text closed)) =
      (String.ofList path, levels.texts) := by
  rw [str2logger, String.toList_ofList]
  cases levels with
  | unspecified =>
      have hsplit : splitLast '[' path = none := splitLast_eq_none hreadable
      rw [LevelRange.text, List.append_nil, hsplit]
      rfl
  | upTo b =>
      have hplain : PlainLevel b := hreadable
      have hfree : '[' ∉ b ++ LevelRange.closing closed := fun hmem =>
        (List.mem_append.mp hmem).elim hplain.not_mem (not_mem_closing closed)
      rw [LevelRange.text, splitLast_append path hfree]
      dsimp only
      rw [LevelTexts.scan_last hplain]
      rfl
  | between a b =>
      obtain ⟨ha, hb⟩ := hreadable
      have hfree : '[' ∉ a ++ '-' :: (b ++ LevelRange.closing closed) := by
        intro hmem
        rw [List.mem_append, List.mem_cons, List.mem_append] at hmem
        rcases hmem with hmem | hmem | hmem | hmem
        · exact ha.not_mem hmem
        · exact absurd hmem (by decide)
        · exact hb.not_mem hmem
        · exact not_mem_closing closed hmem
      rw [LevelRange.text, splitLast_append path hfree]
      dsimp only
      rw [LevelTexts.scan_dash ha, LevelTexts.scan_last hb]
      rfl

/-- The parameters of an output are found again in their text, and the output is added
for the levels they say. -/
theorem addLoggerOutput_text (s : LogOutputs) {path : List Char} {levels : LevelRange}
    (closed : Bool) (level : LogLevel) (opens : Bool) (hreadable : levels.Readable path) :
    str2logger (String.ofList (path ++ levels.text closed)) =
        (String.ofList path, levels.texts) ∧
      s.addLoggerOutput (String.ofList (path ++ levels.text closed)) level opens =
        s.addLogger (String.ofList path) (levels.levels level).1 (levels.levels level).2 opens := by
  have hread := str2logger_text closed hreadable
  refine ⟨hread, ?_⟩
  rw [LogOutputs.addLoggerOutput, hread]
  dsimp only
  rw [LevelTexts.range_texts]

/-- The path has brackets and dashes, and the bracket of the levels is not closed. -/
theorem addLoggerOutput_text_all_log :
    str2logger "a[0]-b.log[err-dbg" = ("a[0]-b.log", ⟨['e', 'r', 'r'], ['d', 'b', 'g']⟩) ∧
      LogOutputs.addLoggerOutput {} "a[0]-b.log[err-dbg" .info true =
        LogOutputs.addLogger {} "a[0]-b.log" .error .debug true :=
  @addLoggerOutput_text {} "a[0]-b.log".toList (.between ['e', 'r', 'r'] ['d', 'b', 'g'])
    false .info true ⟨by decide, by decide⟩

/-- `all.log[err-]` is not for errors and more: it is for what `all.log[err]` is for. -/
theorem open_range_is_upTo :
    str2logger "all.log[err-]" = ("all.log", ⟨['e', 'r', 'r'], []⟩) ∧
      (str2logger "all.log[err-]").2.range .debug = (.zero, .error) ∧
      ((str2logger "all.log[err-]").2.range .debug).1 ≠
        LogLevel.str2level ['e', 'r', 'r'] .zero := by
  decide

end FerroRemote.Agent
