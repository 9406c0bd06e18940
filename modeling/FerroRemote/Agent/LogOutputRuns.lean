/-
# Runs of the log outputs

What a record comes to depends on the slots that are connected, on the outputs that
exist and on the entries of `connections_`. They stay in step as long as no name is
added that is there already, every file can be opened, and an output that was added
as `-` is not deleted by that name, which `del_logger_output` does not translate.

Each of the three puts the next record or the next flush where it should not go.
-/

import FerroRemote.Agent.LogOutputs
import Mathlib.Data.List.Nodup

namespace FerroRemote.Agent

theorem connectionName_of_isStdout {path : String} (hstdout : isStdout path = true) :
    connectionName path = stdoutName :=
  if_pos hstdout

theorem connectionName_of_not_isStdout {path : String} (hstdout : ¬ isStdout path = true) :
    connectionName path = path :=
  if_neg hstdout

theorem connectionName_cases (path : String) :
    connectionName path = path ∨ path = stdoutName2 ∧ connectionName path = stdoutName := by
  by_cases hstdout : isStdout path = true
  · rw [connectionName_of_isStdout hstdout]
    rw [isStdout, Bool.or_eq_true, beq_iff_eq, beq_iff_eq] at hstdout
    rcases hstdout with rfl | rfl
    · exact Or.inl rfl
    · exact Or.inr ⟨rfl, rfl⟩
  · exact Or.inl (connectionName_of_not_isStdout hstdout)

theorem connectionName_ne_stdoutName2 (path : String) : connectionName path ≠ stdoutName2 := by
  intro heq
  rcases connectionName_cases path with hsame | ⟨-, hother⟩
  · rw [hsame] at heq
    subst heq
    exact absurd hsame (by decide)
  · rw [hother] at heq
    exact absurd heq (by decide)

theorem connectionName_eq_syslogName_iff (path : String) :
    connectionName path = syslogName ↔ isSyslog path = true := by
  rw [isSyslog, beq_iff_eq]
  constructor
  · intro heq
    rcases connectionName_cases path with hsame | ⟨-, hother⟩
    · exact hsame.symm.trans heq
    · rw [hother] at heq
      exact absurd heq (by decide)
  · rintro rfl
    decide

theorem hasStream_createByName (path : String) (minlvl maxlvl : LogLevel) (opens : Bool) :
    (createByName path minlvl maxlvl opens).hasStream = true ↔
      isStdout path = true ∨ isStderr path = true ∨ isSyslog path = true ∨ opens = true := by
  unfold createByName LogOutput.hasStream
  cases isStdout path <;> cases isStderr path <;> cases isSyslog path <;> simp

/-- One more element, with another value than all the others. -/
theorem nodup_map_append_singleton {α β : Type} {f : α → β} {l : List α} {b : α}
    (hnodup : (l.map f).Nodup) (hnew : ∀ a ∈ l, f a ≠ f b) : ((l ++ [b]).map f).Nodup := by
  rw [List.map_append, List.nodup_append_comm]
  apply List.nodup_cons.mpr
  refine ⟨?_, hnodup⟩
  intro hmem
  obtain ⟨a, ha, heq⟩ := List.mem_map.mp hmem
  exact hnew a ha heq

/-- An output is where it should be: its entry has it and the handle of its slot, and
it can be written to. -/
structure LogOutputs.Stands (s : LogOutputs) (a : AddedOutput) : Prop where
  entry : ∃ connection, s.connections[connectionName a.name]? = some ⟨connection, a.output⟩ ∧
    s.onWrite.slots[connection]? = some a.output
  output : ∃ o, s.outputs[a.output]? = some o ∧ o.min = a.min ∧ o.max = a.max ∧ o.hasStream = true

/-- The subsystem has the outputs it should have, and no others. -/
structure LogOutputs.Holds (s : LogOutputs) (added : AddedOutputs) : Prop where
  /-- Every output has a name for itself, -/
  names : (added.map fun a => connectionName a.name).Nodup
  /-- and a number that was not used before. -/
  numbers : (added.map fun a => a.output).Nodup
  below : ∀ a ∈ added, a.output < s.next
  stands : ∀ a ∈ added, s.Stands a
  /-- An entry is one of an output. -/
  entries : ∀ (name : String) (conn : OutputConnection), s.connections[name]? = some conn →
    ∃ a ∈ added, connectionName a.name = name ∧ a.output = conn.output
  slots : s.onWrite.connected.Perm (added.map fun a => a.output)
  syslog : s.syslog = added.any fun a => isSyslog a.name

namespace LogOutputs

variable {s : LogOutputs} {added : AddedOutputs}

namespace Stands

variable {a : AddedOutput}

theorem logOutputSlot (hstands : s.Stands a) (call : Written) :
    s.logOutputSlot call a.output =
      if a.min ≤ call.1.level ∧ call.1.level ≤ a.max then [.write a.output call] else [] := by
  obtain ⟨o, houtput, hmin, hmax, hstream⟩ := hstands.output
  simp only [LogOutputs.logOutputSlot, houtput, LogOutput.takes, hstream, hmin, hmax,
    decide_eq_true_eq, if_true]

theorem flush (hstands : s.Stands a) : s.flush a.output = .flush a.output := by
  obtain ⟨o, houtput, -, -, hstream⟩ := hstands.output
  simp only [LogOutputs.flush, houtput, hstream, if_true]

end Stands

namespace Holds

theorem record_perm (hs : s.Holds added) (call : Written) :
    (s.record call).Perm (added.writes call) := by
  have hcalls : ∀ sub : AddedOutputs, (∀ a ∈ sub, s.Stands a) →
      (sub.map fun a => a.output).flatMap (s.logOutputSlot call) = sub.writes call := by
    intro sub hsub
    induction sub with
    | nil => rfl
    | cons a sub ih =>
        have hrest := ih fun b hb => hsub b (List.mem_cons_of_mem a hb)
        rw [List.map_cons, List.flatMap_cons, hrest, (hsub a List.mem_cons_self).logOutputSlot,
          AddedOutputs.writes, AddedOutputs.writes, List.filter_cons]
        by_cases htakes : a.min ≤ call.1.level ∧ call.1.level ≤ a.max
        · rw [if_pos htakes, if_pos (decide_eq_true htakes)]
          rfl
        · rw [if_neg htakes, if_neg fun h => htakes (of_decide_eq_true h)]
          rfl
  rw [← hcalls added hs.stands]
  exact hs.slots.flatMap_right _

theorem flushAll_mem (hs : s.Holds added) : ∀ use ∈ s.flushAll, use ∈ added.flushes := by
  intro use huse
  obtain ⟨⟨name, conn⟩, hentry, rfl⟩ := List.mem_map.mp huse
  obtain ⟨a, ha, -, houtput⟩ :=
    hs.entries name conn (Std.ExtTreeMap.mem_toList_iff_getElem?_eq_some.mp hentry)
  rw [← houtput, (hs.stands a ha).flush]
  exact List.mem_map.mpr ⟨a, ha, rfl⟩

theorem eq_of_output (hs : s.Holds added) {a b : AddedOutput} (ha : a ∈ added) (hb : b ∈ added)
    (heq : a.output = b.output) : a = b :=
  List.inj_on_of_nodup_map hs.numbers ha hb heq

theorem eq_of_name (hs : s.Holds added) {a b : AddedOutput} (ha : a ∈ added) (hb : b ∈ added)
    (heq : connectionName a.name = connectionName b.name) : a = b :=
  List.inj_on_of_nodup_map hs.names ha hb heq

theorem name_not_mem (hs : s.Holds added) {name : String} (hfree : s.connections[name]? = none) :
    ∀ a ∈ added, connectionName a.name ≠ name := by
  rintro a ha rfl
  obtain ⟨connection, hentry, -⟩ := (hs.stands a ha).entry
  rw [hfree] at hentry
  cases hentry

/-- The syslog is there when its flag says so. -/
theorem refuses_iff (hs : s.Holds added) (path : String) :
    (isSyslog path && added.any fun a => isSyslog a.name) = (isSyslog path && s.syslog) := by
  rw [hs.syslog]

theorem add_refused (hs : s.Holds added) {path : String} {minl maxl : LogLevel} {opens : Bool}
    (hrefused : (isSyslog path && s.syslog) = true) :
    (s.addLogger path minl maxl opens).Holds
      (added.add path s.next (createByName path minl maxl opens)) := by
  rw [addLogger, if_pos hrefused, AddedOutputs.add, hs.refuses_iff, if_pos hrefused]
  exact hs

end Holds

theorem addLogger_new {path : String} {minl maxl : LogLevel} {opens : Bool}
    (haccepted : ¬ (isSyslog path && s.syslog) = true)
    (hfree : s.connections[connectionName path]? = none) :
    s.addLogger path minl maxl opens =
      { onWrite := (s.onWrite.connect s.next).2
        outputs := s.outputs.insert s.next (createByName path minl maxl opens)
        next := s.next + 1
        connections := s.connections.insert (connectionName path) ⟨s.onWrite.next, s.next⟩
        syslog := s.syslog || isSyslog path } := by
  simp only [addLogger, if_neg haccepted, hfree]
  rfl

namespace Holds

theorem stands_addLogger (hs : s.Holds added) {path : String} {minl maxl : LogLevel}
    {opens : Bool} (haccepted : ¬ (isSyslog path && s.syslog) = true)
    (hfree : s.connections[connectionName path]? = none) {a : AddedOutput} (ha : a ∈ added) :
    (s.addLogger path minl maxl opens).Stands a := by
  rw [addLogger_new haccepted hfree]
  obtain ⟨⟨connection, hentry, hslot⟩, ⟨o, houtput, ho⟩⟩ := hs.stands a ha
  constructor
  · apply Exists.intro connection
    constructor
    · change (s.connections.insert _ _)[_]? = _
      rw [Std.ExtTreeMap.getElem?_insert, if_neg, hentry]
      rw [Std.compare_eq_iff_eq]
      exact (hs.name_not_mem hfree a ha).symm
    · rw [Signal.getElem?_connect, if_neg, hslot]
      exact (Nat.ne_of_lt (Signal.lt_next hslot)).symm
  · refine ⟨o, ?_, ho⟩
    change (s.outputs.insert _ _)[_]? = _
    rw [Table.getElem?_insert_eq, if_neg, houtput]
    exact (Nat.ne_of_lt (hs.below a ha)).symm

theorem stands_new {path : String} {minl maxl : LogLevel} {opens : Bool}
    (haccepted : ¬ (isSyslog path && s.syslog) = true)
    (hfree : s.connections[connectionName path]? = none)
    (hstream : (createByName path minl maxl opens).hasStream = true) :
    (s.addLogger path minl maxl opens).Stands ⟨path, s.next, minl.toNat, maxl.toNat⟩ := by
  rw [addLogger_new haccepted hfree]
  constructor
  · apply Exists.intro s.onWrite.next
    constructor
    · exact Std.ExtTreeMap.getElem?_insert_self
    · rw [Signal.getElem?_connect, if_pos rfl]
  · exact ⟨_, Std.ExtTreeMap.getElem?_insert_self, rfl, rfl, hstream⟩

theorem add_eq_append (hs : s.Holds added) {path : String} {minl maxl : LogLevel} {opens : Bool}
    (haccepted : ¬ (isSyslog path && s.syslog) = true)
    (hfree : s.connections[connectionName path]? = none)
    (hstream : (createByName path minl maxl opens).hasStream = true) :
    added.add path s.next (createByName path minl maxl opens) =
      added ++ [⟨path, s.next, minl.toNat, maxl.toNat⟩] := by
  have hothers : (added.filter fun a => connectionName a.name ≠ connectionName path) = added :=
    List.filter_eq_self.mpr fun a ha => decide_eq_true (hs.name_not_mem hfree a ha)
  rw [AddedOutputs.add, hs.refuses_iff, if_neg haccepted, if_pos hstream, hothers]
  rfl

theorem add_new (hs : s.Holds added) {path : String} {minl maxl : LogLevel} {opens : Bool}
    (haccepted : ¬ (isSyslog path && s.syslog) = true)
    (hfree : s.connections[connectionName path]? = none)
    (hstream : (createByName path minl maxl opens).hasStream = true) :
    (s.addLogger path minl maxl opens).Holds
      (added.add path s.next (createByName path minl maxl opens)) := by
  have hnew := stands_new haccepted hfree hstream
  have hstands : ∀ a ∈ added, (s.addLogger path minl maxl opens).Stands a := fun a ha =>
    hs.stands_addLogger haccepted hfree ha
  rw [hs.add_eq_append haccepted hfree hstream]
  rw [addLogger_new haccepted hfree] at hstands hnew ⊢
  constructor
  case names => exact nodup_map_append_singleton hs.names (hs.name_not_mem hfree)
  case numbers =>
    exact nodup_map_append_singleton hs.numbers fun a ha => Nat.ne_of_lt (hs.below a ha)
  case below =>
    intro a ha
    rcases List.mem_append.mp ha with hold | hlast
    · exact Nat.lt_succ_of_lt (hs.below a hold)
    · obtain rfl := List.mem_singleton.mp hlast
      exact Nat.lt_succ_self _
  case stands =>
    intro a ha
    rcases List.mem_append.mp ha with hold | hlast
    · exact hstands a hold
    · obtain rfl := List.mem_singleton.mp hlast
      exact hnew
  case entries =>
    intro name conn hentry
    change (s.connections.insert _ _)[name]? = _ at hentry
    rw [Std.ExtTreeMap.getElem?_insert] at hentry
    split at hentry
    · next heq =>
        cases hentry
        refine ⟨_, List.mem_append_right _ List.mem_cons_self, ?_, rfl⟩
        exact Std.compare_eq_iff_eq.mp heq
    · obtain ⟨a, ha, hboth⟩ := hs.entries name conn hentry
      exact ⟨a, List.mem_append_left _ ha, hboth⟩
  case slots =>
    rw [List.map_append]
    apply (s.onWrite.connected_connect_perm s.next).trans
    apply (hs.slots.cons s.next).trans
    exact (List.perm_append_singleton _ _).symm
  case syslog =>
    rw [List.any_append, ← hs.syslog]
    change _ = (s.syslog || (isSyslog path || false))
    rw [Bool.or_false]

theorem perm_cons (hs : s.Holds added) {a : AddedOutput} (ha : a ∈ added) :
    added.Perm (a :: added.filter fun b => connectionName b.name ≠ connectionName a.name) := by
  have hnodup : added.Nodup := List.Nodup.of_map _ hs.names
  have hnot : a ∉ added.filter fun b => connectionName b.name ≠ connectionName a.name := by
    intro hmem
    exact of_decide_eq_true (List.mem_filter.mp hmem).2 rfl
  apply (List.perm_ext_iff_of_nodup hnodup (List.nodup_cons.mpr ⟨hnot, hnodup.filter _⟩)).mpr
  intro b
  rw [List.mem_cons, List.mem_filter, decide_eq_true_eq]
  constructor
  · intro hb
    by_cases heq : connectionName b.name = connectionName a.name
    · exact Or.inl (hs.eq_of_name hb ha heq)
    · exact Or.inr ⟨hb, heq⟩
  · rintro (rfl | ⟨hb, -⟩)
    · exact ha
    · exact hb

/-- What a deletion leaves, when nothing goes by a name that is translated. -/
theorem del_eq {name : String} (hnamed : ∀ a ∈ added, a.name = name → connectionName a.name = name) :
    added.del name = added.filter fun a => connectionName a.name ≠ name := by
  apply List.filter_congr
  intro a ha
  rw [decide_eq_decide]
  exact and_iff_right_of_imp fun hne heq => hne (hnamed a ha heq)

theorem del_absent (hs : s.Holds added) {name : String}
    (hnamed : ∀ a ∈ added, a.name = name → connectionName a.name = name)
    (hfree : s.connections[name]? = none) : (s.delLoggerOutput name).Holds (added.del name) := by
  have hnames := hs.name_not_mem hfree
  have hsame : added.del name = added := by
    rw [del_eq hnamed]
    exact List.filter_eq_self.mpr fun a ha => decide_eq_true (hnames a ha)
  have hsyslog : (s.syslog && !isSyslog name) = s.syslog := by
    rw [hs.syslog]
    cases hname : isSyslog name with
    | false => rw [Bool.not_false, Bool.and_true]
    | true =>
        rw [Bool.not_true, Bool.and_false, eq_comm, List.any_eq_false]
        intro a ha hisSyslog
        apply hnames a ha
        rw [(connectionName_eq_syslogName_iff _).mpr hisSyslog]
        exact (beq_iff_eq.mp hname).symm
  have hagent : s.delLoggerOutput name = s := by
    simp only [delLoggerOutput, hfree, hsyslog]
  rw [hagent, hsame]
  exact hs

theorem isSyslog_connectionName (path : String) :
    isSyslog (connectionName path) = isSyslog path := by
  rw [Bool.eq_iff_iff, ← connectionName_eq_syslogName_iff path, isSyslog, beq_iff_eq]

end Holds

theorem delLoggerOutput_present {name : String} {conn : OutputConnection}
    (hentry : s.connections[name]? = some conn) :
    s.delLoggerOutput name =
      { s with
        onWrite := s.onWrite.disconnect (some conn.connection)
        outputs := s.outputs.erase conn.output
        connections := s.connections.erase name
        syslog := s.syslog && !isSyslog name } := by
  simp only [delLoggerOutput, hentry]

namespace Holds

theorem stands_del (hs : s.Holds added) {a b : AddedOutput} {connection : Nat} (ha : a ∈ added)
    (hslot : s.onWrite.slots[connection]? = some a.output)
    (hentry : s.connections[connectionName a.name]? = some ⟨connection, a.output⟩) (hb : b ∈ added)
    (hne : connectionName b.name ≠ connectionName a.name) :
    (s.delLoggerOutput (connectionName a.name)).Stands b := by
  have hother : a.output ≠ b.output := by
    intro heq
    exact hne (congrArg (fun c => connectionName c.name) (hs.eq_of_output ha hb heq)).symm
  rw [delLoggerOutput_present hentry]
  obtain ⟨⟨connection', hentry', hslot'⟩, ⟨o, houtput, ho⟩⟩ := hs.stands b hb
  constructor
  · apply Exists.intro connection'
    constructor
    · change (s.connections.erase _)[_]? = _
      rw [Std.ExtTreeMap.getElem?_erase, if_neg, hentry']
      rw [Std.compare_eq_iff_eq]
      exact hne.symm
    · rw [Signal.getElem?_disconnect, if_neg, hslot']
      intro heq
      cases heq
      rw [hslot, Option.some_inj] at hslot'
      exact hother hslot'
  · refine ⟨o, ?_, ho⟩
    change (s.outputs.erase _)[_]? = _
    rw [Table.getElem?_erase_of_ne hother, houtput]

theorem del_present (hs : s.Holds added) {a : AddedOutput} (ha : a ∈ added)
    (hnamed : ∀ b ∈ added, b.name = connectionName a.name →
      connectionName b.name = connectionName a.name) :
    (s.delLoggerOutput (connectionName a.name)).Holds (added.del (connectionName a.name)) := by
  have hperm := hs.perm_cons ha
  obtain ⟨connection, hentry, hslot⟩ := (hs.stands a ha).entry
  have hstands := fun b hb hne => hs.stands_del ha hslot hentry (b := b) hb hne
  rw [del_eq hnamed]
  rw [delLoggerOutput_present hentry] at hstands ⊢
  have hsub : (added.filter fun b => connectionName b.name ≠ connectionName a.name).Sublist added :=
    List.filter_sublist
  constructor
  case names => exact (hsub.map _).nodup hs.names
  case numbers => exact (hsub.map _).nodup hs.numbers
  case below => exact fun b hb => hs.below b (hsub.subset hb)
  case stands =>
    intro b hb
    exact hstands b (hsub.subset hb) (of_decide_eq_true (List.mem_filter.mp hb).2)
  case entries =>
    intro name conn hfound
    change (s.connections.erase _)[name]? = _ at hfound
    rw [Std.ExtTreeMap.getElem?_erase] at hfound
    split at hfound
    · cases hfound
    · next hne =>
        rw [Std.compare_eq_iff_eq] at hne
        obtain ⟨b, hb, rfl, houtput⟩ := hs.entries name conn hfound
        exact ⟨b, List.mem_filter.mpr ⟨hb, decide_eq_true fun heq => hne heq.symm⟩, rfl, houtput⟩
  case slots =>
    apply List.Perm.cons_inv (a := a.output)
    apply (Signal.connected_disconnect_perm hslot).symm.trans
    exact hs.slots.trans (hperm.map _)
  case syslog =>
    change (s.syslog && !isSyslog (connectionName a.name)) = _
    rw [hs.syslog, hperm.any_eq, List.any_cons, isSyslog_connectionName]
    cases hisSyslog : isSyslog a.name with
    | false => rw [Bool.false_or, Bool.not_false, Bool.and_true]
    | true =>
        rw [Bool.not_true, Bool.and_false, eq_comm, List.any_eq_false]
        intro b hb hother
        apply of_decide_eq_true (List.mem_filter.mp hb).2
        rw [(connectionName_eq_syslogName_iff _).mpr hother,
          (connectionName_eq_syslogName_iff _).mpr hisSyslog]

/-- Deleting by any name, with nothing that goes by a name that is translated. -/
theorem del (hs : s.Holds added) {name : String}
    (hnamed : ∀ a ∈ added, a.name = name → connectionName a.name = name) :
    (s.delLoggerOutput name).Holds (added.del name) := by
  cases hentry : s.connections[name]? with
  | none => exact hs.del_absent hnamed hentry
  | some conn =>
      obtain ⟨a, ha, rfl, -⟩ := hs.entries name conn hentry
      exact hs.del_present ha hnamed

end Holds

/-! ## Out of step -/

theorem flush_mem {name : String} {conn : OutputConnection}
    (hentry : s.connections[name]? = some conn) : s.flush conn.output ∈ s.flushAll :=
  List.mem_map.mpr ⟨(name, conn), Std.ExtTreeMap.mem_toList_iff_getElem?_eq_some.mpr hentry, rfl⟩

/-- The slot of an output that was replaced is still connected, and has a pointer to it. -/
theorem Holds.lost_mem_record (hs : s.Holds added) {path : String} {minl maxl : LogLevel}
    {opens : Bool} (haccepted : ¬ (isSyslog path && s.syslog) = true) {conn : OutputConnection}
    (hfound : s.connections[connectionName path]? = some conn) (call : Written) :
    .lost conn.output ∈ (s.addLogger path minl maxl opens).record call := by
  obtain ⟨a, ha, hname, houtput⟩ := hs.entries _ conn hfound
  obtain ⟨connection, -, hslot⟩ := (hs.stands a ha).entry
  rw [houtput] at hslot
  have hbelow := hs.below a ha
  rw [houtput] at hbelow
  simp only [addLogger, if_neg haccepted, hfound, record, List.mem_flatMap]
  apply Exists.intro conn.output
  constructor
  · apply Signal.mem_connected.mpr
    apply Exists.intro connection
    rw [Signal.getElem?_connect, if_neg (Nat.ne_of_lt (Signal.lt_next hslot)).symm, hslot]
  · rw [logOutputSlot, Table.getElem?_insert_of_ne (Nat.ne_of_lt hbelow).symm,
      Table.getElem?_erase_self]
    exact List.mem_singleton.mpr rfl

theorem lost_mem_flushAll {path : String} {minl maxl : LogLevel} {opens : Bool}
    (haccepted : ¬ (isSyslog path && s.syslog) = true)
    (hstream : ¬ (createByName path minl maxl opens).hasStream = true) :
    .lost s.next ∈ (s.addLogger path minl maxl opens).flushAll := by
  have hentry : (s.addLogger path minl maxl opens).connections[connectionName path]? =
      some ⟨s.onWrite.next, s.next⟩ := by
    simp only [addLogger, if_neg haccepted]
    exact Std.ExtTreeMap.getElem?_insert_self
  have hlost : (s.addLogger path minl maxl opens).flush s.next = .lost s.next := by
    simp only [addLogger, if_neg haccepted, flush, Table.getElem?_insert_eq, if_true, if_neg hstream]
  rw [← hlost]
  exact flush_mem hentry

/-- Under the name that is translated nothing is found, and what was added by it stays. -/
theorem Holds.flush_mem_del (hs : s.Holds added) {a : AddedOutput} (ha : a ∈ added) :
    .flush a.output ∈ (s.delLoggerOutput stdoutName2).flushAll := by
  have hfree : s.connections[stdoutName2]? = none := by
    cases hentry : s.connections[stdoutName2]? with
    | none => rfl
    | some conn =>
        obtain ⟨b, -, hname, -⟩ := hs.entries _ conn hentry
        exact absurd hname (connectionName_ne_stdoutName2 b.name)
  obtain ⟨connection, hentry, -⟩ := (hs.stands a ha).entry
  have hsame : (s.delLoggerOutput stdoutName2).flushAll = s.flushAll := by
    simp only [delLoggerOutput, hfree]
    rfl
  rw [hsame, ← (hs.stands a ha).flush]
  exact flush_mem hentry

end LogOutputs

namespace AddedOutputs

theorem lost_not_mem_writes (added : AddedOutputs) (call : Written) (out : Nat) :
    .lost out ∉ added.writes call := by
  intro hmem
  obtain ⟨a, -, ⟨⟩⟩ := List.mem_map.mp hmem

theorem lost_not_mem_flushes (added : AddedOutputs) (out : Nat) : .lost out ∉ added.flushes := by
  intro hmem
  obtain ⟨a, -, ⟨⟩⟩ := List.mem_map.mp hmem

theorem flush_mem_flushes_iff (added : AddedOutputs) (out : Nat) :
    .flush out ∈ added.flushes ↔ ∃ a ∈ added, a.output = out := by
  rw [flushes, List.mem_map]
  apply exists_congr
  intro a
  rw [OutputUse.flush.injEq]

end AddedOutputs

namespace LogOutputsRun

/-- Every record was written once to each output that takes it, and to no other, and
every flush was one of an output that should be there. The next record will be, and so
will the next flush. -/
structure Right (s : LogOutputsRun) : Prop where
  past : s.used.Perm s.due
  record : ∀ call, (s.agent.record call).Perm (s.added.writes call)
  flush : ∀ use ∈ s.agent.flushAll, use ∈ s.added.flushes

/-- An output is added under a name that is not taken, if it is added at all, and its
file can be opened; `-` is not deleted when something was added as `-`. -/
def KeepsNames (s : LogOutputsRun) : LogOutputAction → Prop
  | .addLoggerOutput params _ opens =>
    let path := (str2logger params).1
    isSyslog path && s.agent.syslog ∨
      s.agent.connections[connectionName path]? = none ∧
        (isStdout path ∨ isStderr path ∨ isSyslog path ∨ opens)
  | .delLoggerOutput name => name = stdoutName2 → ∀ a ∈ s.added, a.name ≠ stdoutName2
  | .record _ => True
  | .flushAll => True

/-- Records and flushes have gone where they should have, and the subsystem has the
outputs it should have. -/
structure InStep (s : LogOutputsRun) : Prop where
  past : s.used.Perm s.due
  holds : s.agent.Holds s.added

variable {s s' : LogOutputsRun}

theorem InStep.right (hs : s.InStep) : s.Right where
  past := hs.past
  record := hs.holds.record_perm
  flush := hs.holds.flushAll_mem

theorem inStep_init : InStep {} where
  past := List.Perm.nil
  holds :=
    { names := List.nodup_nil
      numbers := List.nodup_nil
      below := fun _ ha => absurd ha List.not_mem_nil
      stands := fun _ ha => absurd ha List.not_mem_nil
      entries := by
        intro name conn hentry
        change (∅ : Std.ExtTreeMap String OutputConnection compare)[name]? = _ at hentry
        rw [Std.ExtTreeMap.getElem?_empty] at hentry
        cases hentry
      slots := List.Perm.nil
      syslog := rfl }

theorem inStep_step {a : LogOutputAction} (hs : s.InStep) (hkeeps : s.KeepsNames a)
    (hstep : s.step a = some s') : s'.InStep := by
  cases a with
  | addLoggerOutput params level opens =>
      cases hstep
      refine ⟨hs.past, ?_⟩
      change (s.agent.addLogger _ _ _ opens).Holds (s.added.add _ _ (createByName _ _ _ opens))
      by_cases hrefused : (isSyslog (str2logger params).1 && s.agent.syslog) = true
      · exact hs.holds.add_refused hrefused
      · rcases hkeeps with hyes | ⟨hfree, hopens⟩
        · exact absurd hyes hrefused
        · exact hs.holds.add_new hrefused hfree ((hasStream_createByName _ _ _ _).mpr hopens)
  | delLoggerOutput name =>
      cases hstep
      refine ⟨hs.past, hs.holds.del ?_⟩
      rintro a ha rfl
      rcases connectionName_cases a.name with hsame | ⟨hname, -⟩
      · exact hsame
      · exact absurd hname (hkeeps hname a ha)
  | record call =>
      cases hstep
      exact ⟨hs.past.append (hs.holds.record_perm call), hs.holds⟩
  | flushAll =>
      cases hstep
      refine ⟨?_, hs.holds⟩
      have hall : s.agent.flushAll.filter (· ∈ s.added.flushes) = s.agent.flushAll :=
        List.filter_eq_self.mpr fun use huse => decide_eq_true (hs.holds.flushAll_mem use huse)
      change (s.used ++ _).Perm (s.due ++ s.agent.flushAll.filter (· ∈ s.added.flushes))
      rw [hall]
      exact hs.past.append_right _

/-- Any other step puts the next record or the next flush in the wrong place. -/
theorem keepsNames_of_right {a : LogOutputAction} (hs : s.InStep) (hstep : s.step a = some s')
    (hright : s'.Right) : s.KeepsNames a := by
  cases a with
  | addLoggerOutput params level opens =>
      cases hstep
      by_cases hrefused : (isSyslog (str2logger params).1 && s.agent.syslog) = true
      · exact Or.inl hrefused
      · apply Or.inr
        constructor
        · cases hfound : s.agent.connections[connectionName (str2logger params).1]? with
          | none => rfl
          | some conn =>
              let call : Written := (⟨0, 0⟩, [])
              have hlost := (hright.record call).subset
                (hs.holds.lost_mem_record hrefused hfound call)
              exact absurd hlost (AddedOutputs.lost_not_mem_writes _ _ _)
        · by_contra hopens
          have hlost := hright.flush _ (LogOutputs.lost_mem_flushAll hrefused fun hstream =>
            hopens ((hasStream_createByName _ _ _ _).mp hstream))
          exact AddedOutputs.lost_not_mem_flushes _ _ hlost
  | delLoggerOutput name =>
      cases hstep
      rintro rfl a ha hname
      have hflush := hright.flush _ (hs.holds.flush_mem_del ha)
      obtain ⟨b, hb, heq⟩ := (AddedOutputs.flush_mem_flushes_iff _ _).mp hflush
      obtain ⟨hmem, hne⟩ := List.mem_filter.mp hb
      obtain rfl := hs.holds.eq_of_output hmem ha heq
      exact (of_decide_eq_true hne).1 hname
  | record call => trivial
  | flushAll => trivial

/-- Log outputs are right in every state of a run exactly when its steps keep to the
names. -/
theorem right_iff_keepsNames (as : List LogOutputAction) :
    logOutputs.Along Right as ↔ logOutputs.Meets KeepsNames as := by
  apply Machine.along_iff_meets inStep_init
  · exact fun _ _ _ hs hkeeps hstep => inStep_step hs hkeeps hstep
  · exact fun _ hs => hs.right
  · exact fun _ _ _ hs hstep hright => keepsNames_of_right hs hstep hright

/-- Standard output is added by both of its names, and a record is written. -/
def stdoutTwice : List LogOutputAction :=
  [.addLoggerOutput "-" .info true, .addLoggerOutput "stdout[err-dbg]" .info true,
    .record (⟨2, 0⟩, ["text"])]

/-- The slot of the first output is called, and the output is not there any more. -/
theorem replaced_output_is_used : ¬ logOutputs.Along Right stdoutTwice := by
  apply Machine.not_along_of_run rfl
  intro hright
  have hlengths := hright.past.length_eq
  revert hlengths
  decide +kernel

end LogOutputsRun

end FerroRemote.Agent
