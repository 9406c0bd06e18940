/-
# The log of the agent, as a client hears it

A client writes to the log of the agent, and a client that has subscribed is told of every
record. On the way a text is cut into lines at its newlines, and the lines are put together
again with a newline behind each: what is heard is the text and a newline. The level is checked
when a record is made, not when it is heard, so that what a subscriber hears does not depend on
what others do with the level, or with subscriptions of their own, while records are queued.
-/

import FerroRemote.Agent.LoggerSubscription
import FerroRemote.Client.AsyncOps
import FerroRemote.Math.Histories

namespace FerroRemote.Client

open FerroRemote.Agent

def levelNumber : LogLevel → Nat
  | .zero => 0
  | .error => 1
  | .warning => 2
  | .info => 3
  | .debug => 4

def level2proto (lvl : Nat) : LogLevel := lvl2proto lvl

/-- `proto2level`, and `proto2lvl` of the agent -/
def proto2level (lvl : Nat) : Nat := if lvl ≤ 4 then lvl else 3

structure LogReq where
  level : Option LogLevel := none
  text : String := ""

/-- `logger_impl::write` -/
def loggerWrite (lvl : Nat) (text : String) : LogReq :=
  { level := some (level2proto lvl), text := text }

/-- `proto_looger_impl::send_log`, at a moment -/
def sendLog (req : LogReq) (time : Int) : LoggingAction :=
  .log (match req.level with
    | some level => proto2level (levelNumber level)
    | none => 3) req.text true time

/-- What a callback of `subscribe` is called with -/
structure HeardRecord where
  level : Nat
  microsec : Nat
  text : String
  deriving DecidableEq, Repr

/-- `logger_impl::async_cb`, which takes the data of a message only -/
def asyncCb (parse : List UInt8 → WriteData) (data : List UInt8) : HeardRecord :=
  let req := parse data
  { level := proto2level (levelNumber req.level), microsec := req.microsec, text := req.text }

/-- The calls of the callback that `subscribe` has registered with the id of the answer -/
def heardAs (parse : List UInt8 → WriteData) (opId : Nat) (messages : List AsyncOp) :
    List HeardRecord :=
  let ops : AsyncOps (List UInt8 → HeardRecord) :=
    ({} : AsyncOps _).registerAsyncOp opId (asyncCb parse)
  messages.filterMap fun m => (ops.asyncOp m).map fun cb => cb m.bytes

/-- What has been sent to an instance -/
def sentTo (inst : Nat) (sent : List (Nat × AsyncOp)) : List AsyncOp :=
  (sent.filter fun m => m.1 = inst).map (·.2)

/-- The records that a run makes of what is logged, from a level on -/
def recordsOf : Nat → List LoggingAction → List QueueElement
  | _, [] => []
  | _, .setLevel level :: rest => recordsOf level rest
  | level, .log lvl data split time :: rest =>
      if lvl ≤ level then ⟨⟨lvl, time⟩, data, split⟩ :: recordsOf level rest
      else recordsOf level rest
  | level, _ :: rest => recordsOf level rest

/-- The `write_data` of a record -/
def dataOf (e : QueueElement) : WriteData where
  level := lvl2proto e.info.level
  text := e.data ++ "\n"
  microsec := time2ticks e.info.time

def heardOf (e : QueueElement) : HeardRecord where
  level := proto2level e.info.level
  microsec := time2ticks e.info.time
  text := e.data ++ "\n"

theorem levelNumber_lvl2proto (level : Nat) :
    levelNumber (lvl2proto level) = proto2level level := by
  match level with
  | 0 | 1 | 2 | 3 | 4 => rfl
  | n + 5 =>
      rw [proto2level, if_neg (by omega)]
      rfl

theorem proto2level_proto2level (level : Nat) :
    proto2level (proto2level level) = proto2level level := by
  by_cases hlevel : level ≤ 4
  · rw [proto2level, proto2level, if_pos hlevel, if_pos hlevel]
  · rw [proto2level, proto2level, if_neg hlevel]
    rfl

/-- What a client writes is to be heard as it was written, at the level that the agent takes
it for, unless that is above the agent's own. -/
theorem heardOf_sendLog (level lvl : Nat) (text : String) (time : Int) :
    (recordsOf level [sendLog (loggerWrite lvl text) time]).map heardOf =
      if proto2level lvl ≤ level then [⟨proto2level lvl, time2ticks time, text ++ "\n"⟩] else [] := by
  have hlevel : proto2level (levelNumber (level2proto lvl)) = proto2level lvl := by
    rw [level2proto, levelNumber_lvl2proto, proto2level_proto2level]
  simp only [sendLog, loggerWrite, hlevel, recordsOf]
  split
  · rw [List.map_singleton, heardOf, proto2level_proto2level]
  · rfl

theorem flatMap_splitOnP {p : Char → Bool} {newline : Char} (hp : ∀ c, p c = true ↔ c = newline)
    (text : List Char) : (text.splitOnP p).flatMap (· ++ [newline]) = text ++ [newline] := by
  induction text with
  | nil => rfl
  | cons c text ih =>
      rw [List.splitOnP_cons_eq_if_modifyHead]
      split
      · rename_i hc
        rw [(hp c).mp hc, List.flatMap_cons, ih]
        rfl
      · cases hrest : text.splitOnP p with
        | nil => exact absurd hrest (List.splitOnP_ne_nil p text)
        | cons line lines =>
            rw [hrest, List.flatMap_cons] at ih
            rw [List.modifyHead_cons, List.flatMap_cons]
            exact congrArg (c :: ·) ih

/-- What is made of a text that is cut at newlines -/
theorem join_loggerData (e : QueueElement) :
    String.join ((loggerData "\n" e).map fun d => d ++ "\n") = e.data ++ "\n" := by
  rw [loggerData]
  split
  · apply String.toList_inj.mp
    have hnewline : ∀ c : Char, "\n".toList.contains c = true ↔ c = '\n' := by
      intro c
      rw [List.contains_iff_mem]
      exact List.mem_singleton
    have hline : (fun line => ((fun d => d ++ "\n") ∘ String.ofList) line |>.toList) =
        fun line : List Char => line ++ ['\n'] := by
      funext line
      rw [Function.comp_apply, String.toList_append, String.toList_ofList]
      rfl
    rw [String.toList_join, splitAny, List.map_map, List.flatMap_map, hline,
      flatMap_splitOnP hnewline, String.toList_append]
    rfl
  · rw [List.map_cons, List.map_nil, String.join_cons, String.join_nil, String.append_empty]

def levelAfter (level : Nat) : LoggingAction → Nat
  | .setLevel level => level
  | _ => level

theorem recordsOf_cons (level : Nat) (a : LoggingAction) (rest : List LoggingAction) :
    recordsOf level (a :: rest) =
      recordsOf level [a] ++ recordsOf (levelAfter level a) rest := by
  cases a with
  | log lvl data split time =>
      simp only [recordsOf, levelAfter]
      split <;> rfl
  | connect | subscribe | unsubscribe | disconnect | setLevel | write => rfl

/-- The action leaves the subscription of an instance alone. -/
def Spares (inst : Nat) : LoggingAction → Prop
  | .subscribe other _ => other ≠ inst
  | .unsubscribe other => other ≠ inst
  | .disconnect other => other ≠ inst
  | _ => True

instance (inst : Nat) : DecidablePred (Spares inst)
  | .subscribe other _ | .unsubscribe other | .disconnect other =>
      inferInstanceAs (Decidable (other ≠ inst))
  | .connect | .setLevel _ | .log _ _ _ _ | .write _ => isTrue trivial

instance (s : LoggingState) : (a : LoggingAction) → Decidable (s.SubscribesOnce a)
  | .subscribe inst _ => inferInstanceAs (Decidable (s.subscriptions[inst]? = none))
  | .connect | .unsubscribe _ | .disconnect _ | .setLevel _ | .log _ _ _ _ | .write _ =>
      isTrue trivial

variable {serialize : WriteData → List UInt8} {inst op : Nat} {s s' : LoggingState}

theorem heardAs_message (parse : List UInt8 → WriteData) (op : Nat) (messages : List AsyncOp)
    (e : QueueElement) (tick : Nat) :
    heardAs parse (AsyncOp.idField op)
        (messages ++ [onWrite2 serialize e.info (loggerData "\n" e) op tick]) =
      heardAs parse (AsyncOp.idField op) messages ++ [asyncCb parse (serialize (dataOf e))] := by
  have hfound : (({} : AsyncOps (List UInt8 → HeardRecord)).registerAsyncOp (AsyncOp.idField op)
      (asyncCb parse)).asyncOp (onWrite2 serialize e.info (loggerData "\n" e) op tick) =
      some (asyncCb parse) := by
    rw [AsyncOps.asyncOp, AsyncOps.acb_registerAsyncOp]
    exact if_pos rfl
  have hbytes : (onWrite2 serialize e.info (loggerData "\n" e) op tick).bytes =
      serialize (dataOf e) := by
    rw [onWrite2, join_loggerData]
    rfl
  rw [heardAs, List.filterMap_append, List.filterMap_cons_some, List.filterMap_nil]
  · rfl
  · rw [hfound, Option.map_some, hbytes]

theorem heard_step (parse : List UInt8 → WriteData) (hs : s.Matched)
    (hsub : s.subscriptions[inst]? = some op) {a : LoggingAction} (hspares : Spares inst a)
    (hstep : s.step serialize "\n" a = some s') :
    s'.subscriptions[inst]? = some op ∧ s'.level = levelAfter s.level a ∧
      ∃ done, s.queue ++ recordsOf s.level [a] = done ++ s'.queue ∧
        heardAs parse (AsyncOp.idField op) (sentTo inst s'.sent) =
          heardAs parse (AsyncOp.idField op) (sentTo inst s.sent) ++
            done.map fun e => asyncCb parse (serialize (dataOf e)) := by
  have hquiet : s.queue ++ [] = [] ++ s.queue ∧
      heardAs parse (AsyncOp.idField op) (sentTo inst s.sent) =
        heardAs parse (AsyncOp.idField op) (sentTo inst s.sent) ++
          ([] : List QueueElement).map fun e => asyncCb parse (serialize (dataOf e)) := by simp
  cases a with
  | connect =>
      cases hstep
      exact ⟨hsub, rfl, [], hquiet⟩
  | subscribe other op' =>
      rcases Option.map_eq_some_iff.mp hstep with ⟨handle, -, rfl⟩
      refine ⟨?_, rfl, [], hquiet⟩
      exact (Table.getElem?_insert_of_ne hspares op').trans hsub
  | unsubscribe other =>
      rcases Option.map_eq_some_iff.mp hstep with ⟨handle, -, rfl⟩
      exact ⟨(Table.getElem?_erase_of_ne hspares).trans hsub, rfl, [], hquiet⟩
  | disconnect other =>
      rcases Option.map_eq_some_iff.mp hstep with ⟨handle, -, rfl⟩
      exact ⟨(Table.getElem?_erase_of_ne hspares).trans hsub, rfl, [], hquiet⟩
  | setLevel level =>
      cases hstep
      exact ⟨hsub, rfl, [], hquiet⟩
  | log lvl data split time =>
      cases hstep
      simp only [LoggingState.log, recordsOf]
      split
      · exact ⟨hsub, rfl, [], rfl, hquiet.2⟩
      · exact ⟨hsub, rfl, [], hquiet⟩
  | write tick =>
      simp only [LoggingState.step, LoggingState.doWrite] at hstep
      split at hstep
      · cases hstep
      · rename_i e rest hqueue
        cases hstep
        refine ⟨hsub, rfl, [e], ?_, ?_⟩
        · simp only [hqueue, recordsOf, List.append_nil]
          rfl
        · have hmessages := (hs.served serialize).once e.info (loggerData "\n" e) tick inst
          rw [hsub] at hmessages
          have hsent : sentTo inst (s.sent ++
              s.messages serialize e.info (loggerData "\n" e) tick) =
              sentTo inst s.sent ++ [onWrite2 serialize e.info (loggerData "\n" e) op tick] := by
            rw [sentTo, List.filter_append, hmessages, List.map_append]
            rfl
          rw [hsent, heardAs_message]
          rfl

theorem heard_run (parse : List UInt8 → WriteData) {level : Nat} (hs : s.Matched)
    (hsub : s.subscriptions[inst]? = some op) {as : List LoggingAction}
    (honce : (logging serialize level "\n").MeetsFrom LoggingState.SubscribesOnce s as)
    (hspares : ∀ a ∈ as, Spares inst a)
    (hrun : (logging serialize level "\n").runFrom s as = some s') :
    ∃ done, s.queue ++ recordsOf s.level as = done ++ s'.queue ∧
      heardAs parse (AsyncOp.idField op) (sentTo inst s'.sent) =
        heardAs parse (AsyncOp.idField op) (sentTo inst s.sent) ++
          done.map fun e => asyncCb parse (serialize (dataOf e)) := by
  induction as generalizing s with
  | nil =>
      cases hrun
      exact ⟨[], by rw [recordsOf, List.append_nil, List.nil_append], by simp⟩
  | cons a rest ih =>
      rw [Machine.runFrom_cons, Option.bind_eq_some_iff] at hrun
      rcases hrun with ⟨next, hstep, hrest⟩
      rcases honce next hstep with ⟨honce, hthen⟩
      rcases heard_step parse hs hsub (hspares a List.mem_cons_self) hstep with
        ⟨hnext, hlevel, first, hfirst, hheard⟩
      rcases ih (LoggingState.matched_step hs honce hstep) hnext hthen
        (fun b hb => hspares b (List.mem_cons_of_mem _ hb)) hrest with ⟨second, hsecond, hmore⟩
      refine ⟨first ++ second, ?_, ?_⟩
      · rw [recordsOf_cons, ← List.append_assoc, hfirst, List.append_assoc, ← hlevel, hsecond,
          List.append_assoc]
      · rw [hmore, hheard, List.append_assoc, List.map_append]

/-- **The log from afar.** While a client is subscribed, its callback is called for every record
that is made, and for those that were queued, in their order and once each, with the level of
the record, its moment, and its text and a newline; what it has not heard of is still queued.
Whatever clients log meanwhile, subscribe to, or set the level to, as long as no instance
subscribes that is subscribed already. -/
theorem remote_log {level : Nat} {parse : List UInt8 → WriteData} {as bs : List LoggingAction}
    (hrun : (logging serialize level "\n").run as = some s)
    (honce : (logging serialize level "\n").Meets LoggingState.SubscribesOnce as)
    (hsub : s.subscriptions[inst]? = some op)
    (hthen : (logging serialize level "\n").runFrom s bs = some s')
    (honce' : (logging serialize level "\n").MeetsFrom LoggingState.SubscribesOnce s bs)
    (hspares : ∀ a ∈ bs, Spares inst a)
    (hcodec : ∀ e ∈ s.queue ++ recordsOf s.level bs, parse (serialize (dataOf e)) = dataOf e) :
    ∃ done, s.queue ++ recordsOf s.level bs = done ++ s'.queue ∧
      heardAs parse (AsyncOp.idField op) (sentTo inst s'.sent) =
        heardAs parse (AsyncOp.idField op) (sentTo inst s.sent) ++ done.map heardOf := by
  have halong : (logging serialize level "\n").Along LoggingState.Matched as :=
    Machine.along_of_meets (LoggingState.matched_init level)
      (fun _ _ _ hs honce hstep => LoggingState.matched_step hs honce hstep) (fun _ hs => hs) honce
  rcases heard_run parse (halong.last hrun) hsub honce' hspares hthen with ⟨done, hdone, hheard⟩
  refine ⟨done, hdone, ?_⟩
  rw [hheard]
  congr 1
  apply List.map_congr_left
  intro e he
  rw [asyncCb, hcodec e (hdone ▸ List.mem_append_left _ he)]
  simp only [dataOf, heardOf, levelNumber_lvl2proto, proto2level_proto2level]

/-- What a client writes, for one client at least: a level of the five, a moment below 2^56, and
a text of fewer than 128 characters of ASCII -/
def shortWriteData (d : WriteData) : List UInt8 :=
  [0x08, (levelNumber d.level).toUInt8, 0x11] ++
    (List.range 8).map (fun n => (d.microsec >>> (8 * n)).toUInt8) ++
      [0x1A, d.text.length.toUInt8] ++ d.text.toList.map fun c => c.toNat.toUInt8

def parseShort (data : List UInt8) : WriteData where
  level := lvl2proto (data.getD 1 0).toNat
  microsec := ((data.drop 3).take 8).foldr (fun b n => 256 * n + b.toNat) 0
  text := String.ofList ((data.drop 13).map fun b => Char.ofNat b.toNat)

/-- A client that has subscribed hears of the warning that another writes, and not of what
that one writes to debug. -/
theorem remote_log_warning :
    ∃ s s', (logging shortWriteData 3 "\n").run [.connect, .connect, .subscribe 0 101] = some s ∧
      (logging shortWriteData 3 "\n").runFrom s
        [sendLog (loggerWrite 2 "hot\nvery") 77, sendLog (loggerWrite 4 "fan on") 78,
          .write 5] = some s' ∧
      heardAs parseShort 101 (sentTo 0 s'.sent) = [⟨2, 77, "hot\nvery\n"⟩] := by
  refine ⟨_, _, rfl, rfl, ?_⟩
  rcases @remote_log shortWriteData 0 101 _ _ 3 parseShort [.connect, .connect, .subscribe 0 101]
    [sendLog (loggerWrite 2 "hot\nvery") 77, sendLog (loggerWrite 4 "fan on") 78, .write 5]
    rfl (by decide) rfl rfl (by decide) (by decide) (by decide) with ⟨done, hdone, hheard⟩
  have hone : done = [⟨⟨2, 77⟩, "hot\nvery", true⟩] := by
    rw [← List.append_nil done]
    exact hdone.symm
  exact hheard.trans (by rw [hone]; rfl)

end FerroRemote.Client
