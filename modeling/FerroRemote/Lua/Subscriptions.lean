/-
# Handlers and registrations

A script that subscribes puts a handler into the event container of an object, and the
module registers the object at the client-core. The two belong together: an object has a
handler when it is registered, and only then. `subscribe` writes the handler before the
module registers, and nothing takes it back.
-/

import FerroRemote.Lua.ClientObjects
import FerroRemote.Math.Transitions

namespace FerroRemote.Lua

namespace EventContainer

def SetAt (e : EventContainer) (name : Text) : Prop := ∃ info, e.eventMap name = some (some info)

def SetApart (e : EventContainer) (name : Text) : Prop := ∃ other, other ≠ name ∧ e.SetAt other

def AnySet (e : EventContainer) : Prop := ∃ name, e.SetAt name

end EventContainer

/-- An event entry of the object is set. -/
def HandlerSet (events : Table EventContainer) (h : Nat) : Prop :=
  ∃ e, events[h]? = some e ∧ e.AnySet

/-- The object is there, and registered at the client-core. -/
def Registered (objects : Table CoreObject) (h : Nat) : Prop := objects[h]? = some ⟨true⟩

instance (objects : Table CoreObject) (h : Nat) : Decidable (Registered objects h) :=
  inferInstanceAs (Decidable (_ = _))

def Matched (objects : Table CoreObject) (events : Table EventContainer) : Prop :=
  ∀ h, HandlerSet events h ↔ Registered objects h

namespace LuaClient

/-- Files and devices have a handler exactly when they are registered. -/
structure SubscriptionsMatch (c : LuaClient) : Prop where
  files : Matched c.fs.files c.fs.fileEvents
  devs : Matched c.gpio.devs c.gpio.events

/-- The handlers and registrations of files and devices -/
def SameSubscriptions (c c' : LuaClient) : Prop :=
  c'.fs.files = c.fs.files ∧ c'.fs.fileEvents = c.fs.fileEvents ∧ c'.gpio = c.gpio

/-- What a call should leave: subscriptions that match, and the ones from before when it
reports an error. -/
def Leaves (c : LuaClient) (out : Answer × LuaClient) : Prop :=
  out.2.SubscriptionsMatch ∧
    ∀ first what, out.1 = report first what → c.SameSubscriptions out.2

end LuaClient

section Guards

variable (numberText : LuaNumber → Text)

/-- What a `subscribe` of an object has to meet. The client-core is called for the event
that it feeds, of an object that is there. -/
def SubscribeAllowed (watched : Text) (e : EventContainer) (object : Option CoreObject)
    (args : List Value) (reply : Except String Unit) : Prop :=
  let name := optString numberText args[1]?
  let called := name = watched ∧ object.isSome = true
  e.eventMap name ≠ none →
    match handlerOf args 1, reply with
    | some _, .ok _ => called ∨ object = some ⟨true⟩
    | some info, .error _ =>
      (called → e.eventMap name = some (some info)) ∧ (called ∨ object = some ⟨true⟩)
    | none, .ok _ =>
      (called → ¬ e.SetApart name) ∧ (¬ called → e.SetAt name → e.SetApart name)
    | none, .error _ => e.SetAt name → e.SetApart name

namespace LuaClient

def CallKeepsMatch (c : LuaClient) (args : List Value) (reply : Except String Unit) :
    LuaFunction → Prop
  | .fileSubscribe =>
    let h := c.getMetaObject args[0]? .file
    ∀ e f, c.fs.fileEvents[h]? = some e → c.fs.files[h]? = some f →
      SubscribeAllowed numberText "on_pollin".toList e (some f) args reply
  | .gpioSubscribe =>
    let h := c.getMetaObject args[0]? .gpio
    ∀ e, c.gpio.events[h]? = some e →
      SubscribeAllowed numberText "on_changed".toList e c.gpio.devs[h]? args reply
  | .gpioClose => ¬ HandlerSet c.gpio.events (c.getMetaObject args[0]? .gpio)
  | _ => True

/-- No device with a handler is closed, and every `subscribe` is allowed. -/
def KeepsMatch (c : LuaClient) : LuaAction → Prop
  | .call function args reply _ => c.CallKeepsMatch numberText args reply function
  | .collect address =>
    ∀ m, c.userdata[address]? = some m →
      c.CallKeepsMatch numberText [.userdata address] (.ok ()) m.name.closing

end LuaClient

end Guards

namespace EventContainer

variable {e : EventContainer} {name : Text}

theorem anySet_iff (e : EventContainer) (name : Text) :
    e.AnySet ↔ e.SetAt name ∨ e.SetApart name := by
  apply Iff.intro
  · intro hset
    obtain ⟨other, hother⟩ := hset
    by_cases heq : other = name
    · exact .inl (heq ▸ hother)
    · exact .inr ⟨other, heq, hother⟩
  · intro hset
    cases hset with
    | inl hat => exact ⟨name, hat⟩
    | inr hapart =>
        obtain ⟨other, _, hother⟩ := hapart
        exact ⟨other, hother⟩

theorem put_self (e : EventContainer) (name : Text) (par : Option EventInfo) :
    (e.put name par).eventMap name = some par := by
  simp only [put, Function.update_self]

theorem put_of_ne {other : Text} (hne : other ≠ name) (par : Option EventInfo) :
    (e.put name par).eventMap other = e.eventMap other := by
  simp only [put, Function.update_of_ne hne]

theorem put_of_eq {par : Option EventInfo} (heq : e.eventMap name = some par) :
    e.put name par = e := by
  cases e with
  | mk eventMap =>
      change EventContainer.mk (Function.update eventMap name (some par)) = _
      rw [← heq, Function.update_eq_self]

theorem put_eq_iff {par : Option EventInfo} : e.put name par = e ↔ e.eventMap name = some par := by
  apply Iff.intro
  · intro heq
    rw [← heq]
    exact put_self e name par
  · exact put_of_eq

theorem setApart_put (par : Option EventInfo) : (e.put name par).SetApart name ↔ e.SetApart name := by
  apply exists_congr
  intro other
  apply and_congr_right
  intro hne
  unfold SetAt
  rw [put_of_ne hne]

theorem anySet_put_some (info : EventInfo) : (e.put name (some info)).AnySet :=
  ⟨name, info, put_self e name (some info)⟩

theorem anySet_put_none : (e.put name none).AnySet ↔ e.SetApart name := by
  rw [anySet_iff _ name, setApart_put]
  apply or_iff_right
  intro hset
  obtain ⟨info, hinfo⟩ := hset
  rw [put_self] at hinfo
  cases hinfo

/-- Taking a handler away changes whether there is one, unless another is left. -/
theorem setApart_iff_anySet : (e.SetApart name ↔ e.AnySet) ↔ (e.SetAt name → e.SetApart name) := by
  rw [anySet_iff e name, iff_or_self]

variable {numberText : LuaNumber → Text} {args : List Value}

theorem subscribe_unknown (hunknown : e.eventMap (optString numberText args[1]?) = none) :
    e.subscribe numberText args 1 =
      (⟨true, [.boolean false, .string (invalidName (optString numberText args[1]?))],
        optString numberText args[1]?, args[2]?⟩, e) := by
  simp only [subscribe, hunknown]

theorem subscribe_known (hknown : e.eventMap (optString numberText args[1]?) ≠ none) :
    e.subscribe numberText args 1 =
      (⟨false, [.boolean true], optString numberText args[1]?, args[2]?⟩,
        e.put (optString numberText args[1]?) (handlerOf args 1)) := by
  obtain ⟨entry, hentry⟩ := Option.ne_none_iff_exists'.mp hknown
  simp only [subscribe, hentry]

end EventContainer

/-- `subscribe` takes a handler from the arguments when there is a call in them. -/
theorem handlerOf_eq_none_iff (args : List Value) : handlerOf args 1 = none ↔ args[2]? = none :=
  Option.map_eq_none_iff

section Object

variable {numberText : LuaNumber → Text} {watched : Text} {e : EventContainer}
  {object : Option CoreObject} {args : List Value} {reply : Except String Unit}

theorem returned_true_ne_report (first : Value) (what : Text) :
    Answer.returned [.boolean true] ≠ report first what := by
  intro heq
  cases heq

theorem thrown_ne_report (what : String) (first : Value) (text : Text) :
    Answer.thrown what ≠ report first text := by
  intro heq
  cases heq

/-- `Leaves`, for one object -/
def ObjectLeaves (e : EventContainer) (object : Option CoreObject)
    (out : Answer × Option CoreObject) (e' : EventContainer) : Prop :=
  (e'.AnySet ↔ out.2 = some ⟨true⟩) ∧
    ∀ first what, out.1 = report first what → e' = e ∧ out.2 = object

theorem objectLeaves_iff {out : Answer × Option CoreObject} {e' : EventContainer}
    (hanswer : ∀ first what, out.1 ≠ report first what) :
    ObjectLeaves e object out e' ↔ (e'.AnySet ↔ out.2 = some ⟨true⟩) := by
  apply and_iff_left
  intro first what hreport
  exact absurd hreport (hanswer first what)

/-- A `subscribe` that does not come to the client-core leaves the object as it is. -/
theorem follow_of_not_called {si : SubscribeInfo} (reply : Except String Unit)
    (hcalled : ¬ (si.name = watched ∧ object.isSome = true)) :
    ∃ answer, follow watched si object reply = (answer, object) ∧
      (answer = .returned si.result ∨ ∃ what, answer = .thrown what) := by
  by_cases hname : si.name = watched
  · cases object with
    | none => exact ⟨_, if_pos hname, .inr ⟨_, rfl⟩⟩
    | some o => exact absurd ⟨hname, rfl⟩ hcalled
  · exact ⟨_, if_neg hname, .inl rfl⟩

theorem objectLeaves_of_not_called {si : SubscribeInfo} (hresult : si.result = [.boolean true])
    (hcalled : ¬ (si.name = watched ∧ object.isSome = true)) (e' : EventContainer) :
    ObjectLeaves e object (follow watched si object reply) e' ↔
      (e'.AnySet ↔ object = some ⟨true⟩) := by
  obtain ⟨answer, hfollow, hanswer⟩ := follow_of_not_called reply hcalled
  rw [hfollow]
  apply objectLeaves_iff
  intro first what
  cases hanswer with
  | inl hreturned =>
      rw [hreturned, hresult]
      exact returned_true_ne_report first what
  | inr hthrown =>
      obtain ⟨thrown, rfl⟩ := hthrown
      exact thrown_ne_report thrown first what

/-- A registration that works fits a handler that is there, and one that is taken away
fits an object without handlers. -/
theorem objectLeaves_of_ok {registered : Bool} {e' : EventContainer} :
    ObjectLeaves e object (.returned [.boolean true], some ⟨registered⟩) e' ↔
      (e'.AnySet ↔ registered = true) := by
  rw [objectLeaves_iff returned_true_ne_report, Option.some_inj, CoreObject.mk.injEq]

/-- What the client-core throws when it should register is reported, with the handler
written. -/
theorem objectLeaves_of_report {what : Text} {e' : EventContainer}
    (hmatch : e.AnySet ↔ object = some ⟨true⟩) :
    ObjectLeaves e object (report .nil what, object) e' ↔ e' = e := by
  apply Iff.intro
  · intro hleaves
    exact (hleaves.2 .nil what rfl).1
  · rintro rfl
    exact ⟨hmatch, fun _ _ _ => ⟨rfl, rfl⟩⟩

/-- What the client-core throws when it should unregister leaves the function, with the
handler taken away. -/
theorem objectLeaves_of_throw {what : String} {e' : EventContainer} :
    ObjectLeaves e object (.thrown what, object) e' ↔ (e'.AnySet ↔ object = some ⟨true⟩) :=
  objectLeaves_iff (thrown_ne_report what)

/-- A `subscribe` of a known event that does not come to the client-core -/
theorem leaves_iff_of_not_called {name : Text} {call : Option Value}
    (hmatch : e.AnySet ↔ object = some ⟨true⟩)
    (hcalled : ¬ (name = watched ∧ object.isSome = true)) (handler : Option EventInfo) :
    ObjectLeaves e object
        (follow watched ⟨false, [.boolean true], name, call⟩ object reply) (e.put name handler) ↔
      match handler with
      | some _ => object = some ⟨true⟩
      | none => e.SetAt name → e.SetApart name := by
  rw [objectLeaves_of_not_called rfl hcalled]
  cases handler with
  | some info => exact iff_true_left (EventContainer.anySet_put_some info)
  | none =>
      rw [EventContainer.anySet_put_none, ← hmatch]
      exact EventContainer.setApart_iff_anySet

/-- A `subscribe` with a handler for the event that the client-core feeds -/
theorem leaves_iff_of_register {o : CoreObject} {call : Value} (info : EventInfo)
    (hmatch : e.AnySet ↔ some o = some ⟨true⟩) :
    ObjectLeaves e (some o)
        (follow watched ⟨false, [.boolean true], watched, some call⟩ (some o) reply)
        (e.put watched (some info)) ↔
      ∀ what, reply = .error what → e.eventMap watched = some (some info) := by
  simp only [follow, if_true]
  cases reply with
  | ok _ =>
      rw [objectLeaves_of_ok]
      apply iff_of_true
      · exact iff_of_true (EventContainer.anySet_put_some info) rfl
      · exact fun what heq => by cases heq
  | error what =>
      rw [objectLeaves_of_report hmatch, EventContainer.put_eq_iff]
      exact ⟨fun hinfo _ _ => hinfo, fun hall => hall what rfl⟩

theorem leaves_iff_of_unregister {o : CoreObject}
    (hmatch : e.AnySet ↔ some o = some ⟨true⟩) :
    ObjectLeaves e (some o)
        (follow watched ⟨false, [.boolean true], watched, none⟩ (some o) reply)
        (e.put watched none) ↔
      match reply with
      | .ok _ => ¬ e.SetApart watched
      | .error _ => e.SetAt watched → e.SetApart watched := by
  simp only [follow, if_true]
  cases reply with
  | ok _ =>
      rw [objectLeaves_of_ok, EventContainer.anySet_put_none]
      exact iff_false_right Bool.false_ne_true
  | error what =>
      rw [objectLeaves_of_throw, EventContainer.anySet_put_none, ← hmatch]
      exact EventContainer.setApart_iff_anySet

/-- **One subscribe of one object.** Where handlers and registration match before, they
match afterwards, and an error changes nothing, exactly when the call is allowed. -/
theorem subscribe_objectLeaves_iff (hmatch : e.AnySet ↔ object = some ⟨true⟩)
    (hwatched : e.eventMap watched ≠ none) :
    ObjectLeaves e object
        (follow watched (e.subscribe numberText args 1).1 object reply)
        (e.subscribe numberText args 1).2 ↔
      SubscribeAllowed numberText watched e object args reply := by
  by_cases hknown : e.eventMap (optString numberText args[1]?) = none
  · -- an unknown event: nothing is written, and that is what is reported
    have hname : optString numberText args[1]? ≠ watched := by
      intro heq
      exact hwatched (heq ▸ hknown)
    rw [EventContainer.subscribe_unknown hknown]
    simp only [follow, if_neg hname]
    apply iff_of_true
    · exact ⟨hmatch, fun _ _ _ => ⟨rfl, rfl⟩⟩
    · exact fun hne => absurd hknown hne
  rw [EventContainer.subscribe_known hknown]
  simp only [SubscribeAllowed, hknown, ne_eq, not_false_eq_true, forall_const]
  by_cases hcalled : optString numberText args[1]? = watched ∧ object.isSome = true
  · obtain ⟨hname, hobject⟩ := hcalled
    obtain ⟨o, rfl⟩ := Option.isSome_iff_exists.mp hobject
    rw [hname]
    cases hhandler : handlerOf args 1 with
    | none =>
        rw [(handlerOf_eq_none_iff args).mp hhandler, leaves_iff_of_unregister hmatch]
        cases reply with
        | ok _ => simp
        | error what => exact Iff.rfl
    | some info =>
        obtain ⟨call, hcall, _⟩ := Option.map_eq_some_iff.mp hhandler
        rw [hcall, leaves_iff_of_register info hmatch]
        cases reply with
        | ok _ => simp
        | error what => simp
  · rw [leaves_iff_of_not_called hmatch hcalled]
    cases handlerOf args 1 with
    | none => cases reply <;> simp [hcalled]
    | some info => cases reply <;> simp [hcalled]

end Object

section Tables

variable {objects objects' : Table CoreObject} {events events' : Table EventContainer} {h : Nat}
  {e e' : EventContainer} {object' : Option CoreObject}

theorem handlerSet_iff (hfound : events[h]? = some e) : HandlerSet events h ↔ e.AnySet := by
  simp only [HandlerSet, hfound, Option.some_inj, exists_eq_left']

theorem not_handlerSet (hnone : events[h]? = none) : ¬ HandlerSet events h := by
  simp [HandlerSet, hnone]

theorem handlerSet_congr {a : Nat} (heq : events'[a]? = events[a]?) :
    HandlerSet events' a ↔ HandlerSet events a := by
  rw [HandlerSet, HandlerSet, heq]

theorem registered_congr {a : Nat} (heq : objects'[a]? = objects[a]?) :
    Registered objects' a ↔ Registered objects a := by
  rw [Registered, Registered, heq]

/-- When nothing changes but one handle, that handle decides. -/
theorem matched_iff_at (hmatched : Matched objects events)
    (hevents : ∀ a, h ≠ a → events'[a]? = events[a]?)
    (hobjects : ∀ a, h ≠ a → objects'[a]? = objects[a]?) :
    Matched objects' events' ↔ (HandlerSet events' h ↔ Registered objects' h) := by
  apply Iff.intro
  · intro hafter
    exact hafter h
  · intro hhere a
    by_cases heq : h = a
    · exact heq ▸ hhere
    · rw [handlerSet_congr (hevents a heq), registered_congr (hobjects a heq)]
      exact hmatched a

theorem putObject_of_ne {a : Nat} (hne : h ≠ a) :
    (putObject objects h object')[a]? = objects[a]? := by
  cases object' with
  | none => rfl
  | some o => exact Table.getElem?_insert_of_ne hne o

theorem putObject_self (hthere : object' = none → objects[h]? = none) :
    (putObject objects h object')[h]? = object' := by
  cases object' with
  | none => exact hthere rfl
  | some o => exact Table.getElem?_insert_self objects _ o

theorem putObject_eq_iff (hthere : object' = none → objects[h]? = none) :
    putObject objects h object' = objects ↔ object' = objects[h]? := by
  apply Iff.intro
  · intro heq
    rw [← putObject_self hthere, heq]
  · rintro rfl
    cases hobject : objects[h]? with
    | none => rfl
    | some o => exact Table.insert_of_getElem? hobject

theorem insert_eq_iff (hfound : events[h]? = some e) : events.insert h e' = events ↔ e' = e := by
  apply Iff.intro
  · intro heq
    have hself : (events.insert h e')[h]? = some e' := Table.getElem?_insert_self events _ e'
    rw [heq, hfound, Option.some_inj] at hself
    exact hself.symm
  · rintro rfl
    exact Table.insert_of_getElem? hfound

theorem objectLeaves_iff_tables {answer : Answer} (hmatched : Matched objects events)
    (hfound : events[h]? = some e) (hthere : object' = none → objects[h]? = none) :
    (Matched (putObject objects h object') (events.insert h e') ∧
        ∀ first what, answer = report first what →
          putObject objects h object' = objects ∧ events.insert h e' = events) ↔
      ObjectLeaves e objects[h]? (answer, object') e' := by
  have hevents : ∀ a, h ≠ a → (events.insert h e')[a]? = events[a]? :=
    fun a hne => Table.getElem?_insert_of_ne hne e'
  rw [matched_iff_at hmatched hevents (fun a hne => putObject_of_ne hne),
    handlerSet_iff (Table.getElem?_insert_self events _ e'), Registered, putObject_self hthere,
    putObject_eq_iff hthere, insert_eq_iff hfound, ObjectLeaves, and_comm (a := object' = _)]

theorem matched_insert_new (hmatched : Matched objects events) (names : List Text) :
    Matched (objects.insert h ⟨false⟩) (events.insert h (.ofNames names)) := by
  apply (matched_iff_at hmatched (fun a hne => Table.getElem?_insert_of_ne hne _)
    (fun a hne => Table.getElem?_insert_of_ne hne _)).mpr
  rw [handlerSet_iff (Table.getElem?_insert_self events _ _), Registered, Table.getElem?_insert_self]
  apply iff_of_false
  · intro hset
    obtain ⟨name, info, hinfo⟩ := hset
    unfold EventContainer.ofNames at hinfo
    dsimp only at hinfo
    split at hinfo <;> cases hinfo
  · intro heq
    cases heq

theorem matched_erase_both (hmatched : Matched objects events) :
    Matched (objects.erase h) (events.erase h) := by
  apply (matched_iff_at hmatched (fun a hne => Table.getElem?_erase_of_ne hne)
    (fun a hne => Table.getElem?_erase_of_ne hne)).mpr
  apply iff_of_false
  · exact not_handlerSet (Table.getElem?_erase_self events _)
  · intro hregistered
    rw [Registered, Table.getElem?_erase_self] at hregistered
    cases hregistered

theorem matched_erase_objects_iff (hmatched : Matched objects events) :
    Matched (objects.erase h) events ↔ ¬ HandlerSet events h := by
  rw [matched_iff_at (h := h) hmatched (fun a _ => rfl) (fun a hne => Table.getElem?_erase_of_ne hne),
    Registered, Table.getElem?_erase_self]
  exact iff_false_right (Option.some_ne_none _).symm

end Tables

/-! ## The functions -/

/-- Every container has an entry for the event that the client-core feeds. -/
def Knows (watched : Text) (events : Table EventContainer) : Prop :=
  ∀ (h : Nat) (e : EventContainer), events[h]? = some e → e.eventMap watched ≠ none

theorem Knows.insert {watched : Text} {events : Table EventContainer}
    (hknows : Knows watched events) (h : Nat) {e : EventContainer} (he : e.eventMap watched ≠ none) :
    Knows watched (events.insert h e) := by
  intro a found hfound
  rw [Table.getElem?_insert_eq] at hfound
  split at hfound
  · cases hfound
    exact he
  · exact hknows a found hfound

theorem Knows.erase {watched : Text} {events : Table EventContainer}
    (hknows : Knows watched events) (h : Nat) : Knows watched (events.erase h) := by
  intro a found hfound
  exact hknows a found (Table.getElem?_erase_eq_some_iff.mp hfound).2

theorem ofNames_known {watched : Text} {names : List Text} (hmem : watched ∈ names) :
    (EventContainer.ofNames names).eventMap watched ≠ none := by
  simp [EventContainer.ofNames, hmem]

theorem subscribe_known_of_known (numberText : LuaNumber → Text) {watched : Text}
    {e : EventContainer} (he : e.eventMap watched ≠ none) (args : List Value) :
    (e.subscribe numberText args 1).2.eventMap watched ≠ none := by
  by_cases hknown : e.eventMap (optString numberText args[1]?) = none
  · rwa [EventContainer.subscribe_unknown hknown]
  · rw [EventContainer.subscribe_known hknown]
    by_cases hname : watched = optString numberText args[1]?
    · rw [hname, EventContainer.put_self]
      exact Option.some_ne_none _
    · rwa [EventContainer.put_of_ne hname]

/-- Only an object that is not there has no object afterwards. -/
theorem follow_eq_none {watched : Text} {si : SubscribeInfo} {object : Option CoreObject}
    {reply : Except String Unit} (hnone : (follow watched si object reply).2 = none) :
    object = none := by
  cases object with
  | none => rfl
  | some o =>
      exfalso
      unfold follow at hnone
      split at hnone
      · dsimp only at hnone
        split at hnone <;> cases hnone
      · cases hnone

/-- An object of a module that matches: it has a handler when it is registered. -/
theorem anySet_iff_registered {objects : Table CoreObject} {events : Table EventContainer}
    (hmatched : Matched objects events) {h : Nat} {e : EventContainer}
    (hfound : events[h]? = some e) : e.AnySet ↔ objects[h]? = some ⟨true⟩ := by
  rw [← handlerSet_iff hfound]
  exact hmatched h

theorem subscribe_matched_iff (numberText : LuaNumber → Text) (args : List Value)
    (reply : Except String Unit) {watched : Text} {objects : Table CoreObject}
    {events : Table EventContainer} {h : Nat} {e : EventContainer} (hmatched : Matched objects events)
    (hknows : Knows watched events) (hfound : events[h]? = some e) :
    let sub := e.subscribe numberText args 1
    let out := follow watched sub.1 objects[h]? reply
    (Matched (putObject objects h out.2) (events.insert h sub.2) ∧
        ∀ first what, out.1 = report first what →
          putObject objects h out.2 = objects ∧ events.insert h sub.2 = events) ↔
      SubscribeAllowed numberText watched e objects[h]? args reply := by
  intro sub out
  have hthere : out.2 = none → objects[h]? = none := fun hnone => follow_eq_none hnone
  rw [objectLeaves_iff_tables hmatched hfound hthere]
  exact subscribe_objectLeaves_iff (anySet_iff_registered hmatched hfound) (hknows h e hfound)

namespace LuaClient

variable {numberText : LuaNumber → Text} {c : LuaClient} {args : List Value}
  {reply : Except String Unit} {address : Nat}

/-- The subscriptions match, and the containers are those of the modules. -/
structure Subscribed (c : LuaClient) : Prop where
  matching : c.SubscriptionsMatch
  files : Knows "on_pollin".toList c.fs.fileEvents
  devs : Knows "on_changed".toList c.gpio.events

theorem SameSubscriptions.subscribed {c' : LuaClient} (hsame : c.SameSubscriptions c')
    (hc : c.Subscribed) : c'.Subscribed := by
  obtain ⟨hfiles, hevents, hgpio⟩ := hsame
  apply Subscribed.mk
  · apply SubscriptionsMatch.mk
    · rw [hfiles, hevents]
      exact hc.matching.files
    · rw [hgpio]
      exact hc.matching.devs
  · rw [hevents]
    exact hc.files
  · rw [hgpio]
    exact hc.devs

theorem leaves_of_same {out : Answer × LuaClient} (hc : c.Subscribed)
    (hsame : c.SameSubscriptions out.2) : c.Leaves out :=
  ⟨(hsame.subscribed hc).matching, fun _ _ _ => hsame⟩

theorem leaves_of_returned {out : Answer × LuaClient} {value : Value}
    (hmatch : out.2.SubscriptionsMatch) (hanswer : out.1 = .returned [value]) :
    c.Leaves out := by
  apply And.intro hmatch
  intro first what hreport
  rw [hanswer] at hreport
  cases hreport

/-- What a function does for its module: afterwards the subscriptions are as
they should be exactly when the call is allowed, and then the containers are again those
of the modules. -/
def Exact (c : LuaClient) (allowed : Prop) (out : Answer × LuaClient) : Prop :=
  (c.Leaves out ↔ allowed) ∧ (allowed → out.2.Subscribed)

theorem exact_of_same {out : Answer × LuaClient} (hc : c.Subscribed)
    (hsame : c.SameSubscriptions out.2) : c.Exact True out :=
  ⟨iff_of_true (leaves_of_same hc hsame) trivial, fun _ => hsame.subscribed hc⟩

theorem exact_of_returned {out : Answer × LuaClient} {value : Value} (hout : out.2.Subscribed)
    (hanswer : out.1 = .returned [value]) : c.Exact True out :=
  ⟨iff_of_true (leaves_of_returned hout.matching hanswer) trivial, fun _ => hout⟩

theorem same_refl (c : LuaClient) : c.SameSubscriptions c := ⟨rfl, rfl, rfl⟩

theorem Subscribed.pushObject (hc : c.Subscribed) (address hdl : Nat) (name : MetaName) :
    (c.pushObject address hdl name).2.Subscribed := by
  have hsame : c.SameSubscriptions (c.pushObject address hdl name).2 := ⟨rfl, rfl, rfl⟩
  exact hsame.subscribed hc

theorem newFile_subscribed (hc : c.Subscribed) (u : Unit) :
    (c.newFile (.ok u)).2.Subscribed where
  matching := ⟨matched_insert_new hc.matching.files fileEventNames, hc.matching.devs⟩
  files := hc.files.insert c.index (ofNames_known (by decide))
  devs := hc.devs

theorem newDev_subscribed (hc : c.Subscribed) (u : Unit) :
    (c.newDev (.ok u)).2.Subscribed where
  matching := ⟨hc.matching.files, matched_insert_new hc.matching.devs gpioEventNames⟩
  files := hc.files
  devs := hc.devs.insert c.index (ofNames_known (by decide))

theorem lcallFileOpen_exact (hc : c.Subscribed) :
    c.Exact True (c.lcallFileOpen numberText args reply address) := by
  unfold lcallFileOpen
  split
  · exact exact_of_same hc (same_refl c)
  split
  iterate 3
    cases reply with
    | ok u => exact exact_of_returned ((newFile_subscribed hc u).pushObject address _ _) rfl
    | error what => exact exact_of_same hc (same_refl c)
  exact exact_of_same hc (same_refl c)

theorem lcallFsIterBegin_exact (hc : c.Subscribed) :
    c.Exact True (c.lcallFsIterBegin reply address) := by
  apply exact_of_same hc
  cases reply <;> exact ⟨rfl, rfl, rfl⟩

theorem lcallFsIterClone_exact (hc : c.Subscribed) :
    c.Exact True (c.lcallFsIterClone args reply) := by
  apply exact_of_same hc
  have hclone : ∀ hdl, c.SameSubscriptions (c.cloneFsIter hdl reply).2 := by
    intro hdl
    unfold cloneFsIter
    split
    · cases reply <;> exact ⟨rfl, rfl, rfl⟩
    · exact same_refl c
  unfold lcallFsIterClone
  dsimp only
  split
  · exact same_refl c
  · specialize hclone (c.getMetaObject args[0]? .iterator)
    split <;> next heq => rwa [heq] at hclone

theorem lcallExport_exact (hc : c.Subscribed) :
    c.Exact True (c.lcallExport reply address) := by
  cases reply with
  | ok u => exact exact_of_returned ((newDev_subscribed hc u).pushObject address _ _) rfl
  | error what => exact exact_of_same hc ⟨rfl, rfl, rfl⟩

theorem lcallAddLogger_exact (hc : c.Subscribed) :
    c.Exact True (c.lcallAddLogger reply address) := by
  apply exact_of_same hc
  cases reply <;> exact ⟨rfl, rfl, rfl⟩

theorem lcallLoggerClose_exact (hc : c.Subscribed) : c.Exact True (c.lcallLoggerClose args) := by
  apply exact_of_same hc
  unfold lcallLoggerClose
  split <;> exact ⟨rfl, rfl, rfl⟩

theorem lcallLoggerSubscribe_exact (hc : c.Subscribed) :
    c.Exact True (c.lcallLoggerSubscribe numberText args reply) := by
  apply exact_of_same hc
  unfold lcallLoggerSubscribe
  split
  · exact same_refl c
  dsimp only
  split
  · split <;> exact ⟨rfl, rfl, rfl⟩
  · exact same_refl c

theorem close_sound {fs : FsModule} (hmatched : Matched fs.files fs.fileEvents)
    (hknows : Knows "on_pollin".toList fs.fileEvents) (id : Nat) :
    Matched (fs.close id).files (fs.close id).fileEvents ∧
      Knows "on_pollin".toList (fs.close id).fileEvents := by
  unfold FsModule.close
  split
  · exact ⟨matched_erase_both hmatched, hknows.erase id⟩
  · split <;> exact ⟨hmatched, hknows⟩

theorem lcallFsClose_exact (hc : c.Subscribed) : c.Exact True (c.lcallFsClose args) := by
  have hfs : ∀ (rest : List Value) (fs : FsModule), Matched fs.files fs.fileEvents →
      Knows "on_pollin".toList fs.fileEvents →
      let closed := rest.foldl (c.closeArgument args[0]?) fs
      Matched closed.files closed.fileEvents ∧ Knows "on_pollin".toList closed.fileEvents := by
    intro rest
    induction rest with
    | nil => exact fun fs hmatched hknows => ⟨hmatched, hknows⟩
    | cons arg rest ih =>
        intro fs hmatched hknows
        have hclosed : Matched (c.closeArgument args[0]? fs arg).files
            (c.closeArgument args[0]? fs arg).fileEvents ∧
            Knows "on_pollin".toList (c.closeArgument args[0]? fs arg).fileEvents := by
          unfold closeArgument
          dsimp only
          split <;> exact close_sound hmatched hknows _
        exact ih _ hclosed.1 hclosed.2
  have hafter := hfs args c.fs hc.matching.files hc.files
  have hout : (c.lcallFsClose args).2.Subscribed :=
    ⟨⟨hafter.1, hc.matching.devs⟩, hafter.2, hc.devs⟩
  exact exact_of_returned hout rfl

theorem lcallGpioClose_exact (hc : c.Subscribed) :
    c.Exact (¬ HandlerSet c.gpio.events (c.getMetaObject args[0]? .gpio))
      (c.lcallGpioClose args) := by
  have hmatch : (c.lcallGpioClose args).2.SubscriptionsMatch ↔
      ¬ HandlerSet c.gpio.events (c.getMetaObject args[0]? .gpio) := by
    rw [← matched_erase_objects_iff hc.matching.devs]
    exact ⟨fun hafter => hafter.devs, fun hdevs => ⟨hc.matching.files, hdevs⟩⟩
  apply And.intro
  · rw [← hmatch]
    exact ⟨fun hleaves => hleaves.1, fun hafter => leaves_of_returned hafter rfl⟩
  · intro hallowed
    exact ⟨hmatch.mpr hallowed, hc.files, hc.devs⟩

theorem lcallFileSubscribe_of_some {e : EventContainer} {f : CoreObject}
    (hevents : c.fs.fileEvents[c.getMetaObject args[0]? .file]? = some e)
    (hfile : c.fs.files[c.getMetaObject args[0]? .file]? = some f) :
    c.lcallFileSubscribe numberText args reply =
      let sub := e.subscribe numberText args 1
      let out := follow "on_pollin".toList sub.1 (some f) reply
      let h := c.getMetaObject args[0]? .file
      (out.1,
        { c with
          fs := { c.fs with
            files := putObject c.fs.files h out.2
            fileEvents := c.fs.fileEvents.insert h sub.2 } }) := by
  simp only [lcallFileSubscribe, hevents, hfile]

theorem lcallGpioSubscribe_of_some {e : EventContainer}
    (hevents : c.gpio.events[c.getMetaObject args[0]? .gpio]? = some e) :
    c.lcallGpioSubscribe numberText args reply =
      let sub := e.subscribe numberText args 1
      let h := c.getMetaObject args[0]? .gpio
      let out := follow "on_changed".toList sub.1 c.gpio.devs[h]? reply
      (out.1,
        { c with gpio := ⟨putObject c.gpio.devs h out.2, c.gpio.events.insert h sub.2⟩ }) := by
  simp only [lcallGpioSubscribe, hevents]

theorem lcallFileSubscribe_bad (hc : c.Subscribed)
    (hbad : ∀ e f, c.fs.fileEvents[c.getMetaObject args[0]? .file]? = some e →
      c.fs.files[c.getMetaObject args[0]? .file]? ≠ some f) :
    c.Exact (c.CallKeepsMatch numberText args reply .fileSubscribe)
      (c.lcallFileSubscribe numberText args reply) := by
  have hallowed : c.CallKeepsMatch numberText args reply .fileSubscribe :=
    fun e f hevents hfile => absurd hfile (hbad e f hevents)
  have hout : c.lcallFileSubscribe numberText args reply =
      (report .nil "Bad handle.".toList, c) := by
    unfold lcallFileSubscribe
    dsimp only
    split
    · next e f hevents hfile => exact absurd hfile (hbad e f hevents)
    · rfl
  rw [hout]
  exact ⟨iff_of_true (leaves_of_same hc (same_refl c)) hallowed, fun _ => hc⟩

/-- A file that is there matches afterwards exactly when the call is allowed. -/
theorem lcallFileSubscribe_good (hc : c.Subscribed) {e : EventContainer} {f : CoreObject}
    (hevents : c.fs.fileEvents[c.getMetaObject args[0]? .file]? = some e)
    (hfile : c.fs.files[c.getMetaObject args[0]? .file]? = some f) :
    c.Exact (SubscribeAllowed numberText "on_pollin".toList e (some f) args reply)
      (c.lcallFileSubscribe numberText args reply) := by
  have hexact := subscribe_matched_iff numberText args reply hc.matching.files hc.files hevents
  rw [hfile] at hexact
  rw [lcallFileSubscribe_of_some hevents hfile]
  apply And.intro
  · refine Iff.trans ?_ hexact
    apply Iff.intro
    · intro hleaves
      exact ⟨hleaves.1.files, fun first what hreport =>
        ⟨(hleaves.2 first what hreport).1, (hleaves.2 first what hreport).2.1⟩⟩
    · intro htables
      exact ⟨⟨htables.1, hc.matching.devs⟩, fun first what hreport =>
        ⟨(htables.2 first what hreport).1, (htables.2 first what hreport).2, rfl⟩⟩
  · intro hallowed
    have hknown := subscribe_known_of_known numberText (hc.files _ e hevents) args
    exact ⟨⟨(hexact.mpr hallowed).1, hc.matching.devs⟩, hc.files.insert _ hknown, hc.devs⟩

theorem lcallFileSubscribe_exact (hc : c.Subscribed) :
    c.Exact (c.CallKeepsMatch numberText args reply .fileSubscribe)
      (c.lcallFileSubscribe numberText args reply) := by
  cases hevents : c.fs.fileEvents[c.getMetaObject args[0]? .file]? with
  | none =>
      apply lcallFileSubscribe_bad hc
      intro e f hsome
      rw [hevents] at hsome
      cases hsome
  | some e =>
      cases hfile : c.fs.files[c.getMetaObject args[0]? .file]? with
      | none =>
          apply lcallFileSubscribe_bad hc
          intro _ f _ hsome
          rw [hfile] at hsome
          cases hsome
      | some f =>
          have hallowed : c.CallKeepsMatch numberText args reply .fileSubscribe ↔
              SubscribeAllowed numberText "on_pollin".toList e (some f) args reply := by
            apply Iff.intro
            · intro hall
              exact hall e f hevents hfile
            · intro hallowed e' f' hevents' hfile'
              rw [hevents] at hevents'
              rw [hfile] at hfile'
              cases hevents'
              cases hfile'
              exact hallowed
          rw [hallowed]
          exact lcallFileSubscribe_good hc hevents hfile

theorem lcallGpioSubscribe_exact (hc : c.Subscribed) :
    c.Exact (c.CallKeepsMatch numberText args reply .gpioSubscribe)
      (c.lcallGpioSubscribe numberText args reply) := by
  cases hevents : c.gpio.events[c.getMetaObject args[0]? .gpio]? with
  | none =>
      have hallowed : c.CallKeepsMatch numberText args reply .gpioSubscribe := by
        intro e hsome
        rw [hevents] at hsome
        cases hsome
      have hout : c.lcallGpioSubscribe numberText args reply =
          (report .nil "Bad handle.".toList, c) := by
        simp only [lcallGpioSubscribe, hevents]
      rw [hout]
      exact ⟨iff_of_true (leaves_of_same hc (same_refl c)) hallowed, fun _ => hc⟩
  | some e =>
      have hallowed : c.CallKeepsMatch numberText args reply .gpioSubscribe ↔
          SubscribeAllowed numberText "on_changed".toList e
            c.gpio.devs[c.getMetaObject args[0]? .gpio]? args reply := by
        simp only [CallKeepsMatch, hevents, Option.some_inj, forall_eq']
      have hexact := subscribe_matched_iff numberText args reply hc.matching.devs hc.devs hevents
      rw [hallowed, lcallGpioSubscribe_of_some hevents]
      apply And.intro
      · refine Iff.trans ?_ hexact
        apply Iff.intro
        · intro hleaves
          exact ⟨hleaves.1.devs, fun first what hreport => by
            have hsame := (hleaves.2 first what hreport).2.2
            exact ⟨congrArg GpioModule.devs hsame, congrArg GpioModule.events hsame⟩⟩
        · intro htables
          apply And.intro ⟨hc.matching.files, htables.1⟩
          intro first what hreport
          obtain ⟨hdevs, hsame⟩ := htables.2 first what hreport
          exact ⟨rfl, rfl, congrArg₂ GpioModule.mk hdevs hsame⟩
      · intro hallowed
        have hknown := subscribe_known_of_known numberText (hc.devs _ e hevents) args
        exact ⟨⟨hc.matching.files, (hexact.mpr hallowed).1⟩, hc.files,
          hc.devs.insert _ hknown⟩

theorem call_exact (hc : c.Subscribed) (function : LuaFunction) :
    c.Exact (c.CallKeepsMatch numberText args reply function)
      (c.call numberText args reply address function) := by
  cases function with
  | fileOpen => exact lcallFileOpen_exact hc
  | fsIterBegin => exact lcallFsIterBegin_exact hc
  | fsIterClone => exact lcallFsIterClone_exact hc
  | fsClose => exact lcallFsClose_exact hc
  | fileSubscribe => exact lcallFileSubscribe_exact hc
  | gpioExport => exact lcallExport_exact hc
  | gpioClose => exact lcallGpioClose_exact hc
  | gpioSubscribe => exact lcallGpioSubscribe_exact hc
  | addLogger => exact lcallAddLogger_exact hc
  | loggerClose => exact lcallLoggerClose_exact hc
  | loggerSubscribe => exact lcallLoggerSubscribe_exact hc

/-- The collector takes the userdata, which no subscription is in. -/
theorem gc_exact (hc : c.Subscribed) (m : MetaObject) :
    c.Exact (c.CallKeepsMatch numberText [.userdata address] (.ok ()) m.name.closing)
      (c.gc numberText address m) := by
  have hcall : c.Exact (c.CallKeepsMatch numberText [.userdata address] (.ok ()) m.name.closing)
      (c.call numberText [.userdata address] (.ok ()) 0 m.name.closing) := call_exact hc _
  have hleaves : c.Leaves (c.gc numberText address m) ↔
      c.Leaves (c.call numberText [.userdata address] (.ok ()) 0 m.name.closing) :=
    and_congr_left' ⟨fun hmatch => ⟨hmatch.files, hmatch.devs⟩,
      fun hmatch => ⟨hmatch.files, hmatch.devs⟩⟩
  apply And.intro (hleaves.trans hcall.1)
  intro hallowed
  have hsame : (c.call numberText [.userdata address] (.ok ()) 0 m.name.closing).2.SameSubscriptions
      (c.gc numberText address m).2 := ⟨rfl, rfl, rfl⟩
  exact hsame.subscribed (hcall.2 hallowed)

theorem perform_exact (hc : c.Subscribed) {a : LuaAction} {out : Answer × LuaClient}
    (hout : c.perform numberText a = some out) : c.Exact (c.KeepsMatch numberText a) out := by
  cases a with
  | call function args reply address =>
      unfold perform at hout
      dsimp only at hout
      split at hout
      · cases hout
        exact call_exact hc function
      · cases hout
  | collect address =>
      obtain ⟨m, hm, rfl⟩ := Option.map_eq_some_iff.mp hout
      have hallowed : c.KeepsMatch numberText (.collect address) ↔
          c.CallKeepsMatch numberText [.userdata address] (.ok ()) m.name.closing := by
        simp only [KeepsMatch, hm, Option.some_inj, forall_eq']
      rw [hallowed]
      exact gc_exact hc m

theorem subscribed_init : init.Subscribed where
  matching :=
    { files := fun h => iff_of_false (not_handlerSet Std.ExtTreeMap.getElem?_empty)
        (Table.getElem?_empty_ne h _)
      devs := fun h => iff_of_false (not_handlerSet Std.ExtTreeMap.getElem?_empty)
        (Table.getElem?_empty_ne h _) }
  files := fun h e hfound => absurd hfound (Table.getElem?_empty_ne h e)
  devs := fun h e hfound => absurd hfound (Table.getElem?_empty_ne h e)

end LuaClient

def StepLeaves (numberText : LuaNumber → Text) (c : LuaClient) (a : LuaAction)
    (c' : LuaClient) : Prop :=
  ∀ answer, c.perform numberText a = some (answer, c') → c.Leaves (answer, c')

/-- **Subscriptions match registrations.** In every run of scripts and collector, whatever
the client-core answers: handlers are set exactly where objects are registered after each
call, and a call that reports an error leaves them as they were, exactly when every step
keeps the match. -/
theorem subscriptions_match_iff (numberText : LuaNumber → Text) (as : List LuaAction) :
    (luaRuns numberText).Each (StepLeaves numberText) as ↔
      (luaRuns numberText).Meets (LuaClient.KeepsMatch numberText) as := by
  have hexact : ∀ {c c' : LuaClient} {a : LuaAction}, c.Subscribed →
      (luaRuns numberText).step c a = some c' →
      ∃ answer, c.perform numberText a = some (answer, c') ∧
        c.Exact (c.KeepsMatch numberText a) (answer, c') := by
    intro c c' a hc hstep
    obtain ⟨out, hout, rfl⟩ := Option.map_eq_some_iff.mp hstep
    exact ⟨out.1, hout, LuaClient.perform_exact hc hout⟩
  apply Machine.each_iff_meets LuaClient.subscribed_init
  · intro c a c' hc hguard hstep
    obtain ⟨answer, _, _, hsubscribed⟩ := hexact hc hstep
    exact hsubscribed hguard
  · intro c a c' hc hstep
    obtain ⟨answer, hout, hleaves, _⟩ := hexact hc hstep
    rw [← hleaves]
    apply Iff.intro
    · intro hall
      exact hall answer hout
    · intro hone answer' hout'
      rw [hout, Option.some_inj, Prod.mk.injEq] at hout'
      exact hout'.1 ▸ hone

/-- A file is opened, and its registration fails. -/
def failingRegister : List LuaAction :=
  [.call .fileOpen [.string "/dev/ttyS0".toList] (.ok ()) 1,
    .call .fileSubscribe [.userdata 1, .string "on_pollin".toList, .function 7]
      (.error "Operation not permitted") 2]

/-- The script is told of the error, and the file keeps the handler it has not registered. -/
theorem handler_without_registration :
    ¬ (luaRuns fun _ => []).Each (StepLeaves fun _ => []) failingRegister := by
  intro heach
  have hopened := (heach _ rfl).2
  have hleaves := (hopened _ rfl).1 _ rfl
  have hregistered := (hleaves.1.files 100).mp ⟨_, rfl, "on_pollin".toList, ⟨_, _⟩, rfl⟩
  revert hregistered
  decide +kernel

end FerroRemote.Lua
