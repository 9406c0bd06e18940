/-
# What the path functions leave on the stack

Every function is followed to the stack it ends with. `set`, `set_value` and `get_field`
end where they began, and `get_table` pushes as many values as it returns. Three do not
pop on one of their branches: `get` and `exists` keep the nil that they have found, and a
delivered event keeps whatever its handler has returned.
-/

import FerroRemote.Lua.Wrapper

namespace FerroRemote.Lua

variable {H α : Type}

namespace Library

variable (lib : Library H)

/-- The table that the rest of a path leads to from a value. -/
def follow (t : Value) (heap : H) : Text → Option (Value × H)
  | [] => if t.type = .table then some (t, heap) else none
  | _ :: path =>
    if t.type = .table then
      match lib.index heap t (.string (root path)) with
      | some (t', heap') => follow t' heap' (tail path)
      | none => none
    else none
termination_by path => path.length
decreasing_by exact Nat.lt_succ_of_le (tail_length_le path)

/-- The table that a path leads to. -/
def leadsTo (path : Text) (heap : H) : Option (Value × H) :=
  match lib.index heap lib.globals (.string (root path)) with
  | some (t, heap') => lib.follow t heap' (tail path)
  | none => none

def ReadsNil (heap : H) (t : Value) (name : Text) : Prop :=
  ∃ heap', lib.index heap t (.string name) = some (.nil, heap')

variable {lib} {t : Value} {heap : H} {name : Text}

theorem not_readsNil_of_error (hindex : lib.index heap t (.string name) = none) :
    ¬ lib.ReadsNil heap t name := by
  intro ⟨heap', hnil⟩
  rw [hindex] at hnil
  cases hnil

theorem readsNil_iff {read : Value × H}
    (hindex : lib.index heap t (.string name) = some read) :
    lib.ReadsNil heap t name ↔ read.1 = .nil := by
  apply Iff.intro
  · intro ⟨heap', hnil⟩
    rw [hindex] at hnil
    cases hnil
    rfl
  · intro hvalue
    exact ⟨read.2, by rw [hindex, ← hvalue]⟩

end Library

/-- The height is the same after the call, whether it returns or throws. -/
def Keeps (s : State H) (o : Conclusion String (State H) α) : Prop :=
  o.Ends (fun _ s' => s'.height = s.height) (fun s' => s'.height = s.height)

/-- The calls of the wrapper, and the delivery of an event. -/
inductive Operation (α : Type)
  | set (path : Text) (value : Value)
  | get (T : Trait α) (path : Text)
  | pathExists (path : Text)
  | setValue (path : Text) (idx : Int)
  | getField (key : Text) (idx : Int) (T : Trait α)
  | pushCall (caller : Bool) (call : Value) (params : List Value)
  | getTable (path : Text)

namespace Operation

variable (lib : Library H)

/-- The stack discipline: `get_table` reports what it has pushed, and the others leave the
height as they found it. -/
def Disciplined (s : State H) : Operation α → Prop
  | .set path value => Keeps s (Lua.set lib path value s)
  | .get T path => Keeps s (Lua.get lib T path s)
  | .pathExists path => Keeps s (Lua.pathExists lib path s)
  | .setValue path idx => Keeps s (Lua.setValue lib path idx s)
  | .getField key idx T => Keeps s (Lua.getField lib key idx T s)
  | .pushCall caller call params => Keeps s (pushCallImpl lib caller call params s)
  | .getTable path =>
    (Lua.getTable lib path s).Ends
      (fun n s' => s'.height = s.height + n ∧ (n = 0 ↔ lib.leadsTo path s.heap = none))
      (fun s' => s'.height = s.height)

/-- No global and no field that is asked for is nil where the functions forget it, and no
event handler returns anything. -/
def AvoidsLeftovers (heap : H) : Operation α → Prop
  | .get _ path => pathLeaf path = 0 → ¬ lib.ReadsNil heap lib.globals path
  | .pathExists path =>
    if pathLeaf path = 0 then ¬ lib.ReadsNil heap lib.globals path
    else ∀ t heap', lib.leadsTo (path.take (pathLeaf path)) heap = some (t, heap') →
      ¬ lib.ReadsNil heap' t (path.drop (pathLeaf path + 1))
  | .pushCall caller call params =>
    caller = true → ∀ values heap', lib.call heap call params = (.results values, heap') →
      values = []
  | _ => True

end Operation

section Branches

variable {lib : Library H} {heap : H} {value t : Value} {rest : List Value}

theorem whenTable_table (onTable otherwise : Program H α) (htype : value.type = .table) :
    whenTable onTable otherwise ⟨heap, value :: rest⟩ = onTable ⟨heap, value :: rest⟩ := by
  rw [whenTable, Action.bind_done isTable_top, if_pos (decide_eq_true htype)]

theorem whenTable_other (onTable otherwise : Program H α) (htype : value.type ≠ .table) :
    whenTable onTable otherwise ⟨heap, value :: rest⟩ = otherwise ⟨heap, value :: rest⟩ := by
  rw [whenTable, Action.bind_done isTable_top, decide_eq_false htype]
  rfl

theorem whenNil_nil (onNil otherwise : Program H α) :
    whenNil onNil otherwise ⟨heap, .nil :: rest⟩ = onNil ⟨heap, .nil :: rest⟩ := by
  rw [whenNil, Action.bind_done noneOrNil_top]
  rfl

theorem whenNil_other (onNil otherwise : Program H α) (hvalue : value ≠ .nil) :
    whenNil onNil otherwise ⟨heap, value :: rest⟩ = otherwise ⟨heap, value :: rest⟩ := by
  rw [whenNil, Action.bind_done noneOrNil_top, decide_eq_false hvalue]
  rfl

theorem getTop_accepted (T : Trait α) (hcheck : T.check value.type = true) :
    getTop T ⟨heap, value :: rest⟩ = .done (T.get value) ⟨heap, T.leaves value :: rest⟩ := by
  simp only [getTop, hcheck, if_true]

theorem getTop_refused (T : Trait α) (hcheck : ¬ T.check value.type = true) :
    getTop T ⟨heap, value :: rest⟩ =
      .thrown (badType T value.type) ⟨heap, value :: rest⟩ := by
  simp only [getTop, hcheck]
  rfl

/-- What is read replaces nothing: it is one more value on the stack. -/
theorem indexed_ends (s : State H) (t k : Value) :
    (indexed lib t k s).Ends (fun _ s' => ∃ value, s'.stack = value :: s.stack)
      (fun _ => False) := by
  cases hindex : lib.index s.heap t k with
  | none =>
      rw [indexed_none hindex]
      trivial
  | some read =>
      rw [indexed_some hindex]
      exact ⟨read.1, rfl⟩

theorem setTable_ends {k : Value} :
    (setTable lib ⟨heap, value :: k :: t :: rest⟩).Ends (fun _ s' => s'.stack = t :: rest)
      (fun _ => False) := by
  cases hassign : lib.assign heap t k value with
  | none =>
      rw [setTable_none hassign]
      trivial
  | some heap' =>
      rw [setTable_some hassign]
      rfl

theorem setGlobal_ends {name : Text} :
    (setGlobal lib name ⟨heap, value :: rest⟩).Ends (fun _ s' => s'.stack = rest)
      (fun _ => False) := by
  cases hassign : lib.assign heap lib.globals (.string name) value with
  | none =>
      rw [setGlobal_none hassign]
      trivial
  | some heap' =>
      rw [setGlobal_some hassign]
      rfl

end Branches

section Assignments

variable (lib : Library H)

theorem createOrPush_ends (path : Text) (value : Value) (s : State H) :
    (createOrPush lib path value s).Ends (fun _ s' => ∃ pushed, s'.stack = pushed :: s.stack)
      (fun _ => False) := by
  induction path using createOrPush.induct generalizing s with
  | case1 =>
      rw [createOrPush, if_pos rfl]
      exact ⟨value, rfl⟩
  | case2 path hpath ih =>
      rw [createOrPush, if_neg hpath]
      apply Action.ends_bind (Q := fun _ s' => ∃ t, s'.stack = t :: s.stack)
      · exact ⟨(lib.fresh s.heap).1, rfl⟩
      · intro _ s₁ ⟨t, hstack⟩
        rw [Action.bind_done (push_apply s₁)]
        apply Action.ends_bind (ih _)
        intro _ ⟨heap, stack⟩ ⟨pushed, htop⟩
        rw [hstack] at htop
        cases htop
        exact setTable_ends.imp (fun _ _ hrest => ⟨t, hrest⟩) (fun _ => id)

/-- The key, and the value under construction, go into the table below them. -/
theorem setField_ends (path : Text) (value t : Value) (name : Text) (heap : H)
    (rest : List Value) :
    ((do push (.string name)
         createOrPush lib path value
         setTable lib : Program H Unit) ⟨heap, t :: rest⟩).Ends
      (fun _ s' => s'.stack = t :: rest) (fun _ => False) := by
  rw [Action.bind_done (push_apply _)]
  apply Action.ends_bind (createOrPush_ends lib path value _)
  intro _ ⟨heap', stack⟩ ⟨pushed, htop⟩
  cases htop
  exact setTable_ends

theorem setToStack_ends (path : Text) (value t : Value) (heap : H) (rest : List Value) :
    (setToStack lib path value ⟨heap, t :: rest⟩).Ends (fun _ s' => s'.stack = t :: rest)
      (fun _ => False) := by
  induction path using setToStack.induct generalizing heap t rest with
  | case1 path htail =>
      rw [setToStack, if_pos htail, Action.bind_done (push_apply _),
        Action.bind_done (push_apply _)]
      exact setTable_ends
  | case2 path htail ih =>
      rw [setToStack, if_neg htail]
      apply Action.ends_bind (indexed_ends _ t (.string (root path)))
      intro _ ⟨heap', stack⟩ ⟨field, htop⟩
      cases htop
      by_cases htype : field.type = .table
      · rw [whenTable_table _ _ htype]
        apply Action.ends_bind (ih field heap' (t :: rest))
        intro _ ⟨heap'', stack⟩ hstack
        cases hstack
        rfl
      · rw [whenTable_other _ _ htype, Action.bind_done (pop_apply _ _)]
        exact setField_ends lib _ value t _ heap' rest

theorem replaceTop_ends (path : Text) (value denoted : Value) (heap : H) (rest : List Value) :
    (replaceTop lib path value ⟨heap, denoted :: rest⟩).Ends
      (fun _ s' => ∃ pushed, s'.stack = pushed :: rest) (fun _ => False) := by
  rw [replaceTop]
  by_cases htype : denoted.type = .table
  · rw [whenTable_table _ _ htype]
    split
    · exact ⟨value, rfl⟩
    · exact (setToStack_ends lib _ value denoted heap rest).imp
        (fun _ _ hrest => ⟨denoted, hrest⟩) (fun _ => id)
  · rw [whenTable_other _ _ htype, Action.bind_done (pop_apply _ _)]
    split
    · exact ⟨value, rfl⟩
    · exact createOrPush_ends lib _ value _

theorem set_ends (path : Text) (value : Value) (s : State H) :
    (set lib path value s).Ends (fun _ s' => s'.stack = s.stack) (fun _ => False) := by
  rw [set]
  apply Action.ends_bind (indexed_ends s lib.globals (.string (root path)))
  intro _ ⟨heap, stack⟩ ⟨denoted, htop⟩
  cases htop
  apply Action.ends_bind (replaceTop_ends lib path value denoted heap s.stack)
  intro _ ⟨heap', stack⟩ ⟨pushed, htop⟩
  cases htop
  exact setGlobal_ends

end Assignments

section Descent

variable (lib : Library H)

omit lib in
theorem pop_tables (t : Value) (heap : H) (above rest : List Value) :
    (do pop (above.length + 1); return 0 : Program H Nat) ⟨heap, t :: (above ++ rest)⟩ =
      .done 0 ⟨heap, rest⟩ := by
  rw [Action.bind_done (pop_apply _ _), Action.pure_apply, List.drop_succ_cons, List.drop_left]

/-- **One descent, in every case.** The tables on the way are on the stack when the path
leads to a table, and none is otherwise. -/
theorem getTableFrom_run (t : Value) (heap : H) (path : Text) (above rest : List Value) :
    match lib.follow t heap path with
    | some (t', heap') => ∃ way, getTableFrom lib (above.length + 1) path
        ⟨heap, t :: (above ++ rest)⟩ = .done (way.length + 1) ⟨heap', t' :: (way ++ rest)⟩
    | none => getTableFrom lib (above.length + 1) path ⟨heap, t :: (above ++ rest)⟩ = .left ∨
        ∃ heap', getTableFrom lib (above.length + 1) path
          ⟨heap, t :: (above ++ rest)⟩ = .done 0 ⟨heap', rest⟩ := by
  induction t, heap, path using Library.follow.induct lib generalizing above with
  | case1 t heap htype =>
      rw [Library.follow, if_pos htype, getTableFrom, whenTable_table _ _ htype]
      exact ⟨above, rfl⟩
  | case2 t heap htype =>
      rw [Library.follow, if_neg htype, getTableFrom, whenTable_other _ _ htype]
      exact .inr ⟨heap, pop_tables t heap above rest⟩
  | case3 t heap c path htype t' heap' hindex ih =>
      rw [Library.follow, if_pos htype, getTableFrom, whenTable_table _ _ htype,
        Action.bind_done (getfield_some hindex)]
      simp only [hindex]
      exact ih (t :: above)
  | case4 t heap c path htype hindex =>
      rw [Library.follow, if_pos htype, getTableFrom, whenTable_table _ _ htype,
        Action.bind_left (getfield_none hindex)]
      simp only [hindex, true_or]
  | case5 t heap c path htype =>
      rw [Library.follow, if_neg htype, getTableFrom, whenTable_other _ _ htype]
      exact .inr ⟨heap, pop_tables t heap above rest⟩

theorem getTable_run (path : Text) (s : State H) :
    match lib.leadsTo path s.heap with
    | some (t, heap) => ∃ way, getTable lib path s =
        .done (way.length + 1) ⟨heap, t :: (way ++ s.stack)⟩
    | none => getTable lib path s = .left ∨
        ∃ heap, getTable lib path s = .done 0 ⟨heap, s.stack⟩ := by
  cases hindex : lib.index s.heap lib.globals (.string (root path)) with
  | none =>
      simp only [Library.leadsTo, hindex, getTable]
      exact .inl (Action.bind_left (getGlobal_none hindex))
  | some read =>
      simp only [Library.leadsTo, hindex, getTable]
      rw [Action.bind_done (getGlobal_some hindex)]
      exact getTableFrom_run lib read.1 read.2 (tail path) [] s.stack

theorem getTable_leads {path : Text} {s : State H} {t : Value} {heap : H}
    (hleads : lib.leadsTo path s.heap = some (t, heap)) :
    ∃ way, getTable lib path s = .done (way.length + 1) ⟨heap, t :: (way ++ s.stack)⟩ := by
  have hrun := getTable_run lib path s
  rw [hleads] at hrun
  exact hrun

theorem getTable_lost {path : Text} {s : State H} (hleads : lib.leadsTo path s.heap = none) :
    getTable lib path s = .left ∨ ∃ heap, getTable lib path s = .done 0 ⟨heap, s.stack⟩ := by
  have hrun := getTable_run lib path s
  rw [hleads] at hrun
  exact hrun

end Descent

section Readings

variable (lib : Library H)

/-- A field is read and taken off again, or its type is refused and it is taken off. -/
theorem getField_ends (key : Text) (idx : Int) (T : Trait α) (s : State H) :
    (getField lib key idx T s).Ends (fun _ s' => s'.stack = s.stack)
      (fun s' => s'.stack = s.stack) := by
  rw [getField]
  apply Action.ends_bind ((indexed_ends s _ (.string key)).imp (fun _ _ => id)
    (fun _ hfalse => False.elim hfalse))
  intro _ ⟨heap, stack⟩ ⟨field, htop⟩
  cases htop
  apply Action.ends_bind (Q := fun _ s' => ∃ left, s'.stack = left :: s.stack)
  · by_cases hfield : field = .nil
    · rw [hfield, whenNil_nil]
      exact ⟨.nil, rfl⟩
    · rw [whenNil_other _ _ hfield]
      by_cases hcheck : T.check field.type = true
      · rw [Action.cleaning_done (getTop_accepted T hcheck)]
        exact ⟨T.leaves field, rfl⟩
      · rw [Action.cleaning_thrown (getTop_refused T hcheck) (pop_apply _ _)]
        rfl
  · intro p ⟨heap', stack⟩ ⟨left, htop⟩
    cases htop
    rfl

/-- A global that is not nil is read and taken off. -/
theorem takeTop_ends (T : Trait α) (value : Value) (heap : H) (rest : List Value) :
    ((takeTop T).cleaning (pop 1) ⟨heap, value :: rest⟩).Ends (fun _ s' => s'.stack = rest)
      (fun s' => s'.stack = rest) := by
  by_cases hcheck : T.check value.type = true
  · have hrun : takeTop T ⟨heap, value :: rest⟩ = .done (T.get value) ⟨heap, rest⟩ := by
      rw [takeTop, Action.bind_done (getTop_accepted T hcheck)]
      rfl
    rw [Action.cleaning_done hrun]
    rfl
  · have hrun : takeTop T ⟨heap, value :: rest⟩ =
        .thrown (badType T value.type) ⟨heap, value :: rest⟩ := by
      rw [takeTop, Action.bind_thrown (getTop_refused T hcheck)]
    rw [Action.cleaning_thrown hrun (pop_apply _ _)]
    rfl

/-- The field is taken off by `get_field`, the tables on the way by `get`. -/
theorem readField_ends (name : Text) (T : Trait α) (level : Nat) (s : State H) :
    ((takeField lib level name T).cleaning (pop level) s).Ends
      (fun _ s' => s'.stack = s.stack.drop level) (fun s' => s'.stack = s.stack.drop level) := by
  apply Action.ends_cleaning (E := fun s' => s'.stack = s.stack)
  · apply Action.ends_bind (getField_ends lib name (-1) T s)
    intro value s' hstack
    exact congrArg (List.drop level) hstack
  · intro s' hstack
    exact congrArg (List.drop level) hstack

/-- `get` keeps the height unless the path is a global that is nil. -/
theorem get_keeps_iff (T : Trait α) (path : Text) (s : State H) :
    Keeps s (get lib T path s) ↔
      (pathLeaf path = 0 → ¬ lib.ReadsNil s.heap lib.globals path) := by
  rw [get]
  by_cases hleaf : pathLeaf path = 0
  · rw [if_pos hleaf]
    cases hindex : lib.index s.heap lib.globals (.string path) with
    | none =>
        rw [Action.bind_left (getGlobal_none hindex)]
        exact iff_of_true trivial (fun _ => Library.not_readsNil_of_error hindex)
    | some read =>
        rw [Action.bind_done (getGlobal_some hindex), Library.readsNil_iff hindex]
        by_cases hvalue : read.1 = .nil
        · rw [hvalue, whenNil_nil]
          apply iff_of_false
          · exact fun hkept => Nat.succ_ne_self s.height hkept
          · exact fun hkept => hkept hleaf rfl
        · rw [whenNil_other _ _ hvalue]
          apply iff_of_true _ (fun _ => hvalue)
          exact (takeTop_ends T read.1 read.2 s.stack).imp
            (fun _ _ hstack => congrArg List.length hstack)
            (fun _ hstack => congrArg List.length hstack)
  · rw [if_neg hleaf]
    apply iff_of_true _ (fun hzero => absurd hzero hleaf)
    cases hleads : lib.leadsTo (path.take (pathLeaf path)) s.heap with
    | none =>
        obtain hleft | ⟨heap, hrun⟩ := getTable_lost lib hleads
        · rw [Action.bind_left hleft]
          trivial
        · rw [Action.bind_done hrun]
          rfl
    | some led =>
        obtain ⟨way, hrun⟩ := getTable_leads lib hleads
        rw [Action.bind_done hrun, if_neg (Nat.succ_ne_zero _)]
        have hdrop : (led.1 :: (way ++ s.stack)).drop (way.length + 1) = s.stack :=
          List.drop_left
        apply (readField_ends lib _ T _ _).imp
        · intro _ s' hstack
          rw [State.height, hstack, hdrop]
          rfl
        · intro s' hstack
          rw [State.height, hstack, hdrop]
          rfl

/-- What is on the top is taken off unless it is nil. -/
theorem probe_ends (value : Value) (heap : H) (rest : List Value) :
    whenNil (pure false) (do pop 1; return true : Program H Bool) ⟨heap, value :: rest⟩ =
      if value = .nil then .done false ⟨heap, .nil :: rest⟩ else .done true ⟨heap, rest⟩ := by
  by_cases hvalue : value = .nil
  · rw [if_pos hvalue, hvalue, whenNil_nil]
    rfl
  · rw [if_neg hvalue, whenNil_other _ _ hvalue]
    rfl

theorem pathExists_keeps_iff (path : Text) (s : State H) :
    Keeps s (pathExists lib path s) ↔
      (Operation.pathExists path : Operation α).AvoidsLeftovers lib s.heap := by
  rw [pathExists, Operation.AvoidsLeftovers]
  by_cases hleaf : pathLeaf path = 0
  · rw [if_pos hleaf, if_pos hleaf]
    cases hindex : lib.index s.heap lib.globals (.string path) with
    | none =>
        rw [Action.bind_left (getGlobal_none hindex)]
        exact iff_of_true trivial (Library.not_readsNil_of_error hindex)
    | some read =>
        rw [Action.bind_done (getGlobal_some hindex), probe_ends, Library.readsNil_iff hindex]
        by_cases hvalue : read.1 = .nil
        · rw [if_pos hvalue]
          apply iff_of_false
          · exact fun hkept => Nat.succ_ne_self s.height hkept
          · exact fun hkept => hkept hvalue
        · rw [if_neg hvalue]
          exact iff_of_true rfl hvalue
  · rw [if_neg hleaf, if_neg hleaf]
    cases hleads : lib.leadsTo (path.take (pathLeaf path)) s.heap with
    | none =>
        apply iff_of_true _ (fun t heap' hsome => by cases hsome)
        obtain hleft | ⟨heap, hrun⟩ := getTable_lost lib hleads
        · rw [Action.bind_left hleft]
          trivial
        · rw [Action.bind_done hrun]
          rfl
    | some led =>
        obtain ⟨t, heap⟩ := led
        obtain ⟨way, hrun⟩ := getTable_leads lib hleads
        rw [Action.bind_done hrun, if_neg (Nat.succ_ne_zero _)]
        have hdrop : (t :: (way ++ s.stack)).drop (way.length + 1) = s.stack :=
          List.drop_left
        cases hindex : lib.index heap t (.string (path.drop (pathLeaf path + 1))) with
        | none =>
            rw [Action.bind_left (getfield_none hindex)]
            apply iff_of_true trivial
            intro t' heap' hsome
            cases hsome
            exact Library.not_readsNil_of_error hindex
        | some read =>
            rw [Action.bind_done (getfield_some hindex)]
            by_cases hvalue : read.1 = .nil
            · have hprobe := probe_ends read.1 read.2 (t :: (way ++ s.stack))
              rw [if_pos hvalue] at hprobe
              rw [Action.bind_done hprobe, Action.bind_done (pop_apply _ _)]
              apply iff_of_false
              · intro hkept
                have hheight : ((Value.nil :: t :: (way ++ s.stack)).drop
                    (way.length + 1)).length = s.stack.length := hkept
                simp only [List.length_drop, List.length_cons, List.length_append] at hheight
                omega
              · exact fun hkept => hkept t heap rfl ((Library.readsNil_iff hindex).mpr hvalue)
            · have hprobe := probe_ends read.1 read.2 (t :: (way ++ s.stack))
              rw [if_neg hvalue] at hprobe
              rw [Action.bind_done hprobe, Action.bind_done (pop_apply _ _)]
              apply iff_of_true (congrArg List.length hdrop)
              intro t' heap' hsome
              cases hsome
              exact (Library.readsNil_iff hindex).not.mpr hvalue

theorem getTable_disciplined (path : Text) (s : State H) :
    (getTable lib path s).Ends
      (fun n s' => s'.height = s.height + n ∧ (n = 0 ↔ lib.leadsTo path s.heap = none))
      (fun s' => s'.height = s.height) := by
  cases hleads : lib.leadsTo path s.heap with
  | none =>
      obtain hleft | ⟨heap, hrun⟩ := getTable_lost lib hleads
      · rw [hleft]
        trivial
      · rw [hrun]
        exact ⟨rfl, iff_of_true rfl rfl⟩
  | some led =>
      obtain ⟨way, hrun⟩ := getTable_leads lib hleads
      rw [hrun]
      apply And.intro
      · simp only [State.height, List.length_cons, List.length_append]
        omega
      · exact iff_of_false (Nat.succ_ne_zero _) (fun hnone => by cases hnone)

end Readings

section Calls

variable (lib : Library H)

theorem assignGlobal_ends (idx : Int) (name : Text) (s : State H) :
    ((do pushValue idx; setGlobal lib name : Program H Unit) s).Ends
      (fun _ s' => s'.stack = s.stack) (fun _ => False) :=
  setGlobal_ends

theorem setValue_ends (path : Text) (idx : Int) (s : State H) :
    (setValue lib path idx s).Ends (fun _ s' => s'.stack = s.stack) (fun _ => False) := by
  rw [setValue]
  apply Action.ends_bind (set_ends lib path _ s)
  intro _ s₁ hstack
  by_cases hleaf : pathLeaf path = 0
  · rw [if_pos hleaf, ← hstack]
    exact assignGlobal_ends lib idx path s₁
  · rw [if_neg hleaf]
    cases hleads : lib.leadsTo (path.take (pathLeaf path)) s₁.heap with
    | none =>
        obtain hleft | ⟨heap, hrun⟩ := getTable_lost lib hleads
        · rw [Action.bind_left hleft]
          trivial
        · rw [Action.bind_done hrun]
          exact hstack
    | some led =>
        obtain ⟨t, heap⟩ := led
        obtain ⟨way, hrun⟩ := getTable_leads lib hleads
        rw [Action.bind_done hrun, if_neg (Nat.succ_ne_zero _)]
        apply Action.ends_bind (indexed_ends _ _ _)
        intro _ ⟨heap', stack⟩ ⟨old, htop⟩
        cases htop
        rw [Action.bind_done (pop_apply _ _), Action.bind_done (push_apply _)]
        apply Action.ends_bind setTable_ends
        intro _ s' hrest
        have hpopped : s'.stack.drop (way.length + 1) = s₁.stack := by
          rw [hrest]
          exact List.drop_left
        exact hpopped.trans hstack

theorem pushAll_apply (values : List Value) (s : State H) :
    pushAll values s = .done () ⟨s.heap, values.reverse ++ s.stack⟩ := by
  induction values generalizing s with
  | nil => rfl
  | cons value values ih =>
      rw [pushAll, Action.bind_done (push_apply s), ih, List.reverse_cons, List.append_assoc]
      rfl

/-- The function and its arguments go, what the call ends with comes. -/
theorem pcall_apply (heap : H) (call : Value) (params rest : List Value) :
    pcall lib params.length ⟨heap, params.reverse ++ call :: rest⟩ =
      match lib.call heap call params with
      | (.results values, heap') => .done true ⟨heap', values.reverse ++ rest⟩
      | (.failed message, heap') => .done false ⟨heap', message :: rest⟩ := by
  have hlength : params.reverse.length = params.length := List.length_reverse
  have htake : ((params.reverse ++ call :: rest).take params.length).reverse = params := by
    rw [← hlength, List.take_left, List.reverse_reverse]
  have hdrop : (params.reverse ++ call :: rest).drop (params.length + 1) = rest := by
    rw [← hlength, ← List.drop_drop, List.drop_left]
    rfl
  have hslot : slot (params.reverse ++ call :: rest) (-(params.length + 1)) = some call := by
    rw [slot, if_neg (by omega)]
    have hindex : (-(-((params.length : Int) + 1))).toNat - 1 = params.reverse.length := by
      rw [List.length_reverse]
      omega
    rw [hindex]
    simp
  have happly : pcall lib params.length ⟨heap, params.reverse ++ call :: rest⟩ =
      match lib.call heap ((slot (params.reverse ++ call :: rest) (-(params.length + 1))).getD .nil)
        ((params.reverse ++ call :: rest).take params.length).reverse with
      | (.results values, heap') =>
        .done true ⟨heap', values.reverse ++
          (params.reverse ++ call :: rest).drop (params.length + 1)⟩
      | (.failed message, heap') =>
        .done false ⟨heap', message :: (params.reverse ++ call :: rest).drop (params.length + 1)⟩ :=
    rfl
  rw [happly, htake, hdrop, hslot, Option.getD_some]

theorem pushCallImpl_keeps_iff (caller : Bool) (call : Value) (params : List Value)
    (s : State H) :
    Keeps s (pushCallImpl lib caller call params s) ↔
      (caller = true → ∀ values heap', lib.call s.heap call params = (.results values, heap') →
        values = []) := by
  cases caller with
  | false => exact iff_of_true rfl (fun hfalse => by cases hfalse)
  | true =>
      rw [pushCallImpl, if_pos rfl, Action.bind_done (push_apply s),
        Action.bind_done (pushAll_apply params _)]
      have hcall := pcall_apply lib s.heap call params s.stack
      cases hresult : lib.call s.heap call params with
      | mk called heap =>
          rw [hresult] at hcall
          cases called with
          | failed message =>
              rw [Action.bind_done hcall]
              apply iff_of_true rfl
              intro _ values heap' hsome
              cases hsome
          | results values =>
              rw [Action.bind_done hcall]
              apply Iff.intro
              · intro hkept _ values' heap' hsome
                cases hsome
                have hheight : (values.reverse ++ s.stack).length = s.stack.length := hkept
                rw [List.length_append, List.length_reverse] at hheight
                exact List.eq_nil_of_length_eq_zero (by omega)
              · intro hempty
                rw [hempty rfl values heap rfl]
                rfl

end Calls

/-- The stack is as a call found it, or as high above that as `get_table` reports, exactly
when the call does not come to a nil that is left there and a delivered event returns
nothing. -/
theorem disciplined_iff (lib : Library H) (s : State H) (op : Operation α) :
    op.Disciplined lib s ↔ op.AvoidsLeftovers lib s.heap := by
  cases op with
  | set path value =>
      apply iff_of_true _ trivial
      exact (set_ends lib path value s).imp (fun _ _ hstack => congrArg List.length hstack)
        (fun _ hfalse => False.elim hfalse)
  | get T path => exact get_keeps_iff lib T path s
  | pathExists path => exact pathExists_keeps_iff lib path s
  | setValue path idx =>
      apply iff_of_true _ trivial
      exact (setValue_ends lib path idx s).imp (fun _ _ hstack => congrArg List.length hstack)
        (fun _ hfalse => False.elim hfalse)
  | getField key idx T =>
      apply iff_of_true _ trivial
      exact (getField_ends lib key idx T s).imp (fun _ _ hstack => congrArg List.length hstack)
        (fun _ hstack => congrArg List.length hstack)
  | pushCall caller call params => exact pushCallImpl_keeps_iff lib caller call params s
  | getTable path => exact iff_of_true (getTable_disciplined lib path s) trivial

/-- One global, an empty table `t`, and functions that return true. -/
def oneTable : Library Unit where
  globals := .table 0
  index _ t k := some (if t = .table 0 ∧ k = .string ['t'] then .table 1 else .nil, ())
  assign _ _ _ _ := some ()
  fresh _ := (.table 2, ())
  call _ _ _ := (.results [.boolean true], ())

/-- Three calls that each leave one value on an empty stack. -/
theorem nil_stays_on_stack :
    ¬ (Operation.get idUserData ['x']).Disciplined oneTable ⟨(), []⟩ ∧
      ¬ (Operation.pathExists ['t', '.', 'x'] : Operation Nat).Disciplined oneTable ⟨(), []⟩ ∧
      ¬ (Operation.pushCall true (.function 0) [] : Operation Nat).Disciplined oneTable
        ⟨(), []⟩ := by
  apply And.intro
  · exact Nat.succ_ne_self 0
  · apply And.intro
    · intro hkept
      have hleads : oneTable.leadsTo ['t'] () = some (.table 1, ()) := by
        change oneTable.follow (.table 1) () [] = _
        rw [Library.follow]
        rfl
      exact (pathExists_keeps_iff (α := Nat) oneTable ['t', '.', 'x'] ⟨(), []⟩).mp hkept
        (.table 1) () hleads ⟨(), rfl⟩
    · exact Nat.succ_ne_self 0

end FerroRemote.Lua
