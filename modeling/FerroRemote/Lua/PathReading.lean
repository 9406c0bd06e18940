/-
# What a path denotes

Paths of components that are not empty, over tables without metatables. A path denotes
what is read by following its components from the table of globals, and nil when it leaves
the tables on the way. `get_table` and `get` are two programs that read it.
-/

import FerroRemote.Lua.StackDiscipline
import FerroRemote.Lua.Tables
import FerroRemote.Math.FieldPaths

namespace FerroRemote.Lua

def components (path : Text) : List Text :=
  if tail path = [] then [root path] else root path :: components ((tail path).drop 1)
termination_by path.length
decreasing_by exact length_afterDot ‹_›

def WellNamed (path : Text) : Prop := ∀ name ∈ components path, name ≠ []

theorem components_of_tail_nil {path : Text} (htail : tail path = []) :
    components path = [root path] := by
  rw [components, if_pos htail]

theorem components_of_tail {path : Text} (htail : tail path ≠ []) :
    components path = root path :: components ((tail path).drop 1) := by
  rw [components, if_neg htail]

theorem components_ne_nil (path : Text) : components path ≠ [] := by
  rw [components]
  split <;> exact List.cons_ne_nil _ _

theorem root_append_tail (path : Text) : root path ++ tail path = path :=
  List.take_append_drop _ _

theorem dot_not_mem_root (path : Text) : '.' ∉ root path := by
  induction path with
  | nil => exact List.not_mem_nil
  | cons c path ih =>
      by_cases hdot : c = '.'
      · rw [root, pathRoot, if_pos hdot]
        exact List.not_mem_nil
      · rw [root, pathRoot, if_neg hdot, List.take_succ_cons, List.mem_cons]
        exact fun hmem => hmem.elim (fun heq => hdot heq.symm) ih

/-- What is left after the first component is nothing, or begins with the dot. -/
theorem tail_eq (path : Text) : tail path = [] ∨ tail path = '.' :: (tail path).drop 1 := by
  induction path with
  | nil => exact .inl rfl
  | cons c path ih =>
      by_cases hdot : c = '.'
      · rw [tail, pathRoot, if_pos hdot, hdot]
        exact .inr rfl
      · rw [tail, pathRoot, if_neg hdot, List.drop_succ_cons]
        exact ih

/-- A path with a dot is its first component, the dot, and the rest. -/
theorem eq_root_append {path : Text} (htail : tail path ≠ []) :
    path = root path ++ '.' :: (tail path).drop 1 := by
  have hdot := (tail_eq path).resolve_left htail
  rw [← hdot, root_append_tail]

theorem pathRoot_append {a : Text} (ha : '.' ∉ a) (b : Text) :
    pathRoot (a ++ '.' :: b) = a.length := by
  induction a with
  | nil => rfl
  | cons c a ih =>
      rw [List.mem_cons, not_or] at ha
      rw [List.cons_append, pathRoot, if_neg (fun heq => ha.1 heq.symm), ih ha.2,
        List.length_cons]

theorem root_append {a : Text} (ha : '.' ∉ a) (b : Text) : root (a ++ '.' :: b) = a := by
  rw [root, pathRoot_append ha, List.take_left]

theorem tail_append {a : Text} (ha : '.' ∉ a) (b : Text) :
    tail (a ++ '.' :: b) = '.' :: b := by
  rw [tail, pathRoot_append ha, List.drop_left]

theorem components_append {a : Text} (ha : '.' ∉ a) (b : Text) :
    components (a ++ '.' :: b) = a :: components b := by
  rw [components_of_tail (by rw [tail_append ha]; exact List.cons_ne_nil _ _), root_append ha,
    tail_append ha]
  rfl

theorem pathRoot_of_not_mem {a : Text} (ha : '.' ∉ a) : pathRoot a = a.length := by
  induction a with
  | nil => rfl
  | cons c a ih =>
      rw [List.mem_cons, not_or] at ha
      rw [pathRoot, if_neg (fun heq => ha.1 heq.symm), ih ha.2, List.length_cons]

theorem components_of_not_mem {a : Text} (ha : '.' ∉ a) : components a = [a] := by
  have hroot := pathRoot_of_not_mem ha
  have htail : tail a = [] := by rw [tail, hroot, List.drop_length]
  rw [components_of_tail_nil htail, root, hroot, List.take_length]

theorem components_prefix (a b : Text) :
    components (a ++ '.' :: b) = components a ++ components b := by
  induction a using components.induct with
  | case1 a htail =>
      have hroot : root a = a := by
        have happ := root_append_tail a
        rwa [htail, List.append_nil] at happ
      have hdot : '.' ∉ a := hroot ▸ dot_not_mem_root a
      rw [components_append hdot, components_of_not_mem hdot]
      rfl
  | case2 a htail ih =>
      have hsplit := eq_root_append htail
      have hdot := dot_not_mem_root a
      have hfirst : components a = root a :: components ((tail a).drop 1) :=
        components_of_tail htail
      have hwhole : a ++ '.' :: b = root a ++ '.' :: ((tail a).drop 1 ++ '.' :: b) := by
        calc a ++ '.' :: b = (root a ++ '.' :: (tail a).drop 1) ++ '.' :: b := by rw [← hsplit]
          _ = root a ++ '.' :: ((tail a).drop 1 ++ '.' :: b) := by
              rw [List.append_assoc, List.cons_append]
      rw [hwhole, components_append hdot, ih, hfirst, List.cons_append]

theorem exists_last {path : Text} (htail : tail path ≠ []) :
    ∃ a b, path = a ++ '.' :: b ∧ '.' ∉ b := by
  induction path using components.induct with
  | case1 path hnil => exact absurd hnil htail
  | case2 path _ ih =>
      have hsplit := eq_root_append htail
      by_cases hnext : tail ((tail path).drop 1) = []
      · have hroot := root_append_tail ((tail path).drop 1)
        rw [hnext, List.append_nil] at hroot
        exact ⟨root path, (tail path).drop 1, hsplit, hroot ▸ dot_not_mem_root _⟩
      · obtain ⟨a, b, hpath, hb⟩ := ih hnext
        refine ⟨root path ++ '.' :: a, b, ?_, hb⟩
        rw [List.append_assoc, List.cons_append, ← hpath]
        exact hsplit

theorem leafFrom_of_not_mem {path : Text} (hpath : '.' ∉ path) (p sp : Nat) :
    leafFrom p sp path = sp := by
  induction path generalizing p with
  | nil => rfl
  | cons c path ih =>
      rw [List.mem_cons, not_or] at hpath
      rw [leafFrom, if_neg (fun heq => hpath.1 heq.symm), ih hpath.2]

theorem leafFrom_append (a : Text) {b : Text} (hb : '.' ∉ b) (p sp : Nat) :
    leafFrom p sp (a ++ '.' :: b) = p + a.length := by
  induction a generalizing p sp with
  | nil => exact leafFrom_of_not_mem hb (p + 1) p
  | cons c a ih =>
      rw [List.cons_append, leafFrom, ih, List.length_cons]
      omega

theorem pathLeaf_append (a : Text) {b : Text} (hb : '.' ∉ b) :
    pathLeaf (a ++ '.' :: b) = a.length := by
  rw [pathLeaf, leafFrom_append a hb, Nat.zero_add]

theorem pathLeaf_of_tail_nil {path : Text} (htail : tail path = []) :
    pathLeaf path = 0 ∧ root path = path := by
  have hroot := root_append_tail path
  rw [htail, List.append_nil] at hroot
  exact ⟨leafFrom_of_not_mem (hroot ▸ dot_not_mem_root path) 0 0, hroot⟩

/-- Tables are nodes, and what is not there is nil. -/
def valueShape : Shape Nat Value where
  node
    | .table id => some id
    | _ => none
  absent := .nil
  node_absent := rfl

theorem node_eq_some_iff {v : Value} {id : Nat} :
    valueShape.node v = some id ↔ v = .table id := by
  cases v <;> simp [valueShape]

theorem node_eq_none_iff {v : Value} : valueShape.node v = none ↔ v.type ≠ .table := by
  cases v <;> simp [valueShape, Value.type]

def fields (h : Heap) (id : Nat) (name : Text) : Value := h.get id (.string name)

/-- What a path leads to from the table of globals. -/
def denotes (h : Heap) (globals : Nat) (path : Text) : Value :=
  valueShape.reads (fields h) (.table globals) (components path)

/-- The components after the first, by what stands after it. -/
def remaining : Text → List Text
  | [] => []
  | _ :: path => components path

theorem components_eq (path : Text) : components path = root path :: remaining (tail path) := by
  cases tail_eq path with
  | inl htail => rw [components_of_tail_nil htail, htail, remaining]
  | inr htail =>
      have hne : tail path ≠ [] := by
        rw [htail]
        exact List.cons_ne_nil _ _
      rw [components_of_tail hne, htail]
      rfl

/-- What reading as `T` says about a value. -/
def Trait.answer {α : Type} (T : Trait α) (value : Value) : Except String α :=
  if value = .nil then .ok T.default
  else if T.check value.type then .ok (T.get value)
  else .error (badType T value.type)

section Library

variable {globals : Nat} {call : Heap → Value → List Value → Called × Heap} {h : Heap}

theorem index_table (id : Nat) (k : Value) :
    (tableLibrary globals call).index h (.table id) k = some (h.get id k, h) := rfl

theorem follow_eq (t : Value) (path : Text) :
    (tableLibrary globals call).follow t h path =
      if (valueShape.reads (fields h) t (remaining path)).type = .table then
        some (valueShape.reads (fields h) t (remaining path), h)
      else none := by
  induction hlen : path.length using Nat.strongRecOn generalizing t path with
  | ind n ih =>
      cases path with
      | nil =>
          rw [Library.follow]
          rfl
      | cons c path =>
          rw [Library.follow, remaining, components_eq]
          by_cases htype : t.type = .table
          · obtain ⟨id, rfl⟩ := type_eq_table_iff.mp htype
            have hnode : valueShape.node (.table id) = some id := rfl
            rw [if_pos htype, index_table, Shape.reads_cons hnode]
            apply ih (tail path).length _ _ _ rfl
            rw [← hlen]
            exact Nat.lt_succ_of_le (tail_length_le path)
          · rw [if_neg htype, Shape.reads_cons_none (node_eq_none_iff.mpr htype)]
            rfl

theorem leadsTo_eq (path : Text) :
    (tableLibrary globals call).leadsTo path h =
      if (denotes h globals path).type = .table then some (denotes h globals path, h)
      else none := by
  have hnode : valueShape.node (.table globals) = some globals := rfl
  rw [denotes, components_eq, Shape.reads_cons hnode, ← follow_eq]
  rfl

/-- Only tables are indexed on the way, so there is no Lua error. -/
theorem getTableFrom_ne_left (level : Nat) (path : Text) (t : Value) (rest : List Value) :
    getTableFrom (tableLibrary globals call) level path ⟨h, t :: rest⟩ ≠ .left := by
  induction level, path using getTableFrom.induct generalizing t rest with
  | case1 level =>
      rw [getTableFrom]
      by_cases htype : t.type = .table
      · rw [whenTable_table _ _ htype]
        exact fun hleft => by cases hleft
      · rw [whenTable_other _ _ htype]
        exact fun hleft => by cases hleft
  | case2 level c path ih =>
      rw [getTableFrom]
      by_cases htype : t.type = .table
      · obtain ⟨id, rfl⟩ := type_eq_table_iff.mp htype
        rw [whenTable_table _ _ htype, Action.bind_done (getfield_some (index_table id _))]
        exact ih _ _
      · rw [whenTable_other _ _ htype]
        exact fun hleft => by cases hleft

theorem getTable_ne_left (path : Text) (h : Heap) (stack : List Value) :
    getTable (tableLibrary globals call) path ⟨h, stack⟩ ≠ .left := by
  have hindex : (tableLibrary globals call).index h (.table globals) (.string (root path)) =
      some (h.get globals (.string (root path)), h) := rfl
  rw [getTable, Action.bind_done (getGlobal_some hindex)]
  exact getTableFrom_ne_left 1 (tail path) _ _

variable {α : Type} (T : Trait α)

/-- The value on the top is read and its slot stays, or its type is refused and it goes. -/
theorem readTop_run (value : Value) (heap : Heap) (rest : List Value) :
    whenNil (pure T.default) ((getTop T).cleaning (pop 1)) ⟨heap, value :: rest⟩ =
      match T.answer value with
      | .ok a => .done a ⟨heap, (if value = .nil then value else T.leaves value) :: rest⟩
      | .error e => .thrown e ⟨heap, rest⟩ := by
  rw [Trait.answer]
  by_cases hnil : value = .nil
  · rw [if_pos hnil, if_pos hnil, hnil, whenNil_nil]
    rfl
  · rw [if_neg hnil, if_neg hnil, whenNil_other _ _ hnil]
    by_cases hcheck : T.check value.type = true
    · rw [if_pos hcheck, Action.cleaning_done (getTop_accepted T hcheck)]
    · rw [if_neg hcheck, Action.cleaning_thrown (getTop_refused T hcheck) (pop_apply _ _)]
      rfl

theorem getField_run {value t : Value} {name : Text} {rest : List Value}
    (hindex : (tableLibrary globals call).index h t (.string name) = some (value, h)) :
    getField (tableLibrary globals call) name (-1) T ⟨h, t :: rest⟩ =
      match T.answer value with
      | .ok a => .done a ⟨h, t :: rest⟩
      | .error e => .thrown e ⟨h, t :: rest⟩ := by
  have hread := readTop_run T value h (t :: rest)
  rw [getField, Action.bind_done (getfield_some hindex)]
  cases hanswer : T.answer value with
  | ok a =>
      rw [hanswer] at hread
      rw [Action.bind_done hread]
      rfl
  | error e =>
      rw [hanswer] at hread
      rw [Action.bind_thrown hread]

theorem takeGlobal_answer (value : Value) (rest : List Value) :
    (whenNil (pure T.default) ((takeTop T).cleaning (pop 1)) ⟨h, value :: rest⟩ :
      Conclusion String (State Heap) α).answer = some (T.answer value) := by
  rw [Trait.answer]
  by_cases hnil : value = .nil
  · rw [if_pos hnil, hnil, whenNil_nil]
    rfl
  · rw [if_neg hnil, whenNil_other _ _ hnil]
    by_cases hcheck : T.check value.type = true
    · have hrun : takeTop T ⟨h, value :: rest⟩ = .done (T.get value) ⟨h, rest⟩ := by
        rw [takeTop, Action.bind_done (getTop_accepted T hcheck)]
        rfl
      rw [if_pos hcheck, Action.cleaning_done hrun]
      rfl
    · have hrun : takeTop T ⟨h, value :: rest⟩ =
          .thrown (badType T value.type) ⟨h, value :: rest⟩ := by
        rw [takeTop, Action.bind_thrown (getTop_refused T hcheck)]
      rw [if_neg hcheck, Action.cleaning_thrown hrun (pop_apply _ _)]
      rfl

/-- A field of the table on the top is read, and the tables on the way go. -/
theorem takeField_answer {value t : Value} {name : Text} {rest : List Value} (level : Nat)
    (hindex : (tableLibrary globals call).index h t (.string name) = some (value, h)) :
    ((takeField (tableLibrary globals call) level name T).cleaning (pop level)
      ⟨h, t :: rest⟩).answer = some (T.answer value) := by
  have hread : getField (tableLibrary globals call) name (-1) T ⟨h, t :: rest⟩ =
      match T.answer value with
      | .ok a => .done a ⟨h, t :: rest⟩
      | .error e => .thrown e ⟨h, t :: rest⟩ := getField_run T hindex
  cases hanswer : T.answer value with
  | ok a =>
      rw [hanswer] at hread
      have hrun : takeField (tableLibrary globals call) level name T ⟨h, t :: rest⟩ =
          .done a ⟨h, (t :: rest).drop level⟩ := by
        rw [takeField, Action.bind_done hread]
        rfl
      rw [Action.cleaning_done hrun]
      rfl
  | error e =>
      rw [hanswer] at hread
      have hrun : takeField (tableLibrary globals call) level name T ⟨h, t :: rest⟩ =
          .thrown e ⟨h, t :: rest⟩ := by
        rw [takeField, Action.bind_thrown hread]
      rw [Action.cleaning_thrown hrun (pop_apply _ _)]
      rfl

/-- The leaf of a path with a dot is its last component, and there is something before it. -/
theorem WellNamed.splits {path : Text} (hpath : WellNamed path) (htail : tail path ≠ []) :
    ∃ a b, path = a ++ '.' :: b ∧ a ≠ [] ∧ pathLeaf path = a.length ∧
      path.drop (a.length + 1) = b ∧ components path = components a ++ [b] := by
  obtain ⟨a, b, hsplit, hb⟩ := exists_last htail
  have hcomponents : components path = components a ++ [b] := by
    rw [hsplit, components_prefix, components_of_not_mem hb]
  refine ⟨a, b, hsplit, ?_, ?_, ?_, hcomponents⟩
  · intro hnil
    apply hpath [] _ rfl
    rw [hcomponents, hnil, components_of_not_mem List.not_mem_nil]
    exact List.mem_cons_self
  · rw [hsplit, pathLeaf_append a hb]
  · rw [hsplit, ← List.drop_drop, List.drop_left]
    rfl

/-- **`get` reads what its path denotes**, for every path whose components are not empty. -/
theorem get_answer {path : Text} (hpath : WellNamed path) (stack : List Value) :
    (get (tableLibrary globals call) T path ⟨h, stack⟩).answer =
      some (T.answer (denotes h globals path)) := by
  have hnode : valueShape.node (.table globals) = some globals := rfl
  by_cases htail : tail path = []
  · obtain ⟨hleaf, hroot⟩ := pathLeaf_of_tail_nil htail
    have hindex : (tableLibrary globals call).index h (.table globals) (.string path) =
        some (h.get globals (.string path), h) := rfl
    rw [get, if_pos hleaf, Action.bind_done (getGlobal_some hindex), takeGlobal_answer,
      denotes, components_of_tail_nil htail, hroot, Shape.reads_cons hnode]
    rfl
  · obtain ⟨a, b, hsplit, ha, hleaf, hname, hcomponents⟩ := hpath.splits htail
    subst hsplit
    have hdenotes : denotes h globals (a ++ '.' :: b) =
        valueShape.reads (fields h) (denotes h globals a) [b] := by
      rw [denotes, hcomponents, Shape.reads_append, denotes]
    rw [get, hleaf, if_neg (fun hzero => ha (List.eq_nil_of_length_eq_zero hzero)),
      List.take_left, hname, hdenotes]
    by_cases htype : (denotes h globals a).type = .table
    · obtain ⟨id, hid⟩ := type_eq_table_iff.mp htype
      have hleads : (tableLibrary globals call).leadsTo a h = some (.table id, h) := by
        rw [leadsTo_eq, if_pos htype, hid]
      obtain ⟨way, hrun⟩ := getTable_leads (s := ⟨h, stack⟩) _ hleads
      rw [Action.bind_done hrun, if_neg (Nat.succ_ne_zero _), hid,
        takeField_answer T _ (index_table id _), Shape.reads_cons (node_eq_some_iff.mpr rfl)]
      rfl
    · have hleads : (tableLibrary globals call).leadsTo a h = none := by
        rw [leadsTo_eq, if_neg htype]
      obtain hleft | ⟨heap, hrun⟩ := getTable_lost (s := ⟨h, stack⟩) _ hleads
      · exact absurd hleft (getTable_ne_left a h stack)
      · rw [Action.bind_done hrun, Shape.reads_cons_none (node_eq_none_iff.mpr htype)]
        rfl

end Library

end FerroRemote.Lua
