/-
# Storing a value by its index

`set_value` assigns a zero along the path, which makes the tables there, and then writes
the value at an index of the stack into the last of them. It reads the index when the
tables and the key are on the stack. An index from the bottom still means the same value
there. One from the top does not: the key is at -1, the tables are behind it, and what was
at the index has gone down by their number. A path of one component pushes nothing before
it reads the index.
-/

import FerroRemote.Lua.PathLaws

namespace FerroRemote.Lua

/-- What the names lead to, one after the other. -/
def along (h : Heap) : Value → List Text → List Value
  | _, [] => []
  | v, name :: names =>
    valueShape.reads (fields h) v [name] :: along h (valueShape.reads (fields h) v [name]) names

section Descent

variable {globals : Nat} {call : Heap → Value → List Value → Called × Heap} {h : Heap}

theorem length_along (v : Value) (names : List Text) : (along h v names).length = names.length := by
  induction names generalizing v with
  | nil => rfl
  | cons name names ih => rw [along, List.length_cons, ih, List.length_cons]

theorem getElem?_along (v : Value) {names : List Text} {j : Nat} (hj : j < names.length) :
    (along h v names)[j]? = some (valueShape.reads (fields h) v (names.take (j + 1))) := by
  induction names generalizing v j with
  | nil => exact absurd hj (Nat.not_lt_zero j)
  | cons name names ih =>
      cases j with
      | zero => rfl
      | succ j =>
          rw [along, List.getElem?_cons_succ, ih _ (Nat.lt_of_succ_lt_succ hj),
            ← Shape.reads_append, List.singleton_append, List.take_succ_cons]

/-- When the path leads to a table, all tables of the way are on the stack. -/
theorem getTableFrom_along (level : Nat) (path : Text) (t : Value) (rest : List Value)
    (htable : (valueShape.reads (fields h) t (remaining path)).type = .table) :
    getTableFrom (tableLibrary globals call) level path ⟨h, t :: rest⟩ =
      .done (level + (remaining path).length)
        ⟨h, (along h t (remaining path)).reverse ++ t :: rest⟩ := by
  induction hlen : path.length using Nat.strongRecOn generalizing level t path rest with
  | ind n ih =>
      cases path with
      | nil =>
          have ht : t.type = .table := htable
          rw [getTableFrom, whenTable_table _ _ ht]
          rfl
      | cons c path =>
          rcases type_eq_table_iff.mp htable with ⟨last, hlast⟩
          rcases Shape.node_of_reads (node_eq_some_iff.mpr hlast) with ⟨id, hnode⟩
          have ht : t = .table id := node_eq_some_iff.mp hnode
          have hread : valueShape.reads (fields h) t [root path] = h.get id (.string (root path)) :=
            Shape.reads_cons hnode
          have hcomponents : remaining (c :: path) = root path :: remaining (tail path) :=
            components_eq path
          rw [hcomponents, Shape.reads_cons hnode] at htable
          have hrest := ih (tail path).length
            (by rw [← hlen]; exact Nat.lt_succ_of_le (tail_length_le path)) (level + 1) (tail path)
            (h.get id (.string (root path))) (t :: rest) htable rfl
          rw [getTableFrom, whenTable_table _ _ (by rw [ht]; rfl),
            Action.bind_done (getfield_some (ht ▸ index_table id _)), hrest, hcomponents, along,
            hread, List.length_cons, List.reverse_cons, List.append_assoc]
          have hlevel : level + 1 + (remaining (tail path)).length =
              level + ((remaining (tail path)).length + 1) := by omega
          rw [hlevel]
          rfl

theorem getTable_along {path : Text} (stack : List Value)
    (htable : (denotes h globals path).type = .table) :
    getTable (tableLibrary globals call) path ⟨h, stack⟩ =
      .done (components path).length
        ⟨h, (along h (.table globals) (components path)).reverse ++ stack⟩ := by
  have hnode : valueShape.node (.table globals) = some globals := rfl
  have hread : valueShape.reads (fields h) (.table globals) [root path] =
      h.get globals (.string (root path)) := rfl
  rw [denotes, components_eq, Shape.reads_cons hnode] at htable
  have hrest : getTableFrom (tableLibrary globals call) 1 (tail path)
      ⟨h, h.get globals (.string (root path)) :: stack⟩ = _ :=
    getTableFrom_along 1 (tail path) _ stack htable
  have hglobal : getGlobal (tableLibrary globals call) (root path) ⟨h, stack⟩ =
      .done () ⟨h, h.get globals (.string (root path)) :: stack⟩ :=
    getGlobal_some (index_table globals _)
  rw [getTable, Action.bind_done hglobal, hrest, components_eq, along, hread, List.length_cons,
    List.reverse_cons, List.append_assoc, Nat.add_comm]
  rfl

end Descent

/-- The entry that holds the value once the tables for the names are there. -/
def lastEntry (h : Heap) : Nat × Text → List Text → Nat × Text
  | entry, [] => entry
  | _, name :: names => lastEntry h.alloc (h.length, name) names

theorem lastEntry_append (h : Heap) (entry : Nat × Text) (names : List Text) (last : Text) :
    lastEntry h entry (names ++ [last]) = (h.length + names.length, last) := by
  induction names generalizing h entry with
  | nil => rfl
  | cons name names ih =>
      rw [List.cons_append, lastEntry, ih, Heap.length_alloc, List.length_cons]
      congr 1
      omega

theorem le_lastEntry (h : Heap) (entry : Nat × Text) (name : Text) (names : List Text) :
    h.length ≤ (lastEntry h entry (name :: names)).1 := by
  rcases List.eq_nil_or_concat (name :: names) with hnil | ⟨init, last, hconcat⟩
  · exact absurd hnil (List.cons_ne_nil name names)
  · rw [hconcat, List.concat_eq_append, lastEntry_append]
    exact Nat.le_add_right _ _

theorem lastEntry_lt {h : Heap} {entry : Nat × Text} (hentry : entry.1 < h.length)
    (names : List Text) : (lastEntry h entry names).1 < h.length + names.length := by
  rcases List.eq_nil_or_concat names with hnil | ⟨init, last, hconcat⟩
  · rw [hnil]
    exact hentry
  · rw [hconcat, List.concat_eq_append, lastEntry_append, List.length_append,
      List.length_singleton]
    omega

theorem string_ne_nil (text : Text) : Value.string text ≠ .nil := fun heq => by cases heq

/-- What is written last may be written before another entry. -/
theorem get_set_before {h h' : Heap} {id last : Nat} {name key : Text} {v : Value}
    (hid : id < h.length) (hlast : last < h.length) (hlength : h'.length = h.length)
    (hne : ¬ (id = last ∧ name = key))
    (hsame : ∀ id' k, (h.set last (.string key) v).get id' k = h'.get id' k) (x : Value)
    (id' : Nat) (k : Value) :
    ((h.set id (.string name) x).set last (.string key) v).get id' k =
      (h'.set id (.string name) x).get id' k := by
  have hsame := hsame id' k
  rw [Heap.get_set hlast (string_ne_nil key)] at hsame
  rw [Heap.get_set (by rwa [Heap.length_set]) (string_ne_nil key),
    Heap.get_set hid (string_ne_nil name), Heap.get_set (by rwa [hlength]) (string_ne_nil name),
    ← hsame]
  by_cases hentry : id' = id ∧ k = .string name
  · have hother : ¬ (id' = last ∧ k = .string key) := fun hand =>
      hne ⟨hentry.1.symm.trans hand.1, Value.string.inj (hentry.2.symm.trans hand.2)⟩
    rw [if_neg hother, if_pos hentry, if_pos hentry]
  · rw [if_neg hentry, if_neg hentry]

/-- Tables that are built for one value and then given another are those for the other. -/
theorem get_set_build (h : Heap) {id : Nat} (name : Text) (names : List Text) (w v : Value)
    (hid : id < h.length) (id' : Nat) (k : Value) :
    (((build names w h).2.set id (.string name) (build names w h).1).set
        (lastEntry h (id, name) names).1 (.string (lastEntry h (id, name) names).2) v).get id' k =
      ((build names v h).2.set id (.string name) (build names v h).1).get id' k := by
  induction names generalizing h id name id' k with
  | nil =>
      have hset : id < (h.set id (.string name) w).length := by rwa [Heap.length_set]
      rw [lastEntry, build, build, Heap.get_set hset (string_ne_nil name),
        Heap.get_set hid (string_ne_nil name), Heap.get_set hid (string_ne_nil name)]
      split <;> rfl
  | cons next names ih =>
      have hlength : ∀ x, (build (next :: names) x h).2.length = h.length + (names.length + 1) :=
        fun x => build_length (next :: names) x h
      have hle := le_lastEntry h (id, name) next names
      have hlt := @lastEntry_lt h (id, name) hid (next :: names)
      rw [List.length_cons] at hlt
      have hbelow := @ih h.alloc h.length next (by rw [Heap.length_alloc]; omega)
      have hid' : id < (build (next :: names) w h).2.length := by
        rw [hlength]
        omega
      have hlt' : (lastEntry h (id, name) (next :: names)).1 < (build (next :: names) w h).2.length := by
        rwa [hlength]
      have hsame : (build (next :: names) v h).2.length = (build (next :: names) w h).2.length := by
        rw [hlength, hlength]
      have hne : ¬ (id = (lastEntry h (id, name) (next :: names)).1 ∧
          name = (lastEntry h (id, name) (next :: names)).2) := fun hand => by omega
      exact get_set_before hid' hlt' hsame hne hbelow (.table h.length) id' k

section Assigned

variable {env : Environment} {path name : Text} {left pre : List Text} {id : Nat} {w : Value}

/-- Assigning another value first, and then writing the last entry, is assigning. -/
theorem get_set_assigned
    (hplace : valueShape.place (fields env.heap) env.root (components path) = some (id, name, left))
    (hid : id < env.heap.length) (honce : ComesOnce env.heap env.globals path id name left)
    (w v : Value) (id' : Nat) (k : Value) :
    ((assigned env.globals env.heap path w).set (lastEntry env.heap (id, name) left).1
        (.string (lastEntry env.heap (id, name) left).2) v).get id' k =
      (assigned env.globals env.heap path v).get id' k := by
  have hassign : ∀ x, assignAt env.heap (.table env.globals) (components path) x =
      (build left x env.heap).2.set id (.string name) (build left x env.heap).1 := by
    intro x
    rw [assignAt, ← Environment.root, hplace]
  have hbuilt := get_set_build env.heap name left w v hid
  have hlength : ∀ x, (assignAt env.heap (.table env.globals) (components path) x).length =
      env.heap.length + left.length := fun x => (assignAt_written hplace hid).length
  have hlast := @lastEntry_lt env.heap (id, name) hid left
  have hglobals := env.globals_lt
  rw [← hassign, ← hassign] at hbuilt
  rw [assigned, assigned]
  by_cases hboth : tail path ≠ [] ∧ (fields env.heap env.globals (root path)).type = .table
  · rw [if_pos hboth, if_pos hboth]
    apply get_set_before (by rw [hlength]; omega) (by rw [hlength]; exact hlast)
      (by rw [hlength, hlength]) _ hbuilt
    cases left with
    | nil => exact root_ne_entry hplace honce hboth.1 hboth.2
    | cons next left =>
        have hle := le_lastEntry env.heap (id, name) next left
        exact fun hand => by omega
  · rw [if_neg hboth, if_neg hboth]
    exact hbuilt id' k

theorem written_later
    (hplace : valueShape.place (fields env.heap) env.root (components path) = some (id, name, left))
    (hid : id < env.heap.length) (honce : ComesOnce env.heap env.globals path id name left)
    (w v : Value) :
    Written env.heap id name left v
      ((assigned env.globals env.heap path w).set (lastEntry env.heap (id, name) left).1
        (.string (lastEntry env.heap (id, name) left).2) v) := by
  have hwritten := fun x => assigned_written (v := x) hplace env.globals_lt hid honce
  apply (hwritten v).congr _ (get_set_assigned hplace hid honce w v)
  rw [Heap.length_set, (hwritten w).length, (hwritten v).length]

variable {h' : Heap} {init : List Text} {last : Text}

/-- The tables of the path lead to the last entry. -/
theorem Written.reads_init (hwritten : Written env.heap id name left w h')
    (honce : ComesOnce env.heap env.globals path id name left)
    (hsplit : components path = pre ++ name :: left)
    (hnode : valueShape.reads (fields env.heap) env.root pre = .table id)
    (hlast : components path = init ++ [last]) :
    valueShape.reads (fields h') env.root init = .table (lastEntry env.heap (id, name) left).1 ∧
      last = (lastEntry env.heap (id, name) left).2 := by
  have hpre : valueShape.reads (fields h') env.root pre = .table id :=
    (hwritten.unvisited (honce.unvisited hsplit)).1.trans hnode
  rcases List.eq_nil_or_concat left with hnil | ⟨middle, final, hconcat⟩
  · subst hnil
    rw [hsplit] at hlast
    have hsame := List.append_inj' hlast rfl
    rw [← hsame.1]
    exact ⟨hpre, (List.cons.inj hsame.2).1.symm⟩
  · rw [List.concat_eq_append] at hconcat
    subst hconcat
    rw [hsplit, ← List.cons_append, ← List.append_assoc] at hlast
    have hsame := List.append_inj' hlast rfl
    rw [lastEntry_append, ← hsame.1, Shape.reads_append,
      Shape.reads_cons (node_eq_some_iff.mpr hpre)]
    exact ⟨hwritten.last_table.1, (List.cons.inj hsame.2).1.symm⟩

/-- A table of the path that was there before was on the path before. -/
theorem Written.reads_old (hwritten : Written env.heap id name left w h')
    (honce : ComesOnce env.heap env.globals path id name left)
    (hsplit : components path = pre ++ name :: left)
    (hnode : valueShape.reads (fields env.heap) env.root pre = .table id)
    {names rest : List Text} (hnames : components path = names ++ rest) (hrest : rest ≠ []) {t : Nat}
    (ht : valueShape.reads (fields h') env.root names = .table t) (hold : t < env.heap.length) :
    valueShape.reads (fields env.heap) env.root names = .table t := by
  have hbefore := honce.unvisited hsplit
  have hsame := hwritten.unvisited hbefore
  rcases List.append_eq_append_iff.mp (hnames.symm.trans hsplit) with
    ⟨middle, hpre, -⟩ | ⟨middle, hnames', htail⟩
  · have hunvisited : (id, name) ∉ valueShape.visits (fields env.heap) env.root names := by
      intro hmem
      apply hbefore
      rw [hpre, Shape.visits_append]
      exact List.mem_append_left _ hmem
    rw [← (hwritten.unvisited hunvisited).1, ht]
  · cases middle with
    | nil =>
        rw [List.append_nil] at hnames'
        rw [hnames', ← hsame.1, ← hnames', ht]
    | cons first middle =>
        -- the table is one of those that were built
        rw [List.cons_append, List.cons.injEq] at htail
        rcases htail with ⟨rfl, hleft⟩
        rcases List.exists_cons_of_ne_nil hrest with ⟨next, rest, rfl⟩
        have hpre : valueShape.node (valueShape.reads (fields h') env.root pre) = some id :=
          node_eq_some_iff.mpr (hsame.1.trans hnode)
        rw [hnames', Shape.reads_append, Shape.reads_cons hpre] at ht
        have hmem : t ∈ List.range' env.heap.length left.length := by
          rw [← hwritten.leads.fresh, hleft, Shape.visits_append,
            Shape.visits_cons (node_eq_some_iff.mpr ht), List.map_append, List.map_cons]
          exact List.mem_append_right _ List.mem_cons_self
        exact absurd hold (Nat.not_lt.mpr (List.mem_range'_1.mp hmem).1)

end Assigned

/-- An environment with a stack, whose tables are all there. -/
structure LuaState extends Environment where
  stack : List Value
  held : ∀ v ∈ stack, ∀ id, v = .table id → id < heap.length

/-- The last component of a path. -/
def leafName (path : Text) : Text := (components path).getLast (components_ne_nil path)

theorem components_eq_concat (path : Text) :
    components path = (components path).dropLast ++ [leafName path] :=
  (List.dropLast_append_getLast (components_ne_nil path)).symm

/-- The heap when `set_value` has assigned the zero. -/
def LuaState.zeroed (s : LuaState) (path : Text) : Heap :=
  assigned s.globals s.heap path (.number (.whole 0))

/-- What is on the stack when `set_value` reads the index. -/
def LuaState.covered (s : LuaState) (path : Text) : List Value :=
  if '.' ∈ path then
    .string (leafName path) ::
      ((along (s.zeroed path) s.root (components path).dropLast).reverse ++ s.stack)
  else s.stack

def LuaState.found (s : LuaState) (path : Text) (idx : Int) : Value :=
  (slot (s.covered path) idx).getD .nil

theorem pushValue_apply {H : Type} (idx : Int) (heap : H) (stack : List Value) :
    pushValue idx ⟨heap, stack⟩ = .done () ⟨heap, (slot stack idx).getD .nil :: stack⟩ := rfl

theorem along_concat (h : Heap) (v : Value) (names : List Text) (last : Text) :
    along h v (names ++ [last]) =
      along h v names ++ [valueShape.reads (fields h) v (names ++ [last])] := by
  induction names generalizing v with
  | nil => rfl
  | cons name names ih =>
      rw [List.cons_append, along, ih, ← Shape.reads_append]
      rfl

/-- The table that the names lead to is on the top. -/
theorem reverse_along {h : Heap} {v : Value} {names : List Text} (hnames : names ≠ []) :
    ∃ rest, (along h v names).reverse = valueShape.reads (fields h) v names :: rest ∧
      rest.length + 1 = names.length := by
  rcases List.eq_nil_or_concat names with hnil | ⟨init, last, hconcat⟩
  · exact absurd hnil hnames
  · rw [hconcat, List.concat_eq_append, along_concat, List.reverse_append]
    exact ⟨(along h v init).reverse, rfl, by
      rw [List.length_reverse, length_along, List.length_append, List.length_singleton]⟩

section Run

variable {s : LuaState} {path : Text} {call : Heap → Value → List Value → Called × Heap}

theorem setValue_global (hpath : WellNamed path) (hdot : '.' ∉ path) (idx : Int) :
    setValue (tableLibrary s.globals call) path idx ⟨s.heap, s.stack⟩ =
      .done () ⟨(s.zeroed path).set s.globals (.string path) (s.found path idx), s.stack⟩ := by
  have hroot := pathRoot_of_not_mem hdot
  have htail : tail path = [] := by rw [tail, hroot, List.drop_length]
  have hleaf := (pathLeaf_of_tail_nil htail).1
  have hcovered : s.covered path = s.stack := if_neg hdot
  rw [setValue, Action.bind_done (set_run hpath _ _), if_pos hleaf, LuaState.found, hcovered,
    Action.bind_done (pushValue_apply idx _ _)]
  exact setGlobal_some (assign_table _ _ _ _)

/-- A path of more components, when its tables are there. -/
theorem setValue_nested (hpath : WellNamed path) (hdot : '.' ∈ path) {leaf : Nat}
    (hleaf : valueShape.reads (fields (s.zeroed path)) s.root (components path).dropLast =
      .table leaf) (idx : Int) :
    setValue (tableLibrary s.globals call) path idx ⟨s.heap, s.stack⟩ =
      .done () ⟨(s.zeroed path).set leaf (.string (leafName path)) (s.found path idx),
        s.stack⟩ := by
  have htail : tail path ≠ [] := by
    intro htail
    have hroot := root_append_tail path
    rw [htail, List.append_nil] at hroot
    exact dot_not_mem_root path (hroot.symm ▸ hdot)
  rcases hpath.splits htail with ⟨a, b, hsplit, ha, hpathLeaf, hdrop, hcomponents⟩
  have hinit : (components path).dropLast = components a := by
    rw [hcomponents, List.dropLast_concat]
  have hname : leafName path = b := by
    simp only [leafName, hcomponents, List.getLast_append_singleton]
  have hzero : pathLeaf path ≠ 0 := by
    rw [hpathLeaf]
    exact fun hzero => ha (List.eq_nil_of_length_eq_zero hzero)
  have htake : path.take (pathLeaf path) = a := by rw [hpathLeaf, hsplit, List.take_left]
  rw [← hpathLeaf] at hdrop
  rw [hinit] at hleaf
  have htable : (denotes (s.zeroed path) s.globals a).type = .table := by
    rw [denotes, ← Environment.root, hleaf]
    rfl
  have hcovered : s.covered path =
      .string b :: ((along (s.zeroed path) s.root (components a)).reverse ++ s.stack) := by
    rw [LuaState.covered, if_pos hdot, hinit, hname]
  rcases reverse_along (h := s.zeroed path) (v := s.root) (components_ne_nil a) with
    ⟨rest, htop, hlength⟩
  rw [hleaf] at htop
  have hget := @getTable_along s.globals call (s.zeroed path) a s.stack htable
  rw [← Environment.root, htop] at hget
  rw [htop] at hcovered
  rw [setValue, Action.bind_done (set_run hpath _ _), if_neg hzero, htake, hdrop,
    ← LuaState.zeroed, Action.bind_done hget, if_neg (by omega)]
  let top := rest ++ s.stack
  have hfield : getfield (tableLibrary s.globals call) (-1) b ⟨s.zeroed path, .table leaf :: top⟩ =
      .done () ⟨s.zeroed path, (s.zeroed path).get leaf (.string b) :: .table leaf :: top⟩ :=
    getfield_some (index_table leaf _)
  have hpop : pop 1 ⟨s.zeroed path, (s.zeroed path).get leaf (.string b) :: .table leaf :: top⟩ =
      .done () ⟨s.zeroed path, .table leaf :: top⟩ := rfl
  have hkey : push (.string b) ⟨s.zeroed path, .table leaf :: top⟩ =
      .done () ⟨s.zeroed path, .string b :: .table leaf :: top⟩ := rfl
  have hset : setTable (tableLibrary s.globals call)
      ⟨s.zeroed path, s.found path idx :: .string b :: .table leaf :: top⟩ =
      .done () ⟨(s.zeroed path).set leaf (.string b) (s.found path idx), .table leaf :: top⟩ :=
    setTable_some (assign_table _ _ _ _)
  have hvalue : pushValue idx ⟨s.zeroed path, .string b :: .table leaf :: top⟩ =
      .done () ⟨s.zeroed path, s.found path idx :: .string b :: .table leaf :: top⟩ := by
    rw [pushValue_apply, LuaState.found, hcovered]
    rfl
  rw [List.cons_append, Action.bind_done hfield, Action.bind_done hpop, Action.bind_done hkey,
    Action.bind_done hvalue, Action.bind_done hset, pop_apply, hname, ← hlength]
  congr 2
  exact List.drop_left

/-- A path comes to its entry once, with nothing in the way. -/
def Environment.Simple (env : Environment) (path : Text) : Prop :=
  ComesOnce env.heap env.globals path (env.entry path).1 (env.entry path).2.1 (env.entry path).2.2

theorem entry_of_not_mem (hdot : '.' ∉ path) : s.entry path = (s.globals, path, []) := by
  have hplace := s.place_eq_entry path
  have hthrough : valueShape.place (fields s.heap) s.root ([] ++ [path]) =
      some (s.globals, path, []) := Shape.place_of_through [] rfl
  rw [components_of_not_mem hdot] at hplace
  exact Option.some_inj.mp (hplace.symm.trans hthrough)

variable (call) in
/-- **`set_value` writes what it finds at the index**, where the path leads to. -/
theorem setValue_run (hpath : WellNamed path) (honce : s.Simple path) (idx : Int) :
    ∃ h', setValue (tableLibrary s.globals call) path idx ⟨s.heap, s.stack⟩ =
        .done () ⟨h', s.stack⟩ ∧
      Written s.heap (s.entry path).1 (s.entry path).2.1 (s.entry path).2.2 (s.found path idx) h' := by
  have hplace : valueShape.place (fields s.heap) s.root (components path) =
      some ((s.entry path).1, (s.entry path).2.1, (s.entry path).2.2) := s.place_eq_entry path
  rcases Shape.place_spec hplace with ⟨pre, hsplit, hthrough, -, -⟩
  have hnode := node_eq_some_iff.mp hthrough
  have hid := s.reads_lt hnode
  have hlater := written_later hplace hid honce (.number (.whole 0)) (s.found path idx)
  by_cases hdot : '.' ∈ path
  · have hzero := assigned_written (v := .number (.whole 0)) hplace s.globals_lt hid honce
    have hinit := hzero.reads_init honce hsplit hnode (components_eq_concat path)
    rw [← hinit.2] at hlater
    exact ⟨_, setValue_nested hpath hdot hinit.1 idx, hlater⟩
  · rw [entry_of_not_mem hdot] at hlater ⊢
    exact ⟨_, setValue_global hpath hdot idx, hlater⟩

theorem found_of_pos {idx : Int} {v : Value} (hidx : 0 < idx) (hv : slot s.stack idx = some v) :
    s.found path idx = v := by
  have habove : ∀ above : List Value, slot (above ++ s.stack) idx = some v := by
    intro above
    rw [slot, if_pos hidx] at hv ⊢
    have hlt := (List.getElem?_eq_some_iff.mp hv).1
    rw [List.reverse_append, List.getElem?_append_left hlt, hv]
  have hcovered : ∃ above, s.covered path = above ++ s.stack := by
    rw [LuaState.covered]
    split
    · exact ⟨.string (leafName path) :: _, rfl⟩
    · exact ⟨[], rfl⟩
  rcases hcovered with ⟨above, hcovered⟩
  rw [LuaState.found, hcovered, habove, Option.getD_some]

theorem found_of_not_mem {idx : Int} {v : Value} (hdot : '.' ∉ path)
    (hv : slot s.stack idx = some v) : s.found path idx = v := by
  rw [LuaState.found, LuaState.covered, if_neg hdot, hv, Option.getD_some]

end Run

/-- The table that names lead to. -/
def Environment.tableAt (env : Environment) (names : List Text) : Option Value :=
  match valueShape.reads (fields env.heap) env.root names with
  | .table id => some (.table id)
  | _ => none

theorem Environment.tableAt_eq_some_iff {env : Environment} {names : List Text} {v : Value} :
    env.tableAt names = some v ↔
      ∃ id, v = .table id ∧ valueShape.reads (fields env.heap) env.root names = .table id := by
  rw [tableAt]
  cases valueShape.reads (fields env.heap) env.root names with
  | table id =>
      exact ⟨fun heq => ⟨id, (Option.some_inj.mp heq).symm, rfl⟩,
        fun ⟨id', heq, hread⟩ => by rw [heq, hread]⟩
  | nil | boolean | lightuserdata | number | string | function | userdata | thread => simp

/-- What the state has, so many places from the top, once the key and the tables of the path
are there: the key, the tables that the path went through before, and the stack. -/
def LuaState.shifted (s : LuaState) (path : Text) : Nat → Option Value
  | 0 => none
  | 1 => some (.string (leafName path))
  | k + 2 =>
    let way := (components path).dropLast
    if k < way.length then s.tableAt (way.take (way.length - k)) else s.stack[k - way.length]?

/-- The index means the value also when the tables are on the stack. -/
def LuaState.Denotes (s : LuaState) (path : Text) (idx : Int) (v : Value) : Prop :=
  '.' ∉ path ∨ 0 < idx ∨ s.shifted path (-idx).toNat = some v

section Shifted

variable {s : LuaState} {path : Text}

/-- A table of the path is found where it was one before. -/
theorem along_eq_iff (honce : s.Simple path) {names rest : List Text} {v : Value}
    (hnames : components path = names ++ rest) (hrest : rest ≠ [])
    (hv : ∀ id, v = .table id → id < s.heap.length) :
    valueShape.reads (fields (s.zeroed path)) s.root names = v ↔ s.tableAt names = some v := by
  have hplace := s.place_eq_entry path
  rcases Shape.place_spec hplace with ⟨pre, hsplit, hthrough, -, hstop⟩
  have hnode := node_eq_some_iff.mp hthrough
  have hzero : Written s.heap _ _ _ _ (s.zeroed path) :=
    assigned_written hplace s.globals_lt (s.reads_lt hnode) honce
  rcases hzero.prefix_denotes honce hsplit hnode hstop hnames hrest with ⟨t, ht, hold⟩
  rw [Environment.tableAt_eq_some_iff, ht]
  apply Iff.intro
  · intro heq
    exact ⟨t, heq.symm, hzero.reads_old honce hsplit hnode hnames hrest ht (hv t heq.symm)⟩
  · rintro ⟨id, heq, hread⟩
    rw [heq, hold id hread]

theorem found_of_neg {idx : Int} {v : Value} (hpath : '.' ∈ path) (honce : s.Simple path)
    (hidx : idx < 0) (hv : slot s.stack idx = some v) :
    s.found path idx = v ↔ s.shifted path (-idx).toNat = some v := by
  rw [slot, if_neg (by omega)] at hv
  have hlt := (List.getElem?_eq_some_iff.mp hv).1
  have hheld := s.held v (List.mem_of_getElem? hv)
  rw [LuaState.found, slot, if_neg (by omega), LuaState.covered, if_pos hpath]
  cases hn : (-idx).toNat with
  | zero => omega
  | succ n =>
      cases n with
      | zero => exact Option.some_inj.symm
      | succ k =>
          have hsub : k + 1 + 1 - 1 = k + 1 := by omega
          rw [hsub, List.getElem?_cons_succ, LuaState.shifted]
          have hlength : (along (s.zeroed path) s.root (components path).dropLast).reverse.length =
              (components path).dropLast.length := by
            rw [List.length_reverse, length_along]
          by_cases hk : k < (components path).dropLast.length
          · have hj : (components path).dropLast.length - 1 - k <
                (components path).dropLast.length := by omega
            have htake : (components path).dropLast.length - 1 - k + 1 =
                (components path).dropLast.length - k := by omega
            have hconcat := components_eq_concat path
            rw [← List.take_append_drop ((components path).dropLast.length - k)
              (components path).dropLast, List.append_assoc] at hconcat
            rw [List.getElem?_append_left (by rw [hlength]; exact hk),
              List.getElem?_reverse (by rw [length_along]; exact hk), length_along,
              getElem?_along _ hj, htake, Option.getD_some]
            simp only [if_pos hk]
            exact along_eq_iff honce hconcat
              (List.append_ne_nil_of_right_ne_nil _ (List.cons_ne_nil _ _)) hheld
          · have hbound : k - (components path).dropLast.length < s.stack.length := by omega
            rw [List.getElem?_append_right (by rw [hlength]; omega), hlength]
            simp only [if_neg hk]
            rw [List.getElem?_eq_getElem hbound, Option.getD_some, Option.some_inj]

end Shifted

/-! ## The law of storing -/

def anyValue : Trait Value where
  typeIndex := .none
  check _ := true
  get value := value
  leaves value := value
  default := .nil

theorem anyValue_answer (v : Value) : anyValue.answer v = .ok v := by
  rw [Trait.answer]
  split
  · next hnil =>
      rw [hnil]
      rfl
  · exact if_pos rfl

/-- The path reads the value, and the paths that do not come to the written entry, or go
another way after it, read as before. -/
structure StoresValue (env : Environment) (call : Heap → Value → List Value → Called × Heap)
    (path : Text) (v : Value) (h' : Heap) : Prop where
  reads : ∀ {α : Type} (T : Trait α) (stack : List Value),
    (get (tableLibrary env.globals call) T path ⟨h', stack⟩).answer = some (T.answer v)
  others : ∀ other, WellNamed other →
    (∀ rest, ComesTo env.heap env.globals other (env.entry path).1 (env.entry path).2.1 rest →
      Apart rest (env.entry path).2.2) →
    ∀ {α : Type} (T : Trait α) (stack : List Value),
      (get (tableLibrary env.globals call) T other ⟨h', stack⟩).answer =
        (get (tableLibrary env.globals call) T other ⟨env.heap, stack⟩).answer

theorem Written.storesValue_iff {env : Environment} {path : Text} {v w : Value} {h' : Heap}
    (call : Heap → Value → List Value → Called × Heap) (hpath : WellNamed path)
    (honce : env.Simple path)
    (hwritten : Written env.heap (env.entry path).1 (env.entry path).2.1 (env.entry path).2.2 w h') :
    StoresValue env call path v h' ↔ w = v := by
  rcases Shape.place_spec (env.place_eq_entry path) with ⟨pre, hsplit, hthrough, -, hstop⟩
  have hread : denotes h' env.globals path = w :=
    hwritten.reads_path honce hsplit (node_eq_some_iff.mp hthrough)
  apply Iff.intro
  · intro hstores
    have hvalue := hstores.reads anyValue []
    rw [get_answer anyValue hpath, hread, anyValue_answer, anyValue_answer, Option.some_inj] at hvalue
    exact Except.ok.inj hvalue
  · intro heq
    apply StoresValue.mk
    · intro α T stack
      rw [get_answer T hpath, hread, heq]
    · intro other hnamed hother α T stack
      rw [get_answer T hnamed, get_answer T hnamed, hwritten.reads_other hstop hother]

theorem found_eq_iff {s : LuaState} {path : Text} {idx : Int} {v : Value} (honce : s.Simple path)
    (hidx : idx ≠ 0) (hv : slot s.stack idx = some v) :
    s.found path idx = v ↔ s.Denotes path idx v := by
  by_cases hdot : '.' ∈ path
  · by_cases hpos : 0 < idx
    · exact iff_of_true (found_of_pos hpos hv) (.inr (.inl hpos))
    · have hneg : idx < 0 := by omega
      rw [found_of_neg hdot honce hneg hv, LuaState.Denotes]
      exact ⟨fun hfound => .inr (.inr hfound),
        fun hor => (hor.resolve_left fun hnot => hnot hdot).resolve_left hpos⟩
  · exact iff_of_true (found_of_not_mem hdot hv) (.inl hdot)

/-- The value at the index is stored exactly if the index still means it behind the key and
the tables of the path. -/
theorem setValue_stores_iff (s : LuaState) (call : Heap → Value → List Value → Called × Heap)
    {path : Text} (hpath : WellNamed path) (honce : s.Simple path) {idx : Int} (hidx : idx ≠ 0)
    {v : Value} (hv : slot s.stack idx = some v) :
    ∃ h', setValue (tableLibrary s.globals call) path idx ⟨s.heap, s.stack⟩ =
        .done () ⟨h', s.stack⟩ ∧
      (StoresValue s.toEnvironment call path v h' ↔ s.Denotes path idx v) := by
  rcases setValue_run call hpath honce idx with ⟨h', hrun, hwritten⟩
  use h', hrun
  rw [hwritten.storesValue_iff call hpath honce]
  exact found_eq_iff honce hidx hv

/-- One table, that of globals, with nothing in it. -/
def bareEnvironment : Environment where
  heap := [.empty]
  globals := 0
  globals_lt := Nat.one_pos
  closed := by
    intro id k id' heq
    cases id with
    | zero => cases heq
    | succ id => cases heq

theorem bareEnvironment_comesOnce :
    ComesOnce bareEnvironment.heap bareEnvironment.globals ['a', '.', 'b']
      (bareEnvironment.entry ['a', '.', 'b']).1 (bareEnvironment.entry ['a', '.', 'b']).2.1
      (bareEnvironment.entry ['a', '.', 'b']).2.2 := by
  have hentry : bareEnvironment.entry ['a', '.', 'b'] = (0, ['a'], [['b']]) := by
    have hplace := bareEnvironment.place_eq_entry ['a', '.', 'b']
    rw [components_a_b] at hplace
    exact (Option.some_inj.mp hplace).symm
  rw [hentry]
  intro rest ⟨pre, hsplit, _⟩
  rw [components_a_b] at hsplit
  cases pre with
  | nil => exact (List.cons.inj hsplit).2.symm
  | cons first pre =>
      have hmem : ['a'] ∈ [['b']] := by
        rw [(List.cons.inj hsplit).2]
        exact List.mem_append_right _ List.mem_cons_self
      exact absurd hmem (by decide)

/-- An empty environment, with one value on the stack. -/
def trueState : LuaState where
  toEnvironment := bareEnvironment
  stack := [.boolean true]
  held v hv id heq := by
    rw [List.mem_singleton.mp hv] at heq
    cases heq

/-- By its index from the bottom the value is stored under a path of two components. -/
theorem setValue_stores_iff_bottom :
    ∃ h', setValue (tableLibrary 0 fun h _ _ => (.results [], h)) ['a', '.', 'b'] 1
        ⟨trueState.heap, trueState.stack⟩ = .done () ⟨h', trueState.stack⟩ ∧
      (StoresValue bareEnvironment (fun h _ _ => (.results [], h)) ['a', '.', 'b'] (.boolean true)
        h' ↔ trueState.Denotes ['a', '.', 'b'] 1 (.boolean true)) :=
  setValue_stores_iff trueState _ wellNamed_a_b bareEnvironment_comesOnce (by decide) rfl

/-- The default index stores the name `b` instead. -/
theorem default_index_stores_name :
    ∃ h', setValue (tableLibrary 0 fun h _ _ => (.results [], h)) ['a', '.', 'b'] (-1)
        ⟨trueState.heap, trueState.stack⟩ = .done () ⟨h', trueState.stack⟩ ∧
      (get (tableLibrary 0 fun h _ _ => (.results [], h)) anyValue ['a', '.', 'b']
        ⟨h', trueState.stack⟩).answer = some (.ok (.string ['b'])) ∧
      ¬ StoresValue bareEnvironment (fun h _ _ => (.results [], h)) ['a', '.', 'b']
        (.boolean true) h' := by
  rcases @setValue_run trueState _ (fun h _ _ => (.results [], h)) wellNamed_a_b
    bareEnvironment_comesOnce (-1) with ⟨h', hrun, hwritten⟩
  have hfound : trueState.found ['a', '.', 'b'] (-1) = .string ['b'] := by
    rw [LuaState.found, LuaState.covered, if_pos (by decide), slot_top, Option.getD_some]
    simp only [leafName, components_a_b]
    rfl
  rw [hfound] at hwritten
  have hstores := fun v => hwritten.storesValue_iff (v := v)
    (fun h _ _ => (.results [], h)) wellNamed_a_b bareEnvironment_comesOnce
  refine ⟨h', hrun, ?_, fun htrue => ?_⟩
  · exact ((hstores (.string ['b'])).mpr rfl).reads anyValue _
  · cases (hstores (.boolean true)).mp htrue

/-- `lua_gettop` -/
def topIndex {H : Type} : Program H Nat := fun s => .done s.height s

/-- `create_thread`; `thread` is the one that `lua_newthread` makes. -/
def createThread {H : Type} (lib : Library H) (path : Text) (thread : Nat) : Program H Unit := do
  push (.thread thread)
  let index ← topIndex
  setValue lib path index
  pop 1

theorem createThread_stores (s : LuaState) (call : Heap → Value → List Value → Called × Heap)
    {path : Text} (hpath : WellNamed path) (honce : s.Simple path) (thread : Nat) :
    ∃ h', createThread (tableLibrary s.globals call) path thread ⟨s.heap, s.stack⟩ =
        .done () ⟨h', s.stack⟩ ∧ StoresValue s.toEnvironment call path (.thread thread) h' := by
  let pushed : LuaState :=
    { s with
      stack := .thread thread :: s.stack
      held := by
        intro v hv id heq
        cases List.mem_cons.mp hv with
        | inl hthread =>
            rw [hthread] at heq
            cases heq
        | inr hold => exact s.held v hold id heq }
  have hheight : topIndex ⟨s.heap, pushed.stack⟩ =
      .done pushed.stack.length ⟨s.heap, pushed.stack⟩ := rfl
  have hlength : pushed.stack.length = s.stack.length + 1 := rfl
  have hpos : (0 : Int) < (pushed.stack.length : Int) := by omega
  have hreverse : pushed.stack.reverse = s.stack.reverse ++ [.thread thread] := List.reverse_cons
  have hindex : (pushed.stack.length : Int).toNat - 1 = s.stack.reverse.length := by
    rw [List.length_reverse]
    omega
  have hslot : slot pushed.stack pushed.stack.length = some (.thread thread) := by
    rw [slot, if_pos hpos, hindex, hreverse, List.getElem?_concat_length]
  rcases @setValue_run pushed path call hpath honce pushed.stack.length with
    ⟨h', hrun, hwritten⟩
  rw [found_of_pos hpos hslot] at hwritten
  use h'
  rw [createThread, Action.bind_done (push_apply _), Action.bind_done hheight,
    Action.bind_done hrun]
  exact ⟨rfl, (hwritten.storesValue_iff call hpath honce).mpr rfl⟩

end FerroRemote.Lua
