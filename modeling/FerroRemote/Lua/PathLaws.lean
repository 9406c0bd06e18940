/-
# The laws of assignment

An assignment writes one entry that was there to be written, and tables that are new. From
this follow the laws of a path that comes to its entry once: it reads the assigned value,
what does not come to the entry reads as before, what goes another way after it reads as
before too, and another assignment changes one entry only.

Where tables are shared the laws stop: one table may be reached by many paths, and the
table of globals is a global of itself in every state with the base library.
-/

import FerroRemote.Lua.PathAssignment
import Mathlib.Data.List.Induction

namespace FerroRemote.Lua

/-- Tables without metatables, among them the table of globals, with no reference to a
table that does not exist. -/
structure Environment where
  heap : Heap
  globals : Nat
  globals_lt : globals < heap.length
  closed : ∀ id k id', heap.get id k = .table id' → id' < heap.length

/-- One entry of `h` has been written, in `h'`, and `left` leads on from it to the value
through tables that are new. -/
structure Written (h : Heap) (id : Nat) (name : Text) (left : List Text) (v : Value)
    (h' : Heap) : Prop where
  length : h'.length = h.length + left.length
  others : ∀ id' k, id' < h.length → ¬ (id' = id ∧ k = .string name) →
    h'.get id' k = h.get id' k
  leads : Leads h' h.length (fields h' id name) left v

/-- A path comes to an entry, with the rest of it to go. -/
def ComesTo (h : Heap) (globals : Nat) (path : Text) (id : Nat) (name : Text)
    (rest : List Text) : Prop :=
  ∃ pre, components path = pre ++ name :: rest ∧
    valueShape.reads (fields h) (.table globals) pre = .table id

/-- A path comes to an entry once, with this rest to go. -/
def ComesOnce (h : Heap) (globals : Nat) (path : Text) (id : Nat) (name : Text)
    (left : List Text) : Prop :=
  ∀ rest, ComesTo h globals path id name rest → rest = left

theorem Written.congr {h h' h'' : Heap} {id : Nat} {name : Text} {left : List Text} {v : Value}
    (hwritten : Written h id name left v h') (hlength : h''.length = h'.length)
    (hget : ∀ id k, h''.get id k = h'.get id k) : Written h id name left v h'' := by
  have hfields : ∀ id name, fields h'' id name = fields h' id name :=
    fun id name => hget id (.string name)
  apply Written.mk (hlength.trans hwritten.length)
  · intro id' k hid hne
    rw [hget, hwritten.others id' k hid hne]
  · rw [hfields]
    exact hwritten.leads.congr fun id name _ => hfields id name

theorem assignAt_written {h : Heap} {t v : Value} {names left : List Text} {id : Nat}
    {name : Text} (hplace : valueShape.place (fields h) t names = some (id, name, left))
    (hid : id < h.length) : Written h id name left v (assignAt h t names v) := by
  have hlength := build_length left v h
  have hid' : id < (build left v h).2.length := by omega
  rw [assignAt, hplace]
  apply Written.mk
  · rw [Heap.length_set, hlength]
  · intro id' k hlt hne
    rw [Heap.get_set hid' (by exact fun hnil => by cases hnil), if_neg hne, build_get left v h hlt]
  · rw [fields_set hid', if_pos ⟨rfl, rfl⟩]
    apply (build_leads left v h).congr
    intro id' name' hle
    rw [fields_set hid', if_neg (fun hboth => absurd hboth.1 (by omega))]

/-- The first component is not the entry of a path that goes on below it. -/
theorem root_ne_entry {h : Heap} {globals id : Nat} {path name : Text} {left : List Text}
    (hplace : valueShape.place (fields h) (.table globals) (components path) =
      some (id, name, left)) (honce : ComesOnce h globals path id name left)
    (htail : tail path ≠ []) (htype : (fields h globals (root path)).type = .table) :
    ¬ (globals = id ∧ root path = name) := by
  intro ⟨hglobals, hroot⟩
  subst hglobals
  subst hroot
  have hnode : valueShape.node (.table globals) = some globals := rfl
  have hcomponents := components_of_tail htail
  have hleft := honce _ ⟨[], hcomponents, rfl⟩
  obtain ⟨id', hid⟩ := type_eq_table_iff.mp htype
  rw [hcomponents] at hplace
  cases hrest : valueShape.place (fields h) (fields h globals (root path))
      (components ((tail path).drop 1)) with
  | none =>
      cases Shape.place_eq_none_iff.mp hrest with
      | inl hempty => exact components_ne_nil _ hempty
      | inr hnone => exact node_eq_none_iff.mp hnone htype
  | some further =>
      rw [Shape.place_cons_further hnode hrest, Option.some_inj] at hplace
      rw [hplace] at hrest
      obtain ⟨pre, hsplit, _⟩ := Shape.place_spec hrest
      rw [hsplit] at hleft
      have hlength := congrArg List.length hleft
      rw [List.length_append, List.length_cons] at hlength
      omega

/-- **`set` writes the entry that its path comes to.** -/
theorem assigned_written {h : Heap} {globals id : Nat} {path name : Text} {left : List Text}
    {v : Value} (hplace : valueShape.place (fields h) (.table globals) (components path) =
      some (id, name, left)) (hglobals : globals < h.length) (hid : id < h.length)
    (honce : ComesOnce h globals path id name left) :
    Written h id name left v (assigned globals h path v) := by
  have hwritten := assignAt_written (v := v) hplace hid
  rw [assigned]
  split
  · next hboth =>
      have hne := root_ne_entry hplace honce hboth.1 hboth.2
      have hlt : globals < (assignAt h (.table globals) (components path) v).length := by
        rw [hwritten.length]
        omega
      apply hwritten.congr (Heap.length_set _ _ _ _)
      intro id' k
      rw [Heap.get_set hlt (by exact fun hnil => by cases hnil)]
      split
      · next heq =>
          rw [heq.1, heq.2, hwritten.others _ _ hglobals
            (fun hsame => hne ⟨hsame.1, Value.string.inj hsame.2⟩)]
          rfl
      · rfl
  · exact hwritten

/-- When nothing was left to build, all other entries of all tables are as before. -/
theorem Written.others_of_nil {h h' : Heap} {id : Nat} {name : Text} {v : Value}
    (hwritten : Written h id name [] v h') (id' : Nat) (k : Value)
    (hne : ¬ (id' = id ∧ k = .string name)) : h'.get id' k = h.get id' k := by
  by_cases hlt : id' < h.length
  · exact hwritten.others id' k hlt hne
  · have hlength : h'.length = h.length := hwritten.length
    rw [Heap.get_of_le (by omega), Heap.get_of_le (by omega)]

theorem Written.entry_of_nil {h h' : Heap} {id : Nat} {name : Text} {v : Value}
    (hwritten : Written h id name [] v h') : fields h' id name = v := hwritten.leads.reads

namespace Environment

variable (env : Environment)

def root : Value := .table env.globals

theorem reads_lt {names : List Text} {id : Nat}
    (hreads : valueShape.reads (fields env.heap) env.root names = .table id) :
    id < env.heap.length := by
  have hclosed : ∀ (v : Value) names, (∀ id', v = .table id' → id' < env.heap.length) →
      valueShape.reads (fields env.heap) v names = .table id → id < env.heap.length := by
    intro v names hv hreads
    induction names generalizing v with
    | nil => exact hv id hreads
    | cons name names ih =>
        cases hnode : valueShape.node v with
        | none =>
            rw [Shape.reads_cons_none hnode] at hreads
            cases hreads
        | some id' =>
            rw [Shape.reads_cons hnode] at hreads
            exact ih _ (env.closed id' (.string name)) hreads
  apply hclosed env.root names _ hreads
  intro id' hid
  cases hid
  exact env.globals_lt

theorem visits_lt {names : List Text} {e : Nat × Text}
    (he : e ∈ valueShape.visits (fields env.heap) env.root names) : e.1 < env.heap.length := by
  obtain ⟨pre, _, _, hnode⟩ := Shape.mem_visits_iff.mp he
  exact env.reads_lt (node_eq_some_iff.mp hnode)

end Environment

section Laws

variable {env : Environment} {path name : Text} {left pre : List Text} {id : Nat} {v : Value}
  {h' : Heap}

/-- A reading that does not come to the written entry is the same. -/
theorem Written.unvisited (hwritten : Written env.heap id name left v h') {names : List Text}
    (hnot : (id, name) ∉ valueShape.visits (fields env.heap) env.root names) :
    valueShape.reads (fields h') env.root names =
        valueShape.reads (fields env.heap) env.root names ∧
      valueShape.visits (fields h') env.root names =
        valueShape.visits (fields env.heap) env.root names := by
  apply Shape.reads_congr
  intro e he
  apply hwritten.others e.1 (.string e.2) (env.visits_lt he)
  intro ⟨hid, hname⟩
  rw [← hid, ← Value.string.inj hname] at hnot
  exact hnot he

/-- Before its end, a path that comes to its entry once has not been there. -/
theorem ComesOnce.unvisited (honce : ComesOnce env.heap env.globals path id name left)
    (hsplit : components path = pre ++ name :: left) :
    (id, name) ∉ valueShape.visits (fields env.heap) env.root pre := by
  intro hmem
  obtain ⟨before, rest, hpre, hnode⟩ := Shape.mem_visits_iff.mp hmem
  have hleft := honce (rest ++ name :: left) ⟨before, by
    rw [hsplit, hpre, List.append_assoc, List.cons_append], node_eq_some_iff.mp hnode⟩
  have hlength := congrArg List.length hleft
  rw [List.length_append, List.length_cons] at hlength
  omega

theorem Written.reads_path (hwritten : Written env.heap id name left v h')
    (honce : ComesOnce env.heap env.globals path id name left)
    (hsplit : components path = pre ++ name :: left)
    (hnode : valueShape.reads (fields env.heap) env.root pre = .table id) :
    denotes h' env.globals path = v := by
  have hpre := (hwritten.unvisited (honce.unvisited hsplit)).1
  have hnode' : valueShape.node (valueShape.reads (fields h') env.root pre) = some id :=
    node_eq_some_iff.mpr (hpre.trans hnode)
  rw [denotes, hsplit, Shape.reads_append]
  exact (Shape.reads_cons hnode').trans hwritten.leads.reads

/-- A path that goes another way after the entry, or does not come to it, reads as before. -/
theorem Written.reads_other (hwritten : Written env.heap id name left v h')
    (hstop : left = [] ∨ valueShape.node (fields env.heap id name) = none) {other : Text}
    (hother : ∀ rest, ComesTo env.heap env.globals other id name rest → Apart rest left) :
    denotes h' env.globals other = denotes env.heap env.globals other := by
  by_cases hmem : (id, name) ∈ valueShape.visits (fields env.heap) env.root (components other)
  · obtain ⟨before, rest, hsplit, hnode⟩ := Shape.mem_visits_iff.mp hmem
    have hapart := hother rest ⟨before, hsplit, node_eq_some_iff.mp hnode⟩
    have hleft : left ≠ [] := fun hnil => hapart.2 (hnil ▸ List.nil_prefix)
    have hleaf := hstop.resolve_left hleft
    -- nothing below the entry was a table, so the way to it cannot lead through it
    have hbefore : (id, name) ∉ valueShape.visits (fields env.heap) env.root before := by
      intro hearlier
      obtain ⟨first, middle, hfirst, hthrough⟩ := Shape.mem_visits_iff.mp hearlier
      rw [hfirst, Shape.reads_append, Shape.reads_cons hthrough] at hnode
      obtain ⟨id', hid'⟩ := Shape.node_of_reads hnode
      rw [hleaf] at hid'
      cases hid'
    have hsame := (hwritten.unvisited hbefore).1
    obtain ⟨hnil, _⟩ := hwritten.leads.elsewhere rest hapart
    cases rest with
    | nil => exact absurd List.nil_prefix hapart.1
    | cons next rest =>
        have hnode' : valueShape.node (valueShape.reads (fields h') env.root before) = some id := by
          rw [hsame]
          exact hnode
        rw [denotes, denotes, hsplit, Shape.reads_append, Shape.reads_append]
        calc valueShape.reads (fields h') (valueShape.reads (fields h') env.root before)
              (name :: next :: rest) =
            valueShape.reads (fields h') (fields h' id name) (next :: rest) :=
              Shape.reads_cons hnode'
          _ = .nil := hnil
          _ = valueShape.reads (fields env.heap) (fields env.heap id name) (next :: rest) :=
              (Shape.reads_cons_none hleaf).symm
          _ = valueShape.reads (fields env.heap)
              (valueShape.reads (fields env.heap) env.root before) (name :: next :: rest) :=
              (Shape.reads_cons hnode).symm
  · exact (hwritten.unvisited hmem).1

/-- A table that is read without coming to the written entry is read again. -/
theorem Written.same_table (hwritten : Written env.heap id name left v h') {names : List Text}
    {t : Nat} (hnot : (id, name) ∉ valueShape.visits (fields env.heap) env.root names)
    (hold : valueShape.reads (fields env.heap) env.root names = .table t) :
    ∃ t, valueShape.reads (fields h') env.root names = .table t ∧
      ∀ t', valueShape.reads (fields env.heap) env.root names = .table t' → t' = t := by
  refine ⟨t, (hwritten.unvisited hnot).1.trans hold, ?_⟩
  intro t' ht'
  rw [hold] at ht'
  exact (Value.table.inj ht').symm

/-- What the first components denote: the table from before, with all other entries, or a
new one. -/
theorem Written.prefix_denotes (hwritten : Written env.heap id name left v h')
    (honce : ComesOnce env.heap env.globals path id name left)
    (hsplit : components path = pre ++ name :: left)
    (hnode : valueShape.reads (fields env.heap) env.root pre = .table id)
    (hstop : left = [] ∨ valueShape.node (fields env.heap id name) = none)
    {names rest : List Text} (hnames : components path = names ++ rest) (hrest : rest ≠ []) :
    ∃ t, valueShape.reads (fields h') env.root names = .table t ∧
      ∀ t', valueShape.reads (fields env.heap) env.root names = .table t' → t' = t := by
  have hbefore := honce.unvisited hsplit
  cases List.append_eq_append_iff.mp (hnames.symm.trans hsplit) with
  | inl hinside =>
      obtain ⟨middle, hpre, _⟩ := hinside
      have hthrough : valueShape.node (valueShape.reads (fields env.heap) env.root
          (names ++ middle)) = some id := by
        rw [← hpre]
        exact node_eq_some_iff.mpr hnode
      obtain ⟨t, ht⟩ := Shape.node_of_append hthrough
      have hunvisited : (id, name) ∉ valueShape.visits (fields env.heap) env.root names := by
        intro hmem
        apply hbefore
        rw [hpre, Shape.visits_append]
        exact List.mem_append_left _ hmem
      exact hwritten.same_table hunvisited (node_eq_some_iff.mp ht)
  | inr hbeyond =>
      obtain ⟨middle, hnames', htail⟩ := hbeyond
      cases middle with
      | nil =>
          rw [List.append_nil] at hnames'
          rw [hnames']
          exact hwritten.same_table hbefore hnode
      | cons first middle =>
          rw [List.cons_append, List.cons.injEq] at htail
          obtain ⟨rfl, hleft⟩ := htail
          have hsame := (hwritten.unvisited hbefore).1
          have hnode' : valueShape.node (valueShape.reads (fields h') env.root pre) = some id :=
            node_eq_some_iff.mpr (hsame.trans hnode)
          obtain ⟨next, rest, rfl⟩ := List.exists_cons_of_ne_nil hrest
          obtain ⟨t, ht⟩ := Shape.node_of_full hwritten.leads.full hleft
          refine ⟨t, ?_, ?_⟩
          · rw [hnames', Shape.reads_append, Shape.reads_cons hnode']
            exact node_eq_some_iff.mp ht
          · intro t' ht'
            have hleaf : valueShape.node (fields env.heap id name) = none := by
              apply hstop.resolve_left
              rw [hleft]
              exact List.append_ne_nil_of_right_ne_nil _ hrest
            rw [hnames', Shape.reads_append, Shape.reads_cons (node_eq_some_iff.mpr hnode)] at ht'
            obtain ⟨id', hid'⟩ := Shape.node_of_reads (node_eq_some_iff.mpr ht')
            rw [hleaf] at hid'
            cases hid'

/-- The new tables are on the way in the order of their numbers, and the last of them has the
last entry. -/
theorem Written.last_table {h : Heap} {middle : List Text} {last : Text}
    (hwritten : Written h id name (middle ++ [last]) v h') :
    valueShape.reads (fields h') (fields h' id name) middle = .table (h.length + middle.length) ∧
      (valueShape.visits (fields h') (fields h' id name) middle).map Prod.fst =
        List.range' h.length middle.length := by
  rcases Shape.node_of_full hwritten.leads.full rfl with ⟨leaf, hleaf⟩
  have hfresh := hwritten.leads.fresh
  rw [Shape.visits_append, Shape.visits_cons hleaf, List.map_append, List.length_append,
    List.length_singleton, List.range'_concat, Nat.one_mul] at hfresh
  rcases List.append_inj' hfresh rfl with ⟨hmiddle, hlast⟩
  have hnumber : leaf = h.length + middle.length := (List.cons.inj hlast).1
  rw [← hnumber]
  exact ⟨node_eq_some_iff.mp hleaf, hmiddle⟩

/-- After an assignment all of the path but its end goes through tables, and it comes to its
last entry once. -/
theorem Written.leaf (hwritten : Written env.heap id name left v h')
    (honce : ComesOnce env.heap env.globals path id name left)
    (hsplit : components path = pre ++ name :: left)
    (hnode : valueShape.reads (fields env.heap) env.root pre = .table id) :
    ∃ init last leaf, components path = init ++ [last] ∧
      valueShape.reads (fields h') env.root init = .table leaf ∧ leaf < h'.length ∧
      (leaf, last) ∉ valueShape.visits (fields h') env.root init := by
  have hbefore := honce.unvisited hsplit
  have hsame := hwritten.unvisited hbefore
  have hid := env.reads_lt hnode
  have hnode' : valueShape.reads (fields h') env.root pre = .table id := hsame.1.trans hnode
  cases List.eq_nil_or_concat left with
  | inl hnil =>
      subst hnil
      refine ⟨pre, name, id, hsplit, hnode', ?_, ?_⟩
      · rw [hwritten.length]
        exact Nat.lt_add_right _ hid
      · rw [hsame.2]
        exact hbefore
  | inr hconcat =>
      obtain ⟨middle, last, rfl⟩ := hconcat
      rw [List.concat_eq_append] at hwritten hsplit
      have hlength := hwritten.length
      rw [List.length_append, List.length_singleton] at hlength
      obtain ⟨hleaf, hmiddle⟩ := hwritten.last_table
      refine ⟨pre ++ name :: middle, last, env.heap.length + middle.length, ?_, ?_, ?_, ?_⟩
      · rw [hsplit, List.append_assoc, List.cons_append]
      · rw [Shape.reads_append, Shape.reads_cons (node_eq_some_iff.mpr hnode')]
        exact hleaf
      · omega
      · rw [Shape.visits_append, Shape.visits_cons (node_eq_some_iff.mpr hnode'), hsame.2]
        intro hmem
        cases List.mem_append.mp hmem with
        | inl hold =>
            have hlt := env.visits_lt hold
            omega
        | inr hrest =>
            cases List.mem_cons.mp hrest with
            | inl hentry =>
                have heq := congrArg Prod.fst hentry
                simp only at heq
                omega
            | inr hnew =>
                have hrange : env.heap.length + middle.length ∈
                    List.range' env.heap.length middle.length := by
                  rw [← hmiddle]
                  exact List.mem_map_of_mem hnew
                have hlt := (List.mem_range'_1.mp hrange).2
                omega

theorem comesOnce_of_unvisited {h : Heap} {globals leaf : Nat} {init : List Text} {last : Text}
    (hsplit : components path = init ++ [last])
    (hunvisited : (leaf, last) ∉ valueShape.visits (fields h) (.table globals) init) :
    ComesOnce h globals path leaf last [] := by
  intro rest ⟨before, hcomes, hnode⟩
  cases List.eq_nil_or_concat rest with
  | inl hnil => exact hnil
  | inr hconcat =>
      obtain ⟨middle, final, rfl⟩ := hconcat
      have hinit : init = before ++ last :: middle := by
        rw [hcomes, List.concat_eq_append, ← List.cons_append, ← List.append_assoc] at hsplit
        exact (List.append_inj' hsplit rfl).1.symm
      apply absurd _ hunvisited
      exact Shape.mem_visits_iff.mpr ⟨before, middle, hinit, node_eq_some_iff.mpr hnode⟩

end Laws

/-! ## The laws -/

theorem place_components_isSome (h : Heap) (globals : Nat) (path : Text) :
    (valueShape.place (fields h) (.table globals) (components path)).isSome = true := by
  rw [components_eq]
  exact Shape.place_isSome rfl

/-- The entry that an assignment writes, and what is left of the path there. -/
def Environment.entry (env : Environment) (path : Text) : Nat × Text × List Text :=
  (valueShape.place (fields env.heap) env.root (components path)).get
    (place_components_isSome env.heap env.globals path)

theorem Environment.place_eq_entry (env : Environment) (path : Text) :
    valueShape.place (fields env.heap) env.root (components path) = some (env.entry path) :=
  (Option.some_get (place_components_isSome env.heap env.globals path)).symm

/-- What holds after an assignment: the path reads the value; paths that do not come to the
written entry, or go another way after it, read as before; proper prefixes denote the tables
from before, with all entries but the written one, or new tables; and another assignment
changes the last entry of the path and no other. -/
structure AssignmentLaws (env : Environment)
    (call : Heap → Value → List Value → Called × Heap) (path : Text) (v : Value) (h' : Heap) :
    Prop where
  reads : ∀ {α : Type} (T : Trait α) (stack : List Value),
    (get (tableLibrary env.globals call) T path ⟨h', stack⟩).answer = some (T.answer v)
  others : ∀ other, WellNamed other →
    (∀ rest, ComesTo env.heap env.globals other (env.entry path).1 (env.entry path).2.1 rest →
      Apart rest (env.entry path).2.2) →
    ∀ {α : Type} (T : Trait α) (stack : List Value),
      (get (tableLibrary env.globals call) T other ⟨h', stack⟩).answer =
        (get (tableLibrary env.globals call) T other ⟨env.heap, stack⟩).answer
  prefixes : ∀ a b, path = a ++ '.' :: b → ∃ t, denotes h' env.globals a = .table t ∧
    ∀ t', denotes env.heap env.globals a = .table t' → t' = t ∧
      ∀ k, ¬ (t = (env.entry path).1 ∧ k = .string (env.entry path).2.1) →
        h'.get t k = env.heap.get t k
  again : ∀ (w : Value) (stack : List Value), ∃ h'' leaf last,
    set (tableLibrary env.globals call) path w ⟨h', stack⟩ = .done () ⟨h'', stack⟩ ∧
    (∀ {α : Type} (T : Trait α) (stack : List Value),
      (get (tableLibrary env.globals call) T path ⟨h'', stack⟩).answer = some (T.answer w)) ∧
    ComesTo h' env.globals path leaf last [] ∧
    ∀ id k, ¬ (id = leaf ∧ k = .string last) → h''.get id k = h'.get id k

section Again

variable {env : Environment} {path last : Text} {init : List Text} {leaf : Nat} {h' : Heap}

theorem assigned_again (hsplit : components path = init ++ [last])
    (hnode : valueShape.reads (fields h') env.root init = .table leaf)
    (hleaf : leaf < h'.length) (hglobals : env.globals < h'.length)
    (hunvisited : (leaf, last) ∉ valueShape.visits (fields h') env.root init) (w : Value) :
    denotes (assigned env.globals h' path w) env.globals path = w ∧
      ∀ id k, ¬ (id = leaf ∧ k = .string last) →
        (assigned env.globals h' path w).get id k = h'.get id k := by
  have hplace : valueShape.place (fields h') (.table env.globals) (components path) =
      some (leaf, last, []) := by
    rw [hsplit]
    exact Shape.place_of_through init (node_eq_some_iff.mpr hnode)
  have hwritten := assigned_written (v := w) hplace hglobals hleaf
    (comesOnce_of_unvisited hsplit hunvisited)
  have hsame : valueShape.reads (fields (assigned env.globals h' path w)) env.root init =
      valueShape.reads (fields h') env.root init := by
    apply And.left
    apply Shape.reads_congr
    intro e he
    apply hwritten.others_of_nil e.1 (.string e.2)
    intro ⟨hid, hname⟩
    rw [← hid, ← Value.string.inj hname] at hunvisited
    exact hunvisited he
  apply And.intro _ hwritten.others_of_nil
  rw [denotes, hsplit, Shape.reads_append]
  exact (Shape.reads_cons (node_eq_some_iff.mpr (hsame.trans hnode))).trans
    hwritten.entry_of_nil

end Again

/-- **The path assignment laws**, for every environment and every path that comes to the
entry it writes only once. -/
theorem set_obeys_laws (env : Environment) (call : Heap → Value → List Value → Called × Heap)
    {path : Text} (hpath : WellNamed path)
    (honce : ComesOnce env.heap env.globals path (env.entry path).1 (env.entry path).2.1
      (env.entry path).2.2) (v : Value) (stack : List Value) :
    ∃ h', set (tableLibrary env.globals call) path v ⟨env.heap, stack⟩ =
        .done () ⟨h', stack⟩ ∧ AssignmentLaws env call path v h' := by
  have hplace : valueShape.place (fields env.heap) (.table env.globals) (components path) =
      some ((env.entry path).1, (env.entry path).2.1, (env.entry path).2.2) :=
    env.place_eq_entry path
  obtain ⟨pre, hsplit, hthrough, _, hstop⟩ := Shape.place_spec hplace
  have hnode := node_eq_some_iff.mp hthrough
  have hwritten := assigned_written (v := v) hplace env.globals_lt (env.reads_lt hnode) honce
  refine ⟨assigned env.globals env.heap path v, set_run hpath v _, ?_⟩
  apply AssignmentLaws.mk
  · intro α T stack
    rw [get_answer T hpath, hwritten.reads_path honce hsplit hnode]
  · intro other hnamed hother α T stack
    rw [get_answer T hnamed, get_answer T hnamed, hwritten.reads_other hstop hother]
  · intro a b hab
    have hnames : components path = components a ++ components b := by
      rw [hab, components_prefix]
    obtain ⟨t, ht, hold⟩ := hwritten.prefix_denotes honce hsplit hnode hstop hnames
      (components_ne_nil b)
    refine ⟨t, ht, ?_⟩
    intro t' ht'
    apply And.intro (hold t' ht')
    intro k hne
    exact hwritten.others t k (hold t' ht' ▸ env.reads_lt ht') hne
  · intro w stack
    obtain ⟨init, last, leaf, hinit, hleaf, hlt, hunvisited⟩ :=
      hwritten.leaf honce hsplit hnode
    have hglobals : env.globals < (assigned env.globals env.heap path v).length := by
      rw [hwritten.length]
      exact Nat.lt_add_right _ env.globals_lt
    obtain ⟨hreads, hothers⟩ := assigned_again hinit hleaf hlt hglobals hunvisited w
    refine ⟨_, leaf, last, set_run hpath w _, ?_, ⟨init, hinit, hleaf⟩, hothers⟩
    intro α T stack
    rw [get_answer T hpath, hreads]

/-- No two entries hold one table, and none holds the table of globals. -/
structure Environment.Unshared (env : Environment) : Prop where
  entry_eq : ∀ id name id' name' t, fields env.heap id name = .table t →
    fields env.heap id' name' = .table t → id = id' ∧ name = name'
  ne_root : ∀ id name, fields env.heap id name ≠ env.root

namespace Environment.Unshared

variable {env : Environment}

theorem last_step {names : List Text} {name : Text} {t : Nat}
    (hreads : valueShape.reads (fields env.heap) env.root (names ++ [name]) = .table t) :
    ∃ id, valueShape.reads (fields env.heap) env.root names = .table id ∧
      fields env.heap id name = .table t := by
  obtain ⟨id, hnode⟩ := Shape.node_of_append (node_eq_some_iff.mpr hreads)
  rw [Shape.reads_append, Shape.reads_cons hnode] at hreads
  exact ⟨id, node_eq_some_iff.mp hnode, hreads⟩

theorem path_eq (hunshared : env.Unshared) {names names' : List Text} {t : Nat}
    (hreads : valueShape.reads (fields env.heap) env.root names = .table t)
    (hreads' : valueShape.reads (fields env.heap) env.root names' = .table t) :
    names = names' := by
  induction names using List.reverseRecOn generalizing names' t with
  | nil =>
      cases List.eq_nil_or_concat names' with
      | inl hnil => exact hnil.symm
      | inr hconcat =>
          obtain ⟨init, last, rfl⟩ := hconcat
          rw [List.concat_eq_append] at hreads'
          obtain ⟨id, _, hfield⟩ := last_step hreads'
          exact absurd (hfield.trans hreads.symm) (hunshared.ne_root id last)
  | append_singleton init last ih =>
      obtain ⟨id, hinit, hfield⟩ := last_step hreads
      cases List.eq_nil_or_concat names' with
      | inl hnil =>
          subst hnil
          exact absurd (hfield.trans hreads'.symm) (hunshared.ne_root id last)
      | inr hconcat =>
          obtain ⟨init', last', rfl⟩ := hconcat
          rw [List.concat_eq_append] at hreads' ⊢
          obtain ⟨id', hinit', hfield'⟩ := last_step hreads'
          obtain ⟨rfl, rfl⟩ := hunshared.entry_eq _ _ _ _ _ hfield hfield'
          rw [ih hinit hinit']

/-- Without sharing every path comes to its entry once, and the paths that go another way
are those that are neither prefixes nor extensions of it. -/
theorem comesOnce_apart (hunshared : env.Unshared) (path : Text) :
    ComesOnce env.heap env.globals path (env.entry path).1 (env.entry path).2.1
        (env.entry path).2.2 ∧
      ∀ other, Apart (components other) (components path) → ∀ rest,
        ComesTo env.heap env.globals other (env.entry path).1 (env.entry path).2.1 rest →
        Apart rest (env.entry path).2.2 := by
  obtain ⟨pre, hsplit, hthrough, _, _⟩ := Shape.place_spec (env.place_eq_entry path)
  have hnode := node_eq_some_iff.mp hthrough
  apply And.intro
  · intro rest ⟨pre', hsplit', hnode'⟩
    rw [hunshared.path_eq hnode' hnode, hsplit] at hsplit'
    exact (List.cons.inj (List.append_cancel_left hsplit')).2.symm
  · intro other hapart rest ⟨pre', hsplit', hnode'⟩
    rw [hsplit, hsplit', hunshared.path_eq hnode' hnode] at hapart
    apply Apart.tail
    exact ⟨fun hprefix => hapart.1 ((List.prefix_append_right_inj pre).mpr hprefix),
      fun hprefix => hapart.2 ((List.prefix_append_right_inj pre).mpr hprefix)⟩

end Environment.Unshared

theorem components_a_b : components ['a', '.', 'b'] = [['a'], ['b']] := by
  rw [← List.singleton_append, components_append (by decide), components_of_not_mem (by decide)]

theorem wellNamed_a_b : WellNamed ['a', '.', 'b'] := by
  intro name hname
  rw [components_a_b] at hname
  intro hnil
  rw [hnil] at hname
  exact absurd hname (by decide)

/-- A global `a` that is a table with a field `c`. -/
def nestedHeap : Heap :=
  [LuaTable.empty.set (.string ['a']) (.table 1), LuaTable.empty.set (.string ['c']) (.boolean false)]

theorem nestedHeap_table {id t : Nat} {k : Value} (hget : nestedHeap.get id k = .table t) :
    id = 0 ∧ k = .string ['a'] ∧ t = 1 := by
  match id with
  | 0 =>
      change (LuaTable.empty.set (.string ['a']) (.table 1)).get k = .table t at hget
      rw [LuaTable.get_set _ (by decide)] at hget
      split at hget
      · next heq =>
          cases hget
          exact ⟨rfl, heq, rfl⟩
      · cases hget
  | 1 =>
      change (LuaTable.empty.set (.string ['c']) (.boolean false)).get k = .table t at hget
      rw [LuaTable.get_set _ (by decide)] at hget
      split at hget
      · cases hget
      · cases hget
  | id + 2 => cases hget

def nestedEnvironment : Environment where
  heap := nestedHeap
  globals := 0
  globals_lt := Nat.two_pos
  closed := by
    intro id k id' heq
    rw [(nestedHeap_table heq).2.2]
    exact Nat.one_lt_two

theorem nestedEnvironment_unshared : nestedEnvironment.Unshared where
  entry_eq := by
    intro id name id' name' t hfield hfield'
    rcases nestedHeap_table hfield with ⟨rfl, hname, -⟩
    rcases nestedHeap_table hfield' with ⟨rfl, hname', -⟩
    exact ⟨rfl, Value.string.inj (hname.trans hname'.symm)⟩
  ne_root := by
    intro id name hfield
    cases (nestedHeap_table hfield).2.2

/-- A new field of a table that is there. -/
theorem set_obeys_laws_old_table :
    ∃ h', set (tableLibrary 0 fun h _ _ => (.results [], h)) ['a', '.', 'b'] (.boolean true)
        ⟨nestedHeap, []⟩ = .done () ⟨h', []⟩ ∧
      AssignmentLaws nestedEnvironment (fun h _ _ => (.results [], h)) ['a', '.', 'b']
        (.boolean true) h' :=
  set_obeys_laws nestedEnvironment _ wellNamed_a_b
    (nestedEnvironment_unshared.comesOnce_apart ['a', '.', 'b']).1 (.boolean true) []

/-- The table of globals is its own global `g`. -/
def selfEnvironment : Environment where
  heap := [LuaTable.empty.set (.string ['g']) (.table 0)]
  globals := 0
  globals_lt := Nat.one_pos
  closed := by
    intro id k id' heq
    cases id with
    | zero =>
        rw [Heap.get, List.getElem?_cons_zero, Option.getD_some, LuaTable.get_set _ (by decide)] at heq
        split at heq
        · cases heq
          exact Nat.one_pos
        · cases heq
    | succ id => cases heq

/-- Assigning `a` changes what `g.a` reads, which is neither a prefix nor an extension. -/
theorem shared_table_reads_change :
    ¬ ∀ (env : Environment) (call : Heap → Value → List Value → Called × Heap)
      (path other : Text) (v : Value) (h' : Heap),
      WellNamed path → WellNamed other → Apart (components other) (components path) →
      set (tableLibrary env.globals call) path v ⟨env.heap, []⟩ = .done () ⟨h', []⟩ →
      (get (tableLibrary env.globals call) (idInteger id) other ⟨h', []⟩).answer =
        (get (tableLibrary env.globals call) (idInteger id) other ⟨env.heap, []⟩).answer := by
  intro hall
  have hpath : components ['a'] = [['a']] := components_of_not_mem (by decide)
  have hother : components ['g', '.', 'a'] = [['g'], ['a']] := by
    rw [← List.singleton_append, components_append (by decide), hpath]
  have hnamed : WellNamed ['g', '.', 'a'] := by
    intro name hname hnil
    rw [hother, hnil] at hname
    exact absurd hname (by decide)
  have hchange := hall selfEnvironment (fun h _ _ => (.results [], h)) ['a'] ['g', '.', 'a']
    (.number (.whole 1)) (selfEnvironment.heap.set 0 (.string ['a']) (.number (.whole 1)))
    (by
      intro name hname hnil
      rw [hpath, hnil] at hname
      exact absurd hname (by decide))
    hnamed (by rw [hpath, hother]; exact ⟨by decide, by decide⟩) rfl
  rw [get_answer _ hnamed, get_answer _ hnamed, denotes, denotes, hother] at hchange
  exact absurd (Except.ok.inj (Option.some_inj.mp hchange)) (by decide +kernel)

end FerroRemote.Lua
