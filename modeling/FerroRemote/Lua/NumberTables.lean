/-
# Vectors from tables of numbers

`table2vector` and `table2pair_vector` take a table apart whose values are numbers, or
tables of the same kind. Both go through the objects that `get_object` makes, and have a
branch for a value that is a table. But `get_object` makes a table only of the table it is
given: the tables inside become references, which are neither numbers nor tables, and what
they hold is left out.
-/

import FerroRemote.Lua.Objects

namespace FerroRemote.Lua

section Vectors

variable {α : Type} (inum : LuaNumber → Int)

mutual
/-- The loop of both functions; `take` makes an element of the key and the value. A key that
is not a number is left out with its value. -/
def Obj.toVector (take : Int → Int → α) : Obj → List α
  | .table list _ => list.toVector take
  | _ => []

def Pairs.toVector (take : Int → Int → α) : Pairs → List α
  | .nil => []
  | .cons reg val rest =>
    (match reg, val with
      | .number k, .number v => [take (inum k) (inum v)]
      | .number _, .table _ _ => val.toVector take
      | _, _ => []) ++ rest.toVector take
end

/-- `table2pair_vector< T >( tobj )`, with the constructor of the elements -/
def table2pairVector (valueType : Int → Int → α) (tobj : Obj) : List α :=
  tobj.toVector inum valueType

/-- `table2vector< T >( tobj )`, with the conversion to the elements -/
def table2vector (valueType : Int → α) (tobj : Obj) : List α :=
  tobj.toVector inum fun _ val => valueType val

/-- Both functions for a value of the stack, which is converted first -/
def ofValue (convert : Obj → List α) (h : Heap) (v : Value) : List α :=
  if v.type = .table then convert (getObject false h v) else []

/-- The entries of a table in the order of `lua_next` -/
def entriesOf (h : Heap) (id : Nat) : List (Sigma fun _ : Value => Value) :=
  (h[id]?.getD .empty).entries.entries

/-- The numbers of entries with their keys, depth first. All keys are numbers, and all
values are numbers or tables of the same kind. -/
inductive Holds (h : Heap) :
    List (Sigma fun _ : Value => Value) → List (LuaNumber × LuaNumber) → Prop
  | nil : Holds h [] []
  | number {k v : LuaNumber} {entries : List (Sigma fun _ : Value => Value)}
      {rest : List (LuaNumber × LuaNumber)} (hrest : Holds h entries rest) :
      Holds h (⟨.number k, .number v⟩ :: entries) ((k, v) :: rest)
  | table {k : LuaNumber} {id : Nat} {entries : List (Sigma fun _ : Value => Value)}
      {below rest : List (LuaNumber × LuaNumber)} (hbelow : Holds h (entriesOf h id) below)
      (hrest : Holds h entries rest) :
      Holds h (⟨.number k, .table id⟩ :: entries) (below ++ rest)

theorem Holds.unique {h : Heap} {entries : List (Sigma fun _ : Value => Value)}
    {numbers numbers' : List (LuaNumber × LuaNumber)} (hholds : Holds h entries numbers)
    (hholds' : Holds h entries numbers') : numbers = numbers' := by
  induction hholds generalizing numbers' with
  | nil =>
      cases hholds'
      rfl
  | number _ ih =>
      cases hholds' with
      | number hrest' => rw [ih hrest']
  | table _ _ ihBelow ihRest =>
      cases hholds' with
      | table hbelow' hrest' => rw [ihBelow hbelow', ihRest hrest']

variable (take : Int → Int → α) {h : Heap}

theorem toVector_number (k v : LuaNumber) (entries : List (Sigma fun _ : Value => Value)) :
    (pairsOf false (⟨.number k, .number v⟩ :: entries)).toVector inum take =
      take (inum k.toDouble) (inum v.toDouble) :: (pairsOf false entries).toVector inum take := rfl

theorem toVector_table (k : LuaNumber) (id : Nat) (entries : List (Sigma fun _ : Value => Value)) :
    (pairsOf false (⟨.number k, .table id⟩ :: entries)).toVector inum take =
      (pairsOf false entries).toVector inum take := rfl

theorem length_toVector_le {entries : List (Sigma fun _ : Value => Value)}
    {numbers : List (LuaNumber × LuaNumber)} (hholds : Holds h entries numbers) :
    ((pairsOf false entries).toVector inum take).length ≤ numbers.length := by
  induction hholds with
  | nil => exact Nat.le_refl 0
  | number _ ih =>
      rw [toVector_number, List.length_cons, List.length_cons]
      exact Nat.succ_le_succ ih
  | table _ _ _ ih =>
      rw [toVector_table, List.length_append]
      omega

/-- The entry gives what it holds: a number is not changed when it becomes a double, and a
table inside holds no number. -/
def Flat (h : Heap) (e : Sigma fun _ : Value => Value) : Prop :=
  match e.1, e.2 with
  | .number k, .number v => take (inum k.toDouble) (inum v.toDouble) = take (inum k) (inum v)
  | .number _, .table id => Holds h (entriesOf h id) []
  | _, _ => True

theorem toVector_eq_iff {entries : List (Sigma fun _ : Value => Value)}
    {numbers : List (LuaNumber × LuaNumber)} (hholds : Holds h entries numbers) :
    (pairsOf false entries).toVector inum take =
        numbers.map (fun p => take (inum p.1) (inum p.2)) ↔
      ∀ e ∈ entries, Flat inum take h e := by
  induction hholds with
  | nil => exact iff_of_true rfl fun e he => absurd he List.not_mem_nil
  | number _ ih =>
      rw [toVector_number, List.map_cons, List.cons.injEq, ih, List.forall_mem_cons]
      rfl
  | @table k id entries below rest hbelow hrest _ ih =>
      rw [toVector_table, List.forall_mem_cons, ← ih]
      cases below with
      | nil =>
          rw [List.nil_append]
          exact ⟨fun heq => ⟨hbelow, heq⟩, fun hand => hand.2⟩
      | cons p below =>
          apply iff_of_false
          · intro heq
            -- there are more numbers than elements
            have hlength := congrArg List.length heq
            have hle := length_toVector_le inum take hrest
            rw [List.length_map, List.length_append, List.length_cons] at hlength
            omega
          · intro hand
            cases hbelow.unique hand.1

/-- The numbers of a table are returned exactly if no table inside holds one, and none is
changed as a double. -/
theorem vectors_flatten_iff {γ : Type} (valueType : Int → α) (pairType : Int → Int → γ) {id : Nat}
    {numbers : List (LuaNumber × LuaNumber)} (hholds : Holds h (entriesOf h id) numbers) :
    (ofValue (table2vector inum valueType) h (.table id) =
        numbers.map (fun p => valueType (inum p.2)) ↔
      ∀ e ∈ entriesOf h id, Flat inum (fun _ val => valueType val) h e) ∧
    (ofValue (table2pairVector inum pairType) h (.table id) =
        numbers.map (fun p => pairType (inum p.1) (inum p.2)) ↔
      ∀ e ∈ entriesOf h id, Flat inum pairType h e) :=
  ⟨toVector_eq_iff inum (fun _ val => valueType val) hholds,
    toVector_eq_iff inum pairType hholds⟩

end Vectors

/-- The conversion of a number that is whole. -/
def wholeOrZero : LuaNumber → Int
  | .whole n => n
  | .fraction _ => 0

/-- The table with 7 and an empty table. -/
def emptyInside : Heap :=
  [(LuaTable.empty.set (.number (.whole 2)) (.table 1)).set (.number (.whole 1))
    (.number (.whole 7)), .empty]

theorem holds_emptyInside :
    Holds emptyInside (entriesOf emptyInside 0) [(.whole 1, .whole 7)] := by
  have hentries : entriesOf emptyInside 0 =
      [⟨.number (.whole 1), .number (.whole 7)⟩, ⟨.number (.whole 2), .table 1⟩] := rfl
  rw [hentries]
  have hbelow : Holds emptyInside (entriesOf emptyInside 1) [] := .nil
  have htable := Holds.table (k := .whole 2) hbelow .nil
  exact .number htable

theorem vectors_flatten_iff_empty :
    (ofValue (table2vector wholeOrZero id) emptyInside (.table 0) = [7] ↔
      ∀ e ∈ entriesOf emptyInside 0, Flat wholeOrZero (fun _ val => id val) emptyInside e) ∧
    (ofValue (table2pairVector wholeOrZero Prod.mk) emptyInside (.table 0) = [(1, 7)] ↔
      ∀ e ∈ entriesOf emptyInside 0, Flat wholeOrZero Prod.mk emptyInside e) :=
  vectors_flatten_iff wholeOrZero id Prod.mk holds_emptyInside

/-- The table with 7 and the table with 8. -/
def numberInside : Heap :=
  [(LuaTable.empty.set (.number (.whole 2)) (.table 1)).set (.number (.whole 1))
    (.number (.whole 7)), LuaTable.empty.set (.number (.whole 1)) (.number (.whole 8))]

/-- The 8 is dropped. -/
theorem nested_number_is_dropped :
    Holds numberInside (entriesOf numberInside 0) [(.whole 1, .whole 7), (.whole 1, .whole 8)] ∧
      ofValue (table2vector wholeOrZero id) numberInside (.table 0) = [7] ∧
      ofValue (table2pairVector wholeOrZero Prod.mk) numberInside (.table 0) = [(1, 7)] := by
  have hentries : entriesOf numberInside 0 =
      [⟨.number (.whole 1), .number (.whole 7)⟩, ⟨.number (.whole 2), .table 1⟩] := rfl
  refine ⟨?_, rfl, rfl⟩
  rw [hentries]
  have hbelow : Holds numberInside (entriesOf numberInside 1) [(.whole 1, .whole 8)] :=
    .number .nil
  have htable := Holds.table (k := .whole 2) hbelow .nil
  exact .number htable

end FerroRemote.Lua
