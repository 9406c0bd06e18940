/-
# Looking an object up by its path

A path is a text of names with dots between them. A name is written with backslashes, or
in quotes and then with fewer backslashes, and the scanner reads the names back.

The lookup goes down a tree of tables. Some of them are objects and others references to
tables of Lua, which are read when the path comes to them. What is found at the end is
copied; a reference is read once more, and there the numbers are taken as integers.
-/

import FerroRemote.Lua.PathScanner
import FerroRemote.Lua.ObjectRoundTrip

namespace FerroRemote.Lua

/-- Backslashes before the characters that are special. -/
def escape (special : Char → Bool) (name : Text) : Text :=
  name.flatMap fun c => if special c then ['\\', c] else [c]

def specialInQuotes (c : Char) : Bool := c == '\'' || c == '\\'

/-- The characters that are special elsewhere. -/
def special (c : Char) : Bool := c == '.' || specialInQuotes c

/-- A name in a path, and how it is written there. -/
structure PathName where
  name : Text
  quoted : Bool
  deriving DecidableEq, Repr

namespace PathName

def written (n : PathName) : Text :=
  if n.quoted then '\'' :: (escape specialInQuotes n.name ++ ['\'']) else escape special n.name

/-- What the scanner should make of the name. -/
def element (n : PathName) : PathElementInfo where
  name := n.name
  type := if n.quoted then .lua .string else .lua .none

end PathName

def writtenPath : List PathName → Text
  | [] => []
  | [n] => n.written
  | n :: names => n.written ++ '.' :: writtenPath names

theorem writtenPath_cons (n m : PathName) (names : List PathName) :
    writtenPath (n :: m :: names) = n.written ++ '.' :: writtenPath (m :: names) := rfl

section Reading

variable {quoted : Bool} {sp : Char → Bool} (hquote : sp '\'' = true) (hescape : sp '\\' = true)
  (hdot : quoted = false → sp '.' = true)

include hquote hescape in
theorem closed_escape (name rest : Text) :
    closed quoted false (escape sp name ++ rest) = closed quoted false rest := by
  induction name with
  | nil => rfl
  | cons c name ih =>
      rw [escape, List.flatMap_cons, List.append_assoc]
      by_cases hsp : sp c = true
      · rw [if_pos hsp]
        exact ih
      · have hc : c ≠ '\\' := fun heq => hsp (heq ▸ hescape)
        have hc' : c ≠ '\'' := fun heq => hsp (heq ▸ hquote)
        rw [if_neg hsp, List.singleton_append, closed, if_neg Bool.false_ne_true, if_neg hc,
          if_neg hc']
        exact ih

include hquote hescape hdot in
theorem scanned_escape (name rest : Text) (next : PathElementInfo) (tmp : List PathElementInfo) :
    scanned quoted false next tmp (escape sp name ++ rest) =
      scanned quoted false { next with name := next.name ++ name } tmp rest := by
  induction name generalizing next with
  | nil => rw [escape, List.flatMap_nil, List.nil_append, List.append_nil]
  | cons c name ih =>
      have hread : scanned quoted false (next.pushBack c) tmp (escape sp name ++ rest) =
          scanned quoted false { next with name := next.name ++ c :: name } tmp rest := by
        rw [ih, PathElementInfo.pushBack, List.append_assoc, List.singleton_append]
      rw [escape, List.flatMap_cons, List.append_assoc]
      by_cases hsp : sp c = true
      · rw [if_pos hsp]
        exact hread
      · have hc : c ≠ '\\' := fun heq => hsp (heq ▸ hescape)
        have hc' : c ≠ '\'' := fun heq => hsp (heq ▸ hquote)
        have hc'' : ¬ (c = '.' ∧ quoted = false) := fun hand => hsp (hand.1 ▸ hdot hand.2)
        rw [if_neg hsp, List.singleton_append, scanned, if_neg Bool.false_ne_true, if_neg hc,
          if_neg hc', if_neg hc'']
        exact hread

end Reading

theorem scanned_written (n : PathName) (rest : Text) (tmp : List PathElementInfo) :
    scanned false false {} tmp (n.written ++ rest) = scanned false false n.element tmp rest := by
  rcases n with ⟨name, quoted⟩
  cases quoted with
  | true =>
      have hopen : scanned false false {} tmp
          ('\'' :: (escape specialInQuotes name ++ ['\''] ++ rest)) =
          scanned true false ⟨[], .lua .string⟩ tmp
            (escape specialInQuotes name ++ ['\''] ++ rest) := rfl
      rw [PathName.written, if_pos rfl, List.cons_append, hopen, List.append_assoc,
        scanned_escape (by decide) (by decide) (by decide)]
      rfl
  | false =>
      rw [PathName.written, if_neg Bool.false_ne_true,
        scanned_escape (by decide) (by decide) (by decide)]
      rfl

theorem closed_written (n : PathName) (rest : Text) :
    closed false false (n.written ++ rest) = closed false false rest := by
  rcases n with ⟨name, quoted⟩
  cases quoted with
  | true =>
      have hopen : closed false false ('\'' :: (escape specialInQuotes name ++ ['\''] ++ rest)) =
          closed true false (escape specialInQuotes name ++ ['\''] ++ rest) := rfl
      rw [PathName.written, if_pos rfl, List.cons_append, hopen, List.append_assoc,
        closed_escape (by decide) (by decide)]
      rfl
  | false =>
      rw [PathName.written, if_neg Bool.false_ne_true, closed_escape (by decide) (by decide)]

theorem closed_writtenPath (names : List PathName) :
    closed false false (writtenPath names) = true := by
  induction names with
  | nil => rfl
  | cons n names ih =>
      cases names with
      | nil =>
          have hread := closed_written n []
          rw [List.append_nil] at hread
          exact hread
      | cons m names =>
          rw [writtenPath_cons, closed_written]
          exact ih

theorem scanned_writtenPath {names : List PathName} (hnames : ∀ n ∈ names, n.name ≠ [])
    (tmp : List PathElementInfo) :
    scanned false false {} tmp (writtenPath names) = tmp ++ names.map PathName.element := by
  induction names generalizing tmp with
  | nil => rw [List.map_nil, List.append_nil]; rfl
  | cons n names ih =>
      have hrest : ∀ m ∈ names, m.name ≠ [] := fun m hm => hnames m (List.mem_cons_of_mem n hm)
      cases names with
      | nil =>
          have hread := scanned_written n [] tmp
          have hempty : n.element.empty = false :=
            List.isEmpty_eq_false_iff.mpr (hnames n List.mem_cons_self)
          rw [List.append_nil, scanned, hempty, if_neg Bool.false_ne_true] at hread
          exact hread
      | cons m names =>
          have hdot : scanned false false n.element tmp ('.' :: writtenPath (m :: names)) =
              scanned false false {} (tmp ++ [n.element]) (writtenPath (m :: names)) := rfl
          rw [writtenPath_cons, scanned_written, hdot, ih hrest, List.append_assoc]
          rfl

theorem splitPath_written {names : List PathName} (hnames : ∀ n ∈ names, n.name ≠ [])
    {c : CString} (htext : c.text = writtenPath names) :
    splitPath c = some (names.map PathName.element) := by
  have hclosed : closed false false c.text = true := htext ▸ closed_writtenPath names
  rw [splitPath_closed hclosed, htext, scanned_writtenPath hnames, List.nil_append]

/-- The object under the first name that passes the check. -/
def Pairs.find (formats : Formats) (b : PathElementInfo) : Pairs → Option Obj
  | .nil => none
  | .cons name value rest =>
    if b.check (name.str formats) name.typeId then some value else rest.find formats b

def refToObject (flags : Bool) (h : Heap) (o : Obj) : Obj :=
  getObject flags (o.push h).2 (o.push h).1

/-- The loop of `object_by_path`. The object after the last element is the result. -/
def lookupLoop (formats : Formats) (h : Heap) : Obj → List PathElementInfo → Option Obj
  | _, [] => none
  | o, b :: rest =>
    match if o.typeId.isReference then refToObject false h o else o with
    | .table list _ =>
      match list.find formats b with
      | none => none
      | some next =>
        if rest.isEmpty then
          some (if next.typeId.isReference then refToObject true h next else next.clone)
        else lookupLoop formats h next rest
    | _ => none

/-- `object_by_path`, if `split_path` returns. -/
def objectByPath (formats : Formats) (h : Heap) (o : Obj) (str : CString) : Option (Option Obj) :=
  (splitPath str).map (lookupLoop formats h o)

def Pairs.toList : Pairs → List (Obj × Obj)
  | .nil => []
  | .cons first second rest => (first, second) :: rest.toList

/-- The pairs of a table, which may be one of Lua. -/
def fieldsOf (h : Heap) : Obj → Option Pairs
  | .table list _ => some list
  | .reference (.table id) => some (pairsOf false (h[id]?.getD .empty).entries.entries)
  | _ => none

/-- The object is stored under the nested keys. -/
inductive Stored (h : Heap) : Obj → List Text → Obj → Prop
  | here (o : Obj) : Stored h o [] o
  | field {o value v : Obj} {key : Text} {keys : List Text} {pairs : Pairs}
      (hpairs : fieldsOf h o = some pairs) (hmem : (.string key, value) ∈ pairs.toList)
      (hrest : Stored h value keys v) : Stored h o (key :: keys) v

/-- All keys are strings, no two of them the same. -/
def Pairs.StringKeyed (pairs : Pairs) : Prop :=
  ∃ keys : List Text, pairs.toList.map Prod.fst = keys.map Obj.string ∧ keys.Nodup

/-- Every table that a path can come to has distinct strings as its keys. -/
def StringTree (h : Heap) (o : Obj) : Prop :=
  ∀ keys v pairs, Stored h o keys v → fieldsOf h v = some pairs → pairs.StringKeyed

/-- The object is not a table, or a table without the key. -/
def Lacks (h : Heap) (o : Obj) (key : Text) : Prop :=
  ∀ pairs, fieldsOf h o = some pairs → ∀ value, (.string key, value) ∉ pairs.toList

/-- The path comes to something that lacks its next key. -/
def Blocked (h : Heap) (o : Obj) (keys : List Text) : Prop :=
  ∃ before key after v, keys = before ++ key :: after ∧ Stored h o before v ∧ Lacks h v key

/-- What is returned for an object: in a table of Lua the numbers become integers. -/
def delivered (h : Heap) : Obj → Obj
  | .reference referred => getObject true h referred
  | o => o

section Tree

variable {formats : Formats} {h : Heap} {o : Obj}

theorem stored_cons_iff {key : Text} {keys : List Text} {v : Obj} :
    Stored h o (key :: keys) v ↔ ∃ pairs value, fieldsOf h o = some pairs ∧
      (.string key, value) ∈ pairs.toList ∧ Stored h value keys v := by
  apply Iff.intro
  · intro hstored
    cases hstored with
    | field hpairs hmem hrest => exact ⟨_, _, hpairs, hmem, hrest⟩
  · rintro ⟨pairs, value, hpairs, hmem, hrest⟩
    exact .field hpairs hmem hrest

theorem stored_nil_iff {v : Obj} : Stored h o [] v ↔ v = o := by
  apply Iff.intro
  · intro hstored
    cases hstored with
    | here => rfl
  · intro heq
    rw [heq]
    exact .here o

theorem blocked_cons_iff {key : Text} {keys : List Text} :
    Blocked h o (key :: keys) ↔ Lacks h o key ∨ ∃ pairs value, fieldsOf h o = some pairs ∧
      (.string key, value) ∈ pairs.toList ∧ Blocked h value keys := by
  apply Iff.intro
  · rintro ⟨before, k, after, v, hkeys, hstored, hlacks⟩
    cases before with
    | nil =>
        rw [List.nil_append, List.cons.injEq] at hkeys
        rw [stored_nil_iff] at hstored
        rw [hkeys.1, ← hstored]
        exact .inl hlacks
    | cons k' before =>
        rw [List.cons_append, List.cons.injEq] at hkeys
        rw [← hkeys.1, stored_cons_iff] at hstored
        rcases hstored with ⟨pairs, value, hpairs, hmem, hrest⟩
        exact .inr ⟨pairs, value, hpairs, hmem, before, k, after, v, hkeys.2, hrest, hlacks⟩
  · rintro (hlacks | ⟨pairs, value, hpairs, hmem, before, k, after, v, hkeys, hstored, hlacks⟩)
    · exact ⟨[], key, keys, o, rfl, .here o, hlacks⟩
    · exact ⟨key :: before, k, after, v, by rw [hkeys, List.cons_append],
        .field hpairs hmem hstored, hlacks⟩

theorem StringTree.child (htree : StringTree h o) {pairs : Pairs} {key : Text} {value : Obj}
    (hpairs : fieldsOf h o = some pairs) (hmem : (.string key, value) ∈ pairs.toList) :
    StringTree h value :=
  fun keys v pairs' hstored => htree (key :: keys) v pairs' (.field hpairs hmem hstored)

theorem Pairs.StringKeyed.cons {first second : Obj} {rest : Pairs}
    (hkeyed : (Pairs.cons first second rest).StringKeyed) :
    rest.StringKeyed ∧ ∃ key, first = .string key ∧ ∀ value, (.string key, value) ∉ rest.toList := by
  rcases hkeyed with ⟨keys, hkeys, hnodup⟩
  cases keys with
  | nil => cases hkeys
  | cons key keys =>
      rw [Pairs.toList, List.map_cons, List.map_cons, List.cons.injEq] at hkeys
      rw [List.nodup_cons] at hnodup
      refine ⟨⟨keys, hkeys.2, hnodup.2⟩, key, hkeys.1, fun value hmem => hnodup.1 ?_⟩
      have hfst : Obj.string key ∈ keys.map Obj.string :=
        hkeys.2 ▸ List.mem_map_of_mem (f := Prod.fst) hmem
      rcases List.mem_map.mp hfst with ⟨key', hkey', heq⟩
      rw [Obj.string.injEq] at heq
      exact heq ▸ hkey'

theorem check_element (n : PathName) (key : Text) :
    n.element.check ((Obj.string key).str formats) (Obj.string key).typeId = (n.name == key) := by
  have htype : (n.element.type == .lua .none || n.element.type == .lua .string) = true := by
    rcases n with ⟨name, quoted⟩
    cases quoted with
    | true => rfl
    | false => rfl
  have hstr : (Obj.string key).str formats = key := by rw [Obj.str]
  have hname : n.element.name = n.name := rfl
  rw [hstr, Obj.typeId, PathElementInfo.check, htype, Bool.and_true, hname]

/-- A name finds what is under its key, however it is written. -/
theorem find_element_iff (n : PathName) (value : Obj) : ∀ {pairs : Pairs}, pairs.StringKeyed →
    (pairs.find formats n.element = some value ↔ (.string n.name, value) ∈ pairs.toList)
  | .nil, _ => iff_of_false (fun heq => by cases heq) List.not_mem_nil
  | .cons first second rest, hkeyed => by
      rcases hkeyed.cons with ⟨hrest, key, hfirst, hapart⟩
      have ih := find_element_iff n value hrest
      rw [hfirst, Pairs.find, check_element, Pairs.toList, List.mem_cons, Prod.mk.injEq,
        Obj.string.injEq]
      by_cases hname : n.name = key
      · rw [hname, if_pos BEq.rfl, Option.some_inj]
        exact ⟨fun heq => .inl ⟨rfl, heq.symm⟩,
          fun hor => hor.elim (fun hand => hand.2.symm) fun hmem => absurd hmem (hapart value)⟩
      · rw [if_neg (by rwa [beq_iff_eq]), ih]
        exact ⟨.inr, fun hor => hor.elim (fun hand => absurd hand.1 hname) id⟩

theorem Pairs.StringKeyed.value_unique {pairs : Pairs} (hkeyed : pairs.StringKeyed) {key : Text}
    {value value' : Obj} (hmem : (.string key, value) ∈ pairs.toList)
    (hmem' : (.string key, value') ∈ pairs.toList) : value = value' := by
  let formats : Formats := ⟨fun _ => [], fun _ => [], fun _ => []⟩
  have hfind := (@find_element_iff formats ⟨key, false⟩ value pairs hkeyed).mpr hmem
  have hfind' := (@find_element_iff formats ⟨key, false⟩ value' pairs hkeyed).mpr hmem'
  rw [hfind, Option.some_inj] at hfind'
  exact hfind'

/-- A table and a reference to a table are gone through in the same way. -/
theorem lookupLoop_cons (b : PathElementInfo) (rest : List PathElementInfo) :
    lookupLoop formats h o (b :: rest) =
      (fieldsOf h o).bind fun list => (list.find formats b).bind fun next =>
        if rest.isEmpty then some (delivered h next) else lookupLoop formats h next rest := by
  have hloop : ∀ list : Pairs,
      (match list.find formats b with
        | none => none
        | some next =>
          if rest.isEmpty then
            some (if next.typeId.isReference then refToObject true h next else next.clone)
          else lookupLoop formats h next rest) =
        (list.find formats b).bind fun next =>
          if rest.isEmpty then some (delivered h next) else lookupLoop formats h next rest := by
    intro list
    cases list.find formats b with
    | none => rfl
    | some next =>
        cases next with
        | reference referred => rfl
        | nil | boolean | lightUserdata | number | integer | string | thread | table => rfl
  cases o with
  | table list index => exact hloop list
  | reference referred =>
      cases referred with
      | table id => exact hloop (pairsOf false (h[id]?.getD .empty).entries.entries)
      | nil | boolean | lightuserdata | number | string | function | userdata | thread => rfl
  | nil | boolean | lightUserdata | number | integer | string | thread => rfl

theorem lookupLoop_some_iff {names : List PathName} (hne : names ≠ []) (htree : StringTree h o)
    (r : Obj) :
    lookupLoop formats h o (names.map PathName.element) = some r ↔
      ∃ v, Stored h o (names.map PathName.name) v ∧ r = delivered h v := by
  induction names generalizing o with
  | nil => exact absurd rfl hne
  | cons n names ih =>
      have hrest : ∀ value, StringTree h value →
          ((if (names.map PathName.element).isEmpty then some (delivered h value)
            else lookupLoop formats h value (names.map PathName.element)) = some r ↔
              ∃ v, Stored h value (names.map PathName.name) v ∧ r = delivered h v) := by
        intro value hvalue
        cases names with
        | nil =>
            rw [List.map_nil, List.map_nil, List.isEmpty_nil, if_pos rfl, Option.some_inj]
            exact ⟨fun heq => ⟨value, .here value, heq.symm⟩,
              fun ⟨v, hstored, heq⟩ => by rw [heq, stored_nil_iff.mp hstored]⟩
        | cons m names =>
            rw [List.map_cons, List.isEmpty_cons, if_neg Bool.false_ne_true]
            exact ih (List.cons_ne_nil m names) hvalue
      rw [List.map_cons, List.map_cons, lookupLoop_cons, Option.bind_eq_some_iff]
      apply Iff.intro
      · rintro ⟨pairs, hpairs, hsome⟩
        rw [Option.bind_eq_some_iff] at hsome
        rcases hsome with ⟨value, hfind, hsome⟩
        rw [find_element_iff n value (htree [] o pairs (.here o) hpairs)] at hfind
        rcases (hrest value (htree.child hpairs hfind)).mp hsome with ⟨v, hstored, heq⟩
        exact ⟨v, .field hpairs hfind hstored, heq⟩
      · rintro ⟨v, hstored, heq⟩
        rcases stored_cons_iff.mp hstored with ⟨pairs, value, hpairs, hmem, hstored⟩
        use pairs, hpairs
        rw [Option.bind_eq_some_iff]
        use value, (find_element_iff n value (htree [] o pairs (.here o) hpairs)).mpr hmem
        exact (hrest value (htree.child hpairs hmem)).mpr ⟨v, hstored, heq⟩

theorem blocked_iff_not_stored (htree : StringTree h o) (keys : List Text) :
    Blocked h o keys ↔ ¬ ∃ v, Stored h o keys v := by
  induction keys generalizing o with
  | nil =>
      apply iff_of_false
      · rintro ⟨before, key, after, v, hkeys, -, -⟩
        exact List.cons_ne_nil key after (List.append_eq_nil_iff.mp hkeys.symm).2
      · exact fun hnot => hnot ⟨o, .here o⟩
  | cons key keys ih =>
      rw [blocked_cons_iff]
      apply Iff.intro
      · rintro hblocked ⟨v, hstored⟩
        rcases stored_cons_iff.mp hstored with ⟨pairs, value, hpairs, hmem, hstored⟩
        rcases hblocked with hlacks | ⟨pairs', value', hpairs', hmem', hblocked⟩
        · exact hlacks pairs hpairs value hmem
        · rw [hpairs, Option.some_inj] at hpairs'
          subst hpairs'
          -- the two are under one key
          have hkeyed := htree [] o pairs (.here o) hpairs
          have hsame := hkeyed.value_unique hmem hmem'
          exact (ih (htree.child hpairs hmem)).mp (hsame ▸ hblocked) ⟨v, hstored⟩
      · intro hnot
        by_cases hlacks : Lacks h o key
        · exact .inl hlacks
        · unfold Lacks at hlacks
          push Not at hlacks
          rcases hlacks with ⟨pairs, hpairs, value, hmem⟩
          refine .inr ⟨pairs, value, hpairs, hmem, (ih (htree.child hpairs hmem)).mpr ?_⟩
          rintro ⟨v, hstored⟩
          exact hnot ⟨v, .field hpairs hmem hstored⟩

theorem lookupLoop_none_iff {names : List PathName} (hne : names ≠ []) (htree : StringTree h o) :
    lookupLoop formats h o (names.map PathName.element) = none ↔
      Blocked h o (names.map PathName.name) := by
  rw [blocked_iff_not_stored htree, Option.eq_none_iff_forall_ne_some]
  apply Iff.intro
  · rintro hnone ⟨v, hstored⟩
    exact hnone _ ((lookupLoop_some_iff hne htree _).mpr ⟨v, hstored, rfl⟩)
  · intro hnot r hsome
    rcases (lookupLoop_some_iff hne htree r).mp hsome with ⟨v, hstored, -⟩
    exact hnot ⟨v, hstored⟩

end Tree

/-- The names of a path are read back, and the path finds what is stored under them, or
nothing if it comes to something that lacks the next name. -/
theorem objectByPath_written (formats : Formats) (h : Heap) (o : Obj) {names : List PathName}
    (hnames : ∀ n ∈ names, n.name ≠ []) {str : CString} (htext : str.text = writtenPath names)
    (htree : StringTree h o) :
    splitPath str = some (names.map PathName.element) ∧
      (names ≠ [] → ∃ result, objectByPath formats h o str = some result ∧
        (∀ r, result = some r ↔
          ∃ v, Stored h o (names.map PathName.name) v ∧ r = delivered h v) ∧
        (result = none ↔ Blocked h o (names.map PathName.name))) := by
  have hsplit := splitPath_written hnames htext
  refine ⟨hsplit, fun hne => ⟨lookupLoop formats h o (names.map PathName.element), ?_, ?_, ?_⟩⟩
  · rw [objectByPath, hsplit, Option.map_some]
  · exact lookupLoop_some_iff hne htree
  · exact lookupLoop_none_iff hne htree

def noFormats : Formats := ⟨fun _ => [], fun _ => [], fun _ => []⟩

def halfTable : LuaTable :=
  LuaTable.empty.set (.string ['x']) (.number (.fraction 0x3FE0000000000000))

/-- A table whose one value is a reference to it. -/
def halfTree : Obj := .table (.cons (.string ['a', '.']) (.reference (.table 0)) .nil) 1

theorem stringTree_halfTree : StringTree [halfTable] halfTree := by
  intro keys v pairs hstored hpairs
  cases hstored with
  | here =>
      cases hpairs
      exact ⟨[['a', '.']], rfl, List.nodup_singleton _⟩
  | field houter hmem hrest =>
      cases houter
      cases List.mem_singleton.mp hmem
      cases hrest with
      | here =>
          cases hpairs
          exact ⟨[['x']], rfl, List.nodup_singleton _⟩
      | field hinner hmem hrest =>
          cases hinner
          cases List.mem_singleton.mp hmem
          cases hrest with
          | here => cases hpairs
          | field hnone => cases hnone

/-- `a\..x` finds the half. -/
theorem objectByPath_written_half :
    ∃ str : CString, str.text = ['a', '\\', '.', '.', 'x'] ∧
      ∃ result, objectByPath noFormats [halfTable] halfTree str = some result ∧
        (∀ r, result = some r ↔ ∃ v, Stored [halfTable] halfTree [['a', '.'], ['x']] v ∧
          r = delivered [halfTable] v) ∧
        (result = none ↔ Blocked [halfTable] halfTree [['a', '.'], ['x']]) := by
  let names : List PathName := [⟨['a', '.'], false⟩, ⟨['x'], false⟩]
  let str := CString.ofText (writtenPath names) (by decide) fun _ => nul
  have htext : str.text = writtenPath names := by decide
  rcases (objectByPath_written noFormats [halfTable] halfTree (by decide) htext
    stringTree_halfTree).2 (by decide) with ⟨result, hresult, hsome, hnone⟩
  exact ⟨str, htext, result, hresult, hsome, hnone⟩

/-- Without a name nothing is found, and the half is not in the table that is returned. -/
theorem path_without_name_and_half :
    (∃ str : CString, str.text = [] ∧ Stored [halfTable] halfTree [] halfTree ∧
      objectByPath noFormats [halfTable] halfTree str = some none) ∧
    ∃ str : CString, str.text = ['a', '\\', '.'] ∧
      Stored [halfTable] halfTree [['a', '.'], ['x']] (.number (.fraction 0x3FE0000000000000)) ∧
      objectByPath noFormats [halfTable] halfTree str =
        some (some (.table (.cons (.string ['x']) (.integer 0) .nil) 1)) := by
  refine ⟨⟨CString.ofText [] (by decide) fun _ => nul, by decide, .here _, rfl⟩,
    CString.ofText ['a', '\\', '.'] (by decide) fun _ => nul, by decide, ?_, rfl⟩
  exact .field rfl (List.mem_singleton_self _)
    (.field rfl (List.mem_singleton_self _) (.here _))

end FerroRemote.Lua
