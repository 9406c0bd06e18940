/-
# Session keys

The agent is started with any number of `--key` options, each `id:key` or a bare
`key` for connections with whatever id. It keeps hashes only: of the id and the
key together, and under the empty id for a bare key. A client hashes its own id
with its key, and the transport compares the two.

For a client with a key of its own this works out. The key for any connection is
hashed by the agent without an id and by the client with one, and a client that
neither has a key nor finds one for any connection is compared with the empty
string.
-/

import Mathlib.Tactic.Common

namespace FerroRemote.Agent

/-- A `std::map` of strings to strings. -/
abbrev KeyMap := List (List Char × List Char)

namespace KeyMap

/-- `insert`, which keeps the value a key has. -/
def insert (m : KeyMap) (id hash : List Char) : KeyMap :=
  if (m.lookup id).isSome then m else m ++ [(id, hash)]

def erase (m : KeyMap) (id : List Char) : KeyMap := m.filter fun entry => entry.1 ≠ id

theorem lookup_insert (m : KeyMap) (id hash a : List Char) :
    (m.insert id hash).lookup a =
      (m.lookup a).or (if a = id then some hash else none) := by
  rw [insert]
  split
  · next hknown =>
      by_cases heq : a = id
      · rw [heq, Option.or_of_isSome hknown]
      · rw [if_neg heq, Option.or_none]
  · rw [List.lookup_append, List.lookup_cons, List.lookup_nil]
    by_cases heq : a = id
    · rw [heq, if_pos rfl, beq_self_eq_true]
    · rw [if_neg heq, beq_eq_false_iff_ne.mpr heq]

theorem lookup_erase (m : KeyMap) (id a : List Char) :
    (m.erase id).lookup a = if a = id then none else m.lookup a := by
  induction m with
  | nil => simp [erase]
  | cons entry m ih =>
      obtain ⟨key, hash⟩ := entry
      rw [erase, List.filter_cons]
      by_cases hkey : key = id
      · have hdropped : List.lookup a (m.filter fun entry => entry.1 ≠ id) =
            if a = id then none else m.lookup a := ih
        rw [if_neg (by simpa using hkey), hdropped, List.lookup_cons]
        by_cases heq : a = id
        · rw [if_pos heq, if_pos heq]
        · rw [if_neg heq, if_neg heq, hkey, beq_eq_false_iff_ne.mpr heq]
      · have hkept : List.lookup a (m.filter fun entry => entry.1 ≠ id) =
            if a = id then none else m.lookup a := ih
        rw [if_pos (by simpa using hkey), List.lookup_cons, List.lookup_cons, hkept]
        by_cases ha : a = key
        · rw [ha, beq_self_eq_true, if_neg hkey, if_neg hkey]
        · rw [beq_eq_false_iff_ne.mpr ha]

end KeyMap

/-- `split_string`: an option without a colon has the empty id. -/
def splitString (key : List Char) : List Char × List Char :=
  match key.idxOf? ':' with
  | none => ([], key)
  | some pos => (key.take pos, key.drop (pos + 1))

section Hash

variable (sha256 : List Char → List Char)

/-- The part of `load_config` that reads the keys. -/
def loadKeys (options : List (List Char)) : KeyMap :=
  options.foldl
    (fun tmp key => tmp.insert (splitString key).1
      (sha256 ((splitString key).1 ++ (splitString key).2))) []

/-- What `application::impl` keeps. -/
structure SessionKeys where
  /-- `keys_`. -/
  keys : KeyMap
  /-- `empty_key_`. -/
  emptyKey : List Char := []

namespace SessionKeys

def initKeys (km : KeyMap) : SessionKeys :=
  match km.lookup [] with
  | none => { keys := km }
  | some hash => { keys := km.erase [], emptyKey := hash }

def getSessionKey (s : SessionKeys) (id : List Char) : List Char :=
  match s.keys.lookup id with
  | none => s.emptyKey
  | some hash => hash

def sessionKeyRequired (s : SessionKeys) : Bool := !s.keys.isEmpty || !s.emptyKey.isEmpty

/-- The transport lets a client in that presents the key expected, or any when
none is required. -/
def Accepts (s : SessionKeys) (id presented : List Char) : Prop :=
  s.sessionKeyRequired = true → presented = s.getSessionKey id

end SessionKeys

/-- The agent started with some `--key` options. -/
def sessionKeys (options : List (List Char)) : SessionKeys :=
  SessionKeys.initKeys (loadKeys sha256 options)

/-- `hash_key`; every client computes its session key so. -/
def hashKey (id key : List Char) : List Char := sha256 (id ++ key)

/-- The plain key configured for an id; the first one counts. -/
def configured (options : List (List Char)) (id : List Char) : Option (List Char) :=
  (options.map splitString).lookup id

/-- The key of the id, or else the one for any connection. -/
def plainKey (options : List (List Char)) (id : List Char) : Option (List Char) :=
  (configured options id).or (configured options [])

/-- A client's hash is the one expected just when its key is the right one, and a
client without a right key is let in with nothing, where keys are required. -/
structure KeysAgree (options : List (List Char)) (id key : List Char) : Prop where
  right : hashKey sha256 id key = (sessionKeys sha256 options).getSessionKey id ↔
    plainKey options id = some key
  shut : (sessionKeys sha256 options).sessionKeyRequired = true → plainKey options id = none →
    ∀ presented, ¬ (sessionKeys sha256 options).Accepts id presented

theorem configured_cons (option : List Char) (options : List (List Char)) (id : List Char) :
    configured (option :: options) id =
      if id = (splitString option).1 then some (splitString option).2 else configured options id := by
  rw [configured, List.map_cons, List.lookup_cons]
  by_cases heq : id = (splitString option).1
  · rw [if_pos heq, beq_iff_eq.mpr heq]
  · rw [if_neg heq, beq_eq_false_iff_ne.mpr heq, configured]

/-- Reading more options adds the keys of the ids that have none. -/
theorem lookup_foldl (options : List (List Char)) (m : KeyMap) (id : List Char) :
    (options.foldl (fun tmp key => tmp.insert (splitString key).1
        (sha256 ((splitString key).1 ++ (splitString key).2))) m).lookup id =
      (m.lookup id).or ((configured options id).map (hashKey sha256 id)) := by
  induction options generalizing m with
  | nil => exact (Option.or_none).symm
  | cons option options ih =>
      rw [List.foldl_cons, ih, KeyMap.lookup_insert, configured_cons, Option.or_assoc]
      by_cases heq : id = (splitString option).1
      · rw [if_pos heq, if_pos heq, Option.some_or, Option.map_some, hashKey, heq]
      · rw [if_neg heq, if_neg heq, Option.none_or]

/-- The map holds the hash of every configured key under its id. -/
theorem lookup_loadKeys (options : List (List Char)) (id : List Char) :
    (loadKeys sha256 options).lookup id = (configured options id).map (hashKey sha256 id) := by
  rw [loadKeys, lookup_foldl, List.lookup_nil, Option.none_or]

/-- What is expected of a client: the hash with its own id, or the hash of the key
for any connection, or nothing. -/
theorem getSessionKey_eq (options : List (List Char)) (id : List Char) :
    (sessionKeys sha256 options).getSessionKey id =
      match configured options id with
      | some key => hashKey sha256 id key
      | none =>
        match configured options [] with
        | some key => hashKey sha256 [] key
        | none => [] := by
  have hid := lookup_loadKeys sha256 options id
  have hany := lookup_loadKeys sha256 options []
  cases hconfigured : configured options [] with
  | none =>
      rw [hconfigured, Option.map_none] at hany
      rw [sessionKeys, SessionKeys.initKeys, hany, SessionKeys.getSessionKey, hid]
      cases configured options id <;> rfl
  | some any =>
      rw [hconfigured, Option.map_some] at hany
      rw [sessionKeys, SessionKeys.initKeys, hany, SessionKeys.getSessionKey, KeyMap.lookup_erase]
      by_cases hempty : id = []
      · rw [if_pos hempty, hempty, hconfigured]
      · rw [if_neg hempty, hid]
        cases configured options id <;> rfl

theorem sessionKeyRequired_iff (hdigest : ∀ text, sha256 text ≠ []) (options : List (List Char)) :
    (sessionKeys sha256 options).sessionKeyRequired = true ↔ options ≠ [] := by
  constructor
  · rintro hrequired rfl
    cases hrequired
  · intro hoptions
    obtain ⟨option, rest, rfl⟩ := List.exists_cons_of_ne_nil hoptions
    have hfirst : configured (option :: rest) (splitString option).1 =
        some (splitString option).2 := by
      rw [configured_cons, if_pos rfl]
    by_contra hfree
    rw [SessionKeys.sessionKeyRequired, Bool.or_eq_true, not_or, Bool.not_eq_true',
      Bool.not_eq_true', Bool.not_eq_false, Bool.not_eq_false, List.isEmpty_iff,
      List.isEmpty_iff] at hfree
    have hexpected := getSessionKey_eq sha256 (option :: rest) (splitString option).1
    rw [hfirst, SessionKeys.getSessionKey, hfree.1, hfree.2] at hexpected
    exact hdigest _ hexpected.symm

section Agreement

variable (hinjective : Function.Injective sha256) {options : List (List Char)} {id : List Char}
include hinjective

/-- A client whose id has a key is expected to know this key. -/
theorem keysAgree_of_own {own : List Char} (hid : configured options id = some own)
    (key : List Char) : KeysAgree sha256 options id key := by
  have hexpected := getSessionKey_eq sha256 options id
  simp only [hid] at hexpected
  have hplain : plainKey options id = some own := by rw [plainKey, hid, Option.some_or]
  constructor
  · rw [hexpected, hplain, Option.some_inj, hashKey, hashKey, hinjective.eq_iff,
      List.append_cancel_left_eq]
    exact eq_comm
  · intro _ hnone
    rw [hplain] at hnone
    cases hnone

/-- A client that leans on the key for any connection is expected to know what is
left of it behind the id. -/
theorem keysAgree_iff_of_any {any : List Char} (hid : configured options id = none)
    (hany : configured options [] = some any) (key : List Char) :
    KeysAgree sha256 options id key ↔ key ≠ any ∧ id ++ key ≠ any := by
  have hexpected := getSessionKey_eq sha256 options id
  simp only [hid, hany] at hexpected
  have hplain : plainKey options id = some any := by rw [plainKey, hid, hany, Option.none_or]
  have hnonempty : id ≠ [] := by
    rintro rfl
    rw [hany] at hid
    cases hid
  have hmatch : hashKey sha256 id key = (sessionKeys sha256 options).getSessionKey id ↔
      id ++ key = any := by
    rw [hexpected, hashKey, hashKey, hinjective.eq_iff, List.nil_append]
  have hright : plainKey options id = some key ↔ key = any := by
    rw [hplain, Option.some_inj]
    exact eq_comm
  constructor
  · intro hagree
    have hiff : id ++ key = any ↔ key = any := hmatch.symm.trans (hagree.right.trans hright)
    -- with an id in front the two cannot both be the key for any connection
    have hdifferent : key ≠ any := by
      rintro rfl
      exact hnonempty (List.append_left_eq_self.mp (hiff.mpr rfl))
    exact ⟨hdifferent, fun hcut => hdifferent (hiff.mp hcut)⟩
  · rintro ⟨hdifferent, hcut⟩
    constructor
    · rw [hmatch, hright]
      exact ⟨fun hsame => absurd hsame hcut, fun hsame => absurd hsame hdifferent⟩
    · intro _ hnone
      rw [hplain] at hnone
      cases hnone

end Agreement

theorem keysAgree_iff_of_unknown (hdigest : ∀ text, sha256 text ≠ []) {options : List (List Char)}
    {id : List Char} (hid : configured options id = none) (hany : configured options [] = none)
    (key : List Char) : KeysAgree sha256 options id key ↔ options = [] := by
  have hexpected := getSessionKey_eq sha256 options id
  simp only [hid, hany] at hexpected
  have hplain : plainKey options id = none := by rw [plainKey, hid, hany, Option.none_or]
  have hrequired := sessionKeyRequired_iff sha256 hdigest options
  constructor
  · intro hagree
    by_contra hoptions
    exact hagree.shut (hrequired.mpr hoptions) hplain [] fun _ => hexpected.symm
  · intro hnone
    constructor
    · rw [hexpected, hplain]
      constructor
      · exact fun hsame => absurd hsame (hdigest _)
      · exact fun hsome => absurd hsome.symm (Option.some_ne_none key)
    · exact fun hneeded => absurd hnone (hrequired.mp hneeded)

/-- **Key agreement, exactly.** The agent and a client agree if and only if no keys
are configured, or the client's id has one, or the client leans on the key for any
connection and presents neither this key nor what is left of it behind the id. -/
theorem keysAgree_iff (hinjective : Function.Injective sha256)
    (hdigest : ∀ text, sha256 text ≠ []) (options : List (List Char)) (id key : List Char) :
    KeysAgree sha256 options id key ↔
      options = [] ∨ (configured options id).isSome = true ∨
        ∃ any, configured options [] = some any ∧ key ≠ any ∧ id ++ key ≠ any := by
  cases hid : configured options id with
  | some own =>
      have hagree := keysAgree_of_own sha256 hinjective hid key
      exact ⟨fun _ => .inr (.inl rfl), fun _ => hagree⟩
  | none =>
      cases hany : configured options [] with
      | some any =>
          have hsome : options ≠ [] := by
            rintro rfl
            cases hany
          rw [keysAgree_iff_of_any sha256 hinjective hid hany]
          simp [hsome]
      | none =>
          rw [keysAgree_iff_of_unknown sha256 hdigest hid hany]
          simp

end Hash

/-- A digest that shows the text: injective, and never empty. -/
def plainDigest (text : List Char) : List Char := '#' :: text

/-- Two clients of an agent with one key of its own and one for any connection. -/
theorem keysAgree_iff_two_options :
    KeysAgree plainDigest ["cam:k1".toList, "k2".toList] "gate".toList "k1".toList ↔
      ["cam:k1".toList, "k2".toList] = [] ∨
        (configured ["cam:k1".toList, "k2".toList] "gate".toList).isSome = true ∨
        ∃ any, configured ["cam:k1".toList, "k2".toList] [] = some any ∧
          "k1".toList ≠ any ∧ "gate".toList ++ "k1".toList ≠ any :=
  keysAgree_iff plainDigest (fun _ _ hsame => (List.cons.inj hsame).2)
    (fun text => List.cons_ne_nil '#' text) _ _ _

/-- The key for any connection does not open for a client with an id. -/
theorem any_connection_locked_out :
    ¬ KeysAgree plainDigest ["secret".toList] "cam".toList "secret".toList := by
  intro hagree
  have hmatch := hagree.right.mpr (by decide)
  revert hmatch
  decide

end FerroRemote.Agent
