/-
`CUserDB`: the balances that a scan of the chain stores, one text for each key.

The text of a user is read byte by byte. A key without quotes and braces leaves
the nesting to the encoder, so such a user reads back as it was written, and the
database stands for a table of balances.
-/

import Safire.BranchBalances
import Safire.RecordEncoding

namespace Safire

open Text
open Search

/-! ### Users -/

structure User where
  publicKey : Text
  name : Text
  balance : Rat
  startDate : Int
  lastDate : Int
  deriving DecidableEq

/-- A `user_structure` as it is declared. -/
def User.fresh : User where
  publicKey := []
  name := []
  balance := 0
  startDate := 0
  lastDate := 0

def userJSON (env : Env) (user : User) : Text :=
  "\x7b\"user\":\x7b".toList ++
    jsonField "public_key" user.publicKey ++
    jsonField "name" user.name ++
    jsonField "balance" (env.doubleText user.balance) ++
    jsonField "start_date" (ofLong user.startDate) ++
    "\"last_date\":\"".toList ++ ofLong user.lastDate ++ "\"".toList ++
    "\x7d\x7d\x7d\n".toList

def readUser (env : Env) (content : Text) : User where
  publicKey := quotedSection content "public_key"
  name := quotedSection content "name"
  balance := parseSectionDouble env content "balance"
  startDate := parseSectionLong content "start_date"
  lastDate := parseSectionLong content "last_date"

/-- The loop over the bytes. It goes on after a closed section, at the same place
of what is left of the content. Its rounds are bounded by the first content. -/
def parseUserSections (env : Env) (start : Nat) : Nat → Nat → Int → Text → User → User
  | 0, _, _, _, user => user
  | rounds + 1, index, depth, content, user =>
      if content.length ≤ index then user
      else
        let byte := content[start + index]?
        let depth' :=
          if byte = some '\x7b' then depth + 1 else if byte = some '\x7d' then depth - 1 else depth
        if depth' = 0 then
          parseUserSections env start rounds (index + 1) depth' (content.drop (start + index))
            (readUser env (substr content start (index + 1)))
        else parseUserSections env start rounds (index + 1) depth' content user

def parseUserJson (env : Env) (content : Text) : User :=
  match find content ['\x7b'] 0 with
  | none => .fresh
  | some start => parseUserSections env start content.length 0 0 content .fresh

/-! ### The database -/

abbrev UserDb := TextMap Text

def userKey (publicKey : Text) : Text :=
  "u_".toList ++ publicKey

def userCountKey : Text :=
  "user_count".toList

def scannedBlockKey : Text :=
  "scanned_block_id".toList

def setScannedBlockId (users : UserDb) (number : Int) : UserDb :=
  users.insert scannedBlockKey (ofLong number)

/-- Only printed counts are stored. -/
def getUserCount (users : UserDb) : Int :=
  (parseLongValue (users.getD userCountKey [])).getD 0

def setUserCount (users : UserDb) (count : Int) : UserDb :=
  users.insert userCountKey (ofLong count)

def getUser (env : Env) (users : UserDb) (publicKey : Text) : User :=
  let json := users.getD (userKey publicKey) []
  if 0 < json.length then parseUserJson env json else .fresh

def setUser (env : Env) (users : UserDb) (user : User) : UserDb :=
  let json := users.getD (userKey user.publicKey) []
  let counted := if json.length = 0 then setUserCount users (getUserCount users + 1) else users
  counted.insert (userKey user.publicKey) (userJSON env user)

/-- The lines of a scan that add to the stored balance of a key. -/
def creditUser (env : Env) (users : UserDb) (publicKey : Text) (amount : Rat) : UserDb :=
  let user := getUser env users publicKey
  let named := if user.publicKey ≠ publicKey then { user with publicKey := publicKey } else user
  setUser env users { named with balance := named.balance + amount }

/-! ### Reading a user back -/

/-- The C library reads the printed amount back, and prints no quotes or braces. -/
structure Prints (env : Env) (amount : Rat) : Prop where
  plain : isPlain (env.doubleText amount) = true
  read : env.atof (env.doubleText amount) = amount

/-- A user that a scan writes: the key and the balance. -/
def User.account (publicKey : Text) (balance : Rat) : User :=
  { User.fresh with publicKey := publicKey, balance := balance }

def userFields (env : Env) (user : User) : List (String × Text) :=
  [("public_key", user.publicKey), ("name", user.name), ("balance", env.doubleText user.balance),
    ("start_date", ofLong user.startDate)]

def userFront : Text :=
  '\x7b' :: (tagText "user".toList [] ++ ['\x7b'])

def lastDateText (lastDate : Int) : Text :=
  tagText "last_date".toList ['"'] ++ (ofLong lastDate ++ ['"'])

theorem userJSON_eq (env : Env) (user : User) :
    userJSON env user =
      userFront ++ (fieldsText (userFields env user) ++
        (lastDateText user.lastDate ++ ['\x7d', '\x7d', '\x7d', '\n'])) := by
  have opening : "\x7b\"user\":\x7b".toList = userFront := rfl
  have dated : "\"last_date\":\"".toList = tagText "last_date".toList ['"'] := rfl
  have closing : "\"".toList ++ "\x7d\x7d\x7d\n".toList = ['"', '\x7d', '\x7d', '\x7d', '\n'] := rfl
  unfold userJSON userFields lastDateText fieldsText
  rw [opening, dated]
  simp only [List.append_assoc, closing, List.flatMap_cons, List.flatMap_nil, List.append_nil,
    List.cons_append, List.nil_append]

/-- Texts that the encoder of users keeps apart. -/
structure PlainUser (env : Env) (user : User) : Prop where
  key : isPlain user.publicKey = true
  name : isPlain user.name = true
  balance : isPlain (env.doubleText user.balance) = true
  dates : IsLong user.startDate ∧ IsLong user.lastDate

namespace PlainUser

variable {env : Env} {user : User} (plain : PlainUser env user)
include plain

theorem fields {field : String × Text} (member : field ∈ userFields env user) :
    isTagName field.1.toList = true ∧ field.1 ≠ "last_date" ∧ isPlain field.2 = true := by
  have names : ∀ name ∈ ["public_key", "name", "balance", "start_date"],
      isTagName name.toList = true ∧ name ≠ "last_date" := by
    decide
  have listed : field.1 ∈ ["public_key", "name", "balance", "start_date"] :=
    List.mem_map_of_mem member
  refine ⟨(names _ listed).1, (names _ listed).2, ?_⟩
  simp only [userFields, List.mem_cons, List.not_mem_nil, or_false] at member
  obtain rfl | rfl | rfl | rfl := member
  · exact plain.key
  · exact plain.name
  · exact plain.balance
  · exact isPlain_ofLong _

theorem readable : FieldsReadable (userFields env user) := by
  intro field member
  exact ⟨(plain.fields member).1, (isPlain_iff.mp (plain.fields member).2.2).1⟩

theorem braceFree_body :
    braceFree (fieldsText (userFields env user) ++ lastDateText user.lastDate) = true := by
  rw [braceFree_append]
  constructor
  · apply braceFree_fieldsText
    intro field member
    have names : ∀ name ∈ ["public_key", "name", "balance", "start_date"],
        braceFree name.toList = true := by
      decide
    exact ⟨names _ (List.mem_map_of_mem member),
      (isPlain_iff.mp (plain.fields member).2.2).2⟩
  · rw [lastDateText, braceFree_append, braceFree_append]
    exact ⟨by decide, (isPlain_iff.mp (isPlain_ofLong _)).2, by decide⟩

/-- The section that the reader cuts out shows every field. -/
theorem readUser_section (read : env.atof (env.doubleText user.balance) = user.balance)
    (rest : Text) :
    readUser env (userFront ++ (fieldsText (userFields env user) ++
      (lastDateText user.lastDate ++ rest))) = user := by
  have front : ∀ name, isTagName name = true → name ≠ "user".toList → ∀ later,
      Clear (tagText name ['"']) userFront later := by
    intro name named other later
    have pieces : userFront = ['\x7b'] ++ (('"' :: "user".toList) ++ ('"' :: [':', '\x7b'])) := rfl
    rw [pieces]
    apply Clear.append (clear_of_notMem (by decide))
    apply Clear.append
    · exact clear_piece named rfl fun same => absurd same other
    · exact clear_punctuation named rfl rfl
  have lookup : ∀ name value, (userFields env user).lookup name = some value →
      isTagName name.toList = true → name.toList ≠ "user".toList →
      quotedSection (userFront ++ (fieldsText (userFields env user) ++
        (lastDateText user.lastDate ++ rest))) name = value := by
    intro name value found named other
    exact quotedSection_lookup found named plain.readable (front _ named other)
  have last : quotedSection (userFront ++ (fieldsText (userFields env user) ++
      (lastDateText user.lastDate ++ rest))) "last_date" = ofLong user.lastDate := by
    have split : userFront ++ (fieldsText (userFields env user) ++
        (lastDateText user.lastDate ++ rest)) =
          (userFront ++ fieldsText (userFields env user)) ++
            (tagText "last_date".toList ['"'] ++ (ofLong user.lastDate ++ '"' :: rest)) := by
      simp only [lastDateText, List.append_assoc, List.cons_append, List.nil_append]
    rw [split]
    apply quotedSection_of_clear
    · apply Clear.append (front _ rfl (by decide) _)
      apply clear_fieldsText rfl plain.readable
      intro field member same
      exact (plain.fields member).2.1 (String.toList_inj.mp same).symm
    · exact (isPlain_iff.mp (isPlain_ofLong _)).1
  unfold readUser parseSectionDouble parseSectionLong
  rw [lookup "public_key" user.publicKey rfl rfl (by decide), lookup "name" user.name rfl rfl (by decide),
    lookup "balance" (env.doubleText user.balance) rfl rfl (by decide),
    lookup "start_date" (ofLong user.startDate) rfl rfl (by decide), last, read,
    atol_ofLong plain.dates.1, atol_ofLong plain.dates.2]

end PlainUser

/-! ### The byte loop -/

section Loop

variable {env : Env} {user : User} {content after : Text} {depth : Int} (before : Text)

/-- Bytes without braces leave the depth alone. -/
theorem parseUserSections_plain {text : Text} (free : braceFree text = true) (inside : depth ≠ 0)
    (rounds : Nat) (split : content = before ++ (text ++ after)) :
    parseUserSections env 0 (rounds + text.length) before.length depth content user =
      parseUserSections env 0 rounds (before.length + text.length) depth content user := by
  induction text generalizing before with
  | nil => rfl
  | cons byte text ih =>
      rw [braceFree_iff, List.mem_cons, List.mem_cons, not_or, not_or] at free
      obtain ⟨⟨notOpen, laterOpen⟩, notClose, laterClose⟩ := free
      have here : content[0 + before.length]? = some byte := by
        rw [split, Nat.zero_add, List.getElem?_append_right (le_refl _), Nat.sub_self]
        rfl
      have present : ¬ content.length ≤ before.length := by
        rw [split, List.length_append, List.cons_append, List.length_cons]
        omega
      have later := ih (before ++ [byte]) (braceFree_iff.mpr ⟨laterOpen, laterClose⟩)
        (by rw [split, List.append_assoc]; rfl)
      rw [List.length_append, List.length_singleton] at later
      have kept : (if some byte = some '\x7b' then depth + 1
          else if some byte = some '\x7d' then depth - 1 else depth) = depth := by
        rw [if_neg (by simpa using Ne.symm notOpen), if_neg (by simpa using Ne.symm notClose)]
      rw [List.length_cons, ← Nat.add_assoc, parseUserSections, if_neg present]
      dsimp only
      rw [here, kept, if_neg inside, later, Nat.add_assoc, Nat.add_comm 1]

theorem parseUserSections_open (nonnegative : 0 ≤ depth) (rounds : Nat)
    (split : content = before ++ '\x7b' :: after) :
    parseUserSections env 0 (rounds + 1) before.length depth content user =
      parseUserSections env 0 rounds (before.length + 1) (depth + 1) content user := by
  have here : content[0 + before.length]? = some '\x7b' := by
    rw [split, Nat.zero_add, List.getElem?_append_right (le_refl _), Nat.sub_self]
    rfl
  have present : ¬ content.length ≤ before.length := by
    rw [split, List.length_append, List.length_cons]
    omega
  have deeper : (if some '\x7b' = some '\x7b' then depth + 1
      else if some '\x7b' = some '\x7d' then depth - 1 else depth) = depth + 1 := if_pos rfl
  rw [parseUserSections, if_neg present]
  dsimp only
  rw [here, deeper, if_neg (by omega)]

theorem parseUserSections_close (rounds : Nat) (split : content = before ++ '\x7d' :: after) :
    parseUserSections env 0 (rounds + 1) before.length depth content user =
      if depth - 1 = 0 then
        parseUserSections env 0 rounds (before.length + 1) 0 ('\x7d' :: after)
          (readUser env (before ++ ['\x7d']))
      else parseUserSections env 0 rounds (before.length + 1) (depth - 1) content user := by
  have here : content[0 + before.length]? = some '\x7d' := by
    rw [split, Nat.zero_add, List.getElem?_append_right (le_refl _), Nat.sub_self]
    rfl
  have present : ¬ content.length ≤ before.length := by
    rw [split, List.length_append, List.length_cons]
    omega
  have cut : substr content 0 (before.length + 1) = before ++ ['\x7d'] := by
    rw [substr, split, List.drop_zero, List.take_append, List.take_of_length_le (by omega),
      Nat.add_sub_cancel_left]
    rfl
  have left : content.drop (0 + before.length) = '\x7d' :: after := by
    rw [split, Nat.zero_add, List.drop_left]
  have shallower : (if some '\x7d' = some '\x7b' then depth + 1
      else if some '\x7d' = some '\x7d' then depth - 1 else depth) = depth - 1 := by
    rw [if_neg (by decide), if_pos rfl]
  rw [parseUserSections, if_neg present]
  dsimp only
  rw [here, shallower]
  split
  · rename_i closed
    rw [closed, cut, left]
  · rfl

end Loop

/-- A plain user reads back as it was written. -/
theorem parseUserJson_userJSON {env : Env} {user : User} (plain : PlainUser env user)
    (read : env.atof (env.doubleText user.balance) = user.balance) :
    parseUserJson env (userJSON env user) = user := by
  let body := fieldsText (userFields env user) ++ lastDateText user.lastDate
  let tag := tagText "user".toList []
  have content : userJSON env user =
      '\x7b' :: (tag ++ '\x7b' :: (body ++ ['\x7d', '\x7d', '\x7d', '\n'])) := by
    rw [userJSON_eq]
    simp only [userFront, body, tag, List.cons_append, List.append_assoc, List.nil_append]
  have found : find (userJSON env user) ['\x7b'] 0 = some 0 := by
    rw [content]
    rfl
  have rounds : (userJSON env user).length = 4 + body.length + 1 + tag.length + 1 := by
    rw [content]
    simp only [List.length_cons, List.length_append, List.length_nil]
    omega
  -- the two opening braces and what stands between and after them
  have opened : parseUserSections env 0 (4 + body.length + 1 + tag.length + 1) 0 0
      (userJSON env user) .fresh =
        parseUserSections env 0 (4 + body.length + 1 + tag.length) 1 1 (userJSON env user) .fresh :=
    parseUserSections_open [] (le_refl 0) _ content
  have tagged : parseUserSections env 0 (4 + body.length + 1 + tag.length) 1 1
      (userJSON env user) .fresh =
        parseUserSections env 0 (4 + body.length + 1) (1 + tag.length) 1 (userJSON env user)
          .fresh :=
    parseUserSections_plain ['\x7b'] (by decide : braceFree tag = true) (by decide) _
      content
  have inner : parseUserSections env 0 (4 + body.length + 1) (tag.length + 1) 1
      (userJSON env user) .fresh =
        parseUserSections env 0 (4 + body.length) (tag.length + 1 + 1) 2 (userJSON env user)
          .fresh :=
    parseUserSections_open ('\x7b' :: tag) (by decide) _ content
  have front : (userFront).length = tag.length + 1 + 1 := by decide
  have passed : parseUserSections env 0 (4 + body.length) userFront.length 2
      (userJSON env user) .fresh =
        parseUserSections env 0 4 (userFront.length + body.length) 2 (userJSON env user) .fresh := by
    have split : userJSON env user = userFront ++ (body ++ ['\x7d', '\x7d', '\x7d', '\n']) := by
      rw [userJSON_eq]
      simp only [body, List.append_assoc]
    exact parseUserSections_plain userFront plain.braceFree_body (by decide) 4 split
  -- the first closing brace leaves the object open, the second one ends it
  have outer : userJSON env user = (userFront ++ body) ++ '\x7d' :: ['\x7d', '\x7d', '\n'] := by
    rw [userJSON_eq]
    simp only [body, List.append_assoc]
  have closed : parseUserSections env 0 4 (userFront.length + body.length) 2
      (userJSON env user) .fresh =
        parseUserSections env 0 3 (userFront.length + body.length + 1) 1 (userJSON env user)
          .fresh := by
    rw [← List.length_append, parseUserSections_close (userFront ++ body) 3 outer, if_neg (by decide)]
    rfl
  have last : parseUserSections env 0 3 (userFront.length + body.length + 1) 1
      (userJSON env user) .fresh =
        parseUserSections env 0 2 (userFront.length + body.length + 1 + 1) 0
          ['\x7d', '\x7d', '\n']
          (readUser env (userFront ++ body ++ ['\x7d'] ++ ['\x7d'])) := by
    have split : userJSON env user =
        (userFront ++ body ++ ['\x7d']) ++ '\x7d' :: ['\x7d', '\n'] := by
      rw [outer]
      simp only [List.append_assoc, List.cons_append, List.nil_append]
    have place : userFront.length + body.length + 1 = (userFront ++ body ++ ['\x7d']).length := by
      simp only [List.length_append, List.length_singleton]
    rw [place, parseUserSections_close _ 2 split, if_pos (by decide)]
  have ended : ∀ read, parseUserSections env 0 2 (userFront.length + body.length + 1 + 1) 0
      ['\x7d', '\x7d', '\n'] read = read := by
    intro read
    rw [parseUserSections, if_pos]
    rw [front]
    simp only [List.length_cons, List.length_nil]
    omega
  rw [parseUserJson, found, rounds]
  dsimp only
  rw [opened, tagged, Nat.add_comm 1, inner, ← front, passed, closed, last, ended]
  have cut : userFront ++ body ++ ['\x7d'] ++ ['\x7d'] = userFront ++
      (fieldsText (userFields env user) ++ (lastDateText user.lastDate ++ ['\x7d', '\x7d'])) := by
    simp only [body, List.append_assoc, List.cons_append, List.nil_append]
  rw [cut, plain.readUser_section read]

theorem plainUser_account {env : Env} {key : Text} {balance : Rat} (plain : isPlain key = true)
    (prints : Prints env balance) : PlainUser env (.account key balance) where
  key := plain
  name := rfl
  balance := prints.plain
  dates := ⟨(by decide : IsLong 0), (by decide : IsLong 0)⟩

/-! ### Reads and writes -/

section Writes

variable {env : Env} {users : UserDb} {key other text value : Text} {balance : Rat} {user : User}

theorem getElem?_insertText :
    (users.insert text value)[other]? = if text = other then some value else users[other]? := by
  rw [Std.ExtTreeMap.getElem?_insert]
  by_cases same : text = other
  · rw [if_pos same, if_pos (by simpa using same)]
  · rw [if_neg same, if_neg (by simpa using same)]

theorem userKey_injective (same : userKey key = userKey other) : key = other :=
  List.append_cancel_left same

theorem userCountKey_ne (key : Text) : userCountKey ≠ userKey key := by
  intro same
  have letters : 'u' :: 's' :: "er_count".toList = 'u' :: '_' :: key := same
  exact absurd (List.cons.inj (List.cons.inj letters).2).1 (by decide)

theorem scannedBlockKey_ne (key : Text) : scannedBlockKey ≠ userKey key := by
  intro same
  have letters : 's' :: "canned_block_id".toList = 'u' :: '_' :: key := same
  exact absurd (List.cons.inj letters).1 (by decide)

theorem userJSON_ne_nil (env : Env) (user : User) : userJSON env user ≠ [] := by
  rw [userJSON_eq]
  exact List.cons_ne_nil _ _

theorem getUser_of_absent (absent : users[userKey key]? = none) : getUser env users key = .fresh := by
  have none : users.getD (userKey key) [] = [] := by
    rw [Std.ExtTreeMap.getD_eq_getD_getElem?, absent]
    rfl
  rw [getUser, none]
  rfl

theorem getUser_of_stored (stored : users[userKey key]? = some (userJSON env (.account key balance)))
    (plain : isPlain key = true) (prints : Prints env balance) :
    getUser env users key = .account key balance := by
  have found : users.getD (userKey key) [] = userJSON env (.account key balance) := by
    rw [Std.ExtTreeMap.getD_eq_getD_getElem?, stored]
    rfl
  have present := List.length_pos_iff.mpr (userJSON_ne_nil env (.account key balance))
  rw [getUser, found, if_pos present]
  exact parseUserJson_userJSON (plainUser_account plain prints) prints.read

/-- A user that is stored as it is written again leaves the database alone. -/
theorem setUser_of_stored (stored : users[userKey user.publicKey]? = some (userJSON env user)) :
    setUser env users user = users := by
  have found : users.getD (userKey user.publicKey) [] = userJSON env user := by
    rw [Std.ExtTreeMap.getD_eq_getD_getElem?, stored]
    rfl
  have present : ¬ (userJSON env user).length = 0 := by
    rw [List.length_eq_zero_iff]
    exact userJSON_ne_nil env user
  rw [setUser, found, if_neg present]
  apply Std.ExtTreeMap.ext_getElem?
  intro text
  rw [getElem?_insertText]
  split
  · rename_i same
    rw [← same, stored]
  · rfl

theorem getElem?_setUser_user (env : Env) (users : UserDb) (user : User) (key : Text) :
    (setUser env users user)[userKey key]? =
      if user.publicKey = key then some (userJSON env user) else users[userKey key]? := by
  have counted : (if (users.getD (userKey user.publicKey) []).length = 0 then
      setUserCount users (getUserCount users + 1) else users)[userKey key]? =
        users[userKey key]? := by
    split
    · rw [setUserCount, getElem?_insertText, if_neg (userCountKey_ne key)]
    · rfl
  rw [setUser, getElem?_insertText]
  by_cases same : user.publicKey = key
  · rw [if_pos (by rw [same]), if_pos same]
  · rw [if_neg fun equal => same (userKey_injective equal), if_neg same, counted]

/-- The lines of the scan write the user with the balance that they found, and the amount. -/
theorem creditUser_eq (found : getUser env users key = .fresh ∧ balance = 0 ∨
    getUser env users key = .account key balance) (amount : Rat) :
    creditUser env users key amount = setUser env users (.account key (balance + amount)) := by
  rw [creditUser]
  cases found with
  | inl fresh =>
      rw [fresh.1, fresh.2]
      by_cases empty : User.fresh.publicKey ≠ key
      · rw [if_pos empty]
        rfl
      · rw [if_neg empty, ← not_ne_iff.mp empty]
        rfl
  | inr stored =>
      have own : ¬ (User.account key balance).publicKey ≠ key := not_ne_iff.mpr rfl
      rw [stored, if_neg own]
      rfl

end Writes

end Safire
