/-
Records and blocks on their way to another node.

A record or a block is posted as the body of a request and, where that is refused,
sent as a query parameter. The receiver looks for the parameter in the body and
for an ampersand behind the parameter in the decoded path, so both routes hand on
the same text only if no field holds either.
-/

import Safire.BlockEncoding

namespace Safire

open Text

/-! ### Encoding -/

/-- The text of `curl_easy_escape`, or none where it fails. -/
def urlEncode (curlEasyEscape : Text → Option Text) (value : Text) : Text :=
  (curlEasyEscape value).getD []

/-! ### Decoding -/

def hexDigit (byte : Char) : Option Nat :=
  if byte.isDigit then some (byte.toNat - '0'.toNat)
  else if 'a' ≤ byte ∧ byte ≤ 'f' then some (byte.toNat - 'a'.toNat + 10)
  else if 'A' ≤ byte ∧ byte ≤ 'F' then some (byte.toNat - 'A'.toNat + 10)
  else none

def dropHexPrefix : Text → Text
  | '0' :: 'x' :: rest => rest
  | '0' :: 'X' :: rest => rest
  | rest => rest

/-- `stream >> std::hex >> value`, on a text too short to overflow. -/
def readHex (content : Text) : Option Int :=
  let (negative, unsigned) := splitSign (content.dropWhile isSpace)
  let digits := (dropHexPrefix unsigned).takeWhile (fun byte => (hexDigit byte).isSome)
  if digits = [] then none
  else
    let magnitude : Int :=
      (digits.filterMap hexDigit).foldl (fun value digit => 16 * value + (digit : Int)) 0
    some (if negative then -magnitude else magnitude)

/-- `static_cast<char>(value)`. -/
def byteOf (value : Int) : Char :=
  Char.ofNat (value % 256).toNat

/-- The loop of both decoders, with `none` for `false`. -/
def percentDecode : Text → Option Text
  | [] => some []
  | byte :: rest =>
      if byte = '%' then
        match rest with
        | high :: low :: later =>
            (readHex [high, low]).bind fun value => (percentDecode later).map (byteOf value :: ·)
        | _ => none
      else if byte = '+' then (percentDecode rest).map (' ' :: ·)
      else (percentDecode rest).map (byte :: ·)

namespace RequestHandler

def urlDecode (content : Text) : Option Text :=
  percentDecode content

def formUrlDecode (content : Text) : Option Text :=
  percentDecode content

/-! ### Requests -/

structure Request where
  method : Text
  uri : Text
  body : Text

/-- The text behind the first token, up to the next ampersand. -/
def valueFrom (content : Text) (start : Nat) : Text :=
  let stop := (find content ['&'] start).getD content.length
  substr content start (stop - start)

def queryValue (path key : Text) : Text :=
  let token := key ++ ['=']
  match find path ['?'] 0 with
  | none => []
  | some queryStart =>
      match find path token (queryStart + 1) with
      | none => []
      | some valueStart => valueFrom path (valueStart + token.length)

def submittedValue (request : Request) (requestPath key : Text) : Text :=
  if request.method = "POST".toList ∧ request.body ≠ [] then
    let token := key ++ ['=']
    match find request.body token 0 with
    | some valueStart =>
        let encodedValue := valueFrom request.body (valueStart + token.length)
        (formUrlDecode encodedValue).getD encodedValue
    | none => request.body
  else queryValue requestPath key

/-- What the handler reads, or none for a bad request. -/
def receive (request : Request) (key : Text) : Option Text :=
  (urlDecode request.uri).map (fun requestPath => submittedValue request requestPath key)

end RequestHandler

namespace LocalPeerClient

open RequestHandler

/-- `httpPost(peer + path, body)`. -/
def postRequest (path body : Text) : Request :=
  { method := "POST".toList, uri := path, body := body }

/-- `httpGet(peer + path + "?" + key + "=" + urlEncode(value))`. -/
def getRequest (curlEasyEscape : Text → Option Text) (path key value : Text) : Request :=
  { method := "GET".toList
    uri := path ++ '?' :: (key ++ '=' :: urlEncode curlEasyEscape value)
    body := [] }

end LocalPeerClient

/-! ### Decoding what was encoded -/

/-- One character for each byte. -/
def Bytes (content : Text) : Prop :=
  ∀ byte ∈ content, byte.toNat < 256

instance (content : Text) : Decidable (Bytes content) :=
  decidable_of_iff (content.all (fun byte => decide (byte.toNat < 256)) = true)
    (by simp [Bytes, List.all_eq_true])

/-- The unreserved characters. -/
def isUnreserved (byte : Char) : Bool :=
  byte.isAlphanum || byte = '-' || byte = '.' || byte = '_' || byte = '~'

/-- What the library documents of the escaping: the unreserved characters stay, and every
other byte becomes a percent sign and its two hexadecimal digits. -/
structure EscapesBytes (curlEasyEscape : Text → Option Text) : Prop where
  nil : curlEasyEscape [] = some []
  unreserved : ∀ byte rest, isUnreserved byte = true →
    curlEasyEscape (byte :: rest) = (curlEasyEscape rest).map (byte :: ·)
  reserved : ∀ byte rest, isUnreserved byte = false → byte.toNat < 256 → ∃ high low,
    hexDigit high = some (byte.toNat / 16) ∧ hexDigit low = some (byte.toNat % 16) ∧
      curlEasyEscape (byte :: rest) = (curlEasyEscape rest).map (['%', high, low] ++ ·)

/-- Neither spaces nor signs nor the hexadecimal mark are digits. -/
theorem not_hexDigit :
    ∀ byte ∈ [' ', '\t', '\n', '\x0b', '\x0c', '\r', '-', '+', 'x', 'X'], hexDigit byte = none := by
  simp [hexDigit]

theorem splitSign_of_unsigned {byte : Char} {rest : Text} (minus : byte ≠ '-') (plus : byte ≠ '+') :
    splitSign (byte :: rest) = (false, byte :: rest) := by
  rw [splitSign]
  · exact fun tail same => minus (List.cons.inj same).1
  · exact fun tail same => plus (List.cons.inj same).1

theorem dropHexPrefix_of_ne {first second : Char} {rest : Text} (lower : second ≠ 'x')
    (upper : second ≠ 'X') : dropHexPrefix (first :: second :: rest) = first :: second :: rest := by
  rw [dropHexPrefix]
  · intro tail same
    injection same with _ same
    exact lower (List.cons.inj same).1
  · intro tail same
    injection same with _ same
    exact upper (List.cons.inj same).1

/-- Two digits read as their value. -/
theorem readHex_pair {high low : Char} {front back : Nat} (first : hexDigit high = some front)
    (second : hexDigit low = some back) : readHex [high, low] = some ((16 * front + back : Nat) : Int) := by
  have apart : ∀ {digit : Char} {value : Nat}, hexDigit digit = some value →
      ∀ byte ∈ [' ', '\t', '\n', '\x0b', '\x0c', '\r', '-', '+', 'x', 'X'], digit ≠ byte := by
    rintro digit value known byte listed rfl
    rw [not_hexDigit digit listed] at known
    cases known
  have spaceless : isSpace high = false := by
    have other := apart first
    simp only [List.forall_mem_cons] at other
    simp [isSpace, other]
  have unsigned := @splitSign_of_unsigned high [low] (apart first '-' (by simp))
    (apart first '+' (by simp))
  rw [readHex, List.dropWhile_cons_of_neg (by rw [spaceless]; decide), unsigned]
  dsimp only
  rw [dropHexPrefix_of_ne (apart second 'x' (by simp)) (apart second 'X' (by simp))]
  simp [first, second]

theorem percentDecode_plain {byte : Char} {rest : Text} (notPercent : byte ≠ '%')
    (notPlus : byte ≠ '+') :
    percentDecode (byte :: rest) = (percentDecode rest).map (byte :: ·) := by
  rw [percentDecode.eq_def]
  dsimp only
  rw [if_neg notPercent, if_neg notPlus]

theorem isUnreserved_ne {byte : Char} (unreserved : isUnreserved byte = true) :
    byte ≠ '%' ∧ byte ≠ '+' := by
  constructor
  · intro same
    rw [same] at unreserved
    exact absurd unreserved (by decide)
  · intro same
    rw [same] at unreserved
    exact absurd unreserved (by decide)

theorem percentDecode_pair {byte high low : Char} {rest : Text} (small : byte.toNat < 256)
    (first : hexDigit high = some (byte.toNat / 16))
    (second : hexDigit low = some (byte.toNat % 16)) :
    percentDecode ('%' :: high :: low :: rest) = (percentDecode rest).map (byte :: ·) := by
  have whole : 16 * (byte.toNat / 16) + byte.toNat % 16 = byte.toNat := Nat.div_add_mod _ _
  have value : byteOf (byte.toNat : Int) = byte := by
    have same : ((byte.toNat : Int) % 256).toNat = byte.toNat := by omega
    rw [byteOf, same, Char.ofNat_toNat]
  rw [percentDecode, if_pos rfl, readHex_pair first second, whole, Option.bind_some, value]

/-- The escaping of bytes succeeds, and the decoder reads the bytes back. -/
theorem EscapesBytes.percentDecode_urlEncode {curlEasyEscape : Text → Option Text}
    (escapes : EscapesBytes curlEasyEscape) {value : Text} (bytes : Bytes value) :
    percentDecode (urlEncode curlEasyEscape value) = some value := by
  have decoded : ∃ escaped, curlEasyEscape value = some escaped ∧
      percentDecode escaped = some value := by
    induction value with
    | nil => exact ⟨[], escapes.nil, rfl⟩
    | cons byte rest ih =>
        obtain ⟨escaped, found, read⟩ := ih fun other member => bytes other (List.mem_cons_of_mem _ member)
        cases kept : isUnreserved byte with
        | true =>
            obtain ⟨notPercent, notPlus⟩ := isUnreserved_ne kept
            refine ⟨byte :: escaped, ?_, ?_⟩
            · rw [escapes.unreserved byte rest kept, found, Option.map_some]
            · rw [percentDecode_plain notPercent notPlus, read, Option.map_some]
        | false =>
            have small := bytes byte List.mem_cons_self
            obtain ⟨high, low, first, second, escape⟩ := escapes.reserved byte rest kept small
            refine ⟨'%' :: high :: low :: escaped, ?_, ?_⟩
            · rw [escape, found, Option.map_some]
              rfl
            · rw [percentDecode_pair small first second, read, Option.map_some]
  obtain ⟨escaped, found, read⟩ := decoded
  rw [urlEncode, found, Option.getD_some, read]

theorem percentDecode_append {front rest : Text} (plain : ∀ byte ∈ front, byte ≠ '%' ∧ byte ≠ '+') :
    percentDecode (front ++ rest) = (percentDecode rest).map (front ++ ·) := by
  induction front with
  | nil =>
      rw [List.nil_append]
      exact Option.map_id'.symm
  | cons byte front ih =>
      obtain ⟨notPercent, notPlus⟩ := plain byte List.mem_cons_self
      rw [List.cons_append, percentDecode_plain notPercent notPlus,
        ih fun other member => plain other (List.mem_cons_of_mem _ member), Option.map_map]
      rfl

theorem length_percentDecode {content decoded : Text} (read : percentDecode content = some decoded) :
    decoded.length ≤ content.length := by
  induction content using percentDecode.induct generalizing decoded with
  | case1 =>
      cases read
      exact le_refl _
  | case2 high low later ih =>
      rw [percentDecode, if_pos rfl, Option.bind_eq_some_iff] at read
      obtain ⟨value, -, tail⟩ := read
      obtain ⟨inner, inside, rfl⟩ := Option.map_eq_some_iff.mp tail
      have shorter := ih inside
      simp only [List.length_cons]
      omega
  | case3 rest short =>
      rw [percentDecode.eq_def] at read
      dsimp only at read
      rw [if_pos rfl] at read
      split at read
      · exact absurd rfl (short _ _ _)
      · cases read
  | case4 rest notPercent ih =>
      rw [percentDecode.eq_def] at read
      dsimp only at read
      rw [if_neg notPercent, if_pos rfl] at read
      obtain ⟨inner, inside, rfl⟩ := Option.map_eq_some_iff.mp read
      exact Nat.succ_le_succ (ih inside)
  | case5 byte rest notPercent notPlus ih =>
      rw [percentDecode_plain notPercent notPlus] at read
      obtain ⟨inner, inside, rfl⟩ := Option.map_eq_some_iff.mp read
      exact Nat.succ_le_succ (ih inside)

/-! ### The two routes -/

namespace RequestHandler

open LocalPeerClient

variable {key value : Text}

theorem length_valueFrom_lt {content : Text} {start : Nat} (present : content ≠ [])
    (later : 0 < start) : (valueFrom content start).length < content.length := by
  have positive := List.length_pos_iff.mpr present
  rw [valueFrom, substr, List.length_take, List.length_drop]
  omega

theorem percentDecode_of_plain {content : Text} (plain : ∀ byte ∈ content, byte ≠ '%' ∧ byte ≠ '+') :
    percentDecode content = some content := by
  have read : percentDecode (content ++ []) = (percentDecode []).map (content ++ ·) :=
    percentDecode_append plain
  rwa [List.append_nil, percentDecode, Option.map_some, List.append_nil] at read

/-- The body is handed on whole unless it holds the token. -/
theorem receive_post_iff {path : Text} (plain : ∀ byte ∈ path, byte ≠ '%' ∧ byte ≠ '+')
    (present : value ≠ []) :
    receive (postRequest path value) key = some value ↔ ¬ key ++ ['='] <:+: value := by
  have token : key ++ ['='] ≠ [] := List.append_ne_nil_of_right_ne_nil _ (List.cons_ne_nil _ _)
  have decoded : receive (postRequest path value) key =
      some (submittedValue (postRequest path value) path key) := by
    rw [receive, urlDecode, postRequest, percentDecode_of_plain plain, Option.map_some]
  have missing : find value (key ++ ['=']) 0 = none ↔ ¬ key ++ ['='] <:+: value.drop 0 :=
    find_none_iff token
  rw [List.drop_zero] at missing
  rw [decoded, Option.some_inj, ← missing, submittedValue, if_pos ⟨rfl, present⟩]
  dsimp only [postRequest]
  cases found : find value (key ++ ['=']) 0 with
  | none => exact ⟨fun _ => rfl, fun _ => rfl⟩
  | some valueStart =>
      dsimp only
      constructor
      · intro same
        have shorter : (valueFrom value (valueStart + (key ++ ['=']).length)).length <
            value.length :=
          length_valueFrom_lt present (Nat.add_pos_right _ (List.length_pos_iff.mpr token))
        -- Neither the encoded value nor the decoded one is as long as the body.
        cases read : formUrlDecode (valueFrom value (valueStart + (key ++ ['=']).length)) with
        | none =>
            rw [read, Option.getD_none] at same
            rw [same] at shorter
            exact absurd shorter (lt_irrefl _)
        | some decodedValue =>
            have bound := length_percentDecode read
            rw [read, Option.getD_some] at same
            rw [same] at bound
            omega
      · intro none
        cases none

theorem queryValue_eq {path : Text} (noQuestion : '?' ∉ path) :
    queryValue (path ++ '?' :: (key ++ '=' :: value)) key =
      valueFrom (path ++ '?' :: (key ++ '=' :: value)) (path.length + 1 + (key ++ ['=']).length) := by
  have question : find (path ++ '?' :: (key ++ '=' :: value)) ['?'] 0 = some path.length := by
    have split : (path ++ '?' :: (key ++ '=' :: value)).drop 0 =
        path ++ (['?'] ++ (key ++ '=' :: value)) := rfl
    have found := find_of_clear split (Search.clear_of_notMem noQuestion)
    rwa [Nat.zero_add] at found
  have token : find (path ++ '?' :: (key ++ '=' :: value)) (key ++ ['=']) (path.length + 1) =
      some (path.length + 1) := by
    have after : (path ++ '?' :: (key ++ '=' :: value)).drop (path.length + 1) =
        [] ++ ((key ++ ['=']) ++ value) := by
      rw [List.append_cons, List.drop_left' (by rw [List.length_append, List.length_singleton])]
      simp
    exact find_of_clear after Search.clear_nil
  rw [queryValue, question]
  dsimp only
  rw [token]

/-- The value behind a front is read up to its first ampersand. -/
theorem valueFrom_front_iff (front : Text) :
    valueFrom (front ++ value) front.length = value ↔ '&' ∉ value := by
  have after : (front ++ value).drop front.length = value := List.drop_left
  by_cases inside : '&' ∈ value
  · obtain ⟨before, rest, split, free⟩ := List.eq_append_cons_of_mem inside
    have found : find (front ++ value) ['&'] front.length = some (front.length + before.length) :=
      find_of_clear (by rw [after, split]; rfl) (Search.clear_of_notMem free)
    constructor
    · intro same
      rw [valueFrom, found, Option.getD_some, Nat.add_sub_cancel_left, substr, after] at same
      have length := congrArg List.length same
      rw [List.length_take, split, List.length_append, List.length_cons] at length
      omega
    · intro absent
      exact absurd inside absent
  · have missing : find (front ++ value) ['&'] front.length = none := by
      rw [find_none_iff (List.cons_ne_nil _ _), after, List.singleton_infix_iff]
      exact inside
    rw [valueFrom, missing, Option.getD_none, substr, after, List.length_append,
      Nat.add_sub_cancel_left, List.take_length]
    exact ⟨fun _ => inside, fun _ => rfl⟩

/-- The query parameter is handed on whole unless it holds an ampersand. -/
theorem receive_get_iff {curlEasyEscape : Text → Option Text}
    (escapes : EscapesBytes curlEasyEscape) {path : Text} (bytes : Bytes value) (noQuestion : '?' ∉ path)
    (plain : ∀ byte ∈ path ++ '?' :: (key ++ ['=']), byte ≠ '%' ∧ byte ≠ '+') :
    receive (getRequest curlEasyEscape path key value) key = some value ↔ '&' ∉ value := by
  have uri : path ++ '?' :: (key ++ '=' :: urlEncode curlEasyEscape value) =
      (path ++ '?' :: (key ++ ['='])) ++ urlEncode curlEasyEscape value := by simp
  have decoded : percentDecode (path ++ '?' :: (key ++ '=' :: urlEncode curlEasyEscape value)) =
      some (path ++ '?' :: (key ++ '=' :: value)) := by
    rw [uri, percentDecode_append plain, escapes.percentDecode_urlEncode bytes]
    simp
  have front : path.length + 1 + (key ++ ['=']).length = (path ++ '?' :: (key ++ ['='])).length := by
    simp only [List.length_append, List.length_cons]
    omega
  have split : path ++ '?' :: (key ++ '=' :: value) = (path ++ '?' :: (key ++ ['='])) ++ value := by
    simp
  rw [receive, urlDecode, getRequest, decoded, Option.map_some, Option.some_inj, submittedValue,
    if_neg (fun both => both.2 rfl), queryValue_eq noQuestion, front, split]
  exact valueFrom_front_iff _

end RequestHandler

/-! ### Texts inside the fields -/

/-- The characters between the names and the values. -/
def punctuation : List Char :=
  ['"', ',', ':', ' ', '\n', '\x7b', '\x7d']

/-- What the encoders write around the fields has no such text. -/
structure Foreign (needle : Text) : Prop where
  marked : '&' ∈ needle ∨ '=' ∈ needle
  apart : ∀ byte ∈ punctuation, byte ∉ needle

theorem foreign_ampersand : Foreign ['&'] where
  marked := .inl List.mem_cons_self
  apart := by simp [punctuation]

section Inside

variable {needle : Text} (foreign : Foreign needle)
include foreign

theorem Foreign.present : needle ≠ [] := by
  intro empty
  have marked := foreign.marked
  rw [empty] at marked
  simp at marked

theorem Foreign.punctuation_cons_iff {byte : Char} {rest : Text}
    (listed : byte ∈ punctuation) : needle <:+: byte :: rest ↔ needle <:+: rest :=
  Search.infix_separator_cons_iff (foreign.apart byte listed) foreign.present

theorem Foreign.quote_iff {text rest : Text} :
    needle <:+: text ++ '"' :: rest ↔ needle <:+: text ∨ needle <:+: rest :=
  Search.infix_separated_iff (foreign.apart '"' (by decide)) foreign.present

theorem Foreign.not_infix {text : Text} (unmarked : '&' ∉ text ∧ '=' ∉ text) :
    ¬ needle <:+: text := by
  intro found
  cases foreign.marked with
  | inl marked => exact unmarked.1 (found.subset marked)
  | inr marked => exact unmarked.2 (found.subset marked)

theorem Foreign.tagText_iff {name more : Text} (unmarked : '&' ∉ name ∧ '=' ∉ name) :
    needle <:+: tagText name more ↔ needle <:+: more := by
  rw [tagText, List.cons_append, foreign.punctuation_cons_iff (by decide), foreign.quote_iff,
    foreign.punctuation_cons_iff (by decide), or_iff_right (foreign.not_infix unmarked)]

omit foreign in
theorem tagText_append (name more rest : Text) :
    tagText name more ++ rest = tagText name (more ++ rest) := by
  simp [tagText]

theorem Foreign.fieldsText_iff {fields : List (String × Text)} {rest : Text}
    (unmarked : ∀ field ∈ fields, '&' ∉ field.1.toList ∧ '=' ∉ field.1.toList) :
    needle <:+: fieldsText fields ++ rest ↔
      (∃ text ∈ fields.map Prod.snd, needle <:+: text) ∨ needle <:+: rest := by
  induction fields with
  | nil => simp [fieldsText]
  | cons field fields ih =>
      have later := ih fun other member => unmarked other (List.mem_cons_of_mem _ member)
      rw [fieldsText] at later
      rw [fieldsText, List.flatMap_cons, List.append_assoc, jsonField_tag, tagText_append,
        foreign.tagText_iff (unmarked field List.mem_cons_self), List.cons_append, List.nil_append,
        foreign.punctuation_cons_iff (by decide), foreign.quote_iff,
        foreign.punctuation_cons_iff (by decide), later, List.map_cons, ← or_assoc]
      simp only [List.mem_cons, exists_eq_or_imp]

/-- The texts that the encoder writes between quotes. -/
def recordTexts (env : Env) (record : Record) : List Text :=
  (recordFields env record).map Prod.snd ++ [record.signature]

omit foreign in
theorem recordFields_unmarked {env : Env} {record : Record} :
    ∀ field ∈ recordFields env record, '&' ∉ field.1.toList ∧ '=' ∉ field.1.toList := by
  have names : ∀ name ∈ recordFieldNames, '&' ∉ name.toList ∧ '=' ∉ name.toList := by
    decide +kernel
  intro field member
  exact names field.1 (recordFields_names member).1

theorem Foreign.recordJSON_iff (env : Env) (record : Record) (rest : Text) :
    needle <:+: recordJSON env record ++ rest ↔
      (∃ text ∈ recordTexts env record, needle <:+: text) ∨ needle <:+: rest := by
  have split : recordJSON env record ++ rest = '\x7b' :: tagText "record".toList ('\x7b' :: ' ' ::
      (fieldsText (recordFields env record) ++ tagText "sig".toList ('"' :: (record.signature ++
        '"' :: '\x7d' :: '\x7d' :: '\n' :: rest)))) := by
    rw [recordJSON_surrounds, recordBody, signatureText]
    simp [tagText]
  rw [split, foreign.punctuation_cons_iff (by decide), foreign.tagText_iff (by decide),
    foreign.punctuation_cons_iff (by decide), foreign.punctuation_cons_iff (by decide),
    foreign.fieldsText_iff recordFields_unmarked, foreign.tagText_iff (by decide),
    foreign.punctuation_cons_iff (by decide), foreign.quote_iff,
    foreign.punctuation_cons_iff (by decide), foreign.punctuation_cons_iff (by decide),
    foreign.punctuation_cons_iff (by decide), recordTexts, ← or_assoc]
  simp only [List.mem_append, List.mem_singleton, or_and_right, exists_or, exists_eq_left]

/-- The texts of a block and of its records. -/
def blockTexts (env : Env) (block : Block) : List Text :=
  (blockFields block).map Prod.snd ++ block.records.flatMap (recordTexts env)

theorem Foreign.recordsJSON_iff (env : Env) (records : List Record) (rest : Text) :
    needle <:+: records.flatMap (recordJSON env) ++ rest ↔
      (∃ text ∈ records.flatMap (recordTexts env), needle <:+: text) ∨ needle <:+: rest := by
  induction records with
  | nil => simp
  | cons record records ih =>
      rw [List.flatMap_cons, List.append_assoc, foreign.recordJSON_iff, ih, ← or_assoc,
        List.flatMap_cons]
      simp only [List.mem_append, or_and_right, exists_or]

omit foreign in
theorem blockFields_unmarked {block : Block} :
    ∀ field ∈ blockFields block, '&' ∉ field.1.toList ∧ '=' ∉ field.1.toList := by
  have names : ∀ name ∈ blockFieldNames, '&' ∉ name.toList ∧ '=' ∉ name.toList := by
    decide +kernel
  intro field member
  exact names field.1 (blockFields_names member).1

theorem Foreign.blockJSON_iff (env : Env) (block : Block) :
    needle <:+: blockJSON env block ↔ ∃ text ∈ blockTexts env block, needle <:+: text := by
  have split : blockJSON env block = '\x7b' :: tagText "block".toList ('\x7b' ::
      (fieldsText (blockFields block) ++ tagText "records".toList ('\x7b' :: '\n' ::
        (block.records.flatMap (recordJSON env) ++ ['\x7d', '\x7d', '\x7d', '\n'])))) := by
    have header : blockHeader = '\x7b' :: tagText "block".toList ['\x7b'] := rfl
    rw [blockJSON_eq, blockText, recordsText, header]
    simp only [List.append_assoc, List.cons_append, List.nil_append, tagText]
  rw [split, foreign.punctuation_cons_iff (by decide), foreign.tagText_iff (by decide),
    foreign.punctuation_cons_iff (by decide), foreign.fieldsText_iff blockFields_unmarked,
    foreign.tagText_iff (by decide), foreign.punctuation_cons_iff (by decide),
    foreign.punctuation_cons_iff (by decide), foreign.recordsJSON_iff]
  have closing : ¬ needle <:+: ['\x7d', '\x7d', '\x7d', '\n'] := foreign.not_infix (by simp)
  rw [or_iff_left closing, blockTexts]
  simp only [List.mem_append, or_and_right, exists_or]

end Inside

/-! ### Records and blocks -/

namespace RequestHandler

open LocalPeerClient

/-- Both routes hand the text on. -/
structure Faithful (curlEasyEscape : Text → Option Text) (path key value : Text) : Prop where
  posted : receive (postRequest path value) key = some value
  queried : receive (getRequest curlEasyEscape path key value) key = some value

/-- No field holds an ampersand or the parameter. -/
def Undisturbed (token : Text) (texts : List Text) : Prop :=
  ∀ text ∈ texts, '&' ∉ text ∧ ¬ token <:+: text

instance (token : Text) (texts : List Text) : Decidable (Undisturbed token texts) :=
  inferInstanceAs (Decidable (∀ text ∈ texts, _))

def recordKeyword : Text :=
  "record".toList

def blockKeyword : Text :=
  "block".toList

def recordsSubmit : Text :=
  "/api/records/submit".toList

def blocksSubmit : Text :=
  "/api/blocks/submit".toList

theorem faithful_iff {curlEasyEscape : Text → Option Text} (escapes : EscapesBytes curlEasyEscape)
    {path key value : Text} (bytes : Bytes value) (present : value ≠ [])
    (noQuestion : '?' ∉ path)
    (plain : ∀ byte ∈ path ++ '?' :: (key ++ ['=']), byte ≠ '%' ∧ byte ≠ '+') :
    Faithful curlEasyEscape path key value ↔ '&' ∉ value ∧ ¬ key ++ ['='] <:+: value := by
  have route : ∀ byte ∈ path, byte ≠ '%' ∧ byte ≠ '+' :=
    fun byte member => plain byte (List.mem_append_left _ member)
  rw [← receive_get_iff escapes bytes noQuestion plain, ← receive_post_iff route present]
  constructor
  · intro faithful
    exact ⟨faithful.queried, faithful.posted⟩
  · intro both
    exact ⟨both.2, both.1⟩

/-- A text made of fields is undisturbed exactly when the fields are. -/
theorem undisturbed_iff {token value : Text} {texts : List Text}
    (ampersand : ['&'] <:+: value ↔ ∃ text ∈ texts, ['&'] <:+: text)
    (parameter : token <:+: value ↔ ∃ text ∈ texts, token <:+: text) :
    '&' ∉ value ∧ ¬ token <:+: value ↔ Undisturbed token texts := by
  rw [← List.singleton_infix_iff, ampersand, parameter, Undisturbed]
  simp only [List.singleton_infix_iff]
  constructor
  · intro outside text member
    exact ⟨fun found => outside.1 ⟨text, member, found⟩,
      fun found => outside.2 ⟨text, member, found⟩⟩
  · intro inside
    constructor
    · intro found
      obtain ⟨text, member, held⟩ := found
      exact (inside text member).1 held
    · intro found
      obtain ⟨text, member, held⟩ := found
      exact (inside text member).2 held

theorem foreign_recordKeyword : Foreign (recordKeyword ++ ['=']) where
  marked := .inr (by decide)
  apart := by simp [punctuation, recordKeyword]

theorem foreign_blockKeyword : Foreign (blockKeyword ++ ['=']) where
  marked := .inr (by decide)
  apart := by simp [punctuation, blockKeyword]

theorem route_plain {route : Text}
    (checked : route.all (fun byte => decide (byte ≠ '%' ∧ byte ≠ '+')) = true) :
    ∀ byte ∈ route, byte ≠ '%' ∧ byte ≠ '+' :=
  fun byte member => of_decide_eq_true (List.all_eq_true.mp checked byte member)

/-- The receiver reads what was sent, on both routes, exactly when no field of the
record or of the block holds an ampersand or the parameter. -/
theorem transport_faithful_iff (env : Env) (curlEasyEscape : Text → Option Text)
    (escapes : EscapesBytes curlEasyEscape) :
    (∀ record, Bytes (recordJSON env record) →
      (Faithful curlEasyEscape recordsSubmit recordKeyword (recordJSON env record) ↔
        Undisturbed (recordKeyword ++ ['=']) (recordTexts env record))) ∧
    ∀ block, Bytes (blockJSON env block) →
      (Faithful curlEasyEscape blocksSubmit blockKeyword (blockJSON env block) ↔
        Undisturbed (blockKeyword ++ ['=']) (blockTexts env block)) := by
  constructor
  · intro record bytes
    have inside {needle : Text} (foreign : Foreign needle) :
        needle <:+: recordJSON env record ↔ ∃ text ∈ recordTexts env record, needle <:+: text := by
      have found := foreign.recordJSON_iff env record []
      rwa [List.append_nil, List.infix_nil, or_iff_left foreign.present] at found
    rw [faithful_iff escapes bytes (List.cons_ne_nil _ _) (by decide)
      (route_plain (by decide +kernel))]
    exact undisturbed_iff (inside foreign_ampersand) (inside foreign_recordKeyword)
  · intro block bytes
    rw [faithful_iff escapes bytes (List.cons_ne_nil _ _) (by decide)
      (route_plain (by decide +kernel))]
    exact undisturbed_iff (foreign_ampersand.blockJSON_iff env block)
      (foreign_blockKeyword.blockJSON_iff env block)

end RequestHandler

namespace Sample

open RequestHandler LocalPeerClient

/-- The digit of the library. -/
def upperHexDigit (value : Nat) : Char :=
  if value < 10 then Char.ofNat ('0'.toNat + value) else Char.ofNat ('A'.toNat + (value - 10))

def escapeByte (byte : Char) : Text :=
  if isUnreserved byte then [byte]
  else ['%', upperHexDigit (byte.toNat / 16), upperHexDigit (byte.toNat % 16)]

/-- The library on a text of bytes. -/
def curlEscape (value : Text) : Option Text :=
  some (value.flatMap escapeByte)

theorem escapes_curlEscape : EscapesBytes curlEscape where
  nil := rfl
  unreserved := by
    intro byte rest kept
    rw [curlEscape, List.flatMap_cons, escapeByte, if_pos kept]
    rfl
  reserved := by
    have digits : ∀ value < 16, hexDigit (upperHexDigit value) = some value := by decide
    intro byte rest kept small
    refine ⟨_, _, digits (byte.toNat / 16) (by omega), digits (byte.toNat % 16) (by omega), ?_⟩
    rw [curlEscape, List.flatMap_cons, escapeByte, if_neg (by rw [kept]; decide)]
    rfl

theorem spend_transport :
    (Faithful curlEscape recordsSubmit recordKeyword (recordJSON Sample.env spend) ↔
      Undisturbed (recordKeyword ++ ['=']) (recordTexts Sample.env spend)) ∧
    (Faithful curlEscape blocksSubmit blockKeyword (blockJSON Sample.env validSpend) ↔
      Undisturbed (blockKeyword ++ ['=']) (blockTexts Sample.env validSpend)) :=
  ⟨(transport_faithful_iff Sample.env curlEscape escapes_curlEscape).1 spend (by decide +kernel),
    (transport_faithful_iff Sample.env curlEscape escapes_curlEscape).2 validSpend (by decide +kernel)⟩

def namedSpend (name : String) : Record :=
  { spend with name := name.toList }

/-- The body of one record holds the parameter, the query of another an ampersand. -/
theorem named_spends_cut :
    isRecordSizeValid Sample.env (namedSpend "record=1") = true ∧
      (∀ text ∈ recordTexts Sample.env (namedSpend "record=1"), quoteFree text = true) ∧
      receive (postRequest recordsSubmit (recordJSON Sample.env (namedSpend "record=1")))
        recordKeyword ≠ some (recordJSON Sample.env (namedSpend "record=1")) ∧
      isRecordSizeValid Sample.env (namedSpend "a&b") = true ∧
      (∀ text ∈ recordTexts Sample.env (namedSpend "a&b"), quoteFree text = true) ∧
      receive (getRequest curlEscape recordsSubmit recordKeyword
        (recordJSON Sample.env (namedSpend "a&b"))) recordKeyword ≠ some (recordJSON Sample.env (namedSpend "a&b")) := by
  decide +kernel

end Sample

end Safire
