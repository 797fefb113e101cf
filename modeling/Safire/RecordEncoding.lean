/-
Reading back the text form of records.

A field value without quotes hides no tag, so a lookup finds the field it names.
A value without braces leaves the nesting to the encoder. What the scanner of
records keeps of its input grows with every record, so a record can be read
twice; the lists that read back are exactly those whose records are longer than
what is kept.
-/

import Safire.Json

namespace Safire

open Text
open Search

/-! ### Tags and fields -/

/-- A quoted name, a colon and what follows it in the search. -/
def tagText (name more : Text) : Text :=
  '"' :: name ++ '"' :: ':' :: more

def quoteFree (text : Text) : Bool :=
  !text.contains '"'

def braceFree (text : Text) : Bool :=
  !text.contains '\x7b' && !text.contains '\x7d'

/-- A name that does not start like the punctuation of the encoder. -/
def isTagName (name : Text) : Bool :=
  quoteFree name && name.head?.any Char.isAlpha

theorem quoteFree_iff {text : Text} : quoteFree text = true ↔ '"' ∉ text := by
  simp [quoteFree]

theorem braceFree_iff {text : Text} : braceFree text = true ↔ '\x7b' ∉ text ∧ '\x7d' ∉ text := by
  simp [braceFree]

theorem isTagName_iff {name : Text} :
    isTagName name = true ↔
      '"' ∉ name ∧ ∃ byte rest, name = byte :: rest ∧ byte.isAlpha = true := by
  unfold isTagName
  rw [Bool.and_eq_true, quoteFree_iff]
  cases name with
  | nil => simp
  | cons byte rest => simp

section Tags

variable {name more rest : Text}

/-- The text between two quotes is not a tag of another name. -/
theorem clear_piece {piece : Text} (named : isTagName name = true) (free : quoteFree piece = true)
    (differs : name = piece → ¬ ':' :: more <+: rest) :
    Clear (tagText name more) ('"' :: piece) ('"' :: rest) := by
  rw [quoteFree_iff] at free
  refine clear_cons_iff.mpr ⟨fun found => ?_, clear_of_notMem free⟩
  obtain ⟨same, later⟩ := eq_of_separated (isTagName_iff.mp named).1 free
    (List.cons_prefix_cons.mp found).2
  exact differs same later

/-- A quote before punctuation, or at the end, starts no tag. -/
theorem clear_punctuation {text : Text} (named : isTagName name = true)
    (punctuation : (text ++ rest).head?.any Char.isAlpha = false) (free : quoteFree text = true) :
    Clear (tagText name more) ('"' :: text) rest := by
  obtain ⟨-, first, tail, rfl, letter⟩ := isTagName_iff.mp named
  refine clear_cons_iff.mpr ⟨fun found => ?_, clear_of_notMem (quoteFree_iff.mp free)⟩
  have later : first :: tail ++ '"' :: ':' :: more <+: text ++ rest :=
    (List.cons_prefix_cons.mp found).2
  cases split : text ++ rest with
  | nil =>
      rw [split] at later
      exact absurd (List.prefix_nil.mp later) (by simp)
  | cons byte rest =>
      rw [split] at later punctuation
      rw [← (List.cons_prefix_cons.mp later).1] at punctuation
      exact absurd letter (by simpa using punctuation)

theorem jsonField_eq (field : String) (value : Text) :
    jsonField field value =
      ('"' :: field.toList) ++ (('"' :: ':' :: []) ++ (('"' :: value) ++ ('"' :: ',' :: []))) := by
  simp [jsonField]

theorem clear_jsonField {field : String} {value : Text} (named : isTagName name = true)
    (fieldNamed : isTagName field.toList = true) (free : quoteFree value = true)
    (other : name ≠ field.toList) :
    Clear (tagText name more) (jsonField field value) rest := by
  have fieldFree : quoteFree field.toList = true :=
    quoteFree_iff.mpr (isTagName_iff.mp fieldNamed).1
  rw [jsonField_eq]
  refine Clear.append ?_ (Clear.append ?_ (Clear.append ?_ ?_))
  · exact clear_piece named fieldFree fun same => absurd same other
  · exact clear_punctuation named rfl rfl
  · refine clear_piece named free fun _ found => ?_
    exact absurd (List.cons_prefix_cons.mp found).1 (by decide)
  · exact clear_punctuation named rfl rfl

end Tags

/-- The fields of an object, each with a comma after it. -/
def fieldsText (fields : List (String × Text)) : Text :=
  fields.flatMap (fun field => jsonField field.1 field.2)

/-- Field names that are tags, and values without quotes. -/
def FieldsReadable (fields : List (String × Text)) : Prop :=
  ∀ field ∈ fields, isTagName field.1.toList = true ∧ quoteFree field.2 = true

theorem clear_fieldsText {name more rest : Text} {fields : List (String × Text)}
    (named : isTagName name = true) (readable : FieldsReadable fields)
    (others : ∀ field ∈ fields, name ≠ field.1.toList) :
    Clear (tagText name more) (fieldsText fields) rest := by
  induction fields with
  | nil => exact clear_nil
  | cons field fields ih =>
      obtain ⟨fieldNamed, free⟩ := readable field (by simp)
      rw [fieldsText, List.flatMap_cons]
      refine Clear.append ?_ (ih (fun later member => readable later (by simp [member]))
        fun later member => others later (by simp [member]))
      exact clear_jsonField named fieldNamed free (others field (by simp))

/-! ### Lookups -/

theorem quotedSection_eq (content : Text) (name : String) :
    quotedSection content name = parseSectionString content (tagText name.toList ['"']) ['"'] := by
  simp [quotedSection, tagText]

/-- The first tag of a name leads to the text before the next quote. -/
theorem quotedSection_of_clear {front value rest : Text} {name : String}
    (clear : Clear (tagText name.toList ['"']) front
      (tagText name.toList ['"'] ++ (value ++ '"' :: rest)))
    (free : quoteFree value = true) :
    quotedSection (front ++ (tagText name.toList ['"'] ++ (value ++ '"' :: rest))) name = value := by
  rw [quotedSection_eq, parseSectionString, find_of_clear rfl clear]
  dsimp only
  rw [Nat.zero_add]
  have after : (front ++ (tagText name.toList ['"'] ++ (value ++ '"' :: rest))).drop
      (front.length + (tagText name.toList ['"']).length) = value ++ (['"'] ++ rest) := by
    rw [← List.append_assoc, ← List.length_append, List.drop_left]
    rfl
  rw [find_of_clear after (clear_of_notMem (quoteFree_iff.mp free))]
  dsimp only
  rw [substr, after, Nat.add_sub_cancel_left, List.take_left]

theorem quotedSection_absent {content : Text} {name : String}
    (clear : Clear (tagText name.toList ['"']) content []) : quotedSection content name = [] := by
  have missing : find content (tagText name.toList ['"']) 0 = none :=
    find_none_of_clear (List.cons_ne_nil _ _) clear
  rw [quotedSection_eq, parseSectionString, missing]

theorem jsonField_tag (name : String) (value rest : Text) :
    jsonField name value ++ rest =
      tagText name.toList ['"'] ++ (value ++ '"' :: (',' :: rest)) := by
  simp [jsonField, tagText]

/-- A lookup among the fields of an object. -/
theorem quotedSection_lookup {front rest value : Text} {fields : List (String × Text)}
    {name : String} (found : fields.lookup name = some value)
    (named : isTagName name.toList = true) (readable : FieldsReadable fields)
    (clear : ∀ later, Clear (tagText name.toList ['"']) front later) :
    quotedSection (front ++ (fieldsText fields ++ rest)) name = value := by
  obtain ⟨before, after, rfl, others⟩ := List.lookup_eq_some_iff.mp found
  have free := (readable (name, value) (by simp)).2
  have split : front ++ (fieldsText (before ++ (name, value) :: after) ++ rest) =
      (front ++ fieldsText before) ++
        (tagText name.toList ['"'] ++ (value ++ '"' :: (',' :: (fieldsText after ++ rest)))) := by
    rw [← jsonField_tag]
    simp [fieldsText]
  rw [split]
  refine quotedSection_of_clear (Clear.append (clear _) ?_) free
  refine clear_fieldsText named (fun field member => readable field (by simp [member])) ?_
  intro field member same
  have other := others field member
  rw [String.toList_inj.mp same] at other
  simp at other

/-! ### One record -/

/-- A value that the encoder writes and the scanner reads back. -/
def isPlain (text : Text) : Bool :=
  quoteFree text && braceFree text

theorem isPlain_ofLong (value : Int) : isPlain (ofLong value) = true := by
  have bytes : ∀ byte ∈ ofLong value, byte ≠ '"' ∧ byte ≠ '\x7b' ∧ byte ≠ '\x7d' := by
    intro byte member
    rcases mem_ofLong member with rfl | digit
    · decide
    · refine ⟨?_, ?_, ?_⟩ <;> rintro rfl <;> exact absurd digit (by decide)
  rw [isPlain, Bool.and_eq_true, quoteFree_iff, braceFree_iff]
  exact ⟨fun member => (bytes _ member).1 rfl, fun member => (bytes _ member).2.1 rfl,
    fun member => (bytes _ member).2.2 rfl⟩

def recordFields (env : Env) (record : Record) : List (String × Text) :=
  [("network", record.network), ("time", record.time), ("name", record.name),
    ("typ", ofLong record.transactionType.code)] ++
    (if 0 < record.nonce then [("nonce", ofLong record.nonce)] else []) ++
    [("amt", env.doubleText record.amount), ("fee", env.doubleText record.fee),
      ("sndkey", record.senderPublicKey), ("rcvkey", record.recipientPublicKey),
      ("value", record.value), ("hash", record.hash)]

/-- The last field has no comma after it. -/
def signatureText (signature : Text) : Text :=
  tagText "sig".toList ['"'] ++ (signature ++ ['"'])

def recordBody (env : Env) (record : Record) : Text :=
  fieldsText (recordFields env record) ++ signatureText record.signature

/-- What the encoder writes for a record after its first brace. -/
def recordTail (env : Env) (record : Record) : Text :=
  tagText "record".toList [] ++
    ('\x7b' :: ' ' :: (recordBody env record ++ ['\x7d', '\x7d', '\n']))

theorem recordJSON_eq (env : Env) (record : Record) :
    recordJSON env record = '\x7b' :: recordTail env record := by
  have opening : "\x7b\"record\":\x7b ".toList =
      '\x7b' :: (tagText "record".toList [] ++ ['\x7b', ' ']) := rfl
  have signed : "\"sig\":\"".toList = tagText "sig".toList ['"'] := rfl
  have closing : "\"".toList ++ "\x7d\x7d\n".toList = ['"', '\x7d', '\x7d', '\n'] := rfl
  unfold recordJSON recordTail recordBody recordFields signatureText fieldsText
  simp only [opening, signed, closing, List.append_assoc, List.cons_append, List.nil_append,
    List.flatMap_append, List.flatMap_cons, List.flatMap_nil]
  split
  · simp only [List.flatMap_cons, List.flatMap_nil, List.append_nil]
  · simp only [List.flatMap_nil]

/-- Texts that end at the quote after them. -/
structure QuoteFreeRecord (env : Env) (record : Record) : Prop where
  network : quoteFree record.network = true
  time : quoteFree record.time = true
  name : quoteFree record.name = true
  sender : quoteFree record.senderPublicKey = true
  recipient : quoteFree record.recipientPublicKey = true
  value : quoteFree record.value = true
  hash : quoteFree record.hash = true
  signature : quoteFree record.signature = true
  amount : quoteFree (env.doubleText record.amount) = true
  fee : quoteFree (env.doubleText record.fee) = true

/-- The texts without quotes or braces, a nonce that the encoder writes, and
amounts that the C library reads back as printed. -/
structure RecordReadable (env : Env) (record : Record) : Prop where
  network : isPlain record.network = true
  time : isPlain record.time = true
  name : isPlain record.name = true
  sender : isPlain record.senderPublicKey = true
  recipient : isPlain record.recipientPublicKey = true
  value : isPlain record.value = true
  hash : isPlain record.hash = true
  signature : isPlain record.signature = true
  nonce : 0 ≤ record.nonce ∧ IsLong record.nonce
  amount : isPlain (env.doubleText record.amount) = true ∧
    env.atof (env.doubleText record.amount) = record.amount
  fee : isPlain (env.doubleText record.fee) = true ∧
    env.atof (env.doubleText record.fee) = record.fee

instance (env : Env) (record : Record) : Decidable (RecordReadable env record) :=
  decidable_of_iff
    ((isPlain record.network = true ∧ isPlain record.time = true ∧ isPlain record.name = true ∧
      isPlain record.senderPublicKey = true ∧ isPlain record.recipientPublicKey = true) ∧
      (isPlain record.value = true ∧ isPlain record.hash = true ∧
        isPlain record.signature = true ∧ (0 ≤ record.nonce ∧ IsLong record.nonce)) ∧
      (isPlain (env.doubleText record.amount) = true ∧
        env.atof (env.doubleText record.amount) = record.amount) ∧
      isPlain (env.doubleText record.fee) = true ∧
        env.atof (env.doubleText record.fee) = record.fee)
    ⟨fun ⟨⟨network, time, name, sender, recipient⟩, ⟨value, hash, signature, nonce⟩, amount, fee⟩ =>
      ⟨network, time, name, sender, recipient, value, hash, signature, nonce, amount, fee⟩,
    fun ⟨network, time, name, sender, recipient, value, hash, signature, nonce, amount, fee⟩ =>
      ⟨⟨network, time, name, sender, recipient⟩, ⟨value, hash, signature, nonce⟩, amount, fee⟩⟩

theorem isPlain_iff {text : Text} :
    isPlain text = true ↔ quoteFree text = true ∧ braceFree text = true := by
  rw [isPlain, Bool.and_eq_true]

def recordFieldNames : List String :=
  ["network", "time", "name", "typ", "nonce", "amt", "fee", "sndkey", "rcvkey", "value", "hash"]

theorem recordFields_names {env : Env} {record : Record} {field : String × Text}
    (member : field ∈ recordFields env record) :
    field.1 ∈ recordFieldNames ∧ (field.1 = "nonce" → 0 < record.nonce) := by
  unfold recordFields at member
  simp only [List.mem_append, List.mem_cons, List.not_mem_nil, or_false] at member
  rcases member with ((rfl | rfl | rfl | rfl) | optional) | rfl | rfl | rfl | rfl | rfl | rfl
  case inl.inr =>
    split at optional
    · rename_i written
      rw [List.mem_singleton.mp optional]
      exact ⟨by simp [recordFieldNames], fun _ => written⟩
    · cases optional
  all_goals exact ⟨by simp [recordFieldNames], fun same => absurd same (by simp)⟩

theorem isTagName_recordField {name : String} (listed : name ∈ recordFieldNames) :
    isTagName name.toList = true := by
  unfold recordFieldNames at listed
  fin_cases listed <;> rfl

theorem RecordReadable.quoteFree {env : Env} {record : Record}
    (readable : RecordReadable env record) : QuoteFreeRecord env record where
  network := (isPlain_iff.mp readable.network).1
  time := (isPlain_iff.mp readable.time).1
  name := (isPlain_iff.mp readable.name).1
  sender := (isPlain_iff.mp readable.sender).1
  recipient := (isPlain_iff.mp readable.recipient).1
  value := (isPlain_iff.mp readable.value).1
  hash := (isPlain_iff.mp readable.hash).1
  signature := (isPlain_iff.mp readable.signature).1
  amount := (isPlain_iff.mp readable.amount.1).1
  fee := (isPlain_iff.mp readable.fee.1).1

theorem QuoteFreeRecord.fields {env : Env} {record : Record} (quotes : QuoteFreeRecord env record)
    {field : String × Text} (member : field ∈ recordFields env record) :
    quoteFree field.2 = true := by
  have printed (value : Int) : quoteFree (ofLong value) = true :=
    (isPlain_iff.mp (isPlain_ofLong value)).1
  unfold recordFields at member
  simp only [List.mem_append, List.mem_cons, List.not_mem_nil, or_false] at member
  rcases member with ((rfl | rfl | rfl | rfl) | optional) | rfl | rfl | rfl | rfl | rfl | rfl
  · exact quotes.network
  · exact quotes.time
  · exact quotes.name
  · exact printed _
  · split at optional
    · rw [List.mem_singleton.mp optional]
      exact printed _
    · cases optional
  · exact quotes.amount
  · exact quotes.fee
  · exact quotes.sender
  · exact quotes.recipient
  · exact quotes.value
  · exact quotes.hash

theorem RecordReadable.fields {env : Env} {record : Record} (readable : RecordReadable env record)
    {field : String × Text} (member : field ∈ recordFields env record) :
    isPlain field.2 = true := by
  unfold recordFields at member
  simp only [List.mem_append, List.mem_cons, List.not_mem_nil, or_false] at member
  rcases member with ((rfl | rfl | rfl | rfl) | optional) | rfl | rfl | rfl | rfl | rfl | rfl
  · exact readable.network
  · exact readable.time
  · exact readable.name
  · exact isPlain_ofLong _
  · split at optional
    · rw [List.mem_singleton.mp optional]
      exact isPlain_ofLong _
    · cases optional
  · exact readable.amount.1
  · exact readable.fee.1
  · exact readable.sender
  · exact readable.recipient
  · exact readable.value
  · exact readable.hash

theorem QuoteFreeRecord.fieldsReadable {env : Env} {record : Record}
    (quotes : QuoteFreeRecord env record) : FieldsReadable (recordFields env record) :=
  fun _ member => ⟨isTagName_recordField (recordFields_names member).1, quotes.fields member⟩

theorem clear_signatureText {name more rest signature : Text} (named : isTagName name = true)
    (other : name ≠ "sig".toList) (free : quoteFree signature = true)
    (after : rest.head?.any Char.isAlpha = false) (noColon : rest.head? ≠ some ':') :
    Clear (tagText name more) (signatureText signature) rest := by
  have pieces : signatureText signature = ('"' :: "sig".toList) ++
      (('"' :: [':']) ++ (('"' :: signature) ++ ['"'])) := by
    simp [signatureText, tagText]
  rw [pieces]
  refine Clear.append ?_ (Clear.append ?_ (Clear.append ?_ ?_))
  · exact clear_piece named rfl fun same => absurd same other
  · exact clear_punctuation named rfl rfl
  · refine clear_piece named free fun _ found => noColon ?_
    cases rest with
    | nil => exact absurd (List.prefix_nil.mp found) (by simp)
    | cons byte rest => rw [List.head?_cons, (List.cons_prefix_cons.mp found).1]
  · exact clear_punctuation named (by simpa using after) rfl

theorem parseTransactionType_code (env : Env) (kind : TransactionType) :
    parseTransactionType env (atoi (ofLong kind.code)) = kind := by
  cases kind <;> rfl

/-- What stands before the fields shows no tag of a field, and what stands after
them goes on with no tag. -/
structure Surrounds (front rest : Text) : Prop where
  before : ∀ name, isTagName name = true → name ≠ "record".toList → ∀ later,
    Clear (tagText name ['"']) front later
  after : rest.head?.any Char.isAlpha = false ∧ rest.head? ≠ some ':'
  quotes : quoteFree rest = true

theorem surrounds_space : Surrounds [' '] [] where
  before := fun _ _ _ _ => clear_of_notMem (by decide : '"' ∉ [' '])
  after := by simp
  quotes := rfl

/-- The text around the fields of a whole record. -/
theorem surrounds_record :
    Surrounds ('\x7b' :: (tagText "record".toList [] ++ ['\x7b', ' '])) ['\x7d', '\x7d', '\n'] where
  before := by
    intro name named other later
    have pieces : '\x7b' :: (tagText "record".toList [] ++ ['\x7b', ' ']) =
        ['\x7b'] ++ (('"' :: "record".toList) ++ ('"' :: [':', '\x7b', ' '])) := rfl
    rw [pieces]
    refine Clear.append (clear_of_notMem (by decide)) (Clear.append ?_ ?_)
    · exact clear_piece named rfl fun same => absurd same other
    · exact clear_punctuation named rfl rfl
  after := by decide
  quotes := rfl

theorem recordJSON_surrounds (env : Env) (record : Record) :
    recordJSON env record = ('\x7b' :: (tagText "record".toList [] ++ ['\x7b', ' '])) ++
      (recordBody env record ++ ['\x7d', '\x7d', '\n']) := by
  rw [recordJSON_eq, recordTail]
  simp only [List.append_assoc, List.cons_append, List.nil_append]

/-- A record as the reader sees it: a nonce that is not positive is not written. -/
def Record.written (record : Record) : Record :=
  { record with nonce := if 0 < record.nonce then record.nonce else 0 }

theorem Record.written_of_nonce {record : Record} (nonce : 0 ≤ record.nonce) :
    record.written = record := by
  rw [Record.written]
  split
  · rfl
  · rw [show (0 : Int) = record.nonce by omega]

section Record

variable {env : Env} {record : Record} (quotes : QuoteFreeRecord env record)

include quotes in
/-- A record shows no tag but its own. -/
theorem QuoteFreeRecord.clear_body (name : String) {more rest : Text}
    (named : isTagName name.toList = true)
    (other : ∀ field ∈ recordFields env record, name ≠ field.1) (notSignature : name ≠ "sig")
    (after : rest.head?.any Char.isAlpha = false) (noColon : rest.head? ≠ some ':') :
    Clear (tagText name.toList more) (recordBody env record) rest := by
  refine Clear.append (clear_fieldsText named quotes.fieldsReadable fun field member same => ?_)
    (clear_signatureText named (fun same => ?_) quotes.signature after noColon)
  · exact other field member (String.toList_inj.mp same)
  · exact notSignature (String.toList_inj.mp same)

variable {front rest : Text} (around : Surrounds front rest)
include quotes around

theorem QuoteFreeRecord.lookup (name : String) (value : Text)
    (found : (recordFields env record).lookup name = some value) :
    quotedSection (front ++ (recordBody env record ++ rest)) name = value := by
  obtain ⟨before, after, split, -⟩ := List.lookup_eq_some_iff.mp found
  have member : (name, value) ∈ recordFields env record := by
    rw [split]
    simp
  have listed := (recordFields_names member).1
  have named : isTagName name.toList = true := isTagName_recordField listed
  have other : name.toList ≠ "record".toList := by
    intro same
    rw [String.toList_inj.mp same] at listed
    simp [recordFieldNames] at listed
  rw [recordBody, List.append_assoc]
  exact quotedSection_lookup found named quotes.fieldsReadable (around.before _ named other)

theorem QuoteFreeRecord.absent (name : String) (named : isTagName name.toList = true)
    (notRecord : name.toList ≠ "record".toList)
    (other : ∀ field ∈ recordFields env record, name ≠ field.1) (notSignature : name ≠ "sig") :
    quotedSection (front ++ (recordBody env record ++ rest)) name = [] := by
  apply quotedSection_absent
  refine Clear.append (around.before _ named notRecord _) (Clear.append ?_ ?_)
  · rw [List.append_nil]
    exact quotes.clear_body name named other notSignature around.after.1 around.after.2
  · exact clear_of_notMem (quoteFree_iff.mp around.quotes)

theorem QuoteFreeRecord.signature_read :
    quotedSection (front ++ (recordBody env record ++ rest)) "sig" = record.signature := by
  have unlisted : "sig" ∉ recordFieldNames := by simp [recordFieldNames]
  have clear : Clear (tagText "sig".toList ['"']) (front ++ fieldsText (recordFields env record))
      (tagText "sig".toList ['"'] ++ (record.signature ++ '"' :: rest)) := by
    refine Clear.append (around.before _ rfl (by decide) _)
      (clear_fieldsText rfl quotes.fieldsReadable ?_)
    intro field member same
    rw [String.toList_inj.mp same] at unlisted
    exact unlisted (recordFields_names member).1
  have split : front ++ (recordBody env record ++ rest) =
      (front ++ fieldsText (recordFields env record)) ++
        (tagText "sig".toList ['"'] ++ (record.signature ++ '"' :: rest)) := by
    simp only [recordBody, signatureText, List.append_assoc, List.cons_append, List.nil_append]
  rw [split]
  exact quotedSection_of_clear clear quotes.signature

theorem QuoteFreeRecord.nonce_read (long : IsLong record.nonce) :
    parseSectionLong (front ++ (recordBody env record ++ rest)) "nonce" =
      if 0 < record.nonce then record.nonce else 0 := by
  rw [parseSectionLong]
  by_cases positive : 0 < record.nonce
  · rw [quotes.lookup around "nonce" (ofLong record.nonce)
      (by simp [recordFields, positive, List.lookup_cons]), if_pos positive]
    exact atol_ofLong long
  · rw [quotes.absent around "nonce" rfl (by decide) ?_ (by decide), if_neg positive]
    · rfl
    · exact fun field member same => positive ((recordFields_names member).2 same.symm)

theorem QuoteFreeRecord.name_read :
    (if (quotedSection (front ++ (recordBody env record ++ rest)) "name").length = 0 then
      quotedSection (front ++ (recordBody env record ++ rest)) "name:"
    else quotedSection (front ++ (recordBody env record ++ rest)) "name") = record.name := by
  have unlisted : "name:" ∉ recordFieldNames := by simp [recordFieldNames]
  rw [quotes.lookup around "name" record.name (by simp [recordFields, List.lookup_cons])]
  split
  · rename_i empty
    rw [quotes.absent around "name:" rfl (by decide) ?_ (by decide)]
    · exact (List.length_eq_zero_iff.mp empty).symm
    · intro field member same
      rw [same] at unlisted
      exact unlisted (recordFields_names member).1
  · rfl

/-- The fields of a record read back, whatever stands around them. -/
theorem QuoteFreeRecord.parse (long : IsLong record.nonce)
    (amount : env.atof (env.doubleText record.amount) = record.amount)
    (fee : env.atof (env.doubleText record.fee) = record.fee) :
    parseRecordJson env (front ++ (recordBody env record ++ rest)) = record.written := by
  unfold parseRecordJson Record.written
  dsimp only
  rw [quotes.name_read around, quotes.nonce_read around long, quotes.signature_read around,
    parseSectionInt, parseSectionDouble, parseSectionDouble,
    quotes.lookup around "network" record.network (by simp [recordFields]),
    quotes.lookup around "time" record.time (by simp [recordFields, List.lookup_cons]),
    quotes.lookup around "typ" (ofLong record.transactionType.code)
      (by simp [recordFields, List.lookup_cons]),
    quotes.lookup around "amt" (env.doubleText record.amount) ?_,
    quotes.lookup around "fee" (env.doubleText record.fee) ?_,
    quotes.lookup around "sndkey" record.senderPublicKey ?_,
    quotes.lookup around "rcvkey" record.recipientPublicKey ?_,
    quotes.lookup around "value" record.value ?_,
    quotes.lookup around "hash" record.hash ?_,
    parseTransactionType_code, amount, fee]
  all_goals
    unfold recordFields
    split <;> rfl

end Record

/-- One record reads back. -/
theorem parseRecordJson_body {env : Env} {record : Record} (readable : RecordReadable env record) :
    parseRecordJson env (' ' :: recordBody env record) = record := by
  have read := readable.quoteFree.parse surrounds_space readable.nonce.2 readable.amount.2
    readable.fee.2
  rwa [List.append_nil, Record.written_of_nonce readable.nonce.1] at read

/-- The text form of a record reads back too. -/
theorem parseRecordJson_recordJSON {env : Env} {record : Record}
    (quotes : QuoteFreeRecord env record) (long : IsLong record.nonce)
    (amount : env.atof (env.doubleText record.amount) = record.amount)
    (fee : env.atof (env.doubleText record.fee) = record.fee) :
    parseRecordJson env (recordJSON env record) = record.written := by
  rw [recordJSON_surrounds]
  exact quotes.parse surrounds_record long amount fee

theorem RecordReadable.parse_recordJSON {env : Env} {record : Record}
    (readable : RecordReadable env record) : parseRecordJson env (recordJSON env record) = record := by
  rw [parseRecordJson_recordJSON readable.quoteFree readable.nonce.2 readable.amount.2
    readable.fee.2, Record.written_of_nonce readable.nonce.1]

/-! ### Braces -/

section Braces

variable {text rest : Text} {depth : Int} {started : Bool} {index : Nat}

theorem braceFree_append {more : Text} :
    braceFree (text ++ more) = true ↔ braceFree text = true ∧ braceFree more = true := by
  simp only [braceFree_iff, List.mem_append, not_or]
  tauto

theorem closingIndex_plain (free : braceFree text = true) (inside : depth ≠ 0 ∨ started = false) :
    closingIndex (text ++ rest) depth started index =
      closingIndex rest depth started (index + text.length) := by
  induction text generalizing index with
  | nil => rfl
  | cons byte text ih =>
      rw [braceFree_iff, List.mem_cons, List.mem_cons, not_or, not_or] at free
      obtain ⟨⟨notOpen, laterOpen⟩, notClose, laterClose⟩ := free
      have outside : ¬ (depth = 0 ∧ started = true) := by
        rintro ⟨zero, begun⟩
        rcases inside with deep | fresh
        · exact deep zero
        · rw [begun] at fresh
          cases fresh
      rw [List.cons_append, closingIndex]
      simp only [Ne.symm notOpen, Ne.symm notClose, if_false, decide_false, Bool.or_false, outside]
      rw [ih (braceFree_iff.mpr ⟨laterOpen, laterClose⟩), List.length_cons, Nat.add_assoc,
        Nat.add_comm 1]

theorem closingIndex_open (nonnegative : 0 ≤ depth) :
    closingIndex ('\x7b' :: rest) depth started index =
      closingIndex rest (depth + 1) true (index + 1) := by
  rw [closingIndex]
  simp only [if_true, decide_true, Bool.or_true, and_true]
  rw [if_neg (by omega)]

theorem closingIndex_close (deep : 1 < depth) :
    closingIndex ('\x7d' :: rest) depth started index =
      closingIndex rest (depth - 1) started (index + 1) := by
  rw [closingIndex]
  simp only [show ('\x7d' = '\x7b') = False by decide, if_false, if_true, decide_false, Bool.or_false]
  rw [if_neg (by omega)]

theorem closingIndex_last (last : depth = 1) :
    closingIndex ('\x7d' :: rest) depth true index = some index := by
  rw [last, closingIndex]
  simp

/-- The braces that a text leaves open, unless one closes that was not opened in it. -/
def braceDepth : Nat → Text → Option Nat
  | depth, [] => some depth
  | depth, byte :: rest =>
      if byte = '\x7b' then braceDepth (depth + 1) rest
      else if byte = '\x7d' then
        if depth = 0 then none else braceDepth (depth - 1) rest
      else braceDepth depth rest

variable {level left : Nat}

theorem braceDepth_append (level : Nat) (text more : Text) :
    braceDepth level (text ++ more) =
      (braceDepth level text).bind fun depth => braceDepth depth more := by
  induction text generalizing level with
  | nil => rfl
  | cons byte text ih =>
      rw [List.cons_append, braceDepth, braceDepth]
      split
      · exact ih (level + 1)
      · split
        · split
          · rfl
          · exact ih (level - 1)
        · exact ih level

theorem braceDepth_plain (free : braceFree text = true) : braceDepth level text = some level := by
  induction text with
  | nil => rfl
  | cons byte text ih =>
      rw [braceFree_iff, List.mem_cons, List.mem_cons, not_or, not_or] at free
      obtain ⟨⟨notOpen, laterOpen⟩, notClose, laterClose⟩ := free
      rw [braceDepth, if_neg (Ne.symm notOpen), if_neg (Ne.symm notClose)]
      exact ih (braceFree_iff.mpr ⟨laterOpen, laterClose⟩)

theorem braceDepth_add (ends : braceDepth level text = some left) (more : Nat) :
    braceDepth (level + more) text = some (left + more) := by
  induction text generalizing level with
  | nil =>
      rw [← Option.some.inj ends]
      rfl
  | cons byte text ih =>
      rw [braceDepth] at ends ⊢
      by_cases opens : byte = '\x7b'
      · rw [if_pos opens] at ends ⊢
        rw [Nat.add_right_comm]
        exact ih ends
      · rw [if_neg opens] at ends ⊢
        by_cases closes : byte = '\x7d'
        · rw [if_pos closes] at ends ⊢
          split at ends
          · cases ends
          · rename_i deep
            rw [if_neg (by omega), Nat.sub_add_comm (Nat.pos_of_ne_zero deep)]
            exact ih ends
        · rw [if_neg closes] at ends ⊢
          exact ih ends

/-- Inside a section, a text that closes only what it opens is passed over. -/
theorem closingIndex_within (ends : braceDepth level text = some left) (inside : 0 < depth) :
    closingIndex (text ++ rest) (depth + level) true index =
      closingIndex rest (depth + left) true (index + text.length) := by
  induction text generalizing level index with
  | nil =>
      rw [← Option.some.inj ends]
      rfl
  | cons byte text ih =>
      have length : index + 1 + text.length = index + (byte :: text).length := by
        rw [List.length_cons]
        omega
      rw [← length, List.cons_append]
      rw [braceDepth] at ends
      by_cases opens : byte = '\x7b'
      · rw [if_pos opens] at ends
        rw [opens, closingIndex_open (by omega), ← ih ends, Nat.cast_add_one, add_assoc]
      · rw [if_neg opens] at ends
        by_cases closes : byte = '\x7d'
        · rw [if_pos closes] at ends
          split at ends
          · cases ends
          · rename_i deep
            have above : depth + level - 1 = depth + (level - 1 : Nat) := by omega
            rw [closes, closingIndex_close (by omega), ← ih ends, above]
        · rw [if_neg closes] at ends
          have plain : braceFree [byte] = true := by
            rw [braceFree_iff, List.mem_singleton, List.mem_singleton]
            exact ⟨Ne.symm opens, Ne.symm closes⟩
          have passed := @closingIndex_plain [byte] (text ++ rest) (depth + level) true index plain
            (.inl (by omega))
          rw [List.singleton_append] at passed
          rw [passed, List.length_singleton, ih ends]

end Braces

/-- A section whose braces are balanced, after the first tag. -/
theorem parseSectionBlock_of_clear {front tag inner rest : Text}
    (clear : Clear tag front (tag ++ '\x7b' :: (inner ++ '\x7d' :: rest)))
    (balanced : ∀ index, closingIndex (inner ++ '\x7d' :: rest) 1 true index =
      some (index + inner.length)) :
    parseSectionBlock (front ++ (tag ++ '\x7b' :: (inner ++ '\x7d' :: rest))) tag =
      (inner, (front ++ (tag ++ '\x7b' :: (inner ++ '\x7d' :: rest))).drop (inner.length + 1)) := by
  have after : (front ++ (tag ++ '\x7b' :: (inner ++ '\x7d' :: rest))).drop
      (front.length + tag.length) = '\x7b' :: (inner ++ '\x7d' :: rest) := by
    rw [← List.append_assoc, ← List.length_append, List.drop_left]
  have width : tag.length + 1 + inner.length - tag.length = inner.length + 1 := by omega
  rw [parseSectionBlock, find_of_clear rfl clear]
  dsimp only
  rw [Nat.zero_add, after, closingIndex_open (le_refl 0), zero_add, balanced]
  dsimp only
  rw [width, substr, ← List.drop_drop, after, List.drop_one, List.tail_cons, Nat.add_sub_cancel,
    List.take_left]

theorem braceFree_fieldsText {fields : List (String × Text)}
    (free : ∀ field ∈ fields, braceFree field.1.toList = true ∧ braceFree field.2 = true) :
    braceFree (fieldsText fields) = true := by
  induction fields with
  | nil => rfl
  | cons field fields ih =>
      obtain ⟨name, value⟩ := free field (by simp)
      rw [fieldsText, List.flatMap_cons, braceFree_append]
      refine ⟨?_, ih fun later member => free later (by simp [member])⟩
      rw [jsonField_eq]
      simp only [braceFree_iff, List.mem_append, List.mem_cons] at name value ⊢
      simp [name, value]

theorem RecordReadable.braceFree_body {env : Env} {record : Record}
    (readable : RecordReadable env record) : braceFree (recordBody env record) = true := by
  have names : ∀ name ∈ recordFieldNames, braceFree name.toList = true := by
    intro name listed
    unfold recordFieldNames at listed
    fin_cases listed <;> rfl
  rw [recordBody, braceFree_append]
  refine ⟨braceFree_fieldsText fun field member => ?_, ?_⟩
  · exact ⟨names _ (recordFields_names member).1, (isPlain_iff.mp (readable.fields member)).2⟩
  · have signature := (isPlain_iff.mp readable.signature).2
    simp only [signatureText, tagText, braceFree_iff, List.mem_append, List.mem_cons] at signature ⊢
    simp [signature]

/-- What a record needs to be found in a block: no quotes in its fields, and braces
that close in order. -/
structure RecordEnclosed (env : Env) (record : Record) : Prop where
  quotes : QuoteFreeRecord env record
  braces : braceDepth 0 (recordBody env record) = some 0

theorem RecordReadable.enclosed {env : Env} {record : Record}
    (readable : RecordReadable env record) : RecordEnclosed env record where
  quotes := readable.quoteFree
  braces := braceDepth_plain readable.braceFree_body

/-- A record leaves open in a block what its fields leave open. -/
theorem braceDepth_recordJSON {env : Env} {record : Record} {left : Nat}
    (ends : braceDepth 0 (recordBody env record) = some left) :
    braceDepth 0 (recordJSON env record) = some left := by
  have opened : braceDepth 0 ('\x7b' :: (tagText "record".toList [] ++ ['\x7b', ' '])) = some 2 := rfl
  rw [recordJSON_surrounds, braceDepth_append, opened, Option.bind_some, braceDepth_append,
    ← Nat.zero_add 2, braceDepth_add ends, Option.bind_some]
  rfl

/-! ### The scan over the records -/

/-- From the end of the tag to the closing brace of the record. -/
def recordSpan (env : Env) (record : Record) : Nat :=
  2 + (recordBody env record).length

/-- The records that the scan yields when `offset` bytes stand before the next
tag. Of the input before a record, as much is kept as its tag and what stood
before the tag take up, so a short record after many others is found again. -/
def scanRecords (env : Env) : Nat → Nat → List Record → List Record
  | 0, _, _ => []
  | _ + 1, _, [] => []
  | rounds + 1, offset, record :: later =>
      record ::
        if recordSpan env record ≤ offset then
          scanRecords env rounds (offset - recordSpan env record) (record :: later)
        else scanRecords env rounds (offset + 13) later

/-- The records without the first brace. -/
def openRecords (env : Env) : List Record → Text
  | [] => []
  | record :: later => recordTail env record ++ later.flatMap (recordJSON env)

/-- The tag of a record without its first quote, and the rest of the record. -/
def recordInner (env : Env) (record : Record) : Text :=
  "record".toList ++ ('"' :: ':' :: '\x7b' :: ' ' :: (recordBody env record ++ ['\x7d', '\x7d', '\n']))

theorem recordTail_eq (env : Env) (record : Record) :
    recordTail env record = '"' :: recordInner env record := by
  simp [recordTail, recordInner, tagText]

section Record

variable {env : Env} {record : Record} (quotes : QuoteFreeRecord env record)
include quotes

theorem QuoteFreeRecord.clear_inner (name : String) {more rest : Text}
    (named : isTagName name.toList = true) (unlisted : name ∉ recordFieldNames)
    (notSignature : name ≠ "sig") :
    Clear (tagText name.toList more) (recordInner env record) rest := by
  have split : recordInner env record = "record".toList ++ (('"' :: ":\x7b ".toList) ++
      (recordBody env record ++ ['\x7d', '\x7d', '\n'])) := by
    simp [recordInner]
  rw [split]
  refine Clear.append (clear_of_notMem (quoteFree_iff.mp rfl)) (Clear.append ?_ (Clear.append ?_ ?_))
  · exact clear_punctuation named rfl rfl
  · refine quotes.clear_body name named (fun field member same => ?_) notSignature rfl
      (by simp)
    rw [same] at unlisted
    exact unlisted (recordFields_names member).1
  · exact clear_of_notMem (by decide)

theorem QuoteFreeRecord.clear_recordJSON (name : String) {more rest : Text}
    (named : isTagName name.toList = true) (unlisted : name ∉ recordFieldNames)
    (notSignature : name ≠ "sig") (notRecord : name ≠ "record") :
    Clear (tagText name.toList more) (recordJSON env record) rest := by
  have inner : Clear (tagText name.toList more) (recordInner env record) rest :=
    quotes.clear_inner name named unlisted notSignature
  rw [recordJSON_eq, recordTail_eq]
  refine clear_cons_iff.mpr ⟨fun found => ?_, clear_cons_iff.mpr ⟨fun found => ?_, inner⟩⟩
  · exact absurd (List.cons_prefix_cons.mp found).1 (by decide)
  · have later : name.toList ++ '"' :: (':' :: more) <+: "record".toList ++ '"' ::
        (':' :: '\x7b' :: ' ' :: (recordBody env record ++ ['\x7d', '\x7d', '\n']) ++ rest) := by
      have inside : name.toList ++ '"' :: ':' :: more <+: recordInner env record ++ rest :=
        (List.cons_prefix_cons.mp found).2
      rwa [recordInner, List.append_assoc] at inside
    have same := (eq_of_separated (isTagName_iff.mp named).1 (quoteFree_iff.mp rfl) later).1
    exact notRecord (String.toList_inj.mp same)

omit quotes in
/-- The section of the next record, and what is kept of the content. -/
theorem RecordEnclosed.parseSectionBlock_tail (enclosed : RecordEnclosed env record)
    {front rest : Text}
    (clear : Clear (tagText "record".toList []) front (recordTail env record ++ rest)) :
    parseSectionBlock (front ++ (recordTail env record ++ rest)) "\"record\":".toList =
      (' ' :: recordBody env record,
        (front ++ (recordTail env record ++ rest)).drop (recordSpan env record)) := by
  have split : recordTail env record ++ rest = tagText "record".toList [] ++
      ('\x7b' :: ((' ' :: recordBody env record) ++ ('\x7d' :: '\x7d' :: '\n' :: rest))) := by
    simp [recordTail]
  have ends : braceDepth 0 (' ' :: recordBody env record) = some 0 := enclosed.braces
  have span : (' ' :: recordBody env record).length + 1 = recordSpan env record := by
    rw [List.length_cons, recordSpan]
    omega
  rw [split] at clear ⊢
  rw [← span]
  refine parseSectionBlock_of_clear clear fun index => ?_
  exact (closingIndex_within ends one_pos).trans (closingIndex_last rfl)

end Record

theorem recordTail_length (env : Env) (record : Record) :
    (recordTail env record).length = recordSpan env record + 12 := by
  have tagLength : (tagText "record".toList []).length = 9 := rfl
  rw [recordTail, List.length_append, tagLength, recordSpan]
  simp
  omega

theorem scanRecords_nil (env : Env) (rounds offset : Nat) : scanRecords env rounds offset [] = [] := by
  cases rounds with
  | zero => rw [scanRecords]
  | succ rounds => rw [scanRecords]

/-- The input that is kept after a record whose tag is cut off. -/
def keptAfter (env : Env) (offset : Nat) (record : Record) (later : List Record) : Text :=
  (recordTail env record).drop (recordSpan env record - offset) ++
    if later = [] then [] else ['\x7b']

section Kept

variable {env : Env} {record : Record} {later : List Record} {front : Text}

theorem drop_recordSpan (past : front.length < recordSpan env record) :
    (front ++ openRecords env (record :: later)).drop (recordSpan env record) =
      keptAfter env front.length record later ++ openRecords env later := by
  have fits : recordSpan env record - front.length ≤ (recordTail env record).length := by
    rw [recordTail_length]
    omega
  rw [openRecords, List.drop_append, List.drop_eq_nil_of_le past.le, List.nil_append,
    List.drop_append_of_le_length fits, keptAfter]
  cases later with
  | nil => simp [openRecords]
  | cons next later => simp [openRecords, recordJSON_eq]

theorem keptAfter_length (next : Record) (past : front.length < recordSpan env record) :
    (keptAfter env front.length record (next :: later)).length = front.length + 13 := by
  rw [keptAfter, List.length_append, List.length_drop, recordTail_length, if_neg (by simp),
    List.length_singleton]
  omega

theorem clear_keptAfter (quotes : QuoteFreeRecord env record)
    (past : front.length < recordSpan env record) :
    Clear (tagText "record".toList []) (keptAfter env front.length record later)
      (openRecords env later) := by
  obtain ⟨less, more⟩ : ∃ less, recordSpan env record - front.length = less + 1 :=
    ⟨recordSpan env record - front.length - 1, by omega⟩
  have inner : ∀ rest, Clear (tagText "record".toList []) (recordInner env record) rest :=
    fun _ => quotes.clear_inner "record" rfl (by simp [recordFieldNames]) (by decide)
  have brace : '"' ∉ (if later = [] then [] else ['\x7b'] : Text) := by
    split <;> decide
  rw [keptAfter, more, recordTail_eq, List.drop_succ_cons]
  exact Clear.append ((inner _).drop less) (clear_of_notMem brace)

end Kept

/-- What the parser makes of the body of a record. -/
def recordReadBack (env : Env) (record : Record) : Record :=
  parseRecordJson env (' ' :: recordBody env record)

theorem QuoteFreeRecord.hash_readBack {env : Env} {record : Record}
    (quotes : QuoteFreeRecord env record) : (recordReadBack env record).hash = record.hash := by
  have found : (recordFields env record).lookup "hash" = some record.hash := by
    unfold recordFields
    split <;> rfl
  have read := quotes.lookup surrounds_space "hash" record.hash found
  rw [List.append_nil] at read
  exact read

theorem parseRecords_enclosed {env : Env} (rounds : Nat) :
    ∀ {front : Text} {records : List Record}, (∀ record ∈ records, RecordEnclosed env record) →
      Clear (tagText "record".toList []) front (openRecords env records) →
      parseRecords env rounds (front ++ openRecords env records) =
        (scanRecords env rounds front.length records).map (recordReadBack env) := by
  induction rounds with
  | zero =>
      intro front records _ _
      rw [parseRecords, scanRecords]
      rfl
  | succ rounds ih =>
      intro front records enclosed clear
      cases records with
      | nil =>
          have tag : "\"record\":".toList = tagText "record".toList [] := rfl
          have missing : find (front ++ []) (tagText "record".toList []) 0 = none :=
            find_none_of_clear (List.cons_ne_nil _ _) (by rw [List.append_nil]; exact clear)
          rw [parseRecords, tag, parseSectionBlock, openRecords, missing, scanRecords_nil]
          rfl
      | cons record later =>
          have own := enclosed record (by simp)
          rw [openRecords] at clear
          rw [parseRecords, openRecords, own.parseSectionBlock_tail clear]
          dsimp only
          rw [if_neg (List.cons_ne_nil _ _), scanRecords, List.map_cons, ← recordReadBack,
            List.cons_inj_right, ← openRecords]
          by_cases again : recordSpan env record ≤ front.length
          · -- the tag of this record is kept
            rw [if_pos again, List.drop_append_of_le_length again, ← List.length_drop]
            exact ih enclosed (clear.drop _)
          · rw [if_neg again, drop_recordSpan (not_le.mp again),
              ih (fun other member => enclosed other (List.mem_cons_of_mem _ member))
                (clear_keptAfter own.quotes (not_le.mp again))]
            cases later with
            | nil => rw [scanRecords_nil, scanRecords_nil]
            | cons next later => rw [keptAfter_length next (not_le.mp again)]

theorem mem_of_scanRecords {env : Env} {record : Record} (rounds : Nat) :
    ∀ {offset : Nat} {records : List Record}, record ∈ scanRecords env rounds offset records →
      record ∈ records := by
  induction rounds with
  | zero =>
      intro offset records member
      rw [scanRecords] at member
      cases member
  | succ rounds ih =>
      intro offset records member
      cases records with
      | nil =>
          rw [scanRecords] at member
          cases member
      | cons first later =>
          rw [scanRecords] at member
          cases List.mem_cons.mp member with
          | inl same =>
              rw [same]
              exact List.mem_cons_self
          | inr rest =>
              split at rest
              · exact ih rest
              · exact List.mem_cons_of_mem _ (ih rest)

/-! ### Records that are read once -/

/-- Every record is longer than what the scan keeps before it. -/
def RecordsFit (env : Env) (offset : Nat) (records : List Record) : Prop :=
  ∀ place record, records[place]? = some record → offset + 13 * place < recordSpan env record

section Fit

variable {env : Env} {offset rounds : Nat} {record : Record} {records later : List Record}

theorem recordsFit_nil : RecordsFit env offset [] := by
  intro place record found
  simp at found

theorem recordsFit_cons :
    RecordsFit env offset (record :: later) ↔
      offset < recordSpan env record ∧ RecordsFit env (offset + 13) later := by
  constructor
  · intro fits
    refine ⟨by simpa using fits 0 record rfl, fun place other found => ?_⟩
    have shifted := fits (place + 1) other (by simpa using found)
    omega
  · rintro ⟨first, fits⟩ place other found
    cases place with
    | zero =>
        obtain rfl : record = other := by simpa using found
        simpa using first
    | succ place =>
        have shifted := fits place other (by simpa using found)
        omega

instance decidableRecordsFit (env : Env) :
    (offset : Nat) → (records : List Record) → Decidable (RecordsFit env offset records)
  | _, [] => isTrue recordsFit_nil
  | offset, _ :: later =>
      have := decidableRecordsFit env (offset + 13) later
      decidable_of_iff _ recordsFit_cons.symm

theorem scanRecords_of_fit (enough : records.length ≤ rounds) (fits : RecordsFit env offset records) :
    scanRecords env rounds offset records = records := by
  induction records generalizing rounds offset with
  | nil => exact scanRecords_nil env rounds offset
  | cons record later ih =>
      obtain ⟨rounds, rfl⟩ : ∃ less, rounds = less + 1 :=
        ⟨rounds - 1, by rw [List.length_cons] at enough; omega⟩
      obtain ⟨first, rest⟩ := recordsFit_cons.mp fits
      rw [List.length_cons] at enough
      rw [scanRecords, if_neg (not_le.mpr first), ih (by omega) rest]

/-- No record is passed over. -/
theorem length_scanRecords : min rounds records.length ≤ (scanRecords env rounds offset records).length := by
  induction rounds generalizing offset records with
  | zero => simp
  | succ rounds ih =>
      cases records with
      | nil => simp
      | cons record later =>
          rw [scanRecords, List.length_cons, List.length_cons]
          split
          · have again := @ih (offset - recordSpan env record) (record :: later)
            rw [List.length_cons] at again
            omega
          · have next := @ih (offset + 13) later
            omega

/-- A record that does not fit is read twice. -/
theorem length_scanRecords_of_not_fit (enough : records.length < rounds)
    (unfit : ¬ RecordsFit env offset records) :
    records.length < (scanRecords env rounds offset records).length := by
  induction records generalizing rounds offset with
  | nil => exact absurd recordsFit_nil unfit
  | cons record later ih =>
      obtain ⟨rounds, rfl⟩ : ∃ less, rounds = less + 1 := ⟨rounds - 1, by omega⟩
      rw [List.length_cons] at enough ⊢
      rw [scanRecords, List.length_cons]
      split
      · have again := @length_scanRecords env (offset - recordSpan env record) rounds
          (record :: later)
        rw [List.length_cons] at again
        omega
      · rename_i past
        rw [recordsFit_cons, not_and] at unfit
        have next := @ih (offset + 13) rounds (by omega) (unfit (not_le.mp past))
        omega

theorem scanRecords_eq_iff (enough : records.length < rounds) :
    scanRecords env rounds offset records = records ↔ RecordsFit env offset records := by
  constructor
  · intro same
    by_contra unfit
    have longer := length_scanRecords_of_not_fit enough unfit
    rw [same] at longer
    exact lt_irrefl _ longer
  · exact scanRecords_of_fit enough.le

end Fit

end Safire
