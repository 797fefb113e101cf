/-
The requests that the server reads from a connection.

The parser takes one byte after another and refuses at the first byte behind which
no request can follow. What it accepts are the texts of the heads below: a request
line, header lines that may be continued, and an empty line.
-/

import Safire.Library.Feed
import Safire.RequestTransport
import Mathlib.Data.List.ModifyLast

namespace Safire.RequestParser

open Text Feed

/-! ### The parser -/

structure Header where
  name : Text
  value : Text
  deriving DecidableEq, Repr

/-- The version numbers are of type `int`, whose overflow is taken to wrap around. -/
structure Request where
  method : Text
  uri : Text
  body : Text
  httpVersionMajor : BitVec 32
  httpVersionMinor : BitVec 32
  headers : List Header

/-- The members of a new connection. The numbers are unassigned there and set to
zero before they are read. -/
def Request.empty : Request :=
  { method := [], uri := [], body := [], httpVersionMajor := 0, httpVersionMinor := 0,
    headers := [] }

inductive State where
  | methodStart
  | method
  | uriStart
  | uri
  | httpVersionH
  | httpVersionT1
  | httpVersionT2
  | httpVersionP
  | httpVersionSlash
  | httpVersionMajorStart
  | httpVersionMajor
  | httpVersionMinorStart
  | httpVersionMinor
  | expectingNewline1
  | headerLineStart
  | headerLws
  | headerName
  | spaceBeforeHeaderValue
  | headerValue
  | expectingNewline2
  | expectingNewline3
  deriving DecidableEq, Repr

/-- A byte above 127 is a negative `char`. -/
def isChar (byte : Char) : Bool :=
  byte.toNat ≤ 127

def isCtl (byte : Char) : Bool :=
  byte.toNat ≤ 31 || byte.toNat = 127

def isTspecial (byte : Char) : Bool :=
  byte ∈ ['(', ')', '<', '>', '@', ',', ';', ':', '\\', '"', '/', '[', ']', '?', '=', '\x7b',
    '\x7d', ' ', '\t']

def isDigit (byte : Char) : Bool :=
  byte.isDigit

/-- `!is_char(input) || is_ctl(input) || is_tspecial(input)`. -/
def isSeparator (byte : Char) : Bool :=
  !isChar byte || isCtl byte || isTspecial byte

namespace Request

def pushMethod (request : Request) (input : Char) : Request :=
  { request with method := request.method ++ [input] }

def pushUri (request : Request) (input : Char) : Request :=
  { request with uri := request.uri ++ [input] }

def resetVersion (request : Request) : Request :=
  { request with httpVersionMajor := 0, httpVersionMinor := 0 }

/-- `number * 10 + input - '0'`. -/
def pushDigit (number : BitVec 32) (input : Char) : BitVec 32 :=
  number * 10 + BitVec.ofNat 32 (input.toNat - '0'.toNat)

def pushMajor (request : Request) (input : Char) : Request :=
  { request with httpVersionMajor := pushDigit request.httpVersionMajor input }

def pushMinor (request : Request) (input : Char) : Request :=
  { request with httpVersionMinor := pushDigit request.httpVersionMinor input }

/-- `headers.push_back(header())` and the first byte of its name. -/
def openHeader (request : Request) (input : Char) : Request :=
  { request with headers := request.headers ++ [{ name := [input], value := [] }] }

/-- `headers.back().name.push_back(input)`. -/
def pushName (request : Request) (input : Char) : Request :=
  { request with headers := request.headers.modifyLast fun header =>
      { header with name := header.name ++ [input] } }

/-- `headers.back().value.push_back(input)`. -/
def pushValue (request : Request) (input : Char) : Request :=
  { request with headers := request.headers.modifyLast fun header =>
      { header with value := header.value ++ [input] } }

end Request

abbrev Step := Verdict (State × Request) (Bool × Request)

/-- A state in which only one byte is let through. -/
def expect (byte : Char) (next : State) (request : Request) (input : Char) : Step :=
  if input = byte then .more (next, request) else .done (false, request)

def consume (parser : State × Request) (input : Char) : Step :=
  let request := parser.2
  let refuse : Step := .done (false, request)
  match parser.1 with
  | .methodStart =>
      if isSeparator input then refuse else .more (.method, request.pushMethod input)
  | .method =>
      if input = ' ' then .more (.uri, request)
      else if isSeparator input then refuse
      else .more (.method, request.pushMethod input)
  | .uriStart => if isCtl input then refuse else .more (.uri, request.pushUri input)
  | .uri =>
      if input = ' ' then .more (.httpVersionH, request)
      else if isCtl input then refuse
      else .more (.uri, request.pushUri input)
  | .httpVersionH => expect 'H' .httpVersionT1 request input
  | .httpVersionT1 => expect 'T' .httpVersionT2 request input
  | .httpVersionT2 => expect 'T' .httpVersionP request input
  | .httpVersionP => expect 'P' .httpVersionSlash request input
  | .httpVersionSlash =>
      if input = '/' then .more (.httpVersionMajorStart, request.resetVersion) else refuse
  | .httpVersionMajorStart =>
      if isDigit input then .more (.httpVersionMajor, request.pushMajor input) else refuse
  | .httpVersionMajor =>
      if input = '.' then .more (.httpVersionMinorStart, request)
      else if isDigit input then .more (.httpVersionMajor, request.pushMajor input)
      else refuse
  | .httpVersionMinorStart =>
      if isDigit input then .more (.httpVersionMinor, request.pushMinor input) else refuse
  | .httpVersionMinor =>
      if input = '\r' then .more (.expectingNewline1, request)
      else if isDigit input then .more (.httpVersionMinor, request.pushMinor input)
      else refuse
  | .expectingNewline1 => expect '\n' .headerLineStart request input
  | .headerLineStart =>
      if input = '\r' then .more (.expectingNewline3, request)
      else if !request.headers.isEmpty && (input = ' ' || input = '\t') then
        .more (.headerLws, request)
      else if isSeparator input then refuse
      else .more (.headerName, request.openHeader input)
  | .headerLws =>
      if input = '\r' then .more (.expectingNewline2, request)
      else if input = ' ' || input = '\t' then .more (.headerLws, request)
      else if isCtl input then refuse
      else .more (.headerValue, request.pushValue input)
  | .headerName =>
      if input = ':' then .more (.spaceBeforeHeaderValue, request)
      else if isSeparator input then refuse
      else .more (.headerName, request.pushName input)
  | .spaceBeforeHeaderValue => expect ' ' .headerValue request input
  | .headerValue =>
      if input = '\r' then .more (.expectingNewline2, request)
      else if isCtl input then refuse
      else .more (.headerValue, request.pushValue input)
  | .expectingNewline2 => expect '\n' .headerLineStart request input
  | .expectingNewline3 => .done (input = '\n', request)

/-- `parse` from the state in which the parser is. -/
def parse (parser : State × Request) (content : Text) :
    Verdict (State × Request) ((Bool × Request) × Text) :=
  feed consume parser content

def start : State × Request :=
  (.methodStart, .empty)

/-! ### Heads -/

/-- A byte of a method or of a header name. -/
abbrev IsToken (byte : Char) : Prop :=
  isSeparator byte = false

/-- A line that continues the value of the header before it. -/
structure Fold where
  blanks : Text
  value : Text
  present : blanks ≠ []
  blank : ∀ byte ∈ blanks, byte = ' ' ∨ byte = '\t'
  clean : ∀ byte ∈ value, isCtl byte = false
  starts : value.head? ≠ some ' '

structure HeaderLine where
  name : Text
  value : Text
  folds : List Fold
  named : name ≠ []
  token : ∀ byte ∈ name, IsToken byte
  clean : ∀ byte ∈ value, isCtl byte = false

structure RequestLine where
  method : Text
  uri : Text
  major : Text
  minor : Text
  present : method ≠ []
  token : ∀ byte ∈ method, IsToken byte
  solid : ∀ byte ∈ uri, byte ≠ ' ' ∧ isCtl byte = false
  majorPresent : major ≠ []
  majorDigits : ∀ byte ∈ major, isDigit byte = true
  minorPresent : minor ≠ []
  minorDigits : ∀ byte ∈ minor, isDigit byte = true

/-- What stands before the body of a request. -/
structure Head extends RequestLine where
  lines : List HeaderLine

def newline : Text :=
  ['\r', '\n']

def Fold.text (fold : Fold) : Text :=
  fold.blanks ++ (fold.value ++ newline)

def HeaderLine.text (line : HeaderLine) : Text :=
  line.name ++ (": ".toList ++ (line.value ++ (newline ++ line.folds.flatMap Fold.text)))

/-- The continued lines follow without a blank. -/
def HeaderLine.header (line : HeaderLine) : Header where
  name := line.name
  value := line.value ++ line.folds.flatMap Fold.value

def RequestLine.text (line : RequestLine) : Text :=
  line.method ++ (' ' :: (line.uri ++ (' ' :: ("HTTP/".toList ++ (line.major ++ ('.' ::
    (line.minor ++ newline)))))))

def Head.text (head : Head) : Text :=
  head.toRequestLine.text ++ (head.lines.flatMap HeaderLine.text ++ newline)

def RequestLine.request (line : RequestLine) : Request where
  method := line.method
  uri := line.uri
  body := []
  httpVersionMajor := BitVec.ofNat 32 (digitsValue line.major)
  httpVersionMinor := BitVec.ofNat 32 (digitsValue line.minor)
  headers := []

def Head.request (head : Head) : Request :=
  { head.toRequestLine.request with headers := head.lines.map HeaderLine.header }

/-! ### What the states let through -/

/-- The text is accepted from a state, with the request then read. -/
def Reads (state : State) (request : Request) (text : Text) (final : Request) (rest : Text) : Prop :=
  parse (state, request) text = .done ((true, final), rest)

variable {state next : State} {request final : Request} {text rest : Text} {byte : Char}

def Refusal (result : Bool × Request) : Prop :=
  result.1 = false

/-- A state that lets the bytes of one kind through. -/
theorem reads_one (allowed : Char → Prop) [DecidablePred allowed] (push : Request → Char → Request)
    (takes : ∀ input, consume (state, request) input =
      if allowed input then .more (next, push request input) else .done (false, request)) :
    Reads state request text final rest ↔ ∃ byte later, text = byte :: later ∧ allowed byte ∧
      Reads next (push request byte) later final rest :=
  feed_one_iff Refusal allowed (fun input => (next, push request input)) Bool.noConfusion
    (fun input fits => (takes input).trans (if_pos fits))
    (fun input other => ⟨_, (takes input).trans (if_neg other), rfl⟩)

theorem reads_expect (takes : ∀ input, consume (state, request) input = expect byte next request input) :
    Reads state request text final rest ↔
      ∃ later, text = byte :: later ∧ Reads next request later final rest := by
  rw [reads_one (· = byte) (fun request _ => request) takes]
  constructor
  · rintro ⟨_, later, split, rfl, reads⟩
    exact ⟨later, split, reads⟩
  · rintro ⟨later, split, reads⟩
    exact ⟨byte, later, split, rfl, reads⟩

/-- A state that collects bytes of one kind up to a mark. -/
theorem reads_word {stop : Char} {allowed : Char → Prop} [DecidablePred allowed]
    {push : Request → Char → Request}
    (takes : ∀ request input, consume (state, request) input =
      if input = stop then .more (next, request)
      else if allowed input then .more (state, push request input) else .done (false, request)) :
    Reads state request text final rest ↔ ∃ word later, text = word ++ stop :: later ∧
      (∀ byte ∈ word, byte ≠ stop ∧ allowed byte) ∧
      Reads next (word.foldl push request) later final rest := by
  refine feed_word_iff Refusal (fun request => (state, request)) (fun request => (next, request))
    Bool.noConfusion request ?_ ?_ ?_
  · intro request
    rw [takes, if_pos rfl]
  · intro request input other fits
    rw [takes, if_neg other, if_pos fits]
  · intro request input other refused
    exact ⟨(false, request), by rw [takes, if_neg other, if_neg refused], rfl⟩

/-- A first byte and a word behind it. -/
theorem reads_token {front : State} {stop : Char} {allowed : Char → Prop} [DecidablePred allowed]
    {first push : Request → Char → Request} (unstopped : ¬ allowed stop)
    (starts : ∀ input, consume (front, request) input =
      if allowed input then .more (state, first request input) else .done (false, request))
    (takes : ∀ request input, consume (state, request) input =
      if input = stop then .more (next, request)
      else if allowed input then .more (state, push request input) else .done (false, request)) :
    Reads front request text final rest ↔ ∃ byte word later, text = byte :: word ++ stop :: later ∧
      (∀ other ∈ byte :: word, allowed other) ∧
      Reads next (word.foldl push (first request byte)) later final rest := by
  rw [reads_one allowed first starts]
  constructor
  · rintro ⟨byte, more, rfl, fits, reads⟩
    obtain ⟨word, later, rfl, all, reads⟩ := (reads_word takes).mp reads
    exact ⟨byte, word, later, rfl, List.forall_mem_cons.mpr ⟨fits, fun other member =>
      (all other member).2⟩, reads⟩
  · rintro ⟨byte, word, later, rfl, all, reads⟩
    have parts := List.forall_mem_cons.mp all
    refine ⟨byte, word ++ stop :: later, rfl, parts.1, (reads_word takes).mpr
      ⟨word, later, rfl, fun other member => ⟨?_, parts.2 other member⟩, reads⟩⟩
    rintro rfl
    exact unstopped (parts.2 _ member)

/-! ### The request line -/

theorem foldl_pushMethod (word : Text) (request : Request) :
    word.foldl Request.pushMethod request = { request with method := request.method ++ word } := by
  induction word generalizing request with
  | nil => rw [List.append_nil, List.foldl_nil]
  | cons byte rest ih =>
      rw [List.foldl_cons, ih, Request.pushMethod, List.append_assoc, List.singleton_append]

theorem foldl_pushUri (word : Text) (request : Request) :
    word.foldl Request.pushUri request = { request with uri := request.uri ++ word } := by
  induction word generalizing request with
  | nil => rw [List.append_nil, List.foldl_nil]
  | cons byte rest ih =>
      rw [List.foldl_cons, ih, Request.pushUri, List.append_assoc, List.singleton_append]

/-- What the digits add to a number differs from their value by whole turns. -/
theorem foldl_pushDigit (word : Text) (value : Nat) :
    word.foldl Request.pushDigit (BitVec.ofNat 32 value) = BitVec.ofNat 32
      (word.foldl (fun value digit => 10 * value + (digit.toNat - '0'.toNat)) value) := by
  induction word generalizing value with
  | nil => rfl
  | cons byte rest ih =>
      have step : Request.pushDigit (BitVec.ofNat 32 value) byte =
          BitVec.ofNat 32 (10 * value + (byte.toNat - '0'.toNat)) := by
        rw [Request.pushDigit, Nat.mul_comm, BitVec.ofNat_add, BitVec.ofNat_mul]
        rfl
      rw [List.foldl_cons, List.foldl_cons, step, ih]

/-- From zero the digits give the number that they stand for. -/
theorem foldl_pushDigit_zero (word : Text) :
    word.foldl Request.pushDigit 0 = BitVec.ofNat 32 (digitsValue word) :=
  foldl_pushDigit word 0

theorem foldl_pushMajor (word : Text) (request : Request) :
    word.foldl Request.pushMajor request =
      { request with httpVersionMajor := word.foldl Request.pushDigit request.httpVersionMajor } := by
  induction word generalizing request with
  | nil => rfl
  | cons byte rest ih => rw [List.foldl_cons, ih, List.foldl_cons, Request.pushMajor]

theorem foldl_pushMinor (word : Text) (request : Request) :
    word.foldl Request.pushMinor request =
      { request with httpVersionMinor := word.foldl Request.pushDigit request.httpVersionMinor } := by
  induction word generalizing request with
  | nil => rfl
  | cons byte rest ih => rw [List.foldl_cons, ih, List.foldl_cons, Request.pushMinor]

theorem reads_method : Reads .methodStart request text final rest ↔
    ∃ byte word later, text = byte :: word ++ ' ' :: later ∧
      (∀ other ∈ byte :: word, IsToken other) ∧
      Reads .uri { request with method := request.method ++ byte :: word } later final rest := by
  have unstopped : ¬ IsToken ' ' := by decide
  have starts : ∀ input, consume (.methodStart, request) input =
      if IsToken input then .more (.method, request.pushMethod input)
      else .done (false, request) := by
    intro input
    simp only [consume, IsToken, ← Bool.not_eq_true, ite_not]
  have takes : ∀ request input, consume (.method, request) input =
      if input = ' ' then .more (.uri, request)
      else if IsToken input then .more (.method, request.pushMethod input)
      else .done (false, request) := by
    intro request input
    simp only [consume, IsToken, ← Bool.not_eq_true, ite_not]
  rw [reads_token unstopped starts takes]
  simp only [foldl_pushMethod, Request.pushMethod, List.append_assoc, List.singleton_append]

theorem reads_uri : Reads .uri request text final rest ↔
    ∃ word later, text = word ++ ' ' :: later ∧
      (∀ byte ∈ word, byte ≠ ' ' ∧ isCtl byte = false) ∧
      Reads .httpVersionH { request with uri := request.uri ++ word } later final rest := by
  have takes : ∀ request input, consume (.uri, request) input =
      if input = ' ' then .more (.httpVersionH, request)
      else if isCtl input = false then .more (.uri, request.pushUri input)
      else .done (false, request) := by
    intro request input
    simp only [consume, ← Bool.not_eq_true, ite_not]
  rw [reads_word takes]
  simp only [foldl_pushUri]

theorem reads_http : Reads .httpVersionH request text final rest ↔
    ∃ later, text = "HTTP/".toList ++ later ∧
      Reads .httpVersionMajorStart request.resetVersion later final rest := by
  constructor
  · intro reads
    obtain ⟨_, rfl, t1⟩ := (reads_expect fun _ => rfl).mp reads
    obtain ⟨_, rfl, t2⟩ := (reads_expect fun _ => rfl).mp t1
    obtain ⟨_, rfl, p⟩ := (reads_expect fun _ => rfl).mp t2
    obtain ⟨_, rfl, slash⟩ := (reads_expect fun _ => rfl).mp p
    obtain ⟨_, later, rfl, rfl, version⟩ :=
      (reads_one (· = '/') (fun request _ => request.resetVersion) fun _ => rfl).mp slash
    exact ⟨later, rfl, version⟩
  · rintro ⟨later, rfl, reads⟩
    exact reads

theorem reads_major : Reads .httpVersionMajorStart request text final rest ↔
    ∃ byte word later, text = byte :: word ++ '.' :: later ∧
      (∀ other ∈ byte :: word, isDigit other = true) ∧
      Reads .httpVersionMinorStart
        { request with
          httpVersionMajor := (byte :: word).foldl Request.pushDigit request.httpVersionMajor }
        later final rest := by
  have unstopped : ¬ isDigit '.' = true := by decide
  rw [reads_token unstopped (fun _ => rfl) (fun _ _ => rfl)]
  simp only [← List.foldl_cons, foldl_pushMajor]

theorem reads_minor : Reads .httpVersionMinorStart request text final rest ↔
    ∃ byte word later, text = byte :: word ++ '\r' :: later ∧
      (∀ other ∈ byte :: word, isDigit other = true) ∧
      Reads .expectingNewline1
        { request with
          httpVersionMinor := (byte :: word).foldl Request.pushDigit request.httpVersionMinor }
        later final rest := by
  have unstopped : ¬ isDigit '\r' = true := by decide
  rw [reads_token unstopped (fun _ => rfl) (fun _ _ => rfl)]
  simp only [← List.foldl_cons, foldl_pushMinor]

/-- A new parser gets to the header lines exactly behind a request line. -/
theorem reads_requestLine : Reads .methodStart .empty text final rest ↔
    ∃ (line : RequestLine) (later : Text), text = line.text ++ later ∧
      Reads .headerLineStart line.request later final rest := by
  constructor
  · intro reads
    obtain ⟨first, method, _, rfl, token, atUri⟩ := reads_method.mp reads
    obtain ⟨uri, _, rfl, solid, atHttp⟩ := reads_uri.mp atUri
    obtain ⟨_, rfl, atMajor⟩ := reads_http.mp atHttp
    obtain ⟨_, major, _, rfl, majorDigits, atMinor⟩ := reads_major.mp atMajor
    obtain ⟨_, minor, _, rfl, minorDigits, atNewline⟩ := reads_minor.mp atMinor
    obtain ⟨later, rfl, atHeaders⟩ := (reads_expect fun _ => rfl).mp atNewline
    let line : RequestLine :=
      { method := _, uri := uri, major := _, minor := _, token := token, solid := solid,
        majorDigits := majorDigits, minorDigits := minorDigits, present := List.cons_ne_nil _ _,
        majorPresent := List.cons_ne_nil _ _, minorPresent := List.cons_ne_nil _ _ }
    refine ⟨line, later, ?_, ?_⟩
    · simp only [RequestLine.text, line, newline, List.append_assoc, List.cons_append,
        List.nil_append]
    · rw [RequestLine.request, ← foldl_pushDigit_zero, ← foldl_pushDigit_zero]
      exact atHeaders
  · rintro ⟨line, later, rfl, atHeaders⟩
    obtain ⟨first, method, methodSplit⟩ := List.exists_cons_of_ne_nil line.present
    obtain ⟨high, major, majorSplit⟩ := List.exists_cons_of_ne_nil line.majorPresent
    obtain ⟨low, minor, minorSplit⟩ := List.exists_cons_of_ne_nil line.minorPresent
    have text : line.text ++ later = first :: method ++ ' ' :: (line.uri ++ ' ' :: ("HTTP/".toList ++
        (high :: major ++ '.' :: (low :: minor ++ '\r' :: '\n' :: later)))) := by
      rw [RequestLine.text, ← methodSplit, ← majorSplit, ← minorSplit]
      simp only [newline, List.append_assoc, List.cons_append, List.nil_append]
    rw [text]
    refine reads_method.mpr ⟨first, method, _, rfl, methodSplit ▸ line.token, ?_⟩
    refine reads_uri.mpr ⟨line.uri, _, rfl, line.solid, ?_⟩
    refine reads_http.mpr ⟨_, rfl, ?_⟩
    refine reads_major.mpr ⟨high, major, _, rfl, majorSplit ▸ line.majorDigits, ?_⟩
    refine reads_minor.mpr ⟨low, minor, _, rfl, minorSplit ▸ line.minorDigits, ?_⟩
    refine (reads_expect fun _ => rfl).mpr ⟨later, rfl, ?_⟩
    rw [RequestLine.request, ← foldl_pushDigit_zero, ← foldl_pushDigit_zero] at atHeaders
    rw [← methodSplit, ← majorSplit, ← minorSplit]
    exact atHeaders

/-! ### The header lines -/

/-- `headers.back().value.append(value)`. -/
def Request.extend (request : Request) (value : Text) : Request :=
  { request with headers := request.headers.modifyLast fun header =>
      { header with value := header.value ++ value } }

theorem modifyLast_modifyLast {α : Type} (first second : α → α) (items : List α) :
    (items.modifyLast first).modifyLast second = items.modifyLast (second ∘ first) := by
  rcases List.eq_nil_or_concat' items with rfl | ⟨front, last, rfl⟩
  · rfl
  · rw [List.modifyLast_concat, List.modifyLast_concat, List.modifyLast_concat]
    rfl

theorem modifyLast_id {α : Type} (items : List α) : items.modifyLast id = items := by
  rcases List.eq_nil_or_concat' items with rfl | ⟨front, last, rfl⟩
  · rfl
  · rw [List.modifyLast_concat, id]

theorem foldl_pushValue (value : Text) (request : Request) :
    value.foldl Request.pushValue request = request.extend value := by
  induction value generalizing request with
  | nil =>
      have same : (fun header : Header => { header with value := header.value ++ [] }) = id := by
        funext header
        rw [List.append_nil]
        rfl
      rw [List.foldl_nil, Request.extend, same, modifyLast_id]
  | cons byte rest ih =>
      rw [List.foldl_cons, ih, Request.extend, Request.pushValue, modifyLast_modifyLast]
      simp only [Request.extend, Function.comp_def, List.append_assoc, List.singleton_append]

theorem foldl_pushName (name : Text) (request : Request) (headers : List Header) (header : Header)
    (opened : request.headers = headers ++ [header]) :
    name.foldl Request.pushName request =
      { request with headers := headers ++ [{ header with name := header.name ++ name }] } := by
  induction name generalizing request header with
  | nil => rw [List.foldl_nil, List.append_nil, ← opened]
  | cons byte rest ih =>
      have pushed : (request.pushName byte).headers =
          headers ++ [{ header with name := header.name ++ [byte] }] := by
        rw [Request.pushName, opened, List.modifyLast_concat]
      rw [List.foldl_cons, ih _ _ pushed, Request.pushName, List.append_assoc, List.singleton_append]

theorem reads_value : Reads .headerValue request text final rest ↔
    ∃ value later, text = value ++ '\r' :: later ∧ (∀ byte ∈ value, isCtl byte = false) ∧
      Reads .expectingNewline2 (request.extend value) later final rest := by
  have takes : ∀ request input, consume (.headerValue, request) input =
      if input = '\r' then .more (.expectingNewline2, request)
      else if isCtl input = false then .more (.headerValue, request.pushValue input)
      else .done (false, request) := by
    intro request input
    simp only [consume, ← Bool.not_eq_true, ite_not]
  rw [reads_word takes]
  simp only [foldl_pushValue]
  refine exists_congr fun value => exists_congr fun later => and_congr_right fun _ =>
    and_congr_left fun _ => forall_congr' fun byte => forall_congr' fun _ => ?_
  refine and_iff_right_of_imp fun clean => ?_
  rintro rfl
  revert clean
  decide

theorem extend_nil (request : Request) : request.extend [] = request :=
  (foldl_pushValue [] request).symm

theorem extend_cons (request : Request) (byte : Char) (value : Text) :
    (request.pushValue byte).extend value = request.extend (byte :: value) := by
  rw [← foldl_pushValue, ← foldl_pushValue, List.foldl_cons]

theorem extend_append (request : Request) (first second : Text) :
    (request.extend first).extend second = request.extend (first ++ second) := by
  rw [← foldl_pushValue first, ← foldl_pushValue, ← foldl_pushValue, List.foldl_append]

def IsBlank (byte : Char) : Prop :=
  byte = ' ' ∨ byte = '\t'

/-- The blanks in front of a continued value are skipped. -/
theorem reads_blank (blank : IsBlank byte) : Reads .headerLws request (byte :: text) final rest ↔
    Reads .headerLws request text final rest := by
  rcases blank with rfl | rfl <;> exact Iff.rfl

/-- The first byte of a continued value. -/
theorem reads_first (clean : isCtl byte = false) (solid : byte ≠ ' ') :
    Reads .headerLws request (byte :: text) final rest ↔
      Reads .headerValue (request.pushValue byte) text final rest := by
  have notReturn : byte ≠ '\r' := by
    rintro rfl
    revert clean
    decide
  have notTab : byte ≠ '\t' := by
    rintro rfl
    revert clean
    decide
  have step : consume (.headerLws, request) byte = .more (.headerValue, request.pushValue byte) := by
    simp only [consume, notReturn, solid, notTab, clean, if_false, decide_false, Bool.or_self,
      Bool.false_eq_true]
  rw [Reads, parse, feed_cons_more step]
  rfl

theorem reads_lws : Reads .headerLws request text final rest ↔
    ∃ blanks value later, text = blanks ++ (value ++ '\r' :: later) ∧
      (∀ byte ∈ blanks, IsBlank byte) ∧ (∀ byte ∈ value, isCtl byte = false) ∧
      value.head? ≠ some ' ' ∧
      Reads .expectingNewline2 (request.extend value) later final rest := by
  constructor
  · intro reads
    induction text with
    | nil => cases reads
    | cons byte more ih =>
        by_cases returns : byte = '\r'
        · subst returns
          refine ⟨[], [], more, rfl, fun _ member => absurd member List.not_mem_nil,
            fun _ member => absurd member List.not_mem_nil, (Option.some_ne_none ' ').symm, ?_⟩
          rw [extend_nil]
          exact reads
        by_cases blank : IsBlank byte
        · obtain ⟨blanks, value, later, rfl, blanksAll, clean, starts, after⟩ :=
            ih ((reads_blank blank).mp reads)
          exact ⟨byte :: blanks, value, later, rfl, List.forall_mem_cons.mpr ⟨blank, blanksAll⟩,
            clean, starts, after⟩
        by_cases control : isCtl byte = true
        · have step : consume (.headerLws, request) byte = .done (false, request) := by
            rw [IsBlank, not_or] at blank
            simp only [consume, returns, blank.1, blank.2, control, if_false, decide_false,
              Bool.or_self, Bool.false_eq_true, if_true]
          rw [Reads, parse, feed_cons_done step] at reads
          cases reads
        · have clean := Bool.eq_false_iff.mpr control
          have solid : byte ≠ ' ' := fun same => blank (.inl same)
          obtain ⟨value, later, rfl, cleanAll, after⟩ :=
            reads_value.mp ((reads_first clean solid).mp reads)
          refine ⟨[], byte :: value, later, rfl, fun _ member => absurd member List.not_mem_nil,
            List.forall_mem_cons.mpr ⟨clean, cleanAll⟩, fun same => solid (Option.some.inj same), ?_⟩
          rw [← extend_cons]
          exact after
  · rintro ⟨blanks, value, later, rfl, blank, clean, starts, after⟩
    induction blanks with
    | nil =>
        cases value with
        | nil =>
            rw [extend_nil] at after
            exact after
        | cons byte more =>
            have cleans := List.forall_mem_cons.mp clean
            have solid : byte ≠ ' ' := fun same => starts (congrArg some same)
            rw [← extend_cons] at after
            exact (reads_first cleans.1 solid).mpr
              (reads_value.mpr ⟨more, later, rfl, cleans.2, after⟩)
    | cons byte more ih =>
        have blanks := List.forall_mem_cons.mp blank
        exact (reads_blank blanks.1).mpr (ih blanks.2)

/-- A header without the lines that continue it. -/
theorem reads_line {first : Char} (token : IsToken first) :
    Reads .headerLineStart request (first :: text) final rest ↔
      ∃ name value later, text = name ++ ':' :: ' ' :: (value ++ (newline ++ later)) ∧
        (∀ byte ∈ name, IsToken byte) ∧ (∀ byte ∈ value, isCtl byte = false) ∧
        Reads .headerLineStart
          { request with headers := request.headers ++ [{ name := first :: name, value := value }] }
          later final rest := by
  have notReturn : first ≠ '\r' := by
    rintro rfl
    revert token
    decide
  have notBlank : first ≠ ' ' ∧ first ≠ '\t' := by
    constructor <;> rintro rfl <;> revert token <;> decide
  have step : consume (.headerLineStart, request) first =
      .more (.headerName, request.openHeader first) := by
    rw [IsToken] at token
    simp only [consume, notReturn, notBlank.1, notBlank.2, token, if_false, decide_false,
      Bool.or_self, Bool.and_false, Bool.false_eq_true]
  have takes : ∀ request input, consume (.headerName, request) input =
      if input = ':' then .more (.spaceBeforeHeaderValue, request)
      else if IsToken input then .more (.headerName, request.pushName input)
      else .done (false, request) := by
    intro request input
    simp only [consume, IsToken, ← Bool.not_eq_true, ite_not]
  have unstopped : ¬ IsToken ':' := by decide
  have opened : (request.openHeader first).headers =
      request.headers ++ [{ name := [first], value := [] }] := rfl
  rw [Reads, parse, feed_cons_more step, ← parse, ← Reads, reads_word takes]
  simp only [foldl_pushName _ _ _ _ opened]
  constructor
  · rintro ⟨name, _, rfl, named, atSpace⟩
    obtain ⟨_, rfl, atValue⟩ := (reads_expect fun _ => rfl).mp atSpace
    obtain ⟨value, _, rfl, clean, atNewline⟩ := reads_value.mp atValue
    obtain ⟨later, rfl, after⟩ := (reads_expect fun _ => rfl).mp atNewline
    rw [Request.extend, List.modifyLast_concat] at after
    exact ⟨name, value, later, rfl, fun byte member => (named byte member).2, clean, after⟩
  · rintro ⟨name, value, later, rfl, named, clean, after⟩
    refine ⟨name, _, rfl, fun byte member => ⟨?_, named byte member⟩, ?_⟩
    · rintro rfl
      exact unstopped (named _ member)
    refine (reads_expect fun _ => rfl).mpr ⟨_, rfl, reads_value.mpr ⟨value, _, rfl, clean, ?_⟩⟩
    refine (reads_expect fun _ => rfl).mpr ⟨later, rfl, ?_⟩
    rw [Request.extend, List.modifyLast_concat]
    exact after

/-- A continued line is read only behind a header. -/
theorem reads_fold (headers : request.headers ≠ []) (blank : IsBlank byte) :
    Reads .headerLineStart request (byte :: text) final rest ↔
      ∃ (fold : Fold) (later : Text), byte :: text = fold.text ++ later ∧
        Reads .headerLineStart (request.extend fold.value) later final rest := by
  have step : consume (.headerLineStart, request) byte = .more (.headerLws, request) := by
    have some : request.headers.isEmpty = false := by
      rw [Bool.eq_false_iff, ne_eq, List.isEmpty_iff]
      exact headers
    rcases blank with rfl | rfl <;> simp [consume, some]
  rw [Reads, parse, feed_cons_more step, ← parse, ← Reads, reads_lws]
  constructor
  · rintro ⟨blanks, value, _, rfl, blanksAll, clean, starts, atNewline⟩
    obtain ⟨later, rfl, after⟩ := (reads_expect fun _ => rfl).mp atNewline
    let fold : Fold :=
      { blanks := byte :: blanks, value := value, present := List.cons_ne_nil _ _,
        blank := List.forall_mem_cons.mpr ⟨blank, blanksAll⟩, clean := clean, starts := starts }
    refine ⟨fold, later, ?_, after⟩
    simp only [fold, Fold.text, newline, List.append_assoc, List.cons_append, List.nil_append]
  · rintro ⟨fold, later, split, after⟩
    obtain ⟨head, blanks, blanksSplit⟩ := List.exists_cons_of_ne_nil fold.present
    have blanksAll := fold.blank
    rw [blanksSplit] at blanksAll
    rw [Fold.text, blanksSplit, List.append_assoc, List.cons_append] at split
    refine ⟨blanks, fold.value, '\n' :: later, ?_, (List.forall_mem_cons.mp blanksAll).2,
      fold.clean, fold.starts, (reads_expect fun _ => rfl).mpr ⟨later, rfl, after⟩⟩
    rw [(List.cons.inj split).2]
    simp only [newline, List.append_assoc, List.cons_append, List.nil_append]

/-- The request behind the lines that continue its last header and behind more headers. -/
def Request.withLines (request : Request) (folds : List Fold) (lines : List HeaderLine) : Request :=
  let extended := request.extend (folds.flatMap Fold.value)
  { extended with headers := extended.headers ++ lines.map HeaderLine.header }

theorem withLines_fold (fold : Fold) (folds : List Fold) (lines : List HeaderLine) :
    (request.extend fold.value).withLines folds lines = request.withLines (fold :: folds) lines := by
  rw [Request.withLines, Request.withLines, extend_append, List.flatMap_cons]

theorem withLines_nil (lines : List HeaderLine) : request.withLines [] lines =
    { request with headers := request.headers ++ lines.map HeaderLine.header } := by
  rw [Request.withLines, List.flatMap_nil, extend_nil]

theorem withLines_line (line : HeaderLine) (lines : List HeaderLine) :
    Request.withLines
        { request with headers := request.headers ++ [{ name := line.name, value := line.value }] }
        line.folds lines =
      request.withLines [] (line :: lines) := by
  rw [withLines_nil]
  simp only [Request.withLines, Request.extend, List.modifyLast_concat, List.map_cons,
    List.append_assoc, List.singleton_append, HeaderLine.header]

/-- The text of the lines behind a request line or behind a header. -/
def linesText (folds : List Fold) (lines : List HeaderLine) : Text :=
  folds.flatMap Fold.text ++ (lines.flatMap HeaderLine.text ++ newline)

theorem linesText_line (line : HeaderLine) (lines : List HeaderLine) :
    linesText [] (line :: lines) =
      line.name ++ ':' :: ' ' :: (line.value ++ (newline ++ linesText line.folds lines)) := by
  simp only [linesText, List.flatMap_nil, List.flatMap_cons, List.nil_append, HeaderLine.text,
    List.append_assoc]
  rfl

theorem linesText_fold (fold : Fold) (folds : List Fold) (lines : List HeaderLine) :
    linesText (fold :: folds) lines = fold.text ++ linesText folds lines := by
  rw [linesText, linesText, List.flatMap_cons, List.append_assoc]

/-- What stands between a request line and its body. -/
theorem exists_lines (reads : Reads .headerLineStart request text final rest) :
    ∃ folds lines, (request.headers = [] → folds = []) ∧ text = linesText folds lines ++ rest ∧
      final = request.withLines folds lines := by
  induction size : text.length using Nat.strong_induction_on generalizing request text with
  | _ _ ih =>
    subst size
    cases text with
    | nil => cases reads
    | cons byte more =>
        by_cases returns : byte = '\r'
        · subst returns
          have atEnd : Reads .expectingNewline3 request more final rest := reads
          cases more with
          | nil => cases atEnd
          | cons last later =>
              have same : ((decide (last = '\n'), request), later) = ((true, final), rest) :=
                Verdict.done.inj atEnd
              simp only [Prod.mk.injEq, decide_eq_true_eq] at same
              obtain ⟨⟨rfl, rfl⟩, rfl⟩ := same
              exact ⟨[], [], fun _ => rfl, rfl, by rw [withLines_nil, List.map_nil, List.append_nil]⟩
        by_cases continues : request.headers ≠ [] ∧ IsBlank byte
        · obtain ⟨fold, later, split, after⟩ := (reads_fold continues.1 continues.2).mp reads
          have shorter : later.length < (byte :: more).length := by
            have positive := List.length_pos_iff.mpr fold.present
            rw [split, Fold.text, List.length_append, List.length_append]
            omega
          obtain ⟨folds, lines, -, rfl, rfl⟩ := ih _ shorter after rfl
          refine ⟨fold :: folds, lines, fun none => absurd none continues.1, ?_, withLines_fold ..⟩
          rw [split, linesText_fold, List.append_assoc]
        by_cases token : IsToken byte
        · obtain ⟨name, value, later, rfl, named, clean, after⟩ := (reads_line token).mp reads
          have shorter : later.length < (byte :: (name ++ ':' :: ' ' :: (value ++ (newline ++ later)))).length := by
            simp only [List.length_cons, List.length_append]
            omega
          obtain ⟨folds, lines, -, rfl, rfl⟩ := ih _ shorter after rfl
          let line : HeaderLine :=
            { name := byte :: name, value := value, folds := folds, named := List.cons_ne_nil _ _,
              token := List.forall_mem_cons.mpr ⟨token, named⟩, clean := clean }
          refine ⟨[], line :: lines, fun _ => rfl, ?_, withLines_line line lines⟩
          rw [linesText_line]
          simp only [line, List.append_assoc, List.cons_append]
        · have unblank : (!request.headers.isEmpty && (byte = ' ' || byte = '\t')) = false := by
            rw [Bool.eq_false_iff]
            intro both
            simp only [Bool.and_eq_true, Bool.not_eq_true', List.isEmpty_eq_false_iff,
              Bool.or_eq_true, decide_eq_true_eq] at both
            exact continues both
          have step : consume (.headerLineStart, request) byte = .done (false, request) := by
            have separator := Bool.not_eq_false _ ▸ token
            simp only [consume, returns, unblank, separator, if_false, Bool.false_eq_true, if_true]
          rw [Reads, parse, feed_cons_done step] at reads
          cases reads

theorem headers_extend (headers : request.headers ≠ []) (value : Text) :
    (request.extend value).headers ≠ [] := by
  obtain ⟨front, last, split⟩ := (List.eq_nil_or_concat' request.headers).resolve_left headers
  rw [Request.extend, split, List.modifyLast_concat]
  exact List.append_ne_nil_of_right_ne_nil _ (List.cons_ne_nil _ _)

theorem reads_of_folds {folds : List Fold} (headers : request.headers = [] → folds = [])
    (reads : Reads .headerLineStart (request.extend (folds.flatMap Fold.value)) text final rest) :
    Reads .headerLineStart request (folds.flatMap Fold.text ++ text) final rest := by
  induction folds generalizing request with
  | nil =>
      rw [List.flatMap_nil, extend_nil] at reads
      exact reads
  | cons fold more ih =>
      have opened : request.headers ≠ [] := fun none => List.cons_ne_nil _ _ (headers none)
      obtain ⟨head, blanks, split⟩ := List.exists_cons_of_ne_nil fold.present
      have blank : IsBlank head := fold.blank head (split ▸ List.mem_cons_self)
      have front : (fold :: more).flatMap Fold.text ++ text =
          head :: (blanks ++ (fold.value ++ newline) ++ (more.flatMap Fold.text ++ text)) := by
        simp only [List.flatMap_cons, Fold.text, split, List.append_assoc, List.cons_append]
      rw [front]
      refine (reads_fold opened blank).mpr ⟨fold, more.flatMap Fold.text ++ text, ?_, ?_⟩
      · rw [Fold.text, split]
        rfl
      · refine ih (fun none => absurd none (headers_extend opened fold.value)) ?_
        rw [extend_append, ← List.flatMap_cons]
        exact reads

theorem reads_of_lines {folds : List Fold} {lines : List HeaderLine}
    (headers : request.headers = [] → folds = []) :
    Reads .headerLineStart request (linesText folds lines ++ rest) (request.withLines folds lines)
      rest := by
  induction lines generalizing request folds with
  | nil =>
      rw [linesText, List.append_assoc]
      refine reads_of_folds headers ?_
      simp only [Request.withLines, List.map_nil, List.append_nil, List.flatMap_nil, List.nil_append]
      rfl
  | cons line more ih =>
      rw [linesText, List.append_assoc]
      refine reads_of_folds headers ?_
      obtain ⟨first, name, split⟩ := List.exists_cons_of_ne_nil line.named
      have token := line.token
      rw [split] at token
      have parts := List.forall_mem_cons.mp token
      have text : (line :: more).flatMap HeaderLine.text ++ newline ++ rest = first :: (name ++
          ':' :: ' ' :: (line.value ++ (newline ++ (linesText line.folds more ++ rest)))) := by
        have whole := linesText_line line more
        rw [linesText, List.flatMap_nil, List.nil_append] at whole
        rw [whole, split]
        simp only [List.append_assoc, List.cons_append]
      rw [text]
      refine (reads_line parts.1).mpr ⟨name, line.value, _, rfl, parts.2, line.clean, ?_⟩
      rw [← split]
      have whole : request.withLines folds (line :: more) =
          (request.extend (folds.flatMap Fold.value)).withLines [] (line :: more) := by
        rw [withLines_nil, Request.withLines]
      rw [whole, ← withLines_line]
      exact ih fun none => absurd none (List.append_ne_nil_of_right_ne_nil _ (List.cons_ne_nil _ _))

/-! ### Heads and requests -/

/-- The parser accepts the texts of heads, whatever follows them, and leaves what follows. -/
theorem parse_accepts_iff :
    parse start text = .done ((true, request), rest) ↔
      ∃ head : Head, text = head.text ++ rest ∧ request = head.request := by
  rw [start, ← Reads, reads_requestLine]
  constructor
  · rintro ⟨line, later, rfl, atHeaders⟩
    obtain ⟨folds, lines, unfolded, rfl, rfl⟩ := exists_lines atHeaders
    cases unfolded rfl
    refine ⟨{ line with lines := lines }, ?_, withLines_nil lines⟩
    simp only [Head.text, linesText, List.flatMap_nil, List.nil_append, List.append_assoc]
  · rintro ⟨head, rfl, rfl⟩
    refine ⟨head.toRequestLine, linesText [] head.lines ++ rest, ?_, ?_⟩
    · simp only [Head.text, linesText, List.flatMap_nil, List.nil_append, List.append_assoc]
    · have whole : head.request = head.toRequestLine.request.withLines [] head.lines := by
        rw [withLines_nil]
        rfl
      rw [whole]
      exact reads_of_lines fun _ => rfl

theorem parse_head (head : Head) (rest : Text) :
    parse start (head.text ++ rest) = .done ((true, head.request), rest) :=
  parse_accepts_iff.mpr ⟨head, rfl, rfl⟩

/-- What a text is followed by, so that the parser accepts it. -/
def completion : State → Text
  | .methodStart => "G  HTTP/1.0\r\n\r\n".toList
  | .method => "  HTTP/1.0\r\n\r\n".toList
  | .uriStart => "/ HTTP/1.0\r\n\r\n".toList
  | .uri => " HTTP/1.0\r\n\r\n".toList
  | .httpVersionH => "HTTP/1.0\r\n\r\n".toList
  | .httpVersionT1 => "TTP/1.0\r\n\r\n".toList
  | .httpVersionT2 => "TP/1.0\r\n\r\n".toList
  | .httpVersionP => "P/1.0\r\n\r\n".toList
  | .httpVersionSlash => "/1.0\r\n\r\n".toList
  | .httpVersionMajorStart => "1.0\r\n\r\n".toList
  | .httpVersionMajor => ".0\r\n\r\n".toList
  | .httpVersionMinorStart => "0\r\n\r\n".toList
  | .httpVersionMinor => "\r\n\r\n".toList
  | .expectingNewline1 => "\n\r\n".toList
  | .headerLineStart => "\r\n".toList
  | .headerLws => "\r\n\r\n".toList
  | .headerName => ": \r\n\r\n".toList
  | .spaceBeforeHeaderValue => " \r\n\r\n".toList
  | .headerValue => "\r\n\r\n".toList
  | .expectingNewline2 => "\n\r\n".toList
  | .expectingNewline3 => "\n".toList

theorem exists_completed (state : State) (request : Request) :
    ∃ final, parse (state, request) (completion state) = .done ((true, final), []) := by
  cases state <;> exact ⟨_, rfl⟩

/-- The parser refuses at the first byte behind which no request can follow. -/
theorem parse_refuses_iff :
    (∃ request rest, parse start text = .done ((false, request), rest)) ↔
      ∀ (more : Text) (head : Head) (rest : Text), text ++ more ≠ head.text ++ rest := by
  constructor
  · rintro ⟨request, rest, refused⟩ more head other same
    have accepted := parse_head head other
    rw [← same, parse, feed_append_done refused] at accepted
    cases accepted
  · intro hopeless
    cases parsed : parse start text with
    | more parser =>
        obtain ⟨final, completed⟩ := exists_completed parser.1 parser.2
        have accepted : parse start (text ++ completion parser.1) = .done ((true, final), []) :=
          (feed_append_more parsed).trans completed
        obtain ⟨head, same, -⟩ := parse_accepts_iff.mp accepted
        exact absurd same (hopeless _ head [])
    | done result =>
        obtain ⟨⟨accepted, request⟩, rest⟩ := result
        cases accepted with
        | false => exact ⟨request, rest, rfl⟩
        | true =>
            obtain ⟨head, same, -⟩ := parse_accepts_iff.mp parsed
            exact absurd ((List.append_nil text).trans same) (hopeless [] head rest)

/-- The parser tells a text with a head from a front of a head and from a text that
no bytes complete. -/
theorem parse_verdicts (text : Text) :
    (∀ request rest, parse start text = .done ((true, request), rest) ↔
      ∃ head : Head, text = head.text ++ rest ∧ request = head.request) ∧
    ((∃ parser, parse start text = .more parser) ↔
      (∀ (head : Head) (rest : Text), text ≠ head.text ++ rest) ∧
        ∃ (more : Text) (head : Head), text ++ more = head.text) ∧
    ((∃ request rest, parse start text = .done ((false, request), rest)) ↔
      ∀ (more : Text) (head : Head) (rest : Text), text ++ more ≠ head.text ++ rest) := by
  refine ⟨fun _ _ => parse_accepts_iff, ⟨?_, ?_⟩, parse_refuses_iff⟩
  · rintro ⟨parser, parsed⟩
    constructor
    · rintro head rest rfl
      rw [parse_head] at parsed
      cases parsed
    · obtain ⟨final, completed⟩ := exists_completed parser.1 parser.2
      have accepted : parse start (text ++ completion parser.1) = .done ((true, final), []) :=
        (feed_append_more parsed).trans completed
      obtain ⟨head, same, -⟩ := parse_accepts_iff.mp accepted
      exact ⟨_, head, same.trans (List.append_nil _)⟩
  · rintro ⟨headless, more, head, completed⟩
    cases parsed : parse start text with
    | more parser => exact ⟨parser, rfl⟩
    | done result =>
        obtain ⟨⟨accepted, request⟩, rest⟩ := result
        cases accepted with
        | true =>
            obtain ⟨other, same, -⟩ := parse_accepts_iff.mp parsed
            exact absurd same (headless other rest)
        | false =>
            have hopeless := parse_refuses_iff.mp ⟨request, rest, parsed⟩
            exact absurd (completed.trans (List.append_nil _).symm) (hopeless more head [])

end Safire.RequestParser
