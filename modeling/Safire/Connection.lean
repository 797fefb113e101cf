/-
The connection that reads a request packet by packet.

What is answered is a function of the bytes that have arrived, however they were
cut: a request is handled with the packet that completes its declared body, and
refused with the packet behind which no request can follow. Only the bytes behind
the declared body depend on the cut.
-/

import Safire.RequestParser

namespace Safire.Connection

open Text Feed RequestParser

/-! ### The connection -/

/-- What the connection holds between two packets. -/
structure State where
  parser : RequestParser.State
  request : Request
  readingBody : Bool
  contentLength : Nat

def State.start : State :=
  { parser := .methodStart, request := .empty, readingBody := false, contentLength := 0 }

inductive Reply where
  | processed (request : Request)
  | badRequest

def isContentLength (header : Header) : Bool :=
  header.name = "Content-Length".toList || header.name = "content-length".toList

/-- `static_cast<std::size_t>(std::atol(value))` of the first such header. -/
def requestContentLength (request : Request) : Nat :=
  match request.headers.find? isContentLength with
  | some header => (atol header.value % 2 ^ 64).toNat
  | none => 0

def appendBody (request : Request) (bytes : Text) : Request :=
  { request with body := request.body ++ bytes }

def handleRead (state : State) (packet : Text) : Verdict State Reply :=
  if state.readingBody then
    let request := appendBody state.request packet
    if request.body.length ≥ state.contentLength then .done (.processed request)
    else .more { state with request := request }
  else
    match parse (state.parser, state.request) packet with
    | .done ((true, request), rest) =>
        let contentLength := requestContentLength request
        if 0 < contentLength then
          let request := appendBody request rest
          if request.body.length < contentLength then
            .more { parser := .expectingNewline3, request, readingBody := true, contentLength }
          else .done (.processed request)
        else .done (.processed request)
    | .done ((false, _), _) => .done .badRequest
    | .more parser => .more { state with parser := parser.1, request := parser.2 }

/-- The reads of one connection, with the packets that are not read any more. -/
def run (packets : List Text) : Verdict State (Reply × List Text) :=
  feed handleRead .start packets

/-! ### What the bytes say -/

/-- The request behind a head with what followed it. -/
def received (head : Head) (rest : Text) : Request :=
  { head.request with body := if 0 < requestContentLength head.request then rest else [] }

/-- The bytes hold a head and at least the body that it declares. -/
inductive Answers : Text → Reply → Prop where
  | processed (head : Head) (rest : Text)
      (complete : requestContentLength head.request ≤ rest.length) :
      Answers (head.text ++ rest) (.processed (received head rest))
  | badRequest (bytes : Text)
      (hopeless : ∀ (more : Text) (head : Head) (rest : Text), bytes ++ more ≠ head.text ++ rest) :
      Answers bytes .badRequest

/-- What a connection that waits holds of the bytes that have arrived. -/
inductive Holds : Text → State → Prop where
  | parsing (bytes : Text) (state : State) (waits : state.readingBody = false)
      (parsed : parse RequestParser.start bytes = .more (state.parser, state.request)) :
      Holds bytes state
  | body (head : Head) (rest : Text) (parser : RequestParser.State)
      (short : rest.length < requestContentLength head.request) :
      Holds (head.text ++ rest)
        { parser := parser, request := { head.request with body := rest }, readingBody := true,
          contentLength := requestContentLength head.request }

variable {bytes packet : Text} {state : State} {reply : Reply}

/-- The head of a text is read off the text. -/
theorem heads_agree {head other : Head} {rest left : Text}
    (same : head.text ++ rest = other.text ++ left) : head.request = other.request ∧ rest = left := by
  have first := parse_head head rest
  rw [same, parse_head other left] at first
  have both := (Verdict.done.inj first).symm
  exact ⟨congrArg (fun result => result.1.2) both, congrArg Prod.snd both⟩

theorem Answers.unique {other : Reply} (answers : Answers bytes reply) (again : Answers bytes other) :
    reply = other := by
  cases answers with
  | processed head rest complete =>
      generalize same : head.text ++ rest = whole at again
      cases again with
      | processed head' rest' _ =>
          obtain ⟨requests, rests⟩ := heads_agree same
          rw [received, received, requests, rests]
      | badRequest _ hopeless => exact absurd ((List.append_nil _).trans same.symm) (hopeless [] head rest)
  | badRequest _ hopeless =>
      cases again with
      | processed head rest _ => exact absurd (List.append_nil _) (hopeless [] head rest)
      | badRequest _ _ => rfl

/-- What is answered stays answered when more bytes arrive. -/
theorem Answers.grow (answers : Answers bytes reply) (more : Text) :
    ∃ later, Answers (bytes ++ more) later := by
  cases answers with
  | processed head rest complete =>
      rw [List.append_assoc]
      refine ⟨_, .processed head (rest ++ more) (complete.trans ?_)⟩
      rw [List.length_append]
      exact Nat.le_add_right _ _
  | badRequest _ hopeless =>
      refine ⟨_, .badRequest _ fun further head rest => ?_⟩
      rw [List.append_assoc]
      exact hopeless _ head rest

theorem Holds.unanswered (holds : Holds bytes state) : ¬ Answers bytes reply := by
  intro answers
  cases holds with
  | parsing _ _ waits parsed =>
      cases answers with
      | processed head rest _ =>
          have accepted := parse_head head rest
          rw [parsed] at accepted
          cases accepted
      | badRequest _ hopeless =>
          obtain ⟨request, rest, refused⟩ := parse_refuses_iff.mpr hopeless
          rw [parsed] at refused
          cases refused
  | body head rest parser short =>
      generalize same : head.text ++ rest = whole at answers
      cases answers with
      | processed head' rest' complete =>
          obtain ⟨requests, rests⟩ := heads_agree same
          rw [← requests, ← rests] at complete
          exact absurd complete (Nat.not_le.mpr short)
      | badRequest _ hopeless =>
          exact absurd ((List.append_nil _).trans same.symm) (hopeless [] head rest)

theorem holds_start : Holds [] .start :=
  .parsing [] .start rfl rfl

/-! ### One packet -/

/-- What the next packet leads to is what the bytes with it say. -/
def Follows (bytes : Text) : Verdict State Reply → Prop
  | .more next => Holds bytes next
  | .done reply => Answers bytes reply

theorem Holds.step (holds : Holds bytes state) (packet : Text) :
    Follows (bytes ++ packet) (handleRead state packet) := by
  cases holds with
  | parsing _ _ waits parsed =>
      have whole : parse RequestParser.start (bytes ++ packet) =
          parse (state.parser, state.request) packet := feed_append_more parsed
      rw [handleRead, waits, if_neg Bool.false_ne_true, ← whole]
      cases parsed : parse RequestParser.start (bytes ++ packet) with
      | more parser => exact .parsing _ _ rfl parsed
      | done result =>
          obtain ⟨⟨accepted, request⟩, rest⟩ := result
          cases accepted with
          | false => exact .badRequest _ (parse_refuses_iff.mp ⟨_, _, parsed⟩)
          | true =>
              obtain ⟨head, split, rfl⟩ := parse_accepts_iff.mp parsed
              rw [split]
              dsimp only
              have appended : appendBody head.request rest = { head.request with body := rest } := rfl
              by_cases declared : 0 < requestContentLength head.request
              · rw [if_pos declared, appended]
                by_cases short : rest.length < requestContentLength head.request
                · rw [if_pos short]
                  exact .body head rest _ short
                · rw [if_neg short]
                  have answers := Answers.processed head rest (Nat.not_lt.mp short)
                  rw [received, if_pos declared] at answers
                  exact answers
              · rw [if_neg declared]
                have answers := Answers.processed head rest (by omega)
                rw [received, if_neg declared] at answers
                exact answers
  | body head rest parser short =>
      have appended : appendBody { head.request with body := rest } packet =
          { head.request with body := rest ++ packet } := rfl
      rw [handleRead, if_pos rfl, List.append_assoc]
      dsimp only
      rw [appended]
      dsimp only
      by_cases complete : (rest ++ packet).length ≥ requestContentLength head.request
      · rw [if_pos complete]
        have answers := Answers.processed head (rest ++ packet) complete
        rw [received, if_pos (by omega)] at answers
        exact answers
      · rw [if_neg complete]
        exact .body head (rest ++ packet) parser (Nat.not_le.mp complete)

/-! ### Many packets -/

variable {packets others front later : List Text}

theorem Holds.feed {last : State} (holds : Holds bytes state)
    (fed : Feed.feed handleRead state front = .more last) : Holds (bytes ++ front.flatten) last := by
  induction front generalizing bytes state with
  | nil =>
      cases fed
      rw [List.flatten_nil, List.append_nil]
      exact holds
  | cons packet more ih =>
      have follows := holds.step packet
      cases stepped : handleRead state packet with
      | more next =>
          rw [stepped] at follows
          rw [feed_cons_more stepped] at fed
          rw [List.flatten_cons, ← List.append_assoc]
          exact ih follows fed
      | done reply =>
          rw [feed_cons_done stepped] at fed
          cases fed

theorem holds_of_run {last : State} (ran : run front = .more last) : Holds front.flatten last := by
  have holds := holds_start.feed ran
  rwa [List.nil_append] at holds

/-- A connection answers with the first packet with which there is an answer. -/
theorem run_done_iff :
    run packets = .done (reply, later) ↔
      ∃ front packet, packets = front ++ packet :: later ∧
        Answers (front ++ [packet]).flatten reply ∧ ∀ other, ¬ Answers front.flatten other := by
  have answered {front : List Text} {last : State} {packet : Text} {reply : Reply}
      (before : Feed.feed handleRead .start front = .more last)
      (finished : handleRead last packet = .done reply) :
      Answers (front ++ [packet]).flatten reply := by
    have follows := (holds_of_run before).step packet
    rw [finished] at follows
    rw [List.flatten_append, List.flatten_singleton]
    exact follows
  rw [run, feed_done_iff]
  constructor
  · rintro ⟨front, packet, last, rfl, before, finished⟩
    exact ⟨front, packet, rfl, answered before finished,
      fun other => (holds_of_run before).unanswered⟩
  · rintro ⟨front, packet, rfl, answers, first⟩
    cases before : run front with
    | done result =>
        obtain ⟨early, symbol, last, rfl, reached, finished⟩ := feed_done_iff.mp before
        obtain ⟨other, still⟩ := (answered reached finished).grow result.2.flatten
        refine absurd ?_ (first other)
        rw [List.append_cons, List.flatten_append]
        exact still
    | more last =>
        refine ⟨front, packet, last, rfl, before, ?_⟩
        have follows := (holds_of_run before).step packet
        rw [List.flatten_append, List.flatten_singleton] at answers
        cases stepped : handleRead last packet with
        | more next =>
            rw [stepped] at follows
            exact absurd answers follows.unanswered
        | done other =>
            rw [stepped] at follows
            exact congrArg Verdict.done (follows.unique answers)

theorem run_more_iff :
    (∃ state, run packets = .more state) ↔ ∀ reply, ¬ Answers packets.flatten reply := by
  constructor
  · rintro ⟨state, ran⟩ reply
    exact (holds_of_run ran).unanswered
  · intro none
    cases ran : run packets with
    | more state => exact ⟨state, rfl⟩
    | done result =>
        obtain ⟨front, packet, split, answers, -⟩ := run_done_iff.mp ran
        obtain ⟨other, still⟩ := answers.grow result.2.flatten
        rw [← List.flatten_append, List.append_assoc, List.singleton_append, ← split] at still
        exact absurd still (none other)

/-! ### Cuts -/

/-- The outcome of a cut beside the one of the same bytes in one packet. The cut may
end the body earlier, never in front of its declared end. -/
inductive CutOf : Verdict State (Reply × List Text) → Verdict State (Reply × List Text) → Prop where
  | waiting (state state' : State) : CutOf (.more state) (.more state')
  | badRequest (later later' : List Text) :
      CutOf (.done (.badRequest, later)) (.done (.badRequest, later'))
  | processed (head : Head) (rest extra : Text) (later later' : List Text)
      (complete : requestContentLength head.request ≤ rest.length) :
      CutOf (.done (.processed (received head rest), later))
        (.done (.processed (received head (rest ++ extra)), later'))

/-- However the bytes are cut, the answer is the one to all of them in one packet. -/
theorem run_cutOf (packets : List Text) : CutOf (run packets) (run [packets.flatten]) := by
  have one : [packets.flatten].flatten = packets.flatten := List.flatten_singleton
  cases ran : run packets with
  | more state =>
      have none := run_more_iff.mp ⟨state, ran⟩
      rw [← one] at none
      obtain ⟨other, whole⟩ := run_more_iff.mpr none
      rw [whole]
      exact .waiting state other
  | done result =>
      obtain ⟨reply, later⟩ := result
      obtain ⟨front, packet, split, answers, -⟩ := run_done_iff.mp ran
      have bytes : packets.flatten = (front ++ [packet]).flatten ++ later.flatten := by
        rw [split, List.append_cons, List.flatten_append]
      obtain ⟨other, still⟩ := answers.grow later.flatten
      rw [← bytes] at still
      have silent : ∀ reply, ¬ Answers ([] : List Text).flatten reply :=
        fun _ => holds_start.unanswered
      have whole : run [packets.flatten] = .done (other, []) :=
        run_done_iff.mpr ⟨[], packets.flatten, rfl, by rwa [List.nil_append, one], silent⟩
      rw [whole]
      generalize (front ++ [packet]).flatten = arrived at answers bytes
      cases answers with
      | badRequest _ hopeless =>
          have refused : Answers packets.flatten .badRequest := by
            refine .badRequest _ fun more head rest => ?_
            rw [bytes, List.append_assoc]
            exact hopeless _ head rest
          rw [still.unique refused]
          exact .badRequest later []
      | processed head rest complete =>
          have handled : Answers packets.flatten (.processed (received head (rest ++ later.flatten))) := by
            rw [bytes, List.append_assoc]
            exact .processed head _ (complete.trans (by rw [List.length_append]; omega))
          rw [still.unique handled]
          exact .processed head rest later.flatten later [] complete

/-! ### Bodies -/

theorem requestContentLength_eq {request : Request} {header : Header}
    (found : request.headers.find? isContentLength = some header) :
    requestContentLength request = (atol header.value % 2 ^ 64).toNat := by
  rw [requestContentLength, found]

/-- A body that is not complete is waited for, and all of it is held. -/
theorem run_of_short {head : Head} {rest : Text} (whole : packets.flatten = head.text ++ rest)
    (short : rest.length < requestContentLength head.request) :
    ∃ state, run packets = .more state ∧ state.request = { head.request with body := rest } := by
  have holds := Holds.body head rest .expectingNewline3 short
  have none : ∀ reply, ¬ Answers packets.flatten reply := fun _ => whole ▸ holds.unanswered
  obtain ⟨state, ran⟩ := run_more_iff.mpr none
  refine ⟨state, ran, ?_⟩
  have held := holds_of_run ran
  rw [whole] at held
  generalize same : head.text ++ rest = bytes at held
  cases held with
  | parsing _ _ waits parsed =>
      rw [← same, parse_head] at parsed
      cases parsed
  | body other left parser _ =>
      obtain ⟨requests, rests⟩ := heads_agree same
      rw [requests, rests]

/-- A client that declares a negative length is never answered, and the connection
holds every byte that it sends. -/
theorem negative_length_waits {head : Head} {header : Header} {rest : Text}
    (found : head.request.headers.find? isContentLength = some header)
    (negative : atol header.value < 0) (whole : packets.flatten = head.text ++ rest)
    (finite : rest.length < 2 ^ 63) :
    ∃ state, run packets = .more state ∧ state.request = { head.request with body := rest } := by
  refine run_of_short whole ?_
  have range := (isLong_atol header.value).1
  rw [requestContentLength_eq found, longMin] at *
  omega

/-- A request with exactly the declared body is handled with its last packet. -/
theorem run_of_complete {head : Head} {body : Text} (present : ∀ packet ∈ packets, packet ≠ [])
    (whole : packets.flatten = head.text ++ body)
    (declared : requestContentLength head.request = body.length) :
    run packets = .done (.processed { head.request with body := body }, []) := by
  have answers : Answers packets.flatten (.processed (received head body)) := by
    rw [whole]
    exact .processed head body declared.le
  have exact : received head body = { head.request with body := body } := by
    rw [received, declared]
    split
    · rfl
    · rw [List.eq_nil_of_length_eq_zero (l := body) (by omega)]
  cases ran : run packets with
  | more state => exact absurd answers (run_more_iff.mp ⟨state, ran⟩ _)
  | done result =>
      obtain ⟨reply, later⟩ := result
      obtain ⟨front, packet, split, first, -⟩ := run_done_iff.mp ran
      have bytes : packets.flatten = (front ++ [packet]).flatten ++ later.flatten := by
        rw [split, List.append_cons, List.flatten_append]
      rw [bytes] at whole
      have rest_empty : later = [] := by
        refine List.eq_nil_iff_forall_not_mem.mpr fun other member => ?_
        have positive := List.length_pos_iff.mpr
          (present other (split ▸ List.mem_append_right _ (List.mem_cons_of_mem _ member)))
        have total : later.flatten.length ≠ 0 := by
          rw [List.length_flatten]
          have bound := List.le_sum_of_mem (List.mem_map_of_mem (f := List.length) member)
          omega
        generalize (front ++ [packet]).flatten = arrived at first whole
        cases first with
        | badRequest _ hopeless => exact hopeless _ _ _ whole
        | processed head' rest' complete =>
            rw [List.append_assoc] at whole
            obtain ⟨requests, rests⟩ := heads_agree whole
            have lengths := congrArg List.length rests
            rw [List.length_append] at lengths
            rw [requests, declared] at complete
            omega
      subst rest_empty
      rw [List.flatten_nil, List.append_nil] at bytes
      rw [← bytes] at first
      rw [← exact, first.unique answers]

/-- What the handler reads of a request. -/
def handled (request : Request) : RequestHandler.Request :=
  { method := request.method, uri := request.uri, body := request.body }

/-- The head of a `POST`, with the headers of any client. -/
structure Posts (path body : Text) (head : Head) : Prop where
  method : head.method = "POST".toList
  uri : head.uri = path
  length : ∃ header, head.request.headers.find? isContentLength = some header ∧
    atol header.value = body.length

theorem Posts.declared {path body : Text} {head : Head} (posts : Posts path body head) :
    requestContentLength head.request = body.length := by
  obtain ⟨header, found, value⟩ := posts.length
  have range := (isLong_atol header.value).2
  rw [value, longMax] at range
  rw [requestContentLength_eq found, value]
  omega

/-- A posted value reaches the handler through every cut of its bytes, and is read
whole unless it holds the parameter. -/
theorem posted_arrives {path key value : Text} {head : Head}
    (plain : ∀ byte ∈ path, byte ≠ '%' ∧ byte ≠ '+') (nonempty : value ≠ [])
    (posts : Posts path value head) (present : ∀ packet ∈ packets, packet ≠ [])
    (whole : packets.flatten = head.text ++ value) :
    ∃ request, run packets = .done (.processed request, []) ∧
      (RequestHandler.receive (handled request) key = some value ↔ ¬ key ++ ['='] <:+: value) := by
  refine ⟨_, run_of_complete present whole posts.declared, ?_⟩
  have posted : handled { head.request with body := value } = LocalPeerClient.postRequest path value := by
    rw [handled, LocalPeerClient.postRequest]
    exact congrArg₂ (fun method uri => RequestHandler.Request.mk method uri value) posts.method posts.uri
  rw [posted]
  exact RequestHandler.receive_post_iff plain nonempty

end Safire.Connection

namespace Safire.Sample

open RequestParser Connection

theorem forall_of_all {allowed : Char → Prop} [DecidablePred allowed] {text : Text}
    (checked : text.all (fun byte => decide (allowed byte)) = true) : ∀ byte ∈ text, allowed byte :=
  fun byte member => of_decide_eq_true (List.all_eq_true.mp checked byte member)

def lengthLine (value : String) (clean : ∀ byte ∈ value.toList, isCtl byte = false) : HeaderLine where
  name := "Content-Length".toList
  value := value.toList
  folds := []
  named := by decide +kernel
  token := forall_of_all (by decide +kernel)
  clean := clean

def submitHead (line : HeaderLine) : Head where
  method := "POST".toList
  uri := RequestHandler.recordsSubmit
  major := ['1']
  minor := ['1']
  present := by decide +kernel
  token := forall_of_all (by decide +kernel)
  solid := forall_of_all (by decide +kernel)
  majorPresent := by decide
  majorDigits := forall_of_all (by decide +kernel)
  minorPresent := by decide
  minorDigits := forall_of_all (by decide +kernel)
  lines := [line]

/-- The length is that of the body. -/
def letterHead : Head :=
  submitHead (lengthLine "3" (forall_of_all (by decide +kernel)))

/-- The length is negative. -/
def negativeHead : Head :=
  submitHead (lengthLine "-1" (forall_of_all (by decide +kernel)))

theorem letterHead_posts : Posts RequestHandler.recordsSubmit ['a', 'b', 'c'] letterHead where
  method := rfl
  uri := rfl
  length := ⟨{ name := "Content-Length".toList, value := "3".toList }, by decide +kernel,
    by decide +kernel⟩

theorem letters_arrive :
    ∃ request, run [letterHead.text ++ ['a'], ['b', 'c']] = .done (.processed request, []) ∧
      (RequestHandler.receive (handled request) RequestHandler.recordKeyword = some ['a', 'b', 'c'] ↔
        ¬ RequestHandler.recordKeyword ++ ['='] <:+: ['a', 'b', 'c']) := by
  have plain : ∀ byte ∈ RequestHandler.recordsSubmit, byte ≠ '%' ∧ byte ≠ '+' :=
    RequestHandler.route_plain (by decide +kernel)
  refine posted_arrives plain (List.cons_ne_nil _ _) letterHead_posts ?_ ?_
  · intro packet member
    simp only [List.mem_cons, List.not_mem_nil, or_false] at member
    rcases member with rfl | rfl
    · exact List.append_ne_nil_of_right_ne_nil _ (List.cons_ne_nil _ _)
    · exact List.cons_ne_nil _ _
  · rw [List.flatten_cons, List.flatten_singleton, List.append_assoc]
    rfl

theorem letters_wait :
    ∃ state, run [negativeHead.text ++ ['a'], ['b', 'c']] = .more state ∧
      state.request = { negativeHead.request with body := ['a', 'b', 'c'] } := by
  have found : negativeHead.request.headers.find? isContentLength =
      some { name := "Content-Length".toList, value := "-1".toList } := by decide +kernel
  refine negative_length_waits found (by decide +kernel) ?_ (by decide)
  rw [List.flatten_cons, List.flatten_singleton, List.append_assoc]
  rfl

end Safire.Sample
