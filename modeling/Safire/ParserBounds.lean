/-
The bounds of the block parser.

`parseSectionBlock` counts its index up to the length of the content but reads at
that index behind the tag. Where no brace closes the section, it runs past the end
by as many bytes as stand before the tag. Everything else it cuts lies inside, and
the loops around it end, since a section that is not empty shortens the rest.
-/

import Safire.ConnectedChain

namespace Safire

open Text

/-- What stops the parser: an access outside its text, or a round without end. -/
inductive Fault where
  | outOfRange
  | unfinished
  deriving DecidableEq

/-! ### The parser with checked accesses -/

/-- `content[index]`. The byte behind the last one is the terminator, which may
count as part of the text or not. -/
def byteAt (terminated : Bool) (content : Text) (index : Nat) : Except Fault Char :=
  match content[index]? with
  | some byte => .ok byte
  | none =>
      if terminated = true ∧ index = content.length then .ok '\x00' else .error .outOfRange

/-- `content.substr(position, count)` with both ends inside the content. -/
def cut (content : Text) (position count : Nat) : Except Fault Text :=
  if position + count ≤ content.length then .ok (substr content position count)
  else .error .outOfRange

/-- The loop over the bytes behind a tag, for a number of rounds from `index` on. -/
def scanSection (terminated : Bool) (content : Text) (startIndex : Nat) :
    Nat → Nat → Int → Bool → Except Fault (Option Nat)
  | 0, _, _, _ => .ok none
  | rounds + 1, index, depth, started => do
      let byte ← byteAt terminated content (startIndex + index)
      let depth' := if byte = '\x7b' then depth + 1 else if byte = '\x7d' then depth - 1 else depth
      let started' := started || byte = '\x7b'
      if depth' = 0 ∧ started' = true then .ok (some index)
      else scanSection terminated content startIndex rounds (index + 1) depth' started'

/-- `parseSectionBlock` with its loop from the tag's length up to the content's. -/
def checkedSectionBlock (terminated : Bool) (content start : Text) :
    Except Fault (Text × Text) :=
  match find content start 0 with
  | none => .ok ([], content)
  | some startIndex => do
      let closed ← scanSection terminated content startIndex (content.length - start.length)
        start.length 0 false
      match closed with
      | none => .ok ([], content)
      | some index =>
          if index < start.length + 1 then .error .outOfRange
          else do
            let result ← cut content (startIndex + start.length + 1) (index - start.length - 1)
            let remaining ← cut content (index - start.length)
              (content.length - (index - start.length))
            .ok (result, remaining)

def recordsTag : Text :=
  "\"records\":".toList

def recordTag : Text :=
  "\"record\":".toList

/-- The loop over the records of a section. -/
def checkedRecords (env : Env) (terminated : Bool) : Nat → Text → Except Fault (List Record)
  | 0, _ => .error .unfinished
  | rounds + 1, content => do
      let (recordSection, remaining) ← checkedSectionBlock terminated content recordTag
      if recordSection = [] then .ok []
      else do
        let later ← checkedRecords env terminated rounds remaining
        .ok (parseRecordJson env recordSection :: later)

/-- The fields of a block around its records. -/
def blockWith (content : Text) (records : List Record) : Block :=
  let network := quotedSection content "network"
  let time := quotedSection content "time"
  let previousBlockId := parseSectionLong content "previous_block_id"
  { network :=
      match records with
      | [] => network
      | first :: _ => if previousBlockId ≤ 0 ∧ network.length = 0 then first.network else network
    number := parseSectionLong content "number"
    time :=
      match records with
      | [] => time
      | first :: _ => if time.length = 0 then first.time else time
    previousBlockId := previousBlockId
    previousBlockHash := quotedSection content "previous_block_hash"
    recordsMerkleRoot := quotedSection content "records_merkle_root"
    creatorKey := quotedSection content "creator_key"
    hash := quotedSection content "hash"
    signature := quotedSection content "signature"
    records := records }

def checkedBlockSection (env : Env) (terminated : Bool) (content : Text) : Except Fault Block := do
  let (recordsSection, _) ← checkedSectionBlock terminated content recordsTag
  let records ← checkedRecords env terminated (recordsSection.length + 1) recordsSection
  .ok (blockWith content records)

/-- The outer loop. Its own scan for a closing brace stays inside the content. -/
def checkedBlockSections (env : Env) (terminated : Bool) :
    Nat → Text → Except Fault (List Block)
  | 0, _ => .error .unfinished
  | rounds + 1, content =>
      let opened := content.dropWhile (· ≠ '\x7b')
      match closingIndex opened 0 false 0 with
      | none => .ok []
      | some endIndex => do
          let block ← checkedBlockSection env terminated (opened.take (endIndex + 1))
          let later ← checkedBlockSections env terminated rounds (opened.drop (endIndex + 1))
          .ok (if 0 < block.number ∧ 0 < block.hash.length then block :: later else later)

def checkedBlockJson (env : Env) (terminated : Bool) (content : Text) :
    Except Fault (List Block) :=
  checkedBlockSections env terminated (content.length + 1) content

/-! ### One section -/

/-- Braces open and balance again in some beginning of the text. -/
def Balances (text : Text) : Prop :=
  ∃ inner, inner <+: text ∧ '\x7b' ∈ inner ∧ inner.count '\x7b' = inner.count '\x7d'

/-- The tag is absent, or nothing stands before it that the scan could run over, or
the braces behind it balance. -/
def Scans (terminated : Bool) (content start : Text) : Prop :=
  ∀ startIndex, find content start 0 = some startIndex →
    startIndex ≤ terminated.toNat ∨ Balances (content.drop (startIndex + start.length))

/-- The bytes up to the closing brace, by induction on the text. -/
theorem closingIndex_isSome_iff (text : Text) : ∀ (depth : Int) (started : Bool) (index : Nat),
    (closingIndex text depth started index).isSome = true ↔
      ∃ inner, inner <+: text ∧ inner ≠ [] ∧ (started = true ∨ '\x7b' ∈ inner) ∧
        depth + (inner.count '\x7b' : Int) = (inner.count '\x7d' : Int) := by
  induction text with
  | nil =>
      intro depth started index
      constructor
      · intro found
        cases found
      · intro balanced
        obtain ⟨inner, start, present, -⟩ := balanced
        exact absurd (List.prefix_nil.mp start) present
  | cons byte rest ih =>
      intro depth started index
      rw [closingIndex]
      generalize next : (if byte = '\x7b' then depth + 1
        else if byte = '\x7d' then depth - 1 else depth) = depth'
      have counts : ∀ inner : Text,
          depth + ((byte :: inner).count '\x7b' : Int) = ((byte :: inner).count '\x7d' : Int) ↔
            depth' + (inner.count '\x7b' : Int) = (inner.count '\x7d' : Int) := by
        intro inner
        rw [← next, List.count_cons, List.count_cons]
        by_cases opens : byte = '\x7b'
        · subst opens
          simp
          omega
        · by_cases closes : byte = '\x7d'
          · subst closes
            simp
            omega
          · simp [opens, closes]
      split
      · rename_i done
        refine iff_of_true rfl ⟨[byte], ⟨rest, rfl⟩, List.cons_ne_nil _ _, ?_, ?_⟩
        · cases Bool.or_eq_true_iff.mp done.2 with
          | inl before => exact .inl before
          | inr opens => exact .inr (by simp [of_decide_eq_true opens])
        · rw [counts]
          simp [done.1]
      · rename_i unclosed
        rw [ih]
        constructor
        · intro balanced
          obtain ⟨inner, ⟨after, split⟩, present, begun, even⟩ := balanced
          refine ⟨byte :: inner, ⟨after, by rw [← split]; rfl⟩, List.cons_ne_nil _ _, ?_,
            (counts inner).mpr even⟩
          cases begun with
          | inl before =>
              cases Bool.or_eq_true_iff.mp before with
              | inl before => exact .inl before
              | inr opens => exact .inr (by simp [of_decide_eq_true opens])
          | inr later => exact .inr (List.mem_cons_of_mem byte later)
        · intro balanced
          obtain ⟨inner, start, present, begun, even⟩ := balanced
          obtain ⟨first, tail, rfl⟩ := List.exists_cons_of_ne_nil present
          obtain ⟨rfl, tailStart⟩ := List.cons_prefix_cons.mp start
          have begunTail : (started || decide (first = '\x7b')) = true ∨ '\x7b' ∈ tail := by
            cases begun with
            | inl before => exact .inl (by simp [before])
            | inr member =>
                cases List.mem_cons.mp member with
                | inl same => exact .inl (by simp [← same])
                | inr later => exact .inr later
          refine ⟨tail, tailStart, ?_, begunTail, (counts tail).mp even⟩
          -- an even beginning of one byte would have ended the scan
          intro empty
          subst empty
          apply unclosed
          refine ⟨?_, begunTail.resolve_right List.not_mem_nil⟩
          simpa using (counts []).mp even

theorem balances_iff (text : Text) (index : Nat) :
    Balances text ↔ (closingIndex text 0 false index).isSome = true := by
  rw [closingIndex_isSome_iff]
  constructor
  · intro balanced
    obtain ⟨inner, start, opens, even⟩ := balanced
    exact ⟨inner, start, List.ne_nil_of_mem opens, .inr opens, by rw [zero_add, even]⟩
  · intro balanced
    obtain ⟨inner, start, -, begun, even⟩ := balanced
    rw [zero_add] at even
    exact ⟨inner, start, begun.resolve_left Bool.false_ne_true, Int.ofNat_inj.mp even⟩

theorem closingIndex_lower {text : Text} {depth : Int} {started : Bool} {index found : Nat}
    (closes : closingIndex text depth started index = some found) :
    index ≤ found ∧ found < index + text.length := by
  induction text generalizing depth started index with
  | nil => cases closes
  | cons byte rest ih =>
      rw [closingIndex] at closes
      rw [List.length_cons]
      generalize (if byte = '\x7b' then depth + 1
        else if byte = '\x7d' then depth - 1 else depth) = depth' at closes
      split at closes
      · obtain rfl := Option.some.inj closes
        omega
      · have later := ih closes
        omega

/-- The first byte behind a tag cannot close the section. -/
theorem closingIndex_first {text : Text} {index found : Nat}
    (closes : closingIndex text 0 false index = some found) : index + 1 ≤ found := by
  cases text with
  | nil => cases closes
  | cons byte rest =>
      rw [closingIndex] at closes
      by_cases opens : byte = '\x7b'
      · rw [if_pos opens, if_neg (by simp)] at closes
        exact (closingIndex_lower closes).1
      · rw [if_neg opens, if_neg (by simp [opens])] at closes
        exact (closingIndex_lower closes).1

section Scan

variable {terminated : Bool} {content : Text} {startIndex : Nat}

theorem byteAt_of_drop {index : Nat} {byte : Char} {rest : Text}
    (here : content.drop index = byte :: rest) : byteAt terminated content index = .ok byte := by
  have found : content[index]? = some byte := by
    rw [← List.head?_drop, here]
    rfl
  rw [byteAt, found]

theorem byteAt_past {index : Nat} (past : content.length < index) :
    byteAt terminated content index = .error .outOfRange := by
  rw [byteAt, List.getElem?_eq_none past.le]
  exact if_neg fun last => absurd last.2 past.ne'

theorem byteAt_end (terminated : Bool) (content : Text) :
    byteAt terminated content content.length =
      if terminated = true then .ok '\x00' else .error .outOfRange := by
  rw [byteAt, List.getElem?_eq_none le_rfl]
  simp

/-- Behind the last byte only the terminator may be read, for one round. -/
theorem scanSection_past (rounds : Nat) {index : Nat} {depth : Int} {started : Bool}
    (past : startIndex + index = content.length) (unclosed : ¬ (depth = 0 ∧ started = true)) :
    scanSection terminated content startIndex rounds index depth started =
      if rounds ≤ terminated.toNat then .ok none else .error .outOfRange := by
  cases rounds with
  | zero =>
      rw [if_pos (Nat.zero_le _)]
      rfl
  | succ rounds =>
      rw [scanSection, past, byteAt_end]
      cases terminated with
      | false =>
          have late : ¬ rounds + 1 ≤ false.toNat := Nat.not_succ_le_zero rounds
          rw [if_neg Bool.false_ne_true, if_neg late]
          rfl
      | true =>
          have plain : ¬ (depth = 0 ∧ (started || decide ('\x00' = '\x7b')) = true) := by
            simpa using unclosed
          change (if depth = 0 ∧ (started || decide ('\x00' = '\x7b')) = true then _ else _) = _
          rw [if_neg plain]
          cases rounds with
          | zero => rfl
          | succ rounds =>
              rw [scanSection, byteAt_past (by omega), if_neg (by simp)]
              rfl

/-- The scan finds the closing brace, or runs as far past the end as the tag stands
behind the front. -/
theorem scanSection_eq (rest : Text) : ∀ (index : Nat) (depth : Int) (started : Bool),
    content.drop (startIndex + index) = rest → startIndex + index ≤ content.length →
    ¬ (depth = 0 ∧ started = true) →
    scanSection terminated content startIndex (content.length - index) index depth started =
      match closingIndex rest depth started index with
      | some found => .ok (some found)
      | none => if startIndex ≤ terminated.toNat then .ok none else .error .outOfRange := by
  induction rest with
  | nil =>
      intro index depth started here inside unclosed
      have full : content.length = startIndex + index := by
        have short := List.drop_eq_nil_iff.mp here
        omega
      rw [scanSection_past _ full.symm unclosed, closingIndex,
        show content.length - index = startIndex by omega]
  | cons byte rest ih =>
      intro index depth started here inside unclosed
      have long : startIndex + index < content.length := by
        by_contra short
        rw [List.drop_eq_nil_of_le (not_lt.mp short)] at here
        cases here
      obtain ⟨rounds, size⟩ : ∃ rounds, content.length - index = rounds + 1 :=
        ⟨content.length - index - 1, by omega⟩
      have later : content.drop (startIndex + (index + 1)) = rest := by
        rw [← Nat.add_assoc, ← List.drop_drop, here]
        rfl
      have next := fun depth' started' => ih (index + 1) depth' started' later (by omega)
      rw [show content.length - (index + 1) = rounds by omega] at next
      rw [size, scanSection, byteAt_of_drop here, closingIndex]
      change (if (if byte = '\x7b' then depth + 1 else if byte = '\x7d' then depth - 1 else depth) = 0 ∧
        (started || decide (byte = '\x7b')) = true then _ else _) = _
      generalize (if byte = '\x7b' then depth + 1
        else if byte = '\x7d' then depth - 1 else depth) = depth'
      by_cases closed : depth' = 0 ∧ (started || decide (byte = '\x7b')) = true
      · rw [if_pos closed, if_pos closed]
      · rw [if_neg closed, if_neg closed]
        exact next _ _ closed

end Scan

/-! ### One call -/

section Section

variable {terminated : Bool} {content start : Text}

theorem cut_eq {position count : Nat} (inside : position + count ≤ content.length) :
    cut content position count = .ok (substr content position count) :=
  if_pos inside

theorem checkedSectionBlock_closed {startIndex index : Nat}
    (found : find content start 0 = some startIndex)
    (closes : closingIndex (content.drop (startIndex + start.length)) 0 false start.length =
      some index) :
    checkedSectionBlock terminated content start = .ok (parseSectionBlock content start) := by
  have inside := find_inside found
  have first := closingIndex_first closes
  have last := (closingIndex_lower closes).2
  rw [List.length_drop] at last
  have scanned := @scanSection_eq terminated content startIndex _ start.length 0 false rfl inside
    (by simp)
  rw [closes] at scanned
  have rest : substr content (index - start.length) (content.length - (index - start.length)) =
      content.drop (index - start.length) := by
    rw [substr, List.take_of_length_le]
    rw [List.length_drop]
  rw [checkedSectionBlock, found, parseSectionBlock, found]
  dsimp only
  rw [scanned, closes]
  change (if index < start.length + 1 then _ else _) = _
  rw [if_neg (by omega), cut_eq (by omega), cut_eq (by omega), rest]
  rfl

theorem checkedSectionBlock_open {startIndex : Nat}
    (found : find content start 0 = some startIndex)
    (unclosed : closingIndex (content.drop (startIndex + start.length)) 0 false start.length =
      none) :
    checkedSectionBlock terminated content start =
      if startIndex ≤ terminated.toNat then .ok (parseSectionBlock content start)
      else .error .outOfRange := by
  have scanned := @scanSection_eq terminated content startIndex _ start.length 0 false rfl
    (find_inside found) (by simp)
  rw [unclosed] at scanned
  dsimp only at scanned
  rw [checkedSectionBlock, found, parseSectionBlock, found]
  dsimp only
  rw [scanned, unclosed]
  by_cases near : startIndex ≤ terminated.toNat
  · rw [if_pos near, if_pos near]
    rfl
  · rw [if_neg near, if_neg near]
    rfl

/-- One call stays inside its text exactly where the tag can be scanned. -/
theorem checkedSectionBlock_eq :
    (Scans terminated content start →
        checkedSectionBlock terminated content start = .ok (parseSectionBlock content start)) ∧
      (¬ Scans terminated content start →
        checkedSectionBlock terminated content start = .error .outOfRange) := by
  cases found : find content start 0 with
  | none =>
      have scans : Scans terminated content start := by
        intro startIndex same
        rw [found] at same
        cases same
      refine ⟨fun _ => ?_, fun unscanned => absurd scans unscanned⟩
      rw [checkedSectionBlock, found, parseSectionBlock, found]
  | some startIndex =>
      have scans : Scans terminated content start ↔ startIndex ≤ terminated.toNat ∨
          Balances (content.drop (startIndex + start.length)) := by
        constructor
        · exact fun holds => holds startIndex found
        · intro holds other same
          rw [found] at same
          exact Option.some.inj same ▸ holds
      rw [scans, balances_iff _ start.length]
      cases closes : closingIndex (content.drop (startIndex + start.length)) 0 false
          start.length with
      | some index =>
          refine ⟨fun _ => checkedSectionBlock_closed found closes, fun refused => ?_⟩
          exact absurd (.inr rfl) refused
      | none =>
          rw [checkedSectionBlock_open found closes]
          constructor
          · intro near
            exact if_pos (near.resolve_right Bool.false_ne_true)
          · intro far
            exact if_neg fun near => far (.inl near)

/-- A section that is not empty shortens the rest. -/
theorem parseSectionBlock_shortens (filled : (parseSectionBlock content start).1 ≠ []) :
    (parseSectionBlock content start).2.length < content.length := by
  cases found : find content start 0 with
  | none =>
      rw [parseSectionBlock, found] at filled
      exact absurd rfl filled
  | some startIndex =>
      cases closes : closingIndex (content.drop (startIndex + start.length)) 0 false
          start.length with
      | none =>
          rw [parseSectionBlock, found] at filled
          dsimp only at filled
          rw [closes] at filled
          exact absurd rfl filled
      | some index =>
          have first := closingIndex_first closes
          have last := (closingIndex_lower closes).2
          rw [List.length_drop] at last
          rw [parseSectionBlock, found]
          dsimp only
          rw [closes]
          dsimp only
          rw [List.length_drop]
          omega

end Section

/-! ### The texts that are scanned -/

/-- The contents in which the loop over the records looks for a record. -/
def recordScans : Nat → Text → List Text
  | 0, _ => []
  | rounds + 1, content =>
      content ::
        if (parseSectionBlock content recordTag).1 = [] then []
        else recordScans rounds (parseSectionBlock content recordTag).2

/-- The scans of one block section, each with the tag it looks for. -/
def blockScans (content : Text) : List (Text × Text) :=
  let recordsSection := (parseSectionBlock content recordsTag).1
  (content, recordsTag) ::
    (recordScans (recordsSection.length + 1) recordsSection).map (·, recordTag)

/-- The scans of every block section, in order. -/
def sectionScans : Nat → Text → List (Text × Text)
  | 0, _ => []
  | rounds + 1, content =>
      let opened := content.dropWhile (· ≠ '\x7b')
      match closingIndex opened 0 false 0 with
      | none => []
      | some endIndex =>
          blockScans (opened.take (endIndex + 1)) ++
            sectionScans rounds (opened.drop (endIndex + 1))

/-- Every scan finds its tag absent, at the front, or before balanced braces. -/
def AllScan (terminated : Bool) (scans : List (Text × Text)) : Prop :=
  ∀ scan ∈ scans, Scans terminated scan.1 scan.2

/-- A computation that gives the value under a condition and faults without it. -/
def GivesWhen {α : Type} (condition : Prop) (computation : Except Fault α) (value : α) : Prop :=
  (condition → computation = .ok value) ∧ (¬ condition → computation = .error .outOfRange)

namespace GivesWhen

variable {α β : Type} {first second : Prop} {computation : Except Fault α} {value : α}

theorem pure (value : α) : GivesWhen True (.ok value) value :=
  ⟨fun _ => rfl, fun refused => absurd trivial refused⟩

theorem congr (gives : GivesWhen first computation value) (same : second ↔ first) :
    GivesWhen second computation value := by
  rw [GivesWhen, same]
  exact gives

/-- The first fault stops the rest. -/
theorem bind {next : α → Except Fault β} {result : β} (gives : GivesWhen first computation value)
    (later : GivesWhen second (next value) result) :
    GivesWhen (first ∧ second) (computation >>= next) result := by
  by_cases holds : first
  · rw [gives.1 holds]
    exact later.congr (and_iff_right holds)
  · rw [gives.2 holds]
    exact ⟨fun both => absurd both.1 holds, fun _ => rfl⟩

theorem map (gives : GivesWhen first computation value) (f : α → β) :
    GivesWhen first (computation >>= fun result => .ok (f result)) (f value) := by
  have both : GivesWhen (first ∧ True) (computation >>= fun result => .ok (f result)) (f value) :=
    gives.bind (.pure (f value))
  exact both.congr (and_iff_left trivial).symm

end GivesWhen

variable {terminated : Bool}

theorem givesWhen_section (terminated : Bool) (content start : Text) :
    GivesWhen (Scans terminated content start) (checkedSectionBlock terminated content start)
      (parseSectionBlock content start) :=
  checkedSectionBlock_eq

/-- The loop over the records, which is never left unfinished. -/
theorem givesWhen_records (env : Env) (rounds : Nat) : ∀ {content : Text}, content.length < rounds →
    GivesWhen (∀ text ∈ recordScans rounds content, Scans terminated text recordTag)
      (checkedRecords env terminated rounds content) (parseRecords env rounds content) := by
  induction rounds with
  | zero => exact fun short => absurd short (Nat.not_lt_zero _)
  | succ rounds ih =>
      intro content short
      have here := givesWhen_section terminated content recordTag
      have shortens := @parseSectionBlock_shortens content recordTag
      rw [checkedRecords, parseRecords, recordScans]
      change GivesWhen _ _ (match parseSectionBlock content recordTag with
        | (recordSection, remaining) => if recordSection = [] then [] else
            parseRecordJson env recordSection :: parseRecords env rounds remaining)
      generalize parseSectionBlock content recordTag = parsed at here shortens ⊢
      obtain ⟨recordSection, remaining⟩ := parsed
      dsimp only at shortens ⊢
      by_cases empty : recordSection = []
      · rw [if_pos empty, if_pos empty]
        refine (here.bind (?_ : GivesWhen True _ [])).congr ?_
        · dsimp only
          rw [if_pos empty]
          exact .pure []
        · simp
      · rw [if_neg empty, if_neg empty]
        have less := shortens empty
        have rest := @ih remaining (by omega)
        have later := rest.map fun later => parseRecordJson env recordSection :: later
        refine (here.bind (?_ : GivesWhen (∀ text ∈ recordScans rounds remaining,
          Scans terminated text recordTag) _ _)).congr ?_
        · dsimp only
          rw [if_neg empty]
          exact later
        · exact List.forall_mem_cons

theorem parseBlockSection_eq (env : Env) (content : Text) :
    parseBlockSection env content =
      blockWith content (parseRecords env
        ((parseSectionBlock content recordsTag).1.length + 1)
        (parseSectionBlock content recordsTag).1) := rfl

theorem givesWhen_block (env : Env) (terminated : Bool) (content : Text) :
    GivesWhen (AllScan terminated (blockScans content))
      (checkedBlockSection env terminated content) (parseBlockSection env content) := by
  have here := givesWhen_section terminated content recordsTag
  have records := @givesWhen_records terminated env _ (parseSectionBlock content recordsTag).1
    (Nat.lt_succ_self _)
  have whole : GivesWhen _ (checkedBlockSection env terminated content) _ :=
    here.bind (records.map (blockWith content))
  rw [parseBlockSection_eq]
  apply whole.congr
  rw [AllScan, blockScans, List.forall_mem_cons]
  simp only [List.forall_mem_map]

/-- The outer loop passes a closing brace in every round. -/
theorem givesWhen_sections (env : Env) (rounds : Nat) : ∀ {content : Text}, content.length < rounds →
    GivesWhen (AllScan terminated (sectionScans rounds content))
      (checkedBlockSections env terminated rounds content)
      (parseBlockSections env rounds content) := by
  induction rounds with
  | zero => exact fun short => absurd short (Nat.not_lt_zero _)
  | succ rounds ih =>
      intro content short
      have opened := (List.dropWhile_suffix (fun byte : Char => decide (byte ≠ '\x7b'))
        (l := content)).length_le
      rw [checkedBlockSections, parseBlockSections, sectionScans]
      dsimp only
      generalize content.dropWhile (fun byte : Char => decide (byte ≠ '\x7b')) = text at opened ⊢
      cases closes : closingIndex text 0 false 0 with
      | none => exact (GivesWhen.pure _).congr (by simp [AllScan])
      | some endIndex =>
          have inside := (closingIndex_lower closes).2
          have rest := @ih (text.drop (endIndex + 1)) (by
            rw [List.length_drop]
            omega)
          apply ((givesWhen_block env terminated (text.take (endIndex + 1))).bind
            (rest.map fun later =>
              if 0 < (parseBlockSection env (text.take (endIndex + 1))).number ∧
                  0 < (parseBlockSection env (text.take (endIndex + 1))).hash.length then
                parseBlockSection env (text.take (endIndex + 1)) :: later
              else later)).congr
          rw [AllScan, List.forall_mem_append]
          rfl

/-! ### Every input -/

/-- The parser always ends, and it stays inside its texts exactly where every scan
finds its tag absent, at the front, or before braces that balance. -/
theorem parser_in_bounds_iff (env : Env) (terminated : Bool) (content : Text) :
    checkedBlockJson env terminated content ≠ .error .unfinished ∧
      (checkedBlockJson env terminated content = .ok (parseBlockJson env content) ↔
        AllScan terminated (sectionScans (content.length + 1) content)) := by
  have gives := @givesWhen_sections terminated env _ content (Nat.lt_succ_self _)
  rw [checkedBlockJson, parseBlockJson]
  by_cases scans : AllScan terminated (sectionScans (content.length + 1) content)
  · rw [gives.1 scans]
    exact ⟨by simp, iff_of_true rfl scans⟩
  · rw [gives.2 scans]
    exact ⟨by simp, iff_of_false (by simp) scans⟩

/-- A tag near the end that no brace follows. -/
def cutShort : Text :=
  "\x7b \"records\":\x7d".toList

/-- The scan reads one byte behind the terminator. -/
theorem cutShort_out_of_range :
    checkedBlockJson Sample.env false cutShort = .error .outOfRange ∧
      checkedBlockJson Sample.env true cutShort = .error .outOfRange := by
  decide +kernel

end Safire
