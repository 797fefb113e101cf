/-
A record on its way through other nodes and their mempools.

A node that receives a record parses its text, queues the text of the parsed
record and later parses what it queued. A record without quotes comes out of
every such stage as it went in, so the validators judge it alike everywhere.
-/

import Safire.QueueRuns

namespace Safire

open Text Mempool

variable {env : Env} {record : Record}

/-- What the reader of a record's text holds. -/
def received (env : Env) (record : Record) : Record :=
  parseRecordJson env (recordJSON env record)

/-- The same fields, and the same verdicts on hash and signature. -/
structure Unchanged (env : Env) (before after : Record) : Prop where
  fields : after = before
  hash : getRecordHash env after = getRecordHash env before
  signature : checkRecordSignature env after = checkRecordSignature env before

theorem Unchanged.of_eq {before after : Record} (same : after = before) :
    Unchanged env before after where
  fields := same
  hash := congrArg (getRecordHash env) same
  signature := congrArg (checkRecordSignature env) same

theorem QueueableRecord.received_eq (queueable : QueueableRecord env record)
    (nonce : 0 ≤ record.nonce) : received env record = record := by
  have read := parseRecordJson_recordJSON queueable.quotes queueable.nonce queueable.amount
    queueable.fee
  rw [Record.written_of_nonce nonce] at read
  exact read

/-- Any number of stages, by induction on them. -/
theorem QueueableRecord.received_iterate (queueable : QueueableRecord env record)
    (nonce : 0 ≤ record.nonce) (stages : Nat) : (received env)^[stages] record = record := by
  induction stages with
  | zero => rfl
  | succ stages ih =>
      rw [Function.iterate_succ_apply, queueable.received_eq nonce]
      exact ih

/-- What the mempool entry of a queued record reads back as. -/
theorem recordAt_writeQueued (db : LevelDb) (sequence : Int) (record : Record) :
    recordAt env (writeQueued env db sequence record) (recordKey sequence record.hash) =
      some (received env record) := by
  rw [recordAt, getElem?_writeQueued_record (recordPrefix_recordKey _ _), if_pos rfl]
  rfl

/-- A quote-free record survives its encoding, and with it every stage of its way and
the mempool entry at the end. -/
theorem record_unchanged_on_its_way (queueable : QueueableRecord env record)
    (nonce : 0 ≤ record.nonce) (stages : Nat) :
    parseRecordJson env (recordJSON env record) = record ∧
      Unchanged env record ((received env)^[stages] record) ∧
      ∀ (db : LevelDb) (sequence : Int),
        ∃ kept, recordAt env (writeQueued env db sequence ((received env)^[stages] record))
            (recordKey sequence record.hash) = some kept ∧
          Unchanged env record kept := by
  have arrived := queueable.received_iterate nonce stages
  refine ⟨queueable.received_eq nonce, .of_eq arrived, ?_⟩
  intro db sequence
  refine ⟨received env record, ?_, .of_eq (queueable.received_eq nonce)⟩
  rw [arrived]
  exact recordAt_writeQueued db sequence record

namespace Sample

/-- Braces, commas, colons and line ends may stand in a field. -/
def braceSpend : Record :=
  { spend with value := "\x7b a: \x7b, \n".toList }

theorem queueable_braceSpend : QueueableRecord Sample.env braceSpend := by
  obtain ⟨quotes, nonce, amount, fee⟩ := queueable_spend
  exact ⟨⟨quotes.network, quotes.time, quotes.name, quotes.sender, quotes.recipient, by decide,
    quotes.hash, quotes.signature, quotes.amount, quotes.fee⟩, nonce, amount, fee⟩

theorem braceSpend_unchanged_on_its_way :
    parseRecordJson Sample.env (recordJSON Sample.env braceSpend) = braceSpend ∧
      Unchanged Sample.env braceSpend ((received Sample.env)^[3] braceSpend) ∧
      ∀ (db : LevelDb) (sequence : Int),
        ∃ kept,
          recordAt Sample.env
              (writeQueued Sample.env db sequence ((received Sample.env)^[3] braceSpend))
              (recordKey sequence braceSpend.hash) = some kept ∧
          Unchanged Sample.env braceSpend kept :=
  record_unchanged_on_its_way queueable_braceSpend (by decide) 3

end Sample

end Safire
