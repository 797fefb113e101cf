/-
What the exchange endpoints report about a record of the chain.

Both endpoints walk the accepted blocks and report as confirmations the distance
between block numbers. Block numbers are time slots, so that is the number of
blocks exactly where no slot was skipped after the record.
-/

import Safire.MempoolReads
import Safire.SpendableBalance

namespace Safire.RequestHandler

open ChainValidator LedgerState Mempool Text

/-- `exchange_record_location`. A field that is never assigned is `none`. -/
structure ExchangeRecordLocation where
  found : Bool
  pending : Bool
  blockNumber : Int
  recordIndex : Int
  confirmations : Int
  block : Option Block
  record : Option Record

def emptyExchangeRecordLocation : ExchangeRecordLocation where
  found := false
  pending := false
  blockNumber := -1
  recordIndex := -1
  confirmations := 0
  block := none
  record := none

/-- A record with its block and its place in the block. -/
abbrev Place := Block × Nat × Record

/-- One round of the record loops: a hash that was met before is skipped. -/
def acceptedRound (progress : TextSet × List Place) (place : Place) : TextSet × List Place :=
  if 0 < place.2.2.hash.length ∧ place.2.2.hash ∈ progress.1 then progress
  else
    (if 0 < place.2.2.hash.length then progress.1.insert place.2.2.hash else progress.1,
      progress.2 ++ [place])

def placesOf (blocks : List Block) : List Place :=
  blocks.flatMap (fun block => block.records.zipIdx.map (fun entry => (block, entry.2, entry.1)))

/-- The records that the loops do not skip. -/
def acceptedPlaces (blocks : List Block) : List Place :=
  ((placesOf blocks).foldl acceptedRound (∅, [])).2

/-- The blocks of the walk that both endpoints make. -/
def acceptedBlocks (env : Env) (db : LevelDb) : List Block :=
  if getFirstBlockId db < 0 ∨ getLatestBlockId db < 0 then []
  else
    walk env db (fun _ => false) (fun number => decide (number = getLatestBlockId db)) walkGuard
      (getBlock env db (getFirstBlockId db))

def acceptedLocation (latestBlockId : Int) (place : Place) : ExchangeRecordLocation where
  found := true
  pending := false
  blockNumber := place.1.number
  recordIndex := place.2.1
  confirmations :=
    if place.1.number ≤ latestBlockId then latestBlockId - place.1.number + 1 else 0
  block := some place.1
  record := some place.2.2

/-- A record that is not in the chain is looked for in the mempool, which the
reading may clean up. -/
def findExchangeRecord (env : Env) (currentBlock : Int) (opened : Bool) (store : PendingStore)
    (recordHash : Text) : ExchangeRecordLocation × PendingStore :=
  if recordHash.length = 0 then (emptyExchangeRecordLocation, store)
  else
    match (acceptedPlaces (acceptedBlocks env store.db)).find?
        (fun place => decide (place.2.2.hash = recordHash)) with
    | some place => (acceptedLocation (getLatestBlockId store.db) place, store)
    | none =>
        let (pendingRecords, after) := peekQueueRecords env currentBlock opened store
        match pendingRecords.zipIdx.find? (fun entry => decide (entry.1.hash = recordHash)) with
        | some (record, index) =>
            ({ emptyExchangeRecordLocation with
                found := true
                pending := true
                recordIndex := index
                record := some record }, after)
        | none => (emptyExchangeRecordLocation, after)

def depositsLimit : Nat := 500

def isDeposit (address : Text) (place : Place) : Bool :=
  decide (place.2.2.transactionType = .transferCurrency ∧
    place.2.2.recipientPublicKey = address)

/-- One more deposit at the end, and one less at the front above the limit. -/
def depositRound (latestBlockId : Int) (address : Text) (deposits : List ExchangeRecordLocation)
    (place : Place) : List ExchangeRecordLocation :=
  if isDeposit address place then
    let longer := deposits ++ [acceptedLocation latestBlockId place]
    if depositsLimit < longer.length then longer.drop 1 else longer
  else deposits

/-- The deposits that are listed for an address. -/
def exchangeDeposits (env : Env) (db : LevelDb) (address : Text) : List ExchangeRecordLocation :=
  if address.length = 0 then []
  else
    (acceptedPlaces (acceptedBlocks env db)).foldl (depositRound (getLatestBlockId db) address) []

/-! ### The records that are not skipped -/

section Places

variable {places : List Place} {place : Place} {progress : TextSet × List Place} {hash : Text}

theorem mem_placesOf {blocks : List Block} : place ∈ placesOf blocks ↔
    place.1 ∈ blocks ∧ place.1.records[place.2.1]? = some place.2.2 := by
  unfold placesOf
  rw [List.mem_flatMap]
  constructor
  · intro listed
    obtain ⟨block, member, found⟩ := listed
    obtain ⟨entry, inside, rfl⟩ := List.mem_map.mp found
    exact ⟨member, List.mem_zipIdx_iff_getElem?.mp inside⟩
  · intro found
    refine ⟨place.1, found.1, List.mem_map.mpr ⟨(place.2.2, place.2.1), ?_, rfl⟩⟩
    exact List.mem_zipIdx_iff_getElem?.mpr found.2

theorem prefix_foldl_acceptedRound : progress.2 <+: (places.foldl acceptedRound progress).2 := by
  induction places generalizing progress with
  | nil => exact List.prefix_rfl
  | cons place rest ih =>
      rw [List.foldl_cons]
      apply List.IsPrefix.trans _ ih
      unfold acceptedRound
      split
      · exact List.prefix_rfl
      · exact List.prefix_append _ _

/-- The first record under a hash is the one that is not skipped. -/
theorem find_foldl_acceptedRound (fresh : hash ∉ progress.1)
    (none : progress.2.find? (fun place => decide (place.2.2.hash = hash)) = none) :
    (places.foldl acceptedRound progress).2.find? (fun place => decide (place.2.2.hash = hash)) =
      places.find? (fun place => decide (place.2.2.hash = hash)) := by
  induction places generalizing progress with
  | nil => exact none
  | cons place rest ih =>
      rw [List.foldl_cons]
      by_cases same : place.2.2.hash = hash
      · have kept : acceptedRound progress place =
            (if 0 < place.2.2.hash.length then progress.1.insert place.2.2.hash else progress.1,
              progress.2 ++ [place]) := by
          rw [acceptedRound, if_neg]
          intro known
          rw [same] at known
          exact fresh known.2
        obtain ⟨later, split⟩ :=
          @prefix_foldl_acceptedRound rest (acceptedRound progress place)
        rw [List.find?_cons_of_pos (by simpa using same), ← split, kept, List.find?_append,
          List.find?_append, none]
        simp [same]
      · rw [List.find?_cons_of_neg (by simpa using same)]
        unfold acceptedRound
        split
        · exact ih fresh none
        · apply ih
          · dsimp only
            split
            · rw [Std.ExtTreeSet.mem_insert, Std.LawfulEqCmp.compare_eq_iff_eq]
              exact fun known => known.elim same fresh
            · exact fresh
          · dsimp only
            rw [List.find?_append, none]
            simp [same]

theorem find_acceptedPlaces (blocks : List Block) (hash : Text) :
    (acceptedPlaces blocks).find? (fun place => decide (place.2.2.hash = hash)) =
      (placesOf blocks).find? (fun place => decide (place.2.2.hash = hash)) :=
  find_foldl_acceptedRound Std.ExtTreeSet.not_mem_empty rfl

/-- No hash that is not empty is kept twice. -/
def Apart (places : List Place) : Prop :=
  places.Pairwise (fun first second => 0 < second.2.2.hash.length →
    first.2.2.hash ≠ second.2.2.hash)

theorem apart_foldl_acceptedRound (apart : Apart progress.2)
    (seen : ∀ place ∈ progress.2, 0 < place.2.2.hash.length → place.2.2.hash ∈ progress.1) :
    Apart (places.foldl acceptedRound progress).2 := by
  induction places generalizing progress with
  | nil => exact apart
  | cons place rest ih =>
      rw [List.foldl_cons]
      unfold acceptedRound
      split
      · exact ih apart seen
      · rename_i fresh
        apply ih
        · apply List.pairwise_append.mpr
          refine ⟨apart, List.pairwise_singleton _ _, ?_⟩
          intro old member last single nonempty same
          rw [List.mem_singleton.mp single] at nonempty same
          rw [← same] at nonempty
          exact fresh ⟨same ▸ nonempty, same ▸ seen old member nonempty⟩
        · intro old member nonempty
          dsimp only at member ⊢
          cases List.mem_append.mp member with
          | inl early =>
              have known := seen old early nonempty
              split
              · exact Std.ExtTreeSet.mem_insert.mpr (.inr known)
              · exact known
          | inr last =>
              rw [List.mem_singleton.mp last] at nonempty ⊢
              rw [if_pos nonempty]
              exact Std.ExtTreeSet.mem_insert_self

/-- A record that is not skipped is the first under its hash. -/
theorem find_of_mem_acceptedPlaces {blocks : List Block} (listed : place ∈ acceptedPlaces blocks)
    (nonempty : 0 < place.2.2.hash.length) :
    (placesOf blocks).find? (fun other => decide (other.2.2.hash = place.2.2.hash)) =
      some place := by
  have apart : Apart (acceptedPlaces blocks) :=
    apart_foldl_acceptedRound List.Pairwise.nil (fun other none => absurd none List.not_mem_nil)
  rw [← find_acceptedPlaces]
  generalize acceptedPlaces blocks = kept at listed apart
  induction kept with
  | nil => cases listed
  | cons first rest ih =>
      rw [Apart, List.pairwise_cons] at apart
      cases List.mem_cons.mp listed with
      | inl same =>
          rw [same]
          exact List.find?_cons_of_pos (by simp)
      | inr later =>
          have different := apart.1 place later nonempty
          rw [List.find?_cons_of_neg (by simpa using different)]
          exact ih later apart.2

end Places

/-! ### The number of blocks -/

/-- Every block stands in the slot after that of its parent. -/
def NoSlotSkipped (chain : List Block) : Prop :=
  chain.IsChain (fun parent child => child.number = parent.number + 1)

/-- The slots from the first to the last block are at least as many as the blocks,
and no more exactly when none was skipped. -/
theorem slots_of_ascending {block tip : Block} {after : List Block}
    (sorted : (block :: after).Pairwise (fun earlier later => earlier.number < later.number))
    (last : (block :: after).getLast? = some tip) :
    ((block :: after).length : Int) ≤ tip.number - block.number + 1 ∧
      (tip.number - block.number + 1 = (block :: after).length ↔
        NoSlotSkipped (block :: after)) := by
  induction after generalizing block with
  | nil =>
      have same : block = tip := Option.some.inj last
      subst same
      constructor
      · simp
      · simp [NoSlotSkipped]
  | cons child rest ih =>
      obtain ⟨above, later⟩ := List.pairwise_cons.mp sorted
      have below := above child List.mem_cons_self
      obtain ⟨atLeast, exact'⟩ := ih later (by rwa [List.getLast?_cons_cons] at last)
      rw [List.length_cons] at atLeast exact' ⊢
      rw [List.length_cons, NoSlotSkipped, List.isChain_cons_cons, ← NoSlotSkipped, ← exact']
      push_cast at atLeast ⊢
      constructor
      · omega
      · omega

/-! ### The deposits -/

/-- The newest deposits stay, up to the limit. -/
theorem foldl_depositRound {latest : Int} {address : Text} {places : List Place}
    {deposits : List ExchangeRecordLocation} (short : deposits.length ≤ depositsLimit) :
    places.foldl (depositRound latest address) deposits =
      let all := deposits ++ (places.filter (isDeposit address)).map
        (acceptedLocation latest)
      all.drop (all.length - depositsLimit) := by
  induction places generalizing deposits with
  | nil => simp [Nat.sub_eq_zero_of_le short]
  | cons place rest ih =>
      rw [List.foldl_cons, depositRound]
      by_cases pays : isDeposit address place = true
      · rw [if_pos pays, List.filter_cons_of_pos pays, List.map_cons]
        dsimp only
        have joined : deposits ++ acceptedLocation latest place ::
            (rest.filter (isDeposit address)).map (acceptedLocation latest) =
            (deposits ++ [acceptedLocation latest place]) ++
              (rest.filter (isDeposit address)).map
                (acceptedLocation latest) := by simp
        rw [joined]
        have longer : (deposits ++ [acceptedLocation latest place]).length = deposits.length + 1 := by
          simp
        by_cases full : depositsLimit < (deposits ++ [acceptedLocation latest place]).length
        · rw [if_pos full, ih (by rw [List.length_drop]; omega)]
          dsimp only
          generalize (rest.filter (isDeposit address)).map (acceptedLocation latest) = later
          have count : 1 + (((deposits ++ [acceptedLocation latest place]).drop 1 ++ later).length -
              depositsLimit) =
                ((deposits ++ [acceptedLocation latest place]) ++ later).length - depositsLimit := by
            rw [List.length_append, List.length_append, List.length_drop, longer]
            omega
          have peeled : ((deposits ++ [acceptedLocation latest place]) ++ later).drop 1 =
              (deposits ++ [acceptedLocation latest place]).drop 1 ++ later :=
            List.drop_append_of_le_length (by omega)
          rw [← count, ← List.drop_drop, peeled]
        · rw [if_neg full, ih (not_lt.mp full)]
      · rw [if_neg pays, List.filter_cons_of_neg pays, ih short]

theorem exchangeDeposits_eq (env : Env) (db : LevelDb) {address : Text}
    (nonempty : address ≠ []) : exchangeDeposits env db address =
      let all := ((acceptedPlaces (acceptedBlocks env db)).filter (isDeposit address)).map
        (acceptedLocation (getLatestBlockId db))
      all.drop (all.length - depositsLimit) := by
  have length : address.length ≠ 0 := fun zero => nonempty (List.length_eq_zero_iff.mp zero)
  rw [exchangeDeposits, if_neg length]
  exact foldl_depositRound (Nat.zero_le _)

/-! ### The chain -/

section Chain

variable {env : Env} {db : LevelDb} {chain : List Block} {hash : Text}

theorem acceptedBlocks_of_canonical (canonical : CanonicalChain env db chain)
    (short : chain.length ≤ walkGuard) : acceptedBlocks env db = chain := by
  obtain ⟨first, latest⟩ := canonical.ends_positive
  rw [acceptedBlocks, if_neg (by omega), walk_of_canonical canonical]
  exact List.take_of_length_le short

theorem placesOf_append (first second : List Block) :
    placesOf (first ++ second) = placesOf first ++ placesOf second := List.flatMap_append

/-- The first record under a hash stands in the first block that has the hash. -/
theorem first_place (ascending : Ascending chain) {place : Place}
    (found : (placesOf chain).find? (fun other => decide (other.2.2.hash = hash)) = some place) :
    ∃ before after, chain = before ++ place.1 :: after ∧
      (∀ earlier ∈ before, ∀ other ∈ earlier.records, other.hash ≠ hash) ∧
      place.1.records[place.2.1]? = some place.2.2 ∧ place.2.2.hash = hash := by
  obtain ⟨member, stands⟩ := mem_placesOf.mp (List.mem_of_find?_eq_some found)
  obtain ⟨before, after, split⟩ := List.append_of_mem member
  refine ⟨before, after, split, ?_, stands, by simpa using List.find?_some found⟩
  intro earlier inside other listed same
  obtain ⟨index, bound, value⟩ := List.mem_iff_getElem.mp listed
  have early : (earlier, index, other) ∈ placesOf before :=
    mem_placesOf.mpr ⟨inside, by rw [← value]; exact List.getElem?_eq_getElem bound⟩
  cases first : (placesOf before).find? (fun other => decide (other.2.2.hash = hash)) with
  | none =>
      rw [List.find?_eq_none] at first
      exact first _ early (by simpa using same)
  | some winner =>
      rw [split, placesOf_append, List.find?_append, first] at found
      have own : winner = place := Option.some.inj found
      have held := (mem_placesOf.mp (List.mem_of_find?_eq_some first)).1
      rw [own] at held
      have sorted := ascending.sorted
      rw [split] at sorted
      have below := (List.pairwise_append.mp sorted).2.2 _ held _ List.mem_cons_self
      exact absurd below (lt_irrefl _)

end Chain

/-- Both endpoints report the same confirmations for a record of the chain, and
these are the number of blocks from its block to the tip exactly when no slot was
skipped after the record. -/
theorem confirmations_count_blocks_iff (env : Env) (store : PendingStore) (chain : List Block)
    (canonical : CanonicalChain env store.db chain) (short : chain.length ≤ walkGuard)
    (currentBlock : Int) (opened : Bool) (hash : Text) (nonempty : hash ≠ [])
    (listed : ∃ block ∈ chain, ∃ record ∈ block.records, record.hash = hash) :
    let location := (findExchangeRecord env currentBlock opened store hash).1
    ∃ (before : List Block) (block : Block) (after : List Block) (index : Nat) (record : Record),
      chain = before ++ block :: after ∧
        (∀ earlier ∈ before, ∀ other ∈ earlier.records, other.hash ≠ hash) ∧
        block.records[index]? = some record ∧ record.hash = hash ∧
        location.found = true ∧ location.pending = false ∧
        location.blockNumber = block.number ∧ location.record = some record ∧
        (location.confirmations = (block :: after).length ↔ NoSlotSkipped (block :: after)) ∧
        ∀ address : Text,
          (∀ deposit ∈ exchangeDeposits env store.db address, ∀ other,
            deposit.record = some other → other.hash = hash → deposit = location) ∧
          (address ≠ [] → isDeposit address (block, index, record) = true →
            ((acceptedPlaces chain).filter (isDeposit address)).length ≤ depositsLimit →
            location ∈ exchangeDeposits env store.db address) := by
  intro location
  have blocks := acceptedBlocks_of_canonical canonical short
  have length : hash.length ≠ 0 := fun zero => nonempty (List.length_eq_zero_iff.mp zero)
  have some' : ∃ place, (placesOf chain).find? (fun other => decide (other.2.2.hash = hash)) =
      some place := by
    obtain ⟨block, member, record, inside, same⟩ := listed
    obtain ⟨index, bound, value⟩ := List.mem_iff_getElem.mp inside
    apply Option.isSome_iff_exists.mp
    rw [List.find?_isSome]
    exact ⟨(block, index, record),
      mem_placesOf.mpr ⟨member, by rw [← value]; exact List.getElem?_eq_getElem bound⟩,
      decide_eq_true same⟩
  obtain ⟨place, found⟩ := some'
  have located : location = acceptedLocation (getLatestBlockId store.db) place := by
    unfold location findExchangeRecord
    rw [if_neg length, blocks, find_acceptedPlaces, found]
  obtain ⟨before, after, split, earlier, stands, own⟩ := first_place canonical.ascending found
  obtain ⟨tip, last⟩ : ∃ tip, (place.1 :: after).getLast? = some tip :=
    ⟨_, List.getLast?_eq_some_getLast (List.cons_ne_nil _ _)⟩
  have sorted := canonical.ascending.sorted
  rw [split] at sorted
  have slots := slots_of_ascending (List.pairwise_append.mp sorted).2.1 last
  have tipNumber : getLatestBlockId store.db = tip.number := by
    apply canonical.latest
    rw [split, List.getLast?_append, last]
    rfl
  refine ⟨before, place.1, after, place.2.1, place.2.2, split, earlier, stands, own, ?_⟩
  rw [located]
  refine ⟨rfl, rfl, rfl, rfl, ?_, fun address => ⟨?_, ?_⟩⟩
  · have reaches : place.1.number ≤ getLatestBlockId store.db := by
      rw [tipNumber]
      have atLeast := slots.1
      rw [List.length_cons] at atLeast
      omega
    change (if place.1.number ≤ getLatestBlockId store.db then
      getLatestBlockId store.db - place.1.number + 1 else 0) = _ ↔ _
    rw [if_pos reaches, tipNumber]
    exact slots.2
  · intro deposit reported other carried same
    by_cases unnamed : address = []
    · rw [exchangeDeposits, if_pos (List.length_eq_zero_iff.mpr unnamed)] at reported
      cases reported
    · rw [exchangeDeposits_eq env store.db unnamed, blocks] at reported
      obtain ⟨paid, chosen, rfl⟩ := List.mem_map.mp (List.mem_of_mem_drop reported)
      have record : paid.2.2 = other := Option.some.inj carried
      have first := find_of_mem_acceptedPlaces (List.mem_filter.mp chosen).1
        (by rw [record, same]; exact List.length_pos_iff.mpr nonempty)
      rw [record, same, found] at first
      rw [Option.some.inj first]
  · intro named pays few
    rw [exchangeDeposits_eq env store.db named, blocks]
    dsimp only
    rw [List.length_map, Nat.sub_eq_zero_of_le few, List.drop_zero]
    apply List.mem_map_of_mem
    refine List.mem_filter.mpr ⟨?_, pays⟩
    rw [← find_acceptedPlaces] at found
    exact List.mem_of_find?_eq_some found

end Safire.RequestHandler

namespace Safire.Sample

open ChainValidator LedgerState Mempool RequestHandler Text

/-- The genesis block, and a block two slots after it. -/
def outageStore : PendingStore :=
  ⟨canonicalStore env genesis [laterBlock], []⟩

theorem canonical_outageStore : CanonicalChain env outageStore.db [genesis, laterBlock] := by
  have accepted : Accepts env [genesis, laterBlock] := accepts_child 2 rfl
  have stored := storedAs (List.mem_iff_getElem?.mpr ⟨5, rfl⟩ : laterBlock ∈ blocks) accepted
    (by decide)
  unfold outageStore
  dsimp only
  exact stored.canonical (ascending_of_accepts accepted) (List.cons_ne_nil _ _)

/-- The reward in the genesis block has confirmations as the blocks are counted
only where no slot was skipped. -/
theorem issueRecord_confirmations_iff :
    ∃ before block after, [genesis, laterBlock] = before ++ block :: after ∧
      ((findExchangeRecord env 102 true outageStore issueRecordHash).1.confirmations =
        ((block :: after).length : Int) ↔ NoSlotSkipped (block :: after)) := by
  obtain ⟨before, block, after, -, -, split, -, -, -, -, -, -, -, counted, -⟩ :=
    confirmations_count_blocks_iff env outageStore [genesis, laterBlock] canonical_outageStore
      (by decide) 102 true issueRecordHash (by decide)
      ⟨genesis, List.mem_cons_self, issueRecord, by decide, rfl⟩
  exact ⟨before, block, after, split, counted⟩

/-- The genesis block has two blocks from it to the tip, and three confirmations. -/
theorem confirmations_after_outage :
    CanonicalChain env outageStore.db [genesis, laterBlock] ∧ issueRecord ∈ genesis.records ∧
      issueRecord.hash = issueRecordHash ∧
      (findExchangeRecord env 102 true outageStore issueRecordHash).1.confirmations = 3 := by
  refine ⟨canonical_outageStore, by decide, rfl, ?_⟩
  decide +kernel

end Safire.Sample
