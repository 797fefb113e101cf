/-
The pulls of the synchronisation.

A pull asks the peer for blocks and stores what is answered, along the hashes of the
peer's chain, from the tip of the own chain, or number by number, and then rebuilds
the index. What the peer answers is left open.
-/

import Safire.PeerSync

namespace Safire.LocalPeerClient

open Text Turns

def maxBlockNumberRepairScan : Nat := 500
def forkRepairLookbackSlots : Int := 3000

variable {ω : Type} (env : Env) (calls : Calls ω)

namespace Sync

def ask (url : Text) (sync : Sync ω) : Text × Sync ω :=
  let answer := calls.httpGet url sync.world
  (answer.1, { sync with world := answer.2 })

/-- `changed = storeBlock(block) || changed` -/
def store (block : Block) (sync : Sync ω) : Sync ω :=
  let stored := storeBlock env (calls.ambient sync.world.outside) sync.world.node block
  { sync with world := { sync.world with node := stored.2 }, changed := stored.1 || sync.changed }

/-- The batch behind a block, and the older request while the answer is empty. -/
def requestAfter (peer hash : Text) (requestLimit : Int) (sync : Sync ω) : Text × Sync ω :=
  let first := sync.ask calls
    (peer ++ "/api/blocks/batch-after-hash/".toList ++ hash ++ "/".toList ++ ofLong requestLimit)
  if first.1 = [] then first.2.ask calls (peer ++ "/api/blocks/after-hash/".toList ++ hash) else first

end Sync

def requestLimit (maxBlocksPerSync received : Int) : Int :=
  min maxBlocksPerSyncRequest (maxBlocksPerSync - received)

/-- `number <= 0 || hash.empty()` -/
def isUnusable (block : Block) : Bool :=
  decide (block.number ≤ 0) || decide (block.hash = [])

/-! ### Along the chain of the peer -/

/-- The variables of the loops. The number is the one from before the pull. -/
structure Download (ω : Type) extends Sync ω where
  peerBlock : Block

/-- `pullPeerCanonicalChain` assigns the variable before it looks at the block,
`pullPeerCanonicalChainFromBlock` after it. -/
inductive Assigns where
  | before
  | after
  deriving DecidableEq

/-- What the variable is after a block that ends the batch. -/
def Assigns.mark (assigns : Assigns) (block : Block) (download : Download ω) : Download ω :=
  match assigns with
  | .before => { download with peerBlock := block }
  | .after => download

/-- The loop over the blocks of an answer. -/
def storeBatch (assigns : Assigns) (maxBlocksPerSync : Int) :
    List Block → Download ω → Download ω
  | [], download => download
  | block :: rest, download =>
      if maxBlocksPerSync ≤ download.received then download
      else if isUnusable block = true then assigns.mark block download
      else
        storeBatch assigns maxBlocksPerSync rest
          { download.toSync.store env calls block with
            received := download.received + 1
            peerBlock := block }

/-- The condition of the loops. -/
def keepsPulling (peerLatestBlockId maxBlocksPerSync : Int) (download : Download ω) : Bool :=
  decide (0 < download.peerBlock.number) &&
    decide (download.peerBlock.number < peerLatestBlockId) &&
      decide (download.received < maxBlocksPerSync)

/-- What a turn does with an answer. The count of a batch is zero where nothing was
received. -/
def storePulled (assigns : Assigns) (maxBlocksPerSync : Int) (response : Text)
    (answered : Download ω) : Turn (Download ω) :=
  let blocks := parseBlockJson env response
  if response = [] ∨ blocks = [] then .leave answered
  else
    let stored := storeBatch env calls assigns maxBlocksPerSync blocks answered
    if stored.received = answered.received ∨
        assigns = .before ∧ isUnusable stored.peerBlock = true then .leave stored
    else .again stored

/-- The body of the loops. -/
def pullTurn (assigns : Assigns) (peer : Text) (maxBlocksPerSync : Int) (download : Download ω) :
    Turn (Download ω) :=
  let asked := download.toSync.requestAfter calls peer download.peerBlock.hash
    (requestLimit maxBlocksPerSync download.received)
  storePulled env calls assigns maxBlocksPerSync asked.1 { download with toSync := asked.2 }

/-- What is left of the budget. -/
def budget (maxBlocksPerSync : Int) (download : Download ω) : Nat :=
  (maxBlocksPerSync - download.received).toNat

def pullLoop (assigns : Assigns) (peer : Text) (peerLatestBlockId maxBlocksPerSync : Int)
    (start : Download ω) : Outcome (Download ω) :=
  loop (keepsPulling peerLatestBlockId maxBlocksPerSync)
    (pullTurn env calls assigns peer maxBlocksPerSync) (budget maxBlocksPerSync) start

/-- The variables before a pull. -/
def Sync.ofWorld (changed : Bool) (world : World ω) : Sync ω :=
  { world, changed, latestBlockId := getLatestBlockId world.node.db, received := 0 }

def Sync.toPull (pulled : Bool) (sync : Sync ω) : Pull ω :=
  { pulled, changed := sync.changed, world := sync.world }

/-- The first block of a chain is stored, and what follows it is pulled. -/
def pullFrom (assigns : Assigns) (peer : Text) (peerLatestBlockId maxBlocksPerSync : Int)
    (peerBlock : Block) (sync : Sync ω) : Outcome (Download ω) :=
  pullLoop env calls assigns peer peerLatestBlockId maxBlocksPerSync
    { sync.store env calls peerBlock with received := 1, peerBlock := peerBlock }

/-- A loop that is left returns whether more than the first block was received. -/
def pullPeerCanonicalChain (peer : Text) (peerLatestBlockId maxBlocksPerSync : Int) (changed : Bool)
    (world : World ω) : Pull ω :=
  let (response, asked) := (Sync.ofWorld changed world).ask calls (peer ++ "/api/blocks/first".toList)
  if response = [] then asked.toPull false
  else
    match parseBlockJson env response with
    | [] => asked.toPull false
    | peerBlock :: _ =>
        if isUnusable peerBlock = true then asked.toPull false
        else if env.config.genesisMatches peerBlock.number peerBlock.hash = false then
          asked.toPull false
        else
          let outcome := pullFrom env calls .before peer peerLatestBlockId maxBlocksPerSync peerBlock asked
          (outcome.state.toSync.repaired env calls).toPull
            (if outcome.broke = true then decide (1 < outcome.state.received)
             else decide (0 < outcome.state.received))

def pullPeerCanonicalChainFromBlock (peer : Text)
    (startBlockId peerLatestBlockId maxBlocksPerSync : Int) (changed : Bool) (world : World ω) :
    Pull ω :=
  if peerLatestBlockId < 0 ∨ startBlockId < 0 then ⟨false, changed, world⟩
  else
    let (response, asked) :=
      (Sync.ofWorld changed world).ask calls (peer ++ "/api/blocks/".toList ++ ofLong startBlockId)
    if response = [] then asked.toPull false
    else
      match parseBlockJson env response with
      | [] => asked.toPull false
      | peerBlock :: _ =>
          if isUnusable peerBlock = true then asked.toPull false
          else
            let outcome := pullFrom env calls .after peer peerLatestBlockId maxBlocksPerSync peerBlock asked
            (outcome.state.toSync.repaired env calls).toPull (decide (0 < outcome.state.received))

/-! ### From the own tip -/

/-- The variables of the loop. The number is the one that the turn began with. -/
structure Linked (ω : Type) extends Sync ω where
  progressed : Bool

/-- What a turn does with an answer. -/
def storeLinked (response : Text) (linked : Linked ω) : Turn (Linked ω) :=
  let blocks := parseBlockJson env response
  if response = [] ∨ blocks = [] then .leave linked
  else
    let (storedCount, stored) := storeParsedBlocks env calls blocks linked.toSync
    let read := { stored with received := stored.received + max 1 (blocks.length : Int) }.refreshed
    let latest := if read.latestBlockId ≤ linked.latestBlockId then read.repaired env calls else read
    if linked.latestBlockId < latest.latestBlockId then .again { latest with progressed := true }
    else if storedCount ≤ 0 then .leave { linked with toSync := latest }
    else .again { linked with toSync := latest }

def linkedTurn (peer : Text) (peerLatestBlockId maxBlocksPerSync : Int) (linked : Linked ω) :
    Turn (Linked ω) :=
  let before := linked.toSync.refreshed
  if -1 < peerLatestBlockId ∧ peerLatestBlockId ≤ before.latestBlockId then .leave linked
  else
    let latestBlock := getBlock env before.world.node.db before.latestBlockId
    if isUnusable latestBlock = true then .leave linked
    else
      let asked := before.requestAfter calls peer latestBlock.hash
        (requestLimit maxBlocksPerSync before.received)
      storeLinked env calls asked.1 { linked with toSync := asked.2 }

def linkedBudget (maxBlocksPerSync : Int) (linked : Linked ω) : Nat :=
  (maxBlocksPerSync - linked.received).toNat

def linkedLoop (peer : Text) (peerLatestBlockId maxBlocksPerSync : Int) (start : Linked ω) :
    Outcome (Linked ω) :=
  loop (fun linked => decide (linked.received < maxBlocksPerSync))
    (linkedTurn env calls peer peerLatestBlockId maxBlocksPerSync) (linkedBudget maxBlocksPerSync) start

def pullPeerHashLinkedFromTip (peer : Text) (peerLatestBlockId maxBlocksPerSync : Int)
    (changed : Bool) (world : World ω) : Pull ω :=
  let outcome := linkedLoop env calls peer peerLatestBlockId maxBlocksPerSync
    { Sync.ofWorld changed world with progressed := false }
  outcome.state.toSync.toPull outcome.state.progressed

/-! ### Number by number -/

/-- Every block of an answer counts, stored or not. -/
def storeNumbered (sync : Sync ω) (block : Block) : Sync ω :=
  if 0 < block.number then
    { sync.store env calls block with received := sync.received + 1 }
  else sync

/-- The loop over the numbers, with the scans that are left. -/
def scanRange (peer : Text) (peerLatestBlockId maxBlocksPerSync : Int) :
    Nat → Int → Sync ω → Sync ω
  | 0, _, sync => sync
  | scans + 1, blockId, sync =>
      if blockId ≤ peerLatestBlockId ∧ sync.received < maxBlocksPerSync then
        let (response, asked) := sync.ask calls (peer ++ "/api/blocks/".toList ++ ofLong blockId)
        let stored :=
          if response = [] then asked
          else (parseBlockJson env response).foldl (storeNumbered env calls) asked
        scanRange peer peerLatestBlockId maxBlocksPerSync scans (blockId + 1) stored
      else sync

def pullPeerBlocksByNumberRange (peer : Text) (startBlockId peerLatestBlockId maxBlocksPerSync : Int)
    (changed : Bool) (world : World ω) : Pull ω :=
  if peerLatestBlockId < 0 then ⟨false, changed, world⟩
  else
    let scanned := scanRange env calls peer peerLatestBlockId maxBlocksPerSync
      maxBlockNumberRepairScan (max 0 startBlockId) (.ofWorld changed world)
    (scanned.repaired env calls).toPull (decide (0 < scanned.received))

/-! ### Around the tip -/

/-- The slots behind the own tip, from the peer's chain or else number by number. -/
def pullWindow (peer : Text) (firstBlockId localLatestBlockId peerLatestBlockId maxBlocksPerSync : Int)
    (changed : Bool) (world : World ω) : Pull ω :=
  let startBlockId := max firstBlockId (localLatestBlockId - forkRepairLookbackSlots)
  let pull := pullPeerCanonicalChainFromBlock env calls peer startBlockId peerLatestBlockId
    maxBlocksPerSync changed world
  if pull.pulled = true then pull
  else
    pullPeerBlocksByNumberRange env calls peer startBlockId peerLatestBlockId maxBlocksPerSync
      pull.changed pull.world

def pullPeerForkRepairWindow (peer : Text)
    (firstBlockId localLatestBlockId peerLatestBlockId maxBlocksPerSync : Int) (changed : Bool)
    (world : World ω) : Pull ω :=
  if peerLatestBlockId < 0 ∨ firstBlockId < 0 then ⟨false, changed, world⟩
  else
    let localTip := getBlock env world.node.db localLatestBlockId
    if 0 < localTip.number ∧ firstBlockId ≤ localTip.previousBlockId ∧
        localTip.previousBlockId < localTip.number then
      let parent := pullPeerCanonicalChainFromBlock env calls peer localTip.previousBlockId
        peerLatestBlockId maxBlocksPerSync changed world
      if parent.pulled = true ∧ getLatestBlockId world.node.db < getLatestBlockId parent.world.node.db then
        parent
      else
        pullWindow env calls peer firstBlockId localLatestBlockId peerLatestBlockId maxBlocksPerSync
          parent.changed parent.world
    else
      pullWindow env calls peer firstBlockId localLatestBlockId peerLatestBlockId maxBlocksPerSync
        changed world

/-- The calls of a node whose pulls are those above. -/
def withPulls : Calls ω :=
  { calls with
    pullPeerHashLinkedFromTip := pullPeerHashLinkedFromTip env calls
    pullPeerForkRepairWindow := pullPeerForkRepairWindow env calls
    pullPeerCanonicalChain := pullPeerCanonicalChain env calls }

end Safire.LocalPeerClient
