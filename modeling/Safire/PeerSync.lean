/-
`CLocalPeerClient::syncFromPeer`.

What the peer answers, what the pull helpers do to the node and what happens
outside are functions that the model leaves open; the store is read and rewritten
by the modelled calls. The table of peers and the backoff are only written on the
way, outside the node.
-/

import Safire.Convergence
import Safire.Library.Turns
import Safire.PeerAdoption

namespace Safire

namespace LocalPeerClient

open Text Turns ChainValidator

def maxBlocksPerSyncBatch : Int := 5000
def maxBlocksPerSyncRequest : Int := 250
def protocolVersion : Int := 1
def consensusRulesVersion : Int := 2

/-! ### The address of a peer -/

def trimTrailingSlash (value : Text) : Text :=
  value.rdropWhile (· = '/')

def looksLikePeerUrl (value : Text) : Bool :=
  startsWith value "http://".toList || startsWith value "https://".toList

def normalizePeerUrl (peerUrl : Text) : Text :=
  let peer := trimTrailingSlash (trim peerUrl)
  if looksLikePeerUrl peer = false then [] else peer

/-! ### The status message -/

/-- A numeric field, with the value for a message that does not name it. -/
def statusLong (statusJson : Text) (name : String) (missing : Int) : Int :=
  match find statusJson ("\"".toList ++ name.toList ++ "\":\"".toList) 0 with
  | none => missing
  | some _ => parseSectionLong statusJson name

def latestBlockFromStatus (statusJson : Text) : Int :=
  statusLong statusJson "latest_block_id" (-1)

def firstBlockFromStatus (statusJson : Text) : Int :=
  statusLong statusJson "first_block_id" (-1)

/-- The section of a message without the name is empty too. -/
def firstBlockHashFromStatus (statusJson : Text) : Text :=
  quotedSection statusJson "first_block_hash"

def latestBlockHashFromStatus (statusJson : Text) : Text :=
  quotedSection statusJson "latest_block_hash"

/-- The `int` takes the low half of the parsed `long`. -/
def protocolVersionFromStatus (statusJson : Text) : Int :=
  Int.bmod (statusLong statusJson "protocol_version" 0) (2 ^ 32)

def consensusRulesVersionFromStatus (statusJson : Text) : Int :=
  Int.bmod (statusLong statusJson "consensus_rules_version" 0) (2 ^ 32)

/-- The fields of `statusFromPeer` that the synchronisation reads. -/
structure CheckedStatus extends PeerStatus where
  rulesCompatible : Bool

def checkedStatus (peerStatus : Text) : CheckedStatus :=
  if peerStatus = [] then ⟨⟨-1, []⟩, false⟩
  else
    ⟨⟨latestBlockFromStatus peerStatus, latestBlockHashFromStatus peerStatus⟩,
      decide (protocolVersionFromStatus peerStatus = protocolVersion) &&
        decide (consensusRulesVersionFromStatus peerStatus = consensusRulesVersion)⟩

/-! ### What the synchronisation calls -/

/-- The node and everything outside it. -/
structure World (ω : Type) where
  node : Node
  outside : ω

/-- The result of a pull helper with its reference parameter `changed`. -/
structure Pull (ω : Type) where
  pulled : Bool
  changed : Bool
  world : World ω

/-- Requests and pulls may change the node in any way. -/
structure Calls (ω : Type) where
  running : ω → Bool
  syncLocked : ω → Bool
  peerSyncBackoffActive : ω → Bool
  now : ω → Int
  ambient : ω → Ambient
  httpGet : Text → World ω → Text × World ω
  pullPeerHashLinkedFromTip : Text → Int → Int → Bool → World ω → Pull ω
  pullPeerForkRepairWindow : Text → Int → Int → Int → Int → Bool → World ω → Pull ω
  pullPeerCanonicalChain : Text → Int → Int → Bool → World ω → Pull ω
  notePeerSyncProgress : ω → ω
  notePeerSyncStall : ω → ω
  mergePeerStatus : Text → Text → ω → ω
  setLastError : Text → String → ω → ω

/-- The variables that the loop writes. -/
structure Sync (ω : Type) where
  world : World ω
  changed : Bool
  latestBlockId : Int
  received : Int

/-- The variables that the loop only reads. -/
structure Plan where
  peer : Text
  firstBlockId : Int
  peerLatestBlockId : Int
  status : PeerStatus

variable {ω : Type} (env : Env) (calls : Calls ω) (plan : Plan)

def World.noteProgress (world : World ω) : World ω :=
  { world with outside := calls.notePeerSyncProgress world.outside }

def World.noteStall (world : World ω) : World ω :=
  { world with outside := calls.notePeerSyncStall world.outside }

namespace Sync

def noteProgress (sync : Sync ω) : Sync ω :=
  { sync with world := sync.world.noteProgress calls }

def noteStall (sync : Sync ω) : Sync ω :=
  { sync with world := sync.world.noteStall calls }

/-- `latestBlockId = blockDB.getLatestBlockId()` -/
def refreshed (sync : Sync ω) : Sync ω :=
  { sync with latestBlockId := getLatestBlockId sync.world.node.db }

/-- The rebuilt index only raises the variable. -/
def repaired (sync : Sync ω) : Sync ω :=
  let rebuilt := rebuildBestChainIndex env (calls.now sync.world.outside) sync.world.node.db
  let world := { sync.world with node := { sync.world.node with db := rebuilt.2 } }
  if sync.latestBlockId < rebuilt.1 then
    { sync with world := world, changed := true, latestBlockId := rebuilt.1 }
  else { sync with world := world }

def adopted (status : PeerStatus) (sync : Sync ω) : Sync ω :=
  let adoption := adoptStoredPeerTip env (calls.now sync.world.outside) sync.world.node.db status
    sync.changed
  { sync with
    world := { sync.world with node := { sync.world.node with db := adoption.db } }
    changed := adoption.changed }

def take (sync : Sync ω) (pull : Pull ω) : Sync ω :=
  { sync with world := pull.world, changed := pull.changed }

/-- The variable is read again only after a pull that says so. -/
def hashLinked (sync : Sync ω) : Sync ω :=
  let pull := calls.pullPeerHashLinkedFromTip plan.peer plan.peerLatestBlockId
    (maxBlocksPerSyncBatch - sync.received) sync.changed sync.world
  if pull.pulled = true then (sync.take pull).refreshed else sync.take pull

def forkRepaired (beforeLatestBlockId : Int) (sync : Sync ω) : Bool × Sync ω :=
  let pull := calls.pullPeerForkRepairWindow plan.peer plan.firstBlockId beforeLatestBlockId
    plan.peerLatestBlockId (maxBlocksPerSyncBatch - sync.received) sync.changed sync.world
  (pull.pulled, (sync.take pull).refreshed)

def canonicalPulled (maxBlocksPerSync : Int) (sync : Sync ω) : Sync ω :=
  sync.take (calls.pullPeerCanonicalChain plan.peer plan.peerLatestBlockId maxBlocksPerSync
    sync.changed sync.world)

end Sync

/-- One block of `storeParsedBlocks`, with the count of the stored ones. -/
def storeParsedBlock (progress : Int × Sync ω) (block : Block) : Int × Sync ω :=
  if block.number ≤ 0 ∨ block.hash = [] then progress
  else
    let sync := progress.2
    let stored := storeBlock env (calls.ambient sync.world.outside) sync.world.node block
    (if stored.1 = true then progress.1 + 1 else progress.1,
      { sync with
        world := { sync.world with node := stored.2 }
        changed := stored.1 || sync.changed })

def storeParsedBlocks (blocks : List Block) (sync : Sync ω) : Int × Sync ω :=
  blocks.foldl (storeParsedBlock env calls) (0, sync)

/-! ### The loop -/

/-- The attempts that a turn without a stored block starts with. -/
def repairFromTip (sync : Sync ω) (beforeLatestBlockId : Int) (otherwise : Sync ω → Turn (Sync ω)) :
    Turn (Sync ω) :=
  let read := sync.refreshed
  if beforeLatestBlockId < read.latestBlockId then .again read
  else
    let rebuilt := read.repaired env calls
    if beforeLatestBlockId < rebuilt.latestBlockId then .again rebuilt
    else
      let linked := rebuilt.hashLinked calls plan
      if beforeLatestBlockId < linked.latestBlockId then .again linked else otherwise linked

/-- After the attempts, for an empty response. The canonical chain is pulled with
the whole budget and the variable is not read between the pull and the adoption. -/
def afterEmptyResponse (beforeLatestBlockId : Int) (linked : Sync ω) : Turn (Sync ω) :=
  let (pulled, window) := linked.forkRepaired calls plan beforeLatestBlockId
  let chain :=
    if pulled = false ∨ window.latestBlockId ≤ beforeLatestBlockId then
      window.canonicalPulled calls plan maxBlocksPerSyncBatch
    else window
  let tip :=
    if chain.latestBlockId ≤ beforeLatestBlockId then chain.adopted env calls plan.status
    else chain
  if beforeLatestBlockId < tip.refreshed.latestBlockId then .again (tip.refreshed.noteProgress calls)
  else .leave tip.refreshed

/-- After the attempts, for a response without a new block. -/
def afterNoBlocks (beforeLatestBlockId : Int) (linked : Sync ω) : Turn (Sync ω) :=
  let (pulled, window) := linked.forkRepaired calls plan beforeLatestBlockId
  let tip :=
    if pulled = false ∨ window.latestBlockId ≤ beforeLatestBlockId then
      (window.adopted env calls plan.status).refreshed
    else window
  if pulled = false ∨ tip.latestBlockId ≤ beforeLatestBlockId then .leave tip
  else .again (tip.noteProgress calls)

/-- The end of a turn that stored blocks. -/
def countBlocks (sawBlocks beforeLatestBlockId : Int) (sync : Sync ω) : Sync ω :=
  let counted := { sync with received := sync.received + sawBlocks }
  if beforeLatestBlockId < counted.latestBlockId then counted.noteProgress calls else counted

def afterBlocks (sawBlocks beforeLatestBlockId : Int) (sync : Sync ω) : Turn (Sync ω) :=
  let read := sync.refreshed
  let rebuilt :=
    if read.latestBlockId ≤ beforeLatestBlockId then read.repaired env calls else read
  let linked :=
    if rebuilt.latestBlockId ≤ beforeLatestBlockId then rebuilt.hashLinked calls plan else rebuilt
  if linked.latestBlockId ≤ beforeLatestBlockId then
    let (pulled, window) := linked.forkRepaired calls plan beforeLatestBlockId
    let chain :=
      if pulled = false ∨ window.latestBlockId ≤ beforeLatestBlockId then
        (window.canonicalPulled calls plan (maxBlocksPerSyncBatch - window.received)).refreshed
      else window
    let tip :=
      if chain.latestBlockId ≤ beforeLatestBlockId then
        (chain.adopted env calls plan.status).refreshed
      else chain
    if tip.latestBlockId ≤ beforeLatestBlockId then .leave (tip.noteStall calls)
    else .again (countBlocks calls sawBlocks beforeLatestBlockId tip)
  else .again (countBlocks calls sawBlocks beforeLatestBlockId linked)

def getIntoSync (path : Text) (sync : Sync ω) : Text × Sync ω :=
  let answer := calls.httpGet (plan.peer ++ path) sync.world
  (answer.1, { sync with world := answer.2 })

/-- The requests of a turn: the batch after the hash of the latest block, then the
two older forms while the answer is empty. -/
def requestBlocks (latestBlock : Block) (sync : Sync ω) : Text × Sync ω :=
  let requestLimit := min maxBlocksPerSyncRequest (maxBlocksPerSyncBatch - sync.received)
  let afterNumber := "/api/blocks/after/".toList ++ ofLong sync.latestBlockId
  let retry (path : Text) (answer : Text × Sync ω) : Text × Sync ω :=
    if answer.1 = [] ∧ 0 < latestBlock.hash.length then getIntoSync calls plan path answer.2
    else answer
  let first :=
    if 0 < latestBlock.hash.length then
      "/api/blocks/batch-after-hash/".toList ++ latestBlock.hash ++ "/".toList ++ ofLong requestLimit
    else afterNumber
  retry afterNumber (retry ("/api/blocks/after-hash/".toList ++ latestBlock.hash)
    (getIntoSync calls plan first sync))

/-- The body of the loop. -/
def syncTurn (sync : Sync ω) : Turn (Sync ω) :=
  if calls.running sync.world.outside = false then .leave sync
  else if -1 < plan.peerLatestBlockId ∧ plan.peerLatestBlockId ≤ sync.latestBlockId then .leave sync
  else
    let latestBlock := getBlock env sync.world.node.db sync.latestBlockId
    let (response, answered) := requestBlocks calls plan latestBlock sync
    if response = [] then
      repairFromTip env calls plan answered sync.latestBlockId
        (afterEmptyResponse env calls plan sync.latestBlockId)
    else
      let (sawBlocks, stored) := storeParsedBlocks env calls (parseBlockJson env response) answered
      if sawBlocks ≤ 0 then
        repairFromTip env calls plan stored sync.latestBlockId
          (afterNoBlocks env calls plan sync.latestBlockId)
      else afterBlocks env calls plan sawBlocks sync.latestBlockId stored

/-- The condition of the loop. -/
def keepsSyncing (sync : Sync ω) : Bool :=
  decide (-1 < sync.latestBlockId) && decide (sync.received < maxBlocksPerSyncBatch)

def syncLoop (fuel : Nat) (start : Sync ω) : Option (Outcome (Sync ω)) :=
  run keepsSyncing (syncTurn env calls plan) fuel start

/-! ### The call -/

/-- Where the code before the loop ends: at a return, or with the variables of the
loop. -/
inductive Entry (ω : Type) where
  | returned (changed : Bool) (world : World ω)
  | entered (plan : Plan) (start : Sync ω)

def rejectPeer (peer : Text) (reason : String) (world : World ω) : Entry ω :=
  .returned false
    (World.noteStall calls { world with outside := calls.setLastError peer reason world.outside })

/-- The peer reports no more than the node has. A different tip is pulled and
adopted before the return. -/
def returnAtTip (peerLatestBlockHash : Text) (sync : Sync ω) : Entry ω :=
  let latestBlock := getBlock env sync.world.node.db sync.latestBlockId
  if 0 < peerLatestBlockHash.length ∧ latestBlock.hash ≠ peerLatestBlockHash then
    let beforeRepairLatestBlockId := getLatestBlockId sync.world.node.db
    let (pulled, window) := sync.forkRepaired calls plan sync.latestBlockId
    let chain :=
      if pulled = false ∨ window.latestBlockId ≤ beforeRepairLatestBlockId then
        window.canonicalPulled calls plan maxBlocksPerSyncBatch
      else window
    let tip := chain.adopted env calls plan.status
    .returned tip.changed
      (if tip.changed = true then tip.world.noteProgress calls else tip.world.noteStall calls)
  else .returned false (sync.world.noteProgress calls)

/-- The first block of an empty node comes from the peer. -/
def storeFirstBlock (sync : Sync ω) : Plan × Sync ω :=
  if plan.firstBlockId = -1 then
    let (response, answered) := getIntoSync calls plan "/api/blocks/first".toList sync
    let stored := (parseBlockJson env response).foldl
      (fun sync block =>
        let stored := storeBlock env (calls.ambient sync.world.outside) sync.world.node block
        { sync with
          world := { sync.world with node := stored.2 }
          changed := stored.1 || sync.changed }) answered
    ({ plan with firstBlockId := getFirstBlockId stored.world.node.db }, stored.refreshed)
  else (plan, sync)

/-- The stored tip of the peer is adopted, or else the index is rebuilt. -/
def adoptOrRepair (sync : Sync ω) : Sync ω :=
  if (adoptStoredPeerTip env (calls.now sync.world.outside) sync.world.node.db plan.status
      sync.changed).adopted = true then
    (sync.adopted env calls plan.status).refreshed
  else (sync.adopted env calls plan.status).repaired env calls

/-- From the accepted status on. -/
def enterLoop (peerLatestBlockHash : Text) (sync : Sync ω) : Entry ω :=
  let adopted := adoptOrRepair env calls plan sync
  if -1 < plan.peerLatestBlockId ∧ plan.peerLatestBlockId ≤ adopted.latestBlockId then
    returnAtTip env calls plan peerLatestBlockHash adopted
  else
    let (plan, start) := storeFirstBlock env calls plan adopted
    .entered plan start

/-- The genesis block of the node, pulled once more where the number names none. -/
def checkLocalGenesis (peerLatestBlockHash : Text) (sync : Sync ω) : Entry ω :=
  if plan.firstBlockId ≤ 0 then enterLoop env calls plan peerLatestBlockHash sync
  else
    let firstBlock := getBlock env sync.world.node.db plan.firstBlockId
    let (plan, pulled) :=
      if firstBlock.number ≤ 0 ∨ firstBlock.hash.length = 0 then
        let pulled := (sync.canonicalPulled calls plan maxBlocksPerSyncBatch).refreshed
        ({ plan with firstBlockId := getFirstBlockId pulled.world.node.db }, pulled)
      else (plan, sync)
    let firstBlock := getBlock env pulled.world.node.db plan.firstBlockId
    if env.config.genesisMatches plan.firstBlockId firstBlock.hash = false then
      rejectPeer calls plan.peer "local genesis mismatch" pulled.world
    else enterLoop env calls plan peerLatestBlockHash pulled

/-- The status message is requested twice: its numbers steer the call, and the
second answer gives the tip that is adopted. -/
def checkPeer (peer : Text) (firstBlockId latestBlockId : Int) (world : World ω) : Entry ω :=
  let (peerStatus, asked) := calls.httpGet (peer ++ "/api/status".toList) world
  let (again, askedAgain) := calls.httpGet (peer ++ "/api/status".toList) asked
  let status := checkedStatus again
  let merged := { askedAgain with outside := calls.mergePeerStatus peer again askedAgain.outside }
  let plan : Plan := ⟨peer, firstBlockId, latestBlockFromStatus peerStatus, status.toPeerStatus⟩
  if status.rulesCompatible = false then
    rejectPeer calls peer "consensus rules mismatch" merged
  else if plan.peerLatestBlockId < 0 then rejectPeer calls peer "missing latest block" merged
  else if env.config.genesisMatches (firstBlockFromStatus peerStatus)
      (firstBlockHashFromStatus peerStatus) = false then
    rejectPeer calls peer "genesis mismatch" merged
  else
    checkLocalGenesis env calls plan (latestBlockHashFromStatus peerStatus)
      ⟨merged, false, latestBlockId, 0⟩

def beforeLoop (peerUrl : Text) (world : World ω) : Entry ω :=
  let peer := normalizePeerUrl peerUrl
  if calls.syncLocked world.outside = true ∨ calls.peerSyncBackoffActive world.outside = true ∨
      calls.running world.outside = false ∨ peer = [] then .returned false world
  else
    let firstBlockId := getFirstBlockId world.node.db
    let latestBlockId := getLatestBlockId world.node.db
    if firstBlockId < 0 ∧ 0 ≤ latestBlockId then
      checkPeer env calls peer (-1) (-1) { world with node := { world.node with db := ∅ } }
    else checkPeer env calls peer firstBlockId latestBlockId world

/-- The end of the call, after the loop. -/
def finishSync (sync : Sync ω) : Bool × World ω :=
  let tip := sync.adopted env calls plan.status
  if tip.changed = true then (true, tip.world.noteProgress calls)
  else if -1 < plan.peerLatestBlockId ∧
      getLatestBlockId tip.world.node.db < plan.peerLatestBlockId then
    (false, tip.world.noteStall calls)
  else (false, tip.world)

/-- The result of a call whose loop gets the fuel. -/
def syncFromPeer (fuel : Nat) (peerUrl : Text) (world : World ω) : Option (Bool × World ω) :=
  match beforeLoop env calls peerUrl world with
  | .returned changed after => some (changed, after)
  | .entered plan start =>
      (syncLoop env calls plan fuel start).map
        (fun outcome => finishSync env calls plan outcome.state)

/-! ### A turn that goes round again -/

variable {env calls plan}

/-- An answer to the first request is taken as it is. -/
theorem requestBlocks_answered {latestBlock : Block} {sync answered : Sync ω} {answer : Text}
    (hashed : 0 < latestBlock.hash.length)
    (first : getIntoSync calls plan ("/api/blocks/batch-after-hash/".toList ++ latestBlock.hash ++
      "/".toList ++ ofLong (min maxBlocksPerSyncRequest (maxBlocksPerSyncBatch - sync.received)))
      sync = (answer, answered)) (present : answer ≠ []) :
    requestBlocks calls plan latestBlock sync = (answer, answered) := by
  unfold requestBlocks
  dsimp only
  rw [if_pos hashed, first]
  simp only [present, false_and, if_false]

@[simp] theorem latestBlockId_countBlocks (sawBlocks beforeLatestBlockId : Int) (sync : Sync ω) :
    (countBlocks calls sawBlocks beforeLatestBlockId sync).latestBlockId = sync.latestBlockId := by
  unfold countBlocks
  dsimp only
  split <;> rfl

/-- Stored blocks that raised the number end the turn. -/
theorem afterBlocks_raised {sawBlocks before : Int} {sync : Sync ω}
    (above : before < sync.refreshed.latestBlockId) :
    afterBlocks env calls plan sawBlocks before sync =
      .again (countBlocks calls sawBlocks before sync.refreshed) := by
  unfold afterBlocks
  dsimp only
  rw [if_neg (not_le.mpr above), if_neg (not_le.mpr above), if_neg (not_le.mpr above)]

/-- A turn goes round again only with a number above the one it began with. -/
def Raises (beforeLatestBlockId : Int) (turn : Turn (Sync ω)) : Prop :=
  ∀ next, turn = .again next → beforeLatestBlockId < next.latestBlockId

variable {before : Int}

theorem raises_leave (sync : Sync ω) : Raises before (.leave sync) := by
  intro next again
  cases again

theorem raises_again {sync : Sync ω} (above : before < sync.latestBlockId) :
    Raises before (.again sync) := by
  intro next again
  cases again
  exact above

theorem raises_ite {condition : Prop} [Decidable condition] {first second : Turn (Sync ω)}
    (holds : condition → Raises before first) (fails : ¬ condition → Raises before second) :
    Raises before (if condition then first else second) := by
  by_cases checked : condition
  · rw [if_pos checked]
    exact holds checked
  · rw [if_neg checked]
    exact fails checked

theorem raises_repairFromTip {sync : Sync ω} {otherwise : Sync ω → Turn (Sync ω)}
    (raises : ∀ linked, Raises before (otherwise linked)) :
    Raises before (repairFromTip env calls plan sync before otherwise) := by
  unfold repairFromTip
  apply raises_ite raises_again
  intro _
  apply raises_ite raises_again
  intro _
  exact raises_ite raises_again fun _ => raises _

theorem raises_afterEmptyResponse (linked : Sync ω) :
    Raises before (afterEmptyResponse env calls plan before linked) := by
  unfold afterEmptyResponse
  apply raises_ite
  · intro above
    exact raises_again above
  · intro _
    exact raises_leave _

theorem raises_afterNoBlocks (linked : Sync ω) :
    Raises before (afterNoBlocks env calls plan before linked) := by
  unfold afterNoBlocks
  apply raises_ite
  · intro _
    exact raises_leave _
  · intro unstuck
    exact raises_again (not_le.mp (not_or.mp unstuck).2)

theorem raises_countBlocks {sawBlocks : Int} {sync : Sync ω} (above : ¬ sync.latestBlockId ≤ before) :
    Raises before (.again (countBlocks calls sawBlocks before sync)) := by
  apply raises_again
  rw [latestBlockId_countBlocks]
  exact not_le.mp above

theorem raises_afterBlocks (sawBlocks : Int) (sync : Sync ω) :
    Raises before (afterBlocks env calls plan sawBlocks before sync) := by
  unfold afterBlocks
  apply raises_ite
  · intro _
    apply raises_ite
    · intro _
      exact raises_leave _
    · exact raises_countBlocks
  · exact raises_countBlocks

theorem raises_syncTurn (sync : Sync ω) :
    Raises sync.latestBlockId (syncTurn env calls plan sync) := by
  unfold syncTurn
  apply raises_ite fun _ => raises_leave _
  intro _
  apply raises_ite fun _ => raises_leave _
  intro _
  apply raises_ite
  · intro _
    exact raises_repairFromTip raises_afterEmptyResponse
  · intro _
    apply raises_ite
    · intro _
      exact raises_repairFromTip raises_afterNoBlocks
    · intro _
      exact raises_afterBlocks _ _

/-- Where the peer has no more than the node, the turn leaves. -/
theorem below_of_syncTurn {sync next : Sync ω} (reported : -1 < plan.peerLatestBlockId)
    (again : syncTurn env calls plan sync = .again next) :
    sync.latestBlockId < plan.peerLatestBlockId := by
  by_contra above
  unfold syncTurn at again
  dsimp only at again
  rw [if_pos (show -1 < plan.peerLatestBlockId ∧ plan.peerLatestBlockId ≤ sync.latestBlockId from
    ⟨reported, not_lt.mp above⟩)] at again
  split at again
  · cases again
  · cases again

/-! ### The loop ends -/

/-- How far the node is behind the peer. -/
def behind (plan : Plan) (sync : Sync ω) : Nat :=
  (plan.peerLatestBlockId - sync.latestBlockId).toNat

theorem behind_lt {sync next : Sync ω} (reported : -1 < plan.peerLatestBlockId)
    (again : syncTurn env calls plan sync = .again next) : behind plan next < behind plan sync := by
  have raised := raises_syncTurn sync next again
  have below := below_of_syncTurn reported again
  unfold behind
  omega

/-- The loop is entered with a number that the peer reported. -/
theorem reported_of_enterLoop {hash : Text} {sync start : Sync ω} {entry : Plan}
    (reported : -1 < plan.peerLatestBlockId)
    (entered : enterLoop env calls plan hash sync = .entered entry start) :
    -1 < entry.peerLatestBlockId := by
  unfold enterLoop returnAtTip storeFirstBlock at entered
  dsimp only at entered
  split at entered
  · split at entered
    · cases entered
    · cases entered
  · split at entered
    · cases entered
      exact reported
    · cases entered
      exact reported

theorem reported_of_checkLocalGenesis {hash : Text} {sync start : Sync ω} {entry : Plan}
    (reported : -1 < plan.peerLatestBlockId)
    (entered : checkLocalGenesis env calls plan hash sync = .entered entry start) :
    -1 < entry.peerLatestBlockId := by
  unfold checkLocalGenesis rejectPeer at entered
  dsimp only at entered
  split at entered
  · exact reported_of_enterLoop reported entered
  · split at entered
    · split at entered
      · cases entered
      · apply reported_of_enterLoop _ entered
        exact reported
    · split at entered
      · cases entered
      · exact reported_of_enterLoop reported entered

theorem reported_of_beforeLoop {peerUrl : Text} {world : World ω} {start : Sync ω} {entry : Plan}
    (entered : beforeLoop env calls peerUrl world = .entered entry start) :
    -1 < entry.peerLatestBlockId := by
  have checked : ∀ {peer : Text} {first latest : Int} {asked : World ω},
      checkPeer env calls peer first latest asked = .entered entry start →
        -1 < entry.peerLatestBlockId := by
    intro peer first latest asked passed
    unfold checkPeer rejectPeer at passed
    dsimp only at passed
    split at passed
    · cases passed
    · split at passed
      · cases passed
      · rename_i named
        split at passed
        · cases passed
        · exact reported_of_checkLocalGenesis (by dsimp only; omega) passed
  unfold beforeLoop at entered
  dsimp only at entered
  split at entered
  · cases entered
  · split at entered
    · exact checked entered
    · exact checked entered

/-- Fuel above the distance is enough for the loop, which goes round again at most
as often as the distance says. -/
theorem loop_ends (reported : -1 < plan.peerLatestBlockId) (start : Sync ω) :
    ∃ outcome, (∀ fuel, behind plan start < fuel →
        syncLoop env calls plan fuel start = some outcome) ∧
      outcome.repeated ≤ behind plan start := by
  have falls (sync next : Sync ω) (again : syncTurn env calls plan sync = .again next) :
      behind plan next < behind plan sync := behind_lt reported again
  obtain ⟨outcome, ended, bounded⟩ := run_of_rank (behind plan) falls (Nat.lt_succ_self _)
  refine ⟨outcome, ?_, bounded⟩
  intro fuel enough
  exact run_mono enough ended

/-- Whatever the peer sends, the call returns. -/
theorem syncFromPeer_returns (env : Env) (calls : Calls ω) (peerUrl : Text) (world : World ω) :
    ∃ result least, ∀ fuel, least ≤ fuel →
      syncFromPeer env calls fuel peerUrl world = some result := by
  cases entry : beforeLoop env calls peerUrl world with
  | returned changed after =>
      refine ⟨(changed, after), 0, ?_⟩
      intro fuel _
      rw [syncFromPeer, entry]
  | entered plan start =>
      obtain ⟨outcome, ended, -⟩ :=
        @loop_ends ω env calls plan (reported_of_beforeLoop entry) start
      refine ⟨finishSync env calls plan outcome.state, behind plan start + 1, ?_⟩
      intro fuel enough
      rw [syncFromPeer, entry]
      dsimp only
      rw [ended fuel enough, Option.map_some]

/-- Whatever the peer sends, a turn that goes round again has raised the number
below the one that the peer reported, and the loop goes round again at most as
often as the distance says. One more turn may follow that only leaves. -/
theorem sync_loop_ends {peerUrl : Text} {world : World ω} {start : Sync ω}
    (entered : beforeLoop env calls peerUrl world = .entered plan start) :
    (∀ sync next, syncTurn env calls plan sync = .again next →
        sync.latestBlockId < next.latestBlockId ∧ sync.latestBlockId < plan.peerLatestBlockId) ∧
      ∃ outcome, (∀ fuel, behind plan start < fuel →
          syncLoop env calls plan fuel start = some outcome) ∧
        outcome.repeated ≤ behind plan start ∧ outcome.iterations ≤ behind plan start + 1 := by
  have reported := reported_of_beforeLoop entered
  constructor
  · intro sync next again
    exact ⟨raises_syncTurn sync next again, below_of_syncTurn reported again⟩
  · obtain ⟨outcome, ended, bounded⟩ := @loop_ends ω env calls plan reported start
    exact ⟨outcome, ended, bounded, outcome.iterations_le.trans (Nat.add_le_add_right bounded 1)⟩

end LocalPeerClient

/-! ### A fresh node and a peer with one block more -/

namespace Sample

open Text Turns ChainValidator LocalPeerClient

def peerUrl : Text :=
  "http://peer".toList

/-- The fields that are read of the status message. -/
def statusText : Text :=
  "\x7b\"status\":\"ok\",\"protocol_version\":\"1\",\"consensus_rules_version\":\"2\",".toList ++
    "\"first_block_id\":\"100\",\"first_block_hash\":\"".toList ++ genesisHash ++
    "\",\"latest_block_id\":\"101\",\"latest_block_hash\":\"".toList ++ emptyBlockHash ++
    "\"\x7d".toList

def answer (path : Text) : Text :=
  if path = peerUrl ++ "/api/status".toList then statusText
  else if path = peerUrl ++ "/api/blocks/first".toList then
    blockJSON Sample.env genesis
  else blockJSON Sample.env emptyBlock

def honestPeer : Calls Unit where
  running _ := true
  syncLocked _ := false
  peerSyncBackoffActive _ := false
  now _ := 0
  ambient _ := sampleAmbient
  httpGet path world := (answer path, world)
  pullPeerHashLinkedFromTip _ _ _ changed world := ⟨false, changed, world⟩
  pullPeerForkRepairWindow _ _ _ _ _ changed world := ⟨false, changed, world⟩
  pullPeerCanonicalChain _ _ _ changed world := ⟨false, changed, world⟩
  notePeerSyncProgress outside := outside
  notePeerSyncStall outside := outside
  mergePeerStatus _ _ outside := outside
  setLastError _ _ outside := outside

def freshPlan : Plan :=
  ⟨peerUrl, 100, 101, ⟨101, emptyBlockHash⟩⟩

def freshStart : Sync Unit :=
  ⟨⟨started, ()⟩, true, 100, 0⟩

theorem read_statusText : normalizePeerUrl peerUrl = peerUrl ∧
    latestBlockFromStatus statusText = 101 ∧ latestBlockHashFromStatus statusText = emptyBlockHash ∧
    firstBlockFromStatus statusText = 100 ∧ firstBlockHashFromStatus statusText = genesisHash ∧
    protocolVersionFromStatus statusText = 1 ∧ consensusRulesVersionFromStatus statusText = 2 := by
  decide +kernel

theorem fresh_checks :
    statusText ≠ [] ∧
      (∀ path ∈ ["/api/status".toList, "/api/blocks/first".toList],
        peerUrl ++ ("/api/blocks/batch-after-hash/".toList ++ genesisHash ++ "/".toList ++ ofLong 250) ≠
          peerUrl ++ path) ∧
      (getFirstBlockId Node.empty.db = -1 ∧ getLatestBlockId Node.empty.db = -1) ∧
      Sample.env.config.genesisMatches 100 genesisHash ≠ false ∧
      parseSingleBlockJson Sample.env [] = .missing ∧
      ¬ (emptyBlock.number ≤ 0 ∨ emptyBlock.hash = []) := by
  refine ⟨?_, ?_, ?_, ?_, ?_, ?_⟩ <;> decide +kernel

theorem checked_statusText : checkedStatus statusText = ⟨⟨101, emptyBlockHash⟩, true⟩ := by
  obtain ⟨-, latest, latestHash, -, -, protocol, rules⟩ := read_statusText
  rw [checkedStatus, if_neg fresh_checks.1, latest, latestHash, protocol, rules]
  rfl

theorem answer_status : answer (peerUrl ++ "/api/status".toList) = statusText :=
  if_pos rfl

theorem answer_first :
    answer (peerUrl ++ "/api/blocks/first".toList) = blockJSON Sample.env genesis := by
  rw [answer, if_neg (by decide), if_pos rfl]

theorem answer_batch : answer (peerUrl ++ ("/api/blocks/batch-after-hash/".toList ++ genesisHash ++
    "/".toList ++ ofLong 250)) = blockJSON Sample.env emptyBlock := by
  obtain ⟨-, apart, -⟩ := fresh_checks
  rw [answer, if_neg (apart _ (by simp)), if_neg (apart _ (by simp))]

/-- The checks before the loop pass. -/
theorem checked_fresh : beforeLoop Sample.env honestPeer peerUrl ⟨.empty, ()⟩ =
    enterLoop Sample.env honestPeer ⟨peerUrl, -1, 101, ⟨101, emptyBlockHash⟩⟩ emptyBlockHash
      ⟨⟨.empty, ()⟩, false, -1, 0⟩ := by
  obtain ⟨address, latest, latestHash, first, firstHash, -⟩ := read_statusText
  obtain ⟨-, -, ⟨noFirst, noLatest⟩, matched, -⟩ := fresh_checks
  have request : honestPeer.httpGet (peerUrl ++ "/api/status".toList) ⟨.empty, ()⟩ =
      (statusText, ⟨.empty, ()⟩) := Prod.ext answer_status rfl
  unfold beforeLoop
  dsimp only
  rw [address, if_neg (by decide), noFirst, noLatest, if_neg (by decide)]
  unfold checkPeer
  simp only [request]
  rw [checked_statusText, latest, latestHash, first, firstHash, if_neg (by decide),
    if_neg (by decide), if_neg matched, checkLocalGenesis, if_pos (by decide)]

/-- The fresh node stores the first block of the peer and enters the loop. -/
theorem entered_freshStart :
    beforeLoop Sample.env honestPeer peerUrl ⟨.empty, ()⟩ = .entered freshPlan freshStart := by
  obtain ⟨-, -, ⟨noFirst, -⟩, -, nothing, -⟩ := fresh_checks
  have unknown : storesPeerTip Sample.env Node.empty.db ⟨101, emptyBlockHash⟩ = false := by
    rw [storesPeerTip, if_neg (by decide), getBlockByHash, Node.empty, LevelDb.get_empty, nothing]
    split <;> rfl
  have adoption : adoptStoredPeerTip Sample.env 0 Node.empty.db ⟨101, emptyBlockHash⟩ false =
      ⟨false, false, Node.empty.db⟩ := by
    rw [adoptStoredPeerTip, if_pos unknown]
  have rebuilt : rebuildBestChainIndex Sample.env 0 Node.empty.db = (-1, Node.empty.db) := by
    rw [rebuildBestChainIndex, if_pos (by rw [noFirst]; decide)]
  have adopted : adoptOrRepair Sample.env honestPeer ⟨peerUrl, -1, 101, ⟨101, emptyBlockHash⟩⟩
      ⟨⟨.empty, ()⟩, false, -1, 0⟩ = ⟨⟨.empty, ()⟩, false, -1, 0⟩ := by
    have now : honestPeer.now () = 0 := rfl
    simp only [adoptOrRepair, Sync.adopted, Sync.repaired, now, adoption, rebuilt]
    rfl
  have request : honestPeer.httpGet (peerUrl ++ "/api/blocks/first".toList) ⟨.empty, ()⟩ =
      (blockJSON Sample.env genesis, ⟨.empty, ()⟩) := Prod.ext answer_first rfl
  have trips : parseBlockJson Sample.env (blockJSON Sample.env genesis) = [genesis] :=
    roundTrips (List.mem_iff_getElem?.mpr ⟨0, rfl⟩)
  have first : getFirstBlockId started.db = 100 := tracked_started.first
  have latest : getLatestBlockId started.db = 100 := tracked_started.latest
  have surroundings : honestPeer.ambient () = sampleAmbient := rfl
  rw [checked_fresh, enterLoop, adopted]
  dsimp only
  rw [if_neg (by decide), storeFirstBlock, if_pos rfl, getIntoSync]
  simp only [request, trips, List.foldl_cons, List.foldl_nil, surroundings, storeBlock_genesis,
    Sync.refreshed, first, latest]
  rfl

/-- The loop of the fresh node ends, one turn after the turn that its block costs at
the latest. -/
theorem freshStart_ends : ∃ outcome,
    (∀ fuel, 1 < fuel → syncLoop Sample.env honestPeer freshPlan fuel freshStart = some outcome) ∧
      outcome.repeated ≤ 1 ∧ outcome.iterations ≤ 2 :=
  (sync_loop_ends entered_freshStart).2

/-- After the turn that stored the block of the peer. -/
def freshArrived : Sync Unit :=
  ⟨⟨extended emptyBlock, ()⟩, true, 101, 1⟩

theorem freshStart_again :
    syncTurn Sample.env honestPeer freshPlan freshStart = .again freshArrived := by
  have tip : getBlock Sample.env freshStart.world.node.db freshStart.latestBlockId = genesis :=
    tracked_started.tipSlot
  have request : honestPeer.httpGet (peerUrl ++ ("/api/blocks/batch-after-hash/".toList ++
      genesisHash ++ "/".toList ++ ofLong 250)) ⟨started, ()⟩ =
        (blockJSON Sample.env emptyBlock, ⟨started, ()⟩) := Prod.ext answer_batch rfl
  have answered : requestBlocks honestPeer freshPlan genesis freshStart =
      (blockJSON Sample.env emptyBlock, freshStart) :=
    requestBlocks_answered (by decide)
      (congrArg (fun reply => (reply.1, { freshStart with world := reply.2 })) request)
      (blockJSON_ne_nil _ _)
  have trips : parseBlockJson Sample.env (blockJSON Sample.env emptyBlock) = [emptyBlock] :=
    roundTrips (List.mem_iff_getElem?.mpr ⟨4, rfl⟩)
  have added : storeBlock Sample.env (honestPeer.ambient freshStart.world.outside)
      freshStart.world.node emptyBlock = (true, extended emptyBlock) :=
    storeBlock_child (by decide) (by decide) (by decide) emptyBlock_added
  have stored : storeParsedBlocks Sample.env honestPeer [emptyBlock] freshStart =
      (1, ⟨⟨extended emptyBlock, ()⟩, true, 100, 0⟩) := by
    rw [storeParsedBlocks, List.foldl_cons, List.foldl_nil, storeParsedBlock,
      if_neg fresh_checks.2.2.2.2.2]
    dsimp only
    rw [added]
    rfl
  have latest : getLatestBlockId (extended emptyBlock).db = 101 := tracked_emptyBlock.latest
  unfold syncTurn
  rw [if_neg (by decide), if_neg (by decide), tip]
  dsimp only
  rw [answered]
  dsimp only
  rw [if_neg (blockJSON_ne_nil _ _), trips, stored]
  dsimp only
  have raised : (⟨⟨extended emptyBlock, ()⟩, true, 100, 0⟩ : Sync Unit).refreshed =
      ⟨⟨extended emptyBlock, ()⟩, true, 101, 0⟩ := by
    rw [Sync.refreshed, latest]
  rw [if_neg (by decide), afterBlocks_raised (by rw [raised]; decide), raised, countBlocks]
  rfl

theorem freshArrived_leaves :
    syncTurn Sample.env honestPeer freshPlan freshArrived = .leave freshArrived := by
  rw [syncTurn, if_neg (by decide), if_pos (by decide)]

/-- The node is one block behind the peer, and the loop runs twice. -/
theorem one_block_two_turns : ∃ plan start outcome,
    beforeLoop Sample.env honestPeer peerUrl ⟨.empty, ()⟩ = .entered plan start ∧
      syncLoop Sample.env honestPeer plan 2 start = some outcome ∧
      plan.peerLatestBlockId - start.latestBlockId < (outcome.iterations : Int) := by
  refine ⟨freshPlan, freshStart, ⟨1, true, freshArrived⟩, entered_freshStart, ?_, by decide⟩
  have first : keepsSyncing freshStart = true := by decide
  have second : keepsSyncing freshArrived = true := by decide
  rw [syncLoop, run, if_neg (by rw [first]; decide), freshStart_again]
  dsimp only
  rw [run, if_neg (by rw [second]; decide), freshArrived_leaves]
  rfl

end Sample

end Safire
