/-
The database of an accepted chain: the first block id of its genesis block, and
the keys that an installed chain has. The walks of the ledger visit the chain.
-/

import Safire.SoundStore

namespace Safire

open Text ChainValidator

variable {env : Env} {db : LevelDb} {chain : List Block}

theorem Installed.holds (installed : Installed env db chain) {block : Block}
    (member : block ∈ chain) (trips : RoundTrips env block) : Holds env db block :=
  ⟨trips, installed.blocks block member (.block block.hash, blockJSON env block)
    (by simp [blockEntries])⟩

theorem connects_of_accepts (accepted : Accepts env chain) {before after : List Block}
    {parent child : Block} (place : chain = before ++ parent :: child :: after) :
    childConnectsToParent child parent = true := by
  have members : parent ∈ chain ∧ child ∈ chain := by
    rw [place]
    simp
  obtain ⟨ids, above, hashes⟩ := link_of_accepts accepted place
  obtain ⟨-, state, connected⟩ := accepts_iff.mp accepted
  have positive := (ascending_of_accepts accepted).positive
  have hashed := hashes_of_connected connected parent members.1
  have childPositive := positive child members.2
  have parentPositive := positive parent members.1
  rw [childConnectsToParent, if_neg (by omega), if_neg (by simpa using ids), if_neg (by omega),
    hashes, if_neg (by simpa using hashed)]
  exact decide_eq_true rfl

theorem Installed.getBlock_eq (installed : Installed env db chain) {block : Block}
    (member : block ∈ chain) (trips : RoundTrips env block) :
    getBlock env db block.number = block := by
  apply (installed.holds member trips).getBlock_eq
  exact installed.blocks block member (.canonical block.number, block.hash) (by simp [blockEntries])

/-- A hash link to a stored child is found before the other lookups of the next block. -/
theorem Holds.getNextBlock_eq {parent child : Block} (holds : Holds env db child)
    (link : db.get (.next parent.hash) = child.hash)
    (connects : childConnectsToParent child parent = true) : getNextBlock env db parent = child := by
  obtain ⟨parentPositive, -, -, parentHashed, -⟩ := childConnectsToParent_iff.mp connects
  have childFacts := holds.trips.facts
  have linked : linkedNextBlock env db parent = child := by
    rw [linkedNextBlock, link, if_pos (List.length_pos_iff.mpr childFacts.2.1),
      holds.getBlockByHash_eq]
    exact if_pos connects
  have byHash : getNextBlockByHash env db parent = child := by
    rw [getNextBlockByHash, if_neg ?_, linked]
    · exact if_pos connects
    · rw [List.length_eq_zero_iff, not_or, not_le]
      exact ⟨parentPositive, parentHashed⟩
  rw [getNextBlock, byHash]
  exact if_pos childFacts.1

theorem Installed.getNextBlock_eq (installed : Installed env db chain)
    (trips : ∀ block ∈ chain, RoundTrips env block) {before after : List Block}
    {parent child : Block} (place : chain = before ++ parent :: child :: after)
    (connects : childConnectsToParent child parent = true) : getNextBlock env db parent = child := by
  have member : child ∈ chain := by
    rw [place]
    simp
  apply (installed.holds member (trips child member)).getNextBlock_eq
  · exact installed.links before parent child after place (.next parent.hash, child.hash)
      (by simp [linkEntries])
  · exact connects

/-- An installed chain whose blocks read back is the one that the walks visit. -/
theorem storedAs_of_installed (accepted : Accepts env chain)
    (trips : ∀ block ∈ chain, RoundTrips env block) (installed : Installed env db chain)
    (first : ∀ genesis, chain.head? = some genesis → getFirstBlockId db = genesis.number)
    (bounded : chain.length ≤ walkGuard) : StoredAs env db chain where
  first := first
  latest := installed.latest
  bySlot := fun block member => installed.getBlock_eq member (trips block member)
  byHash := fun block member => (installed.holds member (trips block member)).getBlockByHash_eq
  next := fun _ _ _ _ place =>
    installed.getNextBlock_eq trips place (connects_of_accepts accepted place)
  bounded := bounded

/-! ### Databases with one chain -/

theorem family_writtenEntries {entry : StoreKey × Text}
    (written : entry ∈ writtenEntries env chain) : entry.1.family ≤ 4 := by
  rcases mem_writtenEntries.mp written with ⟨block, -, own⟩ | ⟨-, parent, child, -, -, link⟩
  · simp only [blockEntries, List.mem_cons, List.not_mem_nil, or_false] at own
    rcases own with rfl | rfl | rfl <;> simp [StoreKey.family]
  · simp only [linkEntries, List.mem_cons, List.not_mem_nil, or_false] at link
    rcases link with rfl | rfl <;> simp [StoreKey.family]

theorem writes_writeChain (env : Env) (db : LevelDb) (chain : List Block) :
    Writes (fun key => key.family ≤ 4) db (writeChain env db chain) :=
  ⟨writtenEntries env chain, writeChain_eq db chain, fun _ => family_writtenEntries⟩

theorem getFirstBlockId_writeChain :
    getFirstBlockId (writeChain env db chain) = getFirstBlockId db := by
  have writes := writes_writeChain env db chain
  exact getFirstBlockId_congr (writes.get_eq (by simp [StoreKey.family]))
    (writes.get_eq (by simp [StoreKey.family]))

/-- A slot that the chain does not use is not written. -/
theorem slots_unwritten {number : Int} (unused : ∀ block ∈ chain, block.number ≠ number) :
    ∀ entry ∈ writtenEntries env chain,
      entry.1 ≠ .canonical number ∧ entry.1 ≠ .legacyBlock number := by
  intro entry written
  rcases mem_writtenEntries.mp written with ⟨block, member, own⟩ | ⟨_, _, _, _, _, link⟩
  · have other := unused block member
    simp only [blockEntries, List.mem_cons, List.not_mem_nil, or_false] at own
    rcases own with rfl | rfl | rfl <;> simp [other]
  · simp only [linkEntries, List.mem_cons, List.not_mem_nil, or_false] at link
    rcases link with rfl | rfl <;> simp

/-- The keys of a chain over an empty database. -/
def canonicalStore (env : Env) (genesis : Block) (rest : List Block) : LevelDb :=
  finishChain env (writeChain env (setFirstBlockId ∅ genesis.number) (genesis :: rest)) 0
    "best chain index rebuilt" .missing ((genesis :: rest).getLast (List.cons_ne_nil _ _))

theorem storedAs_canonicalStore {genesis : Block} {rest : List Block}
    (accepted : Accepts env (genesis :: rest)) (separate : Separate (genesis :: rest))
    (trips : ∀ block ∈ genesis :: rest, RoundTrips env block)
    (bounded : (genesis :: rest).length ≤ walkGuard) :
    StoredAs env (canonicalStore env genesis rest) (genesis :: rest) := by
  have last : (genesis :: rest).getLast? =
      some ((genesis :: rest).getLast (List.cons_ne_nil _ _)) := List.getLast?_eq_some_getLast _
  have tipTrips := trips _ (List.getLast_mem (List.cons_ne_nil genesis rest))
  have genesisTrips := trips genesis List.mem_cons_self
  refine storedAs_of_installed accepted trips
    (installed_finishChain separate last tipTrips.facts.2.2 _ _ _) ?_ bounded
  intro first head
  obtain rfl : genesis = first := Option.some.inj head
  rw [canonicalStore, getFirstBlockId_finishChain, getFirstBlockId_writeChain,
    getFirstBlockId_setFirstBlockId genesisTrips.facts.2.2]

/-- The walks follow a chain of any length that is written over an empty database. -/
theorem canonicalChain_canonicalStore {genesis : Block} {rest : List Block}
    (ascending : Ascending (genesis :: rest))
    (linked : (genesis :: rest).IsChain
      (fun parent child => childConnectsToParent child parent = true))
    (separate : Separate (genesis :: rest))
    (trips : ∀ block ∈ genesis :: rest, RoundTrips env block) :
    CanonicalChain env (canonicalStore env genesis rest) (genesis :: rest) := by
  have last : (genesis :: rest).getLast? =
      some ((genesis :: rest).getLast (List.cons_ne_nil _ _)) := List.getLast?_eq_some_getLast _
  have tipTrips := trips _ (List.getLast_mem (List.cons_ne_nil genesis rest))
  have genesisTrips := trips genesis List.mem_cons_self
  have installed : Installed env (canonicalStore env genesis rest) (genesis :: rest) :=
    installed_finishChain separate last tipTrips.facts.2.2 _ _ _
  refine ⟨List.cons_ne_nil _ _, ascending, ?_, installed.latest, ?_⟩
  · intro first head
    obtain rfl : genesis = first := Option.some.inj head
    constructor
    · rw [canonicalStore, getFirstBlockId_finishChain, getFirstBlockId_writeChain,
        getFirstBlockId_setFirstBlockId genesisTrips.facts.2.2]
    · exact installed.getBlock_eq List.mem_cons_self genesisTrips
  · intro before parent child after place
    apply installed.getNextBlock_eq trips place
    rw [place] at linked
    exact (List.isChain_cons_cons.mp (List.isChain_append.mp linked).2.1).1

/-- The database of the sample genesis block alone. -/
theorem Sample.storedAs_genesis :
    StoredAs Sample.env (canonicalStore Sample.env Sample.genesis []) [Sample.genesis] := by
  refine storedAs_canonicalStore Sample.accepts_genesis ⟨by simp, by simp⟩ ?_ (by simp [walkGuard])
  intro block member
  rw [List.mem_singleton.mp member]
  exact Sample.roundTrips (List.mem_iff_getElem?.mpr ⟨0, rfl⟩)

/-- The database of the sample genesis block and one child. -/
theorem Sample.storedAs {child : Block} (listed : child ∈ Sample.blocks)
    (accepted : Accepts Sample.env [Sample.genesis, child])
    (other : Sample.genesis.hash ≠ child.hash) :
    StoredAs Sample.env (canonicalStore Sample.env Sample.genesis [child])
      [Sample.genesis, child] := by
  have genesisListed : Sample.genesis ∈ Sample.blocks := List.mem_iff_getElem?.mpr ⟨0, rfl⟩
  have above := (ascending_of_accepts accepted).sorted
  refine storedAs_canonicalStore accepted ⟨?_, ?_⟩ ?_ (by simp [walkGuard])
  · simpa using (List.rel_of_pairwise_cons above (List.mem_singleton_self child)).ne
  · simpa using other
  · intro block member
    rcases List.mem_cons.mp member with rfl | last
    · exact Sample.roundTrips genesisListed
    · rw [List.mem_singleton.mp last]
      exact Sample.roundTrips listed

end Safire
