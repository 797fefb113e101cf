/-
The path of `rebuildBestChainIndex` as a function of a list of blocks: no path
from a genesis candidate beats it, and the order of the list does not matter.
-/

import Safire.BestChain

namespace Safire

open BestPath

/-! ### The path of a list -/

/-- The loop without its set of visited hashes. -/
def followUnguarded (blockByHash : TextMap Block) (bestChildByHash : TextMap Text) :
    Nat → Block → List Block
  | 0, _ => []
  | depth + 1, current =>
      if current.number ≤ 0 ∨ current.hash.length = 0 then []
      else
        current ::
          match bestChildByHash[current.hash]? with
          | none => []
          | some nextHash =>
              match blockByHash[nextHash]? with
              | none => []
              | some next => followUnguarded blockByHash bestChildByHash depth next

/-- The whole path: every round visits a new block of the list. -/
def wholeBestPath (blocks : List Block) (firstBlockId : Int) : List Block :=
  bestPathOf blocks firstBlockId blocks.length

/-! ### Paths from the candidates -/

/-- A path of blocks of the list, each connected to the one before, from a candidate. -/
structure LinkedFrom (blocks : List Block) (firstBlockId : Int) (path : List Block) : Prop where
  listed : ∀ block ∈ path, block ∈ blocks
  linked : path.IsChain (fun parent child => childConnectsToParent child parent = true)
  starts : ∃ genesis, path.head? = some genesis ∧ CandidateOf blocks firstBlockId genesis

variable {blocks permuted : List Block} {firstBlockId : Int}

theorem linkedFrom_iff {path : List Block} :
    LinkedFrom blocks firstBlockId path ↔
      PathFrom (Edge blocks) (CandidateOf blocks firstBlockId) path := by
  constructor
  · intro linked
    constructor
    · exact linked.linked.imp_of_mem_imp
        fun parent child _ member connects => ⟨linked.listed child member, connects⟩
    · exact linked.starts
  · intro isPath
    constructor
    · exact mem_of_path (fun _ candidate => candidate.1) isPath
    · exact isPath.linked.imp fun _ _ edge => edge.2
    · exact isPath.begins

/-! ### The loop follows the best path -/

theorem mem_blocks_of_best {block : Block} {path : List Block} (member : block ∈ blocks)
    (optimal : BestFrom blocks (· = block) path) : ∀ other ∈ path, other ∈ blocks :=
  mem_of_path (fun other same => (show other = block from same) ▸ member) optimal.isPath

theorem followUnguarded_eq (stored : DistinctBlocks blocks) (depth : Nat) :
    ∀ (block : Block) (path : List Block), block ∈ blocks → BestFrom blocks (· = block) path →
      followUnguarded (indexByHash blocks) (bestTable blocks).bestChildByHash depth block =
        path.take depth := by
  induction depth with
  | zero =>
      intro block path _ _
      rfl
  | succ depth ih =>
      intro block path member optimal
      obtain ⟨first, rest, rfl, rfl⟩ := pathFrom_cons optimal.isPath
      rw [followUnguarded, if_neg (stored.usable member), next_of_best stored member optimal,
        List.take_succ_cons]
      cases rest with
      | nil => simp
      | cons second rest =>
          have secondStored : second ∈ blocks :=
            mem_blocks_of_best member optimal second (by simp)
          simp only [List.head?_cons, Option.map_some, indexByHash_of_mem stored secondStored]
          rw [ih second _ secondStored (optimal.tail VariantPreferred.asymm)]

/-- The path is optimal, and every bound on the rounds only cuts it. -/
theorem bestPathOf_spec (stored : DistinctBlocks blocks) {genesis : Block}
    (rooted : CandidateOf blocks firstBlockId genesis) :
    ∃ best, BestFrom blocks (CandidateOf blocks firstBlockId) best ∧
      (∀ depth, bestPathOf blocks firstBlockId depth = best.take depth) ∧
      ∀ depth, followUnguarded (indexByHash blocks) (bestTable blocks).bestChildByHash depth
        (bestGenesisOf blocks firstBlockId) = best.take depth := by
  obtain ⟨best, optimal, listed, fromChosen, followed⟩ := bestPathOf_eq_take stored rooted
  apply Exists.intro best
  constructor
  · exact optimal
  constructor
  · exact followed
  · intro depth
    exact followUnguarded_eq stored depth _ best listed fromChosen

theorem length_le_of_linkedFrom {path : List Block}
    (linked : LinkedFrom blocks firstBlockId path) : path.length ≤ blocks.length := by
  have ascending := ascending_path (linkedFrom_iff.mp linked).linked
  have distinct : path.Nodup := by
    apply ascending.imp
    intro earlier later above same
    rw [same] at above
    exact lt_irrefl _ above
  exact (distinct.subperm linked.listed).length_le

theorem wholeBestPath_optimal (stored : DistinctBlocks blocks) {genesis : Block}
    (rooted : CandidateOf blocks firstBlockId genesis) :
    BestFrom blocks (CandidateOf blocks firstBlockId) (wholeBestPath blocks firstBlockId) := by
  obtain ⟨best, optimal, followed, -⟩ := bestPathOf_spec stored rooted
  have short := length_le_of_linkedFrom (linkedFrom_iff.mpr optimal.isPath)
  rw [wholeBestPath, followed, List.take_of_length_le short]
  exact optimal

/-! ### The order of the list -/

theorem DistinctBlocks.perm (stored : DistinctBlocks blocks) (perm : permuted.Perm blocks) :
    DistinctBlocks permuted where
  positive := fun block member => stored.positive block (perm.mem_iff.mp member)
  named := fun block member => stored.named block (perm.mem_iff.mp member)
  distinct := (perm.map Block.hash).nodup_iff.mpr stored.distinct

theorem wholeBestPath_perm (stored : DistinctBlocks blocks) {genesis : Block}
    (rooted : CandidateOf blocks firstBlockId genesis) (perm : permuted.Perm blocks) :
    wholeBestPath permuted firstBlockId = wholeBestPath blocks firstBlockId := by
  have sameEdges : Edge permuted = Edge blocks := by
    funext parent child
    exact propext (and_congr_left' perm.mem_iff)
  have sameStarts : CandidateOf permuted firstBlockId = CandidateOf blocks firstBlockId := by
    funext block
    exact propext (and_congr_left' perm.mem_iff)
  have optimal := wholeBestPath_optimal (stored.perm perm)
    (show CandidateOf permuted firstBlockId genesis by rwa [sameStarts])
  unfold BestFrom at optimal
  rw [sameEdges, sameStarts] at optimal
  exact optimal.unique VariantPreferred.asymm (wholeBestPath_optimal stored rooted)

/-- The path before the cut and the validation is linked, has the largest length
and then the largest tip number, does not depend on the order of the blocks, and
is the path that the loop follows without its set of visited hashes. -/
theorem best_path_optimal_and_order_free (stored : DistinctBlocks blocks) {genesis : Block}
    (rooted : CandidateOf blocks firstBlockId genesis) :
    LinkedFrom blocks firstBlockId (wholeBestPath blocks firstBlockId) ∧
      (∀ other, LinkedFrom blocks firstBlockId other →
        other.length ≤ (wholeBestPath blocks firstBlockId).length ∧
          (other.length = (wholeBestPath blocks firstBlockId).length →
            endWeight Block.number other ≤
              endWeight Block.number (wholeBestPath blocks firstBlockId))) ∧
      (∀ permuted, permuted.Perm blocks →
        wholeBestPath permuted firstBlockId = wholeBestPath blocks firstBlockId) ∧
      ∀ depth, blocks.length ≤ depth →
        bestPathOf blocks firstBlockId depth = wholeBestPath blocks firstBlockId ∧
          followUnguarded (indexByHash blocks) (bestTable blocks).bestChildByHash depth
            (bestGenesisOf blocks firstBlockId) = wholeBestPath blocks firstBlockId := by
  have optimal := wholeBestPath_optimal stored rooted
  have linked := linkedFrom_iff.mpr optimal.isPath
  constructor
  · exact linked
  constructor
  · intro other otherLinked
    cases optimal.best other (linkedFrom_iff.mp otherLinked) with
    | inl same =>
        rw [same]
        exact ⟨le_rfl, fun _ => le_rfl⟩
    | inr beats =>
        unfold Beats at beats
        omega
  constructor
  · intro permuted perm
    exact wholeBestPath_perm stored rooted perm
  · intro depth enough
    obtain ⟨best, isBest, followed, unguarded⟩ := bestPathOf_spec stored rooted
    obtain rfl := isBest.unique VariantPreferred.asymm optimal
    have short := length_le_of_linkedFrom linked
    rw [followed, unguarded, List.take_of_length_le (short.trans enough)]
    exact ⟨rfl, rfl⟩

/-- Two children of the genesis block around it. -/
def Sample.forkedBlocks : List Block :=
  [validSpend, genesis, emptyBlock]

theorem distinct_forkedBlocks : DistinctBlocks Sample.forkedBlocks where
  positive := by decide
  named := by decide
  distinct := by decide

theorem best_path_of_fork :
    LinkedFrom Sample.forkedBlocks 100 (wholeBestPath Sample.forkedBlocks 100) ∧
      (∀ other, LinkedFrom Sample.forkedBlocks 100 other →
        other.length ≤ (wholeBestPath Sample.forkedBlocks 100).length ∧
          (other.length = (wholeBestPath Sample.forkedBlocks 100).length →
            endWeight Block.number other ≤
              endWeight Block.number (wholeBestPath Sample.forkedBlocks 100))) ∧
      (∀ permuted, permuted.Perm Sample.forkedBlocks →
        wholeBestPath permuted 100 = wholeBestPath Sample.forkedBlocks 100) ∧
      ∀ depth, Sample.forkedBlocks.length ≤ depth →
        bestPathOf Sample.forkedBlocks 100 depth = wholeBestPath Sample.forkedBlocks 100 ∧
          followUnguarded (indexByHash Sample.forkedBlocks)
              (bestTable Sample.forkedBlocks).bestChildByHash depth
              (bestGenesisOf Sample.forkedBlocks 100) =
            wholeBestPath Sample.forkedBlocks 100 :=
  @best_path_optimal_and_order_free Sample.forkedBlocks 100 distinct_forkedBlocks Sample.genesis
    ⟨by simp [Sample.forkedBlocks], rfl, by decide⟩

end Safire
