/-
The table of `rebuildBestChainIndex` computes the best path of the stored blocks:
the longest one, then the one with the largest tip number, then the one with the
preferred variant where two of them part.
-/

import Safire.ChainIndex
import Safire.Library.BestPath

namespace Safire

open BestPath

/-! ### Distinct blocks -/

/-- What the iteration over a database guarantees of its blocks. -/
structure DistinctBlocks (blocks : List Block) : Prop where
  positive : ∀ block ∈ blocks, 0 < block.number
  named : ∀ block ∈ blocks, block.hash ≠ []
  distinct : (blocks.map Block.hash).Nodup

variable {blocks : List Block}

theorem DistinctBlocks.eq_of_hash (stored : DistinctBlocks blocks) {left right : Block}
    (leftStored : left ∈ blocks) (rightStored : right ∈ blocks) (same : left.hash = right.hash) :
    left = right :=
  List.inj_on_of_nodup_map stored.distinct leftStored rightStored same

private theorem indexByHash_snoc (blocks : List Block) (block : Block) :
    indexByHash (blocks ++ [block]) = (indexByHash blocks).insert block.hash block := by
  rw [indexByHash, List.foldl_append]
  rfl

theorem indexByHash_some {hash : Text} {block : Block}
    (found : (indexByHash blocks)[hash]? = some block) : block ∈ blocks ∧ block.hash = hash := by
  induction blocks using List.reverseRecOn with
  | nil => simp [indexByHash] at found
  | append_singleton earlier last ih =>
      rw [indexByHash_snoc, Std.ExtTreeMap.getElem?_insert] at found
      split at found
      · rename_i same
        rw [Std.LawfulEqCmp.compare_eq_iff_eq] at same
        cases found
        exact ⟨by simp, same⟩
      · obtain ⟨member, named⟩ := ih found
        exact ⟨List.mem_append_left _ member, named⟩

theorem indexByHash_of_mem (stored : DistinctBlocks blocks) {block : Block}
    (member : block ∈ blocks) : (indexByHash blocks)[block.hash]? = some block := by
  have present : ∀ {blocks : List Block}, block ∈ blocks →
      ((indexByHash blocks)[block.hash]?).isSome := by
    intro blocks member
    induction blocks using List.reverseRecOn with
    | nil => cases member
    | append_singleton earlier last ih =>
        rw [indexByHash_snoc, Std.ExtTreeMap.getElem?_insert]
        split
        · rfl
        · rename_i different
          rcases List.mem_append.mp member with old | new
          · exact ih old
          · rw [List.mem_singleton.mp new] at different
            exact absurd Std.ReflCmp.compare_self different
  obtain ⟨found, lookup⟩ := Option.isSome_iff_exists.mp (present member)
  obtain ⟨foundMember, same⟩ := indexByHash_some lookup
  rw [lookup, stored.eq_of_hash foundMember member same]

/-! ### Children -/

theorem childConnectsToParent_iff {child parent : Block} :
    childConnectsToParent child parent = true ↔
      0 < parent.number ∧ child.previousBlockId = parent.number ∧ parent.number < child.number ∧
        parent.hash ≠ [] ∧ child.previousBlockHash = parent.hash := by
  unfold childConnectsToParent
  by_cases numbers : child.number ≤ 0 ∨ parent.number ≤ 0
  · rw [if_pos numbers]
    simp only [Bool.false_eq_true, false_iff]
    omega
  · rw [if_neg numbers]
    by_cases ids : child.previousBlockId = parent.number
    · rw [if_neg (not_ne_iff.mpr ids), ids]
      by_cases above : child.number ≤ parent.number
      · rw [if_pos above]
        simp only [Bool.false_eq_true, false_iff]
        omega
      · rw [if_neg above]
        by_cases hashes : child.previousBlockHash = parent.hash
        · by_cases missing : parent.hash = []
          · simp [hashes, missing]
          · simp [hashes, missing]
            omega
        · simp [hashes]
    · simp [ids]

/-- A stored child, seen from its parent. -/
def Edge (blocks : List Block) (parent child : Block) : Prop :=
  child ∈ blocks ∧ childConnectsToParent child parent = true

theorem mem_childrenOf (stored : DistinctBlocks blocks) {parent child : Block}
    (member : parent ∈ blocks) : child ∈ childrenOf blocks parent.hash ↔ Edge blocks parent child := by
  have lookup := indexByHash_of_mem stored member
  rw [childrenOf, List.mem_filter]
  refine and_congr_right fun _ => ?_
  simp only [Bool.and_eq_true, decide_eq_true_eq, List.length_pos_iff]
  constructor
  · rintro ⟨⟨-, same⟩, connects⟩
    rwa [same, lookup, Option.any_some] at connects
  · intro connects
    obtain ⟨-, -, -, named, hashes⟩ := childConnectsToParent_iff.mp connects
    rw [hashes, lookup, Option.any_some]
    exact ⟨⟨named, rfl⟩, connects⟩

theorem mem_bestChildCandidates (stored : DistinctBlocks blocks) {parent child : Block}
    (member : parent ∈ blocks) :
    child ∈ bestChildCandidates blocks parent ↔ Edge blocks parent child := by
  rw [bestChildCandidates, List.mem_filter, List.mem_mergeSort, mem_childrenOf stored member]
  refine and_iff_left_of_imp ?_
  rintro ⟨childMember, connects⟩
  obtain ⟨-, -, above, -⟩ := childConnectsToParent_iff.mp connects
  have different : child.hash ≠ parent.hash := by
    intro same
    rw [stored.eq_of_hash childMember member same] at above
    exact lt_irrefl _ above
  simp [List.length_pos_iff, stored.named child childMember, different]

/-! ### The preferred candidate -/

/-- More records, then the smaller hash. -/
def VariantPreferred (candidate current : Block) : Prop :=
  current.records.length < candidate.records.length ∨
    current.records.length = candidate.records.length ∧ candidate.hash < current.hash

theorem VariantPreferred.asymm (left right : Block) (preferred : VariantPreferred left right) :
    ¬ VariantPreferred right left := by
  rintro (fewer | ⟨counts, smaller⟩)
  · rcases preferred with more | ⟨same, -⟩ <;> omega
  · rcases preferred with more | ⟨-, larger⟩
    · omega
    · exact lt_asymm smaller larger

theorem preferBlockVariant_iff {candidate current : Block} (positive : 0 < current.number) :
    preferBlockVariant candidate current = true ↔ VariantPreferred candidate current := by
  unfold preferBlockVariant VariantPreferred
  rw [if_neg (not_le.mpr positive)]
  by_cases same : candidate.records.length = current.records.length
  · simp [same]
  · simp only [ne_eq, same, not_false_eq_true, if_true, decide_eq_true_eq]
    constructor
    · exact .inl
    · rintro (more | ⟨equal, -⟩)
      · exact more
      · exact absurd equal.symm same

/-- The order of `preferChainChild` on two blocks. -/
def Outranks (table : BestTable) (candidate current : Block) : Prop :=
  table.length current < table.length candidate ∨
    table.length current = table.length candidate ∧
      (table.tip current < table.tip candidate ∨
        table.tip current = table.tip candidate ∧ VariantPreferred candidate current)

variable {table : BestTable}

theorem preferChainChild_iff {candidate current : Block} (positive : 0 < current.number) :
    preferChainChild table candidate current = true ↔ Outranks table candidate current := by
  unfold preferChainChild Outranks
  rw [if_neg (not_le.mpr positive)]
  by_cases lengths : table.length candidate = table.length current
  · rw [if_neg (not_ne_iff.mpr lengths)]
    by_cases tips : table.tip candidate = table.tip current
    · rw [if_neg (not_ne_iff.mpr tips), preferBlockVariant_iff positive]
      simp [lengths, tips]
    · rw [if_pos tips, decide_eq_true_eq]
      simp [lengths, Ne.symm tips]
  · rw [if_pos lengths, decide_eq_true_eq]
    simp [Ne.symm lengths]

private theorem VariantPreferred.trans {first second third : Block}
    (left : VariantPreferred first second) (right : VariantPreferred second third) :
    VariantPreferred first third := by
  rcases left with more | ⟨same, smaller⟩
  · rcases right with more' | ⟨same', -⟩ <;> exact .inl (by omega)
  · rcases right with more' | ⟨same', smaller'⟩
    · exact .inl (by omega)
    · exact .inr ⟨by omega, smaller.trans smaller'⟩

private theorem Outranks.trans {first second third : Block} (left : Outranks table first second)
    (right : Outranks table second third) : Outranks table first third := by
  rcases left with longer | ⟨sameLength, higher | ⟨sameTip, preferred⟩⟩ <;>
    rcases right with longer' | ⟨sameLength', higher' | ⟨sameTip', preferred'⟩⟩
  all_goals first
    | exact .inl (by omega)
    | exact .inr ⟨by omega, .inl (by omega)⟩
    | exact .inr ⟨by omega, .inr ⟨by omega, preferred.trans preferred'⟩⟩

private theorem Outranks.total (table : BestTable) {left right : Block}
    (different : left.hash ≠ right.hash) :
    Outranks table left right ∨ Outranks table right left := by
  unfold Outranks VariantPreferred
  rcases lt_trichotomy (table.length left) (table.length right) with shorter | lengths | longer
  · exact .inr (.inl shorter)
  · rcases lt_trichotomy (table.tip left) (table.tip right) with lower | tips | higher
    · exact .inr (.inr ⟨lengths, .inl lower⟩)
    · rcases lt_trichotomy left.records.length right.records.length with fewer | counts | more
      · exact .inr (.inr ⟨lengths, .inr ⟨tips, .inl fewer⟩⟩)
      · rcases lt_or_gt_of_ne different with smaller | larger
        · exact .inl (.inr ⟨lengths.symm, .inr ⟨tips.symm, .inr ⟨counts.symm, smaller⟩⟩⟩)
        · exact .inr (.inr ⟨lengths, .inr ⟨tips, .inr ⟨counts, larger⟩⟩⟩)
      · exact .inl (.inr ⟨lengths.symm, .inr ⟨tips.symm, .inl more⟩⟩)
    · exact .inl (.inr ⟨lengths.symm, .inl higher⟩)
  · exact .inl (.inl longer)

private theorem preferredOf_snoc (table : BestTable) (candidates : List Block) (last : Block) :
    preferredOf table (candidates ++ [last]) =
      if preferChainChild table last (preferredOf table candidates) then last
      else preferredOf table candidates := by
  rw [preferredOf, List.foldl_append]
  rfl

/-- The scan ends on a candidate that outranks all others, in whatever order they come. -/
theorem preferredOf_spec (table : BestTable) (stored : DistinctBlocks blocks)
    {candidates : List Block}
    (covered : ∀ candidate ∈ candidates, candidate ∈ blocks) (present : candidates ≠ []) :
    preferredOf table candidates ∈ candidates ∧
      ∀ other ∈ candidates, other ≠ preferredOf table candidates →
        Outranks table (preferredOf table candidates) other := by
  induction candidates using List.reverseRecOn with
  | nil => exact absurd rfl present
  | append_singleton earlier last ih =>
      rw [preferredOf_snoc]
      by_cases alone : earlier = []
      · subst alone
        have chosen : preferChainChild table last (preferredOf table []) = true := by
          simp [preferredOf, preferChainChild, Block.missing]
        rw [if_pos chosen]
        refine ⟨by simp, fun other member different => ?_⟩
        exact absurd (List.mem_singleton.mp (by simpa using member)) different
      · obtain ⟨member, ahead⟩ := ih (fun _ old => covered _ (List.mem_append_left _ old)) alone
        have bestStored := covered _ (List.mem_append_left [last] member)
        have lastStored : last ∈ blocks := covered last (by simp)
        have positive := stored.positive _ bestStored
        by_cases preferred : preferChainChild table last (preferredOf table earlier) = true
        · rw [if_pos preferred]
          have outranks := (preferChainChild_iff positive).mp preferred
          refine ⟨by simp, fun other otherMember different => ?_⟩
          rcases List.mem_append.mp otherMember with old | new
          · by_cases same : other = preferredOf table earlier
            · exact same ▸ outranks
            · exact outranks.trans (ahead other old same)
          · exact absurd (List.mem_singleton.mp new) different
        · rw [if_neg preferred]
          refine ⟨List.mem_append_left _ member, fun other otherMember different => ?_⟩
          rcases List.mem_append.mp otherMember with old | new
          · exact ahead other old different
          · rw [List.mem_singleton.mp new] at different ⊢
            have hashes : last.hash ≠ (preferredOf table earlier).hash :=
              fun same => different (stored.eq_of_hash lastStored bestStored same)
            rcases Outranks.total table hashes with outranks | outranked
            · exact absurd ((preferChainChild_iff positive).mpr outranks) preferred
            · exact outranked

/-! ### The table -/

/-- The best path of stored blocks from one of the starts. -/
abbrev BestFrom (blocks : List Block) (starts : Block → Prop) (path : List Block) : Prop :=
  Optimal (Edge blocks) Block.number VariantPreferred starts path

/-- The entries of a block describe its best path. -/
def HasEntry (blocks : List Block) (table : BestTable) (block : Block) : Prop :=
  ∃ path, BestFrom blocks (· = block) path ∧
    table.bestLengthByHash[block.hash]? = some (path.length : Int) ∧
    table.bestTipByHash[block.hash]? = some (endWeight Block.number path) ∧
    table.bestChildByHash[block.hash]? = path.tail.head?.map Block.hash

/-- The table after the blocks `done`. -/
structure TableFor (blocks done : List Block) (table : BestTable) : Prop where
  entries : ∀ block ∈ done, HasEntry blocks table block
  untouched : ∀ hash, (∀ block ∈ done, block.hash ≠ hash) → table.bestChildByHash[hash]? = none

private theorem tableStep_other (blocks : List Block) (table : BestTable) {block : Block}
    {hash : Text} (different : block.hash ≠ hash) :
    (tableStep blocks table block).bestLengthByHash[hash]? = table.bestLengthByHash[hash]? ∧
      (tableStep blocks table block).bestTipByHash[hash]? = table.bestTipByHash[hash]? ∧
      (tableStep blocks table block).bestChildByHash[hash]? = table.bestChildByHash[hash]? := by
  unfold tableStep
  dsimp only
  split <;> simp [Std.ExtTreeMap.getElem?_insert, different]

private theorem HasEntry.after {block other : Block} (entry : HasEntry blocks table other)
    (different : block.hash ≠ other.hash) : HasEntry blocks (tableStep blocks table block) other := by
  obtain ⟨path, optimal, length, tip, child⟩ := entry
  obtain ⟨sameLength, sameTip, sameChild⟩ := tableStep_other blocks table different
  exact ⟨path, optimal, sameLength.trans length, sameTip.trans tip, sameChild.trans child⟩

/-- The candidate that the scan prefers has the best path of all candidates. -/
theorem bestFrom_preferredOf (table : BestTable) (stored : DistinctBlocks blocks)
    {candidates : List Block}
    (covered : ∀ candidate ∈ candidates, candidate ∈ blocks) (present : candidates ≠ [])
    (entries : ∀ candidate ∈ candidates, HasEntry blocks table candidate) :
    preferredOf table candidates ∈ candidates ∧
      ∃ path, BestFrom blocks (· = preferredOf table candidates) path ∧
        BestFrom blocks (· ∈ candidates) path ∧
        table.length (preferredOf table candidates) = path.length ∧
        table.tip (preferredOf table candidates) = endWeight Block.number path := by
  have reads : ∀ {candidate : Block} {path : List Block},
      table.bestLengthByHash[candidate.hash]? = some (path.length : Int) →
      table.bestTipByHash[candidate.hash]? = some (endWeight Block.number path) →
      table.length candidate = path.length ∧
        table.tip candidate = endWeight Block.number path := by
    intro candidate path length tip
    rw [BestTable.length, BestTable.tip, Std.ExtTreeMap.getD_eq_getD_getElem?,
      Std.ExtTreeMap.getD_eq_getD_getElem?, length, tip]
    exact ⟨rfl, rfl⟩
  obtain ⟨member, ahead⟩ := preferredOf_spec table stored covered present
  obtain ⟨path, optimal, length, tip, -⟩ := entries _ member
  obtain ⟨lengthRead, tipRead⟩ := reads length tip
  refine ⟨member, path, optimal, ?_, lengthRead, tipRead⟩
  refine optimal_of_ahead member optimal fun other otherMember different => ?_
  obtain ⟨otherPath, otherOptimal, otherLength, otherTip, -⟩ := entries other otherMember
  obtain ⟨otherLengthRead, otherTipRead⟩ := reads otherLength otherTip
  refine ⟨otherPath, otherOptimal, ?_⟩
  have outranks := ahead other otherMember different
  unfold Outranks at outranks
  rw [lengthRead, tipRead, otherLengthRead, otherTipRead] at outranks
  exact_mod_cast outranks

private theorem hasEntry_tableStep (stored : DistinctBlocks blocks) {done : List Block}
    (filled : TableFor blocks done table) {block : Block} (member : block ∈ blocks)
    (below : ∀ child, Edge blocks block child → child ∈ done)
    (new : ∀ other ∈ done, other.hash ≠ block.hash) :
    HasEntry blocks (tableStep blocks table block) block := by
  have candidateEdge : ∀ child,
      child ∈ bestChildCandidates blocks block ↔ Edge blocks block child :=
    fun child => mem_bestChildCandidates stored member
  by_cases childless : bestChildCandidates blocks block = []
  · refine ⟨[block], optimal_singleton fun child edge => ?_, ?_⟩
    · have candidate := (candidateEdge child).mpr edge
      rw [childless] at candidate
      cases candidate
    · have missing : ¬ (0 < (preferredOf table (bestChildCandidates blocks block)).number ∧
          0 < (preferredOf table (bestChildCandidates blocks block)).hash.length) := by
        rw [childless]
        simp [preferredOf, Block.missing]
      simp [tableStep, missing, endWeight, filled.untouched block.hash new]
  · have covered : ∀ child ∈ bestChildCandidates blocks block, child ∈ blocks :=
      fun child candidate => ((candidateEdge child).mp candidate).1
    obtain ⟨chosen, path, fromChosen, optimal, length, tip⟩ :=
      bestFrom_preferredOf table stored covered childless
        (fun child candidate => filled.entries child (below child ((candidateEdge child).mp candidate)))
    have usable : 0 < (preferredOf table (bestChildCandidates blocks block)).number ∧
        0 < (preferredOf table (bestChildCandidates blocks block)).hash.length :=
      ⟨stored.positive _ (covered _ chosen),
        List.length_pos_iff.mpr (stored.named _ (covered _ chosen))⟩
    obtain ⟨first, rest, rfl, starts⟩ := pathFrom_cons fromChosen.isPath
    refine ⟨block :: first :: rest, optimal_cons ?_, ?_⟩
    · have sameStarts : (· ∈ bestChildCandidates blocks block) = Edge blocks block :=
        funext fun child => propext (candidateEdge child)
      rwa [sameStarts] at optimal
    · rw [endWeight_cons (List.cons_ne_nil _ _), ← tip]
      simp [tableStep, usable, length, starts]

private theorem TableFor.step (stored : DistinctBlocks blocks) {done : List Block}
    (filled : TableFor blocks done table) {block : Block} (member : block ∈ blocks)
    (below : ∀ child, Edge blocks block child → child ∈ done)
    (new : ∀ other ∈ done, other.hash ≠ block.hash) :
    TableFor blocks (done ++ [block]) (tableStep blocks table block) where
  entries := by
    intro other place
    rcases List.mem_append.mp place with old | last
    · exact (filled.entries other old).after (new other old).symm
    · rw [List.mem_singleton.mp last]
      exact hasEntry_tableStep stored filled member below new
  untouched := by
    intro hash absent
    rw [(tableStep_other blocks table (absent block (by simp))).2.2]
    exact filled.untouched hash fun other old => absent other (List.mem_append_left _ old)

private theorem byNumberDescending_trans (first second third : Block)
    (left : byNumberDescending first second = true)
    (right : byNumberDescending second third = true) :
    byNumberDescending first third = true := by
  unfold byNumberDescending at *
  by_cases numbers : first.number = second.number <;>
    by_cases numbers' : second.number = third.number
  · simp only [numbers, numbers', ne_eq, not_true_eq_false, if_false, decide_eq_true_eq] at *
    exact left.trans right
  · simp_all
  · simp_all
  · simp only [numbers, numbers', ne_eq, not_false_eq_true, if_true, decide_eq_true_eq] at left right
    rw [if_pos (by omega), decide_eq_true_eq]
    omega

private theorem byNumberDescending_total (left right : Block) :
    (byNumberDescending left right || byNumberDescending right left) = true := by
  unfold byNumberDescending
  by_cases numbers : left.number = right.number
  · simp [numbers, le_total]
  · simp only [numbers, Ne.symm numbers, ne_eq, not_false_eq_true, if_true, Bool.or_eq_true,
      decide_eq_true_eq]
    omega

private theorem byNumberDescending_le {left right : Block}
    (ordered : byNumberDescending left right = true) : right.number ≤ left.number := by
  unfold byNumberDescending at ordered
  by_cases numbers : left.number = right.number
  · exact numbers.ge
  · rw [if_pos numbers, decide_eq_true_eq] at ordered
    exact ordered.le

/-- Every block enters the table after its children. -/
theorem hasEntry_bestTable (stored : DistinctBlocks blocks) {block : Block}
    (member : block ∈ blocks) : HasEntry blocks (bestTable blocks) block := by
  have sorted := List.pairwise_mergeSort byNumberDescending_trans byNumberDescending_total blocks
  have perm := List.mergeSort_perm blocks byNumberDescending
  have hashes : ((blocks.mergeSort byNumberDescending).map Block.hash).Nodup :=
    (perm.map Block.hash).nodup_iff.mpr stored.distinct
  have run : ∀ rest done table, blocks.mergeSort byNumberDescending = done ++ rest →
      TableFor blocks done table →
      TableFor blocks (blocks.mergeSort byNumberDescending)
        (rest.foldl (tableStep blocks) table) := by
    intro rest
    induction rest with
    | nil =>
        intro done table split filled
        rw [split, List.append_nil]
        exact filled
    | cons next rest ih =>
        intro done table split filled
        refine ih (done ++ [next]) _ (by rw [split, List.append_assoc]; rfl) ?_
        rw [split] at sorted hashes
        refine filled.step stored (perm.mem_iff.mp (by rw [split]; simp)) ?_ ?_
        · rintro child ⟨childStored, connects⟩
          obtain ⟨-, -, above, -⟩ := childConnectsToParent_iff.mp connects
          have place : child ∈ done ++ next :: rest := split ▸ perm.mem_iff.mpr childStored
          rcases List.mem_append.mp place with before | after
          · exact before
          · rcases List.mem_cons.mp after with rfl | later
            · exact absurd above (lt_irrefl _)
            · have tail := (List.pairwise_cons.mp (List.pairwise_append.mp sorted).2.1).1
              exact absurd (byNumberDescending_le (tail child later)) (not_le.mpr above)
        · intro other old
          rw [List.map_append, List.map_cons, List.nodup_append] at hashes
          exact hashes.2.2 _ (List.mem_map_of_mem old) _ (by simp)
  have filled := run _ [] .empty rfl ⟨by simp, by simp [BestTable.empty]⟩
  exact filled.entries block (perm.mem_iff.mpr member)

/-! ### Following the table -/

/-- Numbers grow along a path of stored blocks. -/
theorem ascending_path {path : List Block} (linked : path.IsChain (Edge blocks)) :
    path.Pairwise (fun earlier later => earlier.number < later.number) := by
  have grows : path.IsChain (fun earlier later => earlier.number < later.number) :=
    linked.imp fun _ _ edge => (childConnectsToParent_iff.mp edge.2).2.2.1
  exact List.isChain_iff_pairwise.mp grows

theorem mem_of_path {path : List Block} {starts : Block → Prop}
    (covered : ∀ block, starts block → block ∈ blocks)
    (isPath : PathFrom (Edge blocks) starts path) : ∀ block ∈ path, block ∈ blocks := by
  obtain ⟨first, rest, rfl, start⟩ := pathFrom_cons isPath
  have follows : ∀ (rest : List Block) (first : Block), first ∈ blocks →
      (first :: rest).IsChain (Edge blocks) → ∀ block ∈ first :: rest, block ∈ blocks := by
    intro rest
    induction rest with
    | nil =>
        intro first stored _ block member
        rw [List.mem_singleton.mp member]
        exact stored
    | cons second rest ih =>
        intro first stored linked block member
        obtain ⟨edge, linked⟩ := List.isChain_cons_cons.mp linked
        rcases List.mem_cons.mp member with rfl | later
        · exact stored
        · exact ih second edge.1 linked block later
  exact follows rest first (covered first start) isPath.linked

theorem DistinctBlocks.usable (stored : DistinctBlocks blocks) {block : Block}
    (member : block ∈ blocks) : ¬ (block.number ≤ 0 ∨ block.hash.length = 0) := by
  rw [List.length_eq_zero_iff, not_or]
  exact ⟨not_le.mpr (stored.positive block member), stored.named block member⟩

/-- The table leads from a block to the next one of its best path. -/
theorem next_of_best (stored : DistinctBlocks blocks) {first : Block} {rest : List Block}
    (member : first ∈ blocks) (optimal : BestFrom blocks (· = first) (first :: rest)) :
    (bestTable blocks).bestChildByHash[first.hash]? = rest.head?.map Block.hash := by
  obtain ⟨path, entryOptimal, -, -, child⟩ := hasEntry_bestTable stored member
  obtain rfl := entryOptimal.unique VariantPreferred.asymm optimal
  exact child

theorem followBestChildren_eq (stored : DistinctBlocks blocks) (depth : Nat) :
    ∀ (visited : TextSet) (block : Block) (path : List Block), block ∈ blocks →
      BestFrom blocks (· = block) path → (∀ other ∈ path, other.hash ∉ visited) →
      followBestChildren (indexByHash blocks) (bestTable blocks).bestChildByHash depth visited
        block = path.take depth := by
  induction depth with
  | zero =>
      intro visited block path _ _ _
      rfl
  | succ depth ih =>
      intro visited block path member optimal fresh
      obtain ⟨first, rest, rfl, rfl⟩ := pathFrom_cons optimal.isPath
      rw [followBestChildren, if_neg (stored.usable member), if_neg (fresh first (by simp)),
        next_of_best stored member optimal, List.take_succ_cons]
      cases rest with
      | nil => simp
      | cons second rest =>
          obtain ⟨⟨secondStored, -⟩, -⟩ := List.isChain_cons_cons.mp optimal.isPath.linked
          have ascending := List.pairwise_cons.mp (ascending_path optimal.isPath.linked)
          have inStore := mem_of_path (fun _ same => same ▸ member) optimal.isPath
          simp only [List.head?_cons, Option.map_some, indexByHash_of_mem stored secondStored]
          rw [ih _ second _ secondStored (optimal.tail VariantPreferred.asymm)]
          intro other later
          rw [Std.ExtTreeSet.mem_insert, not_or]
          refine ⟨?_, fresh other (List.mem_cons_of_mem _ later)⟩
          rw [Std.LawfulEqCmp.compare_eq_iff_eq]
          intro same
          have otherStored := inStore other (List.mem_cons_of_mem _ later)
          have above := ascending.1 other later
          rw [stored.eq_of_hash member otherStored same] at above
          exact lt_irrefl _ above

/-! ### The path of a list -/

/-- `bestGenesis` of a list of blocks. -/
def bestGenesisOf (blocks : List Block) (firstBlockId : Int) : Block :=
  preferredOf (bestTable blocks)
    ((blocks.filter (isGenesisCandidate firstBlockId)).mergeSort byNumberAscending)

/-- The loop from `bestGenesis` for at most `depth` blocks. -/
def bestPathOf (blocks : List Block) (firstBlockId : Int) (depth : Nat) : List Block :=
  followBestChildren (indexByHash blocks) (bestTable blocks).bestChildByHash depth ∅
    (bestGenesisOf blocks firstBlockId)

/-- A genesis candidate of the list. -/
def CandidateOf (blocks : List Block) (firstBlockId : Int) (block : Block) : Prop :=
  block ∈ blocks ∧ block.number = firstBlockId ∧ block.previousBlockId ≤ 0

section PathOfList

variable {blocks : List Block} {firstBlockId : Int}

theorem mem_candidates_iff {block : Block} :
    block ∈ (blocks.filter (isGenesisCandidate firstBlockId)).mergeSort byNumberAscending ↔
      CandidateOf blocks firstBlockId block := by
  rw [List.mem_mergeSort, List.mem_filter, isGenesisCandidate, Bool.and_eq_true,
    decide_eq_true_eq, decide_eq_true_eq]
  exact Iff.rfl

/-- The loop follows the best path from a candidate, and its bound only cuts it. -/
theorem bestPathOf_eq_take (stored : DistinctBlocks blocks) {genesis : Block}
    (rooted : CandidateOf blocks firstBlockId genesis) :
    ∃ best, BestFrom blocks (CandidateOf blocks firstBlockId) best ∧
      bestGenesisOf blocks firstBlockId ∈ blocks ∧
      BestFrom blocks (· = bestGenesisOf blocks firstBlockId) best ∧
      ∀ depth, bestPathOf blocks firstBlockId depth = best.take depth := by
  obtain ⟨chosen, best, fromChosen, optimal, -⟩ :=
    bestFrom_preferredOf (bestTable blocks) stored
      (fun block member => (mem_candidates_iff.mp member).1)
      (List.ne_nil_of_mem (mem_candidates_iff.mpr rooted))
      (fun block member => hasEntry_bestTable stored (mem_candidates_iff.mp member).1)
  have listed : bestGenesisOf blocks firstBlockId ∈ blocks := (mem_candidates_iff.mp chosen).1
  have starts : (· ∈ (blocks.filter (isGenesisCandidate firstBlockId)).mergeSort
      byNumberAscending) = CandidateOf blocks firstBlockId :=
    funext fun block => propext mem_candidates_iff
  rw [starts] at optimal
  refine ⟨best, optimal, listed, fromChosen, ?_⟩
  intro depth
  exact followBestChildren_eq stored depth ∅ _ best listed fromChosen
    (fun _ _ => Std.ExtTreeSet.not_mem_empty)

end PathOfList

/-! ### Stored blocks -/

theorem mem_parseBlockSections {env : Env} {rounds : Nat} {content : Text} {block : Block}
    (member : block ∈ parseBlockSections env rounds content) :
    0 < block.number ∧ block.hash ≠ [] ∧ Text.IsLong block.number := by
  induction rounds generalizing content with
  | zero => cases member
  | succ rounds ih =>
      unfold parseBlockSections at member
      dsimp only at member
      split at member
      · cases member
      · split at member
        · rename_i valid
          rcases List.mem_cons.mp member with rfl | later
          · refine ⟨valid.1, List.length_pos_iff.mp valid.2, ?_⟩
            exact Text.isLong_atol _
          · exact ih later
        · exact ih member

private theorem keepFirstByHash_snoc (blocks : List Block) (block : Block) :
    keepFirstByHash (blocks ++ [block]) =
      if 0 < block.number ∧ (keepFirstByHash blocks).all (fun other => other.hash ≠ block.hash) then
        keepFirstByHash blocks ++ [block]
      else keepFirstByHash blocks := by
  rw [keepFirstByHash, List.foldl_append]
  rfl

theorem keepFirstByHash_sublist (blocks : List Block) :
    (keepFirstByHash blocks).Sublist blocks := by
  induction blocks using List.reverseRecOn with
  | nil => exact List.Sublist.refl _
  | append_singleton earlier last ih =>
      rw [keepFirstByHash_snoc]
      split
      · exact ih.append (List.Sublist.refl _)
      · exact ih.trans (List.sublist_append_left _ _)

theorem keepFirstByHash_nodup (blocks : List Block) :
    ((keepFirstByHash blocks).map Block.hash).Nodup := by
  induction blocks using List.reverseRecOn with
  | nil => exact List.nodup_nil
  | append_singleton earlier last ih =>
      rw [keepFirstByHash_snoc]
      split
      · rename_i kept
        rw [List.map_append, List.nodup_append]
        refine ⟨ih, List.nodup_singleton _, ?_⟩
        intro hash old other new
        obtain ⟨block, member, rfl⟩ := List.mem_map.mp old
        rw [List.mem_singleton.mp new]
        exact of_decide_eq_true (List.all_eq_true.mp kept.2 block member)
      · exact ih

theorem distinct_getStoredBlocks (env : Env) (db : LevelDb) :
    DistinctBlocks (getStoredBlocks env db) := by
  have parsed : ∀ block ∈ getStoredBlocks env db, 0 < block.number ∧ block.hash ≠ [] := by
    intro block member
    have entry := (keepFirstByHash_sublist _).subset member
    obtain ⟨_, -, read⟩ := List.mem_flatMap.mp entry
    obtain ⟨positive, named, -⟩ := mem_parseBlockSections read
    exact ⟨positive, named⟩
  exact ⟨fun block member => (parsed block member).1, fun block member => (parsed block member).2,
    keepFirstByHash_nodup _⟩

/-- A stored block that may start a chain. -/
def StoredGenesis (env : Env) (db : LevelDb) (block : Block) : Prop :=
  block ∈ getStoredBlocks env db ∧ block.number = getFirstBlockId db ∧ block.previousBlockId ≤ 0

/-- A path of stored blocks from a stored genesis block. -/
abbrev StoredPath (env : Env) (db : LevelDb) (path : List Block) : Prop :=
  PathFrom (Edge (getStoredBlocks env db)) (StoredGenesis env db) path

/-- The path that the order on lengths, tips and variants puts first. -/
abbrev StructurallyBest (env : Env) (db : LevelDb) (path : List Block) : Prop :=
  BestFrom (getStoredBlocks env db) (StoredGenesis env db) path

theorem StructurallyBest.unique {env : Env} {db : LevelDb} {left right : List Block}
    (first : StructurallyBest env db left) (second : StructurallyBest env db right) :
    left = right :=
  Optimal.unique VariantPreferred.asymm first second

/-- The rebuild reads the path of the blocks that the database holds. -/
theorem bestPath_eq_bestPathOf {env : Env} {db : LevelDb} {genesis : Block}
    (rooted : StoredGenesis env db genesis) (depth : Nat) :
    bestPath env db depth = bestPathOf (getStoredBlocks env db) (getFirstBlockId db) depth := by
  have present : genesis ∈
      (getStoredBlocks env db).filter (isGenesisCandidate (getFirstBlockId db)) := by
    apply List.mem_filter.mpr
    constructor
    · exact rooted.1
    · simp [isGenesisCandidate, rooted.2.1, rooted.2.2]
  have found : genesisCandidates env db (getStoredBlocks env db) (getFirstBlockId db) =
      ((getStoredBlocks env db).filter (isGenesisCandidate (getFirstBlockId db)),
        indexByHash (getStoredBlocks env db)) := by
    rw [genesisCandidates, if_neg (List.length_pos_of_mem present).ne']
  rw [bestPath, found]
  rfl

/-- The rebuild follows the structurally best path, up to its depth. -/
theorem bestPath_spec {env : Env} {db : LevelDb} {genesis : Block}
    (rooted : StoredGenesis env db genesis) :
    ∃ best, StructurallyBest env db best ∧ ∀ depth, bestPath env db depth = best.take depth := by
  obtain ⟨best, optimal, -, -, followed⟩ :=
    bestPathOf_eq_take (distinct_getStoredBlocks env db) rooted
  apply Exists.intro best
  constructor
  · exact optimal
  · intro depth
    rw [bestPath_eq_bestPathOf rooted, followed]

end Safire
