/-
Runs of wallet calls.

Every call but `write` first copies the key pair of the legacy file into a store
without accounts. What all calls then see is `opened`. A run keeps what it lists
as long as `write` does not come before that copy, replaces no listed key pair,
and no account is created from a key pair whose public key is listed already.
-/

import Safire.Wallet

namespace Safire.Wallet

open Text

/-! ### Sound stores -/

/-- An id of the store: one of the listed ids, or nothing where none is listed. -/
def Named (accounts : List Account) (id : Text) : Prop :=
  accounts = [] ∧ id = [] ∨ id ∈ accounts.map Account.id

/-- Every id finds the account that it names. -/
structure Store.Sound (store : Store) : Prop where
  writable : ∀ account ∈ store.accounts, account.Writable
  distinct : (store.accounts.map Account.id).Nodup
  agree : ∀ account ∈ store.accounts, ∀ other ∈ store.accounts, account.publicKey = other.id →
    account.keys = other.keys
  active : Named store.accounts store.activeId
  creator : Named store.accounts store.creatorId

/-- A sound store, and a legacy key pair that can become an account of an empty one. -/
structure Files.Sound (files : Files) : Prop where
  store : (readWalletStore files).Sound
  legacy : (readWalletStore files).accounts = [] → ∀ pair, readLegacyWallet files = some pair →
    FieldText pair.1 ∧ NameText pair.2

/-- The store that the calls see. -/
def opened (files : Files) : Store :=
  readWalletStore (ensureWalletStore files).2

/-- The accounts keep their ids and keys. -/
def Extends (old new : List Account) : Prop :=
  ∀ account ∈ old, ∃ other ∈ new, other.id = account.id ∧ other.keys = account.keys

variable {accounts old new : List Account} {store : Store} {files : Files} {account : Account}

theorem Extends.refl (accounts : List Account) : Extends accounts accounts :=
  fun account member => ⟨account, member, rfl, rfl⟩

theorem Extends.trans {newest : List Account} (first : Extends old new)
    (second : Extends new newest) : Extends old newest := by
  intro account member
  obtain ⟨other, listed, sameId, sameKeys⟩ := first account member
  obtain ⟨latest, present, latestId, latestKeys⟩ := second other listed
  exact ⟨latest, present, latestId.trans sameId, latestKeys.trans sameKeys⟩

theorem extends_of_subset (subset : old ⊆ new) : Extends old new :=
  fun account member => ⟨account, subset member, rfl, rfl⟩

theorem extends_relabeled (accounts : List Account) :
    Extends accounts (accounts.map Account.relabeled) :=
  fun _ member => ⟨_, List.mem_map_of_mem member, rfl, rfl⟩

theorem ids_relabeled (accounts : List Account) :
    (accounts.map Account.relabeled).map Account.id = accounts.map Account.id := by
  rw [List.map_map]
  rfl

theorem Named.relabeled {id : Text} (named : Named accounts id) :
    Named (accounts.map Account.relabeled) id := by
  unfold Named
  rw [ids_relabeled, List.map_eq_nil_iff]
  exact named

theorem Store.Sound.relabeled {activeId creatorId : Text}
    (sound : Store.Sound ⟨accounts, activeId, creatorId⟩) :
    Store.Sound ⟨accounts.map Account.relabeled, activeId, creatorId⟩ where
  writable := by
    intro account member
    obtain ⟨original, listed, rfl⟩ := List.mem_map.mp member
    exact ⟨(sound.writable original listed).id, (sound.writable original listed).privateKey,
      (sound.writable original listed).publicKey⟩
  distinct := by
    rw [ids_relabeled]
    exact sound.distinct
  agree := by
    intro account member other otherMember same
    obtain ⟨original, listed, rfl⟩ := List.mem_map.mp member
    obtain ⟨otherOriginal, otherListed, rfl⟩ := List.mem_map.mp otherMember
    exact sound.agree original listed otherOriginal otherListed same
  active := sound.active.relabeled
  creator := sound.creator.relabeled

theorem Store.Sound.nameText {id : Text} (sound : store.Sound) (present : store.accounts ≠ [])
    (named : Named store.accounts id) : NameText id := by
  cases named with
  | inl empty => exact absurd empty.1 present
  | inr member =>
      obtain ⟨account, listed, same⟩ := List.mem_map.mp member
      rw [← same]
      exact (sound.writable account listed).id

/-! ### Writing a sound store -/

section Written

variable {activeId creatorId : Text} (sound : Store.Sound ⟨accounts, activeId, creatorId⟩)
variable (present : accounts ≠ [])
include sound present

theorem read_written (files : Files) :
    readWalletStore (writeWalletStore files accounts activeId creatorId) =
      ⟨accounts.map Account.relabeled, activeId, creatorId⟩ :=
  readWalletStore_writeWalletStore sound.writable (sound.nameText present sound.active)
    (sound.nameText present sound.creator) files

theorem sound_written (files : Files) :
    (writeWalletStore files accounts activeId creatorId).Sound where
  store := by
    rw [read_written sound present]
    exact sound.relabeled
  legacy := by
    intro empty
    rw [read_written sound present] at empty
    exact absurd (List.map_eq_nil_iff.mp empty) present

end Written

/-- A store with accounts is seen as it is. -/
theorem ensure_listed (present : (readWalletStore files).accounts ≠ []) :
    ensureWalletStore files = (true, files) := by
  rw [ensureWalletStore, if_pos (List.length_pos_iff.mpr present)]

theorem opened_listed (present : (readWalletStore files).accounts ≠ []) :
    opened files = readWalletStore files := by
  rw [opened, ensure_listed present]

theorem opened_written {activeId creatorId : Text}
    (sound : Store.Sound ⟨accounts, activeId, creatorId⟩) (present : accounts ≠ [])
    (files : Files) : opened (writeWalletStore files accounts activeId creatorId) =
      ⟨accounts.map Account.relabeled, activeId, creatorId⟩ := by
  rw [opened_listed, read_written sound present]
  rw [read_written sound present]
  exact fun empty => present (List.map_eq_nil_iff.mp empty)

/-- The account that a legacy key pair becomes. -/
def mainAccount (pair : Text × Text) : Account :=
  ⟨pair.2, "Main".toList, pair.1, pair.2⟩

theorem sound_single (writable : account.Writable) :
    Store.Sound ⟨[account], account.id, account.id⟩ where
  writable := by
    intro other member
    rw [List.mem_singleton.mp member]
    exact writable
  distinct := List.nodup_singleton _
  agree := by
    intro first member other otherMember _
    rw [List.mem_singleton.mp member, List.mem_singleton.mp otherMember]
  active := .inr List.mem_cons_self
  creator := .inr List.mem_cons_self

/-- The copy of the legacy key pair: nothing is done, or there is nothing to copy,
or the pair becomes the only account. -/
theorem ensure_cases (sound : files.Sound) :
    (readWalletStore files).accounts ≠ [] ∧ ensureWalletStore files = (true, files) ∨
      (readWalletStore files).accounts = [] ∧ readLegacyWallet files = none ∧
        ensureWalletStore files = (false, files) ∨
      (readWalletStore files).accounts = [] ∧ ∃ pair, readLegacyWallet files = some pair ∧
        FieldText pair.1 ∧ NameText pair.2 ∧
        ensureWalletStore files =
          (true, writeWalletStore files [mainAccount pair] pair.2 pair.2) := by
  by_cases empty : (readWalletStore files).accounts = []
  · have none : ¬ 0 < (readWalletStore files).accounts.length := by rw [empty]; decide
    cases legacy : readLegacyWallet files with
    | none => exact .inr (.inl ⟨empty, rfl, by rw [ensureWalletStore, if_neg none, legacy]⟩)
    | some pair =>
        obtain ⟨privateText, publicText⟩ := sound.legacy empty pair legacy
        refine .inr (.inr ⟨empty, pair, rfl, privateText, publicText, ?_⟩)
        rw [ensureWalletStore, if_neg none, legacy]
        rfl
  · exact .inl ⟨empty, ensure_listed empty⟩

/-- The copy leaves sound files, which are seen in the same way. -/
theorem Files.Sound.ensure (sound : files.Sound) :
    (ensureWalletStore files).2.Sound ∧ opened (ensureWalletStore files).2 = opened files := by
  obtain ⟨present, same⟩ | ⟨_, _, same⟩ | ⟨_, pair, _, privateText, publicText, same⟩ :=
    ensure_cases sound
  · rw [same]
    exact ⟨sound, rfl⟩
  · rw [same]
    exact ⟨sound, rfl⟩
  · have single : Store.Sound ⟨[mainAccount pair], pair.2, pair.2⟩ :=
      sound_single ⟨publicText, privateText, publicText⟩
    have present : [mainAccount pair] ≠ [] := List.cons_ne_nil _ _
    rw [same]
    refine ⟨sound_written single present files, ?_⟩
    rw [opened_written single present, Wallet.opened, same, read_written single present]

theorem Files.Sound.opened (sound : files.Sound) : (opened files).Sound :=
  sound.ensure.1.store

/-! ### Adding an account -/

/-- No listed account answers to the public key, and the same public key has the
same private key. -/
def FreshPair (accounts : List Account) (pair : Text × Text) : Prop :=
  ∀ account ∈ accounts, account.id ≠ pair.2 ∧ (account.publicKey = pair.2 → account.keys = pair)

def currentId (activeId newId : Text) : Text :=
  if activeId.length = 0 then newId else activeId

theorem named_append {id : Text} (named : Named accounts id) (created : Account) :
    Named (accounts ++ [created]) (currentId id created.id) := by
  right
  rw [List.map_append, currentId]
  split
  · exact List.mem_append_right _ List.mem_cons_self
  · rename_i given
    cases named with
    | inl empty => exact absurd (List.length_eq_zero_iff.mpr empty.2) given
    | inr member => exact List.mem_append_left _ member

theorem named_defaultId {id : Text} (named : Named old id) (present : accounts ≠ [])
    (within : old.map Account.id ⊆ accounts.map Account.id) :
    Named accounts (defaultId accounts id) := by
  right
  cases accounts with
  | nil => exact absurd rfl present
  | cons first rest =>
      rw [defaultId]
      split
      · exact List.mem_cons_self
      · rename_i given
        cases named with
        | inl empty => exact absurd (List.length_eq_zero_iff.mpr empty.2) given
        | inr member => exact within member

theorem Store.Sound.add {pair : Text × Text} (sound : store.Sound) (label : Text)
    (privateText : FieldText pair.1) (publicText : NameText pair.2)
    (fresh : FreshPair store.accounts pair) :
    Store.Sound ⟨store.accounts ++ [⟨pair.2, label, pair.1, pair.2⟩],
      currentId store.activeId pair.2,
      defaultId (store.accounts ++ [⟨pair.2, label, pair.1, pair.2⟩]) store.creatorId⟩ where
  writable := by
    intro account member
    cases List.mem_append.mp member with
    | inl listed => exact sound.writable account listed
    | inr created =>
        rw [List.mem_singleton.mp created]
        exact ⟨publicText, privateText, publicText⟩
  distinct := by
    rw [List.map_append, List.nodup_append]
    refine ⟨sound.distinct, List.nodup_singleton _, ?_⟩
    intro id listed other created same
    obtain ⟨account, member, rfl⟩ := List.mem_map.mp listed
    rw [List.mem_singleton.mp created] at same
    exact (fresh account member).1 same
  agree := by
    intro account member other otherMember same
    cases List.mem_append.mp member with
    | inl listed =>
        cases List.mem_append.mp otherMember with
        | inl otherListed => exact sound.agree account listed other otherListed same
        | inr created =>
            rw [List.mem_singleton.mp created] at same ⊢
            exact (fresh account listed).2 same
    | inr created =>
        cases List.mem_append.mp otherMember with
        | inl otherListed =>
            rw [List.mem_singleton.mp created] at same
            exact absurd same.symm (fresh other otherListed).1
        | inr otherCreated =>
            rw [List.mem_singleton.mp created, List.mem_singleton.mp otherCreated]
  active := named_append sound.active ⟨pair.2, label, pair.1, pair.2⟩
  creator := by
    apply named_defaultId sound.creator
    · exact List.append_ne_nil_of_right_ne_nil _ (List.cons_ne_nil _ _)
    · rw [List.map_append]
      exact List.subset_append_left _ _

/-! ### The calls keep the accounts -/

/-- What a call leaves behind. -/
structure Keeps (files after : Files) : Prop where
  sound : after.Sound
  accounts : Extends (opened files).accounts (opened after).accounts

/-- An account that the call made is listed with its keys. -/
def Lists (after : Files) (pair : Text × Text) : Prop :=
  ∃ account ∈ (opened after).accounts, account.id = pair.2 ∧ account.keys = pair

section Written

variable {activeId creatorId : Text} (written : Store.Sound ⟨accounts, activeId, creatorId⟩)
variable (present : accounts ≠ [])
include written present

theorem keeps_written (within : Extends (opened files).accounts accounts) (other : Files) :
    Keeps files (writeWalletStore other accounts activeId creatorId) where
  sound := sound_written written present other
  accounts := by
    rw [opened_written written present]
    exact within.trans (extends_relabeled _)

theorem lists_written {pair : Text × Text} (member : account ∈ accounts)
    (named : account.id = pair.2 ∧ account.keys = pair) (other : Files) :
    Lists (writeWalletStore other accounts activeId creatorId) pair := by
  unfold Lists
  rw [opened_written written present]
  exact ⟨account.relabeled, List.mem_map_of_mem member, named⟩

end Written

theorem keeps_ensure (sound : files.Sound) : Keeps files (ensureWalletStore files).2 where
  sound := sound.ensure.1
  accounts := by
    rw [sound.ensure.2]
    exact Extends.refl _

theorem createAccount_eq (generator : KeyGenerator) (files : Files) (label : Text) (second : Int) :
    (createAccount generator files label second).2 =
      writeWalletStore (ensureWalletStore files).2
        ((opened files).accounts ++ [⟨(generator.pairAt second).2, safeLabel label,
          (generator.pairAt second).1, (generator.pairAt second).2⟩])
        (currentId (opened files).activeId (generator.pairAt second).2)
        (defaultId ((opened files).accounts ++ [⟨(generator.pairAt second).2, safeLabel label,
          (generator.pairAt second).1, (generator.pairAt second).2⟩]) (opened files).creatorId) :=
  rfl

theorem keeps_createAccount {generator : KeyGenerator} {second : Int} (sound : files.Sound)
    (privateText : FieldText (generator.pairAt second).1)
    (publicText : NameText (generator.pairAt second).2)
    (fresh : FreshPair (opened files).accounts (generator.pairAt second)) (label : Text) :
    Keeps files (createAccount generator files label second).2 ∧
      Lists (createAccount generator files label second).2 (generator.pairAt second) := by
  have added := sound.opened.add (safeLabel label) privateText publicText fresh
  have present := List.append_ne_nil_of_right_ne_nil (opened files).accounts
    (List.cons_ne_nil (⟨(generator.pairAt second).2, safeLabel label,
      (generator.pairAt second).1, (generator.pairAt second).2⟩ : Account) [])
  rw [createAccount_eq]
  constructor
  · exact keeps_written added present (extends_of_subset (List.subset_append_left _ _)) _
  · exact lists_written added present (List.mem_append_right _ List.mem_cons_self) ⟨rfl, rfl⟩ _

/-- A `write` that loses nothing: the store lists an account, or the legacy file has
no key pair but the written one, and an account that answers to the public key is
the written pair already. -/
structure WriteMeets (files : Files) (pair : Text × Text) : Prop where
  privateText : FieldText pair.1
  publicText : NameText pair.2
  copied : (readWalletStore files).accounts = [] → ∀ legacy, readLegacyWallet files = some legacy →
    legacy = pair
  held : ∀ account ∈ (readWalletStore files).accounts,
    account.id = pair.2 ∨ account.publicKey = pair.2 → account.id = pair.2 ∧ account.keys = pair

/-- The accounts of `write` where no listed account changes. -/
theorem updated_eq {privateKey publicKey : Text}
    (held : ∀ account ∈ accounts, account.publicKey = publicKey →
      account.id = publicKey ∧ account.keys = (privateKey, publicKey)) :
    accounts.map (fun account =>
      if account.publicKey = publicKey then
        { account with privateKey := privateKey, id := publicKey }
      else account) = accounts := by
  have unchanged : ∀ account ∈ accounts, (if account.publicKey = publicKey then
      { account with privateKey := privateKey, id := publicKey } else account) = id account := by
    intro account member
    split
    · rename_i same
      obtain ⟨sameId, sameKeys⟩ := held account member same
      have samePrivate : account.privateKey = privateKey := congrArg Prod.fst sameKeys
      rw [← samePrivate, ← sameId]
      rfl
    · rfl
  rw [List.map_congr_left unchanged, List.map_id]

section Write

variable {pair : Text × Text} (meets : WriteMeets files pair)
include meets

theorem write_held (found : ∃ account ∈ (readWalletStore files).accounts, account.publicKey = pair.2) :
    write files pair.1 pair.2 =
      writeWalletStore (writeLegacyWallet files pair.1 pair.2) (readWalletStore files).accounts
        (currentId (readWalletStore files).activeId pair.2)
        (defaultId (readWalletStore files).accounts (readWalletStore files).creatorId) := by
  have same := updated_eq fun account member answers => meets.held account member (.inr answers)
  have stored : readWalletStore (writeLegacyWallet files pair.1 pair.2) = readWalletStore files := rfl
  have any : (readWalletStore files).accounts.any (fun account => account.publicKey = pair.2) =
      true := by simpa using found
  unfold write
  dsimp only
  rw [stored, same, any, if_pos rfl]
  rfl

theorem write_added (missing : ¬ ∃ account ∈ (readWalletStore files).accounts,
      account.publicKey = pair.2) : ∃ label, write files pair.1 pair.2 =
      writeWalletStore (writeLegacyWallet files pair.1 pair.2)
        ((readWalletStore files).accounts ++ [⟨pair.2, label, pair.1, pair.2⟩])
        (currentId (readWalletStore files).activeId pair.2)
        (defaultId ((readWalletStore files).accounts ++ [⟨pair.2, label, pair.1, pair.2⟩])
          (readWalletStore files).creatorId) := by
  have same := updated_eq fun account member answers => meets.held account member (.inr answers)
  have stored : readWalletStore (writeLegacyWallet files pair.1 pair.2) = readWalletStore files := rfl
  have any : (readWalletStore files).accounts.any (fun account => account.publicKey = pair.2) =
      false := by simpa using missing
  unfold write
  dsimp only
  rw [stored, same, any, if_neg (by decide)]
  exact ⟨_, rfl⟩

/-- What was seen before is in the raw store, or is the written pair itself. -/
theorem extends_raw (sound : files.Sound)
    (within : Extends (readWalletStore files).accounts accounts)
    (listed : ∃ account ∈ accounts, account.id = pair.2 ∧ account.keys = pair) :
    Extends (opened files).accounts accounts := by
  obtain ⟨present, same⟩ | ⟨empty, none, same⟩ | ⟨empty, legacy, read, privateText, publicText, same⟩ :=
    ensure_cases sound
  · rw [opened, same]
    exact within
  · rw [opened, same]
    exact within
  · have copied : legacy = pair := meets.copied empty legacy read
    have single : Store.Sound ⟨[mainAccount legacy], legacy.2, legacy.2⟩ :=
      sound_single ⟨publicText, privateText, publicText⟩
    rw [opened, same, read_written single (List.cons_ne_nil _ _)]
    intro account member
    rw [List.mem_singleton.mp member]
    obtain ⟨other, otherListed, sameId, sameKeys⟩ := listed
    rw [← copied] at sameId sameKeys
    exact ⟨other, otherListed, sameId, sameKeys⟩

theorem keeps_write (sound : files.Sound) :
    Keeps files (write files pair.1 pair.2) ∧ Lists (write files pair.1 pair.2) pair := by
  by_cases found : ∃ account ∈ (readWalletStore files).accounts, account.publicKey = pair.2
  · obtain ⟨account, listed, answers⟩ := found
    have known := meets.held account listed (.inr answers)
    have present : (readWalletStore files).accounts ≠ [] := List.ne_nil_of_mem listed
    have active : Named (readWalletStore files).accounts
        (currentId (readWalletStore files).activeId pair.2) := by
      rw [currentId]
      split
      · right
        rw [← known.1]
        exact List.mem_map_of_mem listed
      · exact sound.store.active
    have kept : Store.Sound ⟨(readWalletStore files).accounts,
        currentId (readWalletStore files).activeId pair.2,
        defaultId (readWalletStore files).accounts (readWalletStore files).creatorId⟩ :=
      ⟨sound.store.writable, sound.store.distinct, sound.store.agree, active,
        named_defaultId sound.store.creator present (List.Subset.refl _)⟩
    rw [write_held meets ⟨account, listed, answers⟩]
    constructor
    · apply keeps_written kept present
      exact extends_raw meets sound (Extends.refl _) ⟨account, listed, known⟩
    · exact lists_written kept present listed known _
  · have fresh : FreshPair (readWalletStore files).accounts pair := by
      intro account listed
      constructor
      · intro same
        exact found ⟨account, listed, congrArg Prod.snd (meets.held account listed (.inl same)).2⟩
      · intro same
        exact absurd ⟨account, listed, same⟩ found
    obtain ⟨label, written⟩ := write_added meets found
    have added := sound.store.add label meets.privateText meets.publicText fresh
    have present := List.append_ne_nil_of_right_ne_nil (readWalletStore files).accounts
      (List.cons_ne_nil (⟨pair.2, label, pair.1, pair.2⟩ : Account) [])
    have last : (⟨pair.2, label, pair.1, pair.2⟩ : Account) ∈ (readWalletStore files).accounts ++
        [⟨pair.2, label, pair.1, pair.2⟩] := List.mem_append_right _ List.mem_cons_self
    rw [written]
    constructor
    · apply keeps_written added present
      exact extends_raw meets sound (extends_of_subset (List.subset_append_left _ _))
        ⟨_, last, rfl, rfl⟩
    · exact lists_written added present last ⟨rfl, rfl⟩ _

end Write

/-! ### Choosing an account -/

theorem keeps_setActiveAccount (sound : files.Sound) (id : Text) :
    Keeps files (setActiveAccount files id).2 := by
  unfold setActiveAccount
  dsimp only
  cases chosen : (readWalletStore (ensureWalletStore files).2).accounts.find? (·.named id) with
  | none => exact keeps_ensure sound
  | some account =>
      have listed := List.mem_of_find?_eq_some chosen
      have present := List.ne_nil_of_mem listed
      have store := sound.opened
      have kept : Store.Sound ⟨(opened files).accounts, account.id,
          defaultId (opened files).accounts (opened files).creatorId⟩ :=
        ⟨store.writable, store.distinct, store.agree, .inr (List.mem_map_of_mem listed),
          named_defaultId store.creator present (List.Subset.refl _)⟩
      exact keeps_written kept present (Extends.refl _) _

theorem keeps_setCreatorAccount (sound : files.Sound) (id : Text) :
    Keeps files (setCreatorAccount files id).2 := by
  unfold setCreatorAccount
  dsimp only
  cases chosen : (readWalletStore (ensureWalletStore files).2).accounts.find? (·.named id) with
  | none => exact keeps_ensure sound
  | some account =>
      have listed := List.mem_of_find?_eq_some chosen
      have present := List.ne_nil_of_mem listed
      have store := sound.opened
      have kept : Store.Sound ⟨(opened files).accounts, (opened files).activeId, account.id⟩ :=
        ⟨store.writable, store.distinct, store.agree, store.active,
          .inr (List.mem_map_of_mem listed)⟩
      exact keeps_written kept present (Extends.refl _) _

/-! ### Reading keys -/

/-- An id finds the account that it names. -/
theorem find_named (sound : store.Sound) (member : account ∈ store.accounts) :
    (store.accounts.find? (·.named account.id)).map Account.keys = some account.keys := by
  cases found : store.accounts.find? (·.named account.id) with
  | none =>
      have unnamed := List.find?_eq_none.mp found account member
      simp [Account.named] at unnamed
  | some other =>
      have listed := List.mem_of_find?_eq_some found
      have named : (other.named account.id) = true := List.find?_some found
      rw [Account.named, Bool.or_eq_true, decide_eq_true_eq, decide_eq_true_eq] at named
      rw [Option.map_some, Option.some_inj]
      cases named with
      | inl sameId => rw [List.inj_on_of_nodup_map sound.distinct listed member sameId]
      | inr sameKey => exact sound.agree other listed account member sameKey

theorem readAccount_listed (sound : files.Sound) (member : account ∈ (opened files).accounts) :
    (readAccount files account.id).1 = some account.keys := by
  have present : ¬ account.id.length = 0 :=
    fun none => (sound.opened.writable account member).id.1.1 (List.length_eq_zero_iff.mp none)
  unfold readAccount
  dsimp only
  rw [if_neg present]
  exact find_named sound.opened member

/-- The calls that hand out a key pair. -/
inductive Readable (files : Files) (pair : Text × Text) : Prop where
  | read (found : (read files).1 = some pair)
  | creator (found : (readCreatorAccount files).1 = some pair)
  | account (id : Text) (found : (readAccount files id).1 = some pair)
  | listed (member : pair ∈ (listAccounts files).1.map Account.keys)

theorem listed_of_readAccount {id : Text} {pair : Text × Text}
    (found : (readAccount files id).1 = some pair) :
    pair ∈ (opened files).accounts.map Account.keys := by
  obtain ⟨account, chosen, same⟩ := Option.map_eq_some_iff.mp found
  rw [← same]
  exact List.mem_map_of_mem (List.mem_of_find?_eq_some chosen)

/-- Every key pair that can be read is listed. -/
theorem Readable.listed_keys {pair : Text × Text} (sound : files.Sound)
    (readable : Readable files pair) : pair ∈ (opened files).accounts.map Account.keys := by
  have copied : ∀ {id : Text}, (readAccount (ensureWalletStore (ensureWalletStore files).2).2 id).1 =
      some pair → pair ∈ (opened files).accounts.map Account.keys := by
    intro id found
    have seen := listed_of_readAccount found
    rwa [sound.ensure.1.ensure.2, sound.ensure.2] at seen
  cases readable with
  | read found =>
      obtain ⟨_, same⟩ | ⟨_, none, same⟩ | ⟨_, _, _, _, _, same⟩ := ensure_cases sound
      · rw [Wallet.read, same] at found
        rw [same] at copied
        exact copied found
      · rw [Wallet.read, same] at found
        exact absurd (none.symm.trans found) (Option.some_ne_none pair).symm
      · rw [Wallet.read, same] at found
        rw [same] at copied
        exact copied found
  | creator found =>
      obtain ⟨_, same⟩ | ⟨_, none, same⟩ | ⟨_, _, _, _, _, same⟩ := ensure_cases sound
      · rw [readCreatorAccount, same] at found
        rw [same] at copied
        exact copied found
      · rw [readCreatorAccount, same] at found
        exact absurd (none.symm.trans found) (Option.some_ne_none pair).symm
      · rw [readCreatorAccount, same] at found
        rw [same] at copied
        exact copied found
  | account id found => exact listed_of_readAccount found
  | listed member => exact member

/-! ### Runs -/

inductive Call where
  | write (privateKey publicKey : Text)
  | read
  | createAccount (label : Text) (second : Int)
  | setActiveAccount (id : Text)
  | setCreatorAccount (id : Text)

variable {generator : KeyGenerator}

def Call.apply (generator : KeyGenerator) (files : Files) : Call → Files
  | .write privateKey publicKey => Wallet.write files privateKey publicKey
  | .read => (Wallet.read files).2
  | .createAccount label second => (Wallet.createAccount generator files label second).2
  | .setActiveAccount id => (Wallet.setActiveAccount files id).2
  | .setCreatorAccount id => (Wallet.setCreatorAccount files id).2

/-- The key pair that a call adds to the wallet, under its public key. -/
def Call.creates (generator : KeyGenerator) : Call → Option (Text × Text)
  | .write privateKey publicKey => some (privateKey, publicKey)
  | .createAccount _ second => some (generator.pairAt second)
  | _ => none

/-- What a call must find to lose nothing. -/
def Call.Meets (generator : KeyGenerator) (files : Files) : Call → Prop
  | .write privateKey publicKey => WriteMeets files (privateKey, publicKey)
  | .createAccount _ second => FreshPair (opened files).accounts (generator.pairAt second)
  | _ => True

def run (generator : KeyGenerator) (files : Files) (calls : List Call) : Files :=
  calls.foldl (Call.apply generator) files

def RunMeets (generator : KeyGenerator) : Files → List Call → Prop
  | _, [] => True
  | files, call :: rest =>
      call.Meets generator files ∧ RunMeets generator (call.apply generator files) rest

/-- The generated keys are texts that the store keeps apart. -/
def GeneratesKeys (generator : KeyGenerator) : Prop :=
  ∀ second, FieldText (generator.pairAt second).1 ∧ NameText (generator.pairAt second).2

theorem ensure_twice (sound : files.Sound) :
    ensureWalletStore (ensureWalletStore files).2 = ensureWalletStore files := by
  obtain ⟨_, same⟩ | ⟨_, _, same⟩ | ⟨_, pair, _, privateText, publicText, same⟩ :=
    ensure_cases sound
  · rw [same]
    exact same
  · rw [same]
    exact same
  · have single : Store.Sound ⟨[mainAccount pair], pair.2, pair.2⟩ :=
      sound_single ⟨publicText, privateText, publicText⟩
    rw [same]
    apply ensure_listed
    rw [read_written single (List.cons_ne_nil _ _)]
    exact List.cons_ne_nil _ _

/-- `read` does nothing to the files but copy the legacy key pair. -/
theorem read_files (sound : files.Sound) : (read files).2 = (ensureWalletStore files).2 := by
  have twice := ensure_twice sound
  unfold read
  dsimp only
  split
  · rfl
  · unfold readAccount activeAccountId
    dsimp only
    rw [twice, twice]

theorem Call.keeps (sound : files.Sound) (generates : GeneratesKeys generator) {call : Call}
    (meets : call.Meets generator files) : Keeps files (call.apply generator files) := by
  cases call with
  | write privateKey publicKey => exact (keeps_write meets sound).1
  | read =>
      rw [Call.apply, read_files sound]
      exact keeps_ensure sound
  | createAccount label second =>
      exact (keeps_createAccount sound (generates second).1 (generates second).2 meets label).1
  | setActiveAccount id => exact keeps_setActiveAccount sound id
  | setCreatorAccount id => exact keeps_setCreatorAccount sound id

theorem Call.lists (sound : files.Sound) (generates : GeneratesKeys generator) {call : Call}
    (meets : call.Meets generator files) {pair : Text × Text}
    (creates : call.creates generator = some pair) : Lists (call.apply generator files) pair := by
  cases call with
  | write privateKey publicKey =>
      rw [← Option.some.inj creates]
      exact (keeps_write meets sound).2
  | createAccount label second =>
      rw [← Option.some.inj creates]
      exact (keeps_createAccount sound (generates second).1 (generates second).2 meets label).2
  | read => cases creates
  | setActiveAccount id => cases creates
  | setCreatorAccount id => cases creates

theorem Keeps.refl (sound : files.Sound) : Keeps files files :=
  ⟨sound, Extends.refl _⟩

theorem Keeps.trans {middle last : Files} (first : Keeps files middle) (later : Keeps middle last) :
    Keeps files last :=
  ⟨later.sound, first.accounts.trans later.accounts⟩

/-- A run keeps what its calls keep. -/
theorem keeps_run (generates : GeneratesKeys generator) {calls : List Call} (sound : files.Sound)
    (meets : RunMeets generator files calls) : Keeps files (run generator files calls) := by
  induction calls generalizing files with
  | nil => exact Keeps.refl sound
  | cons call rest ih =>
      have step := Call.keeps sound generates meets.1
      exact step.trans (ih step.sound meets.2)

theorem runMeets_append {before after : List Call} :
    RunMeets generator files (before ++ after) ↔
      RunMeets generator files before ∧
        RunMeets generator (run generator files before) after := by
  induction before generalizing files with
  | nil => exact Iff.of_eq (true_and _).symm
  | cons call rest ih =>
      rw [List.cons_append, RunMeets, RunMeets, ih, and_assoc]
      rfl

theorem run_append (generator : KeyGenerator) (files : Files) (before after : List Call) :
    run generator files (before ++ after) = run generator (run generator files before) after :=
  List.foldl_append

/-! ### Nothing is lost -/

/-- The ids of the wallet are apart and include the active and the creator id. -/
structure WellNamed (files : Files) : Prop where
  distinct : ((listAccounts files).1.map Account.id).Nodup
  active : (listAccounts files).1 ≠ [] →
    (activeAccountId files).1 ∈ (listAccounts files).1.map Account.id
  creator : (listAccounts files).1 ≠ [] →
    (creatorAccountId files).1 ∈ (listAccounts files).1.map Account.id

theorem Named.listed {id : Text} (named : Named accounts id) (present : accounts ≠ []) :
    id ∈ accounts.map Account.id :=
  named.resolve_left fun empty => present empty.1

theorem wellNamed_of_sound (sound : files.Sound) : WellNamed files where
  distinct := sound.opened.distinct
  active := sound.opened.active.listed
  creator := sound.opened.creator.listed

/-- In a run whose calls meet their condition the files stay well named, every key
pair that could be read is still listed, every listed id still reads its keys,
and so does the public key of every pair that a call created. -/
theorem wallet_keeps_keys (generates : GeneratesKeys generator) {start : Files}
    (sound : start.Sound) {before after : List Call}
    (meets : RunMeets generator start (before ++ after)) :
    WellNamed (run generator start (before ++ after)) ∧
      (∀ pair, Readable (run generator start before) pair →
        pair ∈ (listAccounts (run generator start (before ++ after))).1.map Account.keys) ∧
      (∀ account ∈ (listAccounts (run generator start before)).1,
        (readAccount (run generator start (before ++ after)) account.id).1 = some account.keys) ∧
      ∀ call rest pair, after = call :: rest → call.creates generator = some pair →
        (readAccount (run generator start (before ++ after)) pair.2).1 = some pair := by
  obtain ⟨meetsBefore, meetsAfter⟩ := runMeets_append.mp meets
  have reached := keeps_run generates sound meetsBefore
  have kept := keeps_run generates reached.sound meetsAfter
  have reads : ∀ {middle : Files}, Keeps middle (run generator start (before ++ after)) →
      ∀ account ∈ (opened middle).accounts,
        (readAccount (run generator start (before ++ after)) account.id).1 = some account.keys := by
    intro middle later account member
    obtain ⟨other, listed, sameId, sameKeys⟩ := later.accounts account member
    rw [← sameId, ← sameKeys]
    exact readAccount_listed later.sound listed
  rw [run_append] at reads ⊢
  refine ⟨wellNamed_of_sound kept.sound, ?_, fun account member => reads kept account member, ?_⟩
  · intro pair readable
    obtain ⟨account, member, same⟩ := List.mem_map.mp (readable.listed_keys reached.sound)
    obtain ⟨other, listed, -, sameKeys⟩ := kept.accounts account member
    rw [← same, ← sameKeys]
    exact List.mem_map_of_mem listed
  · intro call rest pair split creates
    subst split
    have step := Call.keeps reached.sound generates meetsAfter.1
    obtain ⟨account, listed, sameId, sameKeys⟩ :=
      Call.lists reached.sound generates meetsAfter.1 creates
    have later : Keeps (call.apply generator (run generator start before))
        (run generator (run generator start before) (call :: rest)) :=
      keeps_run generates step.sound meetsAfter.2
    rw [← sameId, ← sameKeys]
    exact reads later account listed

/-! ### Keys of three seconds -/

namespace Sample

def oldPair : Text × Text :=
  ("e4c68b82fca3f6cba0dfe085bdeab0f3e4f1556fd3735fe64b1086968a3b3035".toList,
    "03B8530A3E4A6187D81B5C3D66182B8F7F02E4E6BA7C83E43FE46D6829A106EAB8".toList)

def savingsPair : Text × Text :=
  ("e0fb1e4556fdc5a54a8fc0b71c7bd63d5a6cf4540f36806984863a016a919b1a".toList,
    "021F275EF973BB499A5AC6B387F0B9CB1DC9DECFDB604BEE504C538B4AB1BF0F94".toList)

def tradingPair : Text × Text :=
  ("8f1233752f455945aae1ff5368712e20d65107af4f45011bc557ba57feca7b38".toList,
    "02A8ACD3287263B2A883589E6B5634917D79FF262319FE4221C11F58FADABC22FC".toList)

def threeSeconds : KeyGenerator where
  randomPrivateKey second :=
    if second = 1700000000 then oldPair.1
    else if second = 1700000001 then savingsPair.1
    else tradingPair.1
  getPublicKey privateKey :=
    if privateKey = oldPair.1 then oldPair.2
    else if privateKey = savingsPair.1 then savingsPair.2
    else tradingPair.2

/-- A legacy wallet of the first second, without a store. -/
def legacyFiles : Files :=
  writeLegacyWallet ⟨none, none⟩ oldPair.1 oldPair.2

/-- The legacy key pair is copied before two accounts are created in two seconds. -/
def walletCalls : List Call :=
  [.createAccount "Savings".toList 1700000001, .read,
    .createAccount "Trading".toList 1700000002, .setActiveAccount savingsPair.2]

theorem wallet_checks :
    (∀ pair ∈ [oldPair, savingsPair, tradingPair],
      (pair.1 ≠ [] ∧ '\t' ∉ pair.1 ∧ '\n' ∉ pair.1) ∧
        (pair.2 ≠ [] ∧ '\t' ∉ pair.2 ∧ '\n' ∉ pair.2) ∧ trim pair.2 = pair.2) ∧
      (threeSeconds.pairAt 1700000000 = oldPair ∧ threeSeconds.pairAt 1700000001 = savingsPair ∧
        threeSeconds.pairAt 1700000002 = tradingPair) ∧
      readLegacyWallet legacyFiles = some oldPair ∧
      (opened legacyFiles).accounts.map (fun account => (account.id, account.publicKey)) =
        [(oldPair.2, oldPair.2)] ∧
      (opened (run threeSeconds legacyFiles (walletCalls.take 2))).accounts.map
          (fun account => (account.id, account.publicKey)) =
        [(oldPair.2, oldPair.2), (savingsPair.2, savingsPair.2)] := by
  refine ⟨?_, ?_, ?_, ?_, ?_⟩ <;> decide +kernel

theorem pairs_text : ∀ pair ∈ [oldPair, savingsPair, tradingPair],
    (pair.1 ≠ [] ∧ '\t' ∉ pair.1 ∧ '\n' ∉ pair.1) ∧
      (pair.2 ≠ [] ∧ '\t' ∉ pair.2 ∧ '\n' ∉ pair.2) ∧ trim pair.2 = pair.2 :=
  wallet_checks.1

theorem pairAt_cases : threeSeconds.pairAt 1700000000 = oldPair ∧
    threeSeconds.pairAt 1700000001 = savingsPair ∧
    threeSeconds.pairAt 1700000002 = tradingPair :=
  wallet_checks.2.1

theorem pairAt_listed (second : Int) :
    threeSeconds.pairAt second ∈ [oldPair, savingsPair, tradingPair] := by
  obtain ⟨first, next, last⟩ := pairAt_cases
  by_cases isFirst : second = 1700000000
  · rw [isFirst, first]
    exact List.mem_cons_self
  · by_cases isNext : second = 1700000001
    · rw [isNext, next]
      exact List.mem_cons_of_mem _ List.mem_cons_self
    · have drawn : threeSeconds.randomPrivateKey second = threeSeconds.randomPrivateKey 1700000002 :=
        (if_neg isFirst).trans (if_neg isNext)
      rw [KeyGenerator.pairAt, drawn, ← KeyGenerator.pairAt, last]
      exact List.mem_cons_of_mem _ (List.mem_cons_of_mem _ List.mem_cons_self)

theorem generatesKeys : GeneratesKeys threeSeconds := by
  intro second
  obtain ⟨privateText, publicText, trimmed⟩ := pairs_text _ (pairAt_listed second)
  exact ⟨privateText, publicText, trimmed⟩

theorem read_legacyFiles : readLegacyWallet legacyFiles = some oldPair :=
  wallet_checks.2.2.1

theorem sound_legacyFiles : legacyFiles.Sound where
  store := by
    refine ⟨?_, List.nodup_nil, ?_, .inl ⟨rfl, rfl⟩, .inl ⟨rfl, rfl⟩⟩
    · intro account member
      cases member
    · intro account member
      cases member
  legacy := by
    intro _ pair read
    obtain ⟨privateText, publicText, trimmed⟩ := pairs_text oldPair List.mem_cons_self
    rw [← Option.some.inj (read_legacyFiles.symm.trans read)]
    exact ⟨privateText, publicText, trimmed⟩

theorem fresh_walletCalls :
    (opened legacyFiles).accounts.map (fun account => (account.id, account.publicKey)) =
        [(oldPair.2, oldPair.2)] ∧
      (opened (run threeSeconds legacyFiles (walletCalls.take 2))).accounts.map
          (fun account => (account.id, account.publicKey)) =
        [(oldPair.2, oldPair.2), (savingsPair.2, savingsPair.2)] :=
  wallet_checks.2.2.2

theorem freshPair_of_names {pair : Text × Text}
    (apart : ∀ name ∈ accounts.map (fun account => (account.id, account.publicKey)),
      name.1 ≠ pair.2 ∧ name.2 ≠ pair.2) : FreshPair accounts pair := by
  intro account member
  have names := apart _ (List.mem_map_of_mem member)
  exact ⟨names.1, fun same => absurd same names.2⟩

theorem meets_walletCalls : RunMeets threeSeconds legacyFiles walletCalls := by
  obtain ⟨before, between⟩ := fresh_walletCalls
  obtain ⟨-, savings, trading⟩ := pairAt_cases
  refine ⟨?_, trivial, ?_, trivial, trivial⟩
  · apply freshPair_of_names
    rw [before, savings]
    decide +kernel
  · apply freshPair_of_names
    change ∀ name ∈ (opened (run threeSeconds legacyFiles (walletCalls.take 2))).accounts.map _, _
    rw [between, trading]
    decide +kernel

/-- The legacy key pair and the first new one outlive the run. -/
theorem walletCalls_kept : WellNamed (run threeSeconds legacyFiles walletCalls) ∧
    (readAccount (run threeSeconds legacyFiles walletCalls) savingsPair.2).1 = some savingsPair := by
  have kept := @wallet_keeps_keys threeSeconds generatesKeys legacyFiles sound_legacyFiles []
    walletCalls meets_walletCalls
  refine ⟨kept.1, ?_⟩
  have created := kept.2.2.2 _ _ (threeSeconds.pairAt 1700000001) rfl rfl
  rwa [pairAt_cases.2.1] at created

/-- Two accounts of one second share their id, and a first `write` in front of the
copy loses the legacy key pair. -/
theorem second_shared_and_legacy_lost :
    ¬ WellNamed (run threeSeconds ⟨none, none⟩ [.createAccount "Savings".toList 1700000000,
        .createAccount "Trading".toList 1700000000]) ∧
      Readable legacyFiles oldPair ∧
      oldPair ∉ (listAccounts (run threeSeconds legacyFiles
        [.write savingsPair.1 savingsPair.2])).1.map Account.keys := by
  have shared : ¬ ((listAccounts (run threeSeconds ⟨none, none⟩
      [.createAccount "Savings".toList 1700000000,
        .createAccount "Trading".toList 1700000000])).1.map Account.id).Nodup := by
    decide +kernel
  have known : (read legacyFiles).1 = some oldPair := by decide +kernel
  have lost : oldPair ∉ (listAccounts (run threeSeconds legacyFiles
      [.write savingsPair.1 savingsPair.2])).1.map Account.keys := by
    decide +kernel
  exact ⟨fun named => shared named.distinct, .read known, lost⟩

end Sample

end Safire.Wallet
