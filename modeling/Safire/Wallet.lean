/-
`CWallet`: the legacy file with one key pair and the store with all accounts.

A file is its content, or `none` where it does not exist, and writing a file never
fails. The private key of a clock second and the public key of a private key are
what the code calls but does not define.
-/

import Safire.Text

namespace Safire.Wallet

open Text

/-! ### Labels and accounts -/

structure Account where
  id : Text
  label : Text
  privateKey : Text
  publicKey : Text
  deriving DecidableEq

def Account.keys (account : Account) : Text × Text :=
  (account.privateKey, account.publicKey)

def safeLabel (label : Text) : Text :=
  let cleaned := (trim label).map
    (fun byte => if byte = '\t' ∨ byte = '\n' ∨ byte = '\r' then ' ' else byte)
  if cleaned.length = 0 then "Account".toList else cleaned

def splitTabs (line : Text) : List Text :=
  getlines '\t' line

/-! ### The files -/

structure Files where
  legacy : Option Text
  store : Option Text

/-- The rest of the line behind the first occurrence of the tag. -/
def legacyValue (walletContent tag : Text) : Option Text :=
  (find walletContent tag 0).map (fun start =>
    let stop := (find walletContent ['\n'] start).getD walletContent.length
    substr walletContent (start + tag.length) (stop - start - tag.length))

def readLegacyWallet (files : Files) : Option (Text × Text) :=
  match files.legacy with
  | none => none
  | some walletContent =>
      match legacyValue walletContent "private:".toList,
          legacyValue walletContent "public:".toList with
      | some privateKey, some publicKey =>
          if 0 < privateKey.length ∧ 0 < publicKey.length then some (privateKey, publicKey)
          else none
      | _, _ => none

def writeLegacyWallet (files : Files) (privateKey publicKey : Text) : Files :=
  { files with
    legacy := some ("private:".toList ++ privateKey ++ "\n".toList ++
      "public:".toList ++ publicKey ++ "\n".toList) }

/-- What `readWalletStore` returns through its parameters. -/
structure Store where
  accounts : List Account
  activeId : Text
  creatorId : Text

def Store.empty : Store :=
  ⟨[], [], []⟩

def readAccountLine (store : Store) (line : Text) : Store :=
  match splitTabs line with
  | _ :: id :: label :: privateKey :: publicKey :: _ =>
      let account : Account :=
        ⟨if id.length = 0 then publicKey else id, label, privateKey, publicKey⟩
      if 0 < account.publicKey.length ∧ 0 < account.privateKey.length then
        { store with accounts := store.accounts ++ [account] }
      else store
  | _ => store

def readStoreLine (store : Store) (line : Text) : Store :=
  if find line "active:".toList 0 = some 0 then { store with activeId := trim (line.drop 7) }
  else if find line "creator:".toList 0 = some 0 then
    { store with creatorId := trim (line.drop 8) }
  else if find line "wallet\t".toList 0 ≠ some 0 then store
  else readAccountLine store line

/-- The first account stands in for an id that is not given. -/
def defaultId (accounts : List Account) (id : Text) : Text :=
  match accounts with
  | [] => id
  | first :: _ => if id.length = 0 then first.id else id

def readWalletStore (files : Files) : Store :=
  match files.store with
  | none => .empty
  | some content =>
      let store := (getlines '\n' content).foldl readStoreLine .empty
      { store with
        activeId := defaultId store.accounts store.activeId
        creatorId := defaultId store.accounts store.creatorId }

def accountLine (account : Account) : Text :=
  "wallet\t".toList ++ account.id ++ "\t".toList ++ safeLabel account.label ++ "\t".toList ++
    account.privateKey ++ "\t".toList ++ account.publicKey ++ "\n".toList

def writeWalletStore (files : Files) (accounts : List Account) (activeId creatorId : Text) : Files :=
  { files with
    store := some ("active:".toList ++ activeId ++ "\n".toList ++ "creator:".toList ++ creatorId ++
      "\n".toList ++ accounts.flatMap accountLine) }

/-! ### The calls -/

/-- The key pair of the legacy file becomes the first account. A missing store
reads as one without accounts. -/
def ensureWalletStore (files : Files) : Bool × Files :=
  if 0 < (readWalletStore files).accounts.length then (true, files)
  else
    match readLegacyWallet files with
    | none => (false, files)
    | some (privateKey, publicKey) =>
        (true, writeWalletStore files [⟨publicKey, "Main".toList, privateKey, publicKey⟩] publicKey
          publicKey)

def write (files : Files) (privateKey publicKey : Text) : Files :=
  let files := writeLegacyWallet files privateKey publicKey
  let store := readWalletStore files
  let found := store.accounts.any (fun account => account.publicKey = publicKey)
  let updated := store.accounts.map (fun account =>
    if account.publicKey = publicKey then
      { account with privateKey := privateKey, id := publicKey }
    else account)
  let label := if store.accounts = [] then "Main".toList else "Account".toList
  let accounts :=
    if found = true then updated else updated ++ [⟨publicKey, label, privateKey, publicKey⟩]
  let activeId := if store.activeId.length = 0 then publicKey else store.activeId
  writeWalletStore files accounts activeId (defaultId accounts store.creatorId)

def Account.named (id : Text) (account : Account) : Bool :=
  decide (account.id = id) || decide (account.publicKey = id)

def readAccount (files : Files) (id : Text) : Option (Text × Text) × Files :=
  let files := (ensureWalletStore files).2
  let store := readWalletStore files
  let id := if id.length = 0 then store.activeId else id
  ((store.accounts.find? (·.named id)).map Account.keys, files)

def activeAccountId (files : Files) : Text × Files :=
  let files := (ensureWalletStore files).2
  ((readWalletStore files).activeId, files)

def creatorAccountId (files : Files) : Text × Files :=
  let files := (ensureWalletStore files).2
  ((readWalletStore files).creatorId, files)

def read (files : Files) : Option (Text × Text) × Files :=
  let (ensured, files) := ensureWalletStore files
  if ensured = false then (readLegacyWallet files, files)
  else
    let (id, files) := activeAccountId files
    readAccount files id

def readCreatorAccount (files : Files) : Option (Text × Text) × Files :=
  let (ensured, files) := ensureWalletStore files
  if ensured = false then (readLegacyWallet files, files)
  else
    let (id, files) := creatorAccountId files
    readAccount files id

def listAccounts (files : Files) : List Account × Files :=
  let files := (ensureWalletStore files).2
  ((readWalletStore files).accounts, files)

/-- The clock is the only input of `RandomPrivateKey`. -/
structure KeyGenerator where
  randomPrivateKey : Int → Text
  getPublicKey : Text → Text

def KeyGenerator.pairAt (generator : KeyGenerator) (second : Int) : Text × Text :=
  (generator.randomPrivateKey second, generator.getPublicKey (generator.randomPrivateKey second))

def createAccount (generator : KeyGenerator) (files : Files) (label : Text) (second : Int) :
    Account × Files :=
  let (privateKey, publicKey) := generator.pairAt second
  let files := (ensureWalletStore files).2
  let store := readWalletStore files
  let created : Account := ⟨publicKey, safeLabel label, privateKey, publicKey⟩
  let accounts := store.accounts ++ [created]
  let activeId := if store.activeId.length = 0 then created.id else store.activeId
  (created, writeWalletStore files accounts activeId (defaultId accounts store.creatorId))

def setActiveAccount (files : Files) (id : Text) : Bool × Files :=
  let files := (ensureWalletStore files).2
  let store := readWalletStore files
  match store.accounts.find? (·.named id) with
  | none => (false, files)
  | some account =>
      let files := writeLegacyWallet files account.privateKey account.publicKey
      (true, writeWalletStore files store.accounts account.id
        (defaultId store.accounts store.creatorId))

def setCreatorAccount (files : Files) (id : Text) : Bool × Files :=
  let files := (ensureWalletStore files).2
  let store := readWalletStore files
  match store.accounts.find? (·.named id) with
  | none => (false, files)
  | some account => (true, writeWalletStore files store.accounts store.activeId account.id)

/-! ### A written store reads back -/

/-- Texts that are kept apart by the tabs and line ends of the store. -/
def FieldText (text : Text) : Prop :=
  text ≠ [] ∧ '\t' ∉ text ∧ '\n' ∉ text

/-- An id is read back without the blanks around it. -/
def NameText (text : Text) : Prop :=
  FieldText text ∧ trim text = text

structure Account.Writable (account : Account) : Prop where
  id : NameText account.id
  privateKey : FieldText account.privateKey
  publicKey : NameText account.publicKey

/-- The label is the only part that a written account changes. -/
def Account.relabeled (account : Account) : Account :=
  { account with label := safeLabel account.label }

theorem safeLabel_clean (label : Text) : '\t' ∉ safeLabel label ∧ '\n' ∉ safeLabel label := by
  have cleaned : ∀ byte ∈ (trim label).map
      (fun byte => if byte = '\t' ∨ byte = '\n' ∨ byte = '\r' then ' ' else byte),
      byte ≠ '\t' ∧ byte ≠ '\n' := by
    intro byte member
    obtain ⟨original, -, rfl⟩ := List.mem_map.mp member
    split
    · decide
    · rename_i other
      exact ⟨fun tab => other (.inl tab), fun line => other (.inr (.inl line))⟩
  unfold safeLabel
  dsimp only
  split
  · decide
  · exact ⟨fun member => (cleaned _ member).1 rfl, fun member => (cleaned _ member).2 rfl⟩

/-- The line of an account without its end. -/
def accountFields (account : Account) : Text :=
  "wallet".toList ++ '\t' :: (account.id ++ '\t' :: (safeLabel account.label ++
    '\t' :: (account.privateKey ++ '\t' :: account.publicKey)))

theorem accountLine_eq (account : Account) :
    accountLine account = accountFields account ++ ['\n'] := by
  have tag : "wallet\t".toList = "wallet".toList ++ ['\t'] := by decide
  have tab : "\t".toList = ['\t'] := by decide
  have lineEnd : "\n".toList = ['\n'] := by decide
  unfold accountLine accountFields
  rw [tag, tab, lineEnd]
  simp only [List.append_assoc, List.cons_append, List.nil_append]

variable {account : Account}

theorem lineEnd_notMem_field {part rest : Text} (first : '\n' ∉ part) (later : '\n' ∉ rest) :
    '\n' ∉ part ++ '\t' :: rest := by
  rw [List.mem_append, List.mem_cons, not_or, not_or]
  exact ⟨first, by decide, later⟩

theorem lineEnd_notMem_accountFields (writable : account.Writable) :
    '\n' ∉ accountFields account := by
  apply lineEnd_notMem_field (by decide)
  apply lineEnd_notMem_field writable.id.1.2.2
  apply lineEnd_notMem_field (safeLabel_clean account.label).2
  exact lineEnd_notMem_field writable.privateKey.2.2 writable.publicKey.1.2.2

theorem splitTabs_accountFields (writable : account.Writable) :
    splitTabs (accountFields account) =
      ["wallet".toList, account.id, safeLabel account.label, account.privateKey,
        account.publicKey] := by
  unfold splitTabs accountFields
  rw [getlines_cons (by decide), getlines_cons writable.id.1.2.1,
    getlines_cons (safeLabel_clean account.label).1, getlines_cons writable.privateKey.2.1,
    getlines_single writable.publicKey.1.2.1 writable.publicKey.1.1]

theorem readStoreLine_accountFields (writable : account.Writable) (store : Store) :
    readStoreLine store (accountFields account) =
      { store with accounts := store.accounts ++ [account.relabeled] } := by
  have head : (accountFields account).head? = some 'w' := rfl
  have active : find (accountFields account) "active:".toList 0 ≠ some 0 :=
    find_ne_zero_of_head (by decide) (by rw [head]; decide)
  have creator : find (accountFields account) "creator:".toList 0 ≠ some 0 :=
    find_ne_zero_of_head (by decide) (by rw [head]; decide)
  have wallet : find (accountFields account) "wallet\t".toList 0 = some 0 := by
    rw [find_zero_iff (by decide)]
    exact ⟨_, rfl⟩
  have id : ¬ account.id.length = 0 := fun none => writable.id.1.1 (List.length_eq_zero_iff.mp none)
  have present : 0 < account.publicKey.length ∧ 0 < account.privateKey.length :=
    ⟨List.length_pos_iff.mpr writable.publicKey.1.1, List.length_pos_iff.mpr writable.privateKey.1⟩
  rw [readStoreLine, if_neg active, if_neg creator, if_neg (not_not.mpr wallet), readAccountLine,
    splitTabs_accountFields writable]
  dsimp only
  rw [if_neg id, if_pos present]
  rfl

variable {accounts : List Account}

theorem getlines_accounts (writable : ∀ account ∈ accounts, account.Writable) :
    getlines '\n' (accounts.flatMap accountLine) = accounts.map accountFields := by
  induction accounts with
  | nil => rfl
  | cons first rest ih =>
      obtain ⟨firstWritable, restWritable⟩ := List.forall_mem_cons.mp writable
      rw [List.flatMap_cons, accountLine_eq, List.append_assoc, List.singleton_append,
        getlines_cons (lineEnd_notMem_accountFields firstWritable), ih restWritable, List.map_cons]

theorem readStoreLine_accounts (writable : ∀ account ∈ accounts, account.Writable) (store : Store) :
    (accounts.map accountFields).foldl readStoreLine store =
      { store with accounts := store.accounts ++ accounts.map Account.relabeled } := by
  induction accounts generalizing store with
  | nil => simp
  | cons first rest ih =>
      obtain ⟨firstWritable, restWritable⟩ := List.forall_mem_cons.mp writable
      rw [List.map_cons, List.foldl_cons, readStoreLine_accountFields firstWritable,
        ih restWritable, List.map_cons, List.append_assoc, List.singleton_append]

theorem defaultId_of_present {id : Text} (present : id ≠ []) : defaultId accounts id = id := by
  cases accounts with
  | nil => rfl
  | cons first rest =>
      exact if_neg fun empty => present (List.length_eq_zero_iff.mp empty)

/-- A written store reads back with safe labels. -/
theorem readWalletStore_writeWalletStore {activeId creatorId : Text}
    (writable : ∀ account ∈ accounts, account.Writable) (active : NameText activeId)
    (creator : NameText creatorId) (files : Files) :
    readWalletStore (writeWalletStore files accounts activeId creatorId) =
      ⟨accounts.map Account.relabeled, activeId, creatorId⟩ := by
  have lines : getlines '\n' ("active:".toList ++ activeId ++ "\n".toList ++ "creator:".toList ++
      creatorId ++ "\n".toList ++ accounts.flatMap accountLine) =
      ("active:".toList ++ activeId) :: ("creator:".toList ++ creatorId) ::
        accounts.map accountFields := by
    have shape : "active:".toList ++ activeId ++ "\n".toList ++ "creator:".toList ++ creatorId ++
        "\n".toList ++ accounts.flatMap accountLine =
        ("active:".toList ++ activeId) ++ '\n' :: (("creator:".toList ++ creatorId) ++
          '\n' :: accounts.flatMap accountLine) := by
      have lineEnd : "\n".toList = ['\n'] := by decide
      rw [lineEnd]
      simp only [List.append_assoc, List.cons_append, List.nil_append]
    have activeLine : '\n' ∉ "active:".toList ++ activeId := by
      rw [List.mem_append, not_or]
      exact ⟨by decide, active.1.2.2⟩
    have creatorLine : '\n' ∉ "creator:".toList ++ creatorId := by
      rw [List.mem_append, not_or]
      exact ⟨by decide, creator.1.2.2⟩
    rw [shape, getlines_cons activeLine, getlines_cons creatorLine, getlines_accounts writable]
  have activeRead : readStoreLine .empty ("active:".toList ++ activeId) = ⟨[], activeId, []⟩ := by
    have front : find ("active:".toList ++ activeId) "active:".toList 0 = some 0 :=
      (find_zero_iff (by decide)).mpr (List.prefix_append _ _)
    rw [readStoreLine, if_pos front, List.drop_left' (by rfl), active.2]
    rfl
  have creatorRead : readStoreLine ⟨[], activeId, []⟩ ("creator:".toList ++ creatorId) =
      ⟨[], activeId, creatorId⟩ := by
    have head : ("creator:".toList ++ creatorId).head? = some 'c' := rfl
    have other : find ("creator:".toList ++ creatorId) "active:".toList 0 ≠ some 0 :=
      find_ne_zero_of_head (by decide) (by rw [head]; decide)
    have front : find ("creator:".toList ++ creatorId) "creator:".toList 0 = some 0 :=
      (find_zero_iff (by decide)).mpr (List.prefix_append _ _)
    rw [readStoreLine, if_neg other, if_pos front, List.drop_left' (by rfl), creator.2]
  unfold readWalletStore writeWalletStore
  dsimp only
  rw [lines, List.foldl_cons, List.foldl_cons, activeRead, creatorRead,
    readStoreLine_accounts writable, List.nil_append]
  dsimp only
  rw [defaultId_of_present active.1.1, defaultId_of_present creator.1.1]

end Safire.Wallet
