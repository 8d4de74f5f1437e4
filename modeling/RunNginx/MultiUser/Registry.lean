import RunNginx.Lib.Run
import RunNginx.Lib.Table
import RunNginx.Lib.ByteString

/-!
# The user registry

Accounts are held by id, with two indexes beside them: from API keys and from
domains to ids.  The operations write the three tables one after the other, as the
source does, without a look at who owns an entry.

`Indexed` is the invariant of the three tables.  `Coherent` is what a caller of
the lookups can observe of it.
-/

namespace RunNginx
namespace MultiUser

open ByteString

/-- One hosting account. -/
structure UserAccount where
  id : Bytes
  username : Bytes
  apiKey : Bytes
  domains : List Bytes
  homeDir : Bytes
  quotaBw : Nat
  quotaConn : Nat
  enabled : Bool
  admin : Bool
deriving DecidableEq, Repr

/-- The accounts and their indexes. -/
structure UserRegistry where
  byId : Table Bytes UserAccount
  byKey : Table Bytes Bytes
  byDomain : Table Bytes Bytes

namespace UserRegistry

def empty : UserRegistry :=
  ⟨∅, ∅, ∅⟩

/-- Write an account and its index entries. -/
def addUser (reg : UserRegistry) (user : UserAccount) : UserRegistry where
  byId := reg.byId.insert user.id user
  byKey := reg.byKey.insert user.apiKey user.id
  byDomain := Table.insertAll user.domains user.id reg.byDomain

/--
Reload from the users file; `none` is a file that is missing or does not parse,
which leaves the registry as it is.
-/
def reload (reg : UserRegistry) : Option (List UserAccount) → UserRegistry
  | none => reg
  | some users => users.foldl addUser empty

/-- The registry at the start of the server. -/
def load (file : Option (List UserAccount)) : UserRegistry :=
  empty.reload file

/-- The account that holds an API key. -/
def byApiKey (reg : UserRegistry) (key : Bytes) : Option UserAccount :=
  (reg.byKey.lookup key).bind reg.byId.lookup

/-- The account that answers for a domain. -/
def findDomain (reg : UserRegistry) (domain : Bytes) : Option UserAccount :=
  (reg.byDomain.lookup domain).bind reg.byId.lookup

def allUsers (reg : UserRegistry) : List UserAccount :=
  reg.byId.entries.map Sigma.snd

/--
Create an account under a generated id and key.  The registry changes before the
file is written, so that it has changed also when `persisted` is an error.
-/
def createUser
    (reg : UserRegistry) (id key : Bytes)
    (username : Bytes) (domains : List Bytes) (homeDir : Bytes)
    (persisted : Except Bytes Unit) :
    UserRegistry × Except Bytes UserAccount :=
  let user : UserAccount :=
    { id := id
      username := username
      apiKey := key
      domains := domains
      homeDir := homeDir
      quotaBw := 0
      quotaConn := 0
      enabled := true
      admin := false }
  (reg.addUser user, persisted.map fun _ => user)

/-- Delete an account and its index entries. -/
def deleteUser (reg : UserRegistry) (id : Bytes) : UserRegistry × Bool :=
  match reg.byId.lookup id with
  | none => (reg, false)
  | some user =>
      ({ byId := reg.byId.erase id
         byKey := reg.byKey.erase user.apiKey
         byDomain := Table.eraseAll user.domains reg.byDomain }, true)

/-- The account is held by id. -/
def Present (reg : UserRegistry) (user : UserAccount) : Prop :=
  ∃ id, reg.byId.lookup id = some user

/-- The two lookups agree with the accounts held by id. -/
structure Coherent (reg : UserRegistry) : Prop where
  apiKey_iff : ∀ key user,
    reg.byApiKey key = some user ↔ reg.Present user ∧ user.apiKey = key
  domain_sound : ∀ domain user,
    reg.findDomain domain = some user → reg.Present user ∧ domain ∈ user.domains
  domain_complete : ∀ user, reg.Present user → ∀ domain ∈ user.domains,
    ∃ owner, reg.findDomain domain = some owner ∧ domain ∈ owner.domains

/-- The invariant of the three tables. -/
structure Indexed (reg : UserRegistry) : Prop where
  keyed : ∀ id user, reg.byId.lookup id = some user → user.id = id
  key_iff : ∀ key id,
    reg.byKey.lookup key = some id ↔
      ∃ user, reg.byId.lookup id = some user ∧ user.apiKey = key
  domain_sound : ∀ domain id, reg.byDomain.lookup domain = some id →
    ∃ user, reg.byId.lookup id = some user ∧ domain ∈ user.domains
  domain_complete : ∀ id user, reg.byId.lookup id = some user →
    ∀ domain ∈ user.domains, (reg.byDomain.lookup domain).isSome

/-- The invariant gives a coherent view. -/
theorem Indexed.coherent
    {reg : UserRegistry}
    (h : reg.Indexed) :
    reg.Coherent := by
  have hsound : ∀ domain user, reg.findDomain domain = some user →
      reg.Present user ∧ domain ∈ user.domains := by
    intro domain user hfind
    obtain ⟨id, hid, huser⟩ := Option.bind_eq_some_iff.mp hfind
    obtain ⟨owner, howner, hmem⟩ := h.domain_sound domain id hid
    obtain rfl := Option.some.inj (howner.symm.trans huser)
    exact ⟨⟨id, huser⟩, hmem⟩
  refine ⟨?_, hsound, ?_⟩
  · intro key user
    constructor
    · intro hfind
      obtain ⟨id, hid, huser⟩ := Option.bind_eq_some_iff.mp hfind
      obtain ⟨owner, howner, hkey⟩ := (h.key_iff key id).mp hid
      obtain rfl := Option.some.inj (howner.symm.trans huser)
      exact ⟨⟨id, huser⟩, hkey⟩
    · rintro ⟨⟨id, huser⟩, hkey⟩
      exact Option.bind_eq_some_iff.mpr ⟨id, (h.key_iff key id).mpr ⟨user, huser, hkey⟩, huser⟩
  · rintro user ⟨id, huser⟩ domain hmem
    obtain ⟨ownerId, howner⟩ :=
      Option.isSome_iff_exists.mp (h.domain_complete id user huser domain hmem)
    obtain ⟨owner, hpresent, hlists⟩ := h.domain_sound domain ownerId howner
    exact ⟨owner, Option.bind_eq_some_iff.mpr ⟨ownerId, howner, hpresent⟩, hlists⟩

/-- No account held has this id or this key. -/
def Fresh (reg : UserRegistry) (id key : Bytes) : Prop :=
  reg.byId.lookup id = none ∧
    ∀ user, reg.Present user → user.apiKey ≠ key

/-- No account held under another id lists a domain of the account with this id. -/
def SoleOwner (reg : UserRegistry) (id : Bytes) : Prop :=
  ∀ user, reg.byId.lookup id = some user →
    ∀ other otherId, reg.byId.lookup otherId = some other → otherId ≠ id →
      ∀ domain ∈ user.domains, domain ∉ other.domains

theorem indexed_empty : empty.Indexed := by
  constructor <;> simp [empty, AList.lookup_empty]

/-- A fresh account keeps the invariant, whoever lists its domains. -/
theorem indexed_addUser
    {reg : UserRegistry} {user : UserAccount}
    (h : reg.Indexed)
    (hfresh : reg.Fresh user.id user.apiKey) :
    (reg.addUser user).Indexed := by
  obtain ⟨hid, hkey⟩ := hfresh
  have hother : ∀ id owner, reg.byId.lookup id = some owner → id ≠ user.id := by
    rintro id owner howner rfl
    rw [hid] at howner
    cases howner
  constructor
  · intro id owner howner
    simp only [addUser, Table.lookup_insert_ite] at howner
    split at howner
    · rename_i heq
      rw [← Option.some.inj howner, heq]
    · exact h.keyed id owner howner
  · intro key id
    simp only [addUser, Table.lookup_insert_ite]
    by_cases hk : key = user.apiKey
    · rw [if_pos hk]
      constructor
      · intro heq
        exact ⟨user, by rw [if_pos (Option.some.inj heq).symm], hk.symm⟩
      · rintro ⟨owner, howner, hok⟩
        split at howner
        · rename_i heq
          rw [heq]
        · exact absurd (hok.trans hk) (hkey owner ⟨id, howner⟩)
    · rw [if_neg hk, h.key_iff key id]
      constructor
      · rintro ⟨owner, howner, hok⟩
        exact ⟨owner, by rw [if_neg (hother id owner howner)]; exact howner, hok⟩
      · rintro ⟨owner, howner, hok⟩
        split at howner
        · obtain rfl := Option.some.inj howner
          exact absurd hok.symm hk
        · exact ⟨owner, howner, hok⟩
  · intro domain id hdom
    simp only [addUser, Table.lookup_insertAll, Table.lookup_insert_ite] at hdom ⊢
    split at hdom
    · rename_i hmem
      exact ⟨user, by rw [if_pos (Option.some.inj hdom).symm], hmem⟩
    · obtain ⟨owner, howner, hmem⟩ := h.domain_sound domain id hdom
      exact ⟨owner, by rw [if_neg (hother id owner howner)]; exact howner, hmem⟩
  · intro id owner howner domain hmem
    simp only [addUser, Table.lookup_insertAll, Table.lookup_insert_ite] at howner ⊢
    by_cases hd : domain ∈ user.domains
    · rw [if_pos hd]
      rfl
    · rw [if_neg hd]
      split at howner
      · obtain rfl := Option.some.inj howner
        exact absurd hmem hd
      · exact h.domain_complete id owner howner domain hmem

/-- Deleting the only owner of its domains keeps the invariant. -/
theorem indexed_deleteUser
    {reg : UserRegistry} {id : Bytes}
    (h : reg.Indexed)
    (hsole : reg.SoleOwner id) :
    (reg.deleteUser id).1.Indexed := by
  unfold deleteUser
  cases hid : reg.byId.lookup id with
  | none => exact h
  | some user =>
      constructor
      · intro i owner howner
        simp only [Table.lookup_erase_ite] at howner
        split at howner
        · cases howner
        · exact h.keyed i owner howner
      · intro key i
        simp only [Table.lookup_erase_ite]
        -- the key leads to the deleted account and to no other one
        have hkeyOf : reg.byKey.lookup user.apiKey = some id :=
          (h.key_iff user.apiKey id).mpr ⟨user, hid, rfl⟩
        by_cases hk : key = user.apiKey
        · rw [if_pos hk]
          constructor
          · intro heq
            cases heq
          · rintro ⟨owner, howner, hok⟩
            split at howner
            · cases howner
            · rename_i hne
              have : reg.byKey.lookup key = some i :=
                (h.key_iff key i).mpr ⟨owner, howner, hok⟩
              rw [hk, hkeyOf] at this
              exact absurd (Option.some.inj this).symm hne
        · rw [if_neg hk, h.key_iff key i]
          constructor
          · rintro ⟨owner, howner, hok⟩
            refine ⟨owner, ?_, hok⟩
            rw [if_neg]
            · exact howner
            · rintro rfl
              rw [hid] at howner
              obtain rfl := Option.some.inj howner
              exact hk hok.symm
          · rintro ⟨owner, howner, hok⟩
            split at howner
            · cases howner
            · exact ⟨owner, howner, hok⟩
      · intro domain i hdom
        simp only [Table.lookup_eraseAll, Table.lookup_erase_ite] at hdom ⊢
        split at hdom
        · cases hdom
        · rename_i hd
          obtain ⟨owner, howner, hmem⟩ := h.domain_sound domain i hdom
          refine ⟨owner, ?_, hmem⟩
          rw [if_neg]
          · exact howner
          · rintro rfl
            rw [hid] at howner
            obtain rfl := Option.some.inj howner
            exact hd hmem
      · intro i owner howner domain hmem
        simp only [Table.lookup_eraseAll, Table.lookup_erase_ite] at howner ⊢
        split at howner
        · cases howner
        · rename_i hne
          have hd : domain ∉ user.domains := fun hd =>
            hsole user hid owner i howner hne domain hd hmem
          rw [if_neg hd]
          exact h.domain_complete i owner howner domain hmem

/-- A deletion that takes a domain away from another account is always visible. -/
theorem coherent_deleteUser_iff
    {reg : UserRegistry} {id : Bytes}
    (h : reg.Indexed) :
    (reg.deleteUser id).1.Coherent ↔ reg.SoleOwner id := by
  constructor
  · intro hcoh user huser other otherId hother hne domain hd hmem
    have hpresent : (reg.deleteUser id).1.Present other := by
      refine ⟨otherId, ?_⟩
      simp only [deleteUser, huser, Table.lookup_erase_ite, if_neg hne, hother]
    obtain ⟨owner, howner, _⟩ := hcoh.domain_complete other hpresent domain hmem
    obtain ⟨i, hi, _⟩ := Option.bind_eq_some_iff.mp howner
    simp [deleteUser, huser, Table.lookup_eraseAll, hd] at hi
  · exact fun hsole => (indexed_deleteUser h hsole).coherent

/-- No two entries of a users file share an id or a key. -/
def DistinctUsers (users : List UserAccount) : Prop :=
  users.Pairwise fun u v => u.id ≠ v.id ∧ u.apiKey ≠ v.apiKey

instance (users : List UserAccount) : Decidable (DistinctUsers users) := by
  unfold DistinctUsers
  infer_instance

theorem fresh_empty
    (id key : Bytes) :
    empty.Fresh id key := by
  refine ⟨AList.lookup_empty _, ?_⟩
  rintro user ⟨i, hi⟩
  simp [empty, AList.lookup_empty] at hi

theorem fresh_addUser
    {reg : UserRegistry} {user : UserAccount} {id key : Bytes}
    (h : reg.Fresh id key)
    (hid : user.id ≠ id) (hkey : user.apiKey ≠ key) :
    (reg.addUser user).Fresh id key := by
  refine ⟨?_, ?_⟩
  · simp only [addUser, Table.lookup_insert_ite, if_neg (Ne.symm hid)]
    exact h.1
  · rintro owner ⟨i, howner⟩
    simp only [addUser, Table.lookup_insert_ite] at howner
    split at howner
    · rw [← Option.some.inj howner]
      exact hkey
    · exact h.2 owner ⟨i, howner⟩

/-- The loop over the users file keeps the invariant. -/
theorem indexed_foldl_addUser
    {users : List UserAccount} {reg : UserRegistry}
    (h : reg.Indexed)
    (hdistinct : DistinctUsers users)
    (hfresh : ∀ u ∈ users, reg.Fresh u.id u.apiKey) :
    (users.foldl addUser reg).Indexed := by
  induction users generalizing reg with
  | nil => exact h
  | cons user users ih =>
      obtain ⟨hhead, htail⟩ := List.pairwise_cons.mp hdistinct
      refine ih (indexed_addUser h (hfresh user (by simp))) htail ?_
      intro u hu
      exact fresh_addUser (hfresh u (by simp [hu])) (hhead u hu).1 (hhead u hu).2

theorem indexed_reload
    {reg : UserRegistry} {file : Option (List UserAccount)}
    (h : reg.Indexed)
    (hfile : ∀ users, file = some users → DistinctUsers users) :
    (reg.reload file).Indexed := by
  cases file with
  | none => exact h
  | some users =>
      exact indexed_foldl_addUser indexed_empty (hfile users rfl)
        fun u _ => fresh_empty u.id u.apiKey

/-- An operation on the registry, with what it reads from outside. -/
inductive Op
  | reload (file : Option (List UserAccount))
  | create
      (id key : Bytes)
      (username : Bytes) (domains : List Bytes) (homeDir : Bytes)
      (persisted : Except Bytes Unit)
  | delete (id : Bytes)

def step (reg : UserRegistry) : Op → UserRegistry
  | .reload file => reg.reload file
  | .create id key username domains homeDir persisted =>
      (reg.createUser id key username domains homeDir persisted).1
  | .delete id => (reg.deleteUser id).1

/--
The condition on a step: a reloaded file repeats no id and no key, a new account
gets an id and a key that no account holds, and a deleted account shares no domain
with an account that stays.
-/
def Admissible (reg : UserRegistry) : Op → Prop
  | .reload file => ∀ users, file = some users → DistinctUsers users
  | .create id key _ _ _ _ => reg.Fresh id key
  | .delete id => reg.SoleOwner id

/-- What one step preserves. -/
theorem indexed_step
    {reg : UserRegistry} {op : Op}
    (h : reg.Indexed)
    (hop : reg.Admissible op) :
    (reg.step op).Indexed := by
  cases op with
  | reload file => exact indexed_reload h hop
  | create id key username domains homeDir persisted => exact indexed_addUser h hop
  | delete id => exact indexed_deleteUser h hop

/-- In a run of admissible steps every registry reached is coherent. -/
theorem run_coherent
    {file : Option (List UserAccount)} {ops : List Op}
    (hfile : empty.Admissible (.reload file))
    (hops : Run.Steps step Admissible (load file) ops) :
    ∀ reg ∈ Run.states step (load file) ops, reg.Coherent := by
  intro reg hreg
  have hinit : (load file).Indexed := indexed_reload indexed_empty hfile
  exact (Run.invariant (fun _ _ => indexed_step) hinit hops reg hreg).coherent

/-- Two accounts with a domain of their own, the first of them deleted again. -/
def sharedNothing : List Op :=
  [.create [1] [11] (ascii "a") [ascii "a.org"] (ascii "/home/a") (.ok ()),
    .create [2] [12] (ascii "b") [ascii "b.org"] (ascii "/home/b") (.ok ()),
    .delete [1]]

theorem run_coherent_sharedNothing :
    empty.Admissible (.reload none) ∧
      Run.Steps step Admissible (load none) sharedNothing ∧
      ∀ reg ∈ Run.states step (load none) sharedNothing, reg.Coherent := by
  have hfile : empty.Admissible (.reload none) := by
    intro users h
    cases h
  have hops : Run.Steps step Admissible (load none) sharedNothing := by
    refine ⟨fresh_empty _ _, fresh_addUser (fresh_empty _ _) (by decide) (by decide), ?_,
      trivial⟩
    intro user huser other otherId hother hne domain hd hmem
    obtain rfl := Option.some.inj huser
    simp only [step, createUser, addUser, Table.lookup_insert_ite, if_neg hne] at hother
    split at hother
    · obtain rfl := Option.some.inj hother
      simp only [List.mem_singleton] at hd hmem
      exact absurd (hd.symm.trans hmem) (by decide)
    · cases hother
  exact ⟨hfile, hops, run_coherent hfile hops⟩

/-- Two accounts that list the same domain, the second of them deleted again. -/
def sharedDomain : List Op :=
  [.create [1] [11] (ascii "a") [ascii "d.org"] (ascii "/home/a") (.ok ()),
    .create [2] [12] (ascii "b") [ascii "d.org"] (ascii "/home/b") (.ok ()),
    .delete [2]]

/-- The deletion leaves the first account without an entry for its domain. -/
theorem sharedDomain_not_coherent :
    ¬ ∀ reg ∈ Run.states step (load none) sharedDomain, reg.Coherent := by
  intro h
  have hlast := h (sharedDomain.foldl step (load none)) (by
    simp [sharedDomain, Run.states])
  obtain ⟨owner, howner, _⟩ :=
    hlast.domain_complete
      ⟨[1], ascii "a", [11], [ascii "d.org"], ascii "/home/a", 0, 0, true, false⟩
      ⟨[1], rfl⟩ (ascii "d.org") (by simp)
  have hnone : (sharedDomain.foldl step (load none)).findDomain (ascii "d.org") = none :=
    rfl
  rw [hnone] at howner
  cases howner

end UserRegistry
end MultiUser
end RunNginx
