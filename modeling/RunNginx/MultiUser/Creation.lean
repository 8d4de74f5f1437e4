import RunNginx.MultiUser.Persistence

/-!
# Creating an account that cannot be written

The three tables of the registry are changed before the users file is written, and nothing
is undone when the write fails: the account that was reported as not created is held, and
the domains it lists are taken away from their owners.
-/

namespace RunNginx
namespace MultiUser
namespace Site

open ByteString Storage UserRegistry

/-- The account that is created. -/
def newUser (id key username : Bytes) (domains : List Bytes) (homeDir : Bytes) :
    UserAccount where
  id := id
  username := username
  apiKey := key
  domains := domains
  homeDir := homeDir
  quotaBw := 0
  quotaConn := 0
  enabled := true
  admin := false

/-- All three tables give the same. -/
structure SameTables (reg reg' : UserRegistry) : Prop where
  byId : ∀ id, reg.byId.lookup id = reg'.byId.lookup id
  byKey : ∀ key, reg.byKey.lookup key = reg'.byKey.lookup key
  byDomain : ∀ domain, reg.byDomain.lookup domain = reg'.byDomain.lookup domain

/-- The account is held already, with its key and all its domains. -/
structure Recorded (reg : UserRegistry) (user : UserAccount) : Prop where
  byId : reg.byId.lookup user.id = some user
  byKey : reg.byKey.lookup user.apiKey = some user.id
  byDomain : ∀ domain ∈ user.domains, reg.byDomain.lookup domain = some user.id

/-- Adding an account changes the tables, unless it is held already. -/
theorem sameTables_addUser_iff
    {reg : UserRegistry} {user : UserAccount} :
    SameTables (reg.addUser user) reg ↔ Recorded reg user := by
  constructor
  · intro h
    refine ⟨?_, ?_, ?_⟩
    · rw [← h.byId, addUser, AList.lookup_insert]
    · rw [← h.byKey, addUser, AList.lookup_insert]
    · intro domain hmem
      rw [← h.byDomain, addUser, Table.lookup_insertAll, if_pos hmem]
  · intro h
    refine ⟨?_, ?_, ?_⟩
    · intro id
      rw [addUser, Table.lookup_insert_ite]
      split
      · rename_i heq
        rw [heq, h.byId]
      · rfl
    · intro key
      rw [addUser, Table.lookup_insert_ite]
      split
      · rename_i heq
        rw [heq, h.byKey]
      · rfl
    · intro domain
      rw [addUser, Table.lookup_insertAll]
      split
      · rename_i hmem
        rw [h.byDomain domain hmem]
      · rfl

/-- All accounts are written to the users file. -/
def Written (toml : Toml) (registry : UserRegistry) (w : Write Bytes) : Prop :=
  w = .done ∧ ∃ text, toml.serialize registry.allUsers = .ok text

theorem persist_error_iff
    {toml : Toml} {registry : UserRegistry} {w : Write Bytes} (disk : Backup.Disk) :
    (∃ e, (persist toml registry w disk).2 = .error e) ↔ ¬ Written toml registry w := by
  unfold persist Written
  cases toml.serialize registry.allUsers with
  | error e => exact iff_of_true ⟨_, rfl⟩ fun h => nomatch h.2
  | ok text =>
      cases w with
      | done => exact iff_of_false (fun h => nomatch h) fun h => h ⟨rfl, text, rfl⟩
      | refused reason => exact iff_of_true ⟨reason, rfl⟩ fun h => nomatch h.1
      | cut length reason => exact iff_of_true ⟨reason, rfl⟩ fun h => nomatch h.1

/-- The registry gains the account however the write ends, and a failed write is reported. -/
theorem createUser_eq
    (toml : Toml) (site : Site) (id key username : Bytes) (domains : List Bytes)
    (homeDir : Bytes) (w : Write Bytes) :
    let registry := site.registry.addUser (newUser id key username domains homeDir)
    (site.createUser toml id key username domains homeDir w).1.registry = registry ∧
      ((∃ e, (site.createUser toml id key username domains homeDir w).2 = .error e) ↔
        ¬ Written toml registry w) := by
  intro registry
  have hresult : (site.createUser toml id key username domains homeDir w).2 =
      (persist toml registry w site.disk).2.bind fun _ =>
        .ok (newUser id key username domains homeDir) :=
    rfl
  refine ⟨rfl, ?_⟩
  rw [← persist_error_iff site.disk, hresult]
  cases (persist toml registry w site.disk).2 with
  | error e => exact iff_of_true ⟨e, rfl⟩ ⟨e, rfl⟩
  | ok done => exact iff_of_false (fun h => nomatch h.choose_spec) fun h => nomatch h.choose_spec

/--
A creation that is reported as failed leaves the three tables as they were exactly if the
file can be written, so that none is, or the account was held before.
-/
theorem create_atomic_iff
    (toml : Toml) (site : Site) (id key username : Bytes) (domains : List Bytes)
    (homeDir : Bytes) (w : Write Bytes) :
    ((∃ e, (site.createUser toml id key username domains homeDir w).2 = .error e) →
        SameTables (site.createUser toml id key username domains homeDir w).1.registry
          site.registry) ↔
      Written toml (site.registry.addUser (newUser id key username domains homeDir)) w ∨
        Recorded site.registry (newUser id key username domains homeDir) := by
  obtain ⟨hregistry, herror⟩ := createUser_eq toml site id key username domains homeDir w
  rw [hregistry, herror, sameTables_addUser_iff, ← or_iff_not_imp_left]

/-- The users file cannot be written; the account is held, and owns its domain. -/
theorem failed_creation_is_held :
    ((start exampleToml emptyDisk).createUser exampleToml alice.id alice.apiKey alice.username
        alice.domains alice.homeDir (.refused (ascii "Permission denied"))).2 =
        .error (ascii "Permission denied") ∧
      ((start exampleToml emptyDisk).createUser exampleToml alice.id alice.apiKey alice.username
        alice.domains alice.homeDir (.refused (ascii "Permission denied"))).1.registry.findDomain
          (ascii "a.org") = some alice ∧
      (start exampleToml emptyDisk).registry.findDomain (ascii "a.org") = none := by
  refine ⟨?_, ?_, ?_⟩
  · rfl
  · decide +kernel
  · rfl

end Site
end MultiUser
end RunNginx
