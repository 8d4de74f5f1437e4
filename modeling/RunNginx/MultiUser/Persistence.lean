import RunNginx.Api.Backup
import RunNginx.Lib.Utf8
import RunNginx.MultiUser.Registry

/-!
# The registry and the users file

Accounts are held by the registry and are written to the users file as a whole after
each change.  A deletion does not look at how the write ended, and the restore of a
backup copies a users file over the current one without a word to the registry.

`run_agrees` says when the file holds the accounts of the registry after every operation
that is reported as successful.
-/

namespace RunNginx
namespace MultiUser

open ByteString Storage UserRegistry

/-- The TOML library, on users files. -/
structure Toml where
  serialize : List UserAccount → Except Bytes Bytes
  deserialize : Bytes → Option (List UserAccount)

/-- What is serialized is text that deserializes to what it was. -/
def Toml.Lawful (toml : Toml) : Prop :=
  ∀ users text, toml.serialize users = .ok text →
    Utf8.isUtf8 text = true ∧ toml.deserialize text = some users

/-- The registry, and the configuration directory with its users file. -/
structure Site where
  registry : UserRegistry
  disk : Backup.Disk

variable (toml : Toml)

/-- The accounts of a users file, unless it is absent, no text, or does not parse. -/
def readUsers (file : Option Bytes) : Option (List UserAccount) :=
  (file.filter Utf8.isUtf8).bind toml.deserialize

/-- Write all accounts to the users file. -/
def persist (registry : UserRegistry) (w : Write Bytes) (disk : Backup.Disk) :
    Backup.Disk × Except Bytes Unit :=
  match toml.serialize registry.allUsers with
  | .error e => (disk, .error (ascii "serialize users.toml: " ++ e))
  | .ok text =>
      let (users, result) := write text disk.users w
      ({ disk with users := users }, result)

namespace Site

/-- Create an account; the registry has changed before the file is written. -/
def createUser (id key username : Bytes) (domains : List Bytes) (homeDir : Bytes)
    (w : Write Bytes) (site : Site) : Site × Except Bytes UserAccount :=
  let (registry, user) := site.registry.createUser id key username domains homeDir (.ok ())
  let (disk, persisted) := persist toml registry w site.disk
  (⟨registry, disk⟩, persisted.bind fun _ => user)

/-- Delete an account; how the write ends is not looked at. -/
def deleteUser (id : Bytes) (w : Write Bytes) (site : Site) : Site × Bool :=
  match site.registry.deleteUser id with
  | (registry, true) => (⟨registry, (persist toml registry w site.disk).1⟩, true)
  | (registry, false) => (⟨registry, site.disk⟩, false)

/-- Reload the registry; a file that cannot be read leaves it as it is. -/
def reload (site : Site) : Site :=
  { site with registry := site.registry.reload (readUsers toml site.disk.users) }

/-- Restore a backup; nothing receives the signal to reload that it sends. -/
def restore (env : Backup.RestoreEnv) (body : Bytes) (site : Site) : Site × Backup.Answer :=
  let (answer, disk) := Backup.apiRestore env body site.disk
  ({ site with disk := disk }, answer)

/-- The server starts: the registry is loaded from the file. -/
def start (disk : Backup.Disk) : Site :=
  ⟨UserRegistry.load (readUsers toml disk.users), disk⟩

/-- An operation on the accounts, with what it takes from outside. -/
inductive Op
  | create (id key username : Bytes) (domains : List Bytes) (homeDir : Bytes) (w : Write Bytes)
  | delete (id : Bytes) (w : Write Bytes)
  | reload
  | restore (env : Backup.RestoreEnv) (body : Bytes)

def step (site : Site) : Op → Site
  | .create id key username domains homeDir w =>
      (site.createUser toml id key username domains homeDir w).1
  | .delete id w => (site.deleteUser toml id w).1
  | .reload => site.reload toml
  | .restore env body => (site.restore env body).1

/-- The operation is reported as successful. -/
def Succeeds (site : Site) : Op → Prop
  | .create id key username domains homeDir w =>
      ∃ user, (site.createUser toml id key username domains homeDir w).2 = .ok user
  | .delete id w => (site.deleteUser toml id w).2 = true
  | .reload => (readUsers toml site.disk.users).isSome = true
  | .restore env body => (site.restore env body).2.status = 200

/-- The users file holds exactly the accounts of the registry. -/
def Agrees (file : Option Bytes) (registry : UserRegistry) : Prop :=
  ∃ users, readUsers toml file = some users ∧ ∀ user, user ∈ users ↔ registry.Present user

/-- No two accounts of a list share an id. -/
def OneEach (users : List UserAccount) : Prop :=
  ∀ u ∈ users, ∀ v ∈ users, u.id = v.id → u = v

/--
The condition on a step: a deletion writes its file to the end, a reloaded file has one
account for each id, and the users file of a restored backup is copied to the end and
holds the accounts of the registry; a backup without one leaves a file that does.
-/
def Admissible (site : Site) : Op → Prop
  | .create .. => True
  | .delete id w =>
      w = .done ∧ ∃ text, toml.serialize (site.registry.deleteUser id).1.allUsers = .ok text
  | .reload => ∀ users, readUsers toml site.disk.users = some users → OneEach users
  | .restore env body =>
      ∀ id snapshot, env.parseId body = .ok (some id) →
        site.disk.backups.lookup id = some snapshot →
          (snapshot.users.isSome = true → env.usersCopy = .done) ∧
            Agrees toml (snapshot.users.or site.disk.users) site.registry

variable {toml}
variable {site : Site} {registry : UserRegistry} {w : Write Bytes} {disk : Backup.Disk}

theorem mem_allUsers
    {user : UserAccount} :
    user ∈ registry.allUsers ↔ registry.Present user := by
  unfold UserRegistry.allUsers UserRegistry.Present
  rw [List.mem_map]
  constructor
  · rintro ⟨⟨id, found⟩, hentry, rfl⟩
    exact ⟨id, AList.mem_lookup_iff.mpr hentry⟩
  · rintro ⟨id, hlookup⟩
    exact ⟨⟨id, user⟩, AList.mem_lookup_iff.mp hlookup, rfl⟩

/-- A write that is reported as done leaves a file of all accounts. -/
theorem agrees_persist
    (hlawful : toml.Lawful) (hok : (persist toml registry w disk).2 = .ok ()) :
    Agrees toml (persist toml registry w disk).1.users registry := by
  unfold persist at hok ⊢
  cases htext : toml.serialize registry.allUsers with
  | error e =>
      simp only [htext] at hok
      cases hok
  | ok text =>
      simp only [htext] at hok ⊢
      obtain ⟨hutf8, hparse⟩ := hlawful _ _ htext
      refine ⟨registry.allUsers, ?_, fun user => mem_allUsers⟩
      rw [(write_ok hok).2]
      simp [readUsers, Option.filter, hutf8, hparse]

/-- An account is found under its id once a list of accounts is added. -/
theorem lookup_foldl_addUser
    (users : List UserAccount) (registry : UserRegistry) (id : Bytes) :
    (users.foldl addUser registry).byId.lookup id =
      (users.reverse.find? fun u => u.id == id).or (registry.byId.lookup id) := by
  induction users generalizing registry with
  | nil => simp
  | cons user users ih =>
      rw [List.foldl_cons, ih, List.reverse_cons, List.find?_append, Option.or_assoc]
      congr 1
      simp only [addUser, Table.lookup_insert_ite, List.find?_cons, List.find?_nil]
      by_cases h : id = user.id
      · simp [h]
      · have hne : (user.id == id) = false := by simpa using Ne.symm h
        simp [h, hne]

/-- A reloaded registry holds the accounts of its file, where no two share an id. -/
theorem present_reload
    (registry : UserRegistry) {users : List UserAccount} (honce : OneEach users) (user : UserAccount) :
    (registry.reload (some users)).Present user ↔ user ∈ users := by
  have hlookup : ∀ id, (registry.reload (some users)).byId.lookup id =
      users.reverse.find? fun u => u.id == id := by
    intro id
    rw [UserRegistry.reload, lookup_foldl_addUser]
    simp [UserRegistry.empty, AList.lookup_empty]
  constructor
  · rintro ⟨id, h⟩
    rw [hlookup] at h
    simpa using List.mem_of_find?_eq_some h
  · intro hmem
    refine ⟨user.id, ?_⟩
    rw [hlookup]
    cases hfind : users.reverse.find? fun u => u.id == user.id with
    | none => simpa using List.find?_eq_none.mp hfind user (by simpa using hmem)
    | some found =>
        have hid : found.id = user.id := by simpa using List.find?_some hfind
        have hfound : found ∈ users := by simpa using List.mem_of_find?_eq_some hfind
        rw [honce found hfound user hmem hid]

/-- What one step that is reported as successful leaves behind. -/
theorem agrees_step
    {op : Op} (hlawful : toml.Lawful)
    (hop : Admissible toml site op) (hok : Succeeds toml site op) :
    Agrees toml (step toml site op).disk.users (step toml site op).registry := by
  cases op with
  | create id key username domains homeDir w =>
      obtain ⟨user, hok⟩ := hok
      refine agrees_persist hlawful ?_
      unfold createUser at hok
      simp only at hok
      rcases hpersist : persist toml (site.registry.createUser id key username domains homeDir
        (.ok ())).1 w site.disk with ⟨disk, e | done⟩
      · rw [hpersist] at hok
        cases hok
      · exact congrArg Prod.snd hpersist
  | delete id w =>
      obtain ⟨rfl, text, htext⟩ := hop
      unfold step Succeeds deleteUser at *
      rcases hdelete : site.registry.deleteUser id with ⟨registry, _ | _⟩
      · simp [hdelete] at hok
      · simp only [hdelete] at htext ⊢
        refine agrees_persist hlawful ?_
        simp [persist, htext, write]
  | reload =>
      obtain ⟨users, husers⟩ := Option.isSome_iff_exists.mp hok
      refine ⟨users, husers, fun user => ?_⟩
      simp only [step, reload, husers]
      exact (present_reload _ (hop users husers) user).symm
  | restore env body =>
      obtain ⟨id, snapshot, hid, hsnapshot, _, husers⟩ := Backup.restore_ok hok
      obtain ⟨hdone, hagrees⟩ := hop id snapshot hid hsnapshot
      change Agrees toml (Backup.apiRestore env body site.disk).2.users site.registry
      rw [husers hdone]
      exact hagrees

/-- Every account is held under its own id. -/
def Keyed (registry : UserRegistry) : Prop :=
  ∀ id user, registry.byId.lookup id = some user → user.id = id

theorem keyed_empty : Keyed .empty := by
  intro id user h
  simp [UserRegistry.empty, AList.lookup_empty] at h

theorem keyed_addUser
    {user : UserAccount} (h : Keyed registry) :
    Keyed (registry.addUser user) := by
  intro id found hfound
  simp only [addUser, Table.lookup_insert_ite] at hfound
  split at hfound
  · rename_i hid
    rw [← Option.some.inj hfound, hid]
  · exact h id found hfound

theorem keyed_reload
    (h : Keyed registry) (file : Option (List UserAccount)) :
    Keyed (registry.reload file) := by
  cases file with
  | none => exact h
  | some users =>
      have hfold : ∀ (us : List UserAccount) (reg : UserRegistry), Keyed reg →
          Keyed (us.foldl addUser reg) := by
        intro us
        induction us with
        | nil => exact fun _ hreg => hreg
        | cons u us ih => exact fun reg hreg => ih _ (keyed_addUser hreg)
      exact hfold users .empty keyed_empty

theorem keyed_deleteUser
    (h : Keyed registry) (id : Bytes) :
    Keyed (registry.deleteUser id).1 := by
  unfold UserRegistry.deleteUser
  split
  · exact h
  · intro i user huser
    simp only [Table.lookup_erase_ite] at huser
    split at huser
    · cases huser
    · exact h i user huser

/-- One step keeps every account under its own id. -/
theorem keyed_step
    (op : Op) (h : Keyed site.registry) :
    Keyed (step toml site op).registry := by
  cases op with
  | create id key username domains homeDir w => exact keyed_addUser h
  | delete id w =>
      change Keyed (deleteUser toml id w site).1.registry
      have hkeyed := keyed_deleteUser h id
      unfold deleteUser
      rcases hdelete : site.registry.deleteUser id with ⟨registry, _ | _⟩
      · rw [hdelete] at hkeyed
        exact hkeyed
      · rw [hdelete] at hkeyed
        exact hkeyed
  | reload => exact keyed_reload h _
  | restore env body => exact h

/-- A server that starts from a file that agrees with a registry has its accounts. -/
theorem present_start
    (hkeyed : Keyed registry) (hagrees : Agrees toml disk.users registry) (user : UserAccount) :
    (start toml disk).registry.Present user ↔ registry.Present user := by
  obtain ⟨users, husers, hsame⟩ := hagrees
  have honce : OneEach users := by
    intro u hu v hv hid
    obtain ⟨i, hi⟩ := (hsame u).mp hu
    obtain ⟨j, hj⟩ := (hsame v).mp hv
    obtain rfl := hkeyed i u hi
    obtain rfl := hkeyed j v hj
    rw [hid] at hi
    exact Option.some.inj (hi.symm.trans hj)
  rw [← hsame, start, UserRegistry.load, husers]
  exact present_reload .empty honce user

/--
In a run of admissible steps from the start of the server, after each step that is
reported as successful the file holds exactly the accounts of the registry, and a server
that starts from it has them all and no others.
-/
theorem run_agrees
    (disk : Backup.Disk) (ops : List Op) (hlawful : toml.Lawful)
    (hops : Run.Steps (step toml) (Admissible toml) (start toml disk) ops) :
    ∀ t ∈ Run.transitions (step toml) (start toml disk) ops, Succeeds toml t.1 t.2 →
      Agrees toml (step toml t.1 t.2).disk.users (step toml t.1 t.2).registry ∧
      ∀ user, (start toml (step toml t.1 t.2).disk).registry.Present user ↔
        (step toml t.1 t.2).registry.Present user := by
  intro t ht hok
  obtain ⟨hkeyed, hop⟩ := Run.transitions_rule
    (P := fun site => Keyed site.registry) (fun site op h _ => keyed_step op h)
    (keyed_reload keyed_empty _) hops t ht
  have hagrees := agrees_step hlawful hop hok
  exact ⟨hagrees, present_start (keyed_step t.2 hkeyed) hagrees⟩

section Example

/-- An account under this id and key. -/
def alice : UserAccount where
  id := ascii "0b5c1d9d3f1e4c6a8b7e2f0a9c4d6e81"
  username := ascii "alice"
  apiKey := ascii "5f0e1d2c3b4a59687786a5b4c3d2e1f05f0e1d2c3b4a59687786a5b4c3d2e1f0"
  domains := [ascii "a.org"]
  homeDir := ascii "/home/alice"
  quotaBw := 0
  quotaConn := 0
  enabled := true
  admin := false

/-- The users file of that account. -/
def aliceText : Bytes :=
  ascii ("[[users]]\nid = \"0b5c1d9d3f1e4c6a8b7e2f0a9c4d6e81\"\nusername = \"alice\"\n" ++
    "api_key = \"5f0e1d2c3b4a59687786a5b4c3d2e1f05f0e1d2c3b4a59687786a5b4c3d2e1f0\"\n" ++
    "domains = [\"a.org\"]\nhome_dir = \"/home/alice\"\nquota_bw = 0\nquota_conn = 0\n" ++
    "enabled = true\nadmin = false\n")

/-- The library on the files of no account and of that account. -/
def exampleToml : Toml where
  serialize := fun users =>
    if users = [] then .ok (ascii "users = []\n")
    else if users = [alice] then .ok aliceText
    else .error (ascii "unsupported")
  deserialize := fun text =>
    if text = ascii "users = []\n" then some []
    else if text = aliceText then some [alice]
    else none

theorem exampleToml_lawful : exampleToml.Lawful := by
  intro users text h
  simp only [exampleToml] at h
  split at h
  · rename_i hnil
    rw [← Except.ok.inj h, hnil]
    decide
  split at h
  · rename_i hone
    rw [← Except.ok.inj h, hone]
    obtain ⟨htext, hother⟩ : Utf8.isUtf8 aliceText = true ∧ aliceText ≠ ascii "users = []\n" := by
      rw [aliceText, ascii_append, ascii_append, ascii_append, ascii_ofList, ascii_ofList,
        ascii_ofList, ascii_ofList]
      decide +kernel
    exact ⟨htext, by simp [exampleToml, hother]⟩
  · cases h

/-- A directory without a users file and without backups. -/
def emptyDisk : Backup.Disk :=
  ⟨some [], none, ∅⟩

/-- The account is created and deleted again, and this is how the second write ends. -/
def createAndDelete (w : Write Bytes) : List Op :=
  [.create alice.id alice.apiKey alice.username alice.domains alice.homeDir .done,
    .delete alice.id w]

/-- The state that run deletes the account in. -/
def withAlice : Site :=
  step exampleToml (start exampleToml emptyDisk)
    (.create alice.id alice.apiKey alice.username alice.domains alice.homeDir .done)

theorem run_agrees_example :
    Succeeds exampleToml withAlice (.delete alice.id .done) ∧
      Agrees exampleToml (step exampleToml withAlice (.delete alice.id .done)).disk.users
        (step exampleToml withAlice (.delete alice.id .done)).registry := by
  have hok : Succeeds exampleToml withAlice (.delete alice.id .done) := by
    unfold Succeeds
    decide
  have hsteps : Run.Steps (step exampleToml) (Admissible exampleToml)
      (start exampleToml emptyDisk) (createAndDelete .done) :=
    ⟨trivial, ⟨rfl, ascii "users = []\n", rfl⟩, trivial⟩
  have hmem : (withAlice, Op.delete alice.id .done) ∈ Run.transitions (step exampleToml)
      (start exampleToml emptyDisk) (createAndDelete .done) := by
    simp [createAndDelete, Run.transitions, withAlice]
  exact ⟨hok, (run_agrees emptyDisk (createAndDelete .done) exampleToml_lawful hsteps
    (withAlice, .delete alice.id .done) hmem hok).1⟩

/-- A deletion whose write is refused is reported, and the file still has the account. -/
theorem deleted_account_in_file :
    exampleToml.Lawful ∧
      (withAlice, Op.delete alice.id (.refused (ascii "Permission denied"))) ∈
        Run.transitions (step exampleToml) (start exampleToml emptyDisk)
          (createAndDelete (.refused (ascii "Permission denied"))) ∧
      Succeeds exampleToml withAlice (.delete alice.id (.refused (ascii "Permission denied"))) ∧
      ¬ Agrees exampleToml
        (step exampleToml withAlice
          (.delete alice.id (.refused (ascii "Permission denied")))).disk.users
        (step exampleToml withAlice
          (.delete alice.id (.refused (ascii "Permission denied")))).registry := by
  refine ⟨exampleToml_lawful, by simp [createAndDelete, Run.transitions, withAlice], ?_, ?_⟩
  · unfold Succeeds
    decide
  · rintro ⟨users, husers, hsame⟩
    have hfile : readUsers exampleToml (step exampleToml withAlice
        (.delete alice.id (.refused (ascii "Permission denied")))).disk.users = some [alice] := by
      have hdisk : (step exampleToml withAlice
          (.delete alice.id (.refused (ascii "Permission denied")))).disk.users =
            some aliceText := rfl
      obtain ⟨htext, hread⟩ := exampleToml_lawful [alice] aliceText rfl
      rw [hdisk, readUsers, Option.filter_some, if_pos htext, Option.bind_some, hread]
    obtain rfl := Option.some.inj (husers.symm.trans hfile)
    obtain ⟨id, hid⟩ := (hsame alice).mp (by simp)
    have hnone : (step exampleToml withAlice
        (.delete alice.id (.refused (ascii "Permission denied")))).registry.byId.entries = [] := by
      decide
    have hentry := AList.mem_lookup_iff.mp hid
    rw [hnone] at hentry
    cases hentry

end Example

end Site
end MultiUser
end RunNginx
