import RunNginx.Api
import RunNginx.Lib.PathText
import RunNginx.Lib.Run
import RunNginx.Lib.Storage
import RunNginx.Lib.Table
import RunNginx.MultiUser.UserApi

/-!
# Backup and restore

Snapshots of the configuration file and of the users file, in directories that are named
after the second they are taken in.  A users file that is absent is not copied, and the
copy of one that is there is not checked; a restore writes the two files one after the
other.

`backup_restore` is the condition under which a restore undoes whatever came after the
backup.
-/

namespace RunNginx
namespace Backup

open ByteString Storage

/-- What one snapshot directory holds. -/
structure Snapshot where
  conf : Option Bytes
  users : Option Bytes
deriving DecidableEq, Repr

/-- The configuration directory: both files, and the snapshots by name. -/
structure Disk where
  conf : Option Bytes
  users : Option Bytes
  backups : Table Bytes Snapshot

/-- The status and the JSON text of an answer. -/
structure Answer where
  status : Nat
  json : Bytes
deriving DecidableEq, Repr

def Answer.bytes (a : Answer) : Bytes :=
  Api.jsonResponse a.status a.json

/-- What a backup takes from outside. -/
structure BackupEnv where
  /-- Seconds since the epoch. -/
  ts : Nat
  /-- The `label` string of a request body. -/
  parseLabel : Bytes → Option Bytes
  createDir : Except Bytes Unit
  /-- The text of the error for a file that is absent. -/
  absent : Bytes
  confCopy : Write Bytes
  usersCopy : Write Bytes

/-- The label of a backup; one that is not acceptable is as good as none. -/
def labelOf (env : BackupEnv) (body : Bytes) : Bytes :=
  ((env.parseLabel body).filter fun s =>
    !s.isEmpty && s.length ≤ 32 && s.all MultiUser.isUsernameByte).getD []

/-- The name of the directory of a backup. -/
def dirName (env : BackupEnv) (body : Bytes) : Bytes :=
  let label := labelOf env body
  if label = [] then ascii "backup_" ++ Decimal.render env.ts
  else ascii "backup_" ++ Decimal.render env.ts ++ ascii "_" ++ label

/-- An error text in a JSON object. -/
def errorJson (text reason : Bytes) : Bytes :=
  ascii "\x7b\"error\":\"" ++ text ++ reason ++ ascii "\"\x7d"

def apiBackup (env : BackupEnv) (body : Bytes) (disk : Disk) : Answer × Disk :=
  let name := dirName env body
  match env.createDir with
  | .error e => (⟨500, errorJson (ascii "cannot create backup dir: ") e⟩, disk)
  | .ok () =>
      let old := (disk.backups.lookup name).getD ⟨none, none⟩
      match copy disk.conf old.conf env.absent env.confCopy with
      | (conf, .error e) =>
          (⟨500, errorJson (ascii "config copy failed: ") e⟩,
            { disk with backups := disk.backups.insert name { old with conf := conf } })
      | (conf, .ok ()) =>
          let users :=
            if disk.users.isSome then (copy disk.users old.users env.absent env.usersCopy).1
            else old.users
          (⟨200, ascii "\x7b\"id\":\"" ++ name ++ ascii "\",\"ts\":" ++ Decimal.render env.ts ++
              ascii "\x7d"⟩,
            { disk with backups := disk.backups.insert name ⟨conf, users⟩ })

/-- What a restore takes from outside. -/
structure RestoreEnv where
  /-- The `id` string of a request body; an error is a body that is no JSON. -/
  parseId : Bytes → Except Unit (Option Bytes)
  absent : Bytes
  confCopy : Write Bytes
  usersCopy : Write Bytes

/-- Is the id one that a backup could have? -/
def isBackupId (id : Bytes) : Bool :=
  !id.contains PathText.slash && !contains (ascii "..") id && (ascii "backup_").isPrefixOf id

def apiRestore (env : RestoreEnv) (body : Bytes) (disk : Disk) : Answer × Disk :=
  match env.parseId body with
  | .error () => (⟨400, errorJson (ascii "Invalid JSON") []⟩, disk)
  | .ok none => (⟨400, errorJson (ascii "Missing id field") []⟩, disk)
  | .ok (some id) =>
      if !isBackupId id then (⟨400, errorJson (ascii "Invalid backup id") []⟩, disk)
      else match disk.backups.lookup id with
      | none => (⟨404, errorJson (ascii "Backup not found") []⟩, disk)
      | some snapshot =>
          match copy snapshot.conf disk.conf env.absent env.confCopy with
          | (conf, .error e) =>
              (⟨500, errorJson (ascii "config restore failed: ") e⟩, { disk with conf := conf })
          | (conf, .ok ()) =>
              let users :=
                if snapshot.users.isSome then
                  (copy snapshot.users disk.users env.absent env.usersCopy).1
                else disk.users
              (⟨200, ascii "\x7b\"ok\":true,\"restored\":\"" ++ id ++ ascii "\"\x7d"⟩,
                { disk with conf := conf, users := users })

/-- How the removal of a directory ends: a failure may have removed some of its files. -/
inductive Removal
  | done
  | failed (keepConf keepUsers : Bool)
deriving DecidableEq, Repr

def apiDeleteBackup (removal : Removal) (id : Bytes) (disk : Disk) : Answer × Disk :=
  if !isBackupId id then (⟨400, errorJson (ascii "Invalid backup id") []⟩, disk)
  else match disk.backups.lookup id with
  | none => (⟨404, errorJson (ascii "Backup not found") []⟩, disk)
  | some snapshot =>
      match removal with
      | .done =>
          (⟨200, ascii "\x7b\"ok\":true,\"deleted\":\"" ++ id ++ ascii "\"\x7d"⟩,
            { disk with backups := disk.backups.erase id })
      | .failed keepConf keepUsers =>
          let left : Snapshot :=
            ⟨if keepConf then snapshot.conf else none, if keepUsers then snapshot.users else none⟩
          (⟨404, errorJson (ascii "Backup not found") []⟩,
            { disk with backups := disk.backups.insert id left })

section Runs

/-- What happens to the directory between a backup and a restore. -/
inductive Op
  | backup (env : BackupEnv) (body : Bytes)
  | restore (env : RestoreEnv) (body : Bytes)
  | delete (removal : Removal) (id : Bytes)
  | editConf (contents : Option Bytes)
  /-- An edit of the users file, or a user operation that writes it. -/
  | editUsers (contents : Option Bytes)

def step (disk : Disk) : Op → Disk
  | .backup env body => (apiBackup env body disk).2
  | .restore env body => (apiRestore env body disk).2
  | .delete removal id => (apiDeleteBackup removal id disk).2
  | .editConf contents => { disk with conf := contents }
  | .editUsers contents => { disk with users := contents }

/-- The operation is none on the snapshot of this name. -/
def Spares (id : Bytes) (_ : Disk) : Op → Prop
  | .backup env body => dirName env body ≠ id
  | .delete _ other => other ≠ id
  | _ => True

variable {disk : Disk} {id body : Bytes} {snapshot : Snapshot}

theorem restore_backups
    (env : RestoreEnv) (body : Bytes) (disk : Disk) :
    (apiRestore env body disk).2.backups = disk.backups := by
  unfold apiRestore
  repeat' split
  all_goals rfl

/-- A backup under another name leaves a snapshot alone. -/
theorem backup_other
    {env : BackupEnv} (hname : dirName env body ≠ id) :
    (apiBackup env body disk).2.backups.lookup id = disk.backups.lookup id := by
  have hinsert : ∀ s : Snapshot,
      (disk.backups.insert (dirName env body) s).lookup id = disk.backups.lookup id := by
    intro s
    rw [Table.lookup_insert_ite, if_neg (Ne.symm hname)]
  unfold apiBackup
  dsimp only
  split
  · rfl
  split
  · exact hinsert _
  · exact hinsert _

theorem delete_other
    {removal : Removal} {other : Bytes} (hname : other ≠ id) :
    (apiDeleteBackup removal other disk).2.backups.lookup id = disk.backups.lookup id := by
  unfold apiDeleteBackup
  split
  · rfl
  split
  · rfl
  split
  · rw [Table.lookup_erase_ite, if_neg (Ne.symm hname)]
  · rw [Table.lookup_insert_ite, if_neg (Ne.symm hname)]

/-- What one step does to a snapshot that it spares. -/
theorem step_spares
    {op : Op}
    (hsnapshot : disk.backups.lookup id = some snapshot) (hop : Spares id disk op) :
    (step disk op).backups.lookup id = some snapshot := by
  cases op with
  | backup env body => exact (backup_other hop).trans hsnapshot
  | restore env body =>
      rw [step, restore_backups]
      exact hsnapshot
  | delete removal other => exact (delete_other hop).trans hsnapshot
  | editConf contents => exact hsnapshot
  | editUsers contents => exact hsnapshot

/-- What a run does to a snapshot that all its steps spare. -/
theorem run_spares
    {ops : List Op}
    (hsnapshot : disk.backups.lookup id = some snapshot)
    (hops : Run.Steps step (Spares id) disk ops) :
    (ops.foldl step disk).backups.lookup id = some snapshot := by
  induction ops generalizing disk with
  | nil => exact hsnapshot
  | cons op ops ih => exact ih (step_spares hsnapshot hops.1) hops.2

/--
The users file gets to the snapshot: it is copied to the end, or it is absent and the
snapshot does not hold one of an earlier backup in the same second.
-/
def UsersSaved (env : BackupEnv) (body : Bytes) (disk : Disk) : Prop :=
  (disk.users.isSome = true → env.usersCopy = .done) ∧
    (disk.users = none →
      ((disk.backups.lookup (dirName env body)).getD ⟨none, none⟩).users = none)

/-- A backup that succeeds has saved the configuration, and under this condition both files. -/
theorem backup_ok
    {env : BackupEnv}
    (hok : (apiBackup env body disk).1.status = 200) (hsaved : UsersSaved env body disk) :
    (apiBackup env body disk).2.backups.lookup (dirName env body) =
      some ⟨disk.conf, disk.users⟩ := by
  unfold apiBackup at hok ⊢
  rcases hdir : env.createDir with e | done
  · simp only [hdir] at hok
    cases hok
  rcases hcopy : copy disk.conf ((disk.backups.lookup (dirName env body)).getD ⟨none, none⟩).conf
    env.absent env.confCopy with ⟨conf, e | done⟩
  · simp only [hdir, hcopy] at hok
    cases hok
  have hconf : conf = disk.conf := by
    have := copy_ok (congrArg Prod.snd hcopy)
    rw [hcopy] at this
    exact this.2
  have husers : (if disk.users.isSome then (copy disk.users
      ((disk.backups.lookup (dirName env body)).getD ⟨none, none⟩).users env.absent
      env.usersCopy).1
      else ((disk.backups.lookup (dirName env body)).getD ⟨none, none⟩).users) = disk.users := by
    cases hfile : disk.users with
    | none => exact hsaved.2 hfile
    | some users =>
        rw [hsaved.1 (by rw [hfile]; rfl)]
        rfl
  simp only [hcopy]
  rw [Table.lookup_insert_ite, if_pos rfl, husers, hconf]

/-- A restore that succeeds puts back the configuration, and the users file of the snapshot. -/
theorem restore_ok
    {env : RestoreEnv}
    (hok : (apiRestore env body disk).1.status = 200) :
    ∃ id snapshot, env.parseId body = .ok (some id) ∧ disk.backups.lookup id = some snapshot ∧
      (apiRestore env body disk).2.conf = snapshot.conf ∧
      ((snapshot.users.isSome = true → env.usersCopy = .done) →
        (apiRestore env body disk).2.users = snapshot.users.or disk.users) := by
  unfold apiRestore at hok ⊢
  rcases hid : env.parseId body with e | ⟨_ | id⟩
  · simp [hid] at hok
  · simp [hid] at hok
  simp only [hid] at hok ⊢
  by_cases hvalid : (!isBackupId id) = true
  · rw [if_pos hvalid] at hok
    cases hok
  rw [if_neg hvalid] at hok ⊢
  cases hsnapshot : disk.backups.lookup id with
  | none => simp [hsnapshot] at hok
  | some snapshot =>
      simp only [hsnapshot] at hok ⊢
      rcases hcopy : copy snapshot.conf disk.conf env.absent env.confCopy with ⟨conf, e | done⟩
      · simp [hcopy] at hok
      have hconf := copy_ok (congrArg Prod.snd hcopy)
      rw [hcopy] at hconf
      refine ⟨id, snapshot, rfl, hsnapshot, hconf.2, fun hdone => ?_⟩
      cases husers : snapshot.users with
      | none => rfl
      | some users =>
          rw [hdone (by rw [husers]; rfl)]
          rfl

/-- A restore that fails has changed nothing, unless the copy of the configuration was cut. -/
theorem restore_error
    {env : RestoreEnv}
    (hcut : ∀ length reason, env.confCopy ≠ .cut length reason)
    (herror : (apiRestore env body disk).1.status ≠ 200) :
    (apiRestore env body disk).2.conf = disk.conf ∧
      (apiRestore env body disk).2.users = disk.users := by
  unfold apiRestore at herror ⊢
  rcases hid : env.parseId body with e | ⟨_ | id⟩
  · exact ⟨rfl, rfl⟩
  · exact ⟨rfl, rfl⟩
  simp only [hid] at herror ⊢
  by_cases hvalid : (!isBackupId id) = true
  · rw [if_pos hvalid]
    exact ⟨rfl, rfl⟩
  rw [if_neg hvalid] at herror ⊢
  cases hsnapshot : disk.backups.lookup id with
  | none => exact ⟨rfl, rfl⟩
  | some snapshot =>
      simp only [hsnapshot] at herror ⊢
      rcases hcopy : copy snapshot.conf disk.conf env.absent env.confCopy with ⟨conf, e | done⟩
      · refine ⟨?_, rfl⟩
        have := copy_error snapshot.conf disk.conf env.absent hcut (by rw [hcopy]; simp)
        rw [hcopy] at this
        exact this
      · simp [hcopy] at herror

/-- The users file can be put back: it is copied to the end, or there is none to remove. -/
def UsersRestored (env : RestoreEnv) (saved : Option Bytes) (disk : Disk) : Prop :=
  (saved.isSome = true → env.usersCopy = .done) ∧ (saved = none → disk.users = none)

/--
A backup under an id, anything that spares the snapshot, and a restore of the id: if it
succeeds both files are as they were, and if it fails both are untouched.
-/
theorem backup_restore
    (saved : Disk) (backup : BackupEnv) (backupBody : Bytes) (ops : List Op)
    (restore : RestoreEnv) (restoreBody : Bytes) {before : Disk}
    (hok : (apiBackup backup backupBody saved).1.status = 200)
    (hsaved : UsersSaved backup backupBody saved)
    (hops : Run.Steps step (Spares (dirName backup backupBody))
      (apiBackup backup backupBody saved).2 ops)
    (hbefore : before = ops.foldl step (apiBackup backup backupBody saved).2)
    (hid : restore.parseId restoreBody = .ok (some (dirName backup backupBody)))
    (hrestored : UsersRestored restore saved.users before)
    (hcut : ∀ length reason, restore.confCopy ≠ .cut length reason) :
    ((apiRestore restore restoreBody before).1.status = 200 →
        (apiRestore restore restoreBody before).2.conf = saved.conf ∧
          (apiRestore restore restoreBody before).2.users = saved.users) ∧
      ((apiRestore restore restoreBody before).1.status ≠ 200 →
        (apiRestore restore restoreBody before).2.conf = before.conf ∧
          (apiRestore restore restoreBody before).2.users = before.users) := by
  have hsnapshot := run_spares (backup_ok hok hsaved) hops
  rw [← hbefore] at hsnapshot
  refine ⟨fun hok => ?_, restore_error hcut⟩
  obtain ⟨id, snapshot, hparse, hlookup, hconf, husers⟩ := restore_ok hok
  obtain rfl : id = dirName backup backupBody := by
    simpa using hparse.symm.trans hid
  obtain rfl := Option.some.inj (hlookup.symm.trans hsnapshot)
  refine ⟨hconf, ?_⟩
  rw [husers hrestored.1]
  cases hnone : saved.users with
  | none => exact hrestored.2 hnone
  | some users => rfl

end Runs

section Example

/-- A backup in second 1, with no label, whose writes are all done. -/
def exampleBackup : BackupEnv where
  ts := 1
  parseLabel := fun _ => none
  createDir := .ok ()
  absent := ascii "No such file or directory (os error 2)"
  confCopy := .done
  usersCopy := .done

/-- A restore of that backup, whose writes are all done. -/
def exampleRestore : RestoreEnv where
  parseId := fun body =>
    if body = ascii "\x7b\"id\":\"backup_1\"\x7d" then .ok (some (ascii "backup_1"))
    else .error ()
  absent := ascii "No such file or directory (os error 2)"
  confCopy := .done
  usersCopy := .done

/-- A directory with this users file and no backups. -/
def exampleDisk (users : Option Bytes) : Disk :=
  ⟨some (ascii "http \x7b\x7d"), users, ∅⟩

/-- The answer to that restore, and the directory after it. -/
def restored (disk : Disk) : Answer × Disk :=
  apiRestore exampleRestore (ascii "\x7b\"id\":\"backup_1\"\x7d") disk

/-- The directory after that backup and these operations. -/
def backedUp (users : Option Bytes) (ops : List Op) : Disk :=
  ops.foldl step (apiBackup exampleBackup [] (exampleDisk users)).2

/-- Both files were edited, and are put back. -/
theorem backup_restore_example :
    (restored (backedUp (some (ascii "users = []"))
        [.editConf none, .editUsers (some [])])).1.status = 200 ∧
      (restored (backedUp (some (ascii "users = []"))
        [.editConf none, .editUsers (some [])])).2.users = some (ascii "users = []") := by
  have hstatus : (restored (backedUp (some (ascii "users = []"))
      [.editConf none, .editUsers (some [])])).1.status = 200 := by
    decide
  have hboth := backup_restore (exampleDisk (some (ascii "users = []"))) exampleBackup []
    [.editConf none, .editUsers (some [])] exampleRestore
    (ascii "\x7b\"id\":\"backup_1\"\x7d")
    (by decide) ⟨fun _ => rfl, fun h => by cases h⟩ ⟨trivial, trivial, trivial⟩ rfl
    (by decide) ⟨fun _ => rfl, fun h => by cases h⟩ (by simp [exampleRestore])
  exact ⟨hstatus, (hboth.1 hstatus).2⟩

/-- A users file that came after the backup is still there after the restore. -/
theorem users_not_restored :
    (apiBackup exampleBackup [] (exampleDisk none)).1.status = 200 ∧
      (restored (backedUp none [.editUsers (some (ascii "users = []"))])).1.status = 200 ∧
      (restored (backedUp none [.editUsers (some (ascii "users = []"))])).2.users ≠
        (exampleDisk none).users := by
  decide

end Example

end Backup
end RunNginx
