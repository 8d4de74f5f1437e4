import RunNginx.Api.Backup
import RunNginx.Config.Types
import RunNginx.Lib.JsonText
import RunNginx.Server.Response

/-!
# JSON answers of the management API

Some answers are written by a JSON library, and some are put together from texts, in which
nothing is escaped.

`readLogs_logsJson`: the log lines are read back whatever they hold.  `readSystem_iff`: the
answer about the system is read back exactly if its texts need no escapes.  `listed_backups`:
the list of the backups names, after any run, those that a restore finds.
-/

namespace RunNginx
namespace Api

open ByteString Decimal JsonText

/-! ### Log lines -/

/-- `{"lines": [..], "total": ..}` -/
def logsJson (lines : List Bytes) : Bytes :=
  ascii "\x7b\"lines\":" ++ array string lines ++ ascii ",\"total\":" ++ render lines.length ++
    ascii "\x7d"

def readLogs : Bytes → Option (List Bytes × Nat) :=
  readWhole (readClosed (readBoth (readBehind (ascii "\x7b\"lines\":") (readArray readString))
    (readBehind (ascii "\"total\":") readNumber)))

/-- Whatever the lines hold, they are read back. -/
theorem readLogs_logsJson
    (lines : List Bytes) :
    readLogs (logsJson lines) = some (lines, lines.length) := by
  have htext : logsJson lines = closed (both (behind (ascii "\x7b\"lines\":") (array string))
      (behind (ascii "\"total\":") render)) (lines, lines.length) := by
    simp [logsJson, closed, both, behind, ascii]
  rw [readLogs, htext, readWhole_closed_iff (inverts_both
    (inverts_behind (by decide) (inverts_array inverts_string))
    (inverts_behind (by decide) inverts_number))]
  exact ⟨fun _ _ => trivial, trivial⟩

/-! ### The system -/

section System

/-- What the processor offers, as the code found it. -/
inductive SimdLevel
  | scalar
  | sse2
  | avx2
deriving DecidableEq, Repr

def SimdLevel.text : SimdLevel → Bytes
  | .scalar => ascii "Scalar"
  | .sse2 => ascii "Sse2"
  | .avx2 => ascii "Avx2"

/-- What the answer about the system is made from. -/
structure SystemEnv where
  /-- Seconds since the start. -/
  uptime : Nat
  configPath : Bytes
  servers : Nat
  simd : SimdLevel
  groups : List UpstreamGroupDef

/-- One upstream group, its texts as they are. -/
def groupJson (g : UpstreamGroupDef) : Bytes :=
  ascii "\x7b\"name\":\"" ++ g.name ++ ascii "\",\"policy\":\"" ++ g.policy ++
    ascii "\",\"peers\":" ++ array (fun p : Bytes × Nat => quoted p.1) g.peers ++
      ascii ",\"health_interval\":" ++ render g.healthInterval ++ ascii "\x7d"

def systemJson (env : SystemEnv) : Bytes :=
  ascii "\x7b\"version\":\"" ++ pkgVersion ++ ascii "\",\"uptime_s\":" ++
    render env.uptime ++ ascii ",\"uptime_seconds\":" ++ render env.uptime ++
      ascii ",\"config\":\"" ++ env.configPath ++ ascii "\",\"servers\":" ++ render env.servers ++
        ascii ",\"server_blocks\":" ++ render env.servers ++ ascii ",\"simd\":\"" ++
          env.simd.text ++ ascii "\",\"upstream_groups\":" ++ array groupJson env.groups ++
            ascii "\x7d"

/-- Name, policy, peers and check interval of a group. -/
abbrev GroupValues :=
  Bytes × Bytes × List Bytes × Nat

/-- The eight values of the answer. -/
abbrev SystemValues :=
  Bytes × Nat × Nat × Bytes × Nat × Nat × Bytes × List GroupValues

def groupText : GroupValues → Bytes :=
  closed (both (behind (ascii "\x7b\"name\":") quoted)
    (both (behind (ascii "\"policy\":") quoted)
      (both (behind (ascii "\"peers\":") (array quoted))
        (behind (ascii "\"health_interval\":") render))))

def readGroup : Bytes → Option (GroupValues × Bytes) :=
  readClosed (readBoth (readBehind (ascii "\x7b\"name\":") readString)
    (readBoth (readBehind (ascii "\"policy\":") readString)
      (readBoth (readBehind (ascii "\"peers\":") (readArray readString))
        (readBehind (ascii "\"health_interval\":") readNumber))))

def systemText : SystemValues → Bytes :=
  closed (both (behind (ascii "\x7b\"version\":") quoted)
    (both (behind (ascii "\"uptime_s\":") render)
      (both (behind (ascii "\"uptime_seconds\":") render)
        (both (behind (ascii "\"config\":") quoted)
          (both (behind (ascii "\"servers\":") render)
            (both (behind (ascii "\"server_blocks\":") render)
              (both (behind (ascii "\"simd\":") quoted)
                (behind (ascii "\"upstream_groups\":") (array groupText)))))))))

/-- A reader of the answer, by the rules of JSON. -/
def readSystem : Bytes → Option SystemValues :=
  readWhole (readClosed (readBoth (readBehind (ascii "\x7b\"version\":") readString)
    (readBoth (readBehind (ascii "\"uptime_s\":") readNumber)
      (readBoth (readBehind (ascii "\"uptime_seconds\":") readNumber)
        (readBoth (readBehind (ascii "\"config\":") readString)
          (readBoth (readBehind (ascii "\"servers\":") readNumber)
            (readBoth (readBehind (ascii "\"server_blocks\":") readNumber)
              (readBoth (readBehind (ascii "\"simd\":") readString)
                (readBehind (ascii "\"upstream_groups\":") (readArray readGroup))))))))))

def groupValues (g : UpstreamGroupDef) : GroupValues :=
  (g.name, g.policy, g.peers.map Prod.fst, g.healthInterval)

def systemValues (env : SystemEnv) : SystemValues :=
  (pkgVersion, env.uptime, env.uptime, env.configPath, env.servers, env.servers,
    env.simd.text, env.groups.map groupValues)

/-- A group whose texts need no escapes. -/
def PlainGroup (g : UpstreamGroupDef) : Prop :=
  IsPlain g.name ∧ IsPlain g.policy ∧ ∀ p ∈ g.peers, IsPlain p.1

theorem groupJson_eq
    (g : UpstreamGroupDef) :
    groupJson g = groupText (groupValues g) := by
  have hpeers : array (fun p : Bytes × Nat => quoted p.1) g.peers =
      array quoted (g.peers.map Prod.fst) :=
    (array_map quoted Prod.fst g.peers).symm
  rw [groupJson, hpeers]
  simp [groupText, groupValues, closed, both, behind, quoted, ascii]

theorem systemJson_eq
    (env : SystemEnv) :
    systemJson env = systemText (systemValues env) := by
  have hgroups : array groupJson env.groups = array groupText (env.groups.map groupValues) := by
    rw [array_map]
    exact congrArg (fun write => array write env.groups) (funext groupJson_eq)
  rw [systemJson, hgroups]
  simp [systemText, systemValues, closed, both, behind, quoted, ascii]

theorem inverts_group :
    Inverts (fun v : GroupValues => IsPlain v.1 ∧ IsPlain v.2.1 ∧ (∀ p ∈ v.2.2.1, IsPlain p) ∧ True)
      readGroup groupText :=
  inverts_closed (inverts_both (inverts_behind (by decide) inverts_quoted)
    (inverts_both (inverts_behind (by decide) inverts_quoted)
      (inverts_both (inverts_behind (by decide) (inverts_array inverts_quoted))
        (inverts_behind (by decide) inverts_number))))

/--
The answer about the system is read back if and only if the path of the configuration and the
texts of the groups need no escapes.
-/
theorem readSystem_iff
    (env : SystemEnv) :
    readSystem (systemJson env) = some (systemValues env) ↔
      IsPlain env.configPath ∧ ∀ g ∈ env.groups, PlainGroup g := by
  have hplain : ∀ s : Bytes, (s.all fun b => escape b == [b]) = true → IsPlain s :=
    fun s h b hb => eq_of_beq (List.all_eq_true.mp h b hb)
  have hversion : IsPlain pkgVersion := hplain _ (by decide)
  have hsimd : IsPlain env.simd.text := by
    cases env.simd with
    | scalar => exact hplain _ (by decide)
    | sse2 => exact hplain _ (by decide)
    | avx2 => exact hplain _ (by decide)
  rw [systemJson_eq, readSystem, systemText, readWhole_closed_iff
    (inverts_both (inverts_behind (by decide) inverts_quoted)
      (inverts_both (inverts_behind (by decide) inverts_number)
        (inverts_both (inverts_behind (by decide) inverts_number)
          (inverts_both (inverts_behind (by decide) inverts_quoted)
            (inverts_both (inverts_behind (by decide) inverts_number)
              (inverts_both (inverts_behind (by decide) inverts_number)
                (inverts_both (inverts_behind (by decide) inverts_quoted)
                  (inverts_behind (by decide) (inverts_array inverts_group)))))))))]
  simp [systemValues, groupValues, PlainGroup, hversion, hsimd]

end System

/-! ### The backups -/

section Backups

/-- One entry of the directory of the backups. -/
structure DirEntry where
  name : Bytes
  isDir : Bool
  /-- Seconds since the epoch, where they can be told. -/
  modified : Option Nat
  /-- Is there a users file in it? -/
  hasUsers : Bool
deriving DecidableEq, Repr

def backupJson (name : Bytes) (ts : Nat) (hasUsers : Bool) : Bytes :=
  ascii "\x7b\"id\":\"" ++ name ++ ascii "\",\"ts\":" ++ render ts ++
    ascii ",\"has_users\":" ++ bool hasUsers ++ ascii "\x7d"

def isBackupEntry (e : DirEntry) : Bool :=
  e.isDir && (ascii "backup_").isPrefixOf e.name

/-- The entries as the directory is read, or none where it cannot be. -/
def listBackups : Option (List DirEntry) → Bytes
  | none => ascii "[]"
  | some entries =>
      let items := (entries.filter isBackupEntry).map fun e =>
        backupJson e.name (e.modified.getD 0) e.hasUsers
      array id (items.mergeSort fun a b => decide (a ≤ b))

/-- Name, time and users file of a backup. -/
abbrev BackupValues :=
  Bytes × Nat × Bool

def backupText : BackupValues → Bytes :=
  closed (both (behind (ascii "\x7b\"id\":") quoted)
    (both (behind (ascii "\"ts\":") render) (behind (ascii "\"has_users\":") bool)))

/-- A reader of the list, by the rules of JSON. -/
def readBackups : Bytes → Option (List BackupValues) :=
  readWhole (readArray (readClosed (readBoth (readBehind (ascii "\x7b\"id\":") readString)
    (readBoth (readBehind (ascii "\"ts\":") readNumber)
      (readBehind (ascii "\"has_users\":") readBool)))))

def entryValues (e : DirEntry) : BackupValues :=
  (e.name, e.modified.getD 0, e.hasUsers)

/-- The list is read back in some order, if the names need no escapes. -/
theorem readBackups_listBackups
    {entries : List DirEntry} (hplain : ∀ e ∈ entries, isBackupEntry e = true → IsPlain e.name) :
    ∃ items, readBackups (listBackups (some entries)) = some items ∧
      items.Perm ((entries.filter isBackupEntry).map entryValues) := by
  have htext : ∀ e : DirEntry,
      backupJson e.name (e.modified.getD 0) e.hasUsers = backupText (entryValues e) := by
    intro e
    simp [backupJson, backupText, entryValues, closed, both, behind, quoted, ascii]
  let values := (entries.filter isBackupEntry).map entryValues
  let items := values.mergeSort fun a b => decide (backupText a ≤ backupText b)
  have hperm : items.Perm values := List.mergeSort_perm _ _
  have hlist : listBackups (some entries) = array backupText items := by
    have hsort : items.map backupText =
        (values.map backupText).mergeSort fun a b => decide (a ≤ b) :=
      List.map_mergeSort fun _ _ _ _ => rfl
    have htexts : (entries.filter isBackupEntry).map
        (fun e => backupJson e.name (e.modified.getD 0) e.hasUsers) = values.map backupText := by
      rw [List.map_map]
      exact List.map_congr_left fun e _ => htext e
    rw [listBackups, htexts, ← hsort, array_map]
    rfl
  refine ⟨items, ?_, hperm⟩
  rw [hlist, readBackups, backupText, readWhole_array_iff (inverts_closed
    (inverts_both (inverts_behind (by decide) inverts_quoted)
      (inverts_both (inverts_behind (by decide) inverts_number)
        (inverts_behind (by decide) inverts_bool))))]
  intro v hv
  obtain ⟨e, he, rfl⟩ := List.mem_map.mp (hperm.mem_iff.mp hv)
  obtain ⟨hmem, hentry⟩ := List.mem_filter.mp he
  exact ⟨hplain e hmem hentry, trivial, trivial⟩

open Backup

/-- Names that a restore accepts and that need no escapes. -/
def NamesKept (disk : Disk) : Prop :=
  ∀ id ∈ disk.backups, IsPlain id ∧ isBackupId id = true

theorem dirName_kept
    (env : BackupEnv) (body : Bytes) :
    IsPlain (dirName env body) ∧ isBackupId (dirName env body) = true := by
  have hlabel : ∀ b ∈ labelOf env body, MultiUser.isUsernameByte b = true := by
    unfold labelOf
    intro b hb
    cases hfilter : (env.parseLabel body).filter fun s =>
        !s.isEmpty && s.length ≤ 32 && s.all MultiUser.isUsernameByte with
    | none =>
        rw [hfilter] at hb
        cases hb
    | some label =>
        rw [hfilter] at hb
        obtain ⟨-, hall⟩ := Option.filter_eq_some_iff.mp hfilter
        rw [Bool.and_eq_true] at hall
        exact List.all_eq_true.mp hall.2 b hb
  obtain ⟨rest, hrest, hname⟩ : ∃ rest, (∀ b ∈ rest, MultiUser.isUsernameByte b = true) ∧
      dirName env body = ascii "backup_" ++ rest := by
    have hdigits : ∀ b ∈ render env.ts, MultiUser.isUsernameByte b = true := by
      have hdigit : ∀ b, isDigit b = true → MultiUser.isUsernameByte b = true :=
        forall_byte (by decide +kernel)
      exact fun b hb => hdigit b (isDigit_of_mem_render hb)
    rw [dirName]
    split
    · exact ⟨_, hdigits, rfl⟩
    · refine ⟨render env.ts ++ (ascii "_" ++ labelOf env body), ?_, by simp⟩
      have hunder : ∀ b ∈ ascii "_", MultiUser.isUsernameByte b = true :=
        List.all_eq_true.mp (by decide)
      exact List.forall_mem_append.mpr
        ⟨hdigits, List.forall_mem_append.mpr ⟨hunder, hlabel⟩⟩
  have hall : ∀ b ∈ dirName env body, MultiUser.isUsernameByte b = true := by
    rw [hname]
    exact List.forall_mem_append.mpr ⟨List.all_eq_true.mp (by decide), hrest⟩
  have hbyte : ∀ b, MultiUser.isUsernameByte b = true → escape b = [b] ∧ b ≠ 46 ∧ b ≠ 47 :=
    forall_byte (by decide +kernel)
  refine ⟨fun b hb => (hbyte b (hall b hb)).1, ?_⟩
  have hslash : (dirName env body).contains PathText.slash = false := by
    rw [List.contains_eq_mem, decide_eq_false_iff_not]
    exact fun h => (hbyte _ (hall _ h)).2.2 rfl
  have hdots : contains (ascii "..") (dirName env body) = false := by
    rw [← Bool.not_eq_true, contains_iff_infix (by decide)]
    exact fun h => (hbyte 46 (hall 46 (h.subset (by decide)))).2.1 rfl
  have hbackup : (ascii "backup_").isPrefixOf (dirName env body) = true := by
    rw [hname, List.isPrefixOf_iff_prefix]
    exact List.prefix_append _ _
  rw [isBackupId, hslash, hdots, hbackup]
  rfl

/-- What one step does to the names. -/
theorem step_namesKept
    {disk : Disk} (h : NamesKept disk) (op : Op) :
    NamesKept (step disk op) := by
  have hinsert : ∀ (name : Bytes) (snapshot : Snapshot),
      IsPlain name ∧ isBackupId name = true →
        ∀ id ∈ disk.backups.insert name snapshot, IsPlain id ∧ isBackupId id = true := by
    intro name snapshot hname id hid
    rcases (AList.mem_insert _).mp hid with rfl | hid
    · exact hname
    · exact h id hid
  cases op with
  | backup env body =>
      rw [step, apiBackup]
      dsimp only
      split
      · exact h
      split
      · exact hinsert _ _ (dirName_kept env body)
      · exact hinsert _ _ (dirName_kept env body)
  | restore env body =>
      rw [step, NamesKept, restore_backups]
      exact h
  | delete removal id =>
      rw [step, apiDeleteBackup]
      split
      · exact h
      split
      · exact h
      rename_i snapshot hlookup
      split
      · exact fun other hother => h other (AList.mem_erase.mp hother).2
      · exact hinsert _ _ (h id (AList.lookup_isSome.mp (by rw [hlookup]; rfl)))
  | editConf contents => exact h
  | editUsers contents => exact h

/-- What a run does to the names. -/
theorem run_namesKept
    {disk : Disk} (h : NamesKept disk) (ops : List Op) :
    NamesKept (ops.foldl step disk) := by
  induction ops generalizing disk with
  | nil => exact h
  | cons op ops ih => exact ih (step_namesKept h op)

/-- The entry of a snapshot. -/
def dirEntry (modified : Bytes → Option Nat) (s : Sigma fun _ : Bytes => Snapshot) : DirEntry :=
  ⟨s.1, true, modified s.1, s.2.users.isSome⟩

/--
A reading of the directory: the snapshots in any order, between other entries.  The directory
cannot be read where there is none.
-/
def Reads (modified : Bytes → Option Nat) (disk : Disk) : Option (List DirEntry) → Prop
  | none => disk.backups = ∅
  | some entries => ∃ others, (∀ e ∈ others, isBackupEntry e = false) ∧
      entries.Perm (disk.backups.entries.map (dirEntry modified) ++ others)

/--
After any run from a directory without backups, the list is read back.  It names every backup
once, with its time and whether it holds a users file, and nothing else.
-/
theorem listed_backups
    {disk : Disk} {ops : List Op} {listing : Option (List DirEntry)}
    (modified : Bytes → Option Nat)
    (hfresh : disk.backups = ∅) (hread : Reads modified (ops.foldl step disk) listing) :
    ∃ items, readBackups (listBackups listing) = some items ∧ (items.map Prod.fst).Nodup ∧
      ∀ id ts hasUsers, (id, ts, hasUsers) ∈ items ↔
        ∃ snapshot, (ops.foldl step disk).backups.lookup id = some snapshot ∧
          isBackupId id = true ∧ ts = (modified id).getD 0 ∧ hasUsers = snapshot.users.isSome := by
  have hkept : NamesKept (ops.foldl step disk) := by
    refine run_namesKept (fun id hid => ?_) ops
    rw [hfresh] at hid
    exact absurd hid (AList.notMem_empty id)
  generalize ops.foldl step disk = last at hread hkept
  cases listing with
  | none =>
      have hnone : last.backups = ∅ := hread
      refine ⟨[], by decide, List.nodup_nil, fun id ts hasUsers => ?_⟩
      rw [hnone, AList.lookup_empty]
      simp
  | some entries =>
      obtain ⟨others, hothers, hperm⟩ := hread
      have hentry : ∀ s ∈ last.backups.entries, IsPlain s.1 ∧ isBackupId s.1 = true :=
        fun s hs => hkept s.1 (List.mem_map_of_mem hs)
      have hbackup : ∀ s ∈ last.backups.entries,
          isBackupEntry (dirEntry modified s) = true := by
        intro s hs
        have hid := (hentry s hs).2
        rw [isBackupId, Bool.and_eq_true] at hid
        exact hid.2
      have hfilter : (entries.filter isBackupEntry).Perm
          (last.backups.entries.map (dirEntry modified)) := by
        have hall : (last.backups.entries.map (dirEntry modified)).filter isBackupEntry =
            last.backups.entries.map (dirEntry modified) := by
          refine List.filter_eq_self.mpr fun e he => ?_
          obtain ⟨s, hs, rfl⟩ := List.mem_map.mp he
          exact hbackup s hs
        have hnone : others.filter isBackupEntry = [] :=
          List.filter_eq_nil_iff.mpr fun e he => by rw [hothers e he]; exact nofun
        have := hperm.filter isBackupEntry
        rwa [List.filter_append, hall, hnone, List.append_nil] at this
      have hplain : ∀ e ∈ entries, isBackupEntry e = true → IsPlain e.name := by
        intro e he hbackup
        obtain ⟨s, hs, rfl⟩ :=
          List.mem_map.mp (hfilter.mem_iff.mp (List.mem_filter.mpr ⟨he, hbackup⟩))
        exact (hentry s hs).1
      obtain ⟨items, hitems, hvalues⟩ := readBackups_listBackups hplain
      have hsnapshots := hvalues.trans (hfilter.map entryValues)
      rw [List.map_map] at hsnapshots
      refine ⟨items, hitems, ?_, fun id ts hasUsers => ?_⟩
      · have hkeys := hsnapshots.map Prod.fst
        rw [List.map_map] at hkeys
        exact hkeys.nodup_iff.mpr last.backups.nodupKeys
      · rw [hsnapshots.mem_iff, List.mem_map]
        constructor
        · rintro ⟨s, hs, hvalues⟩
          cases hvalues
          exact ⟨s.2, AList.mem_lookup_iff.mpr hs, (hentry s hs).2, rfl, rfl⟩
        · rintro ⟨snapshot, hlookup, -, rfl, rfl⟩
          exact ⟨⟨id, snapshot⟩, AList.mem_lookup_iff.mp hlookup, rfl⟩

/-- A file of the directory, and the backup of second 1 in it. -/
def exampleEntries : List DirEntry :=
  [⟨ascii "backup_notes.txt", false, some 7, false⟩, ⟨ascii "backup_1", true, some 1, true⟩]

theorem listed_backups_example :
    ∃ items, readBackups (listBackups (some exampleEntries)) = some items ∧
      (ascii "backup_1", 1, true) ∈ items := by
  have hrun : ([.backup exampleBackup []] : List Op).foldl step (exampleDisk (some [])) =
      ⟨some (ascii "http \x7b\x7d"), some [], AList.singleton (ascii "backup_1")
        ⟨some (ascii "http \x7b\x7d"), some []⟩⟩ := rfl
  have hread : Reads (fun _ => some 1)
      (([.backup exampleBackup []] : List Op).foldl step (exampleDisk (some [])))
      (some exampleEntries) := by
    rw [hrun]
    exact ⟨[⟨ascii "backup_notes.txt", false, some 7, false⟩], List.forall_mem_singleton.mpr rfl,
      List.Perm.swap _ _ _⟩
  obtain ⟨items, hitems, -, hmem⟩ := listed_backups (fun _ => some 1) rfl hread
  refine ⟨items, hitems, (hmem _ _ _).mpr ?_⟩
  rw [hrun]
  exact ⟨_, rfl, rfl, rfl, rfl⟩

end Backups

end Api
end RunNginx
