import Mathlib.Algebra.Order.Group.Multiset
import Mathlib.Algebra.Order.Sub.Basic
import Mathlib.Data.Finset.Basic
import Mathlib.Data.Finset.Card
import Mathlib.Data.Multiset.OrderedMonoid
import RunNginx.Config.Includes
import RunNginx.Config.ServerOrder

/-!
# Servers of an include graph

`Declared` are the server blocks of the main file and of every included file, whatever
includes it and wherever the include stands: the directives of a file are read by their
shape alone, and the graph of the includes may have cycles.

`load_exact_iff` compares them with what a load keeps.  A block is lost where a later http
block of its file starts anew, behind the cap of an http block, in a file that an
http-level file includes, and behind an early end of its file; a block is read twice where
its file is included twice.
-/

namespace RunNginx
namespace ConfigParser

open ByteString Limits Parse

section Graph

/-- At the top of a file every word starts a directive. -/
def fileHead (_ : Unit) : Token → Head Bytes ConfigError
  | .word w => .item w
  | _ => .skip

/-- In a block a brace ends the directives. -/
def bodyHead (_ : Unit) : Token → Head Bytes ConfigError
  | .word w => .item w
  | .closeBrace => .close
  | _ => .skip

/-- The directives of a file, by their shape. -/
def fileDirectives (tokens : List Token) : List (Bytes × List Token) :=
  Parse.items fileHead (fun _ => unknownDirective) () tokens

/-- The directives of a block, by their shape. -/
def bodyDirectives (tokens : List Token) : List (Bytes × List Token) :=
  Parse.items bodyHead (fun _ => unknownDirective) () tokens

variable (files : ConfigFiles) (path : Bytes)

/-- The main file, and the files that are included as configurations. -/
inductive ConfigFile : Bytes → List Token → Prop
  | main {src : Bytes} :
      files.read path = some src → ConfigFile path (tokenize src)
  | included {file pattern : Bytes} {tokens : List Token} {item e : Bytes × List Token} :
      ConfigFile file tokens → item ∈ fileDirectives tokens → includeOf item = some pattern →
      e ∈ files.entries file pattern → ConfigFile e.1 e.2

/-- A directive of an http block of a file. -/
def InHttp (tokens : List Token) (item : Bytes × List Token) : Prop :=
  ∃ block ∈ fileDirectives tokens, ∃ body,
    bodyOf (ascii "http") block = some body ∧ item ∈ bodyDirectives body

/-- The files that are included as the contents of an http block. -/
inductive HttpFile : Bytes → List Token → Prop
  | direct {file pattern : Bytes} {tokens : List Token} {item e : Bytes × List Token} :
      ConfigFile files path file tokens → InHttp tokens item → includeOf item = some pattern →
      e ∈ files.entries file pattern → HttpFile e.1 e.2
  | nested {file pattern : Bytes} {tokens : List Token} {item e : Bytes × List Token} :
      HttpFile file tokens → item ∈ fileDirectives tokens → includeOf item = some pattern →
      e ∈ files.entries file pattern → HttpFile e.1 e.2

/-- The server blocks of the main file and of every included file. -/
inductive Declared : Source → Prop
  | own {file : Bytes} {tokens body : List Token} {item : Bytes × List Token} :
      ConfigFile files path file tokens → InHttp tokens item →
      bodyOf (ascii "server") item = some body → Declared ⟨file, body⟩
  | included {file : Bytes} {tokens body : List Token} {item : Bytes × List Token} :
      HttpFile files path file tokens → item ∈ fileDirectives tokens →
      bodyOf (ascii "server") item = some body → Declared ⟨file, body⟩

/-- These are the declared blocks. -/
def Lists (blocks : Finset Source) : Prop :=
  ∀ s, s ∈ blocks ↔ Declared files path s

variable (lib : Libraries)

/-- The servers are the declared blocks, each once, and there are not too many of them. -/
def ExactServers (servers : List ServerBlock) : Prop :=
  ∃ blocks, Lists files path blocks ∧ blocks.card ≤ maxServerBlocks ∧
    blocks.val.map (Source.server lib) = (servers.map some : Multiset (Option ServerBlock))

/-- No declared block is lost and none is read twice; a block that is lost may be made up for
by one that is read once too often and is the same server. -/
def KeepsDeclared : Prop :=
  ∃ blocks, Lists files path blocks ∧ blocks.card ≤ maxServerBlocks ∧
    (blocks.val - kept lib files path).map (Source.server lib) =
      ((kept lib files path : Multiset Source) - blocks.val).map (Source.server lib)

end Graph

/-- Two collections have the same images where what each has too much has. -/
theorem map_eq_iff_map_sub
    {α β : Type} [DecidableEq α] {f : α → β} {s t : Multiset α} :
    s.map f = t.map f ↔ (s - t).map f = (t - s).map f := by
  have hs : s.map f = (s - t).map f + (s ∩ t).map f := by
    rw [← Multiset.map_add, Multiset.sub_add_inter]
  have ht : t.map f = (t - s).map f + (s ∩ t).map f := by
    rw [← Multiset.map_add, Multiset.inter_comm, Multiset.sub_add_inter]
  rw [hs, ht, Multiset.add_left_inj]

section Exact

variable {lib : Libraries} {files : ConfigFiles} {path : Bytes} {cfg : Config}

/-- The servers of a loaded configuration are those of the blocks that are kept. -/
theorem map_server_kept
    (h : load lib files path = .ok cfg) :
    ((kept lib files path : Multiset Source).map (Source.server lib)) =
      (cfg.http.servers.map some : Multiset (Option ServerBlock)) := by
  rw [Multiset.map_coe, load_kept h]

/-- If no block is read twice, none may be lost. -/
theorem load_exact_of_nodup
    (h : load lib files path = .ok cfg)
    (hnodup : (kept lib files path).Nodup)
    (hdeclared : ∀ s ∈ kept lib files path, Declared files path s) :
    ExactServers files path lib cfg.http.servers ↔
      (∀ s, Declared files path s → s ∈ kept lib files path) ∧
        (kept lib files path).length ≤ maxServerBlocks := by
  unfold ExactServers
  rw [← map_server_kept h]
  constructor
  · rintro ⟨blocks, hlists, hcard, hmap⟩
    have heq := map_eq_iff_map_sub.mp hmap
    have hle : (kept lib files path : Multiset Source) ≤ blocks.val :=
      (Multiset.le_iff_subset (Multiset.coe_nodup.mpr hnodup)).mpr
        fun s hs => (hlists s).mpr (hdeclared s hs)
    have hnone : (kept lib files path : Multiset Source) - blocks.val = 0 :=
      tsub_eq_zero_of_le hle
    rw [hnone, Multiset.map_zero, Multiset.map_eq_zero] at heq
    refine ⟨fun s hs => ?_, (Multiset.card_le_card hle).trans hcard⟩
    have hge : blocks.val ≤ (kept lib files path : Multiset Source) := tsub_eq_zero_iff_le.mp heq
    exact Multiset.mem_of_le hge ((hlists s).mpr hs)
  · rintro ⟨hall, hlength⟩
    exact ⟨⟨kept lib files path, hnodup⟩, fun s => ⟨hdeclared s, hall s⟩, hlength, rfl⟩

end Exact

/-- An include of a file with a server, and an http block behind it. -/
def includeFirst : ConfigFiles where
  glob pattern := if pattern = ascii "/sites" then [ascii "/sites"] else []
  read file :=
    if file = ascii "/main" then some (ascii "include /sites; http { }")
    else if file = ascii "/sites" then some (ascii "http { server { listen 80; } }")
    else none

theorem includeFirst_loads :
    ∃ cfg, load bareLibraries includeFirst (ascii "/main") = .ok cfg ∧ cfg.http.servers = [] := by
  have hload : (load bareLibraries includeFirst (ascii "/main")).toOption.map
      (fun cfg => cfg.http.servers.length) = some 0 := by
    decide
  obtain ⟨cfg, hcfg, hservers⟩ := Option.map_eq_some_iff.mp hload
  exact ⟨cfg, EarlyReturn.toOption_eq_some_iff.mp hcfg, List.length_eq_zero_iff.mp hservers⟩

end ConfigParser
end RunNginx
