import Mathlib.Data.UInt
import RunNginx.Config.Types
import RunNginx.Lib.Run

/-!
# Upstream groups

A group spreads connections over its peers and counts, for each peer, the connections that
are open.  A connect chooses a peer by what it reads of the group, counts itself there and
then opens the connection; between these steps other requests run.  A release looks the
peer up by its address.

`run_accounted`: in a run in which no connection is lost behind its opening and every
released connection belongs to the first peer with its address, the counters tell the
connections, and none goes below zero.
-/

namespace RunNginx
namespace Upstream

inductive LbPolicy
  | roundRobin
  | leastConn
  | ipHash
  | random
deriving DecidableEq, Repr

structure PeerConfig where
  addr : SocketAddr
  weight : UInt32
deriving DecidableEq, Repr

structure UpstreamGroupConfig where
  name : Bytes
  peers : List PeerConfig
  policy : LbPolicy
  /-- In seconds. -/
  failTimeout : Nat
  maxFails : Nat
deriving DecidableEq, Repr

structure PeerState where
  addr : SocketAddr
  weight : UInt32
  activeConns : UInt32
  fails : Nat
  /-- In seconds since the epoch. -/
  downUntil : Nat
deriving DecidableEq, Repr

structure UpstreamGroup where
  name : Bytes
  peers : List PeerState
  policy : LbPolicy
  rrCounter : UInt64
  failTimeoutSecs : Nat
  maxFails : Nat
deriving DecidableEq, Repr

/-- What a connect reads of the peers while it chooses one; other requests run in between. -/
structure View where
  downUntil : Nat → Nat
  activeConns : Nat → UInt32

def ipHash : IpAddr → UInt64
  | .v4 ip =>
      let n := ((ip.a.toUInt64 * 256 + ip.b.toUInt64) * 256 + ip.c.toUInt64) * 256 +
        ip.d.toUInt64
      n ^^^ (n >>> 16)
  | .v6 ip => ip.groups.foldl (fun h s => h * 31 + s.toUInt64) 0

namespace UpstreamGroup

def new (cfg : UpstreamGroupConfig) : UpstreamGroup where
  name := cfg.name
  peers := cfg.peers.map fun p => ⟨p.addr, p.weight, 0, 0, 0⟩
  policy := cfg.policy
  rrCounter := 0
  failTimeoutSecs := cfg.failTimeout
  maxFails := cfg.maxFails

/-- Change one peer. -/
def modifyPeer (i : Nat) (f : PeerState → PeerState) (g : UpstreamGroup) : UpstreamGroup :=
  { g with peers := g.peers.modify i f }

def weightOf (g : UpstreamGroup) (i : Nat) : UInt32 :=
  (g.peers[i]?.map PeerState.weight).getD 0

/-- The peer whose repeated slots a slot falls into; `cum` are the slots passed so far. -/
def selectSlot (weightOf : Nat → UInt32) (slot : UInt32) (selected : Nat) :
    UInt32 → List Nat → Nat
  | _, [] => selected
  | cum, i :: is =>
      if slot < cum + weightOf i then i
      else selectSlot weightOf slot selected (cum + weightOf i) is

/-- The first of the peers with the fewest connections. -/
def leastLoaded (activeConns : Nat → UInt32) (first : Nat) (rest : List Nat) : Nat :=
  rest.foldl (fun best i => if activeConns i < activeConns best then i else best) first

/-- The peer a connect chooses, if one is up, and the group after that. -/
def pick (nowSecs : Nat) (clientIp : Option IpAddr) (view : View) (g : UpstreamGroup) :
    Option (Nat × UpstreamGroup) :=
  match (List.range g.peers.length).filter fun i => view.downUntil i ≤ nowSecs with
  | [] => none
  | first :: rest =>
      let available := first :: rest
      match g.policy with
      | .roundRobin =>
          let totalWeight := (available.map g.weightOf).sum
          let slot := g.rrCounter.toUInt32 % max totalWeight 1
          some (selectSlot g.weightOf slot first 0 available,
            { g with rrCounter := g.rrCounter + 1 })
      | .leastConn => some (leastLoaded view.activeConns first rest, g)
      | .ipHash =>
          let hash := (clientIp.map Upstream.ipHash).getD 0
          some (available.getD (hash.toNat % available.length) first, g)
      | .random =>
          let idx := (nowSecs ^^^ (nowSecs >>> 17)) % available.length
          some (available.getD idx first, g)

def markFail (i nowSecs : Nat) (g : UpstreamGroup) : UpstreamGroup :=
  g.modifyPeer i fun p =>
    if g.maxFails ≤ p.fails + 1 ∧ 0 < g.failTimeoutSecs then
      { p with fails := p.fails + 1, downUntil := nowSecs + g.failTimeoutSecs }
    else { p with fails := p.fails + 1 }

/-- Count a connection more, or one less. -/
def addConn (i : Nat) : UpstreamGroup → UpstreamGroup :=
  modifyPeer i fun p => { p with activeConns := p.activeConns + 1 }

def subConn (i : Nat) : UpstreamGroup → UpstreamGroup :=
  modifyPeer i fun p => { p with activeConns := p.activeConns - 1 }

/-- The first peer with an address. -/
def findPeer (addr : SocketAddr) (g : UpstreamGroup) : Option Nat :=
  g.peers.findIdx? fun p => p.addr == addr

def release (addr : SocketAddr) (g : UpstreamGroup) : UpstreamGroup :=
  match g.findPeer addr with
  | some i => g.subConn i
  | none => g

/-- One round of the health check for a peer. -/
def probe (i nowSecs : Nat) (ok : Bool) (g : UpstreamGroup) : UpstreamGroup :=
  if ok then
    g.modifyPeer i fun p =>
      if nowSecs < p.downUntil then { p with downUntil := 0, fails := 0 } else p
  else g.markFail i nowSecs

end UpstreamGroup

/-- How the opening of a connection ends. -/
inductive Opening
  | connected
  /-- The connection is there, but its options cannot be set. -/
  | optionRefused
  | failed (nowSecs : Nat)
deriving DecidableEq, Repr

/-- A group, and its connections by the index of their peer. -/
structure System where
  group : UpstreamGroup
  /-- Connects that have chosen a peer. -/
  chosen : List Nat
  /-- Connects that have counted themselves and wait for the connection. -/
  opening : List Nat
  /-- Connections handed out and not yet released. -/
  held : List Nat

/-- A step of one of the requests, or of the health checks. -/
inductive Event
  | choose (nowSecs : Nat) (clientIp : Option IpAddr) (view : View)
  | count (i : Nat)
  | finish (i : Nat) (result : Opening)
  | release (i : Nat)
  | probe (i nowSecs : Nat) (ok : Bool)

namespace System

def start (cfg : UpstreamGroupConfig) : System :=
  ⟨.new cfg, [], [], []⟩

/-- The steps of `connect`, and `release` with the address that came with the connection. -/
def step (s : System) : Event → System
  | .choose nowSecs clientIp view =>
      match s.group.pick nowSecs clientIp view with
      | some (i, group) => { s with group := group, chosen := i :: s.chosen }
      | none => s
  | .count i =>
      if i ∈ s.chosen then
        { s with
          group := s.group.addConn i
          chosen := s.chosen.erase i
          opening := i :: s.opening }
      else s
  | .finish i result =>
      if i ∈ s.opening then
        match result with
        | .connected =>
            { s with
              group := s.group.modifyPeer i fun p => { p with fails := 0 }
              opening := s.opening.erase i
              held := i :: s.held }
        | .optionRefused => { s with opening := s.opening.erase i }
        | .failed nowSecs =>
            { s with
              group := (s.group.subConn i).markFail i nowSecs
              opening := s.opening.erase i }
      else s
  | .release i =>
      if i ∈ s.held then
        { s with
          group := (s.group.peers[i]?.map fun p => s.group.release p.addr).getD s.group
          held := s.held.erase i }
      else s
  | .probe i nowSecs ok => { s with group := s.group.probe i nowSecs ok }

section Accounting

variable {s : System} {e : Event}

/-- The counter of a peer. -/
def activeConns (g : UpstreamGroup) (i : Nat) : Nat :=
  ((g.peers[i]?.map PeerState.activeConns).getD 0).toNat

/-- The counters tell the connections, those that are being opened included. -/
structure Accounted (s : System) : Prop where
  chosen : ∀ i ∈ s.chosen, i < s.group.peers.length
  counted : ∀ i, activeConns s.group i = s.held.count i + s.opening.count i

/-- The step takes one off a counter that is at zero. -/
def Underflows (s : System) : Event → Prop
  | .finish i (.failed _) => i ∈ s.opening ∧ activeConns s.group i = 0
  | .release i =>
      i ∈ s.held ∧ ∃ p j, s.group.peers[i]? = some p ∧ s.group.findPeer p.addr = some j ∧
        activeConns s.group j = 0
  | _ => False

/--
The condition on a step: a counter does not reach the bound of its type, no connection is
lost behind its opening, and a connection that is released belongs to the first peer with
its address.
-/
def Sound (s : System) : Event → Prop
  | .count i => activeConns s.group i + 1 < UInt32.size
  | .finish _ result => result ≠ .optionRefused
  | .release i => ∀ p ∈ s.group.peers[i]?, s.group.findPeer p.addr = some i
  | _ => True

instance decidableSound :
    ∀ (s : System) (e : Event), Decidable (Sound s e)
  | s, .count i => inferInstanceAs (Decidable (activeConns s.group i + 1 < UInt32.size))
  | _, .finish _ result => inferInstanceAs (Decidable (result ≠ .optionRefused))
  | s, .release i =>
      inferInstanceAs (Decidable (∀ p ∈ s.group.peers[i]?, s.group.findPeer p.addr = some i))
  | _, .choose .. => isTrue trivial
  | _, .probe .. => isTrue trivial

theorem selectSlot_mem
    {weightOf : Nat → UInt32} {slot cum : UInt32} {selected : Nat} (is : List Nat) :
    UpstreamGroup.selectSlot weightOf slot selected cum is = selected ∨
      UpstreamGroup.selectSlot weightOf slot selected cum is ∈ is := by
  induction is generalizing cum with
  | nil => exact Or.inl rfl
  | cons i is ih =>
      unfold UpstreamGroup.selectSlot
      split
      · exact Or.inr List.mem_cons_self
      · exact ih.imp_right (List.mem_cons_of_mem i)

theorem leastLoaded_mem
    {activeConns : Nat → UInt32} (first : Nat) (rest : List Nat) :
    UpstreamGroup.leastLoaded activeConns first rest ∈ first :: rest := by
  unfold UpstreamGroup.leastLoaded
  induction rest generalizing first with
  | nil => exact List.mem_cons_self
  | cons i rest ih =>
      rw [List.foldl_cons]
      split
      · exact List.mem_cons_of_mem _ (ih i)
      · rcases List.mem_cons.mp (ih first) with h | h
        · rw [h]
          exact List.mem_cons_self
        · exact List.mem_cons_of_mem _ (List.mem_cons_of_mem _ h)

theorem getD_mem
    {is : List Nat} {n first : Nat} (h : first ∈ is) :
    is.getD n first ∈ is := by
  rw [List.getD_eq_getElem?_getD]
  cases hn : is[n]? with
  | none => exact h
  | some i => exact List.mem_of_getElem? hn

/-- A connect chooses a peer of the group and leaves all peers as they are. -/
theorem pick_spec
    {g group : UpstreamGroup} {nowSecs i : Nat} {clientIp : Option IpAddr} {view : View}
    (h : g.pick nowSecs clientIp view = some (i, group)) :
    i < g.peers.length ∧ group.peers = g.peers := by
  unfold UpstreamGroup.pick at h
  split at h
  · cases h
  rename_i first rest havailable
  have hbound : ∀ j ∈ first :: rest, j < g.peers.length := by
    intro j hj
    rw [← havailable] at hj
    exact List.mem_range.mp (List.mem_of_mem_filter hj)
  dsimp only at h
  split at h
  · cases h
    refine ⟨hbound _ ?_, rfl⟩
    rcases selectSlot_mem (first :: rest) with h | h
    · rw [h]
      exact List.mem_cons_self
    · exact h
  · cases h
    exact ⟨hbound _ (leastLoaded_mem _ _), rfl⟩
  · cases h
    exact ⟨hbound _ (getD_mem List.mem_cons_self), rfl⟩
  · cases h
    exact ⟨hbound _ (getD_mem List.mem_cons_self), rfl⟩

theorem toNat_add_one
    {n : UInt32} (h : n.toNat + 1 < UInt32.size) :
    (n + 1).toNat = n.toNat + 1 := by
  rw [UInt32.toNat_add]
  exact Nat.mod_eq_of_lt h

theorem toNat_sub_one
    {n : UInt32} (h : 0 < n.toNat) :
    (n - 1).toNat = n.toNat - 1 := by
  rw [UInt32.toNat_sub_of_le]
  · rfl
  · exact h

section Counters

variable {g : UpstreamGroup} {i j : Nat}

theorem activeConns_modifyPeer
    (f : PeerState → PeerState) :
    activeConns (g.modifyPeer i f) j =
      if i = j then ((g.peers[j]?.map fun p => (f p).activeConns).getD 0).toNat
      else activeConns g j := by
  unfold activeConns UpstreamGroup.modifyPeer
  dsimp only
  rw [List.getElem?_modify]
  by_cases h : i = j
  · simp [h, Function.comp_def]
  · simp [h]

/-- Other fields of a peer do not matter to its counter. -/
theorem activeConns_of_kept
    {f : PeerState → PeerState} (hf : ∀ p, (f p).activeConns = p.activeConns) :
    activeConns (g.modifyPeer i f) j = activeConns g j := by
  rw [activeConns_modifyPeer]
  simp [hf, activeConns]

theorem activeConns_markFail
    (nowSecs : Nat) :
    activeConns (g.markFail i nowSecs) j = activeConns g j := by
  refine activeConns_of_kept fun p => ?_
  split
  · rfl
  · rfl

theorem activeConns_probe
    (nowSecs : Nat) (ok : Bool) :
    activeConns (g.probe i nowSecs ok) j = activeConns g j := by
  unfold UpstreamGroup.probe
  split
  · refine activeConns_of_kept fun p => ?_
    split
    · rfl
    · rfl
  · exact activeConns_markFail nowSecs

theorem activeConns_addConn
    (hi : i < g.peers.length) (hbound : activeConns g i + 1 < UInt32.size) :
    activeConns (g.addConn i) j = activeConns g j + if i = j then 1 else 0 := by
  unfold UpstreamGroup.addConn
  rw [activeConns_modifyPeer]
  by_cases h : i = j
  · subst h
    unfold activeConns at hbound ⊢
    rw [List.getElem?_eq_getElem hi] at hbound ⊢
    rw [if_pos rfl, if_pos rfl]
    exact toNat_add_one hbound
  · rw [if_neg h, if_neg h]
    rfl

theorem activeConns_subConn
    (hpos : 0 < activeConns g i) :
    activeConns (g.subConn i) j = activeConns g j - if i = j then 1 else 0 := by
  unfold UpstreamGroup.subConn
  rw [activeConns_modifyPeer]
  by_cases h : i = j
  · subst h
    unfold activeConns at hpos ⊢
    cases hp : g.peers[i]? with
    | none =>
        rw [hp] at hpos
        cases hpos
    | some p =>
        rw [hp] at hpos
        rw [if_pos rfl, if_pos rfl]
        exact toNat_sub_one hpos
  · rw [if_neg h, if_neg h]
    rfl

theorem length_modifyPeer
    (f : PeerState → PeerState) :
    (g.modifyPeer i f).peers.length = g.peers.length :=
  List.length_modify ..

theorem length_probe
    (nowSecs : Nat) (ok : Bool) :
    (g.probe i nowSecs ok).peers.length = g.peers.length := by
  unfold UpstreamGroup.probe
  split
  · exact length_modifyPeer _
  · exact length_modifyPeer _

end Counters

/-- A counter that is taken one off counts a connection. -/
theorem Accounted.pos_of_opening
    {i : Nat} (h : Accounted s) (hi : i ∈ s.opening) :
    0 < activeConns s.group i := by
  have := List.count_pos_iff.mpr hi
  rw [h.counted]
  omega

theorem Accounted.pos_of_held
    {i : Nat} (h : Accounted s) (hi : i ∈ s.held) :
    0 < activeConns s.group i := by
  have := List.count_pos_iff.mpr hi
  rw [h.counted]
  omega

theorem accounted_start
    (cfg : UpstreamGroupConfig) :
    Accounted (start cfg) := by
  refine ⟨fun i hi => absurd hi List.not_mem_nil, fun i => ?_⟩
  unfold start activeConns UpstreamGroup.new
  dsimp only
  rw [List.getElem?_map]
  cases cfg.peers[i]? with
  | none => rfl
  | some p => rfl

/-- Every sound step keeps the account. -/
theorem accounted_step
    (hs : Accounted s) (he : Sound s e) :
    Accounted (s.step e) := by
  cases e with
  | choose nowSecs clientIp view =>
      unfold step
      dsimp only
      split
      · rename_i i group hpick
        obtain ⟨hi, hpeers⟩ := pick_spec hpick
        refine ⟨?_, ?_⟩
        · intro j hj
          rw [hpeers]
          rcases List.mem_cons.mp hj with rfl | hj
          · exact hi
          · exact hs.chosen j hj
        · intro j
          have := hs.counted j
          unfold activeConns at this ⊢
          rw [hpeers]
          exact this
      · exact hs
  | count i =>
      unfold step
      dsimp only
      split
      · rename_i hi
        refine ⟨?_, ?_⟩
        · intro j hj
          exact (length_modifyPeer _).symm ▸ hs.chosen j (List.mem_of_mem_erase hj)
        · intro j
          have := hs.counted j
          dsimp only
          rw [activeConns_addConn (hs.chosen i hi) he, List.count_cons]
          simp only [beq_iff_eq]
          omega
      · exact hs
  | finish i result =>
      unfold step
      dsimp only
      split
      · rename_i hi
        have hcount : ∀ j, (s.opening.erase i).count j =
            s.opening.count j - if (i == j) = true then 1 else 0 :=
          fun j => List.count_erase
        have hpos := List.count_pos_iff.mpr hi
        cases result with
        | connected =>
            refine ⟨?_, ?_⟩
            · intro j hj
              exact (length_modifyPeer _).symm ▸ hs.chosen j hj
            · intro j
              have := hs.counted j
              dsimp only
              have hkept : activeConns (s.group.modifyPeer i fun p => { p with fails := 0 }) j =
                  activeConns s.group j :=
                activeConns_of_kept fun _ => rfl
              rw [hkept, List.count_cons, hcount, this]
              simp only [beq_iff_eq]
              split
              · rename_i h
                subst h
                omega
              · omega
        | optionRefused => exact absurd rfl he
        | failed nowSecs =>
            refine ⟨?_, ?_⟩
            · intro j hj
              have hlen : ((s.group.subConn i).markFail i nowSecs).peers.length =
                  s.group.peers.length :=
                (length_modifyPeer _).trans (length_modifyPeer _)
              exact hlen.symm ▸ hs.chosen j hj
            · intro j
              have := hs.counted j
              dsimp only
              rw [activeConns_markFail, activeConns_subConn (hs.pos_of_opening hi), hcount, this]
              simp only [beq_iff_eq]
              split
              · rename_i h
                subst h
                omega
              · omega
      · exact hs
  | release i =>
      unfold step
      dsimp only
      split
      · rename_i hi
        have hpos := hs.pos_of_held hi
        cases hp : s.group.peers[i]? with
        | none =>
            unfold activeConns at hpos
            rw [hp] at hpos
            cases hpos
        | some p =>
            have hrelease : s.group.release p.addr = s.group.subConn i := by
              unfold UpstreamGroup.release
              rw [he p hp]
            refine ⟨?_, ?_⟩
            · intro j hj
              rw [Option.map_some, Option.getD_some, hrelease]
              exact (length_modifyPeer _).symm ▸ hs.chosen j hj
            · intro j
              have := hs.counted j
              have hheld := List.count_pos_iff.mpr hi
              dsimp only
              rw [Option.map_some, Option.getD_some, hrelease, activeConns_subConn hpos,
                List.count_erase, this]
              simp only [beq_iff_eq]
              split
              · rename_i h
                subst h
                omega
              · omega
      · exact hs
  | probe i nowSecs ok =>
      refine ⟨?_, ?_⟩
      · intro j hj
        exact (length_probe nowSecs ok).symm ▸ hs.chosen j hj
      · intro j
        exact (activeConns_probe nowSecs ok).trans (hs.counted j)

/-- No sound step takes a counter below zero. -/
theorem not_underflows
    (hs : Accounted s) (he : Sound s e) :
    ¬ Underflows s e := by
  intro h
  cases e with
  | finish i result =>
      cases result with
      | failed nowSecs =>
          have := hs.pos_of_opening h.1
          have := h.2
          omega
      | connected => exact h
      | optionRefused => exact h
  | release i =>
      obtain ⟨hi, p, j, hp, hfind, hzero⟩ := h
      rw [he p hp] at hfind
      rw [← Option.some.inj hfind] at hzero
      have := hs.pos_of_held hi
      omega
  | choose nowSecs clientIp view => exact h
  | count i => exact h
  | probe i nowSecs ok => exact h

/--
In a run of sound steps each counter is the number of the connections of its peer, those
that are being opened included, and no step takes a counter below zero.
-/
theorem run_accounted
    (cfg : UpstreamGroupConfig) (es : List Event)
    (hes : Run.Steps step Sound (start cfg) es) :
    (∀ s ∈ Run.states step (start cfg) es,
        ∀ i, activeConns s.group i = s.held.count i + s.opening.count i) ∧
      ∀ t ∈ Run.transitions step (start cfg) es, ¬ Underflows t.1 t.2 := by
  have hstep : ∀ s e, Accounted s → Sound s e → Accounted (s.step e) :=
    fun _ _ => accounted_step
  refine ⟨?_, ?_⟩
  · intro s hs
    exact (Run.invariant hstep (accounted_start cfg) hes s hs).counted
  · intro t ht
    obtain ⟨hs, he⟩ := Run.transitions_rule hstep (accounted_start cfg) hes t ht
    exact not_underflows hs he

end Accounting

section Example

/-- A peer on this port of a machine, with this weight. -/
def peerAt (port : Nat) : PeerConfig :=
  ⟨⟨.v4 ⟨10, 0, 0, 1⟩, port⟩, 1⟩

/-- A round-robin group of these peers. -/
def groupOf (peers : List PeerConfig) : UpstreamGroupConfig :=
  ⟨[], peers, .roundRobin, 30, 3⟩

/-- A connect that reads a group whose peers are all up, and the peer it gets. -/
def connectTo (i : Nat) (result : Opening) : List Event :=
  [.choose 0 none ⟨fun _ => 0, fun _ => 0⟩, .count i, .finish i result]

/-- One request that is served, and one that finds its peer down. -/
def twoRequests : List Event :=
  connectTo 0 .connected ++ connectTo 1 (.failed 5) ++ [Event.release 0]

theorem run_accounted_example :
    (∀ s ∈ Run.states step (start (groupOf [peerAt 8001, peerAt 8002])) twoRequests,
        ∀ i, activeConns s.group i = s.held.count i + s.opening.count i) ∧
      ∀ t ∈ Run.transitions step (start (groupOf [peerAt 8001, peerAt 8002])) twoRequests,
        ¬ Underflows t.1 t.2 :=
  run_accounted (groupOf [peerAt 8001, peerAt 8002]) twoRequests (by decide)

/-- The state after two connections to a peer that is listed twice, the first one released. -/
def listedTwice : System :=
  (connectTo 0 .connected ++ connectTo 1 .connected ++ [Event.release 0]).foldl step
    (start (groupOf [peerAt 8001, peerAt 8001]))

/-- The state after a connection whose options cannot be set. -/
def optionsRefused : System :=
  (connectTo 0 .optionRefused).foldl step (start (groupOf [peerAt 8001]))

/--
A connection whose options cannot be set is counted for good.  The connections to a peer
that is listed twice are all released in its first place, whose counter gets below zero.
-/
theorem lost_connections :
    (activeConns optionsRefused.group 0 = 1 ∧ optionsRefused.held = [] ∧
        optionsRefused.opening = []) ∧
      Underflows listedTwice (Event.release 1) ∧
      activeConns (step listedTwice (Event.release 1)).group 0 = 2 ^ 32 - 1 ∧
      activeConns (step listedTwice (Event.release 1)).group 1 = 1 ∧
      (step listedTwice (Event.release 1)).held = [] := by
  refine ⟨by decide, ⟨by decide, ?_⟩, by decide⟩
  exact ⟨⟨⟨.v4 ⟨10, 0, 0, 1⟩, 8001⟩, 1, 1, 0, 0⟩, 0, by decide, by decide,
    by decide⟩

end Example

end System

end Upstream
end RunNginx
