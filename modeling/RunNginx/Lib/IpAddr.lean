import RunNginx.Lib.Decimal

/-!
# IP addresses and their text forms

IPv4 and IPv6 addresses, the textual forms URLs and sockets use, and the address
classes a connection filter asks about.

`parseIpv4_render` is the round trip of the dotted form; `parseIpAddr_bracket`
says that a text in square brackets is no address.
-/

namespace IpAddr

open ByteString

/-- Four octets. -/
structure V4 where
  a : UInt8
  b : UInt8
  c : UInt8
  d : UInt8
deriving DecidableEq, Repr

/-- Eight 16-bit groups. -/
structure V6 where
  groups : List UInt16
  length_eq : groups.length = 8
deriving DecidableEq, Repr

end IpAddr

/-- An address of either family. -/
inductive IpAddr
  | v4 (addr : IpAddr.V4)
  | v6 (addr : IpAddr.V6)
deriving DecidableEq, Repr

namespace IpAddr

open ByteString

namespace V4

def isLoopback (ip : V4) : Bool :=
  ip.a == 127

def isUnspecified (ip : V4) : Bool :=
  ip.a == 0 && ip.b == 0 && ip.c == 0 && ip.d == 0

/-- 10.0.0.0/8, 172.16.0.0/12 and 192.168.0.0/16. -/
def isPrivate (ip : V4) : Bool :=
  ip.a == 10 || (ip.a == 172 && 16 ≤ ip.b && ip.b ≤ 31) || (ip.a == 192 && ip.b == 168)

def isLinkLocal (ip : V4) : Bool :=
  ip.a == 169 && ip.b == 254

/-- Dotted decimal form. -/
def render (ip : V4) : Bytes :=
  Decimal.render ip.a.toNat ++ 46 :: (Decimal.render ip.b.toNat ++
    46 :: (Decimal.render ip.c.toNat ++ 46 :: Decimal.render ip.d.toNat))

end V4

namespace V6

def isLoopback (ip : V6) : Bool :=
  ip.groups == [0, 0, 0, 0, 0, 0, 0, 1]

def isUnspecified (ip : V6) : Bool :=
  ip.groups == [0, 0, 0, 0, 0, 0, 0, 0]

/-- fc00::/7. -/
def isUniqueLocal (ip : V6) : Bool :=
  ip.groups.head?.any fun g => g &&& 0xfe00 == 0xfc00

/-- fe80::/10. -/
def isUnicastLinkLocal (ip : V6) : Bool :=
  ip.groups.head?.any fun g => g &&& 0xffc0 == 0xfe80

/-- The IPv4 address in a `::ffff:0:0/96` address. -/
def mappedV4 (ip : V6) : Option V4 :=
  match ip.groups with
  | [0, 0, 0, 0, 0, 0xffff, x, y] =>
      some ⟨(x >>> 8).toUInt8, x.toUInt8, (y >>> 8).toUInt8, y.toUInt8⟩
  | _ => none

/-- Start and length of the first longest run of zero groups. -/
def longestZeroRun (groups : List UInt16) : Nat × Nat :=
  let runAt := fun i => ((groups.drop i).takeWhile (· == 0)).length
  (List.range groups.length).foldl
    (fun best i => if best.2 < runAt i then (i, runAt i) else best) (0, 0)

def renderGroups (groups : List UInt16) : Bytes :=
  [58].intercalate (groups.map fun g => Decimal.renderHex g.toNat)

/-- The compressed form, without brackets. -/
def render (ip : V6) : Bytes :=
  let (start, len) := longestZeroRun ip.groups
  if len < 2 then renderGroups ip.groups
  else renderGroups (ip.groups.take start) ++ [58, 58] ++
    renderGroups (ip.groups.drop (start + len))

end V6

/-- One to three decimal digits below 256, without a leading zero. -/
def parseOctet (s : Bytes) : Option UInt8 :=
  if s ≠ [] ∧ s.length ≤ 3 ∧ s.all Decimal.isDigit ∧ (s.head? = some 48 → s.length = 1) ∧
      Decimal.value s < 256 then
    some (UInt8.ofNat (Decimal.value s))
  else none

/-- Parse the dotted decimal form. -/
def parseIpv4 (s : Bytes) : Option V4 :=
  match (splitByte 46 s).mapM parseOctet with
  | some [a, b, c, d] => some ⟨a, b, c, d⟩
  | _ => none

/-- Value of a hexadecimal digit. -/
def hexVal (b : UInt8) : Option UInt8 :=
  if 48 ≤ b ∧ b ≤ 57 then some (b - 48)
  else if 97 ≤ b ∧ b ≤ 102 then some (b - 97 + 10)
  else if 65 ≤ b ∧ b ≤ 70 then some (b - 65 + 10)
  else none

/-- One to four hexadecimal digits. -/
def parseGroup (s : Bytes) : Option UInt16 :=
  if s = [] ∨ 4 < s.length then none
  else (s.mapM hexVal).map fun ds =>
    ds.foldl (fun acc d => 16 * acc + d.toUInt16) 0

/-- Colon-separated groups; a dotted address may stand for the last two if `dotted`. -/
def parseGroups (dotted : Bool) : List Bytes → Option (List UInt16)
  | [] => some []
  | [s] =>
      match parseGroup s, parseIpv4 s with
      | some g, _ => some [g]
      | none, some ip =>
          if dotted then
            some [ip.a.toUInt16 <<< 8 ||| ip.b.toUInt16, ip.c.toUInt16 <<< 8 ||| ip.d.toUInt16]
          else none
      | none, none => none
  | s :: rest =>
      (parseGroup s).bind fun g => (parseGroups dotted rest).map fun gs => g :: gs

/-- The groups of one half of a compressed address. -/
def parseHalf (dotted : Bool) (s : Bytes) : Option (List UInt16) :=
  if s = [] then some [] else parseGroups dotted (splitByte 58 s)

/-- All groups of the text, with the compressed run filled in. -/
def expandIpv6 (s : Bytes) : Option (List UInt16) :=
  match find [58, 58] s with
  | none => parseGroups true (splitByte 58 s)
  | some i =>
      match parseHalf false (s.take i), parseHalf true (s.drop (i + 2)) with
      | some head, some tail =>
          if head.length + tail.length < 8 then
            some (head ++ List.replicate (8 - head.length - tail.length) 0 ++ tail)
          else none
      | _, _ => none

/-- Parse an IPv6 address without brackets. -/
def parseIpv6 (s : Bytes) : Option V6 :=
  match expandIpv6 s with
  | none => none
  | some groups => if h : groups.length = 8 then some ⟨groups, h⟩ else none

/-- Parse an address of either family. -/
def parseIpAddr (s : Bytes) : Option IpAddr :=
  match parseIpv4 s with
  | some ip => some (.v4 ip)
  | none => (parseIpv6 s).map .v6

theorem parseOctet_render
    (b : UInt8) :
    parseOctet (Decimal.render b.toNat) = some b := by
  have hall : ∀ n < 256, parseOctet (Decimal.render n) = some (UInt8.ofNat n) := by
    decide +kernel
  simpa using hall b.toNat b.toNat_lt

/-- The dotted form is read back. -/
theorem parseIpv4_render
    (ip : V4) :
    parseIpv4 ip.render = some ip := by
  have hdot : ∀ n, (46 : UInt8) ∉ Decimal.render n := by
    intro n hmem
    exact absurd (Decimal.isDigit_of_mem_render hmem) (by decide)
  unfold parseIpv4 V4.render
  rw [splitByte_append (hdot _), splitByte_append (hdot _), splitByte_append (hdot _),
    splitByte_of_not_mem (hdot _)]
  simp [List.mapM_cons, parseOctet_render]

theorem parseIpAddr_render
    (ip : V4) :
    parseIpAddr ip.render = some (.v4 ip) := by
  rw [parseIpAddr, parseIpv4_render]

/-- A bracket starts no group and no octet. -/
theorem parseIpAddr_bracket
    (s : Bytes) :
    parseIpAddr (91 :: s) = none := by
  have hsplit : ∀ (c : UInt8) (t : Bytes), c ≠ 91 →
      ∃ u us, splitByte c (91 :: t) = (91 :: u) :: us := by
    intro c t hc
    rw [splitByte, if_neg (Ne.symm hc)]
    cases splitByte c t with
    | nil => exact ⟨[], [], rfl⟩
    | cons u us => exact ⟨u, us, rfl⟩
  have hv4 : ∀ t, parseIpv4 (91 :: t) = none := by
    intro t
    obtain ⟨u, us, hus⟩ := hsplit 46 t (by decide)
    have hoctet : parseOctet (91 :: u) = none := by
      simp [parseOctet, show Decimal.isDigit 91 = false by decide]
    simp [parseIpv4, hus, List.mapM_cons, hoctet]
  have hgroups : ∀ dotted t, parseGroups dotted (splitByte 58 (91 :: t)) = none := by
    intro dotted t
    obtain ⟨u, us, hus⟩ := hsplit 58 t (by decide)
    have hgroup : parseGroup (91 :: u) = none := by
      have : hexVal 91 = none := by decide
      simp [parseGroup, List.mapM_cons, this]
    rw [hus]
    cases us with
    | nil => simp [parseGroups, hgroup, hv4]
    | cons v vs => simp [parseGroups, hgroup]
  have hexpand : expandIpv6 (91 :: s) = none := by
    unfold expandIpv6
    cases hfind : find [58, 58] (91 :: s) with
    | none => exact hgroups true s
    | some i =>
        cases i with
        | zero =>
            obtain ⟨⟨t, ht⟩, _⟩ := (find_eq_some_iff (by simp) _ _).mp hfind
            simp at ht
        | succ i =>
            have : parseHalf false ((91 :: s).take (i + 1)) = none := by
              rw [parseHalf, List.take_succ_cons, if_neg (by simp)]
              exact hgroups false _
            simp only [this]
  rw [parseIpAddr, hv4, parseIpv6, hexpand]
  rfl

end IpAddr
