import RunNginx.FastCgi.CgiText
import RunNginx.Lib.ChunkedBody
import RunNginx.WebSocket

/-!
# The answer to an upgrade

An upstream that switches protocols may send its first frames right behind the head, and
how much of them arrives with the head depends on the network.  The status is looked up in
everything that has arrived, read as text: binary data of a frame makes the text unreadable,
and with it the status.

`handshake_iff`: an upgrade succeeds exactly if the bytes that arrive up to the end of the
head are UTF-8, however they are cut into reads.
-/

namespace RunNginx
namespace WebSocket

open ByteString Proxy
open FastCgi (joined PlainLine)

/-- The head of an upstream's answer to an upgrade. -/
structure HandshakeReply where
  version : Bytes
  code : Nat
  reason : Bytes
  fieldLines : List Bytes
  version_http : ascii "HTTP/" <+: version
  version_visible : ∀ b ∈ version, Utf8.isVisible b = true
  code_digits : 100 ≤ code ∧ code < 1000
  reason_apart : reason = [] ∨ ∃ text, reason = 32 :: text
  plain : ∀ l ∈ (version ++ 32 :: (Decimal.render code ++ reason)) :: fieldLines, PlainLine l

namespace HandshakeReply

variable (m : HandshakeReply)

def startLine : Bytes :=
  m.version ++ 32 :: (Decimal.render m.code ++ m.reason)

/-- The head and its blank line. -/
def head : Bytes :=
  joined crlf m.startLine m.fieldLines ++ (crlf ++ crlf)

/-- No read leaves more than the code accepts in front of the end of the head. -/
def WithinLimit (pieces : List Bytes) : Prop :=
  ∀ j, m.head.length ≤ (pieces.take j).flatten.length ∨
    (pieces.take j).flatten.length ≤ maxHandshake

variable {m}

theorem find_head
    (got : Bytes) :
    find (crlf ++ crlf) (m.head ++ got) =
      some (joined crlf m.startLine m.fieldLines).length := by
  have h := FastCgi.find_blank (.inl rfl) m.plain got
  rw [head, List.append_assoc, List.append_assoc]
  exact h

theorem length_head :
    m.head.length = (joined crlf m.startLine m.fieldLines).length + 4 := by
  rw [head, List.length_append]
  rfl

/-- The blank line is there as soon as the head is. -/
theorem contains_blank_iff
    {buf got : Bytes} (h : buf <+: m.head ++ got) :
    contains (crlf ++ crlf) buf = true ↔ m.head.length ≤ buf.length := by
  have hfind := find_of_isPrefix (by decide) h (find_head got)
  have hlength : (crlf ++ crlf).length = 4 := rfl
  rw [contains, hfind, length_head, hlength]
  split
  · rename_i hle
    exact iff_of_true rfl hle
  · rename_i hle
    exact iff_of_false Bool.false_ne_true hle

/-- The first line of what has arrived is the start line. -/
theorem lines_head
    (got : Bytes) :
    (lines (m.head ++ got)).headD [] = m.startLine := by
  have hlf : 10 ∉ m.startLine := (m.plain _ List.mem_cons_self).lf
  have hline : ∃ rest, m.head ++ got = m.startLine ++ crlf ++ rest := by
    unfold head
    cases m.fieldLines with
    | nil => exact ⟨crlf ++ got, by simp [joined]⟩
    | cons l ls => exact ⟨joined crlf l ls ++ (crlf ++ crlf) ++ got, by simp [FastCgi.joined_cons]⟩
  obtain ⟨rest, hrest⟩ := hline
  rw [hrest, HttpMessage.lines_line hlf]
  rfl

theorem statusOf_startLine
    (default : Nat) :
    statusOf m.startLine default = m.code := by
  have hversion : m.version ≠ [] := by
    intro hnil
    have hle := m.version_http.length_le
    rw [hnil] at hle
    exact absurd hle (by decide)
  have hbound : m.code < Decimal.u16Bound := Nat.lt_trans m.code_digits.2 (by decide)
  rw [statusOf, startLine, Utf8.splitWhitespace_append_space hversion m.version_visible,
    List.getElem?_cons_succ, ← List.head?_eq_getElem?,
    Utf8.head?_splitWhitespace (Decimal.render_ne_nil _)
      (fun b hb => Utf8.visible_of_mem_render hb) m.reason_apart,
    Option.bind_some, Decimal.parseUnsigned_render hbound, Option.getD_some]

/-- The status is read if all that has arrived is text. -/
theorem handshakeStatus_head
    (got : Bytes) :
    handshakeStatus (m.head ++ got) = if Utf8.isUtf8 (m.head ++ got) then m.code else 0 := by
  rw [handshakeStatus]
  split
  · rw [lines_head, statusOf_startLine]
  · rfl

end HandshakeReply

section Reading

variable {m : HandshakeReply} {got : Bytes} {later : List ReadEvent}

/-- The loop ends behind the piece that completes the head, or gives up before. -/
theorem readHandshake_cases
    {pieces : List Bytes} {buf : Bytes} (hne : ∀ p ∈ pieces, p ≠ [])
    (hbytes : buf ++ pieces.flatten = m.head ++ got) (hshort : buf.length < m.head.length) :
    readHandshake buf (Stream.reads pieces ++ later) =
        .ok (buf ++ Stream.arrived (m.head.length - buf.length) pieces) ∨
      (∃ e, readHandshake buf (Stream.reads pieces ++ later) = .error e) ∧
        ∃ j, (buf ++ (pieces.take j).flatten).length < m.head.length ∧
          maxHandshake < (buf ++ (pieces.take j).flatten).length := by
  induction pieces generalizing buf with
  | nil =>
      have hlength := congrArg List.length hbytes
      simp only [List.flatten_nil, List.append_nil, List.length_append] at hlength
      omega
  | cons piece pieces ih =>
      obtain ⟨hpiece, hrest⟩ := List.forall_mem_cons.mp hne
      rw [List.flatten_cons, ← List.append_assoc] at hbytes
      have hblank := HandshakeReply.contains_blank_iff
        (hbytes ▸ List.prefix_append (buf ++ piece) pieces.flatten)
      have harrived : Stream.arrived (m.head.length - buf.length) (piece :: pieces) =
          piece ++ Stream.arrived (m.head.length - (buf ++ piece).length) pieces := by
        obtain ⟨n, hn⟩ := Nat.exists_eq_succ_of_ne_zero (Nat.sub_ne_zero_of_lt hshort)
        rw [hn, Stream.arrived, List.length_append, ← Nat.sub_sub, hn]
      have htake : ∀ j, buf ++ ((piece :: pieces).take (j + 1)).flatten =
          buf ++ piece ++ (pieces.take j).flatten := by
        intro j
        rw [List.take_succ_cons, List.flatten_cons, List.append_assoc]
      obtain ⟨b, data, rfl⟩ := List.exists_cons_of_ne_nil hpiece
      rw [harrived, ← List.append_assoc]
      simp only [Stream.reads, List.map_cons, List.cons_append, readHandshake]
      by_cases hhead : m.head.length ≤ (buf ++ b :: data).length
      · left
        rw [if_pos (hblank.mpr hhead), Nat.sub_eq_zero_of_le hhead, Stream.arrived, List.append_nil]
      · rw [if_neg fun h => hhead (hblank.mp h)]
        by_cases hlarge : maxHandshake < (buf ++ b :: data).length
        · rw [if_pos hlarge]
          refine .inr ⟨⟨_, rfl⟩, 1, ?_⟩
          rw [htake, List.take_zero, List.flatten_nil, List.append_nil]
          exact ⟨Nat.not_le.mp hhead, hlarge⟩
        · rw [if_neg hlarge]
          rcases ih hrest hbytes (Nat.not_le.mp hhead) with hread | ⟨herror, j, hj⟩
          · exact .inl hread
          · exact .inr ⟨herror, j + 1, by rwa [htake]⟩

/-- The bytes of the answer arrive, in these pieces and with something behind them. -/
structure Answered (m : HandshakeReply) (ex : Exchange) (pieces : List Bytes) : Prop where
  connected : ex.connect = .done
  nodelay : ex.nodelay = .ok ()
  sent : ex.send = .done
  reads : ∃ later, ex.reads = Stream.reads pieces ++ later
  pieces_ne : ∀ p ∈ pieces, p ≠ []
  head_first : m.head <+: pieces.flatten

variable {ex : Exchange} {pieces : List Bytes}

/-- The upgrade goes through with what has arrived if the status in it is 101. -/
theorem upgradeToWebsocket_read
    (h : Answered m ex pieces) {buf : Bytes} (hread : readHandshake [] ex.reads = .ok buf)
    (addr method path : Bytes) (headers : Headers) :
    (handshakeStatus buf = 101 →
        (upgradeToWebsocket addr method path headers ex).1 = .ok buf) ∧
      (handshakeStatus buf ≠ 101 →
        ∃ e, (upgradeToWebsocket addr method path headers ex).1 = .error e) := by
  simp only [upgradeToWebsocket, h.connected, h.nodelay, h.sent, hread]
  constructor
  · intro hstatus
    rw [if_pos hstatus]
  · intro hstatus
    rw [if_neg hstatus]
    exact ⟨_, rfl⟩

theorem upgradeToWebsocket_unread
    (h : Answered m ex pieces) {e : Bytes} (hread : readHandshake [] ex.reads = .error e)
    (addr method path : Bytes) (headers : Headers) :
    (upgradeToWebsocket addr method path headers ex).1 = .error e := by
  simp only [upgradeToWebsocket, h.connected, h.nodelay, h.sent, hread]

/-- What has arrived is the head and the first bytes behind it. -/
theorem arrived_head
    (h : m.head <+: pieces.flatten) :
    ∃ got, Stream.arrived m.head.length pieces = m.head ++ got := by
  have hhead := List.prefix_of_prefix_length_le h (Stream.arrived_isPrefix m.head.length pieces)
    (Stream.le_length_arrived h.length_le)
  obtain ⟨got, hgot⟩ := hhead
  exact ⟨got, hgot.symm⟩

/-- What the upgrade is to make of an answer. -/
structure Lawful (m : HandshakeReply) (pieces : List Bytes) (result : Except Bytes Bytes) :
    Prop where
  upgraded : m.code = 101 → m.WithinLimit pieces →
    result = .ok (Stream.arrived m.head.length pieces)
  refused : m.code ≠ 101 → ∃ e, result = .error e

/-- Every answer is taken as it should, except for a 101 that arrives with other than text. -/
theorem handshake_iff
    (h : Answered m ex pieces) (addr method path : Bytes) (headers : Headers) :
    Lawful m pieces (upgradeToWebsocket addr method path headers ex).1 ↔
      (m.code = 101 → m.WithinLimit pieces →
        Utf8.isUtf8 (Stream.arrived m.head.length pieces) = true) := by
  obtain ⟨got, hgot⟩ := arrived_head h.head_first
  obtain ⟨more, hmore⟩ := h.head_first
  obtain ⟨later, hlater⟩ := h.reads
  have hpos : ([] : Bytes).length < m.head.length := by
    rw [HandshakeReply.length_head]
    exact Nat.succ_pos _
  have hstatus := HandshakeReply.handshakeStatus_head (m := m) got
  rw [← hgot] at hstatus
  have hbytes : [] ++ pieces.flatten = m.head ++ more := by
    rw [List.nil_append]
    exact hmore.symm
  rcases @readHandshake_cases m more later pieces [] h.pieces_ne hbytes hpos with
    hread | ⟨⟨e, hread⟩, j, hearly, hlarge⟩
  · rw [← hlater, List.nil_append, List.length_nil, Nat.sub_zero] at hread
    obtain ⟨hyes, hno⟩ := upgradeToWebsocket_read h hread addr method path headers
    constructor
    · intro hlaw hcode hlimit
      refine Decidable.byContradiction fun htext => ?_
      rw [if_neg htext] at hstatus
      obtain ⟨e, herror⟩ := hno (by rw [hstatus]; decide)
      rw [hlaw.upgraded hcode hlimit] at herror
      cases herror
    · intro htext
      refine ⟨fun hcode hlimit => hyes ?_, fun hcode => hno ?_⟩
      · rw [hstatus, if_pos (htext hcode hlimit), hcode]
      · rw [hstatus]
        split
        · exact hcode
        · decide
  · -- The limit is exceeded before the head is there, so nothing is promised for a 101.
    rw [← hlater] at hread
    have hresult := upgradeToWebsocket_unread h hread addr method path headers
    rw [List.nil_append] at hearly hlarge
    have hlimit : ¬ m.WithinLimit pieces := by
      intro hall
      rcases hall j with hle | hle
      · exact Nat.not_lt.mpr hle hearly
      · exact Nat.not_lt.mpr hle hlarge
    exact iff_of_true ⟨fun _ hall => absurd hall hlimit, fun _ => ⟨e, hresult⟩⟩
      fun _ hall => absurd hall hlimit

end Reading

section Example

/-- An upstream that switches protocols. -/
def switchingReply : HandshakeReply where
  version := ascii "HTTP/1.1"
  code := 101
  reason := ascii " Switching Protocols"
  fieldLines := [ascii "Upgrade: websocket", ascii "Connection: Upgrade"]
  version_http := by decide
  version_visible := List.all_eq_true.mp (by decide)
  code_digits := by decide
  reason_apart := .inr ⟨ascii "Switching Protocols", by decide⟩
  plain := by
    refine List.forall_mem_cons.mpr ⟨⟨by decide, by decide, by decide⟩, ?_⟩
    refine List.forall_mem_cons.mpr ⟨⟨by decide, by decide, by decide⟩, ?_⟩
    exact List.forall_mem_singleton.mpr ⟨by decide, by decide, by decide⟩

/-- Its answer arrives in one piece, with these bytes behind it. -/
def switchingExchange (behind : Bytes) : Exchange where
  idle := false
  connect := .done
  nodelay := .ok ()
  send := .done
  reads := Stream.reads [switchingReply.head ++ behind]

theorem answered_switchingExchange
    (behind : Bytes) :
    Answered switchingReply (switchingExchange behind) [switchingReply.head ++ behind] where
  connected := rfl
  nodelay := rfl
  sent := rfl
  reads := ⟨[], (List.append_nil _).symm⟩
  pieces_ne := List.forall_mem_singleton.mpr (by simp [HandshakeReply.head, crlf])
  head_first := by simp

theorem isUtf8_switchingReply :
    Utf8.isUtf8 (switchingReply.head ++ ascii "hello") = true := by
  refine Utf8.isUtf8_append (Utf8.isUtf8_append ?_ (by decide)) (by decide)
  refine FastCgi.isUtf8_joined (by decide) (List.forall_mem_cons.mpr ⟨by decide, ?_⟩)
  exact List.forall_mem_cons.mpr ⟨by decide, List.forall_mem_singleton.mpr (by decide)⟩

theorem arrived_singleton
    (m : HandshakeReply) (behind : Bytes) :
    Stream.arrived m.head.length [m.head ++ behind] = m.head ++ behind := by
  have hnil : ∀ k, Stream.arrived k [] = [] := by
    intro k
    cases k <;> rfl
  rw [HandshakeReply.length_head, Stream.arrived, hnil, List.append_nil]

/-- A text that follows the head is handed on with it. -/
theorem handshake_example :
    Lawful switchingReply [switchingReply.head ++ ascii "hello"]
      (upgradeToWebsocket (ascii "10.0.0.1:80") (ascii "GET") (ascii "/chat") []
        (switchingExchange (ascii "hello"))).1 :=
  (handshake_iff (answered_switchingExchange (ascii "hello")) _ _ _ _).mpr
    fun _ _ => by rw [arrived_singleton]; exact isUtf8_switchingReply

/-- A binary frame that arrives with the head ends the upgrade. -/
theorem frame_ends_upgrade :
    Answered switchingReply (switchingExchange [0x82, 1, 0xFF])
        [switchingReply.head ++ [0x82, 1, 0xFF]] ∧
      switchingReply.code = 101 ∧
      switchingReply.WithinLimit [switchingReply.head ++ [0x82, 1, 0xFF]] ∧
      ∃ e, (upgradeToWebsocket (ascii "10.0.0.1:80") (ascii "GET") (ascii "/chat") []
        (switchingExchange [0x82, 1, 0xFF])).1 = .error e := by
  have hanswered := answered_switchingExchange [0x82, 1, 0xFF]
  refine ⟨hanswered, rfl, fun j => ?_, ?_⟩
  · cases j with
    | zero => exact .inr (Nat.zero_le _)
    | succ j =>
        left
        rw [List.take_succ_cons, List.flatten_cons, List.length_append, List.length_append]
        omega
  · have hread : readHandshake [] (switchingExchange [0x82, 1, 0xFF]).reads =
        .ok (switchingReply.head ++ [0x82, 1, 0xFF]) := by
      rfl
    have htext : Utf8.isUtf8 (switchingReply.head ++ [0x82, 1, 0xFF]) = false := rfl
    refine (upgradeToWebsocket_read hanswered hread _ _ _ _).2 ?_
    rw [HandshakeReply.handshakeStatus_head, htext, if_neg Bool.false_ne_true]
    decide

end Example

end WebSocket
end RunNginx
