import RunNginx.Server.Listener
import RunNginx.Simd.Grammar

/-!
# A body behind the head

The header parser is given everything that was read behind the request line, the body
included, and its buffer limit counts all of it.

`parseHeaders_append_iff`: what follows the header section changes nothing exactly while
both together are within the limit.
-/

namespace RunNginx
namespace Listener

open ByteString Limits Simd

/-- A body that the body limit and the read buffer let follow a header section. -/
structure MayFollow (limit : Nat) (head body : Bytes) : Prop where
  withinLimit : body.length ≤ limit
  withinBuffer : head.length + body.length ≤ readBufferLen

section

variable {head : Bytes} {hs : List Header}

/-- A section that is consumed as a whole is its lines and the blank line. -/
theorem lines_of_parseHeaders
    (hok : parseHeaders head = .ok (hs, head.length)) :
    ∃ lines, head = joinLines lines ++ crlf ∧ hs = lines.map splitLine ∧ Lines 0 0 lines := by
  obtain ⟨-, lines, rest, hhead, hlen, hhs, hlines⟩ := (parseHeaders_eq_ok_iff _ _ _).mp hok
  have hrest : rest = [] := by
    have hcrlf : crlf.length = 2 := rfl
    have h := congrArg List.length hhead
    rw [List.length_append, List.length_append] at h
    exact List.eq_nil_of_length_eq_zero (by omega)
  rw [hrest, List.append_nil] at hhead
  exact ⟨lines, hhead, hhs, hlines⟩

/-- Beyond the buffer limit the request is rejected, whatever its header section is. -/
theorem parseHeaders_overflow
    {buf : Bytes} (h : maxHeaderBuffer < buf.length) :
    parseHeaders buf = .error (ascii "header buffer overflow") :=
  if_pos h

/-- The headers do not depend on what follows them if and only if it fits the header buffer. -/
theorem parseHeaders_append_iff
    (hok : parseHeaders head = .ok (hs, head.length)) (body : Bytes) :
    parseHeaders (head ++ body) = .ok (hs, head.length) ↔
      head.length + body.length ≤ maxHeaderBuffer := by
  obtain ⟨lines, rfl, hhs, hlines⟩ := lines_of_parseHeaders hok
  rw [parseHeaders_eq_ok_iff, List.length_append]
  refine ⟨fun h => h.1, fun hfits => ⟨hfits, lines, body, rfl, ?_, hhs, hlines⟩⟩
  rw [List.length_append]
  rfl

end

theorem parseHeaders_append_iff_example :
    parseHeaders (crlf ++ [97]) = .ok ([], 2) ↔ 2 + 1 ≤ maxHeaderBuffer := by
  have hok : parseHeaders crlf = .ok ([], crlf.length) := by decide
  exact parseHeaders_append_iff hok [97]

/-- A body of 72 KiB behind a section without headers is within every limit, and rejected. -/
theorem body_overflows_header_buffer :
    ¬ ∀ (head body : Bytes) (hs : List Header),
      parseHeaders head = .ok (hs, head.length) → MayFollow defaultMaxBodyBytes head body →
        parseHeaders (head ++ body) = .ok (hs, head.length) := by
  intro h
  have hlen : (List.replicate 73763 (97 : UInt8)).length = 73763 := List.length_replicate
  have hcrlf : parseHeaders crlf = .ok ([], crlf.length) := by decide
  have hfollow : MayFollow defaultMaxBodyBytes crlf (List.replicate 73763 97) :=
    ⟨by rw [hlen]; decide, by rw [hlen]; decide⟩
  have hread := h crlf (List.replicate 73763 97) [] hcrlf hfollow
  have hover : maxHeaderBuffer < (crlf ++ List.replicate 73763 (97 : UInt8)).length := by
    rw [List.length_append, hlen]
    decide
  rw [parseHeaders_overflow hover] at hread
  cases hread

end Listener
end RunNginx
