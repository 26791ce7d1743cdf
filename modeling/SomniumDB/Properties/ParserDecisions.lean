import SomniumDB.Core.RespIndex

/-! # What the parser decides

A decision of the parser lasts when more bytes arrive, and it is not made before the last
byte that it rests on. What is encoded is read back, and nothing outside the buffer is read. -/

namespace SomniumDB.Resp

open Bytes

/-- The decisions of a parser last, and none is early. -/
structure Lasting (parser : Bytes → Nat → Parsed) : Prop where
  complete : ∀ buf more pos stop args, pos ≤ buf.length →
    parser buf pos = .complete stop args →
      pos < stop ∧ stop ≤ buf.length ∧ parser (buf ++ more) pos = .complete stop args
  malformed : ∀ buf more pos, pos ≤ buf.length → parser buf pos = .malformed →
    parser (buf ++ more) pos = .malformed
  /-- A strict prefix of what is complete. -/
  early : ∀ buf pos stop args, pos ≤ buf.length → parser buf pos = .complete stop args →
    ∀ cut, pos ≤ cut → cut < stop → parser (buf.take cut) pos = .needMore

/-- It is enough that no decision changes and that the stop is within the buffer. -/
theorem Lasting.of_append {parser : Bytes → Nat → Parsed}
    (append : ∀ buf more pos, pos ≤ buf.length → parser buf pos ≠ .needMore →
      parser (buf ++ more) pos = parser buf pos)
    (within : ∀ buf pos stop args, pos ≤ buf.length → parser buf pos = .complete stop args →
      pos < stop ∧ stop ≤ buf.length) : Lasting parser where
  complete buf more pos stop args inside accepted := by
    rcases within buf pos stop args inside accepted with ⟨after, before⟩
    refine ⟨after, before, ?_⟩
    rw [append buf more pos inside (by rw [accepted]; exact Parsed.noConfusion), accepted]
  malformed buf more pos inside refused := by
    rw [append buf more pos inside (by rw [refused]; exact Parsed.noConfusion), refused]
  early buf pos stop args inside accepted cut least before := by
    by_contra decided
    have most := (within buf pos stop args inside accepted).2
    have length : (buf.take cut).length = cut := List.length_take_of_le (by omega)
    have same := append (buf.take cut) (buf.drop cut) pos (by omega) decided
    rw [List.take_append_drop, accepted] at same
    have inCut := (within (buf.take cut) pos stop args (by omega) same.symm).2
    omega

theorem Parsed.of_shift {parsed : Parsed} {offset stop : Nat} {args : List Bytes}
    (accepted : parsed.shift offset = .complete stop args) :
    ∃ used, parsed = .complete used args ∧ stop = offset + used := by
  cases parsed with
  | complete used found =>
      cases accepted
      exact ⟨used, rfl, rfl⟩
  | needMore => cases accepted
  | malformed => cases accepted

theorem lasting_parse : Lasting parse := by
  refine Lasting.of_append (fun buf more pos inside => parse_append more inside) ?_
  intro buf pos stop args inside accepted
  rw [parse_shift] at accepted
  rcases Parsed.of_shift accepted with ⟨used, found, rfl⟩
  have bounds := parse_stop found
  rw [List.length_drop] at bounds
  omega

theorem lasting_parseRequest : Lasting parseRequest := by
  refine Lasting.of_append (fun buf more pos inside => parseRequest_append more inside) ?_
  intro buf pos stop args inside accepted
  rw [parseRequest_shift] at accepted
  rcases Parsed.of_shift accepted with ⟨used, found, rfl⟩
  have bounds := parseRequest_stop found
  rw [List.length_drop] at bounds
  omega

/-- For every buffer, extension and position, and for both parsers: what is complete lies
within the buffer and stays complete, what is malformed stays malformed, and a strict prefix
of what is complete needs more. An encoded command within the limits is read back, whatever
follows it. No index is read outside the buffer, and every loop comes to an end. -/
theorem parser_decisions_last :
    Lasting parse ∧ Lasting parseRequest ∧
      (∀ args back, Within args →
        parse (encode args ++ back) 0 = .complete (encode args).length args) ∧
      (∀ data pos, parseAt data pos = .ok (parse data pos)) ∧
      ∀ data pos, parseRequestAt data pos = .ok (parseRequest data pos) := by
  refine ⟨lasting_parse, lasting_parseRequest, ?_, parseAt_eq, parseRequestAt_eq⟩
  rintro args back ⟨few, small⟩
  have parsed := parse_encoded [] back args small (few.trans (by decide))
  rw [if_neg (Nat.not_lt.mpr few)] at parsed
  simpa using parsed

end SomniumDB.Resp
