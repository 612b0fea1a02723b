/-
This file is about the record that carries a path too long for a header. The number in
front of it counts its own digits, so it is tried until it stops changing: the search ends,
the number is the length of the whole record in bytes, and the path is read back.
-/

import Geeboard.Agent.TarFields
import Mathlib.Logic.Function.Iterate

namespace Geeboard.Tar

open Text

/-- The length of a record that has a given length written in front of it. -/
def oneMore (body length : Nat) : Nat := digitCount length + body

/-- Trying ends, at a length that does not change any more. -/
theorem recordLength_iterate (body length : Nat) (grows : length ≤ digitCount length + body) :
    ∃ turns, (oneMore body)^[turns] length = recordLength body length grows ∧
      oneMore body (recordLength body length grows) = recordLength body length grows := by
  induction length, grows using recordLength.induct body with
  | case1 length grows found =>
    unfold recordLength
    rw [if_pos found]
    exact ⟨0, rfl, found⟩
  | case2 length grows more inductionHypothesis =>
    unfold recordLength
    rw [if_neg more]
    obtain ⟨turns, tried, ends⟩ := inductionHypothesis
    exact ⟨turns + 1, tried, ends⟩

/-- The search for a record's length ends, the number in front of the record is the record's
own length, and the path in it is read back: as long as a buffer can hold the record. -/
theorem paxRecord_counts_itself (path : List Char) :
    (∃ turns, (oneMore (encode (recordBody "path".toList path)).length)^[turns]
        (encode (recordBody "path".toList path)).length =
      (paxRecord "path".toList path).length) ∧
    oneMore (encode (recordBody "path".toList path)).length
        (paxRecord "path".toList path).length = (paxRecord "path".toList path).length ∧
    paxRecord "path".toList path =
      asciiBytes (Nat.toDigits 10 (paxRecord "path".toList path).length) ++
        encode (recordBody "path".toList path) ∧
    ((paxRecord "path".toList path).length < 2 ^ 53 →
      nameFromMetadata 'x' (paxRecord "path".toList path) = .ok (some path)) := by
  obtain ⟨turns, tried, ends⟩ := recordLength_iterate
    (encode (recordBody "path".toList path)).length _ (Nat.le_add_left _ _)
  refine ⟨⟨turns, ?_⟩, ?_, ?_, pathRecords_paxRecord path⟩
  · rw [length_paxRecord]
    exact tried
  · rw [length_paxRecord]
    exact ends
  · rw [length_paxRecord]
    exact paxRecord_eq "path".toList path

/-- A path for which one more digit makes the record longer. -/
theorem paxRecord_counts_itself_hundred :
    nameFromMetadata 'x' (paxRecord "path".toList (List.replicate 91 'a')) =
      .ok (some (List.replicate 91 'a')) :=
  (paxRecord_counts_itself (List.replicate 91 'a')).2.2.2 (by
    have small := (lengthIn_le_iff (List.replicate 91 'a')).mpr (by decide)
    rw [length_paxRecord]
    exact Nat.lt_of_le_of_lt small (by decide))

end Geeboard.Tar
