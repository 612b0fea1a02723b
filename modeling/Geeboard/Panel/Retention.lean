/-
This file is what retention removes: all but the newest complete backups, and
failed ones that are a week old.

A locked backup is never chosen.
-/

import Geeboard.Panel.Backups

namespace Geeboard.Panel

open Effects Effects.Code

variable {Locals : Type}

def FAILED_KEPT_MS : Time := 7 * 24 * 3600 * 1000

/-- What retention would remove, of the rows it was given. -/
def planRetention (rows : List BackupRow) (keep : Nat) (now : Time) : List BackupRow :=
  let complete := (rows.filter fun row => row.state == .complete).mergeSort
    fun first second => second.createdAt ≤ first.createdAt
  let stale := rows.filter fun row =>
    row.state == .failed && row.createdAt + FAILED_KEPT_MS < now
  complete.drop keep ++ stale

theorem mem_planRetention {rows : List BackupRow} {keep : Nat} {now : Time} {row : BackupRow}
    (member : row ∈ planRetention rows keep now) : row ∈ rows ∧ row.state ≠ .locked := by
  rcases List.mem_append.mp member with surplus | stale
  · have chosen := List.mem_mergeSort.mp (List.mem_of_mem_drop surplus)
    obtain ⟨among, complete⟩ := List.mem_filter.mp chosen
    refine ⟨among, fun locked => ?_⟩
    rw [locked] at complete
    cases complete
  · obtain ⟨among, failed⟩ := List.mem_filter.mp stale
    refine ⟨among, fun locked => ?_⟩
    rw [locked] at failed
    cases failed

end Geeboard.Panel
