/-
This file proves that unpacking the archive of a folder comes to what its entries
come to, one after the other: the machine reads an entry's header or headers, its
payload and its padding, and stands before the next entry with nothing left over.
-/

import Geeboard.Agent.Folder

namespace Geeboard.Tar

open Text Feeding List

section
variable (disk : Disk) (directory : Place)

/-! ### One piece of an entry -/

/-- A header that is there whole begins its entry. -/
theorem settle_header (state : Extraction) {header rest : Bytes} (between : state.current = none)
    (whole : header.length = block) (solid : header.head? ≠ some 0)
    (pending : state.pending = header ++ rest) :
    (machine disk directory none).settle state =
      match beginEntry disk directory { state with pending := rest } header with
      | .error stopped => .error stopped
      | .ok (.wait next) => .ok next
      | .ok (.again next) => (machine disk directory none).settle next := by
  have front : state.pending.take block = header := by
    rw [pending, take_left' whole]
  have behind' : state.pending.drop block = rest := by
    rw [pending, drop_left' whole]
  have long : ¬state.pending.length < block := by
    rw [pending, length_append]
    omega
  have turned : (machine disk directory none).turn state =
      beginEntry disk directory { state with pending := rest } header := by
    show turn disk directory none state = _
    rw [turn_between disk directory none state between, readHeader, if_neg long]
    dsimp only
    rw [front, if_neg solid, behind']
  rw [Machine.settle_eq _ (machine_ends disk directory none), turned]
  cases beginEntry disk directory { state with pending := rest } header with
  | error stopped => rfl
  | ok turn => cases turn <;> rfl

/-- Two zero blocks end an archive. -/
theorem settle_trailer (state : Extraction) (between : state.current = none)
    (pending : state.pending = List.replicate (block * 2) 0) :
    (machine disk directory none).settle state =
      .ok { state with pending := [], ended := true } := by
  have long : ¬state.pending.length < block := by
    rw [pending, length_replicate]
    decide
  have zero : (state.pending.take block).head? = some 0 := by
    rw [pending]
    rfl
  have turned : (machine disk directory none).turn state =
      .ok (.wait { state with pending := [], ended := true }) := by
    show turn disk directory none state = _
    rw [turn_between disk directory none state between, readHeader, if_neg long]
    dsimp only
    rw [if_pos zero]
  rw [Machine.settle_eq _ (machine_ends disk directory none), turned]

/-- A payload that is there whole is taken in as one piece, and its padding skipped. -/
theorem settle_payload (state : Extraction) (kind : PayloadKind) {content rest : Bytes}
    (some' : content ≠ [])
    (current : state.current =
      some ⟨kind, content.length, fillAfter content.length⟩)
    (pending : state.pending =
      content ++ (List.replicate (fillAfter content.length) 0 ++ rest)) :
    (machine disk directory none).settle state =
      match receive disk none state ⟨kind, content.length, fillAfter content.length⟩ content with
      | .error stopped => .error stopped
      | .ok next =>
        match next.current with
        | none => .ok next
        | some payload =>
          match finish disk next payload with
          | .error stopped => .error stopped
          | .ok (.wait next) => .ok next
          | .ok (.again next) => (machine disk directory none).settle next := by
  have positive : 0 < content.length := length_pos_of_ne_nil some'
  have piece : state.pending.take ((content.length : Int)).toNat = content := by
    rw [Int.toNat_natCast, pending, take_left]
  have full : state.pending ≠ [] := by
    rw [pending]
    exact append_ne_nil_of_left_ne_nil some' _
  have left : (0 : Int) < content.length := by omega
  rw [Machine.settle_eq _ (machine_ends disk directory none),
    show (machine disk directory none).turn state = turn disk directory none state from rfl]
  cases took : receive disk none state ⟨kind, content.length, fillAfter content.length⟩
      content with
  | error stopped =>
    rw [turn_refused disk directory state current left full (by rw [piece]; exact took)]
  | ok next =>
    obtain ⟨kind', after, turned⟩ := turn_received disk directory state current left full
      (by rw [piece]; exact took)
    rw [turned, if_neg]
    · dsimp only
      rw [after]
      dsimp only
      generalize finish disk next _ = done
      cases done with
      | error stopped => rfl
      | ok turn => cases turn <;> rfl
    · show ¬(0 : Int) < content.length - _
      rw [piece]
      omega

/-- The path that metadata gives is kept for the next entry. -/
theorem settle_metadata (state : Extraction) (type : Char) {content rest : Bytes}
    {name : Option (List Char)} (some' : content ≠ [])
    (current : state.current =
      some ⟨.metadata type [], content.length, fillAfter content.length⟩)
    (pending : state.pending =
      content ++ (List.replicate (fillAfter content.length) 0 ++ rest))
    (read : nameFromMetadata type content = .ok name) :
    (machine disk directory none).settle state =
      (machine disk directory none).settle
        { state with pending := rest, longName := name.or state.longName, current := none } := by
  have skipped : state.pending.drop content.length =
      List.replicate (fillAfter content.length) 0 ++ rest := by
    rw [pending, drop_left]
  rw [settle_payload disk directory state _ some' current pending]
  unfold receive
  dsimp only
  rw [skipped, nil_append]
  unfold finish
  dsimp only
  rw [if_neg (by rw [length_append, length_replicate]; omega),
    drop_left' length_replicate, read]

/-- A file's bytes are written and the file closed. -/
theorem settle_file (state : Extraction) {content rest : Bytes} (some' : content ≠ [])
    (current : state.current = some ⟨.file, content.length, fillAfter content.length⟩)
    (pending : state.pending =
      content ++ (List.replicate (fillAfter content.length) 0 ++ rest)) :
    (machine disk directory none).settle state =
      match writeBytes disk state.log content with
      | .error stopped => .error stopped
      | .ok log =>
        match closeSink disk log with
        | .error stopped => .error stopped
        | .ok log =>
          (machine disk directory none).settle
            { state with
              log := log
              written := state.written + content.length
              files := state.files + 1
              pending := rest
              current := none } := by
  have skipped : state.pending.drop content.length =
      List.replicate (fillAfter content.length) 0 ++ rest := by
    rw [pending, drop_left]
  rw [settle_payload disk directory state _ some' current pending]
  unfold receive
  dsimp only
  rw [put_unlooked]
  cases writeBytes disk state.log content with
  | error stopped => rfl
  | ok log =>
    dsimp only
    rw [skipped]
    unfold finish
    dsimp only
    rw [if_neg (by rw [length_append, length_replicate]; omega),
      drop_left' length_replicate]
    cases closeSink disk log <;> rfl

/-! ### The headers of an entry -/

/-- What an entry comes to, with what follows it: the machine goes on at the rest. -/
def goOn (state : Extraction) (rest : Bytes) (files written : Nat) :
    Fallible (List Effect) → Fallible Extraction
  | .error stopped => .error stopped
  | .ok log =>
    (machine disk directory none).settle
      { state with
        log := log
        files := files
        written := written
        pending := rest
        current := none
        longName := none }

/-- A header that has its entry's name begins it, and the entry is read to its end. -/
theorem settle_named (state : Extraction) (entry : Stored) (named : entry.Named)
    (sized : entry.bytes.length < 8 ^ 12) {rest : Bytes} (between : state.current = none)
    (called : entryName (header entry.name entry.bytes.length entry.type entry.mode
      entry.mtimeMs) state.longName = entry.name)
    (pending : state.pending =
      header entry.name entry.bytes.length entry.type entry.mode entry.mtimeMs ++
        (entry.bytes ++ (List.replicate (fillAfter entry.bytes.length) 0 ++ rest))) :
    ∃ files written, (machine disk directory none).settle state =
      goOn disk directory state rest files written
        (match safeJoin directory entry.name with
          | .error trouble => .error (state.log, trouble)
          | .ok destination => unpackAt disk state.log destination entry.content) := by
  have solid := named.head_header entry.bytes.length entry.type entry.mode entry.mtimeMs
  have size : sizeIn (header entry.name entry.bytes.length entry.type entry.mode entry.mtimeMs) =
      entry.bytes.length := sizeIn_header sized
  have type : typeIn (header entry.name entry.bytes.length entry.type entry.mode entry.mtimeMs) =
      entry.type := typeIn_header entry.type_plain
  rw [settle_header disk directory state between (length_header _ _ _ _ _) solid pending]
  unfold beginEntry
  dsimp only
  rw [type, if_neg (by rw [entry.not_isMetadata]; decide), called, between]
  cases safeJoin directory entry.name with
  | error trouble => exact ⟨0, 0, rfl⟩
  | ok destination =>
    dsimp only
    cases content : entry.content with
    | directory mode mtimeMs =>
      have directory' : entry.type = '5' := by
        unfold Stored.type
        rw [content]
      have empty : entry.bytes = [] := by
        unfold Stored.bytes
        rw [content]
      refine ⟨state.files, state.written, ?_⟩
      rw [if_pos directory', empty]
      unfold unpackAt
      cases makeDirectory disk state.log destination <;> rfl
    | file mode mtimeMs bytes =>
      have file : entry.type = '0' := by
        unfold Stored.type
        rw [content]
      have same : entry.bytes = bytes := by
        unfold Stored.bytes
        rw [content]
      rw [same] at size ⊢
      rw [if_neg (by rw [file]; decide), size]
      unfold unpackAt
      cases makeDirectory disk state.log destination.parent with
      | error stopped => exact ⟨0, 0, rfl⟩
      | ok log =>
        dsimp only
        by_cases empty : bytes = []
        · refine ⟨state.files + 1, state.written, ?_⟩
          rw [empty, if_pos (by rfl)]
          unfold writeBytes
          dsimp only
          cases closeSink disk (log ++ [.opened destination]) <;> rfl
        · have positive : 0 < bytes.length := length_pos_of_ne_nil empty
          refine ⟨state.files + 1, state.written + bytes.length, ?_⟩
          rw [if_neg (by omega), paddingAfter_eq]
          dsimp only
          rw [settle_file disk directory _ empty rfl rfl]
          dsimp only
          cases writeBytes disk (log ++ [.opened destination]) bytes with
          | error stopped => rfl
          | ok log =>
            dsimp only
            cases closeSink disk log <;> rfl

/-- The name in the only header of an entry is the entry's. -/
theorem entryName_short {entry : Stored} (named : entry.Named)
    (short : (encode entry.name).length ≤ 100) :
    entryName (header entry.name entry.bytes.length entry.type entry.mode entry.mtimeMs) none =
      entry.name := by
  unfold entryName
  dsimp only
  rw [prefixIn_header, nameIn_header short (Stored.name_clean named)]
  split <;> rfl

/-- The bytes of an entry whose path is too long for a header: the extended header and its
record come first. -/
theorem archived_long {entry : Stored} (long : 100 < (encode entry.name).length) :
    entry.archived =
      header "././@PaxHeader".toList (paxRecord "path".toList entry.name).length 'x' 0o644
          entry.mtimeMs ++
        (paxRecord "path".toList entry.name ++
          (List.replicate (fillAfter (paxRecord "path".toList entry.name).length) 0 ++
            (header entry.name entry.bytes.length entry.type entry.mode entry.mtimeMs ++
              (entry.bytes ++ List.replicate (fillAfter entry.bytes.length) 0)))) := by
  unfold Stored.archived headers
  rw [if_pos long]
  dsimp only
  rw [flatten_append, flatten_cons, flatten_cons, flatten_remainderChunk,
    flatten_singleton]
  simp only [append_assoc]

theorem paxRecord_ne_nil (key value : List Char) : paxRecord key value ≠ [] := by
  rw [paxRecord_eq]
  refine append_ne_nil_of_left_ne_nil ?_ _
  unfold asciiBytes
  rw [ne_eq, map_eq_nil_iff]
  exact Nat.toDigits_ne_nil

/-- A record too large to be metadata is seen to be, however many digits its size has. -/
theorem paxHeader_tooLarge (name : List Char) (size mode : Nat) (mtimeMs : Int)
    (large : maxMetadataBytes < size) :
    (maxMetadataBytes : Int) < sizeIn (header name size 'x' mode mtimeMs) := by
  by_cases fits : size < 8 ^ 12
  · rw [sizeIn_header fits]
    exact_mod_cast large
  · have more : (8 : Int) ^ 11 ≤ sizeIn (header name size 'x' mode mtimeMs) :=
      le_sizeIn_header (Nat.le_of_not_lt fits)
    have limit : (maxMetadataBytes : Int) < 8 ^ 11 := by decide
    exact lt_of_lt_of_le limit more

/-- An entry of an archive comes to what its name and content ask for. -/
theorem settle_entry (state : Extraction) (entry : Stored) (named : entry.Named)
    (sized : entry.bytes.length < 8 ^ 12) {rest : Bytes} (between : state.current = none)
    (unnamed : state.longName = none) (pending : state.pending = entry.archived ++ rest) :
    ∃ files written, (machine disk directory none).settle state =
      goOn disk directory state rest files written
        (unpackEntry disk directory state.log entry) := by
  unfold unpackEntry
  by_cases long : 100 < (encode entry.name).length
  · have length := length_paxRecord "path".toList entry.name
    have solid : (header "././@PaxHeader".toList (paxRecord "path".toList entry.name).length 'x'
        0o644 entry.mtimeMs).head? ≠ some 0 := head_header '.' "/./@PaxHeader".toList (by decide)
    have type : typeIn (header "././@PaxHeader".toList
        (paxRecord "path".toList entry.name).length 'x' 0o644 entry.mtimeMs) = 'x' :=
      typeIn_header (by decide)
    rw [archived_long long] at pending
    simp only [append_assoc] at pending
    rw [settle_header disk directory state between (length_header _ _ _ _ _) solid pending]
    unfold beginEntry
    dsimp only
    rw [type, if_pos (show isMetadata 'x' = true from rfl)]
    by_cases tooLarge : maxMetadataBytes < lengthIn "path".toList entry.name
    · refine ⟨0, 0, ?_⟩
      rw [if_pos (paxHeader_tooLarge _ _ _ _ (by rw [length]; exact tooLarge)),
        if_pos (show entry.TooLong from ⟨long, tooLarge⟩)]
      rfl
    · have limit : maxMetadataBytes = 1048576 := rfl
      have fits : lengthIn "path".toList entry.name ≤ 1048576 := by omega
      have small : ¬(maxMetadataBytes : Int) < (paxRecord "path".toList entry.name).length := by
        rw [length]
        omega
      rw [sizeIn_header (by rw [length]; omega), if_neg small, paddingAfter_eq,
        if_neg (show ¬entry.TooLong from fun both => tooLarge both.2)]
      dsimp only
      rw [settle_metadata disk directory _ 'x' (paxRecord_ne_nil _ _) rfl rfl
        (pathRecords_paxRecord entry.name (by rw [length]; omega))]
      exact settle_named disk directory _ entry named sized rfl rfl rfl
  · have short := Nat.le_of_not_lt long
    rw [if_neg (fun tooLong => long tooLong.1)]
    refine settle_named disk directory state entry named sized between ?_ ?_
    · rw [unnamed]
      exact entryName_short named short
    · rw [pending]
      unfold Stored.archived headers
      rw [if_neg long, nil_append, flatten_singleton]
      simp only [append_assoc]

/-! ### An archive -/

/-- The entries of an archive come to what each comes to, one after the other. -/
theorem settle_entries (entries : List Stored) (state : Extraction)
    (named : ∀ entry ∈ entries, entry.Named)
    (sized : ∀ entry ∈ entries, entry.bytes.length < 8 ^ 12) (between : state.current = none)
    (unnamed : state.longName = none)
    (pending : state.pending =
      (entries.map Stored.archived).flatten ++ List.replicate (block * 2) 0) :
    ∃ files written, (machine disk directory none).settle state =
      (unpackAll disk directory state.log entries).map fun log =>
        { state with
          log := log, files := files, written := written, pending := [], ended := true } := by
  induction entries generalizing state with
  | nil =>
    exact ⟨state.files, state.written, settle_trailer disk directory state between pending⟩
  | cons entry entries inductionHypothesis =>
    rw [map_cons, flatten_cons, append_assoc] at pending
    obtain ⟨files, written, first⟩ := settle_entry disk directory state entry
      (named entry mem_cons_self) (sized entry mem_cons_self) between unnamed pending
    rw [first]
    unfold unpackAll
    cases unpackEntry disk directory state.log entry with
    | error stopped => exact ⟨0, 0, rfl⟩
    | ok log =>
      obtain ⟨files', written', rest⟩ := inductionHypothesis
        { state with
          log := log
          files := files
          written := written
          pending := (entries.map Stored.archived).flatten ++ List.replicate (block * 2) 0
          current := none
          longName := none }
        (fun other member => named other (mem_cons_of_mem _ member))
        (fun other member => sized other (mem_cons_of_mem _ member)) rfl rfl rfl
      refine ⟨files', written', rest.trans ?_⟩
      rw [between, unnamed]

/-- How an archive whose entries come to something is unpacked. -/
def Outcome.Concludes (outcome : Outcome) : Fallible (List Effect) → Prop
  | .error (log, trouble) => outcome = ⟨log, .error trouble⟩
  | .ok log => ∃ files, outcome = ⟨log, .ok files⟩

/-- Unpacking the archive of a folder without looking at the disk comes to what its entries come
to. -/
theorem unpack_archive (folder : Folder)
    (sized : ∀ entry ∈ folder.entries, entry.bytes.length < 8 ^ 12) (source : List Bytes)
    (whole : source.flatten = folder.archive.flatten) :
    (unpack disk directory none source none).Concludes
      (unpackAll disk directory [] folder.entries) := by
  have pending := whole.trans (flatten_archive folder)
  obtain ⟨files, written, settled⟩ := settle_entries disk directory folder.entries
    (Extraction.start.push source.flatten) folder.named sized rfl rfl pending
  have fed : (machine disk directory none).feed .start source.flatten = _ := settled
  unfold unpack
  rw [Machine.consume_eq_feed (machine_lawful disk directory) source
    (start_resting disk directory), fed]
  change (conclude none (Except.map _ (unpackAll disk directory [] folder.entries))).Concludes _
  cases unpackAll disk directory [] folder.entries with
  | error stopped => rfl
  | ok log => exact ⟨files, rfl⟩

end

end Geeboard.Tar
