import RustPosix.Shell.Text

/-! The ring of past commands of `userland/shell/src/history.rs`. -/

namespace RustPosix.Shell

open Library

def maxHistory : Nat := 1000
def maxCmdLen : Nat := 128

abbrev HistoryEntry := FixedText maxCmdLen

/-- The entries, and the number of commands that have ever been added. -/
structure History where
  entries : List HistoryEntry
  count : Nat
  sized : entries.length = maxHistory

/-- The ring at the start of the shell. -/
def History.empty : History where
  entries := List.replicate maxHistory FixedText.empty
  count := 0
  sized := List.length_replicate

/-- The last command is not added again. -/
def historyAdd (cmd : List Byte) (history : History) : Option History :=
  if cmd.length = 0 then some history
  else do
    let repeated ←
      if history.count > 0 then do
        let last ← history.entries[(history.count - 1) % maxHistory]?
        pure (decide (last.len = cmd.length) && decide (last.buf.take cmd.length = cmd))
      else pure false
    if repeated then pure history
    else do
      let idx := history.count % maxHistory
      let entry ← history.entries[idx]?
      pure
        { entries := history.entries.set idx (entry.store cmd)
          count := history.count + 1
          sized := by rw [List.length_set, history.sized] }

/-- Copy the first bytes of a stored text over the line: the buffer and its new length. -/
def recallText (src : List Byte) (srcLen : Nat) (buf : List Byte) : Option (List Byte × Nat) := do
  let last ← checkedSub buf.length 1
  let copyLen := min srcLen last
  let block ← Buffer.range src 0 copyLen
  let buf ← Buffer.overwrite buf 0 block
  let buf ← Buffer.put buf copyLen 0
  pure (buf, copyLen)

/-- Copy the entry that lies `cursor` commands back. -/
def recallEntry (history : History) (cursor : Nat) (buf : List Byte) :
    Option (List Byte × Nat) := do
  let back ← checkedSub history.count cursor
  let idx := if history.count ≥ maxHistory then back % maxHistory else back
  let entry ← history.entries[idx]?
  recallText entry.buf entry.len buf

/-- The place in the history, the buffer and its length. -/
def historyPrev (history : History) (cursor : Nat) (buf : List Byte) (len : Nat) :
    Option (Nat × List Byte × Nat) :=
  if history.count = 0 then some (cursor, buf, len)
  else if cursor < min history.count maxHistory then do
    let recalled ← recallEntry history (cursor + 1) buf
    pure (cursor + 1, recalled)
  else some (cursor, buf, len)

def historyNext (history : History) (cursor : Nat) (buf : List Byte) (len : Nat)
    (draft : List Byte) (draftLen : Nat) : Option (Nat × List Byte × Nat) :=
  if cursor > 1 then do
    let recalled ← recallEntry history (cursor - 1) buf
    pure (cursor - 1, recalled)
  else if cursor = 1 then do
    let recalled ← recallText draft draftLen buf
    pure (0, recalled)
  else some (cursor, buf, len)

/-- The commands that can be recalled, the last one first. -/
def History.past (history : History) : List (List Byte) :=
  (List.range (min history.count maxHistory)).map fun back =>
    (history.entries[(history.count - (back + 1)) % maxHistory]?.map FixedText.text).getD []

theorem History.length_past (history : History) :
    history.past.length = min history.count maxHistory := by
  rw [past, List.length_map, List.length_range]

section Recall

variable {capacity : Nat} {buf : List Byte}

theorem recall_shows (whole : buf.length = capacity + 1) {size : Nat} (stored : FixedText size) :
    ∃ after len, recallText stored.buf stored.len buf = some (after, len) ∧
      Shows capacity (.ofLine (stored.text.take capacity)) ⟨after, len, len⟩ := by
  have used := stored.length_text
  have fits := stored.filled
  have sized := stored.sized
  have taken : (stored.text.take capacity).length = min stored.len capacity := by
    rw [List.length_take, used, Nat.min_comm]
  have range : Buffer.range stored.buf 0 (min stored.len capacity) =
      some (stored.text.take capacity) := by
    rw [Buffer.range, if_pos ⟨Nat.zero_le _, by omega⟩, slice, List.drop_zero, FixedText.text,
      List.take_take, Nat.min_comm]
  have cut : buf = [] ++ buf.take (min stored.len capacity) ++
      buf.drop (min stored.len capacity) := by
    rw [List.nil_append, List.take_append_drop]
  obtain ⟨old, rest, last⟩ : ∃ old rest, buf.drop (min stored.len capacity) = old :: rest := by
    refine List.exists_cons_of_length_pos ?_
    rw [List.length_drop]
    omega
  have front : (buf.take (min stored.len capacity)).length = min stored.len capacity := by
    rw [List.length_take]
    omega
  have wrote : Buffer.overwrite buf 0 (stored.text.take capacity) =
      some ([] ++ stored.text.take capacity ++ old :: rest) := by
    rw [cut, last]
    exact Buffer.overwrite_between rfl (front.trans taken.symm)
  have zero : Buffer.put ([] ++ stored.text.take capacity ++ old :: rest) (min stored.len capacity)
      0 = some ([] ++ stored.text.take capacity ++ 0 :: rest) :=
    Buffer.put_at (by rw [List.nil_append, taken])
  refine ⟨[] ++ stored.text.take capacity ++ 0 :: rest, min stored.len capacity, ?_, ?_⟩
  · rw [recallText, checkedSub, if_pos (by omega), whole, Nat.add_sub_cancel]
    simp only [Option.bind_eq_bind, Option.bind_some, range, wrote, zero, Option.pure_def]
  · have lengths := congrArg List.length last
    rw [List.length_drop, List.length_cons] at lengths
    refine ⟨?_, ⟨rest, ?_⟩, ?_, ?_⟩
    · simp only [List.nil_append, List.length_append, List.length_cons, taken]
      omega
    · simp [Text.ofLine]
    · simp only [Text.ofLine, List.length_nil, Nat.add_zero, taken]
    · exact taken.symm

/-- The entry that is copied is the one so many commands back. -/
theorem recallEntry_shows (whole : buf.length = capacity + 1) {history : History} {cursor : Nat}
    {cmd : List Byte} (found : history.past[cursor]? = some cmd) :
    ∃ after len, recallEntry history (cursor + 1) buf = some (after, len) ∧
      Shows capacity (.ofLine (cmd.take capacity)) ⟨after, len, len⟩ := by
  obtain ⟨inside, rfl⟩ := List.getElem?_eq_some_iff.mp found
  rw [History.length_past] at inside
  have total := history.sized
  have index : (history.count - (cursor + 1)) % maxHistory < history.entries.length := by
    rw [total]
    exact Nat.mod_lt _ (by decide)
  have slot : (if history.count ≥ maxHistory then (history.count - (cursor + 1)) % maxHistory
      else history.count - (cursor + 1)) = (history.count - (cursor + 1)) % maxHistory := by
    split
    · rfl
    · exact (Nat.mod_eq_of_lt (by omega)).symm
  have entry : history.entries[(history.count - (cursor + 1)) % maxHistory]? =
      some (history.entries.get ⟨_, index⟩) := List.getElem?_eq_getElem index
  obtain ⟨copied, len, recalled, after⟩ := recall_shows whole (history.entries.get ⟨_, index⟩)
  refine ⟨copied, len, ?_, ?_⟩
  · rw [recallEntry, checkedSub, if_pos (by omega), Option.bind_eq_bind, Option.bind_some]
    dsimp only
    rw [slot, entry]
    exact recalled
  · simpa [History.past, entry] using after

theorem historyPrev_shows (whole : buf.length = capacity + 1) {history : History} {cursor : Nat}
    {cmd : List Byte} (found : history.past[cursor]? = some cmd) (len : Nat) :
    ∃ after shown, historyPrev history cursor buf len = some (cursor + 1, after, shown) ∧
      Shows capacity (.ofLine (cmd.take capacity)) ⟨after, shown, shown⟩ := by
  have inside := (List.getElem?_eq_some_iff.mp found).1
  rw [History.length_past] at inside
  obtain ⟨after, shown, recalled, shows'⟩ := recallEntry_shows whole found
  refine ⟨after, shown, ?_, shows'⟩
  rw [historyPrev, if_neg (by omega), if_pos inside, recalled]
  rfl

/-- At the oldest command nothing changes. -/
theorem historyPrev_oldest {history : History} {cursor : Nat}
    (last : history.past.length ≤ cursor) (len : Nat) :
    historyPrev history cursor buf len = some (cursor, buf, len) := by
  rw [History.length_past] at last
  rw [historyPrev]
  split
  · rfl
  · rw [if_neg (by omega)]

theorem historyNext_shows (whole : buf.length = capacity + 1) {history : History} {older : Nat}
    {cmd : List Byte} (found : history.past[older]? = some cmd) (len : Nat) (draft : List Byte)
    (draftLen : Nat) :
    ∃ after shown, historyNext history (older + 2) buf len draft draftLen =
        some (older + 1, after, shown) ∧
      Shows capacity (.ofLine (cmd.take capacity)) ⟨after, shown, shown⟩ := by
  obtain ⟨after, shown, recalled, shows'⟩ := recallEntry_shows whole found
  refine ⟨after, shown, ?_, shows'⟩
  rw [historyNext, if_pos (by omega), show older + 2 - 1 = older + 1 from rfl, recalled]
  rfl

end Recall

end RustPosix.Shell
