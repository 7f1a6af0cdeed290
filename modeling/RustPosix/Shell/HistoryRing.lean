import RustPosix.Shell.History

/-! The ring of past commands is a list: the commands that were added, without the empty ones
and without repetitions, of which the last thousand can be recalled. -/

namespace RustPosix.Shell

open Library

def historyAddAll (cmds : List (List Byte)) (history : History) : Option History :=
  cmds.foldlM (fun history cmd => historyAdd cmd history) history

/-- The commands that are remembered: no empty line, and no line right behind the same one. -/
def remembered (cmds : List (List Byte)) : List (List Byte) :=
  (cmds.filter (· ≠ [])).destutter (· ≠ ·)

/-- The ring with a command written over the oldest slot. -/
def History.push (history : History) (entry : HistoryEntry) (cmd : List Byte) : History where
  entries := history.entries.set (history.count % maxHistory) (entry.store cmd)
  count := history.count + 1
  sized := by rw [List.length_set, history.sized]

section Ring

variable {history : History}

theorem History.getElem?_past {back : Nat} (inside : back < min history.count maxHistory) :
    history.past[back]? =
      some ((history.entries[(history.count - (back + 1)) % maxHistory]?.map
        FixedText.text).getD []) := by
  rw [past, List.getElem?_map, List.getElem?_range inside, Option.map_some]

/-- A command that is stored comes first, and the oldest one is given up. -/
theorem History.past_push (entry : HistoryEntry) (cmd : List Byte) :
    (history.push entry cmd).past = (cmd.take maxCmdLen :: history.past).take maxHistory := by
  have size := history.sized
  have total := history.length_past
  refine List.ext_getElem? fun back => ?_
  by_cases inside : back < min (history.count + 1) maxHistory
  · rw [getElem?_past inside, List.getElem?_take_of_lt (by omega)]
    cases back with
    | zero =>
      have slot : history.count % maxHistory < history.entries.length := by
        rw [size]
        exact Nat.mod_lt _ (by decide)
      simp [push, slot, FixedText.text_store]
    | succ back =>
      -- The slots of the last thousand commands differ.
      have other : history.count % maxHistory ≠ (history.count - (back + 1)) % maxHistory := by
        simp only [maxHistory] at inside ⊢
        omega
      rw [List.getElem?_cons_succ, getElem?_past (by omega)]
      simp [push, List.getElem?_set_ne other]
  · rw [List.getElem?_eq_none, List.getElem?_eq_none]
    · rw [List.length_take, List.length_cons]
      omega
    · rw [length_past]
      exact Nat.le_of_not_lt inside

/-- The list of which the ring holds the end. -/
structure Recorded (history : History) (kept : List (List Byte)) : Prop where
  count : history.count = kept.length
  past : history.past = kept.reverse.take maxHistory

theorem Recorded.empty : Recorded .empty [] := ⟨rfl, rfl⟩

theorem Recorded.push {kept : List (List Byte)} (recorded : Recorded history kept)
    (entry : HistoryEntry) {cmd : List Byte} (short : cmd.length ≤ maxCmdLen) :
    Recorded (history.push entry cmd) (kept ++ [cmd]) := by
  refine ⟨?_, ?_⟩
  · rw [List.length_append]
    exact congrArg (· + 1) recorded.count
  · rw [History.past_push, recorded.past, List.take_of_length_le short, List.reverse_append]
    change (cmd :: kept.reverse.take (999 + 1)).take (999 + 1) = (cmd :: kept.reverse).take (999 + 1)
    rw [List.take_succ_cons, List.take_succ_cons, List.take_take]
    rfl

/-- What an addition does: nothing for the empty line and for the last command. -/
theorem historyAdd_eq (history : History) (cmd : List Byte) :
    (cmd = [] ∨ history.past.head? = some cmd) ∧ historyAdd cmd history = some history ∨
      (cmd ≠ [] ∧ history.past.head? ≠ some cmd) ∧
        ∃ entry, historyAdd cmd history = some (history.push entry cmd) := by
  by_cases blank : cmd = []
  · exact .inl ⟨.inl blank, if_pos (List.length_eq_zero_iff.mpr blank)⟩
  have nonempty : cmd.length ≠ 0 := fun zero => blank (List.length_eq_zero_iff.mp zero)
  have size := history.sized
  have found (index : Nat) : ∃ entry, history.entries[index % maxHistory]? = some entry :=
    ⟨_, List.getElem?_eq_getElem (by rw [size]; exact Nat.mod_lt _ (by decide))⟩
  obtain ⟨entry, free⟩ := found history.count
  rw [historyAdd, if_neg nonempty]
  by_cases started : history.count > 0
  · obtain ⟨last, here⟩ := found (history.count - 1)
    have head : history.past.head? = some last.text := by
      rw [List.head?_eq_getElem?, History.getElem?_past (by simp only [maxHistory]; omega), here]
      rfl
    have same : (decide (last.len = cmd.length) && decide (last.buf.take cmd.length = cmd)) =
        decide (last.text = cmd) := by
      rw [← Bool.decide_and, decide_eq_decide, FixedText.text]
      constructor
      · rintro ⟨len, bytes⟩
        rw [len, bytes]
      · intro bytes
        have len : last.len = cmd.length := by
          rw [← last.length_text, FixedText.text, bytes]
        exact ⟨len, len ▸ bytes⟩
    simp only [if_pos started, here, free, same, head, Option.bind_eq_bind, Option.bind_some,
      Option.pure_def, decide_eq_true_eq, Option.some.injEq]
    by_cases again : last.text = cmd
    · exact .inl ⟨.inr again, if_pos again⟩
    · exact .inr ⟨⟨blank, fun same => again (Option.some.inj same)⟩, entry, if_neg again⟩
  · have none' : history.past.head? = none := by
      rw [List.head?_eq_none_iff, ← List.length_eq_zero_iff, History.length_past]
      omega
    simp only [if_neg started, free, none', Option.bind_eq_bind, Option.bind_some, Option.pure_def]
    exact .inr ⟨⟨blank, (Option.some_ne_none cmd).symm⟩, entry, rfl⟩

theorem Recorded.head? {kept : List (List Byte)} (recorded : Recorded history kept) :
    history.past.head? = kept.getLast? := by
  rw [recorded.past, List.head?_take, if_neg (by decide), List.head?_reverse]

/-- Additions behind a last command. -/
theorem Recorded.addAll (cmds : List (List Byte)) :
    ∀ {history : History} {front : List (List Byte)} {last : List Byte},
    Recorded history (front ++ [last]) → (∀ cmd ∈ cmds, cmd.length ≤ maxCmdLen) →
    ∃ after, historyAddAll cmds history = some after ∧
      Recorded after (front ++ (cmds.filter (· ≠ [])).destutter' (· ≠ ·) last) := by
  induction cmds with
  | nil => exact fun recorded _ => ⟨_, rfl, recorded⟩
  | cons cmd cmds ih =>
    intro history front last recorded short
    rw [List.forall_mem_cons] at short
    have head := recorded.head?
    rw [List.getLast?_concat] at head
    rw [historyAddAll, List.foldlM_cons]
    rcases historyAdd_eq history cmd with ⟨skipped, added⟩ | ⟨⟨filled, other⟩, entry, added⟩
    · rw [added]
      obtain ⟨after, ran, end'⟩ := ih recorded short.2
      refine ⟨after, ran, ?_⟩
      rcases skipped with rfl | same
      · exact end'
      · obtain rfl := Option.some.inj (head.symm.trans same)
        by_cases blank : last = []
        · rwa [List.filter_cons_of_neg (by simpa using blank)]
        · rwa [List.filter_cons_of_pos (by simpa using blank),
            List.destutter'_cons_neg _ (not_not_intro rfl)]
    · rw [added]
      rw [head] at other
      obtain ⟨after, ran, end'⟩ := ih (recorded.push entry short.1) short.2
      refine ⟨after, ran, ?_⟩
      rw [List.filter_cons_of_pos (by simpa using filled), List.destutter'_cons_pos]
      · simpa using end'
      · exact fun same => other (congrArg some same)

/-- Whatever is added, the ring is the list of the remembered commands. -/
theorem recorded_remembered (cmds : List (List Byte)) (short : ∀ cmd ∈ cmds, cmd.length ≤ maxCmdLen) :
    ∃ history, historyAddAll cmds .empty = some history ∧ Recorded history (remembered cmds) := by
  induction cmds with
  | nil => exact ⟨_, rfl, .empty⟩
  | cons cmd cmds ih =>
    rw [List.forall_mem_cons] at short
    rw [historyAddAll, List.foldlM_cons]
    rcases historyAdd_eq .empty cmd with ⟨rfl | same, added⟩ | ⟨⟨filled, _⟩, entry, added⟩
    · rw [added]
      exact ih short.2
    · cases Recorded.empty.head?.symm.trans same
    · rw [added, remembered, List.filter_cons_of_pos (by simpa using filled)]
      exact @Recorded.addAll cmds _ [] cmd (Recorded.empty.push entry short.1) short.2

end Ring

section Recall

/-- The place in the history, the buffer and its length. -/
abbrev Place := Nat × List Byte × Nat

/-- The place after so many calls of `history_prev`. -/
def prevTimes (history : History) (start : Place) : Nat → Option Place
  | 0 => some start
  | count + 1 => do
    let (cursor, buf, len) ← prevTimes history start count
    historyPrev history cursor buf len

/-- The place after so many calls of `history_next`. -/
def nextTimes (history : History) (draft : List Byte) (draftLen : Nat) (start : Place) :
    Nat → Option Place
  | 0 => some start
  | count + 1 => do
    let (cursor, buf, len) ← nextTimes history draft draftLen start count
    historyNext history cursor buf len draft draftLen

/-- The bytes in use are the command. -/
structure Displays (place : Place) (cmd : List Byte) : Prop where
  len : place.2.2 = cmd.length
  bytes : place.2.1.take place.2.2 = cmd

variable {history : History} {capacity : Nat}

theorem displays_of_shows {cursor len : Nat} {buf cmd : List Byte} (short : cmd.length ≤ capacity)
    (shown : Shows capacity (.ofLine (cmd.take capacity)) ⟨buf, len, len⟩) :
    Displays (cursor, buf, len) cmd := by
  obtain ⟨spare, buffer⟩ := shown.buffer
  have size := shown.cursor
  rw [List.take_of_length_le short] at buffer size
  simp only [Text.ofLine, List.append_nil] at buffer size
  exact ⟨size, by rw [buffer, size, List.take_left]⟩

/-- Going back shows the commands, the last one first. -/
theorem prevTimes_shows (short : ∀ cmd ∈ history.past, cmd.length ≤ capacity) {buf : List Byte}
    (len : Nat) (whole : buf.length = capacity + 1) {count : Nat}
    (inside : count ≤ history.past.length) :
    ∃ after shown, prevTimes history (0, buf, len) count = some (count, after, shown) ∧
      after.length = capacity + 1 ∧
      ∀ older cmd, count = older + 1 → history.past[older]? = some cmd →
        Displays (count, after, shown) cmd := by
  induction count with
  | zero => exact ⟨buf, len, rfl, whole, nofun⟩
  | succ count ih =>
    obtain ⟨before, shown, ran, size, _⟩ := ih (by omega)
    have found : history.past[count]? = some (history.past.get ⟨count, inside⟩) :=
      List.getElem?_eq_getElem inside
    obtain ⟨after, seen, moved, shows'⟩ := historyPrev_shows size found shown
    refine ⟨after, seen, ?_, shows'.size, ?_⟩
    · rw [prevTimes, ran]
      exact moved
    · rintro older cmd ⟨⟩ here
      obtain rfl := Option.some.inj (found.symm.trans here)
      exact displays_of_shows (short _ (List.get_mem ..)) shows'

/-- At the oldest command further calls change nothing. -/
theorem prevTimes_oldest {start : Place} {count cursor len : Nat} {buf : List Byte}
    (ran : prevTimes history start count = some (cursor, buf, len))
    (last : history.past.length ≤ cursor) (more : Nat) :
    prevTimes history start (count + more) = some (cursor, buf, len) := by
  induction more with
  | zero => exact ran
  | succ more ih =>
    rw [← Nat.add_assoc, prevTimes, ih]
    exact historyPrev_oldest last len

/-- Coming back shows them again. -/
theorem nextTimes_shows (short : ∀ cmd ∈ history.past, cmd.length ≤ capacity) {buf : List Byte}
    {cursor len : Nat} (whole : buf.length = capacity + 1) (inside : cursor ≤ history.past.length)
    (shown : ∀ older cmd, cursor = older + 1 → history.past[older]? = some cmd →
      Displays (cursor, buf, len) cmd) (draft : List Byte) (draftLen : Nat) {count : Nat}
    (newer : count < cursor) :
    ∃ after seen, nextTimes history draft draftLen (cursor, buf, len) count =
        some (cursor - count, after, seen) ∧ after.length = capacity + 1 ∧
      ∀ older cmd, cursor - count = older + 1 → history.past[older]? = some cmd →
        Displays (cursor - count, after, seen) cmd := by
  induction count with
  | zero => exact ⟨buf, len, rfl, whole, shown⟩
  | succ count ih =>
    obtain ⟨before, seen, ran, size, _⟩ := ih (by omega)
    obtain ⟨older, place⟩ : ∃ older, cursor - count = older + 2 := ⟨cursor - count - 2, by omega⟩
    have found : history.past[older]? = some (history.past.get ⟨older, by omega⟩) :=
      List.getElem?_eq_getElem _
    obtain ⟨after, later, moved, shows'⟩ := historyNext_shows size found seen draft draftLen
    have stepped : cursor - (count + 1) = older + 1 := by omega
    rw [stepped]
    refine ⟨after, later, ?_, shows'.size, ?_⟩
    · rw [nextTimes, ran, place]
      exact moved
    · rintro _ cmd ⟨⟩ here
      obtain rfl := Option.some.inj (found.symm.trans here)
      exact displays_of_shows (short _ (List.get_mem ..)) shows'

/-- The ring recalls the remembered commands: `count` calls of `history_prev` show the one so
many from the end, calls beyond the oldest one change nothing, and calls of `history_next` lead
back. -/
theorem history_ring_recalls {cmds : List (List Byte)}
    (short : ∀ cmd ∈ cmds, cmd.length ≤ maxCmdLen) :
    ∃ history, historyAddAll cmds .empty = some history ∧
      ∀ (buf : List Byte) (len : Nat), maxCmdLen + 1 ≤ buf.length →
      ∀ count ≤ min (remembered cmds).length maxHistory,
      ∃ place : Place, prevTimes history (0, buf, len) count = some place ∧
        (1 ≤ count →
          ∃ cmd, (remembered cmds).reverse[count - 1]? = some cmd ∧ Displays place cmd) ∧
        (count = min (remembered cmds).length maxHistory →
          ∀ more, prevTimes history (0, buf, len) (count + more) = some place) ∧
        ∀ back < count, ∀ draft draftLen, ∃ later,
          nextTimes history draft draftLen place back = some later ∧
          ∃ cmd, (remembered cmds).reverse[count - back - 1]? = some cmd ∧ Displays later cmd := by
  obtain ⟨history, added, recorded⟩ := recorded_remembered cmds short
  have total := history.length_past
  rw [recorded.count] at total
  refine ⟨history, added, fun buf len room count inside => ?_⟩
  obtain ⟨capacity, whole⟩ : ∃ capacity, buf.length = capacity + 1 := ⟨buf.length - 1, by omega⟩
  have fits : ∀ cmd ∈ history.past, cmd.length ≤ capacity := by
    intro cmd member
    rw [recorded.past] at member
    have kept := List.mem_reverse.mp (List.mem_of_mem_take member)
    have added := (List.mem_filter.mp ((List.destutter_sublist _ _).subset kept)).1
    exact Nat.le_trans (short cmd added) (by omega)
  -- The commands that can be recalled are the end of the list.
  have found {older : Nat} (present : older < count) :
      ∃ cmd, (remembered cmds).reverse[older]? = some cmd ∧ history.past[older]? = some cmd := by
    refine ⟨_, List.getElem?_eq_getElem (by rw [List.length_reverse]; omega), ?_⟩
    rw [recorded.past, List.getElem?_take_of_lt (by omega)]
    exact List.getElem?_eq_getElem _
  rw [← total] at inside
  obtain ⟨after, shown, ran, size, displays⟩ := prevTimes_shows fits len whole inside
  refine ⟨_, ran, ?_, ?_, ?_⟩
  · intro some'
    obtain ⟨cmd, listed, past⟩ := found (Nat.sub_lt some' Nat.one_pos)
    exact ⟨cmd, listed, displays _ cmd (by omega) past⟩
  · intro oldest more
    exact prevTimes_oldest ran (by omega) more
  · intro back newer draft draftLen
    obtain ⟨later, seen, ran, _, again⟩ :=
      nextTimes_shows fits size inside displays draft draftLen newer
    obtain ⟨cmd, listed, past⟩ := found (show count - back - 1 < count by omega)
    exact ⟨_, ran, cmd, listed, again _ cmd (by omega) past⟩

/-- After `a` and `b`, two calls show `a`. -/
theorem history_ring_recalls_first : ∃ history,
    historyAddAll [[0x61], [0x62], [0x62]] .empty = some history ∧
      ∃ place, prevTimes history (0, List.replicate 129 0, 0) 2 = some place ∧
        Displays place [0x61] := by
  obtain ⟨history, added, recalls⟩ := @history_ring_recalls [[0x61], [0x62], [0x62]] (by decide)
  obtain ⟨place, ran, shown, _⟩ := recalls (List.replicate 129 0) 0
    (Nat.le_of_eq List.length_replicate.symm) 2 (by decide)
  obtain ⟨cmd, listed, displays⟩ := shown (by decide)
  have oldest : (remembered [[0x61], [0x62], [0x62]]).reverse[2 - 1]? = some [0x61] := by decide
  obtain rfl := Option.some.inj (listed.symm.trans oldest)
  exact ⟨history, added, place, ran, displays⟩

end Recall

end RustPosix.Shell
