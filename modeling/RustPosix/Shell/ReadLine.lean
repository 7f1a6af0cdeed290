import RustPosix.Shell.Completion
import RustPosix.Shell.History

/-! What the keys of `read_line_with_history` do to the line, the kill ring, the place in the
history and the draft. -/

namespace RustPosix.Shell

open Library

/-- The variables of `read_line_with_history` and the statics that it uses. -/
structure Session where
  line : Line
  killRing : KillRing
  history : History
  historyCursor : Nat
  draft : FixedText maxCmdLen
  /-- What has been sent for the clipboard. -/
  sent : List Byte

/-- What a key asks for, once escape sequences and pastes have been read. -/
inductive Edit where
  | type (byte : Byte)
  | paste (data : List Byte)
  | yank
  | kill (kill : Kill)
  | backspace
  | deleteChar
  | wordLeft
  | wordRight
  | left
  | right
  | home
  | lineEnd
  | historyPrev
  | historyNext
  | complete (knownCommands : List (List Byte)) (dirents : List Dirent) (keys : List Key)

namespace Session

/-- The line becomes the draft while no past command is shown. -/
def saveDraft (session : Session) : Option Session :=
  if session.historyCursor = 0 then do
    let block ← Buffer.range session.line.buf 0 (min session.line.len maxCmdLen)
    pure { session with draft := session.draft.store block }
  else some session

/-- The draft is saved if the edit changed something. -/
def saveDraftIf (changed : Bool) (session : Session) : Option Session :=
  if changed then session.saveDraft else some session

def apply : Edit → Session → Option Session
  | .type byte, session => do
    let (count, line) ← spliceInsert [byte] session.line
    saveDraftIf (decide (count > 0)) { session with line }
  | .paste data, session => do
    let (_, line) ← spliceInsert data session.line
    saveDraft { session with line }
  | .yank, session => do
    let (_, line) ← Shell.yank session.line session.killRing
    saveDraft { session with line }
  | .kill kill, session => do
    let cut ← kill.apply session.line session.killRing
    saveDraft
      { session with line := cut.line, killRing := cut.killRing, sent := session.sent ++ cut.sent }
  | .backspace, session => do
    let (changed, line) ← Shell.backspace session.line
    saveDraftIf changed { session with line }
  | .deleteChar, session => do
    let (changed, line) ← Shell.deleteChar session.line
    saveDraftIf changed { session with line }
  | .wordLeft, session => do
    let cursorPos ← Shell.wordLeft session.line.buf session.line.cursorPos
    pure { session with line := { session.line with cursorPos } }
  | .wordRight, session => do
    let cursorPos ← Shell.wordRight session.line.buf session.line.len session.line.cursorPos
    pure { session with line := { session.line with cursorPos } }
  | .left, session =>
    some { session with line := { session.line with cursorPos := session.line.cursorPos - 1 } }
  | .right, session =>
    if session.line.cursorPos < session.line.len then
      some { session with line := { session.line with cursorPos := session.line.cursorPos + 1 } }
    else some session
  | .home, session => some { session with line := { session.line with cursorPos := 0 } }
  | .lineEnd, session =>
    some { session with line := { session.line with cursorPos := session.line.len } }
  | .historyPrev, session => do
    let session ← session.saveDraft
    let (historyCursor, buf, len) ← Shell.historyPrev session.history session.historyCursor
      session.line.buf session.line.len
    pure { session with historyCursor, line := ⟨buf, len, len⟩ }
  | .historyNext, session => do
    let (historyCursor, buf, len) ← Shell.historyNext session.history session.historyCursor
      session.line.buf session.line.len session.draft.buf session.draft.len
    pure { session with historyCursor, line := ⟨buf, len, len⟩ }
  | .complete knownCommands dirents keys, session => do
    match ← handleTabCompletion session.line knownCommands dirents keys with
    | some line => pure { session with line := { line with cursorPos := line.len } }
    -- The menu is still open.
    | none => pure session

/-- The edits of a line, one after the other. -/
def run (edits : List Edit) (session : Session) : Option Session :=
  edits.foldlM (fun session edit => session.apply edit) session

end Session

/-- The same in terms of texts: the line on both sides of the cursor, the text last cut, the
past commands, how many of them back the user is, and the draft. -/
structure Desk where
  text : Text
  killed : List Byte
  past : List (List Byte)
  back : Nat
  draft : List Byte
  deriving DecidableEq, Repr

namespace Desk

variable (capacity : Nat)

def saveDraft (desk : Desk) : Desk :=
  if desk.back = 0 then { desk with draft := desk.text.bytes.take maxCmdLen } else desk

def saveDraftIf (changed : Bool) (desk : Desk) : Desk := if changed then desk.saveDraft else desk

def insert (data : List Byte) (desk : Desk) : Desk :=
  { desk with text := desk.text.insert capacity data }

/-- Show a past command, or the draft. -/
def showLine (back : Nat) (bytes : List Byte) (desk : Desk) : Desk :=
  { desk with back, text := .ofLine (bytes.take capacity) }

def toEnd (desk : Desk) : Desk := { desk with text := .ofLine desk.text.bytes }

def apply : Edit → Desk → Desk
  | .type byte, desk =>
    (desk.insert capacity [byte]).saveDraftIf (decide (desk.text.bytes.length < capacity))
  | .paste data, desk => (desk.insert capacity data).saveDraft
  | .yank, desk => (desk.insert capacity desk.killed).saveDraft
  | .kill kill, desk =>
    let removed := kill.removed desk.text
    saveDraft
      { desk with
        text := kill.left desk.text
        killed := if removed = [] then desk.killed else removed.take killRingSize }
  | .backspace, desk =>
    saveDraftIf (decide (desk.text.before ≠ [])) { desk with text := desk.text.backspace }
  | .deleteChar, desk =>
    saveDraftIf (decide (desk.text.after ≠ [])) { desk with text := desk.text.deleteChar }
  | .wordLeft, desk => { desk with text := desk.text.wordLeft }
  | .wordRight, desk => { desk with text := desk.text.wordRight }
  | .left, desk => { desk with text := desk.text.moveTo (desk.text.before.length - 1) }
  | .right, desk => { desk with text := desk.text.moveTo (desk.text.before.length + 1) }
  | .home, desk => { desk with text := desk.text.moveTo 0 }
  | .lineEnd, desk => desk.toEnd
  | .historyPrev, desk =>
    match desk.past[desk.back]? with
    | some cmd => desk.saveDraft.showLine capacity (desk.back + 1) cmd
    | none => desk.saveDraft.toEnd
  | .historyNext, desk =>
    match desk.back with
    | 0 => desk.toEnd
    | 1 => desk.showLine capacity 0 desk.draft
    | back + 2 => desk.showLine capacity (back + 1) (desk.past[back]?.getD [])
  | .complete knownCommands dirents keys, desk =>
    match completed capacity desk.text.bytes knownCommands dirents keys with
    | some bytes => { desk with text := .ofLine bytes }
    | none => desk

def run (edits : List Edit) (desk : Desk) : Desk :=
  edits.foldl (fun desk edit => desk.apply capacity edit) desk

end Desk

/-- The session is an implementation of the desk. -/
structure Reflects (capacity : Nat) (session : Session) (desk : Desk) : Prop where
  shown : Shows capacity desk.text session.line
  killed : KillRing.asBytes session.killRing = desk.killed
  past : session.history.past = desk.past
  back : session.historyCursor = desk.back
  inside : desk.back ≤ desk.past.length
  draft : session.draft.text = desk.draft

section Refinement

variable {capacity : Nat} {session : Session} {desk : Desk}

theorem Reflects.withText {text : Text} {line : Line} (reflects : Reflects capacity session desk)
    (shown : Shows capacity text line) :
    Reflects capacity { session with line } { desk with text } :=
  ⟨shown, reflects.killed, reflects.past, reflects.back, reflects.inside, reflects.draft⟩

theorem Shows.range_front {text : Text} {line : Line} (shown : Shows capacity text line)
    (count : Nat) : Buffer.range line.buf 0 (min line.len count) = some (text.bytes.take count) := by
  obtain ⟨spare, buffer⟩ := shown.buffer
  have len : line.len = text.bytes.length := by
    rw [shown.len, Text.bytes, List.length_append]
  have cut : line.buf = [] ++ text.bytes.take count ++ (text.bytes.drop count ++ 0 :: spare) := by
    rw [List.nil_append, ← List.append_assoc, List.take_append_drop]
    exact buffer
  rw [cut, len]
  exact Buffer.range_between rfl (by rw [List.length_take, Nat.zero_add, Nat.min_comm])

theorem Reflects.saveDraft (reflects : Reflects capacity session desk) :
    ∃ after, session.saveDraft = some after ∧ Reflects capacity after desk.saveDraft := by
  have back := reflects.back
  rw [Session.saveDraft, Desk.saveDraft]
  by_cases drafting : desk.back = 0
  · rw [if_pos (by omega), if_pos drafting, reflects.shown.range_front]
    refine ⟨_, rfl, reflects.shown, reflects.killed, reflects.past, back, reflects.inside, ?_⟩
    dsimp only
    rw [FixedText.text_store, List.take_take, Nat.min_self]
  · rw [if_neg (by omega), if_neg drafting]
    exact ⟨session, rfl, reflects⟩

theorem Reflects.saveDraftIf (reflects : Reflects capacity session desk) (changed : Bool) :
    ∃ after, session.saveDraftIf changed = some after ∧
      Reflects capacity after (desk.saveDraftIf changed) := by
  cases changed with
  | true => exact reflects.saveDraft
  | false => exact ⟨session, rfl, reflects⟩

theorem Reflects.insert (reflects : Reflects capacity session desk) (data : List Byte) :
    ∃ line, spliceInsert data session.line =
        some (min (desk.text.room capacity) data.length, line) ∧
      Reflects capacity { session with line } (desk.insert capacity data) := by
  obtain ⟨line, inserted, shown⟩ := spliceInsert_shows reflects.shown data
  exact ⟨line, inserted, reflects.withText shown⟩

theorem Reflects.toEnd (reflects : Reflects capacity session desk) :
    Reflects capacity { session with line := { session.line with cursorPos := session.line.len } }
      desk.toEnd :=
  reflects.withText reflects.shown.ofLine

theorem Desk.past_saveDraft (desk : Desk) : desk.saveDraft.past = desk.past := by
  unfold saveDraft
  split <;> rfl

theorem Desk.back_saveDraft (desk : Desk) : desk.saveDraft.back = desk.back := by
  unfold saveDraft
  split <;> rfl

theorem Reflects.prev (reflects : Reflects capacity session desk) :
    ∃ after, session.apply .historyPrev = some after ∧
      Reflects capacity after (desk.apply capacity .historyPrev) := by
  obtain ⟨middle, saved, kept⟩ := reflects.saveDraft
  have back := kept.back
  have past := kept.past
  rw [Desk.back_saveDraft] at back
  rw [Desk.past_saveDraft] at past
  rw [Session.apply, saved, Option.bind_eq_bind, Option.bind_some, Desk.apply]
  cases found : desk.past[desk.back]? with
  | none =>
    have last := List.getElem?_eq_none_iff.mp found
    rw [historyPrev_oldest (by rw [past, back]; exact last)]
    exact ⟨_, rfl, kept.toEnd⟩
  | some cmd =>
    have inside := (List.getElem?_eq_some_iff.mp found).1
    rw [← past, ← back] at found
    obtain ⟨buf, len, moved, shown⟩ := historyPrev_shows kept.shown.size found middle.line.len
    rw [moved]
    refine ⟨_, rfl, shown, kept.killed, kept.past, ?_, ?_, kept.draft⟩
    · exact congrArg (· + 1) back
    · change desk.back + 1 ≤ desk.saveDraft.past.length
      rw [Desk.past_saveDraft]
      exact inside

theorem Reflects.next (reflects : Reflects capacity session desk) :
    ∃ after, session.apply .historyNext = some after ∧
      Reflects capacity after (desk.apply capacity .historyNext) := by
  have back := reflects.back
  have inside := reflects.inside
  rw [Session.apply, Desk.apply]
  match place : desk.back with
  | 0 =>
    rw [historyNext, if_neg (by omega), if_neg (by omega)]
    exact ⟨_, rfl, reflects.toEnd⟩
  | 1 =>
    obtain ⟨buf, len, recalled, shown⟩ := recall_shows reflects.shown.size session.draft
    rw [historyNext, if_neg (by omega), if_pos (by omega), recalled]
    rw [reflects.draft] at shown
    exact ⟨_, rfl, shown, reflects.killed, reflects.past, rfl, Nat.zero_le _, reflects.draft⟩
  | older + 2 =>
    obtain ⟨cmd, found⟩ : ∃ cmd, desk.past[older]? = some cmd :=
      ⟨_, List.getElem?_eq_getElem (by omega)⟩
    have stored := found
    rw [← reflects.past] at stored
    obtain ⟨buf, len, moved, shown⟩ := historyNext_shows reflects.shown.size stored
      session.line.len session.draft.buf session.draft.len
    rw [back, place, moved]
    dsimp only
    rw [found]
    refine ⟨_, rfl, shown, reflects.killed, reflects.past, rfl, ?_, reflects.draft⟩
    change older + 1 ≤ desk.past.length
    omega

/-- Every edit of the session is the edit of the desk, and none of them panics. -/
theorem Reflects.apply (reflects : Reflects capacity session desk) (edit : Edit) :
    ∃ after, session.apply edit = some after ∧ Reflects capacity after (desk.apply capacity edit) := by
  have shown := reflects.shown
  have fits := shown.fits
  cases edit with
  | type byte =>
    obtain ⟨line, inserted, next⟩ := reflects.insert [byte]
    have changed : decide (min (desk.text.room capacity) [byte].length > 0) =
        decide (desk.text.bytes.length < capacity) := by
      rw [decide_eq_decide, Text.room, List.length_singleton]
      omega
    rw [Session.apply, inserted, Option.bind_eq_bind, Option.bind_some]
    dsimp only
    rw [changed]
    exact next.saveDraftIf _
  | paste data =>
    obtain ⟨line, inserted, next⟩ := reflects.insert data
    rw [Session.apply, inserted]
    exact next.saveDraft
  | yank =>
    obtain ⟨line, inserted, next⟩ := reflects.insert desk.killed
    rw [Session.apply, Shell.yank, reflects.killed, inserted]
    exact next.saveDraft
  | kill kill =>
    obtain ⟨cut, ran, left, ring⟩ := kill.apply_shows shown session.killRing
    rw [Session.apply, ran, Option.bind_eq_bind, Option.bind_some, Desk.apply]
    refine Reflects.saveDraft
      ⟨left, ?_, reflects.past, reflects.back, reflects.inside, reflects.draft⟩
    dsimp only
    rw [ring]
    split
    · exact reflects.killed
    · exact FixedText.text_store ..
  | backspace =>
    obtain ⟨line, ran, next⟩ := backspace_shows shown
    rw [Session.apply, ran]
    exact (reflects.withText next).saveDraftIf _
  | deleteChar =>
    obtain ⟨line, ran, next⟩ := deleteChar_shows shown
    rw [Session.apply, ran]
    exact (reflects.withText next).saveDraftIf _
  | wordLeft =>
    obtain ⟨spare, buffer⟩ := shown.buffer
    have found := wordLeft_front desk.text.before (desk.text.after ++ 0 :: spare)
    rw [← List.append_assoc, ← buffer, ← shown.cursor] at found
    rw [Session.apply, found]
    refine ⟨_, rfl, reflects.withText (shown.moveTo ?_)⟩
    rw [Text.bytes, List.length_append]
    exact Nat.le_trans (length_withoutLastWord_le _) (Nat.le_add_right ..)
  | wordRight =>
    obtain ⟨spare, buffer⟩ := shown.buffer
    have found := wordRight_between desk.text.before desk.text.after (0 :: spare)
    rw [← buffer, ← shown.len, ← shown.cursor] at found
    rw [Session.apply, found, shown.cursor]
    refine ⟨_, rfl, reflects.withText (shown.moveTo ?_)⟩
    rw [Text.bytes, List.length_append]
    exact Nat.add_le_add_left (length_firstWord_le _) _
  | left =>
    rw [Session.apply, shown.cursor]
    refine ⟨_, rfl, reflects.withText (shown.moveTo ?_)⟩
    rw [Text.bytes, List.length_append]
    omega
  | right =>
    have cursor := shown.cursor
    have len := shown.len
    rw [Session.apply]
    split
    · refine ⟨_, rfl, ?_⟩
      rw [cursor]
      refine reflects.withText (shown.moveTo ?_)
      rw [Text.bytes, List.length_append]
      omega
    · have empty : desk.text.after = [] := List.length_eq_zero_iff.mp (by omega)
      have same : desk.text.moveTo (desk.text.before.length + 1) = desk.text := by
        rw [Text.moveTo, Text.bytes, empty, List.append_nil, List.take_of_length_le (by omega),
          List.drop_of_length_le (by omega), ← empty]
      rw [Desk.apply, same]
      exact ⟨session, rfl, reflects⟩
  | home => exact ⟨_, rfl, reflects.withText (shown.moveTo (Nat.zero_le _))⟩
  | lineEnd => exact ⟨_, rfl, reflects.toEnd⟩
  | historyPrev => exact reflects.prev
  | historyNext => exact reflects.next
  | complete knownCommands dirents keys =>
    have completes := handleTabCompletion_shows shown knownCommands dirents keys
    rw [Session.apply, Desk.apply]
    split at completes
    · rename_i waiting
      rw [completes, waiting]
      exact ⟨session, rfl, reflects⟩
    · rename_i bytes done
      obtain ⟨line, ran, next⟩ := completes
      rw [ran, done]
      exact ⟨_, rfl, reflects.withText next⟩

/-- So does every sequence of edits. -/
theorem Reflects.run (edits : List Edit) : ∀ {session : Session} {desk : Desk},
    Reflects capacity session desk →
    ∃ after, session.run edits = some after ∧ Reflects capacity after (desk.run capacity edits) := by
  induction edits with
  | nil => exact fun reflects => ⟨_, rfl, reflects⟩
  | cons edit rest ih =>
    intro session desk reflects
    obtain ⟨middle, step, kept⟩ := reflects.apply edit
    obtain ⟨after, ran, last⟩ := ih kept
    refine ⟨after, ?_, last⟩
    rw [Session.run, List.foldlM_cons, step]
    exact ran

/-- An empty line, without a past command. -/
structure Started (session : Session) : Prop where
  len : session.line.len = 0
  cursor : session.line.cursorPos = 0
  zero : session.line.buf[0]? = some 0
  current : session.historyCursor = 0

def Session.blank (session : Session) : Desk where
  text := ⟨[], []⟩
  killed := KillRing.asBytes session.killRing
  past := session.history.past
  back := 0
  draft := session.draft.text

/-- The bytes that an edit can use; the last one is for the zero. -/
def Session.limit (session : Session) : Nat := session.line.buf.length - 1

theorem Started.reflects (started : Started session) :
    Reflects session.limit session session.blank := by
  obtain ⟨first, spare, buffer⟩ : ∃ first spare, session.line.buf = first :: spare :=
    List.exists_cons_of_length_pos (List.getElem?_eq_some_iff.mp started.zero).1
  have zero := started.zero
  rw [buffer, List.getElem?_cons_zero] at zero
  obtain rfl := Option.some.inj zero
  refine ⟨⟨?_, ⟨spare, buffer⟩, started.len, started.cursor⟩, rfl, rfl, started.current,
    Nat.zero_le _, rfl⟩
  rw [Session.limit, buffer, List.length_cons]
  rfl

theorem Desk.text_saveDraft (desk : Desk) : desk.saveDraft.text = desk.text := by
  unfold saveDraft
  split <;> rfl

theorem Desk.killed_saveDraft (desk : Desk) : desk.saveDraft.killed = desk.killed := by
  unfold saveDraft
  split <;> rfl

/-- Yanking right after a cut puts back what was cut. -/
theorem Desk.yank_after_kill (kill : Kill) (fits : desk.text.bytes.length ≤ capacity)
    (some' : 1 ≤ (kill.removed desk.text).length)
    (whole : (kill.removed desk.text).length ≤ killRingSize)
    (plain : ∀ byte ∈ kill.removed desk.text, byte ≠ carriageReturn ∧ byte ≠ lineFeed) :
    (desk.run capacity [.kill kill, .yank]).text.bytes = desk.text.bytes := by
  have joined := kill.rejoin desk.text
  have size := congrArg List.length joined
  simp only [List.length_append] at size
  have cut : kill.removed desk.text ≠ [] := List.length_pos_iff.mp some'
  have kept : (kill.removed desk.text).map cleaned = kill.removed desk.text := by
    refine (List.map_congr_left fun byte member => ?_).trans (List.map_id _)
    exact if_neg (not_or.mpr (plain byte member))
  have room : (kill.removed desk.text).length ≤ (kill.left desk.text).room capacity := by
    rw [Text.room, Text.bytes, List.length_append]
    omega
  simp only [Desk.run, List.foldl_cons, List.foldl_nil, Desk.apply, Desk.text_saveDraft,
    Desk.killed_saveDraft, Desk.insert, Text.insert, if_neg cut, Text.bytes]
  rw [List.take_of_length_le whole, List.take_of_length_le room, kept]
  exact joined

/-- Whatever is typed, cut, recalled or completed on an empty line of at least one byte, no
access leaves its array, and the line is the pair of texts that the edits make of two empty
ones. A cut of up to 1024 bytes in one line is undone by yanking right after it. -/
theorem editor_refines_text (started : Started session) (edits : List Edit) :
    ∃ after, session.run edits = some after ∧
      after.line.buf.length = session.line.buf.length ∧
      Agrees (session.blank.run session.limit edits).text after.line ∧
      ∀ kill : Kill, 1 ≤ (kill.removed (session.blank.run session.limit edits).text).length →
        (kill.removed (session.blank.run session.limit edits).text).length ≤ killRingSize →
        (∀ byte ∈ kill.removed (session.blank.run session.limit edits).text,
          byte ≠ carriageReturn ∧ byte ≠ lineFeed) →
        ∃ last, after.run [.kill kill, .yank] = some last ∧
          last.line.buf.take last.line.len = after.line.buf.take after.line.len := by
  obtain ⟨after, ran, reflects⟩ := started.reflects.run edits
  have size : session.line.buf.length = session.limit + 1 := started.reflects.shown.size
  refine ⟨after, ran, by rw [reflects.shown.size, size], reflects.shown.agrees, ?_⟩
  intro kill some' whole plain
  obtain ⟨last, again, reflected⟩ := reflects.run [.kill kill, .yank]
  refine ⟨last, again, ?_⟩
  rw [reflected.shown.agrees.bytes, reflects.shown.agrees.bytes]
  exact Desk.yank_after_kill kill reflects.shown.fits some' whole plain

/-- An empty line of eight bytes. -/
def shortSession : Session where
  line := ⟨List.replicate 8 0, 0, 0⟩
  killRing := .empty
  history := .empty
  historyCursor := 0
  draft := .empty
  sent := []

/-- Nine bytes are pasted, one of them the end of a line: seven fit, and the end is a space. -/
theorem editor_refines_text_short : ∃ after,
    shortSession.run [.paste [0x61, 0x62, 0x0A, 0x63, 0x64, 0x65, 0x66, 0x67, 0x68], .wordLeft,
      .backspace] = some after ∧
      after.line.buf.take after.line.cursorPos = [0x61, 0x62] ∧
      slice after.line.buf after.line.cursorPos after.line.len = [0x63, 0x64, 0x65, 0x66] := by
  obtain ⟨after, ran, _, agrees, _⟩ := @editor_refines_text shortSession
    ⟨rfl, rfl, rfl, rfl⟩ [.paste [0x61, 0x62, 0x0A, 0x63, 0x64, 0x65, 0x66, 0x67, 0x68], .wordLeft,
      .backspace]
  refine ⟨after, ran, agrees.before.trans ?_, agrees.after.trans ?_⟩
  · decide +kernel
  · decide +kernel

end Refinement

end RustPosix.Shell
