import RustPosix.Shell.Base64

/-! The line as a pair of texts, before and after the cursor, and that each function of the
editor does to its buffer what the pair shows. -/

namespace RustPosix.Shell

open Library

/-- The text on both sides of the cursor. -/
structure Text where
  before : List Byte
  after : List Byte
  deriving DecidableEq, Repr

namespace Text

/-- The whole line. -/
def bytes (text : Text) : List Byte := text.before ++ text.after

/-- The room that a line of at most `capacity` bytes has left. -/
def room (capacity : Nat) (text : Text) : Nat := capacity - text.bytes.length

def insert (capacity : Nat) (data : List Byte) (text : Text) : Text :=
  { text with before := text.before ++ (data.take (text.room capacity)).map cleaned }

def backspace (text : Text) : Text := { text with before := text.before.dropLast }

def deleteChar (text : Text) : Text := { text with after := text.after.tail }

/-- A text without the last word and the blanks behind it. -/
def withoutLastWord (bytes : List Byte) : List Byte :=
  (bytes.rdropWhile isWordBreak).rdropWhile fun byte => !isWordBreak byte

/-- The first word of a text and the blanks behind it. -/
def firstWord (bytes : List Byte) : List Byte :=
  let word := bytes.takeWhile fun byte => !isWordBreak byte
  word ++ (bytes.drop word.length).takeWhile isWordBreak

/-- Put the cursor behind the first `position` bytes. -/
def moveTo (position : Nat) (text : Text) : Text :=
  ⟨text.bytes.take position, text.bytes.drop position⟩

def wordLeft (text : Text) : Text := text.moveTo (withoutLastWord text.before).length

def wordRight (text : Text) : Text :=
  text.moveTo (text.before.length + (firstWord text.after).length)

/-- Another line, with the cursor at its end. -/
def ofLine (bytes : List Byte) : Text := ⟨bytes, []⟩

end Text

/-- The three ways to cut. -/
inductive Kill where
  | toEnd
  | toStart
  | wordBackward
  deriving DecidableEq, Repr

namespace Kill

/-- What is cut. -/
def removed : Kill → Text → List Byte
  | .toEnd, text => text.after
  | .toStart, text => if text.before = [] then text.after else text.before
  | .wordBackward, text => text.before.drop (Text.withoutLastWord text.before).length

/-- What is left. -/
def left : Kill → Text → Text
  | .toEnd, text => ⟨text.before, []⟩
  | .toStart, text => if text.before = [] then ⟨[], []⟩ else ⟨[], text.after⟩
  | .wordBackward, text => ⟨Text.withoutLastWord text.before, text.after⟩

/-- What is cut and what is left make up the line, with the cut at the cursor. -/
theorem rejoin (kill : Kill) (text : Text) :
    (kill.left text).before ++ kill.removed text ++ (kill.left text).after = text.bytes := by
  cases kill with
  | toEnd => exact List.append_nil _
  | toStart =>
    by_cases empty : text.before = [] <;> simp [left, removed, Text.bytes, empty]
  | wordBackward =>
    have whole : Text.withoutLastWord text.before <+: text.before :=
      (List.rdropWhile_prefix _ _).trans (List.rdropWhile_prefix _ _)
    exact congrArg (· ++ text.after) (List.prefix_iff_eq_append.mp whole)

end Kill

/-- The line holds the text, a zero behind it, and bytes that nobody looks at. -/
structure Shows (capacity : Nat) (text : Text) (line : Line) : Prop where
  size : line.buf.length = capacity + 1
  buffer : ∃ spare, line.buf = text.before ++ text.after ++ 0 :: spare
  len : line.len = text.before.length + text.after.length
  cursor : line.cursorPos = text.before.length

section Lines

variable {capacity : Nat} {text : Text} {line : Line}

theorem Shows.fits (shown : Shows capacity text line) : text.bytes.length ≤ capacity := by
  obtain ⟨spare, buffer⟩ := shown.buffer
  have size := shown.size
  rw [buffer] at size
  simp only [List.length_append, List.length_cons] at size
  rw [Text.bytes, List.length_append]
  omega

/-- A line that is cut up as its text says. -/
theorem shows_of_buffer {before after spare : List Byte}
    (size : (before ++ after ++ 0 :: spare).length = capacity + 1) :
    Shows capacity ⟨before, after⟩
      ⟨before ++ after ++ 0 :: spare, before.length + after.length, before.length⟩ :=
  ⟨size, ⟨spare, rfl⟩, rfl, rfl⟩

/-- The same line with the cursor elsewhere. -/
theorem Shows.moveTo (shown : Shows capacity text line) {position : Nat}
    (inside : position ≤ text.bytes.length) :
    Shows capacity (text.moveTo position) { line with cursorPos := position } := by
  obtain ⟨spare, buffer⟩ := shown.buffer
  have len := shown.len
  rw [Text.bytes, List.length_append] at inside
  refine ⟨shown.size, ⟨spare, ?_⟩, ?_, ?_⟩
  · rw [Text.moveTo, List.take_append_drop]
    exact buffer
  · simp only [Text.moveTo, Text.bytes, List.length_take, List.length_drop, List.length_append]
    omega
  · simp only [Text.moveTo, Text.bytes, List.length_take, List.length_append]
    omega

/-- The indices are in order, the line is terminated, and the two parts of the text are what
the buffer holds before and after the cursor. -/
structure Agrees (text : Text) (line : Line) : Prop where
  cursor : line.cursorPos ≤ line.len
  len : line.len ≤ line.buf.length - 1
  zero : line.buf[line.len]? = some 0
  before : line.buf.take line.cursorPos = text.before
  after : slice line.buf line.cursorPos line.len = text.after

theorem Shows.agrees (shown : Shows capacity text line) : Agrees text line := by
  have fits := shown.fits
  obtain ⟨size, ⟨spare, buffer⟩, len, cursor⟩ := shown
  rw [Text.bytes, List.length_append] at fits
  refine ⟨by omega, by omega, ?_, ?_, ?_⟩
  · rw [buffer]
    exact Buffer.getElem?_at (by rw [len, List.length_append])
  · rw [buffer, List.append_assoc, List.take_left' cursor.symm]
  · rw [buffer, slice, List.take_left' (by rw [len, List.length_append]), List.drop_left' cursor.symm]

theorem Agrees.bytes (agrees : Agrees text line) : line.buf.take line.len = text.bytes := by
  have cut : (line.buf.take line.len).take line.cursorPos = text.before := by
    rw [List.take_take, Nat.min_eq_left agrees.cursor, agrees.before]
  have rest : (line.buf.take line.len).drop line.cursorPos = text.after := agrees.after
  rw [Text.bytes, ← cut, ← rest, List.take_append_drop]

/-- The steps of an insertion: the tail moves up, the new bytes go into the gap, and the zero
behind the line is written again. -/
theorem insert_between {before after spare new : List Byte} (room : new.length ≤ spare.length) :
    ∃ rest, (before ++ new ++ after ++ 0 :: rest).length = (before ++ after ++ 0 :: spare).length ∧
      ∀ {Result : Type} (next : List Byte → Option Result),
        (do
          let buf ← Buffer.moveEach id (· + new.length)
            (List.range' before.length after.length).reverse (before ++ after ++ 0 :: spare)
          let buf ← Buffer.putAll before.length new buf
          let buf ← Buffer.put buf (before.length + after.length + new.length) 0
          next buf) = next (before ++ new ++ after ++ 0 :: rest) := by
  -- The gap is taken from the zero and the spare bytes, which are longer than it.
  have cut : 0 :: spare = (0 :: spare).take new.length ++ (0 :: spare).drop new.length :=
    (List.take_append_drop ..).symm
  have gap : ((0 :: spare).take new.length).length = new.length := by simp; omega
  obtain ⟨old, rest, last⟩ : ∃ old rest, (0 :: spare).drop new.length = old :: rest := by
    refine List.exists_cons_of_length_pos ?_
    simp
    omega
  rw [last] at cut
  generalize (0 :: spare).take new.length = front at cut gap
  obtain ⟨shifted, same, moved⟩ := @Buffer.moveEach_up _ id (· + new.length) after before.length
    before front (old :: rest) (fun _ _ => rfl) (fun j _ => by rw [gap]; omega)
  refine ⟨rest, ?_, fun next => ?_⟩
  · rw [cut]
    simp only [List.length_append, List.length_cons, gap]
    omega
  · have zero : Buffer.put (before ++ new ++ after ++ old :: rest)
        (before.length + after.length + new.length) 0 = some (before ++ new ++ after ++ 0 :: rest) :=
      Buffer.put_at (by simp only [List.length_append]; omega)
    rw [cut, ← List.append_assoc, moved, Option.bind_eq_bind, Option.bind_some,
      List.append_assoc (before ++ shifted), Buffer.putAll_between rfl (same.trans gap),
      Option.bind_some, ← List.append_assoc, zero, Option.bind_some]

theorem Text.insert_none {data : List Byte} (none : min (text.room capacity) data.length = 0) :
    text.insert capacity data = text := by
  have taken : data.take (text.room capacity) = [] := by
    rw [List.take_eq_nil_iff, ← List.length_eq_zero_iff]
    omega
  rw [Text.insert, taken, List.map_nil, List.append_nil]

theorem spliceInsert_shows (shown : Shows capacity text line) (data : List Byte) :
    ∃ after, spliceInsert data line = some (min (text.room capacity) data.length, after) ∧
      Shows capacity (text.insert capacity data) after := by
  have fits := shown.fits
  obtain ⟨size, ⟨spare, buffer⟩, len, cursor⟩ := id shown
  obtain ⟨before, after⟩ := text
  obtain ⟨buf, length, cursorPos⟩ := line
  dsimp only at *
  subst buffer len cursor
  simp only [Text.bytes, List.length_append] at fits
  have room : Text.room capacity ⟨before, after⟩ = capacity - (before.length + after.length) := by
    rw [Text.room, Text.bytes, List.length_append]
  rw [spliceInsert]
  dsimp only
  rw [size, Nat.add_sub_cancel, ← room]
  by_cases none : min (Text.room capacity ⟨before, after⟩) data.length = 0
  · refine ⟨_, ?_, (Text.insert_none none).symm ▸ shown⟩
    rw [if_pos none, ite_self, none]
  · rw [if_neg (by simp; omega), if_neg none]
    have taken : ((data.take (Text.room capacity ⟨before, after⟩)).map cleaned).length =
        min (Text.room capacity ⟨before, after⟩) data.length := by
      rw [List.length_map, List.length_take]
    have same : (data.take (min (Text.room capacity ⟨before, after⟩) data.length)).map cleaned =
        (data.take (Text.room capacity ⟨before, after⟩)).map cleaned := by
      rw [← List.take_eq_take_min]
    obtain ⟨rest, whole, inserted⟩ := @insert_between before after spare
      ((data.take (Text.room capacity ⟨before, after⟩)).map cleaned) (by
        simp only [List.length_append, List.length_cons] at size
        omega)
    rw [taken] at inserted
    rw [same, Nat.add_sub_cancel_left, inserted]
    refine ⟨_, rfl, whole.trans size, ⟨rest, rfl⟩, ?_, ?_⟩
    · simp only [Text.insert, List.length_append, taken]
      omega
    · simp only [Text.insert, List.length_append, taken]

/-- The steps of a removal: the tail moves down over what goes, and a zero is written behind
the line. -/
theorem remove_between {source target : Nat → Nat} {base : Nat} {before gone after spare : List Byte}
    (sources : ∀ j < after.length, source (base + j) = before.length + gone.length + j)
    (targets : ∀ j < after.length, target (base + j) = before.length + j) :
    ∃ rest, (before ++ after ++ 0 :: rest).length =
        (before ++ gone ++ after ++ 0 :: spare).length ∧
      ∀ {Result : Type} (next : List Byte → Option Result),
        (do
          let buf ← Buffer.moveEach source target (List.range' base after.length)
            (before ++ gone ++ after ++ 0 :: spare)
          let buf ← Buffer.put buf (before.length + after.length) 0
          next buf) = next (before ++ after ++ 0 :: rest) := by
  obtain ⟨shifted, same, moved⟩ := @Buffer.moveEach_down _ source target (0 :: spare) after base
    before gone sources targets
  obtain ⟨old, rest, last⟩ : ∃ old rest, shifted ++ 0 :: spare = old :: rest :=
    List.exists_cons_of_ne_nil (by simp)
  have sized := congrArg List.length last
  simp only [List.length_append, List.length_cons] at sized
  refine ⟨rest, ?_, fun next => ?_⟩
  · simp only [List.length_append, List.length_cons]
    omega
  · have zero : Buffer.put (before ++ after ++ old :: rest) (before.length + after.length) 0 =
        some (before ++ after ++ 0 :: rest) := Buffer.put_at List.length_append.symm
    rw [moved, Option.bind_eq_bind, Option.bind_some, List.append_assoc (before ++ after), last, zero,
      Option.bind_some]

theorem saveCut_between {before removed after : List Byte} {lo hi : Nat} (killRing : KillRing)
    (low : lo = before.length) (high : hi = lo + removed.length) :
    ∃ sent, saveCut (before ++ removed ++ after) lo hi killRing =
      some (KillRing.save killRing removed, sent) := by
  obtain ⟨sent, copied⟩ := osc52Copy_fits (KillRing.asBytes (KillRing.save killRing removed))
  refine ⟨sent, ?_⟩
  rw [saveCut, Buffer.range_between low high, Option.bind_eq_bind, Option.bind_some]
  dsimp only
  rw [copied]
  rfl

theorem backspace_shows (shown : Shows capacity text line) : ∃ after,
    backspace line = some (decide (text.before ≠ []), after) ∧
      Shows capacity text.backspace after := by
  obtain ⟨size, ⟨spare, buffer⟩, len, cursor⟩ := id shown
  obtain ⟨before, after⟩ := text
  obtain ⟨buf, length, cursorPos⟩ := line
  dsimp only at *
  subst buffer len cursor
  rw [backspace]
  dsimp only
  rcases List.eq_nil_or_concat before with rfl | ⟨front, last, rfl⟩
  · exact ⟨_, rfl, shown⟩
  · rw [List.concat_eq_append] at *
    obtain ⟨rest, whole, removed⟩ := @remove_between id (· - 1) (front ++ [last]).length front [last]
      after spare (fun _ _ => by simp) (fun j _ => by simp)
    rw [if_pos (by simp), Nat.add_sub_cancel_left]
    have shorter : checkedSub ((front ++ [last]).length + after.length) 1 =
        some (front.length + after.length) := by
      rw [checkedSub, if_pos (by simp; omega), List.length_append, List.length_singleton]
      congr 1
      omega
    have back : (front ++ [last]).length - 1 = front.length := by simp
    simp only [shorter, back, Option.bind_eq_bind, Option.bind_some] at removed ⊢
    rw [removed, decide_eq_true (by simp)]
    refine ⟨_, rfl, ?_⟩
    rw [Text.backspace, List.dropLast_concat]
    exact shows_of_buffer (whole.trans (by simpa using size))

theorem deleteChar_shows (shown : Shows capacity text line) : ∃ after,
    deleteChar line = some (decide (text.after ≠ []), after) ∧
      Shows capacity text.deleteChar after := by
  obtain ⟨size, ⟨spare, buffer⟩, len, cursor⟩ := id shown
  obtain ⟨before, after⟩ := text
  obtain ⟨buf, length, cursorPos⟩ := line
  dsimp only at *
  subst buffer len cursor
  rw [deleteChar]
  dsimp only
  cases after with
  | nil => exact ⟨_, if_neg (Nat.lt_irrefl _), shown⟩
  | cons first after =>
    obtain ⟨rest, whole, removed⟩ := @remove_between (· + 1) id before.length before [first]
      after spare (fun j _ => by simp; omega) (fun _ _ => rfl)
    have tail : before.length + (first :: after).length - 1 - before.length = after.length := by
      rw [List.length_cons]
      omega
    have shorter : before.length + (first :: after).length - 1 = before.length + after.length := by
      rw [List.length_cons]
      omega
    have joined : before ++ first :: after ++ 0 :: spare =
        before ++ [first] ++ after ++ 0 :: spare := by simp
    rw [if_pos (by simp), tail, shorter, joined, removed]
    exact ⟨_, rfl, shows_of_buffer (whole.trans (joined ▸ size))⟩

theorem killToEnd_shows (shown : Shows capacity text line) (killRing : KillRing) :
    ∃ cut, killToEnd line killRing = some cut ∧ Shows capacity (Kill.toEnd.left text) cut.line ∧
      cut.killRing = if Kill.toEnd.removed text = [] then killRing
        else KillRing.save killRing (Kill.toEnd.removed text) := by
  obtain ⟨size, ⟨spare, buffer⟩, len, cursor⟩ := id shown
  obtain ⟨before, after⟩ := text
  obtain ⟨buf, length, cursorPos⟩ := line
  dsimp only at *
  subst buffer len cursor
  rw [killToEnd]
  dsimp only
  cases after with
  | nil => exact ⟨_, if_neg (Nat.lt_irrefl _), shown, rfl⟩
  | cons first after =>
    obtain ⟨sent, saved⟩ := @saveCut_between before (first :: after) (0 :: spare) _ _ killRing rfl rfl
    have zero : Buffer.put (before ++ first :: after ++ 0 :: spare) before.length 0 =
        some (before ++ 0 :: (after ++ 0 :: spare)) := by
      rw [List.append_assoc, List.cons_append]
      exact Buffer.put_here
    rw [if_pos (by simp), saved, Option.bind_eq_bind, Option.bind_some]
    dsimp only
    rw [zero]
    refine ⟨_, rfl, ⟨?_, ⟨after ++ 0 :: spare, ?_⟩, rfl, rfl⟩, rfl⟩
    · simpa using size
    · simp [Kill.left]

theorem length_withoutLastWord_le (bytes : List Byte) :
    (Text.withoutLastWord bytes).length ≤ bytes.length :=
  ((List.rdropWhile_prefix _ _).trans (List.rdropWhile_prefix _ _)).length_le

theorem withoutLastWord_append_drop (bytes : List Byte) :
    Text.withoutLastWord bytes ++ bytes.drop (Text.withoutLastWord bytes).length = bytes :=
  List.prefix_iff_eq_append.mp ((List.rdropWhile_prefix _ _).trans (List.rdropWhile_prefix _ _))

theorem length_firstWord_le (bytes : List Byte) :
    (Text.firstWord bytes).length ≤ bytes.length := by
  have first := (List.takeWhile_prefix (fun byte => !isWordBreak byte) (l := bytes)).length_le
  have second := (List.takeWhile_prefix isWordBreak
    (l := bytes.drop (bytes.takeWhile fun byte => !isWordBreak byte).length)).length_le
  rw [List.length_drop] at second
  rw [Text.firstWord, List.length_append]
  omega

theorem wordLeft_front (front rest : List Byte) :
    wordLeft (front ++ rest) front.length = some (Text.withoutLastWord front).length := by
  have cut : front ++ rest = front.rdropWhile isWordBreak ++ (front.rtakeWhile isWordBreak ++ rest) := by
    rw [← List.append_assoc, List.rdropWhile_append_rtakeWhile]
  rw [wordLeft, Buffer.backWhile_front, Option.bind_eq_bind, Option.bind_some, cut,
    Buffer.backWhile_front]
  rfl

theorem wordRight_between (front after rest : List Byte) :
    wordRight (front ++ after ++ rest) (front.length + after.length) front.length =
      some (front.length + (Text.firstWord after).length) := by
  generalize split : after.takeWhile (fun byte => !isWordBreak byte) = word
  have first : word ++ after.drop word.length = after :=
    List.prefix_iff_eq_append.mp (split ▸ List.takeWhile_prefix _)
  have cut : front ++ after ++ rest = (front ++ word) ++ after.drop word.length ++ rest := by
    rw [List.append_assoc front word, first]
  have size := congrArg List.length first
  rw [List.length_append] at size
  rw [wordRight, Buffer.forwardWhile_between after rfl rfl, Option.bind_eq_bind, Option.bind_some,
    split, cut, Buffer.forwardWhile_between _ List.length_append.symm (by omega), Text.firstWord,
    split]
  simp only [List.length_append, Nat.add_assoc]

/-- The common part of the cuts before the cursor. -/
theorem cut_between {before removed after spare : List Byte} (killRing : KillRing) {count : Nat}
    (counted : count = removed.length)
    (size : (before ++ removed ++ after ++ 0 :: spare).length = capacity + 1) :
    ∃ cut, (do
        let (killRing, sent) ← saveCut (before ++ removed ++ after ++ 0 :: spare) before.length
          (before ++ removed).length killRing
        let buf ← Buffer.moveEach id (· - count)
          (List.range' (before ++ removed).length after.length)
          (before ++ removed ++ after ++ 0 :: spare)
        let len ← checkedSub ((before ++ removed).length + after.length) count
        let buf ← Buffer.put buf len 0
        pure (⟨⟨buf, len, before.length⟩, killRing, sent⟩ : Cut)) = some cut ∧
      Shows capacity ⟨before, after⟩ cut.line ∧ cut.killRing = KillRing.save killRing removed := by
  subst counted
  obtain ⟨sent, saved⟩ := @saveCut_between before removed (after ++ 0 :: spare) before.length
    (before ++ removed).length killRing rfl List.length_append
  rw [← List.append_assoc] at saved
  obtain ⟨rest, whole, removes⟩ := @remove_between id (· - removed.length)
    (before ++ removed).length before removed after spare (fun _ _ => by simp)
    (fun j _ => by simp; omega)
  have shorter : checkedSub ((before ++ removed).length + after.length) removed.length =
      some (before.length + after.length) := by
    rw [checkedSub, if_pos (by simp; omega), List.length_append]
    congr 1
    omega
  simp only [saved, shorter, Option.bind_eq_bind, Option.bind_some] at removes ⊢
  rw [removes]
  exact ⟨_, rfl, shows_of_buffer (whole.trans size), rfl⟩

theorem killToStart_shows (shown : Shows capacity text line) (killRing : KillRing) :
    ∃ cut, killToStart line killRing = some cut ∧ Shows capacity (Kill.toStart.left text) cut.line ∧
      cut.killRing = if Kill.toStart.removed text = [] then killRing
        else KillRing.save killRing (Kill.toStart.removed text) := by
  obtain ⟨size, ⟨spare, buffer⟩, len, cursor⟩ := id shown
  obtain ⟨before, after⟩ := text
  obtain ⟨buf, length, cursorPos⟩ := line
  dsimp only at *
  subst buffer len cursor
  rw [killToStart]
  dsimp only
  cases before with
  | cons first front =>
    rw [if_pos (by simp), Nat.add_sub_cancel_left]
    exact @cut_between capacity [] (first :: front) after spare killRing _ rfl size
  | nil =>
    rw [if_neg (by simp)]
    cases after with
    | nil => exact ⟨_, rfl, shown, rfl⟩
    | cons first after =>
      obtain ⟨sent, saved⟩ :=
        @saveCut_between [] (first :: after) (0 :: spare) 0 (([] : List Byte).length +
          (first :: after).length) killRing rfl rfl
      rw [if_pos (by simp), saved]
      refine ⟨_, rfl, ⟨?_, ⟨after ++ 0 :: spare, rfl⟩, rfl, rfl⟩, rfl⟩
      simpa using size

theorem removed_word_ne_nil {before after : List Byte} (some' : before ≠ []) :
    Kill.wordBackward.removed ⟨before, after⟩ ≠ [] := by
  intro none
  have whole : Text.withoutLastWord before = before := by
    have split := withoutLastWord_append_drop before
    rwa [show before.drop (Text.withoutLastWord before).length = [] from none,
      List.append_nil] at split
  obtain ⟨front, last, rfl⟩ := (List.eq_nil_or_concat before).resolve_left some'
  rw [List.concat_eq_append] at whole
  have shorter : (Text.withoutLastWord (front ++ [last])).length ≤ front.length := by
    rw [Text.withoutLastWord]
    by_cases blank : isWordBreak last
    · rw [List.rdropWhile_concat_pos _ _ _ blank]
      exact length_withoutLastWord_le front
    · rw [List.rdropWhile_concat_neg _ _ _ blank, List.rdropWhile_concat_pos _ _ _ (by simpa using blank)]
      exact (List.rdropWhile_prefix _ _).length_le
  rw [whole, List.length_append, List.length_singleton] at shorter
  omega

theorem killWordBackward_shows (shown : Shows capacity text line) (killRing : KillRing) :
    ∃ cut, killWordBackward line killRing = some cut ∧
      Shows capacity (Kill.wordBackward.left text) cut.line ∧
      cut.killRing = if Kill.wordBackward.removed text = [] then killRing
        else KillRing.save killRing (Kill.wordBackward.removed text) := by
  obtain ⟨size, ⟨spare, buffer⟩, len, cursor⟩ := id shown
  obtain ⟨before, after⟩ := text
  obtain ⟨buf, length, cursorPos⟩ := line
  dsimp only at *
  subst buffer len cursor
  rw [killWordBackward]
  dsimp only
  by_cases empty : before = []
  · subst empty
    exact ⟨_, rfl, shown, rfl⟩
  · have split := withoutLastWord_append_drop before
    have word := wordLeft_front before (after ++ 0 :: spare)
    rw [← List.append_assoc] at word
    have shorter : checkedSub before.length (Text.withoutLastWord before).length =
        some (before.length - (Text.withoutLastWord before).length) :=
      if_pos (length_withoutLastWord_le before)
    have cut := @cut_between capacity (Text.withoutLastWord before)
      (before.drop (Text.withoutLastWord before).length) after spare killRing
      (before.length - (Text.withoutLastWord before).length) List.length_drop.symm
      (by rw [split]; exact size)
    rw [split] at cut
    rw [if_pos (List.length_pos_iff.mpr empty), word, Option.bind_eq_bind, Option.bind_some,
      shorter, Option.bind_some, Nat.add_sub_cancel_left, if_neg (removed_word_ne_nil empty)]
    exact cut

/-- The three functions under one name. -/
def Kill.apply : Kill → Line → KillRing → Option Cut
  | .toEnd => killToEnd
  | .toStart => killToStart
  | .wordBackward => killWordBackward

theorem Kill.apply_shows (kill : Kill) (shown : Shows capacity text line) (killRing : KillRing) :
    ∃ cut, kill.apply line killRing = some cut ∧ Shows capacity (kill.left text) cut.line ∧
      cut.killRing = if kill.removed text = [] then killRing
        else KillRing.save killRing (kill.removed text) := by
  cases kill with
  | toEnd => exact killToEnd_shows shown killRing
  | toStart => exact killToStart_shows shown killRing
  | wordBackward => exact killWordBackward_shows shown killRing

end Lines

end RustPosix.Shell
