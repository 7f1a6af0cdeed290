import RustPosix.Shell.Text
import RustPosix.Vfs.Path

/-! Completion of commands and names of files, `userland/shell/src/completion.rs`. What is
drawn on the terminal is left out. -/

namespace RustPosix.Shell

open Library Vfs

def toAsciiLowercase (byte : Byte) : Byte :=
  if 0x41 ≤ byte ∧ byte ≤ 0x5A then byte + 0x20 else byte

def slash : Byte := 0x2F
def dash : Byte := 0x2D
def underscore : Byte := 0x5F
def dot : Byte := 0x2E

/-- The loop over the target: the rest of the pattern, the score, the index of the last match
if there was one, the index of the next byte and the byte before it. -/
def fuzzyScan : List Byte → List Byte → Int → Option Nat → Nat → Option Byte → List Byte × Int
  | pattern, [], score, _, _, _ => (pattern, score)
  | [], _ :: _, score, _, _, _ => ([], score)
  | wanted :: pattern, byte :: target, score, prev, idx, before =>
    if toAsciiLowercase wanted = toAsciiLowercase byte then
      let boundary : Int :=
        if before = none ∨ before = some slash ∨ before = some dash ∨ before = some underscore
        then 15 else 0
      let consecutive : Int := if prev.any fun last => idx = last + 1 then 20 else 0
      let identical : Int := if wanted = byte then 5 else 0
      fuzzyScan pattern target (score + 10 + boundary + consecutive + identical) (some idx) (idx + 1)
        (some byte)
    else fuzzyScan (wanted :: pattern) target score prev (idx + 1) (some byte)

def fuzzyScore (pattern target : List Byte) : Option Int :=
  if pattern = [] then some 0
  else if pattern.length > target.length then none
  else
    let (unmatched, score) := fuzzyScan pattern target 0 none 0 none
    if unmatched = [] then some (score - (target.length - pattern.length)) else none

/-- One of the names that are offered. -/
structure MatchCandidate where
  /-- The bytes of the name that are in use. -/
  name : List Byte
  score : Int
  isDir : Bool
  fits : name.length ≤ 63

/-- A name as far as it fits. -/
def candidate (name : List Byte) (score : Int) (isDir : Bool) : MatchCandidate where
  name := name.take 63
  score
  isDir
  fits := List.length_take_le ..

def maxMatches : Nat := 24

/-- Look at the known commands; at most 24 are kept. -/
def commandMatches (pattern : List Byte) (knownCommands : List (List Byte)) :
    List MatchCandidate :=
  (knownCommands.filterMap fun cmd =>
    (fuzzyScore pattern cmd).map fun score => candidate cmd score false).take maxMatches

/-- A record of `getdents64`: the bytes of its name before the first zero, and whether it is
a directory. -/
structure Dirent where
  name : List Byte
  isDir : Bool
  deriving DecidableEq, Repr

def direntMatch (pattern : List Byte) (dirent : Dirent) : Option MatchCandidate :=
  if dirent.name = [] ∨ ¬ validUtf8 dirent.name then none
  else if dirent.name.head? = some dot ∧ pattern.head? ≠ some dot then none
  else (fuzzyScore pattern dirent.name).map fun score => candidate dirent.name score dirent.isDir

def pathMatches (pattern : List Byte) (dirents : List Dirent) : List MatchCandidate :=
  (dirents.filterMap (direntMatch pattern)).take maxMatches

/-- The pairs of indices that the sort compares, in its order. -/
def sortPairs (count : Nat) : List (Nat × Nat) :=
  (List.range count).flatMap fun i => (List.range' (i + 1) (count - (i + 1))).map fun j => (i, j)

/-- Exchange two entries if the second one has the higher score. -/
def sortStep (sorted : List MatchCandidate) (pair : Nat × Nat) : Option (List MatchCandidate) := do
  let first ← sorted[pair.1]?
  let second ← sorted[pair.2]?
  pure (if second.score > first.score then (sorted.set pair.1 second).set pair.2 first else sorted)

def sortMatches (candidates : List MatchCandidate) : Option (List MatchCandidate) :=
  (sortPairs candidates.length).foldlM sortStep candidates

/-- What `getchar` returns: a byte, or none for a negative number. -/
abbrev Key := Option Byte

/-- How the menu ends. -/
inductive MenuEnd where
  /-- The keys so far do not end it. -/
  | waiting
  | dismissed
  /-- The entry, and the key that took it. -/
  | chosen (sel : Nat) (key : Byte)
  deriving DecidableEq, Repr

def escape : Byte := 0x1B

/-- The loop of the menu. The remainder by the number of entries panics if there are none. -/
def completionMenu (count : Nat) : List Key → Nat → Option MenuEnd
  | [], _ => some .waiting
  | none :: keys, sel => completionMenu count keys sel
  | some key :: keys, sel =>
    if key = tab ∨ key = 0x06 then
      if count = 0 then none else completionMenu count keys ((sel + 1) % count)
    else if key = escape then
      match keys with
      | second :: third :: keys =>
        if second = some 0x5B then
          if third = some 0x43 then
            if count = 0 then none else completionMenu count keys ((sel + 1) % count)
          else if third = some 0x44 then do
            let last ← checkedSub count 1
            completionMenu count keys (if sel = 0 then last else sel - 1)
          else completionMenu count keys sel
        else completionMenu count keys sel
      | _ => some .waiting
    else if key = lineFeed ∨ key = carriageReturn ∨ key = space then some (.chosen sel key)
    else some .dismissed

/-- Write a name and what ends it over the line, if there is room for both and the zero. -/
def insertMatch (line : Line) (replaceStart : Nat) (name : List Byte) (ending : List Byte) :
    Option Line :=
  if replaceStart + name.length + 1 < line.buf.length then do
    let buf ← Buffer.overwrite line.buf replaceStart name
    let endPos := replaceStart + name.length
    let buf ← Buffer.putAll endPos ending buf
    let endPos := endPos + ending.length
    let buf ← Buffer.put buf endPos 0
    pure { line with buf, len := endPos }
  else some line

/-- The text of a single match ends with a slash or a space. -/
def singleEnding (isDir : Bool) : List Byte := if isDir then [slash] else [space]

/-- A match from the menu ends with a slash, or with the space that took it. -/
def menuEnding (isDir : Bool) (key : Byte) : List Byte :=
  if isDir then [slash] else if key = space then [space] else []

/-- The line, or none in the second place while the menu is open. -/
def showCompletionMenu (line : Line) (replaceStart : Nat) (candidates : List MatchCandidate)
    (keys : List Key) : Option (Option Line) := do
  match ← completionMenu candidates.length keys 0 with
  | .waiting => pure none
  | .dismissed => pure (some line)
  | .chosen sel key =>
    let chosen ← candidates[sel]?
    let line ← insertMatch line replaceStart chosen.name (menuEnding chosen.isDir key)
    pure (some line)

/-- Where the word to complete starts, and what may stand for it. -/
def gatherMatches (line : Line) (knownCommands : List (List Byte)) (dirents : List Dirent) :
    Option (Nat × List MatchCandidate) := do
  let start ← Buffer.forwardWhile isWordBreak line.buf line.len 0
  -- A blank behind the first word makes it an argument that is completed.
  let blank ← Buffer.forwardWhile (fun byte => !isWordBreak byte) line.buf line.len start
  if blank = line.len then
    let pattern ← Buffer.range line.buf start line.len
    pure (start, if validUtf8 pattern then commandMatches pattern knownCommands else [])
  else
    let lastSpace ← Buffer.backWhile (fun byte => !isWordBreak byte) line.buf line.len
    let pattern ← Buffer.range line.buf lastSpace line.len
    pure (lastSpace, if validUtf8 pattern then pathMatches pattern dirents else [])

/-- Put the only match in, or let the user choose. -/
def placeMatch (line : Line) (replaceStart : Nat) (sorted : List MatchCandidate)
    (keys : List Key) : Option (Option Line) :=
  match sorted with
  | [] => some (some line)
  | [single] => do
    let line ← insertMatch line replaceStart single.name (singleEnding single.isDir)
    pure (some line)
  | sorted => showCompletionMenu line replaceStart sorted keys

def handleTabCompletion (line : Line) (knownCommands : List (List Byte)) (dirents : List Dirent)
    (keys : List Key) : Option (Option Line) := do
  let (replaceStart, candidates) ← gatherMatches line knownCommands dirents
  let sorted ← sortMatches candidates
  placeMatch line replaceStart sorted keys

/-- A text up to its last word, and that word. -/
def stem (bytes : List Byte) : List Byte := bytes.rdropWhile fun byte => !isWordBreak byte

def lastWord (bytes : List Byte) : List Byte := bytes.rtakeWhile fun byte => !isWordBreak byte

/-- What may stand for the last word: the first word of a line is a command. -/
def offered (bytes : List Byte) (knownCommands : List (List Byte)) (dirents : List Dirent) :
    List MatchCandidate :=
  if ¬ validUtf8 (lastWord bytes) then []
  else if (stem bytes).all isWordBreak then commandMatches (lastWord bytes) knownCommands
  else pathMatches (lastWord bytes) dirents

section Gathering

variable {capacity : Nat} {text : Text} {line : Line}

theorem stem_append_lastWord (bytes : List Byte) : stem bytes ++ lastWord bytes = bytes :=
  List.rdropWhile_append_rtakeWhile ..

theorem lastWord_solid {bytes : List Byte} : ∀ byte ∈ lastWord bytes, isWordBreak byte = false := by
  intro byte member
  simpa using List.mem_rtakeWhile_imp member

theorem takeWhile_lead {bytes : List Byte} (blank : (stem bytes).all isWordBreak) :
    bytes.takeWhile isWordBreak = stem bytes := by
  have solid : (lastWord bytes).takeWhile isWordBreak = [] := by
    cases word : lastWord bytes with
    | nil => rfl
    | cons first rest =>
      have here := lastWord_solid first (word ▸ List.mem_cons_self ..)
      rw [List.takeWhile_cons_of_neg (by simp [here])]
  have joined : (stem bytes ++ lastWord bytes).takeWhile isWordBreak = stem bytes := by
    rw [List.takeWhile_append_of_pos (by simpa using blank), solid, List.append_nil]
  rwa [stem_append_lastWord] at joined

/-- The loader of the word finds the cut before the last word. -/
theorem gatherMatches_shows (shown : Shows capacity text line) (knownCommands : List (List Byte))
    (dirents : List Dirent) : gatherMatches line knownCommands dirents =
      some ((stem text.bytes).length, offered text.bytes knownCommands dirents) := by
  obtain ⟨spare, buffer⟩ := shown.buffer
  have len : line.len = text.bytes.length := by
    rw [shown.len, Text.bytes, List.length_append]
  have buffer : line.buf = [] ++ text.bytes ++ 0 :: spare := buffer
  generalize text.bytes = bytes at *
  have split := stem_append_lastWord bytes
  have size := congrArg List.length split
  rw [List.length_append] at size
  generalize lead : bytes.takeWhile isWordBreak = front
  have cut : front ++ bytes.drop front.length = bytes :=
    List.prefix_iff_eq_append.mp (lead ▸ List.takeWhile_prefix _)
  have sized := congrArg List.length cut
  rw [List.length_append] at sized
  have first : Buffer.forwardWhile isWordBreak line.buf line.len 0 = some front.length := by
    have scanned := @Buffer.forwardWhile_between _ isWordBreak (0 :: spare) bytes [] bytes.length 0 rfl
      (Nat.zero_add _).symm
    rw [buffer, len, scanned, lead, Nat.zero_add]
  have second : Buffer.forwardWhile (fun byte => !isWordBreak byte) line.buf line.len front.length =
      some (front.length +
        ((bytes.drop front.length).takeWhile fun byte => !isWordBreak byte).length) := by
    rw [buffer, len, List.nil_append, ← cut, Buffer.forwardWhile_between _ rfl (by rw [cut]; omega)]
    rw [cut]
  have range (position : Nat) (front word : List Byte) (here : position = front.length)
      (whole : front ++ word = bytes) : Buffer.range line.buf position bytes.length = some word := by
    rw [buffer, List.nil_append, ← whole]
    exact Buffer.range_between here (by rw [here, List.length_append])
  rw [gatherMatches, first, Option.bind_eq_bind, Option.bind_some, second, Option.bind_some, len]
  by_cases blank : (stem bytes).all isWordBreak
  · have same : front = stem bytes := lead.symm.trans (takeWhile_lead blank)
    subst same
    have word : bytes.drop (stem bytes).length = lastWord bytes := by
      rw [← List.append_cancel_left_eq (stem bytes), cut, split]
    have solid : (lastWord bytes).takeWhile (fun byte => !isWordBreak byte) = lastWord bytes :=
      List.takeWhile_eq_self_iff.mpr fun byte member => by simp [lastWord_solid byte member]
    rw [word, solid, if_pos size, range _ _ _ rfl split, offered]
    by_cases valid : validUtf8 (lastWord bytes) = true
    · simp [valid, blank]
    · simp [valid]
  · have more : front.length +
        ((bytes.drop front.length).takeWhile fun byte => !isWordBreak byte).length ≠ bytes.length := by
      intro whole
      -- Without a further blank the stem would be part of the leading blanks.
      have solid : (bytes.drop front.length).takeWhile (fun byte => !isWordBreak byte) =
          bytes.drop front.length :=
        (List.takeWhile_prefix _).eq_of_length (by omega)
      have inside : stem bytes <+: front := by
        have dropped : stem (front ++ bytes.drop front.length) =
            front.rdropWhile fun byte => !isWordBreak byte := by
          rw [stem, List.rdropWhile, List.reverse_append, List.dropWhile_append_of_pos]
          · rfl
          · intro byte member
            have kept := solid.symm ▸ List.mem_reverse.mp member
            exact @List.mem_takeWhile_imp _ (fun byte => !isWordBreak byte) _ _ kept
        rw [cut] at dropped
        exact dropped ▸ List.rdropWhile_prefix _ _
      refine blank (List.all_eq_true.mpr fun byte member => ?_)
      exact List.mem_takeWhile_imp (lead ▸ inside.subset member)
    have back : Buffer.backWhile (fun byte => !isWordBreak byte) line.buf bytes.length =
        some (stem bytes).length := by
      rw [buffer, List.nil_append]
      exact Buffer.backWhile_front bytes
    rw [if_neg more, back, Option.bind_some, range _ _ _ rfl split, offered]
    by_cases valid : validUtf8 (lastWord bytes) = true
    · simp [valid, blank]
    · simp [valid]

end Gathering

/-- Sorting only exchanges entries that are there. -/
theorem sortMatches_some (candidates : List MatchCandidate) :
    ∃ sorted, sortMatches candidates = some sorted ∧ sorted.length = candidates.length := by
  have inside : ∀ pair ∈ sortPairs candidates.length,
      pair.1 < candidates.length ∧ pair.2 < candidates.length := by
    rintro ⟨i, j⟩ member
    simp only [sortPairs, List.mem_flatMap, List.mem_range, List.mem_map, List.mem_range'_1,
      Prod.mk.injEq] at member
    omega
  rw [sortMatches]
  generalize sortPairs candidates.length = pairs at inside
  generalize total : candidates.length = count at inside
  induction pairs generalizing candidates with
  | nil => exact ⟨candidates, rfl, total⟩
  | cons pair rest ih =>
    obtain ⟨first, second⟩ := inside pair (List.mem_cons_self ..)
    rw [List.foldlM_cons, sortStep, List.getElem?_eq_getElem (total ▸ first),
      List.getElem?_eq_getElem (total ▸ second)]
    refine ih _ ?_ fun next member => inside next (List.mem_cons_of_mem _ member)
    split <;> simp [total]

/-- The selection stays inside the menu. -/
theorem completionMenu_some {count : Nat} (positive : 0 < count) (keys : List Key) (sel : Nat) :
    sel < count → ∃ ended, completionMenu count keys sel = some ended ∧
      ∀ sel key, ended = .chosen sel key → sel < count := by
  fun_induction completionMenu count keys sel with
  | case1 => exact fun _ => ⟨_, rfl, by rintro _ _ ⟨⟩⟩
  | case2 _ _ ih => exact ih
  | case3 _ _ _ _ empty => omega
  | case4 _ _ _ _ _ ih => exact fun _ => ih (Nat.mod_lt _ positive)
  | case5 => omega
  | case6 _ _ _ _ ih => exact fun _ => ih (Nat.mod_lt _ positive)
  | case7 sel _ _ _ ih =>
    intro inside
    rw [checkedSub, if_pos (by omega), Option.bind_eq_bind, Option.bind_some]
    exact ih _ (by split <;> omega)
  | case8 _ _ _ _ _ _ ih => exact ih
  | case9 _ _ _ _ _ _ ih => exact ih
  | case10 => exact fun _ => ⟨_, rfl, by rintro _ _ ⟨⟩⟩
  | case11 =>
    intro inside
    refine ⟨_, rfl, ?_⟩
    rintro _ _ ⟨⟩
    exact inside
  | case12 => exact fun _ => ⟨_, rfl, by rintro _ _ ⟨⟩⟩

/-- The line with its last word replaced, if there is room. -/
def completeWith (capacity : Nat) (bytes name ending : List Byte) : List Byte :=
  if (stem bytes).length + name.length < capacity then stem bytes ++ name ++ ending else bytes

/-- The line with one of the matches in it; none while the menu is open. -/
def placed (capacity : Nat) (bytes : List Byte) (sorted : List MatchCandidate) (keys : List Key) :
    Option (List Byte) :=
  match sorted with
  | [] => some bytes
  | [single] => some (completeWith capacity bytes single.name (singleEnding single.isDir))
  | sorted =>
    match completionMenu sorted.length keys 0 with
    | some .waiting => none
    | some (.chosen sel key) => sorted[sel]?.map fun chosen =>
      completeWith capacity bytes chosen.name (menuEnding chosen.isDir key)
    | _ => some bytes

/-- The line after a completion. -/
def completed (capacity : Nat) (bytes : List Byte) (knownCommands : List (List Byte))
    (dirents : List Dirent) (keys : List Key) : Option (List Byte) :=
  placed capacity bytes ((sortMatches (offered bytes knownCommands dirents)).getD []) keys

section Completing

variable {capacity : Nat} {text : Text} {line : Line}

theorem insertMatch_shows (shown : Shows capacity text line) (name : List Byte)
    {ending : List Byte} (short : ending.length ≤ 1) :
    ∃ after, insertMatch line (stem text.bytes).length name ending = some after ∧
      Shows capacity (.ofLine (completeWith capacity text.bytes name ending))
        { after with cursorPos := after.len } := by
  obtain ⟨spare, buffer⟩ := shown.buffer
  have buffer : line.buf = text.bytes ++ 0 :: spare := buffer
  have len : line.len = text.bytes.length := by
    rw [shown.len, Text.bytes, List.length_append]
  have size := shown.size
  rw [insertMatch, size, completeWith]
  generalize text.bytes = bytes at *
  by_cases room : (stem bytes).length + name.length < capacity
  · rw [if_pos (by omega), if_pos room]
    -- Behind the stem there is space for the name, its ending and the zero.
    obtain ⟨gap, next, old, rest, cut, gapSize, nextSize⟩ : ∃ gap next old rest,
        line.buf = stem bytes ++ gap ++ (next ++ old :: rest) ∧ gap.length = name.length ∧
          next.length = ending.length := by
      have whole : line.buf = stem bytes ++ (lastWord bytes ++ 0 :: spare) := by
        rw [← List.append_assoc, stem_append_lastWord, buffer]
      have total := congrArg List.length whole
      rw [size, List.length_append] at total
      generalize lastWord bytes ++ 0 :: spare = tail at whole total
      obtain ⟨old, rest, last⟩ : ∃ old rest, (tail.drop name.length).drop ending.length =
          old :: rest := by
        refine List.exists_cons_of_length_pos ?_
        rw [List.length_drop, List.length_drop]
        omega
      refine ⟨tail.take name.length, (tail.drop name.length).take ending.length, old, rest, ?_, ?_, ?_⟩
      · rw [whole, ← last, List.take_append_drop, List.append_assoc, List.take_append_drop]
      · rw [List.length_take]
        omega
      · rw [List.length_take, List.length_drop]
        omega
    have wrote : Buffer.overwrite line.buf (stem bytes).length name =
        some (stem bytes ++ name ++ next ++ old :: rest) := by
      rw [cut, Buffer.overwrite_between rfl gapSize, List.append_assoc (stem bytes ++ name)]
    have ended : Buffer.putAll ((stem bytes).length + name.length) ending
        (stem bytes ++ name ++ next ++ old :: rest) =
          some (stem bytes ++ name ++ ending ++ old :: rest) :=
      Buffer.putAll_between List.length_append.symm nextSize
    have zero : Buffer.put (stem bytes ++ name ++ ending ++ old :: rest)
        ((stem bytes).length + name.length + ending.length) 0 =
          some (stem bytes ++ name ++ ending ++ 0 :: rest) :=
      Buffer.put_at (by rw [List.length_append, List.length_append])
    simp only [wrote, ended, zero, Option.bind_eq_bind, Option.bind_some, Option.pure_def]
    refine ⟨_, rfl, ?_, ⟨rest, ?_⟩, ?_, ?_⟩
    · rw [cut] at size
      simp only [List.length_append, List.length_cons] at size ⊢
      omega
    · rw [Text.ofLine, List.append_nil]
    · simp only [Text.ofLine, List.length_append, List.length_nil, Nat.add_zero]
    · simp only [Text.ofLine, List.length_append]
  · rw [if_neg (by omega), if_neg room]
    refine ⟨line, rfl, size, ⟨spare, ?_⟩, ?_, ?_⟩
    · rw [buffer, Text.ofLine, List.append_nil]
    · exact len
    · exact len

theorem singleEnding_length (isDir : Bool) : (singleEnding isDir).length ≤ 1 := by
  cases isDir <;> decide

theorem menuEnding_length (isDir : Bool) (key : Byte) : (menuEnding isDir key).length ≤ 1 := by
  unfold menuEnding
  split
  · decide
  · split <;> decide

theorem Shows.ofLine (shown : Shows capacity text line) :
    Shows capacity (.ofLine text.bytes) { line with cursorPos := line.len } := by
  obtain ⟨spare, buffer⟩ := shown.buffer
  have len := shown.len
  rw [← List.length_append] at len
  refine ⟨shown.size, ⟨spare, ?_⟩, len, len⟩
  rw [Text.ofLine, List.append_nil]
  exact buffer

theorem placeMatch_shows (shown : Shows capacity text line) (sorted : List MatchCandidate)
    (keys : List Key) :
    match placed capacity text.bytes sorted keys with
    | none => placeMatch line (stem text.bytes).length sorted keys = some none
    | some bytes => ∃ after, placeMatch line (stem text.bytes).length sorted keys =
        some (some after) ∧ Shows capacity (.ofLine bytes) { after with cursorPos := after.len } := by
  match sorted with
  | [] => exact ⟨line, rfl, shown.ofLine⟩
  | [single] =>
    obtain ⟨after, inserted, next⟩ := insertMatch_shows shown single.name
      (singleEnding_length single.isDir)
    exact ⟨after, by rw [placeMatch, inserted]; rfl, next⟩
  | first :: second :: rest =>
    have positive : 0 < (first :: second :: rest).length := by simp
    obtain ⟨ended, menu, inside⟩ := completionMenu_some positive keys 0 positive
    rw [placed, placeMatch, showCompletionMenu, menu]
    · match ended, inside with
      | .waiting, _ => rfl
      | .dismissed, _ => exact ⟨line, rfl, shown.ofLine⟩
      | .chosen sel key, inside =>
        obtain ⟨chosen, found⟩ : ∃ chosen, (first :: second :: rest)[sel]? = some chosen :=
          ⟨_, List.getElem?_eq_getElem (inside sel key rfl)⟩
        obtain ⟨after, inserted, next⟩ := insertMatch_shows shown chosen.name
          (menuEnding_length chosen.isDir key)
        rw [Option.bind_eq_bind, Option.bind_some]
        dsimp only
        rw [found, Option.map_some]
        exact ⟨after, by rw [Option.bind_eq_bind, Option.bind_some, inserted]; rfl, next⟩
    all_goals simp

/-- A completion does to the line what it does to the text, and leaves the cursor to the
caller, who puts it at the end. -/
theorem handleTabCompletion_shows (shown : Shows capacity text line)
    (knownCommands : List (List Byte)) (dirents : List Dirent) (keys : List Key) :
    match completed capacity text.bytes knownCommands dirents keys with
    | none => handleTabCompletion line knownCommands dirents keys = some none
    | some bytes => ∃ after, handleTabCompletion line knownCommands dirents keys =
        some (some after) ∧ Shows capacity (.ofLine bytes) { after with cursorPos := after.len } := by
  obtain ⟨sorted, sorting, _⟩ := sortMatches_some (offered text.bytes knownCommands dirents)
  rw [completed, sorting, Option.getD_some, handleTabCompletion, gatherMatches_shows shown,
    Option.bind_eq_bind, Option.bind_some]
  dsimp only
  rw [sorting]
  exact placeMatch_shows shown sorted keys

end Completing

end RustPosix.Shell
