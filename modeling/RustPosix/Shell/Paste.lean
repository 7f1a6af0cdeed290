import RustPosix.Shell.Text

/-! The paste between `ESC [ 2 0 0 ~` and `ESC [ 2 0 1 ~`. The reader looks for the trailer byte
by byte; when a byte breaks a match, the bytes matched so far and that byte are taken as text,
and the search goes on behind them. -/

namespace RustPosix.Shell

open Library

/-- `ESC [ 2 0 1 ~` -/
def pasteTrailer : List Byte := [0x1B, 0x5B, 0x32, 0x30, 0x31, 0x7E]

def pasteSize : Nat := 1024

/-- Take the matched beginning of the trailer and the byte behind it as text, if there is room
for all of them. -/
def replay (paste : List Byte) (state : Nat) (ch : Byte) : List Byte :=
  if paste.length + state < pasteSize then paste ++ (pasteTrailer.take state ++ [ch]) else paste

/-- The loop of the reader: the stream, how much of the trailer is matched, and the bytes of the
paste; then what is left of the stream and the paste. The stream ends where `getchar` is
negative. -/
def pasteLoop : List Byte → Nat → List Byte → List Byte × List Byte
  | [], _, paste => ([], paste)
  | ch :: stream, state, paste =>
    if pasteTrailer[state]? = some ch then
      if state = 5 then (stream, paste) else pasteLoop stream (state + 1) paste
    else pasteLoop stream 0 (replay paste state ch)

def readBracketedPaste (stream : List Byte) (line : Line) : Option (List Byte × Line) :=
  let (stream, paste) := pasteLoop stream 0 []
  if paste.length > 0 then do
    let (_, line) ← spliceInsert paste line
    pure (stream, line)
  else some (stream, line)

/-- Whatever line is edited and whatever follows, the text and the trailer are read, and what
fits of the text is inserted. -/
def PasteEnds (text : List Byte) : Prop :=
  ∀ {capacity : Nat} {shown : Text} {line : Line}, Shows capacity shown line → ∀ more,
    ∃ after, readBracketedPaste (text ++ pasteTrailer ++ more) line = some (more, after) ∧
      Shows capacity (shown.insert capacity (text.take pasteSize)) after

/-- The trailer does not begin before the end of the text. -/
def TrailerLast (text : List Byte) : Prop :=
  ∀ start < text.length, ¬ pasteTrailer <+: (text ++ pasteTrailer).drop start

/-- A beginning of the trailer, possibly empty, and a byte that does not continue it. -/
structure Block where
  matched : Nat
  byte : Byte
  proper : matched < 6
  breaks : pasteTrailer[matched]? ≠ some byte

def Block.bytes (block : Block) : List Byte := pasteTrailer.take block.matched ++ [block.byte]

/-- Blocks one after the other, none of which goes over the end of the paste buffer. -/
def Uncrossed : Nat → List Block → Prop
  | _, [] => True
  | start, block :: blocks =>
    (start < pasteSize → start + block.bytes.length ≤ pasteSize) ∧
      Uncrossed (start + block.bytes.length) blocks

section Reader

theorem Block.length_bytes (block : Block) : block.bytes.length = block.matched + 1 := by
  have proper := block.proper
  have whole : pasteTrailer.length = 6 := rfl
  rw [bytes, List.length_append, List.length_take_of_le (by omega)]
  rfl

/-- A beginning of the trailer is matched. -/
theorem pasteLoop_matched {matched : Nat} (proper : matched < 6) (stream paste : List Byte) :
    pasteLoop (pasteTrailer.take matched ++ stream) 0 paste = pasteLoop stream matched paste := by
  induction matched generalizing stream with
  | zero => rfl
  | succ matched ih =>
    have inside : matched < pasteTrailer.length := Nat.lt_trans (Nat.lt_succ_self _) proper
    rw [List.take_succ_eq_append_getElem inside, List.append_assoc, ih (by omega),
      List.singleton_append, pasteLoop, if_pos (List.getElem?_eq_getElem inside),
      if_neg (by omega)]

theorem pasteLoop_trailer (more paste : List Byte) :
    pasteLoop (pasteTrailer ++ more) 0 paste = (more, paste) :=
  pasteLoop_matched (show 5 < 6 by decide) (0x7E :: more) paste

/-- The bytes of the blocks that fit. -/
def kept (blocks : List Block) (paste : List Byte) : List Byte :=
  blocks.foldl (fun paste block => replay paste block.matched block.byte) paste

theorem pasteLoop_blocks (blocks : List Block) (stream paste : List Byte) :
    pasteLoop (blocks.flatMap Block.bytes ++ stream) 0 paste =
      pasteLoop stream 0 (kept blocks paste) := by
  induction blocks generalizing paste with
  | nil => rfl
  | cons block blocks ih =>
    rw [List.flatMap_cons, Block.bytes, List.append_assoc, List.append_assoc,
      pasteLoop_matched block.proper, List.singleton_append, pasteLoop, if_neg block.breaks, ih]
    rfl

/-- A stream without the trailer is cut into blocks, and a beginning of the trailer may be left. -/
theorem cut_stream (stream : List Byte) {state : Nat} (proper : state < 6)
    (absent : ¬ pasteTrailer <:+: pasteTrailer.take state ++ stream) :
    ∃ (blocks : List Block) (matched : Nat), matched < 6 ∧
      pasteTrailer.take state ++ stream =
        blocks.flatMap Block.bytes ++ pasteTrailer.take matched := by
  induction stream generalizing state with
  | nil => exact ⟨[], state, proper, by simp⟩
  | cons ch stream ih =>
    by_cases continues : pasteTrailer[state]? = some ch
    · have longer : pasteTrailer.take (state + 1) = pasteTrailer.take state ++ [ch] := by
        rw [List.take_add_one, continues]
        rfl
      have joined : pasteTrailer.take state ++ ch :: stream =
          pasteTrailer.take (state + 1) ++ stream := by
        rw [longer, List.append_assoc, List.singleton_append]
      rw [joined] at absent ⊢
      by_cases last : state = 5
      · subst last
        exact absurd (List.prefix_append pasteTrailer stream).isInfix absent
      · exact ih (by omega) absent
    · have shorter : pasteTrailer.take state ++ ch :: stream =
          (pasteTrailer.take state ++ [ch]) ++ stream := by
        rw [List.append_assoc, List.singleton_append]
      rw [shorter] at absent ⊢
      obtain ⟨blocks, matched, small, cut⟩ := ih (show 0 < 6 by decide)
        fun found => absent (found.trans (List.suffix_append ..).isInfix)
      refine ⟨⟨state, ch, proper, continues⟩ :: blocks, matched, small, ?_⟩
      exact (congrArg (pasteTrailer.take state ++ [ch] ++ ·) cut).trans (List.append_assoc ..).symm

end Reader

section Room

/-- What is kept is the paste and some of the blocks, as far as there is room. -/
theorem kept_extends (blocks : List Block) {paste : List Byte} (room : paste.length ≤ pasteSize) :
    (kept blocks paste).length ≤ pasteSize ∧
      ∃ later : List Block, kept blocks paste = paste ++ later.flatMap Block.bytes := by
  induction blocks generalizing paste with
  | nil => exact ⟨room, [], (List.append_nil _).symm⟩
  | cons block blocks ih =>
    rw [kept, List.foldl_cons, replay]
    split
    · rename_i fits
      have length := block.length_bytes
      obtain ⟨short, later, same⟩ := @ih (paste ++ block.bytes) (by
        rw [List.length_append]
        omega)
      refine ⟨short, block :: later, same.trans ?_⟩
      rw [List.flatMap_cons, List.append_assoc]
    · exact ih room

theorem kept_full (blocks : List Block) {paste : List Byte} (full : paste.length = pasteSize) :
    kept blocks paste = paste := by
  induction blocks with
  | nil => rfl
  | cons block blocks ih =>
    rw [kept, List.foldl_cons, replay, if_neg (by omega)]
    exact ih

theorem uncrossed_of_full (blocks : List Block) {start : Nat} (full : pasteSize ≤ start) :
    Uncrossed start blocks := by
  induction blocks generalizing start with
  | nil => trivial
  | cons block blocks ih => exact ⟨fun below => absurd below (by omega), ih (by omega)⟩

/-- No byte of the trailer is a blank that a line end was turned into. -/
theorem trailer_of_cleaned {index : Nat} {byte : Byte}
    (found : pasteTrailer[index]? = some (cleaned byte)) : pasteTrailer[index]? = some byte := by
  rw [cleaned] at found
  split at found
  · have member : space ∈ pasteTrailer := List.mem_of_getElem? found
    exact absurd member (by decide)
  · exact found

/-- Behind a block that was dropped something else is kept, or nothing. -/
theorem kept_dropped (blocks : List Block) (block : Block) (rest : List Byte) {paste : List Byte}
    (room : paste.length < pasteSize) (crosses : pasteSize < paste.length + block.bytes.length) :
    (kept blocks paste).map cleaned ≠
      ((paste ++ (block.bytes ++ rest)).take pasteSize).map cleaned := by
  obtain ⟨short, later, same⟩ := kept_extends blocks (Nat.le_of_lt room)
  rw [block.length_bytes] at crosses
  have proper := block.proper
  have trailer : pasteTrailer.length = 6 := rfl
  have front : (block.bytes ++ rest).take (pasteSize - paste.length) =
      pasteTrailer.take (pasteSize - paste.length) := by
    rw [Block.bytes, List.append_assoc, List.take_append_of_le_length, List.take_take,
      Nat.min_eq_left (by omega)]
    rw [List.length_take]
    omega
  rw [List.take_append, List.take_of_length_le (Nat.le_of_lt room), front, same, List.map_append,
    List.map_append]
  intro equal
  replace equal := List.append_cancel_left equal
  rw [List.map_take, show pasteTrailer.map cleaned = pasteTrailer by decide] at equal
  have lengths := congrArg List.length equal
  rw [List.length_map, List.length_take] at lengths
  cases later with
  | nil =>
    rw [List.flatMap_nil, List.length_nil] at lengths
    omega
  | cons first later =>
    have here : ((first :: later).flatMap Block.bytes)[first.matched]? = some first.byte := by
      have small := first.proper
      rw [List.flatMap_cons, Block.bytes, List.append_assoc, List.getElem?_append_right
        (List.length_take_le ..), List.length_take_of_le (by omega), Nat.sub_self]
      rfl
    have inside : first.matched < pasteSize - paste.length := by
      rw [List.flatMap_cons, List.length_append, first.length_bytes] at lengths
      omega
    have byte := congrArg (·[first.matched]?) equal
    simp only [List.getElem?_map, here, Option.map_some, List.getElem?_take_of_lt inside] at byte
    exact first.breaks (trailer_of_cleaned byte.symm)

/-- The text is kept up to the end of the buffer exactly if no block crosses it. -/
theorem kept_iff (blocks : List Block) {paste : List Byte} (room : paste.length ≤ pasteSize) :
    (kept blocks paste).map cleaned =
        ((paste ++ blocks.flatMap Block.bytes).take pasteSize).map cleaned ↔
      Uncrossed paste.length blocks := by
  induction blocks generalizing paste with
  | nil => simp [kept, Uncrossed, List.take_of_length_le room]
  | cons block blocks ih =>
    have length := block.length_bytes
    rw [List.flatMap_cons, Uncrossed]
    by_cases fits : paste.length + block.bytes.length ≤ pasteSize
    · have next := @ih (paste ++ block.bytes) (by rw [List.length_append]; exact fits)
      rw [List.length_append, List.append_assoc] at next
      have stored : kept (block :: blocks) paste = kept blocks (paste ++ block.bytes) := by
        rw [kept, List.foldl_cons, replay, if_pos (by omega)]
        rfl
      rw [stored, next]
      exact ⟨fun rest => ⟨fun _ => fits, rest⟩, And.right⟩
    · have dropped : kept (block :: blocks) paste = kept blocks paste := by
        rw [kept, List.foldl_cons, replay, if_neg (by omega)]
        rfl
      rw [dropped]
      by_cases full : paste.length = pasteSize
      · rw [kept_full blocks full, List.take_left' full]
        exact ⟨fun _ => ⟨fun below => absurd below (by omega), uncrossed_of_full blocks (by omega)⟩,
          fun _ => rfl⟩
      · refine ⟨fun same => absurd same ?_, fun uncrossed => absurd (uncrossed.1 (by omega)) fits⟩
        exact kept_dropped blocks block _ (by omega) (by omega)

end Room

section Line

variable {capacity : Nat} {shown : Text} {line : Line}

/-- Blocks and the trailer are read, and the blocks that were kept are inserted. -/
theorem readBracketedPaste_blocks (shows' : Shows capacity shown line) (blocks : List Block)
    (more : List Byte) :
    ∃ after, readBracketedPaste (blocks.flatMap Block.bytes ++ pasteTrailer ++ more) line =
        some (more, after) ∧ Shows capacity (shown.insert capacity (kept blocks [])) after := by
  rw [readBracketedPaste, List.append_assoc, pasteLoop_blocks, pasteLoop_trailer]
  dsimp only
  by_cases nothing : kept blocks [] = []
  · rw [nothing, if_neg (by decide)]
    refine ⟨line, rfl, ?_⟩
    rwa [Text.insert, List.take_nil, List.map_nil, List.append_nil]
  · obtain ⟨after, inserted, next⟩ := spliceInsert_shows shows' (kept blocks [])
    rw [if_pos (List.length_pos_iff.mpr nothing), inserted]
    exact ⟨after, rfl, next⟩

/-- Only the cleaned bytes matter. -/
theorem Text.insert_congr {data other : List Byte} (same : data.map cleaned = other.map cleaned) :
    shown.insert capacity data = shown.insert capacity other := by
  rw [Text.insert, Text.insert, List.map_take, List.map_take, same]

theorem Shows.before_eq (shows' : Shows capacity shown line) :
    shown.before = line.buf.take line.cursorPos := by
  obtain ⟨spare, buffer⟩ := shows'.buffer
  rw [buffer, shows'.cursor, List.append_assoc, List.take_left]

end Line

section Ends

/-- An unfinished match is broken by the escape byte of the trailer, and the rest of the trailer
is text. -/
theorem pasteLoop_unfinished (blocks : List Block) {matched : Nat} (proper : matched < 6)
    (begun : matched ≠ 0) (paste : List Byte) :
    (pasteLoop (blocks.flatMap Block.bytes ++ pasteTrailer.take matched ++ pasteTrailer ++ [0x78]) 0
      paste).1 = [] := by
  have breaks : pasteTrailer[matched]? ≠ some 0x1B :=
    (by decide : ∀ index : Fin 6, index.val ≠ 0 → pasteTrailer[index.val]? ≠ some 0x1B)
      ⟨matched, proper⟩ begun
  rw [List.append_assoc, List.append_assoc, pasteLoop_blocks, pasteLoop_matched proper]
  change (pasteLoop (0x1B :: [0x5B, 0x32, 0x30, 0x31, 0x7E, 0x78]) matched _).1 = []
  rw [pasteLoop, if_neg breaks]
  rfl

/-- The reader gives back the stream that its loop leaves. -/
theorem readBracketedPaste_rest {stream more : List Byte} {line after : Line}
    (read : readBracketedPaste stream line = some (more, after)) :
    (pasteLoop stream 0 []).1 = more := by
  rw [readBracketedPaste] at read
  dsimp only at read
  split at read
  · simp only [Option.bind_eq_bind, Option.bind_eq_some_iff, Option.pure_def, Option.some.injEq,
      Prod.mk.injEq] at read
    obtain ⟨_, _, same, _⟩ := read
    exact same
  · exact congrArg Prod.fst (Option.some.inj read)

theorem TrailerLast.absent {text : List Byte} (last : TrailerLast text) :
    ¬ pasteTrailer <:+: text := by
  rintro ⟨front, rest, rfl⟩
  refine last front.length (by simp [pasteTrailer]) ?_
  rw [List.append_assoc, List.append_assoc, List.drop_left]
  exact List.prefix_append ..

/-- An empty line with room for a whole paste. -/
def wideLine : Line := ⟨List.replicate (pasteSize + 1) 0, 0, 0⟩

theorem wideLine_shows : Shows pasteSize ⟨[], []⟩ wideLine :=
  ⟨List.length_replicate, ⟨List.replicate pasteSize 0, List.replicate_succ⟩, rfl, rfl⟩

theorem before_insert_wide {data : List Byte} (short : data.length ≤ pasteSize) :
    (Text.insert pasteSize data ⟨[], []⟩).before = data.map cleaned :=
  congrArg (List.map cleaned) (List.take_of_length_le short)

end Ends

end RustPosix.Shell
