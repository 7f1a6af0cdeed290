import RustPosix.Shell.HistoryRing
import RustPosix.Shell.ReadLine

/-! Leaving the line for the history and coming back to it. The line has 256 bytes, and the
draft in which it waits has 128. -/

namespace RustPosix.Shell

open Library

/-- The keys that walk through the history. -/
def Walks (keys : List Edit) : Prop := ∀ key ∈ keys, key = .historyPrev ∨ key = .historyNext

/-- Whoever walks through the history and comes back finds the line as it was. -/
def KeepsDraft (session : Session) : Prop :=
  ∀ keys, Walks keys → ∃ after, session.run keys = some after ∧
    (after.historyCursor = 0 → after.line.len = session.line.len ∧
      after.line.buf.take session.line.len = session.line.buf.take session.line.len)

/-- A line in the buffer that the shell passes. -/
structure Typed (line : Line) : Prop where
  size : line.buf.length = 256
  fits : line.len ≤ 255

section Walk

variable {session now : Session}

/-- The line is saved only before the first step back. -/
theorem Session.saveDraft_eq (typed : Typed session.line) : ∃ draft,
    session.saveDraft = some { session with draft } ∧
      (session.historyCursor = 0 →
        draft.text = session.line.buf.take (min session.line.len maxCmdLen)) ∧
      (session.historyCursor ≠ 0 → draft = session.draft) := by
  have size := typed.size
  have fits := typed.fits
  by_cases current : session.historyCursor = 0
  · have range : Buffer.range session.line.buf 0 (min session.line.len maxCmdLen) =
        some (session.line.buf.take (min session.line.len maxCmdLen)) := by
      rw [Buffer.range, if_pos ⟨Nat.zero_le _, by omega⟩, slice, List.drop_zero]
    refine ⟨_, by rw [saveDraft, if_pos current, range]; rfl, fun _ => ?_, absurd current⟩
    rw [FixedText.text_store, List.take_take, Nat.min_eq_right (Nat.min_le_right ..)]
  · exact ⟨session.draft, by rw [saveDraft, if_neg current], fun back => absurd back current,
      fun _ => rfl⟩

/-- A step back, as far as there are commands. -/
theorem Session.prev_eq (typed : Typed session.line) : ∃ draft line,
    session.apply .historyPrev = some
      { session with
        draft, line
        historyCursor :=
          if session.historyCursor < session.history.past.length then session.historyCursor + 1
          else session.historyCursor } ∧
      (session.historyCursor = 0 →
        draft.text = session.line.buf.take (min session.line.len maxCmdLen)) ∧
      (session.historyCursor ≠ 0 → draft = session.draft) ∧ Typed line ∧
      (session.history.past.length ≤ session.historyCursor →
        line.len = session.line.len ∧ line.buf = session.line.buf) := by
  obtain ⟨draft, saved, current, away⟩ := session.saveDraft_eq typed
  rw [apply, saved, Option.bind_eq_bind, Option.bind_some]
  by_cases older : session.historyCursor < session.history.past.length
  · obtain ⟨buf, len, moved, shown⟩ :=
      @historyPrev_shows 255 _ typed.size _ _ _ (List.getElem?_eq_getElem older) session.line.len
    have fits := shown.fits
    have used := shown.len
    rw [Text.bytes, List.length_append] at fits
    refine ⟨draft, ⟨buf, len, len⟩, ?_, current, away, ⟨shown.size, by omega⟩,
      fun oldest => absurd oldest (by omega)⟩
    rw [moved, if_pos older]
    rfl
  · refine ⟨draft, ⟨session.line.buf, session.line.len, session.line.len⟩, ?_, current, away,
      ⟨typed.size, typed.fits⟩, fun _ => ⟨rfl, rfl⟩⟩
    rw [historyPrev_oldest (Nat.le_of_not_lt older), if_neg older]
    rfl

/-- A step forward. The last one brings back the draft. -/
theorem Session.next_eq (typed : Typed session.line)
    (inside : session.historyCursor ≤ session.history.past.length) : ∃ line,
    session.apply .historyNext =
        some { session with line, historyCursor := session.historyCursor - 1 } ∧
      Typed line ∧
      (session.historyCursor = 0 → line.len = session.line.len ∧ line.buf = session.line.buf) ∧
      (session.historyCursor = 1 → Displays (0, line.buf, line.len) session.draft.text) := by
  have size := typed.size
  rw [apply]
  rcases place : session.historyCursor with _ | _ | older
  · exact ⟨⟨session.line.buf, session.line.len, session.line.len⟩, rfl,
      ⟨typed.size, typed.fits⟩, fun _ => ⟨rfl, rfl⟩, fun last => absurd last (by decide)⟩
  · obtain ⟨buf, len, recalled, shown⟩ := @recall_shows 255 _ size _ session.draft
    have short : session.draft.text.length ≤ 255 := by
      rw [session.draft.length_text]
      exact Nat.le_trans session.draft.filled (by decide)
    have displays := @displays_of_shows _ 0 _ _ _ short shown
    refine ⟨⟨buf, len, len⟩, ?_, ⟨shown.size, displays.len.trans_le short⟩,
      fun first => absurd first (by decide), fun _ => displays⟩
    rw [historyNext, if_neg (by decide), if_pos rfl, recalled]
    rfl
  · obtain ⟨buf, len, moved, shown⟩ := @historyNext_shows 255 _ size session.history older _
      (List.getElem?_eq_getElem (by omega)) session.line.len session.draft.buf session.draft.len
    have fits := shown.fits
    have used := shown.len
    rw [Text.bytes, List.length_append] at fits
    refine ⟨⟨buf, len, len⟩, ?_, ⟨shown.size, by omega⟩, fun first => absurd first (by omega),
      fun last => absurd last (by omega)⟩
    rw [moved]
    rfl

/-- The walk so far: the line waits in the draft, or is shown. -/
structure Browsing (session now : Session) : Prop where
  typed : Typed now.line
  history : now.history = session.history
  inside : now.historyCursor ≤ session.history.past.length
  shown : now.historyCursor = 0 → Displays (0, now.line.buf, now.line.len)
    (session.line.buf.take session.line.len)
  waits : now.historyCursor ≠ 0 → now.draft.text = session.line.buf.take session.line.len

theorem Typed.displays {line : Line} (typed : Typed line) :
    Displays (0, line.buf, line.len) (line.buf.take line.len) := by
  have room : line.len ≤ line.buf.length := by
    rw [typed.size]
    exact Nat.le_succ_of_le typed.fits
  exact ⟨(List.length_take_of_le room).symm, rfl⟩

/-- A line that fits its draft survives every walk, and so does any line if there is no
history. -/
theorem Browsing.step (keeps : session.line.len ≤ maxCmdLen ∨ session.history.count = 0)
    (browsing : Browsing session now) {key : Edit} (walks : key = .historyPrev ∨ key = .historyNext) :
    ∃ after, now.apply key = some after ∧ Browsing session after := by
  have inside := browsing.inside
  have history := browsing.history
  have total := session.history.length_past
  rcases walks with rfl | rfl
  · obtain ⟨draft, line, moved, current, away, typed, oldest⟩ := Session.prev_eq browsing.typed
    rw [history] at moved oldest
    refine ⟨_, moved, typed, rfl, ?_, ?_, ?_⟩
    · dsimp only
      split <;> omega
    · dsimp only
      split
      · nofun
      · intro start
        obtain ⟨len, buf⟩ := oldest (by omega)
        rw [len, buf]
        exact browsing.shown start
    · dsimp only
      intro left
      by_cases start : now.historyCursor = 0
      · have short : now.line.len ≤ maxCmdLen := by
          have same := (browsing.shown start).len
          rw [List.length_take] at same
          rw [start] at left
          have some' : 0 < session.history.past.length := by
            by_contra none'
            exact left (if_neg none')
          dsimp only at same
          omega
        rw [current start, Nat.min_eq_left short]
        exact (browsing.shown start).bytes
      · rw [away start]
        exact browsing.waits start
  · obtain ⟨line, moved, typed, still, last⟩ := Session.next_eq browsing.typed (by rw [history]; exact inside)
    refine ⟨_, moved, typed, history, Nat.le_trans (Nat.sub_le ..) inside, ?_, ?_⟩
    · dsimp only
      intro start
      by_cases current : now.historyCursor = 0
      · obtain ⟨len, buf⟩ := still current
        rw [len, buf]
        exact browsing.shown current
      · rw [← browsing.waits current]
        exact last (by omega)
    · dsimp only
      intro away
      exact browsing.waits (by omega)

theorem Browsing.run (keeps : session.line.len ≤ maxCmdLen ∨ session.history.count = 0)
    (keys : List Edit) : ∀ {now : Session}, Browsing session now → Walks keys →
    ∃ after, now.run keys = some after ∧ Browsing session after := by
  induction keys with
  | nil => exact fun browsing _ => ⟨_, rfl, browsing⟩
  | cons key keys ih =>
    intro now browsing walks
    rw [Walks, List.forall_mem_cons] at walks
    obtain ⟨next, moved, kept⟩ := browsing.step keeps walks.1
    obtain ⟨after, ran, last⟩ := ih kept walks.2
    refine ⟨after, ?_, last⟩
    rw [Session.run, List.foldlM_cons, moved]
    exact ran

/-- Of a longer line one step back and forth leaves the first 128 bytes. -/
theorem Session.draft_cut (typed : Typed session.line) (current : session.historyCursor = 0)
    (long : maxCmdLen < session.line.len) (some' : session.history.count ≠ 0) :
    ∃ after, session.run [.historyPrev, .historyNext] = some after ∧ after.historyCursor = 0 ∧
      after.line.len = maxCmdLen := by
  have total := session.history.length_past
  have full : 0 < session.history.past.length := by
    rw [total, maxHistory]
    omega
  obtain ⟨draft, line, back, saved, _, shown, _⟩ := session.prev_eq typed
  rw [current, if_pos full] at back
  obtain ⟨last, forth, _, _, restored⟩ :=
    @Session.next_eq { session with draft, line, historyCursor := 0 + 1 } shown full
  refine ⟨{ session with draft, line := last, historyCursor := 0 }, ?_, rfl, ?_⟩
  · rw [run, List.foldlM_cons, back]
    exact congrArg (Option.bind · _) forth
  · have size := typed.size
    have fits := typed.fits
    have cut := (restored rfl).len
    rw [saved current, List.length_take] at cut
    dsimp only at cut ⊢
    omega

theorem Session.not_keepsDraft (typed : Typed session.line) (current : session.historyCursor = 0)
    (long : maxCmdLen < session.line.len) (some' : session.history.count ≠ 0) :
    ¬ KeepsDraft session := by
  intro keeps
  obtain ⟨after, ran, back, cut⟩ := session.draft_cut typed current long some'
  obtain ⟨same, again, kept⟩ := keeps [.historyPrev, .historyNext] (by simp [Walks])
  obtain rfl := Option.some.inj (again.symm.trans ran)
  exact absurd ((kept back).1.symm.trans cut) (Nat.ne_of_gt long)

end Walk

/-- Walking through the history keeps the line exactly if it fits into the draft, or if there is
no history to walk through. -/
theorem keeps_draft_iff {session : Session} (typed : Typed session.line)
    (current : session.historyCursor = 0) :
    KeepsDraft session ↔ session.line.len ≤ maxCmdLen ∨ session.history.count = 0 := by
  constructor
  · intro keeps
    by_contra damaged
    rw [not_or, Nat.not_le] at damaged
    exact session.not_keepsDraft typed current damaged.1 damaged.2 keeps
  · intro keeps keys walks
    have start : Browsing session session := ⟨typed, rfl, current ▸ Nat.zero_le _,
      fun _ => typed.displays, absurd current⟩
    obtain ⟨after, ran, browsing⟩ := start.run keeps keys walks
    refine ⟨after, ran, fun back => ?_⟩
    have shown := browsing.shown back
    have same : after.line.len = session.line.len := shown.len.trans typed.displays.len.symm
    exact ⟨same, same ▸ shown.bytes⟩

/-- A line of so many letters, with one command in the history. -/
def draftOf (count : Nat) : Session where
  line := ⟨List.replicate count 0x61 ++ List.replicate (256 - count) 0, count, count⟩
  killRing := FixedText.empty
  history := History.empty.push FixedText.empty [0x62]
  historyCursor := 0
  draft := FixedText.empty
  sent := []

theorem draftOf_typed {count : Nat} (fits : count ≤ 255) : Typed (draftOf count).line := by
  refine ⟨?_, fits⟩
  simp only [draftOf, List.length_append, List.length_replicate]
  omega

theorem keeps_draft_short : KeepsDraft (draftOf 3) ↔ 3 ≤ maxCmdLen ∨ (draftOf 3).history.count = 0 :=
  keeps_draft_iff (draftOf_typed (by decide)) rfl

/-- Of 129 letters one is lost. -/
theorem draft_loses_letter : ∃ after,
    (draftOf 129).run [.historyPrev, .historyNext] = some after ∧ after.historyCursor = 0 ∧
      (draftOf 129).line.len = 129 ∧ after.line.len = 128 ∧ ¬ KeepsDraft (draftOf 129) := by
  have typed : Typed (draftOf 129).line := draftOf_typed (by decide)
  obtain ⟨after, ran, back, cut⟩ := (draftOf 129).draft_cut typed rfl (by decide) (by decide)
  exact ⟨after, ran, back, rfl, cut, (draftOf 129).not_keepsDraft typed rfl (by decide) (by decide)⟩

end RustPosix.Shell
