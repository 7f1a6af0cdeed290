import RustPosix.Library.Numbered
import RustPosix.Library.Run

/-! The audit journal of `services/audit`, with any number of calls of
`log_audit_event` that run one atomic access or lock section at a time. -/

namespace RustPosix.Audit

open Library

def maxJournalEntries : Nat := 512

/-- The arguments of `log_audit_event`. -/
structure AuditEntry where
  pid : Int
  uid : Nat
  eventType : Nat
  status : Int
  target : String
  details : String

structure AuditEvent extends AuditEntry where
  seq : Nat
  timestampTicks : Nat

structure AuditJournal where
  entries : List AuditEvent := []
  totalLogged : Nat := 0

def AuditJournal.append (journal : AuditJournal) (event : AuditEvent) : AuditJournal where
  entries :=
    (if journal.entries.length ≥ maxJournalEntries then journal.entries.tail
      else journal.entries) ++ [event]
  totalLogged := journal.totalLogged + 1

/-- A call that has taken its number, before or after it has read the ticks. -/
inductive Call where
  | numbered (seq : Nat) (entry : AuditEntry)
  | stamped (event : AuditEvent)

def AuditEvent.item (event : AuditEvent) : Nat × AuditEntry := (event.seq, event.toAuditEntry)

def Call.item : Call → Nat × AuditEntry
  | .numbered seq entry => (seq, entry)
  | .stamped event => event.item

/-- The statics of the module and the calls in progress, in no order. `logged` and
`written` are history: the entries asked for with their numbers, and all events appended. -/
structure Trail where
  nextEventSeq : Nat := 1
  journal : AuditJournal := {}
  calls : List Call := []
  logged : List (Nat × AuditEntry) := []
  written : List AuditEvent := []

inductive Label where
  | logAuditEvent (entry : AuditEntry)
  | proceed (index sampleTick : Nat)

namespace Trail

/-- The next section of a call that has been taken off `calls`. -/
def advance (trail : Trail) (sampleTick : Nat) : Call → Trail
  | .numbered seq entry =>
    { trail with
      calls := .stamped { entry with seq, timestampTicks := sampleTick } :: trail.calls }
  | .stamped event =>
    { trail with journal := trail.journal.append event, written := trail.written ++ [event] }

/-- A call begins with `fetch_add` on `NEXT_EVENT_SEQ`, which wraps. -/
def step (trail : Trail) : Label → Option Trail
  | .logAuditEvent entry =>
    some { trail with
      nextEventSeq := (trail.nextEventSeq + 1) % 2 ^ 64
      calls := .numbered trail.nextEventSeq entry :: trail.calls
      logged := trail.logged ++ [(trail.nextEventSeq, entry)] }
  | .proceed index sampleTick =>
    trail.calls[index]?.map fun call =>
      { trail with calls := trail.calls.eraseIdx index }.advance sampleTick call

/-- Every entry asked for has a number of its own, counted from 1, and is either in progress
or was appended once; the journal holds the last 512 events appended and counts them all. -/
structure Accounted (trail : Trail) : Prop where
  events : Numbered trail.logged (trail.written.map AuditEvent.item)
    (trail.calls.map Call.item) trail.nextEventSeq
  entries : trail.journal.entries = trail.written.rtake maxJournalEntries
  total : trail.journal.totalLogged = trail.written.length

variable {trail : Trail}

theorem Accounted.advance {call : Call} {others : List Call} (sampleTick : Nat)
    (accounted : { trail with calls := call :: others }.Accounted) :
    ({ trail with calls := others }.advance sampleTick call).Accounted := by
  obtain ⟨events, entries, total⟩ := accounted
  cases call with
  | numbered seq entry => exact ⟨events, entries, total⟩
  | stamped event =>
    refine ⟨?_, rtake_push event entries, ?_⟩
    · simpa [Trail.advance, Call.item] using events.finishes
    · simpa [Trail.advance, AuditJournal.append] using total

theorem Accounted.step {after : Trail} {label : Label} (accounted : trail.Accounted)
    (room : trail.nextEventSeq + 1 < 2 ^ 64) (next : trail.step label = some after) :
    after.Accounted := by
  obtain ⟨events, entries, total⟩ := accounted
  cases label with
  | logAuditEvent entry =>
    cases next
    refine ⟨?_, entries, total⟩
    rw [Nat.mod_eq_of_lt room]
    exact events.begins entry
  | proceed index sampleTick =>
    obtain ⟨call, found, rfl⟩ := Option.map_eq_some_iff.mp next
    obtain ⟨inside, rfl⟩ := List.getElem?_eq_some_iff.mp found
    have chosen := (List.getElem_cons_eraseIdx_perm inside).symm
    exact Accounted.advance sampleTick ⟨events.congr (chosen.map _), entries, total⟩

end Trail

end RustPosix.Audit
