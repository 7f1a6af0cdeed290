import RustPosix.Ipc.SignalSteps
import RustPosix.Posix.Signals

/-! Handlers that interrupt handlers: each return from one brings back what the matching
delivery found, through a frame that lies in user memory. -/

namespace RustPosix.Posix

open Library Mm Vfs Ipc

/-- A delivery whose handler has not returned: where its frame is and what it interrupted. -/
structure Level where
  base : Nat
  before : UserContext

/-- A process with the deliveries it is inside of, the innermost first. -/
structure Nest where
  user : UserContext
  levels : List Level

inductive NestEvent where
  /-- Code of the process runs, or another call of it. -/
  | run (user : UserContext)
  | deliver (sig : Int) (action : SigAction)
  | sigreturn

namespace Nest

def step (pid : Pid) (nest : Nest) : NestEvent → Option Nest
  | .run user => some { nest with user }
  | .deliver sig action =>
    (deliverSignalToUser pid sig action (nest.user.signals.blocked pid) nest.user).map fun user =>
      ⟨user, ⟨newRsp nest.user.regs.rsp, nest.user⟩ :: nest.levels⟩
  | .sigreturn =>
    match nest.levels, sysRtSigreturn pid nest.user with
    | _ :: rest, .ok user => some ⟨user, rest⟩
    | _, _ => none

/-- Handlers leave the saved frames and the mask alone, are interrupted on the stack below
their own frame, and return with the stack pointer behind its first word. -/
def Disciplined (pid : Pid) (nest : Nest) : NestEvent → Prop
  | .run user =>
    user.signals.blocked pid = nest.user.signals.blocked pid ∧
      ∀ level ∈ nest.levels,
        user.space.validateUserRange level.base SignalFrame.size false = true ∧
          ∀ offset < SignalFrame.size,
            user.space.memory (level.base + offset) = nest.user.space.memory (level.base + offset)
  | .deliver .. =>
    ∀ level ∈ nest.levels.head?, nest.user.regs.rsp.toNat ≤ level.base + redZoneSize
  | .sigreturn => ∀ level ∈ nest.levels.head?, nest.user.regs.rsp.toNat = level.base + 8

end Nest

section Frames

variable {mem after : Memory} {base : Nat}

theorem SignalFrame.words_load (mem : Memory) (base : Nat) :
    (SignalFrame.load mem base).words = mem.readWords base 19 := by
  simp only [words, load, Memory.readWords, Nat.add_assoc, Nat.reduceAdd]

theorem SignalFrame.words_injective {frame other : SignalFrame}
    (same : frame.words = other.words) : frame = other := by
  cases frame
  cases other
  simpa [words] using same

theorem SignalFrame.load_congr
    (same : ∀ offset < size, after (base + offset) = mem (base + offset)) :
    load after base = load mem base := by
  apply words_injective
  rw [words_load, words_load]
  exact Memory.readWords_congr same

theorem SignalFrame.load_writeWords (frame : SignalFrame) :
    load (mem.writeWords base frame.words) base = frame := by
  apply words_injective
  rw [words_load]
  exact Memory.readWords_writeWords mem base frame.words

end Frames

/-- The frame of a delivery is whole, in its place, and can be read back. -/
structure Level.Saved (pid : Pid) (space : UserSpace) (level : Level) : Prop where
  frame : ∃ sig action, SignalFrame.load space.memory level.base =
    .save sig action (level.before.signals.blocked pid) level.before.regs
  inside : UserSpace.fromRaw level.base SignalFrame.size = true
  readable : space.validateUserRange level.base SignalFrame.size false = true
  aligned : 16 ∣ level.base
  below : level.base + SignalFrame.size + redZoneSize ≤ level.before.regs.rsp.toNat
  clean : Clean (level.before.signals.blocked pid)

structure Nest.Sound (pid : Pid) (nest : Nest) : Prop where
  saved : ∀ level ∈ nest.levels, level.Saved pid nest.user.space
  apart : nest.levels.Pairwise fun inner outer => inner.base + SignalFrame.size ≤ outer.base
  clean : Clean (nest.user.signals.blocked pid)

section Steps

variable {pid : Pid} {user : UserContext} {level : Level} {space : UserSpace}

theorem Level.Saved.mono (saved : level.Saved pid user.space)
    (readable : space.validateUserRange level.base SignalFrame.size false = true)
    (same : ∀ offset < SignalFrame.size,
      space.memory (level.base + offset) = user.space.memory (level.base + offset)) :
    level.Saved pid space :=
  { saved with
    frame := by
      obtain ⟨sig, action, frame⟩ := saved.frame
      exact ⟨sig, action, (SignalFrame.load_congr same).trans frame⟩
    readable }

theorem validateUserRange_read {addr len : Nat}
    (writable : space.validateUserRange addr len true = true) :
    space.validateUserRange addr len false = true := by
  simp only [UserSpace.validateUserRange, Bool.or_eq_true, Bool.and_eq_true,
    List.all_eq_true] at writable ⊢
  rcases writable with empty | ⟨inside, pages⟩
  · exact .inl empty
  · exact .inr ⟨inside, fun page here => space.readable _ (pages page here)⟩

/-- A delivery that finds room leaves the frame below the red zone of what it interrupts. -/
theorem deliver_saved {sig : Int} {action : SigAction} {after : UserContext}
    (clean : Clean (user.signals.blocked pid))
    (delivered : deliverSignalToUser pid sig action (user.signals.blocked pid) user = some after) :
    (Level.mk (newRsp user.regs.rsp) user).Saved pid after.space ∧
      Clean (after.signals.blocked pid) ∧
      after.space.valid = user.space.valid ∧
      ∀ addr, addr < newRsp user.regs.rsp ∨ newRsp user.regs.rsp + SignalFrame.size ≤ addr →
        after.space.memory addr = user.space.memory addr := by
  obtain ⟨space, written, rfl⟩ := Option.map_eq_some_iff.mp delivered
  simp only [UserSpace.writeFrame] at written
  split at written
  · rename_i accepted
    obtain ⟨inside, writable⟩ := Bool.and_eq_true_iff.mp accepted
    cases written
    refine ⟨⟨⟨sig, action, SignalFrame.load_writeWords _⟩, inside, ?_, ?_, ?_, clean⟩, ?_, rfl, ?_⟩
    · exact validateUserRange_read writable
    · exact Nat.dvd_mul_left 16 _
    · have positive : newRsp user.regs.rsp ≠ 0 := by
        intro zero
        rw [zero] at inside
        cases inside
      simp only [newRsp] at positive ⊢
      omega
    · obtain ⟨set, masked⟩ := user.signals.updateSignalMask_blocked pid sig action
        (user.signals.blocked pid)
      dsimp only
      rw [masked, Function.update_self]
      exact maskable_clean set
    · exact fun addr outside => Memory.writeWords_outside outside
  · cases written

/-- The frames of all deliveries lie above the stack of the innermost handler. -/
theorem Nest.Sound.above {nest : Nest} (sound : nest.Sound pid) {top : Nat}
    (stack : ∀ level ∈ nest.levels.head?, top ≤ level.base) :
    ∀ level ∈ nest.levels, top ≤ level.base := by
  intro level here
  cases levels : nest.levels with
  | nil =>
    rw [levels] at here
    cases here
  | cons inner rest =>
    have first : top ≤ inner.base := stack inner (by rw [levels]; rfl)
    have apart := sound.apart
    rw [levels] at here apart
    rcases List.mem_cons.mp here with rfl | outer
    · exact first
    · have later := (List.pairwise_cons.mp apart).1 level outer
      omega

/-- A return with the stack pointer behind the first word of an intact frame. -/
theorem Level.Saved.sigreturn (saved : level.Saved pid user.space)
    (behind : user.regs.rsp.toNat = level.base + 8) :
    sysRtSigreturn pid user = .ok
      { regs := { level.before.regs with
          r11 := (level.before.regs.r11 &&& userRflagsMask) ||| userRflagsReserved }
        space := user.space
        signals := user.signals.setProcmask pid .setMask (level.before.signals.blocked pid) } := by
  obtain ⟨sig, action, frame⟩ := saved.frame
  rw [sysRtSigreturn, behind, Nat.add_sub_cancel, UserSpace.readFrame, saved.inside, saved.readable,
    Bool.and_true, if_pos rfl, frame]
  rfl

theorem Nest.step_sound {nest after : Nest} {event : NestEvent} (sound : nest.Sound pid)
    (disciplined : nest.Disciplined pid event) (next : nest.step pid event = some after) :
    after.Sound pid := by
  cases event with
  | run user =>
    cases next
    obtain ⟨masked, kept⟩ := disciplined
    refine ⟨fun level here => ?_, sound.apart, masked ▸ sound.clean⟩
    exact (sound.saved level here).mono (kept level here).1 (kept level here).2
  | deliver sig action =>
    obtain ⟨user, delivered, rfl⟩ := Option.map_eq_some_iff.mp next
    obtain ⟨saved, clean, valid, others⟩ := deliver_saved sound.clean delivered
    have below := saved.below
    dsimp only at below
    have stack : ∀ level ∈ nest.levels.head?,
        newRsp nest.user.regs.rsp + SignalFrame.size ≤ level.base := fun level here => by
      have low := disciplined level here
      omega
    have apart := sound.above stack
    refine ⟨fun level here => ?_, List.pairwise_cons.mpr ⟨apart, sound.apart⟩, clean⟩
    rcases List.mem_cons.mp here with rfl | outer
    · exact saved
    · have before := sound.saved level outer
      refine before.mono ?_ fun offset small => others _ (.inr ?_)
      · have readable := before.readable
        rwa [UserSpace.validateUserRange, ← valid] at readable
      · have above := apart level outer
        omega
  | sigreturn =>
    simp only [Nest.step] at next
    split at next
    · rename_i inner rest user levels returned
      cases next
      have behind := disciplined inner (by rw [levels]; rfl)
      have here : ∀ level ∈ rest, level ∈ nest.levels := fun level outer =>
        levels ▸ List.mem_cons_of_mem inner outer
      have saved := sound.saved inner (levels ▸ List.mem_cons_self)
      rw [saved.sigreturn behind] at returned
      cases returned
      refine ⟨fun level outer => sound.saved level (here level outer), ?_, ?_⟩
      · have apart := sound.apart
        rw [levels] at apart
        exact (List.pairwise_cons.mp apart).2
      · rw [SignalManager.setProcmask_setMask, Function.update_self]
        exact maskable_clean _
    · cases next

end Steps

/-- Deliveries nested to any depth are transparent: the frames are aligned, apart from each
other and from the red zones of what they interrupt, and a return from the innermost handler
brings back its registers, its flags as far as they are the user's, and its mask. -/
theorem nested_delivery_is_transparent {pid : Pid} {user : UserContext} {nest : Nest}
    (clean : Clean (user.signals.blocked pid))
    (run : Run (Nest.step pid) (Nest.Disciplined pid) ⟨user, []⟩ nest) :
    (∀ level ∈ nest.levels, 16 ∣ level.base ∧
      level.base + SignalFrame.size ≤ level.before.regs.rsp.toNat - redZoneSize) ∧
    (nest.levels.Pairwise fun inner outer => inner.base + SignalFrame.size ≤ outer.base) ∧
    ∀ level rest, nest.levels = level :: rest →
      nest.user.regs.rsp.toNat = level.base + 8 →
      ∃ after, sysRtSigreturn pid nest.user = .ok after ∧
        after.regs = { level.before.regs with
          r11 := (level.before.regs.r11 &&& userRflagsMask) ||| userRflagsReserved } ∧
        after.signals.blocked pid = level.before.signals.blocked pid := by
  have sound : nest.Sound pid := run.invariant ⟨nofun, .nil, clean⟩
    fun _ _ _ before disciplined next => Nest.step_sound before disciplined next
  refine ⟨fun level here => ?_, sound.apart, fun level rest levels behind => ?_⟩
  · have saved := sound.saved level here
    have below := saved.below
    exact ⟨saved.aligned, by omega⟩
  · have saved := sound.saved level (levels ▸ List.mem_cons_self)
    refine ⟨_, saved.sigreturn behind, rfl, ?_⟩
    rw [SignalManager.setProcmask_setMask, Function.update_self]
    exact saved.clean.maskable_eq

/-- A process with all of its memory mapped and no signal blocked. -/
def UserContext.mapped (rsp : BitVec 64) : UserContext where
  regs := ⟨1, 2, 3, 4, 5, 6, 7, 8, 9, 10, 11, 12, 13, 0x400000, 0x246, rsp⟩
  space := ⟨fun _ => 0, fun _ _ => true, fun _ => id⟩
  signals := .new

private def someHandler : SigAction := ⟨0x400100, 0, 0x400200, 0⟩

private def handled (sig : Int) (user : UserContext) : UserContext :=
  (deliverSignalToUser 5 sig someHandler (user.signals.blocked 5) user).getD user

private def fits (sig : Int) (user : UserContext) : Bool :=
  (deliverSignalToUser 5 sig someHandler (user.signals.blocked 5) user).isSome

private theorem handled_step {sig : Int} {user : UserContext} (room : fits sig user = true)
    (levels : List Level) : Nest.step 5 ⟨user, levels⟩ (.deliver sig someHandler) =
      some ⟨handled sig user, ⟨newRsp user.regs.rsp, user⟩ :: levels⟩ := by
  obtain ⟨after, delivered⟩ := Option.isSome_iff_exists.mp room
  rw [Nest.step, handled, delivered]
  rfl

private def outerUser : UserContext := handled 10 (.mapped 0x8000)
private def innerUser : UserContext := handled 12 outerUser

/-- A handler that is interrupted by another one, which is about to return. -/
theorem nested_delivery_is_transparent_twice :
    ∃ nest level rest after, Run (Nest.step 5) (Nest.Disciplined 5) ⟨.mapped 0x8000, []⟩ nest ∧
      nest.levels = level :: rest ∧ rest.length = 1 ∧
      sysRtSigreturn 5 nest.user = .ok after ∧ after.regs = { level.before.regs with
        r11 := (level.before.regs.r11 &&& userRflagsMask) ||| userRflagsReserved } := by
  have outerRoom : fits 10 (.mapped 0x8000) = true := by decide +kernel
  have innerRoom : fits 12 outerUser = true := by decide +kernel
  have low : outerUser.regs.rsp.toNat ≤ newRsp 0x8000 + redZoneSize := by decide +kernel
  have behind : (BitVec.ofNat 64 (newRsp outerUser.regs.rsp + 8)).toNat =
      newRsp outerUser.regs.rsp + 8 := by decide +kernel
  have readable : ∀ level ∈ [Level.mk (newRsp outerUser.regs.rsp) outerUser,
        ⟨newRsp 0x8000, .mapped 0x8000⟩],
      innerUser.space.validateUserRange level.base SignalFrame.size false = true := by
    decide +kernel
  have first : Run (Nest.step 5) (Nest.Disciplined 5) ⟨.mapped 0x8000, []⟩ _ :=
    .step .start (.deliver 10 someHandler) nofun (handled_step outerRoom [])
  have second := first.step (.deliver 12 someHandler)
    (fun level here => by cases here; exact low) (handled_step innerRoom _)
  have third := second.step
    (.run { innerUser with
      regs := { innerUser.regs with rsp := BitVec.ofNat 64 (newRsp outerUser.regs.rsp + 8) } })
    ⟨rfl, fun level here => ⟨readable level here, fun _ _ => rfl⟩⟩ rfl
  have clean : Clean ((UserContext.mapped 0x8000).signals.blocked 5) := ⟨by decide, by decide⟩
  obtain ⟨after, returned, regs, _⟩ :=
    (nested_delivery_is_transparent clean third).2.2 _ _ rfl behind
  exact ⟨_, _, _, after, third, rfl, rfl, returned, regs⟩

end RustPosix.Posix
