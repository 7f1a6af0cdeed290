import RustPosix.Vfs.Pipe

/-! The signal state of `services/ipc/mod.rs` and the choice of the signal to act upon in
`services/posix/process.rs`. -/

namespace RustPosix.Ipc

open Vfs

abbrev SigSet := BitVec 64

def sigMin : Int := 1
def sigMax : Int := 31
def sigkill : Int := 9
def sigsegv : Int := 11
def sigchld : Int := 17
def sigstop : Int := 19
def sigtstp : Int := 20
def sigttin : Int := 21
def sigttou : Int := 22
def sigurg : Int := 23
def sigwinch : Int := 28

def sigDfl : Nat := 0
def sigIgn : Nat := 1
def saNodefer : BitVec 64 := 0x40000000
def saResethand : BitVec 64 := 0x80000000

/-- The `how` argument of `set_procmask`. -/
inductive MaskChange where
  | block
  | unblock
  | setMask
  deriving DecidableEq, Repr

structure SigAction where
  handler : Nat
  flags : BitVec 64
  restorer : Nat
  mask : SigSet
  deriving DecidableEq, Repr

def SigAction.default : SigAction := ⟨sigDfl, 0, 0, 0⟩

/-- The three maps, with what a missing entry stands for. -/
structure SignalManager where
  pending : Pid → SigSet
  blocked : Pid → SigSet
  actions : Pid → Int → SigAction

/-- `1 << (sig - 1)` -/
def sigBit (sig : Int) : SigSet := 1#64 <<< (sig - 1).toNat

def isDefaultIgnore (sig : Int) : Bool := sig = sigchld || sig = sigurg || sig = sigwinch

def isDefaultStop (sig : Int) : Bool :=
  sig = sigstop || sig = sigtstp || sig = sigttin || sig = sigttou

namespace SignalManager

def new : SignalManager := ⟨fun _ => 0, fun _ => 0, fun _ _ => .default⟩

def setPending (signals : SignalManager) (pid : Pid) (sig : Int) : SignalManager :=
  { signals with
    pending := Function.update signals.pending pid (signals.pending pid ||| sigBit sig) }

def clearPending (signals : SignalManager) (pid : Pid) (sig : Int) : SignalManager :=
  if sigMin ≤ sig ∧ sig ≤ sigMax then
    { signals with
      pending := Function.update signals.pending pid (signals.pending pid &&& ~~~sigBit sig) }
  else signals

def hasUnblockedSignals (signals : SignalManager) (pid : Pid) : Bool :=
  signals.pending pid &&& ~~~signals.blocked pid != 0

/-- `SIGKILL` and `SIGSTOP` cannot be blocked. -/
def setProcmask (signals : SignalManager) (pid : Pid) (how : MaskChange) (newSet : SigSet) :
    SignalManager :=
  let effective := newSet &&& ~~~(sigBit sigkill ||| sigBit sigstop)
  let current := signals.blocked pid
  { signals with
    blocked := Function.update signals.blocked pid <|
      match how with
      | .block => current ||| effective
      | .unblock => current &&& ~~~effective
      | .setMask => effective }

def getAction (signals : SignalManager) (pid : Pid) (sig : Int) : SigAction :=
  if sigMin ≤ sig ∧ sig ≤ sigMax then signals.actions pid sig else .default

/-- `SIGKILL` and `SIGSTOP` cannot be caught or ignored. -/
def setAction (signals : SignalManager) (pid : Pid) (sig : Int) (act : SigAction) :
    SignalManager :=
  if ¬ (sigMin ≤ sig ∧ sig ≤ sigMax) ∨ sig = sigkill ∨ sig = sigstop then signals
  else
    { signals with
      actions := Function.update signals.actions pid
        (Function.update (signals.actions pid) sig act) }

def cleanupProcess (signals : SignalManager) (pid : Pid) : SignalManager :=
  ⟨Function.update signals.pending pid 0, Function.update signals.blocked pid 0,
    Function.update signals.actions pid fun _ => .default⟩

/-- The loop of `next_unblocked_signal` over the signals from `sig` on, for the pending and
unblocked signals read before it. Ignored signals are cleared on the way. -/
def scanSignals (pid : Pid) (unblocked : SigSet) : (count : Nat) → (sig : Int) → SignalManager →
    Option (Int × SigAction) × SignalManager
  | 0, _, signals => (none, signals)
  | count + 1, sig, signals =>
    if unblocked &&& sigBit sig = 0 then scanSignals pid unblocked count (sig + 1) signals
    else
      let action := signals.getAction pid sig
      if action.handler = sigIgn ∨ (action.handler = sigDfl ∧ isDefaultIgnore sig) then
        scanSignals pid unblocked count (sig + 1) (signals.clearPending pid sig)
      else if action.handler = sigDfl ∧ isDefaultStop sig then
        scanSignals pid unblocked count (sig + 1) signals
      else (some (sig, action), signals.clearPending pid sig)

/-- The signal to act upon, its action and the mask blocked at the time. -/
def nextUnblockedSignal (signals : SignalManager) (pid : Pid) :
    Option (Int × SigAction × SigSet) × SignalManager :=
  let blocked := signals.blocked pid
  let unblocked := signals.pending pid &&& ~~~blocked
  if unblocked = 0 then (none, signals)
  else
    let (found, after) := scanSignals pid unblocked 31 sigMin signals
    (found.map fun (sig, action) => (sig, action, blocked), after)

def updateSignalMaskAndDisposition (signals : SignalManager) (pid : Pid) (sig : Int)
    (action : SigAction) (blocked : SigSet) : SignalManager :=
  let masked := blocked ||| action.mask
  let newMask := if action.flags &&& saNodefer = 0 then masked ||| sigBit sig else masked
  let after := signals.setProcmask pid .setMask newMask
  if action.flags &&& saResethand ≠ 0 then after.setAction pid sig .default else after

/-- What `sys_fork` copies to the child: the mask and the actions. -/
def inheritFrom (signals : SignalManager) (parent child : Pid) : SignalManager :=
  (List.range' 1 31).foldl
    (fun after (sig : Nat) => after.setAction child sig (after.getAction parent sig))
    (signals.setProcmask child .setMask (signals.blocked parent))

end SignalManager

end RustPosix.Ipc
