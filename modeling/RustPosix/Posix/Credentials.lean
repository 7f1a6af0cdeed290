import Mathlib

/-! The calls of `services/posix/process.rs` that change who a process is. -/

namespace RustPosix.Posix

abbrev Id := BitVec 32

def eperm : Int := 1

/-- `UNCHANGED` -/
def unchanged : Id := 0xFFFFFFFF

/-- `uid`, `euid` and `suid` of a process, or `gid`, `egid` and `sgid`. -/
structure Ids where
  real : Id
  effective : Id
  saved : Id
  deriving DecidableEq, Repr

structure Credentials where
  user : Ids
  group : Ids
  deriving DecidableEq, Repr

namespace Ids

def values (ids : Ids) : List Id := [ids.real, ids.effective, ids.saved]

/-- An argument of `update_res_ids` that takes no privilege. -/
def valid (ids : Ids) (id : Id) : Bool :=
  id = unchanged || id = ids.real || id = ids.effective || id = ids.saved

/-- The branches that `sys_setuid` and `sys_setgid` share. -/
def set (isRoot : Bool) (id : Id) (ids : Ids) : Int × Ids :=
  if isRoot then (0, ⟨id, id, id⟩)
  else if id = ids.real ∨ id = ids.saved then (0, { ids with effective := id })
  else (-eperm, ids)

/-- `update_res_ids`; who is root is read off the same three ids. -/
def updateResIds (r e s : Id) (ids : Ids) : Int × Ids :=
  if ids.effective = 0 ∨ (ids.valid r ∧ ids.valid e ∧ ids.valid s) then
    (0, ⟨if r ≠ unchanged then r else ids.real, if e ≠ unchanged then e else ids.effective,
      if s ≠ unchanged then s else ids.saved⟩)
  else (-eperm, ids)

end Ids

def sysSetuid (uid : Id) (creds : Credentials) : Int × Credentials :=
  let (result, user) := creds.user.set (creds.user.effective = 0) uid
  (result, { creds with user })

def sysSetgid (gid : Id) (creds : Credentials) : Int × Credentials :=
  let (result, group) := creds.group.set (creds.user.effective = 0) gid
  (result, { creds with group })

def sysSetresuid (ruid euid suid : Id) (creds : Credentials) : Int × Credentials :=
  let (result, user) := creds.user.updateResIds ruid euid suid
  (result, if result = 0 then { creds with user } else creds)

def sysSetresgid (rgid egid sgid : Id) (creds : Credentials) : Int × Credentials :=
  let (result, group) := creds.group.updateResIds rgid egid sgid
  (result, if result = 0 then { creds with group } else creds)

inductive IdCall where
  | setuid (uid : Id)
  | setgid (gid : Id)
  | setresuid (ruid euid suid : Id)
  | setresgid (rgid egid sgid : Id)
  deriving DecidableEq, Repr

def IdCall.run : IdCall → Credentials → Int × Credentials
  | .setuid uid => sysSetuid uid
  | .setgid gid => sysSetgid gid
  | .setresuid ruid euid suid => sysSetresuid ruid euid suid
  | .setresgid rgid egid sgid => sysSetresgid rgid egid sgid

/-- The credentials after a sequence of calls. -/
def Credentials.afterCalls (creds : Credentials) (calls : List IdCall) : Credentials :=
  calls.foldl (fun creds call => (call.run creds).2) creds

namespace Ids

variable {ids first second third : Ids} {id r e s : Id}

/-- No id that was not there before. -/
def Among (after before : Ids) : Prop := ∀ id ∈ after.values, id ∈ before.values

def Unprivileged (ids : Ids) : Prop := ∀ id ∈ ids.values, id ≠ 0

theorem Among.refl (ids : Ids) : Among ids ids := fun _ => id

theorem Among.trans (later : Among third second) (earlier : Among second first) :
    Among third first := fun id here => earlier id (later id here)

theorem Among.unprivileged (among : Among second first) (before : first.Unprivileged) :
    second.Unprivileged := fun id here => before id (among id here)

theorem among_iff {after before : Ids} : Among after before ↔
    after.real ∈ before.values ∧ after.effective ∈ before.values ∧ after.saved ∈ before.values := by
  unfold Among
  rw [show after.values = [after.real, after.effective, after.saved] from rfl]
  simp only [List.forall_mem_cons, List.not_mem_nil, false_imp_iff, implies_true, and_true]

theorem real_mem (ids : Ids) : ids.real ∈ ids.values := List.mem_cons_self

theorem effective_mem (ids : Ids) : ids.effective ∈ ids.values :=
  List.mem_cons_of_mem _ List.mem_cons_self

theorem saved_mem (ids : Ids) : ids.saved ∈ ids.values :=
  List.mem_cons_of_mem _ (List.mem_cons_of_mem _ List.mem_cons_self)

theorem valid_iff : ids.valid id = true ↔ id = unchanged ∨ id ∈ ids.values := by
  simp only [valid, values, Bool.or_eq_true, decide_eq_true_eq, List.mem_cons, List.not_mem_nil,
    or_false, or_assoc]

theorem set_among (id : Id) (ids : Ids) : Among (ids.set false id).2 ids := by
  fun_cases Ids.set false id ids
  · contradiction
  · rename_i _ known
    refine among_iff.mpr ⟨ids.real_mem, ?_, ids.saved_mem⟩
    rcases known with rfl | rfl
    · exact ids.real_mem
    · exact ids.saved_mem
  · exact .refl ids

theorem updateResIds_among (privileged : ids.effective ≠ 0) (r e s : Id) :
    Among (ids.updateResIds r e s).2 ids := by
  -- An argument is either left out or one of the ids.
  have kept {id old : Id} (valid : ids.valid id = true) (here : old ∈ ids.values) :
      (if id ≠ unchanged then id else old) ∈ ids.values := by
    split
    · rename_i given
      exact (valid_iff.mp valid).resolve_left given
    · exact here
  fun_cases Ids.updateResIds r e s ids
  · rename_i allowed
    obtain ⟨real, effective, saved⟩ := allowed.resolve_left privileged
    exact among_iff.mpr ⟨kept real ids.real_mem, kept effective ids.effective_mem,
      kept saved ids.saved_mem⟩
  · exact .refl ids

theorem updateResIds_refused : (ids.updateResIds r e s).1 < 0 ↔
    ids.effective ≠ 0 ∧ ¬ (ids.valid r ∧ ids.valid e ∧ ids.valid s) := by
  unfold updateResIds
  split
  · rename_i allowed
    exact iff_of_false (Int.lt_irrefl 0) fun refused => allowed.elim refused.1 refused.2
  · rename_i refused
    exact iff_of_true (show -eperm < 0 by decide) (not_or.mp refused)

end Ids

section Calls

variable {creds : Credentials}

/-- As long as no user id is 0, a call changes the user ids among themselves. -/
theorem run_user_among (unprivileged : creds.user.Unprivileged) (call : IdCall) :
    (call.run creds).2.user.Among creds.user := by
  have notRoot := unprivileged _ creds.user.effective_mem
  cases call with
  | setuid uid =>
    simp only [IdCall.run, sysSetuid, decide_eq_false notRoot]
    exact Ids.set_among uid creds.user
  | setgid gid => exact .refl _
  | setresuid ruid euid suid =>
    simp only [IdCall.run, sysSetresuid]
    split
    · exact Ids.updateResIds_among notRoot ruid euid suid
    · exact .refl _
  | setresgid rgid egid sgid =>
    simp only [IdCall.run, sysSetresgid]
    split
    · exact .refl _
    · exact .refl _

/-- The group ids take two privileges: that of the user, and that of the group itself. -/
theorem run_group_among (notRoot : creds.user.effective ≠ 0) (notWheel : creds.group.effective ≠ 0)
    (call : IdCall) : (call.run creds).2.group.Among creds.group := by
  cases call with
  | setuid uid => exact .refl _
  | setgid gid =>
    simp only [IdCall.run, sysSetgid, decide_eq_false notRoot]
    exact Ids.set_among gid creds.group
  | setresuid ruid euid suid =>
    simp only [IdCall.run, sysSetresuid]
    split
    · exact .refl _
    · exact .refl _
  | setresgid rgid egid sgid =>
    simp only [IdCall.run, sysSetresgid]
    split
    · exact Ids.updateResIds_among notWheel rgid egid sgid
    · exact .refl _

theorem after_user_among (unprivileged : creds.user.Unprivileged) (calls : List IdCall) :
    (creds.afterCalls calls).user.Among creds.user := by
  induction calls generalizing creds with
  | nil => exact .refl _
  | cons call rest ih =>
    have first := run_user_among unprivileged call
    exact (ih (first.unprivileged unprivileged)).trans first

theorem after_group_among (user : creds.user.Unprivileged) (group : creds.group.Unprivileged)
    (calls : List IdCall) : (creds.afterCalls calls).group.Among creds.group := by
  induction calls generalizing creds with
  | nil => exact .refl _
  | cons call rest ih =>
    have users := run_user_among user call
    have groups := run_group_among (user _ creds.user.effective_mem)
      (group _ creds.group.effective_mem) call
    exact (ih (users.unprivileged user) (groups.unprivileged group)).trans groups

theorem refused_unchanged (call : IdCall) (refused : (call.run creds).1 < 0) :
    (call.run creds).2 = creds := by
  cases call with
  | setuid uid =>
    revert refused
    simp only [IdCall.run, sysSetuid]
    fun_cases Ids.set (creds.user.effective = 0) uid creds.user
    · exact nofun
    · exact nofun
    · exact fun _ => rfl
  | setgid gid =>
    revert refused
    simp only [IdCall.run, sysSetgid]
    fun_cases Ids.set (creds.user.effective = 0) gid creds.group
    · exact nofun
    · exact nofun
    · exact fun _ => rfl
  | setresuid ruid euid suid => exact if_neg (Int.ne_of_lt refused)
  | setresgid rgid egid sgid => exact if_neg (Int.ne_of_lt refused)

/-- An id that is neither left out nor among three others. -/
theorem exists_foreign (ids : Ids) : ∃ id, id ≠ unchanged ∧ id ∉ ids.values := by
  by_contra none
  have covered : [(1 : Id), 2, 3, 4] ⊆ ids.values := by
    intro id here
    by_contra foreign
    refine none ⟨id, ?_, foreign⟩
    rintro rfl
    revert here
    decide
  have crowded := (List.subperm_of_subset (by decide) covered).length_le
  exact absurd crowded (Nat.not_succ_le_self 3)

/-- A group id of 0 is as good as any: it is made the effective one, and then privileged. -/
theorem zero_group_escalates (user : creds.user.effective ≠ 0) (zero : 0 ∈ creds.group.values)
    {id : Id} (given : id ≠ unchanged) :
    (creds.afterCalls [.setgid 0, .setresgid id id id]).group = ⟨id, id, id⟩ := by
  have taken : (creds.group.set false 0).2.effective = 0 := by
    fun_cases Ids.set false 0 creds.group
    · contradiction
    · rfl
    · rename_i _ foreign
      obtain ⟨real, saved⟩ := not_or.mp foreign
      simp only [Ids.values, List.mem_cons, List.not_mem_nil, or_false] at zero
      exact ((zero.resolve_left real).resolve_right saved).symm
  simp only [Credentials.afterCalls, List.foldl_cons, List.foldl_nil, IdCall.run, sysSetgid,
    sysSetresgid, decide_eq_false user, Ids.updateResIds, if_pos (Or.inl taken), if_pos given,
    if_true]

end Calls

/-- What the four calls can do, whatever the order. The user ids of a process without a 0 among
them stay among themselves. Its group ids do so exactly if there is no 0 among them either,
since `sys_setresgid` asks for the effective group where the others ask for the effective user.
A call that fails changes nothing. Of a process with effective user 0 exactly those calls of
`sys_setresgid` fail that an unprivileged group would not be allowed. -/
theorem id_changes_escalate_iff (creds : Credentials) :
    (creds.user.Unprivileged →
      (∀ calls, (creds.afterCalls calls).user.Among creds.user) ∧
      ((∀ calls, (creds.afterCalls calls).group.Among creds.group) ↔ creds.group.Unprivileged)) ∧
    (∀ call : IdCall, (call.run creds).1 < 0 → (call.run creds).2 = creds) ∧
    (creds.user.effective = 0 → ∀ call : IdCall, (call.run creds).1 < 0 ↔
      ∃ rgid egid sgid, call = .setresgid rgid egid sgid ∧ creds.group.effective ≠ 0 ∧
        ¬ (creds.group.valid rgid ∧ creds.group.valid egid ∧ creds.group.valid sgid)) := by
  refine ⟨fun user => ⟨after_user_among user, fun stay => ?_, after_group_among user⟩,
    refused_unchanged, fun root call => ?_⟩
  · intro id here zero
    subst zero
    obtain ⟨foreign, given, outside⟩ := exists_foreign creds.group
    have escalated := zero_group_escalates (user _ creds.user.effective_mem) here given
    refine outside (stay [.setgid 0, .setresgid foreign foreign foreign] foreign ?_)
    rw [escalated]
    exact List.mem_cons_self
  · have isRoot : decide (creds.user.effective = 0) = true := decide_eq_true root
    cases call with
    | setuid uid =>
      simp only [IdCall.run, sysSetuid, isRoot]
      exact iff_of_false (Int.lt_irrefl 0) nofun
    | setgid gid =>
      simp only [IdCall.run, sysSetgid, isRoot]
      exact iff_of_false (Int.lt_irrefl 0) nofun
    | setresuid ruid euid suid =>
      refine iff_of_false (fun refused => ?_) nofun
      exact (Ids.updateResIds_refused.mp refused).1 root
    | setresgid rgid egid sgid =>
      refine Ids.updateResIds_refused.trans ⟨fun refused => ⟨_, _, _, rfl, refused⟩, ?_⟩
      rintro ⟨_, _, _, same, refused⟩
      cases same
      exact refused

/-- A process that has given up its user id only takes on group 5, and one that has given up
its group id only is not allowed to. -/
theorem group_zero_escalates :
    (sysSetresgid 5 5 5 ⟨⟨1000, 1000, 1000⟩, ⟨0, 0, 0⟩⟩ =
      (0, ⟨⟨1000, 1000, 1000⟩, ⟨5, 5, 5⟩⟩)) ∧
    (sysSetresgid 5 5 5 ⟨⟨0, 0, 0⟩, ⟨7, 7, 7⟩⟩).1 = -eperm := by
  decide

end RustPosix.Posix
