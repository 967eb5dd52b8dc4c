/-
# Sign-in barred after failures

The throttle of `core/throttle.py` keeps no state of its own: it reads the failed sign-ins the
audit log holds, counts those of the account and those of the address within a window that slides,
and says how long the lock lasts from the newest of them. Times are microseconds.
-/

import Mathlib.Data.List.Basic
import Mathlib.Order.Basic
import SeverinoHQ.Math.Letters

namespace SeverinoHQ.Signin

open SeverinoHQ.Math Letters

/-- `AuditLog.Action.LOGIN_FAILED`. -/
def loginFailed : String := "login_failed"

/-- An audit row, as far as the throttle reads it. Metadata may name no account and no address. -/
structure AuditRow where
  action : String
  createdAt : Int
  username : Option (List Char)
  ip : Option (List Char)
  deriving DecidableEq, Repr

structure Settings where
  loginMaxAttempts : Int
  loginWindowSeconds : Int
  deriving DecidableEq, Repr

/-- How texts are lowered, and how the database compares them without regard to case. -/
structure Texts where
  casing : Casing
  iexact : List Char → List Char → Bool

/-- Whether sign-in is barred, and for how many seconds more. -/
structure Lockout where
  locked : Bool
  secondsRemaining : Int
  deriving DecidableEq, Repr

/-- `Lockout(locked=False)`. -/
def Lockout.open : Lockout := ⟨false, 0⟩

section Throttle

variable (texts : Texts) (settings : Settings) (log : List AuditRow)

/-- The window, in microseconds. -/
def Settings.window : Int := settings.loginWindowSeconds * 1000000

/-- The failure is of the account or from the address. With neither there is none. -/
def AuditRow.counts (username ip : List Char) (row : AuditRow) : Bool :=
  let subject := texts.casing.lower (strip username)
  let account := row.username.any (texts.iexact subject)
  let source := row.ip.any (· == ip)
  row.action == loginFailed &&
    if subject ≠ [] ∧ ip ≠ [] then account || source
    else if subject ≠ [] then account
    else if ip ≠ [] then source
    else false

/-- `_recent_failures`. -/
def recentFailures (username ip : List Char) (now : Int) : List AuditRow :=
  log.filter fun row => now - settings.window ≤ row.createdAt && row.counts texts username ip

/-- `lockout`. The remaining time is positive where it is cut to whole seconds. -/
def lockout (username ip : List Char) (now : Int) : Lockout :=
  if settings.loginMaxAttempts ≤ 0 then .open
  else
    let recent := ((recentFailures texts settings log username ip now).map
      AuditRow.createdAt).mergeSort fun first second => decide (second ≤ first)
    if (recent.length : Int) < settings.loginMaxAttempts then .open
    else
      match recent with
      | [] => .open
      | newest :: _ =>
          let remaining := settings.window - (now - newest)
          if remaining ≤ 0 then .open else ⟨true, remaining / 1000000⟩

end Throttle

/-! ## Locked by the count, for as long as the newest says -/

section Reading

variable {texts : Texts} {settings : Settings} {log : List AuditRow} {username ip : List Char}

theorem mem_recentFailures {row : AuditRow} {now : Int} :
    row ∈ recentFailures texts settings log username ip now ↔
      row ∈ log ∧ now - settings.window ≤ row.createdAt ∧ row.counts texts username ip = true := by
  simp [recentFailures]

/-- The newest of the failures in the window. -/
def IsNewest (recent : List AuditRow) (newest : Int) : Prop :=
  (∃ row ∈ recent, row.createdAt = newest) ∧ ∀ row ∈ recent, row.createdAt ≤ newest

/-- The times in order start with the newest. -/
theorem sorted_times (recent : List AuditRow) :
    ((recent.map AuditRow.createdAt).mergeSort fun first second => decide (second ≤ first)) = [] ∧
        recent = [] ∨
      ∃ newest rest, ((recent.map AuditRow.createdAt).mergeSort
          fun first second => decide (second ≤ first)) = newest :: rest ∧
        IsNewest recent newest := by
  have hperm := List.mergeSort_perm (recent.map AuditRow.createdAt)
    fun first second => decide (second ≤ first)
  have hsorted : ((recent.map AuditRow.createdAt).mergeSort
      fun first second => decide (second ≤ first)).Pairwise
      fun first second => decide (second ≤ first) = true := List.pairwise_mergeSort
    (fun first second third h h' => by simp only [decide_eq_true_eq] at *; omega)
    (fun first second => by simp only [Bool.or_eq_true, decide_eq_true_eq]; omega)
    (recent.map AuditRow.createdAt)
  revert hperm hsorted
  generalize (recent.map AuditRow.createdAt).mergeSort
    (fun first second => decide (second ≤ first)) = times
  intro hperm hsorted
  cases times with
  | nil => exact .inl ⟨rfl, List.map_eq_nil_iff.mp (List.nil_perm.mp hperm)⟩
  | cons newest rest =>
      refine .inr ⟨newest, rest, rfl, ?_, ?_⟩
      · exact List.mem_map.mp (hperm.subset List.mem_cons_self)
      · intro row hrow
        have hmem := hperm.mem_iff.mpr (List.mem_map_of_mem (f := AuditRow.createdAt) hrow)
        rcases List.mem_cons.mp hmem with heq | hrest
        · exact Int.le_of_eq heq
        · simpa using (List.pairwise_cons.mp hsorted).1 _ hrest

theorem IsNewest.unique {recent : List AuditRow} {first second : Int} (h : IsNewest recent first)
    (h' : IsNewest recent second) : first = second := by
  obtain ⟨⟨row, hrow, rfl⟩, hfirst⟩ := h
  obtain ⟨⟨other, hother, rfl⟩, hsecond⟩ := h'
  have hle := hfirst other hother
  have hle' := hsecond row hrow
  omega

theorem exists_isNewest {recent : List AuditRow} (h : recent ≠ []) :
    ∃ newest, IsNewest recent newest := by
  rcases sorted_times recent with ⟨-, hnil⟩ | ⟨newest, rest, -, hnewest⟩
  · exact absurd hnil h
  · exact ⟨newest, hnewest⟩

/-- With failures in the window: barred where there are as many as there may be and the newest is
younger than the window, until it is not. -/
theorem lockout_eq {newest now : Int}
    (h : IsNewest (recentFailures texts settings log username ip now) newest) :
    lockout texts settings log username ip now =
      if 0 < settings.loginMaxAttempts ∧
          settings.loginMaxAttempts ≤
            (recentFailures texts settings log username ip now).length ∧
          now < newest + settings.window then
        ⟨true, (newest + settings.window - now) / 1000000⟩
      else .open := by
  rcases sorted_times (recentFailures texts settings log username ip now) with
    ⟨-, hnil⟩ | ⟨found, rest, htimes, hfound⟩
  · obtain ⟨⟨row, hrow, -⟩, -⟩ := h
    simp [hnil] at hrow
  · obtain rfl := hfound.unique h
    have hlength : (found :: rest).length =
        (recentFailures texts settings log username ip now).length := by
      rw [← htimes, List.length_mergeSort, List.length_map]
    rw [lockout, htimes]
    dsimp only
    rw [hlength]
    by_cases hlimit : settings.loginMaxAttempts ≤ 0
    · rw [if_pos hlimit, if_neg (by omega)]
    · rw [if_neg hlimit]
      by_cases hfew : ((recentFailures texts settings log username ip now).length : Int) <
          settings.loginMaxAttempts
      · rw [if_pos hfew, if_neg (by omega)]
      · rw [if_neg hfew]
        by_cases hpast : settings.window - (now - found) ≤ 0
        · rw [if_pos hpast, if_neg (by omega)]
        · rw [if_neg hpast, if_pos ⟨by omega, by omega, by omega⟩,
            show settings.window - (now - found) = found + settings.window - now by omega]

theorem lockout_eq_open {now : Int}
    (h : recentFailures texts settings log username ip now = []) :
    lockout texts settings log username ip now = .open := by
  rw [lockout, h]
  by_cases hlimit : settings.loginMaxAttempts ≤ 0
  · rw [if_pos hlimit]
  · rw [if_neg hlimit]
    simp only [List.map_nil, List.mergeSort_nil]
    split <;> rfl

theorem locked_iff {newest now : Int}
    (h : IsNewest (recentFailures texts settings log username ip now) newest) :
    (lockout texts settings log username ip now).locked = true ↔
      0 < settings.loginMaxAttempts ∧
        settings.loginMaxAttempts ≤ (recentFailures texts settings log username ip now).length ∧
        now < newest + settings.window := by
  rw [lockout_eq h]
  split
  · next hlocked => exact iff_of_true rfl hlocked
  · next hopen => exact iff_of_false Bool.false_ne_true hopen

/-- Rows that do not count change nothing. -/
theorem recentFailures_append {more : List AuditRow}
    (hmore : ∀ row ∈ more, row.counts texts username ip = false) (now : Int) :
    recentFailures texts settings (log ++ more) username ip now =
      recentFailures texts settings log username ip now := by
  have hnone : more.filter (fun row => now - settings.window ≤ row.createdAt &&
      row.counts texts username ip) = [] := by
    rw [List.filter_eq_nil_iff]
    intro row hrow
    simp [hmore row hrow]
  rw [recentFailures, recentFailures, List.filter_append, hnone, List.append_nil]

theorem lockout_append {more : List AuditRow}
    (hmore : ∀ row ∈ more, row.counts texts username ip = false) (now : Int) :
    lockout texts settings (log ++ more) username ip now =
      lockout texts settings log username ip now := by
  simp only [lockout, recentFailures_append hmore]

end Reading

/-! ## The lock as it is told -/

section Told

variable (texts : Texts) (settings : Settings) (log : List AuditRow) (username ip : List Char)
variable (now : Int)

/-- While nothing more counts, a lock stands for the seconds it was told to have left. -/
def LockStands : Prop :=
  ∀ more : List AuditRow, (∀ row ∈ more, row.counts texts username ip = false) →
    ∀ later, now ≤ later →
      later < now + (lockout texts settings log username ip now).secondsRemaining * 1000000 →
      (lockout texts settings (log ++ more) username ip later).locked = true

/-- It is lifted once the window has passed without a failure. -/
def LockLifts : Prop :=
  ∀ more : List AuditRow, (∀ row ∈ more, row.counts texts username ip = false) →
    ∀ later, (∀ row ∈ log, row.counts texts username ip = true →
      row.createdAt + settings.window ≤ later) →
      (lockout texts settings (log ++ more) username ip later).locked = false

/-- As many failures as bar sign-in came with the newest, no earlier than it by more than what
the whole seconds left leave out; or no whole second is left. -/
def Together : Prop :=
  ∀ newest, IsNewest (recentFailures texts settings log username ip now) newest →
    newest + settings.window - now < 1000000 ∨
      settings.loginMaxAttempts ≤ (log.filter fun row =>
        newest - (newest + settings.window - now) % 1000000 - 1 ≤ row.createdAt &&
          row.counts texts username ip).length

variable {texts settings log username ip now}

theorem lockLifts : LockLifts texts settings log username ip := by
  intro more hmore later hpast
  rw [lockout_append hmore]
  by_cases hnone : recentFailures texts settings log username ip later = []
  · rw [lockout_eq_open hnone]
    rfl
  · obtain ⟨newest, hnewest⟩ := exists_isNewest hnone
    obtain ⟨row, hrow, rfl⟩ := hnewest.1
    obtain ⟨hmem, -, hcounts⟩ := mem_recentFailures.mp hrow
    have hend := hpast row hmem hcounts
    rw [Bool.eq_false_iff, Ne, locked_iff hnewest]
    omega

/-- In the time told the newest failure stays the newest in the window. -/
theorem IsNewest.later {newest later : Int}
    (h : IsNewest (recentFailures texts settings log username ip now) newest)
    (hlater : now ≤ later) (hend : later < newest + settings.window) :
    IsNewest (recentFailures texts settings log username ip later) newest := by
  obtain ⟨⟨row, hrow, htime⟩, hgreatest⟩ := h
  obtain ⟨hmem, -, hcounts⟩ := mem_recentFailures.mp hrow
  refine ⟨⟨row, mem_recentFailures.mpr ⟨hmem, by omega, hcounts⟩, htime⟩, fun other hother => ?_⟩
  obtain ⟨hmem', hwindow, hcounts'⟩ := mem_recentFailures.mp hother
  exact hgreatest other (mem_recentFailures.mpr ⟨hmem', by omega, hcounts'⟩)

/-- A lock stands as told exactly where the failures that make it came together: as those before
the newest leave the window, too few are left. -/
theorem lock_stands_iff (hlocked : (lockout texts settings log username ip now).locked = true) :
    LockStands texts settings log username ip now ∧ LockLifts texts settings log username ip ↔
      Together texts settings log username ip now := by
  obtain ⟨newest, hnewest⟩ : ∃ newest,
      IsNewest (recentFailures texts settings log username ip now) newest := by
    apply exists_isNewest
    intro hnone
    rw [lockout_eq_open hnone] at hlocked
    exact absurd hlocked Bool.false_ne_true
  obtain ⟨hlimit, hmany, hyoung⟩ := (locked_iff hnewest).mp hlocked
  have hseconds : (lockout texts settings log username ip now).secondsRemaining =
      (newest + settings.window - now) / 1000000 := by
    rw [lockout_eq hnewest, if_pos ⟨hlimit, hmany, hyoung⟩]
  rw [and_iff_left lockLifts]
  constructor
  · intro hstands other hother
    obtain rfl := hother.unique hnewest
    by_cases hleft : other + settings.window - now < 1000000
    · exact .inl hleft
    · -- The last instant of the seconds told.
      have hlast := hstands [] (by simp)
        (now + (other + settings.window - now) / 1000000 * 1000000 - 1) (by omega)
        (by rw [hseconds]; omega)
      rw [List.append_nil, locked_iff (hnewest.later (by omega) (by omega))] at hlast
      refine .inr (Int.le_trans hlast.2.1 (Int.le_of_eq ?_))
      rw [recentFailures, show now + (other + settings.window - now) / 1000000 * 1000000 - 1 -
        settings.window = other - (other + settings.window - now) % 1000000 - 1 by omega]
  · intro htogether more hmore later hlater hend
    rw [hseconds] at hend
    rw [lockout_append hmore, locked_iff (hnewest.later hlater (by omega))]
    refine ⟨hlimit, ?_, by omega⟩
    rcases htogether newest hnewest with hleft | hcount
    · omega
    · refine Int.le_trans hcount (Int.ofNat_le.mpr ?_)
      apply List.Sublist.length_le
      apply List.monotone_filter_right
      intro row hrow
      simp only [Bool.and_eq_true, decide_eq_true_eq] at hrow ⊢
      exact ⟨by omega, hrow.2⟩

end Told

/-- One account's failure at so many seconds. -/
def failedAt (seconds : Int) : AuditRow :=
  ⟨loginFailed, seconds * 1000000, some "root".toList, none⟩

def exactly : Texts := ⟨.plain, fun first second => first == second⟩

/-- Five failures within 400 seconds bar sign-in for 900 more; 550 seconds later the first of
them has left the window of 900, and it is open. -/
theorem not_stands_spread :
    (lockout exactly ⟨5, 900⟩ ([0, 100, 200, 300, 400].map failedAt) "root".toList []
        400000000).locked = true ∧
      ¬ LockStands exactly ⟨5, 900⟩ ([0, 100, 200, 300, 400].map failedAt) "root".toList []
        400000000 := by
  have hnewest : ∀ now ∈ [(400000000 : Int), 950000000], IsNewest (recentFailures exactly
      ⟨5, 900⟩ ([0, 100, 200, 300, 400].map failedAt) "root".toList [] now) 400000000 := by
    simp only [IsNewest]
    decide
  have htold := lockout_eq (hnewest 400000000 (by simp))
  rw [if_pos (by decide)] at htold
  refine ⟨by rw [htold], fun hstands => ?_⟩
  have hopen := hstands [] (by simp) 950000000 (by decide) (by rw [htold]; decide)
  rw [List.append_nil, locked_iff (hnewest 950000000 (by simp))] at hopen
  exact absurd hopen (by decide)

/-- Three failures spread in the window, and five at one moment. -/
def hammered : List AuditRow :=
  [0, 100, 200].map failedAt ++ List.replicate 5 (failedAt 400)

theorem lock_stands_iff_together :
    LockStands exactly ⟨5, 900⟩ hammered "root".toList [] 410000000 ∧
        LockLifts exactly ⟨5, 900⟩ hammered "root".toList [] ↔
      Together exactly ⟨5, 900⟩ hammered "root".toList [] 410000000 := by
  have hnewest : IsNewest (recentFailures exactly ⟨5, 900⟩ hammered "root".toList [] 410000000)
      400000000 := by
    rw [IsNewest]
    decide
  apply lock_stands_iff
  rw [locked_iff hnewest]
  decide

end SeverinoHQ.Signin
