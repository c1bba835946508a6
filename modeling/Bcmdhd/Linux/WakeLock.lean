import Bcmdhd.Lib.Runs

/-!
# The wake lock that is counted (`dhd_os_wake_lock`, `dhd_os_wake_unlock`)

Whoever works on a frame counts the wake lock up, and down when it is done.  The first keeps the
system awake, and the last lets it sleep.  While locks are waived (`dhd_os_wake_lock_waive`) the
counter moves on but the wakeup source stays as it is; `dhd_os_wake_lock_restore` makes up for it.

    runs (step conf) init acts = some (s, tr) → no event lock is given back that shares the source
      → the source is active if a lock was counted when the locks were last effective
      → and only then, if it is not shared                                      (wake_lock_held)
    … and the watchdog takes and gives back its own lock only while locks are effective
      → its source is active while it counts                                    (wd_lock_held)
-/

namespace Bcmdhd.Linux.WakeLock

open Runs

/-! ## Algorithm -/

/-- `CONFIG_HAS_WAKELOCK`: each lock has a wakeup source of its own.  Without it there is the one of
the SDIO device. -/
structure Conf where
  hasWakelock : Bool

/-- Wakeup sources of the kernel: `wl_wifi`, `wl_rxwake`, `wl_ctrlwake`, `wl_evtwake`, `wl_wdwake`,
and the device's -/
inductive Source
  | wifi
  | rxwake
  | ctrlwake
  | evtwake
  | wdwake
  | dev
deriving DecidableEq

structure State where
  wakelockCounter : Nat
  wakelockWdCounter : Nat
  wakelockRxTimeoutEnable : Int
  wakelockCtrlTimeoutEnable : Int
  waiveWakelock : Bool
  wakelockBeforeWaive : Nat
  active : Source → Bool

/-- `__pm_stay_awake`, `pm_stay_awake` -/
def stayAwake (s : State) (src : Source) : State :=
  { s with active := Function.update s.active src true }

/-- `__pm_relax`, `pm_relax` -/
def relax (s : State) (src : Source) : State :=
  { s with active := Function.update s.active src false }

def wifiSource (conf : Conf) : Source := if conf.hasWakelock then .wifi else .dev

def evtSource (conf : Conf) : Source := if conf.hasWakelock then .evtwake else .dev

def dhdOsWakeLockRxTimeoutEnable (s : State) (val : Int) : State :=
  if s.wakelockRxTimeoutEnable < val then { s with wakelockRxTimeoutEnable := val } else s

def dhdOsWakeLockCtrlTimeoutEnable (s : State) (val : Int) : State :=
  if s.wakelockCtrlTimeoutEnable < val then { s with wakelockCtrlTimeoutEnable := val } else s

def dhdOsWakeLockCtrlTimeoutCancel (conf : Conf) (s : State) : State :=
  let s := { s with wakelockCtrlTimeoutEnable := 0 }
  if conf.hasWakelock ∧ s.active .ctrlwake then relax s .ctrlwake else s

/-- The sources of the timed locks are active until their time is over. -/
def dhdOsWakeLockTimeout (conf : Conf) (s : State) : State :=
  let rx := conf.hasWakelock ∧ s.wakelockRxTimeoutEnable ≠ 0
  let ctrl := conf.hasWakelock ∧ s.wakelockCtrlTimeoutEnable ≠ 0
  let s := if rx then stayAwake s .rxwake else s
  let s := if ctrl then stayAwake s .ctrlwake else s
  { s with wakelockRxTimeoutEnable := 0, wakelockCtrlTimeoutEnable := 0 }

def dhdOsWakeLock (conf : Conf) (s : State) : State :=
  let s := if s.wakelockCounter = 0 ∧ ¬ s.waiveWakelock then stayAwake s (wifiSource conf) else s
  { s with wakelockCounter := s.wakelockCounter + 1 }

def dhdOsWakeUnlock (conf : Conf) (s : State) : State :=
  let s := dhdOsWakeLockTimeout conf s
  if 0 < s.wakelockCounter then
    let s := { s with wakelockCounter := s.wakelockCounter - 1 }
    if s.wakelockCounter = 0 ∧ ¬ s.waiveWakelock then relax s (wifiSource conf) else s
  else s

def dhdEventWakeLock (conf : Conf) (s : State) : State := stayAwake s (evtSource conf)

def dhdEventWakeUnlock (conf : Conf) (s : State) : State := relax s (evtSource conf)

def dhdOsWdWakeLock (conf : Conf) (s : State) : State :=
  let s := if s.wakelockWdCounter = 0 ∧ ¬ s.waiveWakelock ∧ conf.hasWakelock then
    stayAwake s .wdwake else s
  { s with wakelockWdCounter := s.wakelockWdCounter + 1 }

def dhdOsWdWakeUnlock (conf : Conf) (s : State) : State :=
  if 0 < s.wakelockWdCounter then
    let s := { s with wakelockWdCounter := 0 }
    if ¬ s.waiveWakelock ∧ conf.hasWakelock then relax s .wdwake else s
  else s

def dhdOsWakeLockWaive (s : State) : State :=
  if s.waiveWakelock then s
  else { s with wakelockBeforeWaive := s.wakelockCounter, waiveWakelock := true }

def dhdOsWakeLockRestore (conf : Conf) (s : State) : State :=
  if s.waiveWakelock then
    let s := { s with waiveWakelock := false }
    let s :=
      if s.wakelockBeforeWaive = 0 ∧ 0 < s.wakelockCounter then stayAwake s (wifiSource conf)
      else if 0 < s.wakelockBeforeWaive ∧ s.wakelockCounter = 0 then relax s (wifiSource conf)
      else s
    { s with wakelockBeforeWaive := 0 }
  else s

inductive Act
  | lock
  | unlock
  | rxTimeoutEnable (val : Int)
  | ctrlTimeoutEnable (val : Int)
  | ctrlTimeoutCancel
  | timeout
  | eventLock
  | eventUnlock
  | wdLock
  | wdUnlock
  | waive
  | restore
  /-- The time of a timed lock is over. -/
  | rxExpire
  | ctrlExpire
deriving DecidableEq

def act (conf : Conf) (s : State) : Act → State
  | .lock => dhdOsWakeLock conf s
  | .unlock => dhdOsWakeUnlock conf s
  | .rxTimeoutEnable val => dhdOsWakeLockRxTimeoutEnable s val
  | .ctrlTimeoutEnable val => dhdOsWakeLockCtrlTimeoutEnable s val
  | .ctrlTimeoutCancel => dhdOsWakeLockCtrlTimeoutCancel conf s
  | .timeout => dhdOsWakeLockTimeout conf s
  | .eventLock => dhdEventWakeLock conf s
  | .eventUnlock => dhdEventWakeUnlock conf s
  | .wdLock => dhdOsWdWakeLock conf s
  | .wdUnlock => dhdOsWdWakeUnlock conf s
  | .waive => dhdOsWakeLockWaive s
  | .restore => dhdOsWakeLockRestore conf s
  | .rxExpire => relax s .rxwake
  | .ctrlExpire => relax s .ctrlwake

def step (conf : Conf) (s : State) (e : Act) : Option (State × Unit) := some (act conf s e, ())

/-- `dhd_os_wake_lock_init` -/
def init : State where
  wakelockCounter := 0
  wakelockWdCounter := 0
  wakelockRxTimeoutEnable := 0
  wakelockCtrlTimeoutEnable := 0
  waiveWakelock := false
  wakelockBeforeWaive := 0
  active := fun _ => false

/-! ## What holds -/

/-- The locks that were counted when the locks were last effective -/
def effective (s : State) : Nat :=
  if s.waiveWakelock then s.wakelockBeforeWaive else s.wakelockCounter

/-- No event lock is given back that shares the source with locks in use. -/
def calm (conf : Conf) (s : State) (e : Act) : Bool :=
  e ≠ .eventUnlock ∨ conf.hasWakelock ∨ effective s = 0

structure Held (conf : Conf) (s : State) : Prop where
  awake : 0 < effective s → s.active (wifiSource conf) = true
  asleep : conf.hasWakelock = true → effective s = 0 → s.active .wifi = false

variable {conf : Conf} {s t : State} {e : Act}

/-- The counters are left alone, and so is the source of the counted lock. -/
theorem Held.frame (h : Held conf s) (heff : effective t = effective s)
    (hwifi : t.active (wifiSource conf) = s.active (wifiSource conf)) : Held conf t where
  awake ht := by
    rw [hwifi]
    exact h.awake (heff ▸ ht)
  asleep hconf ht := by
    have hsrc : wifiSource conf = .wifi := if_pos hconf
    rw [hsrc] at hwifi
    rw [hwifi]
    exact h.asleep hconf (heff ▸ ht)

/-- The source of the counted lock, set to what the counter says -/
theorem Held.set (hwifi : t.active (wifiSource conf) = decide (0 < effective t)) : Held conf t where
  awake ht := by rw [hwifi, decide_eq_true ht]
  asleep hconf ht := by
    have hsrc : wifiSource conf = .wifi := if_pos hconf
    rw [hsrc, ht] at hwifi
    exact hwifi

theorem wifiSource_ne (conf : Conf) {src : Source} (hsrc : src ≠ .wifi) (hdev : src ≠ .dev) :
    wifiSource conf ≠ src := by
  unfold wifiSource
  split
  · exact hsrc.symm
  · exact hdev.symm

/-- Another source is set. -/
theorem Held.update (h : Held conf s) (src : Source) (hsrc : src ≠ .wifi) (hdev : src ≠ .dev)
    (b : Bool) : Held conf { s with active := Function.update s.active src b } :=
  h.frame rfl (Function.update_of_ne (wifiSource_ne conf hsrc hdev) _ _)

theorem Held.timeout (h : Held conf s) : Held conf (dhdOsWakeLockTimeout conf s) := by
  unfold dhdOsWakeLockTimeout
  have hrx : Held conf (if conf.hasWakelock ∧ s.wakelockRxTimeoutEnable ≠ 0 then
      stayAwake s .rxwake else s) := by
    split
    · exact h.update .rxwake nofun nofun true
    · exact h
  dsimp only
  split
  · exact (hrx.update .ctrlwake nofun nofun true).frame rfl rfl
  · exact hrx.frame rfl rfl

theorem Held.lock (h : Held conf s) : Held conf (dhdOsWakeLock conf s) := by
  unfold dhdOsWakeLock
  dsimp only
  split
  · next hfirst =>
    refine .set ?_
    have hwaive : s.waiveWakelock = false := by simpa using hfirst.2
    simp [stayAwake, effective, hwaive]
  · next hmore =>
    cases hwaive : s.waiveWakelock with
    | true => exact h.frame (by simp [effective, hwaive]) rfl
    | false =>
      have hpos : 0 < s.wakelockCounter := by
        rw [hwaive] at hmore
        simp only [Bool.false_eq_true, not_false_eq_true, and_true] at hmore
        omega
      have heff : effective s = s.wakelockCounter := by simp [effective, hwaive]
      refine .set ?_
      show s.active (wifiSource conf) = _
      rw [h.awake (heff ▸ hpos)]
      simp [effective]

theorem Held.unlock (h : Held conf s) : Held conf (dhdOsWakeUnlock conf s) := by
  unfold dhdOsWakeUnlock
  have ht := h.timeout
  generalize dhdOsWakeLockTimeout conf s = s' at ht ⊢
  dsimp only
  split
  · next hpos =>
    split
    · next hlast =>
      refine .set ?_
      have hwaive : s'.waiveWakelock = false := by simpa using hlast.2
      simp [relax, effective, hwaive, hlast.1]
    · next hmore =>
      cases hwaive : s'.waiveWakelock with
      | true => exact ht.frame (by simp [effective, hwaive]) rfl
      | false =>
        have hleft : 0 < s'.wakelockCounter - 1 := by
          rw [hwaive] at hmore
          simp only [Bool.false_eq_true, not_false_eq_true, and_true] at hmore
          omega
        have heff : effective s' = s'.wakelockCounter := by simp [effective, hwaive]
        refine .set ?_
        show s'.active (wifiSource conf) = _
        rw [ht.awake (heff ▸ hpos)]
        simp [effective, hleft]
  · exact ht

theorem Held.waive (h : Held conf s) : Held conf (dhdOsWakeLockWaive s) := by
  unfold dhdOsWakeLockWaive
  split
  · exact h
  · next hwaive => exact h.frame (by simp [effective, hwaive]) rfl

/-- What was missed while the locks were waived is made up for. -/
theorem Held.restore (h : Held conf s) : Held conf (dhdOsWakeLockRestore conf s) := by
  unfold dhdOsWakeLockRestore
  split
  · next hwaive =>
    have heff : effective s = s.wakelockBeforeWaive := by simp [effective, hwaive]
    dsimp only
    split
    · next hgain => exact .set (by simp [stayAwake, effective, hgain.2])
    · split
      · next hloss => exact .set (by simp [relax, effective, hloss.2])
      · next hgain hloss =>
        refine ⟨fun ht => h.awake ?_, fun hconf ht => h.asleep hconf ?_⟩
        · simp only [effective, Bool.false_eq_true, if_false] at ht
          omega
        · simp only [effective, Bool.false_eq_true, if_false] at ht
          omega
  · exact h

theorem Held.step (h : Held conf s) (hc : calm conf s e = true) : Held conf (act conf s e) := by
  cases e with
  | lock => exact h.lock
  | unlock => exact h.unlock
  | rxTimeoutEnable val =>
    show Held conf (dhdOsWakeLockRxTimeoutEnable s val)
    unfold dhdOsWakeLockRxTimeoutEnable
    split
    · exact h.frame rfl rfl
    · exact h
  | ctrlTimeoutEnable val =>
    show Held conf (dhdOsWakeLockCtrlTimeoutEnable s val)
    unfold dhdOsWakeLockCtrlTimeoutEnable
    split
    · exact h.frame rfl rfl
    · exact h
  | ctrlTimeoutCancel =>
    show Held conf (dhdOsWakeLockCtrlTimeoutCancel conf s)
    unfold dhdOsWakeLockCtrlTimeoutCancel
    dsimp only
    split
    · exact (h.update .ctrlwake nofun nofun false).frame rfl rfl
    · exact h.frame rfl rfl
  | timeout => exact h.timeout
  | eventLock =>
    cases hconf : conf.hasWakelock with
    | true =>
      have hsrc : evtSource conf = .evtwake := if_pos hconf
      show Held conf (stayAwake s (evtSource conf))
      rw [hsrc]
      exact h.update .evtwake nofun nofun true
    | false =>
      refine ⟨fun _ => ?_, fun hconf' => absurd (hconf.symm.trans hconf') nofun⟩
      simp [act, dhdEventWakeLock, stayAwake, wifiSource, evtSource, hconf]
  | eventUnlock =>
    cases hconf : conf.hasWakelock with
    | true =>
      have hsrc : evtSource conf = .evtwake := if_pos hconf
      show Held conf (relax s (evtSource conf))
      rw [hsrc]
      exact h.update .evtwake nofun nofun false
    | false =>
      have heff : effective s = 0 := by simpa [calm, hconf] using hc
      exact ⟨fun ht => absurd heff (Nat.ne_of_gt ht),
        fun hconf' => absurd (hconf.symm.trans hconf') nofun⟩
  | wdLock =>
    show Held conf (dhdOsWdWakeLock conf s)
    unfold dhdOsWdWakeLock
    dsimp only
    split
    · exact (h.update .wdwake nofun nofun true).frame rfl rfl
    · exact h.frame rfl rfl
  | wdUnlock =>
    show Held conf (dhdOsWdWakeUnlock conf s)
    unfold dhdOsWdWakeUnlock
    dsimp only
    split
    · split
      · exact (h.update .wdwake nofun nofun false).frame rfl rfl
      · exact h.frame rfl rfl
    · exact h
  | waive => exact h.waive
  | restore => exact h.restore
  | rxExpire => exact h.update .rxwake nofun nofun false
  | ctrlExpire => exact h.update .ctrlwake nofun nofun false

theorem init_held (conf : Conf) : Held conf init := ⟨nofun, fun _ _ => rfl⟩

/-- **The wake lock is held while it is counted.**  No event lock is given back that shares the
source with locks in use: the source is active if a lock was counted when the locks were last
effective, and where it has a source of its own, only then. -/
theorem wake_lock_held (conf : Conf) (acts : List Act) (s : State) (tr : List (Act × Unit))
    (hrun : runs (step conf) init acts = some (s, tr))
    (hc : meets (step conf) (calm conf) init acts = true) :
    (0 < effective s → s.active (wifiSource conf) = true) ∧
      (conf.hasWakelock = true → (s.active .wifi = true ↔ 0 < effective s)) := by
  have hheld : Held conf s :=
    runs_inv_of_meets (step conf) (calm conf) (fun s _ => Held conf s)
      (fun _ _ _ _ _ hi hcalm hs => by
        cases hs
        exact hi.step hcalm)
      init s acts tr (init_held conf) hc hrun
  refine ⟨hheld.awake, fun hconf => ⟨fun hon => Nat.pos_of_ne_zero fun hz => ?_, fun hpos => ?_⟩⟩
  · exact absurd ((hheld.asleep hconf hz).symm.trans hon) nofun
  · have hsrc : wifiSource conf = .wifi := if_pos hconf
    exact hsrc ▸ hheld.awake hpos

/-- The device of an SDIO bus: one source for all locks. -/
def oneSource : Conf := ⟨false⟩

/-- A lock taken while locks are waived, and an event while none is counted -/
def waived : List Act := [.eventLock, .eventUnlock, .waive, .lock, .restore]

theorem wake_lock_held_waived :
    ∃ s tr, runs (step oneSource) init waived = some (s, tr) ∧ s.active .dev = true := by
  obtain ⟨⟨s, tr⟩, hrun, hs⟩ : ∃ r, runs (step oneSource) init waived = some r ∧
      decide (0 < effective r.1) = true := ⟨_, rfl, rfl⟩
  exact ⟨s, tr, hrun, (wake_lock_held oneSource waived s tr hrun (by decide +kernel)).1
    (of_decide_eq_true hs)⟩

/-- An event lock that is given back lets the device sleep while another lock is counted. -/
example : (runs (step oneSource) init [.lock, .eventLock, .eventUnlock]).map
    (fun r => (r.1.wakelockCounter, r.1.active .dev)) = some (1, false) := by
  decide +kernel

/-- The watchdog takes and gives back its lock only while locks are effective. -/
def wdEffective (s : State) (e : Act) : Bool :=
  (e = .wdLock ∨ e = .wdUnlock) → s.waiveWakelock = false

theorem evtSource_ne_wd (conf : Conf) : evtSource conf ≠ .wdwake := by
  unfold evtSource
  split <;> nofun

/-- Only the watchdog counts its lock, and only its own source stands for it. -/
theorem act_wd (hlock : e ≠ .wdLock) (hunlock : e ≠ .wdUnlock) :
    (act conf s e).wakelockWdCounter = s.wakelockWdCounter ∧
      (act conf s e).active .wdwake = s.active .wdwake := by
  have hwifi : Source.wdwake ≠ wifiSource conf := (@wifiSource_ne conf .wdwake nofun nofun).symm
  have hevt : Source.wdwake ≠ evtSource conf := (evtSource_ne_wd conf).symm
  have htimeout : (dhdOsWakeLockTimeout conf s).wakelockWdCounter = s.wakelockWdCounter ∧
      (dhdOsWakeLockTimeout conf s).active .wdwake = s.active .wdwake := by
    unfold dhdOsWakeLockTimeout
    dsimp only
    split <;> split <;> exact ⟨rfl, rfl⟩
  cases e with
  | wdLock => exact absurd rfl hlock
  | wdUnlock => exact absurd rfl hunlock
  | timeout => exact htimeout
  | eventLock => exact ⟨rfl, Function.update_of_ne hevt _ _⟩
  | eventUnlock => exact ⟨rfl, Function.update_of_ne hevt _ _⟩
  | rxExpire => exact ⟨rfl, rfl⟩
  | ctrlExpire => exact ⟨rfl, rfl⟩
  | unlock =>
    simp only [act, dhdOsWakeUnlock]
    generalize dhdOsWakeLockTimeout conf s = s' at htimeout ⊢
    rw [← htimeout.1, ← htimeout.2]
    split_ifs <;> simp [relax, Function.update_of_ne hwifi]
  | _ =>
    simp only [act, dhdOsWakeLock, dhdOsWakeLockRxTimeoutEnable, dhdOsWakeLockCtrlTimeoutEnable,
      dhdOsWakeLockCtrlTimeoutCancel, dhdOsWakeLockWaive, dhdOsWakeLockRestore]
    split_ifs <;> simp [stayAwake, relax, Function.update_of_ne hwifi]

/-- The source of the watchdog's lock says whether it is counted. -/
def WdHeld (s : State) : Prop := s.active .wdwake = decide (0 < s.wakelockWdCounter)

theorem WdHeld.lock (h : WdHeld s) (hconf : conf.hasWakelock = true)
    (hwaive : s.waiveWakelock = false) : WdHeld (dhdOsWdWakeLock conf s) := by
  unfold WdHeld at h ⊢
  unfold dhdOsWdWakeLock
  by_cases hfirst : s.wakelockWdCounter = 0
  · rw [if_pos ⟨hfirst, by rw [hwaive]; nofun, hconf⟩]
    simp [stayAwake]
  · rw [if_neg fun h => hfirst h.1]
    show s.active .wdwake = _
    rw [h]
    have hpos : 0 < s.wakelockWdCounter := Nat.pos_of_ne_zero hfirst
    simp [hpos]

theorem WdHeld.unlock (h : WdHeld s) (hconf : conf.hasWakelock = true)
    (hwaive : s.waiveWakelock = false) : WdHeld (dhdOsWdWakeUnlock conf s) := by
  unfold dhdOsWdWakeUnlock
  split
  · rw [if_pos ⟨by rw [hwaive]; nofun, hconf⟩]
    simp [WdHeld, relax]
  · exact h

/-- **The lock of the watchdog.**  It is taken and given back only while locks are effective: its
source is active just while it is counted. -/
theorem wd_lock_held (conf : Conf) (hconf : conf.hasWakelock = true) (acts : List Act) (s : State)
    (tr : List (Act × Unit)) (hrun : runs (step conf) init acts = some (s, tr))
    (hc : meets (step conf) wdEffective init acts = true) :
    s.active .wdwake = decide (0 < s.wakelockWdCounter) := by
  refine runs_inv_of_meets (step conf) wdEffective (fun s _ => WdHeld s) ?_
    init s acts tr rfl hc hrun
  rintro s - e s' ⟨⟩ hi heff hs
  cases hs
  by_cases hlock : e = .wdLock
  · subst hlock
    exact hi.lock hconf (by simpa [wdEffective] using heff)
  by_cases hunlock : e = .wdUnlock
  · subst hunlock
    exact hi.unlock hconf (by simpa [wdEffective] using heff)
  · obtain ⟨hcount, hsrc⟩ := @act_wd conf s e hlock hunlock
    unfold WdHeld
    rw [hcount, hsrc]
    exact hi

/-- Taken twice, with another lock taken while locks are waived. -/
def twoTicks : List Act := [.wdLock, .wdLock, .waive, .lock, .restore]

/-- One unlock gives both back. -/
theorem wd_lock_held_twoTicks :
    (∃ s tr, runs (step ⟨true⟩) init twoTicks = some (s, tr) ∧ s.wakelockWdCounter = 2 ∧
      s.active .wdwake = decide (0 < s.wakelockWdCounter)) ∧
    ∃ s tr, runs (step ⟨true⟩) init (twoTicks ++ [.wdUnlock]) = some (s, tr) ∧
      s.wakelockWdCounter = 0 ∧ s.active .wdwake = decide (0 < s.wakelockWdCounter) := by
  have hheld : (runs (step ⟨true⟩) init twoTicks).map (fun r => r.1.wakelockWdCounter) = some 2 := by
    decide +kernel
  have hgiven : (runs (step ⟨true⟩) init (twoTicks ++ [.wdUnlock])).map
      (fun r => r.1.wakelockWdCounter) = some 0 := by decide +kernel
  obtain ⟨⟨s, tr⟩, hs, hcount⟩ := Option.map_eq_some_iff.mp hheld
  obtain ⟨⟨t, tr'⟩, ht, hcount'⟩ := Option.map_eq_some_iff.mp hgiven
  exact ⟨⟨s, tr, hs, hcount, wd_lock_held ⟨true⟩ rfl _ s tr hs (by decide +kernel)⟩,
    t, tr', ht, hcount', wd_lock_held ⟨true⟩ rfl _ t tr' ht (by decide +kernel)⟩

/-- `dhd_os_wake_lock_restore` does not look at the lock of the watchdog. -/
example : (runs (step ⟨true⟩) init [.waive, .wdLock, .restore]).map
    (fun r => (r.1.wakelockWdCounter, r.1.active .wdwake)) = some (1, false) := by
  decide +kernel

/-! ## The counter -/

theorem counter_lock (conf : Conf) (s : State) :
    (dhdOsWakeLock conf s).wakelockCounter = s.wakelockCounter + 1 := by
  unfold dhdOsWakeLock
  dsimp only
  split <;> rfl

theorem counter_timeout (conf : Conf) (s : State) :
    (dhdOsWakeLockTimeout conf s).wakelockCounter = s.wakelockCounter := by
  unfold dhdOsWakeLockTimeout
  dsimp only
  split <;> split <;> rfl

theorem counter_unlock (conf : Conf) (s : State) :
    (dhdOsWakeUnlock conf s).wakelockCounter = s.wakelockCounter - 1 := by
  unfold dhdOsWakeUnlock
  rw [← counter_timeout conf s]
  dsimp only
  split
  · split <;> rfl
  · omega

theorem counter_other (conf : Conf) (s : State) (hlock : e ≠ .lock) (hunlock : e ≠ .unlock) :
    (act conf s e).wakelockCounter = s.wakelockCounter := by
  cases e with
  | lock => exact absurd rfl hlock
  | unlock => exact absurd rfl hunlock
  | timeout => exact counter_timeout conf s
  | eventLock => rfl
  | eventUnlock => rfl
  | rxExpire => rfl
  | ctrlExpire => rfl
  | _ =>
    simp only [act, dhdOsWakeLockRxTimeoutEnable, dhdOsWakeLockCtrlTimeoutEnable,
      dhdOsWakeLockCtrlTimeoutCancel, dhdOsWdWakeLock, dhdOsWdWakeUnlock, dhdOsWakeLockWaive,
      dhdOsWakeLockRestore, stayAwake, relax]
    split_ifs <;> rfl

end Bcmdhd.Linux.WakeLock
