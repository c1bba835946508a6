import Bcmdhd.Lib.Logged
import Mathlib.Algebra.GroupWithZero.Nat
import Mathlib.Data.List.Basic

/-!
# Events from the firmware (`bcmevent.c`, `wl_process_host_event`)

`is_wlc_event_frame`, and the three events whose data is looked at without a length, with every byte
of the frame and of the event's data in a log.  The build is the one of the buses with flow control
in the host (PROP_TXSTATUS, LIMIT_BORROW, WL_CFG80211, and no DNGL_EVENT_SUPPORT).  What the
handlers do with the bytes is left out.

    an accepted event has its header, `datalen` bytes and the pad, and nothing outside is read  ↔
      the length does not wrap, and the data is as long as its type needs   (event_read_inside_iff)

The frame is at `mem`, with whatever comes behind it.
-/

namespace Bcmdhd.EventFrame

/-! ## Accesses -/

/-- A byte of the frame, or one of the event's data. -/
inductive Access
  | frame (i : Nat)
  | data (i : Nat)
  deriving DecidableEq

abbrev Mem := Nat → UInt8

/-- `n` bytes at `i`, the first one highest. -/
def be (mem : Mem) (i : Nat) : Nat → Nat
  | 0 => 0
  | n + 1 => 0x100 * be mem i n + (mem (i + n)).toNat

def ETHER_HDR_LEN : Nat := 14
/-- Offsets in `bcm_event_t`. -/
def VERSION_OFFSET : Nat := 18
def OUI_OFFSET : Nat := 19
def USR_SUBTYPE_OFFSET : Nat := 22
def EVENT_OFFSET : Nat := 24
def DATALEN_OFFSET : Nat := 44
def SIZEOF_BCM_EVENT : Nat := 72

abbrev ntohAt (mem : Mem) (i n : Nat) : Logged Access Nat :=
  ⟨be mem i n, (List.range n).map fun k => .frame (i + k)⟩

/-- A field of the event's data. -/
abbrev dataAt (mem : Mem) (i n : Nat) : Logged Access Nat :=
  ⟨be mem (SIZEOF_BCM_EVENT + i) n, (List.range n).map fun k => .data (i + k)⟩

/-! ## Algorithm -/

def BCME_OK : Int := 0
def BCME_ERROR : Int := -1
def BCME_UNSUPPORTED : Int := -23
def BCME_BADLEN : Int := -24
def BCME_NOTFOUND : Int := -30

def SUBTYPE_VENDOR_LONG : Nat := 32769
/-- `BRCM_OUI`, as a number -/
def BRCM_OUI : Nat := 0x001018
def SUBTYPE_EVENT : Nat := 1
def SUBTYPE_DNGLEVENT : Nat := 5
def EVENT_DATA_PAD : Nat := 2

/-- How wide a `size_t` is. -/
inductive Arch
  | bits32 | bits64
  deriving DecidableEq

def Arch.sizeT : Arch → Nat
  | .bits32 => 0x100000000
  | .bits64 => 0x10000000000000000

/-- The error, and the event that is copied to `out_event`. -/
abbrev Checked := Int × Option Mem

/-- `!(short_subtype & 0x80)`, if there is a subtype -/
def isShort (mem : Mem) (pktlen : Nat) : Logged Access Bool :=
  if ETHER_HDR_LEN < pktlen then do
    let shortSubtype ← ntohAt mem ETHER_HDR_LEN 1
    pure (decide (shortSubtype / 0x80 % 2 = 0))
  else pure false

def evend (pktlen : Nat) : Nat := VERSION_OFFSET + (pktlen - VERSION_OFFSET) % 0x10000

/-- `sizeof(bcm_event_t) + data_len + BCMILCP_BCM_SUBTYPE_EVENT_DATA_PAD` -/
def eventSize (arch : Arch) (dataLen : Nat) : Nat :=
  (SIZEOF_BCM_EVENT + dataLen + EVENT_DATA_PAD) % arch.sizeT

/-- `memcpy_s` of the 48 bytes of the event. -/
def copyEvent (mem : Mem) : Logged Access Mem :=
  ⟨fun k => mem (EVENT_OFFSET + k), (List.range 48).map fun k => .frame (EVENT_OFFSET + k)⟩

/-- `case BCMILCP_BCM_SUBTYPE_EVENT` -/
def checkEvent (arch : Arch) (mem : Mem) (pktlen expUsrSubtype : Nat) (outEvent : Bool) :
    Logged Access Checked :=
  if pktlen < SIZEOF_BCM_EVENT ∨ evend pktlen < SIZEOF_BCM_EVENT then pure (BCME_BADLEN, none)
  else do
    let dataLen ← ntohAt mem DATALEN_OFFSET 4
    if eventSize arch dataLen ≠ pktlen then pure (BCME_BADLEN, none)
    else if expUsrSubtype ≠ 0 ∧ expUsrSubtype ≠ SUBTYPE_EVENT then pure (BCME_NOTFOUND, none)
    else if outEvent then do
      let event ← copyEvent mem
      pure (BCME_OK, some event)
    else pure (BCME_OK, none)

def isWlcEventFrame (arch : Arch) (mem : Mem) (pktlen expUsrSubtype : Nat) (outEvent : Bool) :
    Logged Access Checked := do
  let short ← isShort mem pktlen
  if short then pure (BCME_NOTFOUND, none)
  else if pktlen < EVENT_OFFSET then pure (BCME_BADLEN, none)
  else if evend pktlen ≠ pktlen then pure (BCME_BADLEN, none)
  else do
    let subtype ← ntohAt mem ETHER_HDR_LEN 2
    if subtype ≠ SUBTYPE_VENDOR_LONG then pure (BCME_NOTFOUND, none)
    else do
      let oui ← ntohAt mem OUI_OFFSET 3
      if oui ≠ BRCM_OUI then pure (BCME_NOTFOUND, none)
      else do
        let usrSubtype ← ntohAt mem USR_SUBTYPE_OFFSET 2
        if usrSubtype = SUBTYPE_EVENT then checkEvent arch mem pktlen expUsrSubtype outEvent
        else if usrSubtype = SUBTYPE_DNGLEVENT then pure (BCME_UNSUPPORTED, none)
        else pure (BCME_NOTFOUND, none)

/-! ## The handlers -/

def WLC_E_IF : Nat := 54
def WLC_E_FIFO_CREDIT_MAP : Nat := 74
def WLC_E_ALLOW_CREDIT_BORROW : Nat := 117

def IF_ADD : Nat := 1
def IF_DEL : Nat := 2
def IF_CHANGE : Nat := 3
def DHD_MAX_IFS : Nat := 16

/-- What the handlers get from elsewhere. -/
structure Env where
  arch : Arch
  /-- `WLFC_DBGMESG` prints -/
  dbgMesg : Bool
  /-- after `dhd_wlfc_enable`, there is flow control -/
  wlfc : Bool
  /-- `wl_cfg80211_notify_ifadd` and `_ifdel` return BCME_OK -/
  expected : Bool
  /-- `MALLOC` gives no memory -/
  noMem : Bool

/-- `WLFC_DBGMESG`; its arguments are evaluated if it prints. -/
def dbgMesg (env : Env) (args : Logged Access Unit) : Logged Access Unit :=
  if env.dbgMesg then args else pure ()

def readAll (mem : Mem) : List (Nat × Nat) → Logged Access Unit
  | [] => pure ()
  | (i, n) :: fields => do
    let _ ← dataAt mem i n
    readAll mem fields

/-- `dhd_wlfc_FIFOcreditmap_event` and the message behind it; each of the five credits is read for
`FIFO_credit` and for `Init_FIFO_credit`. -/
def fifoCreditmapEvent (env : Env) (mem : Mem) : Logged Access Unit := do
  if env.wlfc then
    readAll mem [(0, 1), (1, 1), (2, 1), (3, 1), (4, 1), (0, 1), (1, 1), (2, 1), (3, 1), (4, 1)]
  else pure ()
  dbgMesg env (readAll mem [(0, 1), (1, 1), (2, 1), (3, 1), (4, 1), (5, 1)])

/-- `dhd_wlfc_disable_credit_borrow_event` -/
def disableCreditBorrowEvent (mem : Mem) : Logged Access Unit := readAll mem [(0, 4)]

/-- `dhd_event_ifadd`: `ifidx`, `bssidx` and `role` for `wl_cfg80211_notify_ifadd`, and a copy. -/
def eventIfadd (env : Env) (mem : Mem) : Logged Access Int := do
  readAll mem [(0, 1), (3, 1), (4, 1)]
  if env.expected then pure BCME_OK
  else do
    let ifidx ← dataAt mem 0 1
    if ifidx = 0 then pure BCME_OK
    else if env.noMem then pure BCME_ERROR
    else do
      readAll mem [(0, 5)]
      pure BCME_OK

/-- `dhd_event_ifdel` -/
def eventIfdel (env : Env) (mem : Mem) : Logged Access Unit := do
  readAll mem [(0, 1), (3, 1)]
  if env.expected ∨ env.noMem then pure () else readAll mem [(0, 5)]

/-- `dhd_event_ifchange` -/
def eventIfchange (mem : Mem) : Logged Access Unit := readAll mem [(0, 1), (3, 1)]

/-- What follows for another interface than the first. -/
def eventIfidx (env : Env) (mem : Mem) (ifidx : Nat) : Logged Access Int :=
  if ifidx < DHD_MAX_IFS then do
    let opcode ← dataAt mem 1 1
    if opcode = IF_ADD then do
      let ret ← eventIfadd env mem
      if ret ≠ BCME_OK then do
        readAll mem [(0, 1)]
        pure BCME_ERROR
      else pure BCME_OK
    else if opcode = IF_DEL then do
      eventIfdel env mem
      pure BCME_OK
    else if opcode = IF_CHANGE then do
      eventIfchange mem
      pure BCME_OK
    else pure BCME_OK
  else pure BCME_OK

/-- `case WLC_E_IF`, with the arguments of `dhd_wlfc_interface_event`. -/
def ifEvent (env : Env) (mem : Mem) : Logged Access Int := do
  let flags ← dataAt mem 2 1
  -- Ignore the event if NOIF is set
  if flags % 2 = 1 then pure BCME_UNSUPPORTED
  else do
    dbgMesg env (readAll mem [(0, 1), (1, 1), (4, 1)])
    readAll mem [(1, 1), (0, 1), (4, 1)]
    let ifidx ← dataAt mem 0 1
    if ifidx = 0 then pure BCME_OK else eventIfidx env mem ifidx

def handleEvent (env : Env) (mem : Mem) (type : Nat) : Logged Access Int :=
  if type = WLC_E_FIFO_CREDIT_MAP then do
    fifoCreditmapEvent env mem
    pure BCME_OK
  else if type = WLC_E_ALLOW_CREDIT_BORROW then do
    disableCreditBorrowEvent mem
    pure BCME_OK
  else if type = WLC_E_IF then ifEvent env mem
  else pure BCME_OK

def wlProcessHostEvent (env : Env) (mem : Mem) (pktlen : Nat) : Logged Access Int := do
  let checked ← isWlcEventFrame env.arch mem pktlen 0 true
  if checked.1 ≠ BCME_OK then pure checked.1
  else do
    let usrSubtype ← ntohAt mem USR_SUBTYPE_OFFSET 2
    if usrSubtype = SUBTYPE_EVENT then
      match checked.2 with
      | none => pure BCME_NOTFOUND
      | some event => handleEvent env mem (be event 4 4)
    else pure BCME_NOTFOUND

/-! ## Conditions -/

def Access.Inside (pktlen datalen : Nat) : Access → Prop
  | .frame i => i < pktlen
  | .data i => i < datalen

def datalen (mem : Mem) : Nat := be mem DATALEN_OFFSET 4

def eventType (mem : Mem) : Nat := be mem (EVENT_OFFSET + 4) 4

/-- What is accepted has exactly the bytes it says, and no others are read. -/
def ReadInside (env : Env) (mem : Mem) (pktlen : Nat) : Prop :=
  ((isWlcEventFrame env.arch mem pktlen 0 true).val.1 = BCME_OK →
    SIZEOF_BCM_EVENT + datalen mem + EVENT_DATA_PAD = pktlen) ∧
  (wlProcessHostEvent env mem pktlen).All (Access.Inside pktlen (datalen mem))

/-- The frames that the check lets through. -/
structure IsEvent (arch : Arch) (mem : Mem) (pktlen : Nat) : Prop where
  hdr : SIZEOF_BCM_EVENT ≤ pktlen
  short : pktlen - VERSION_OFFSET < 0x10000
  subtype : be mem ETHER_HDR_LEN 2 = SUBTYPE_VENDOR_LONG
  oui : be mem OUI_OFFSET 3 = BRCM_OUI
  usrSubtype : be mem USR_SUBTYPE_OFFSET 2 = SUBTYPE_EVENT
  size : eventSize arch (datalen mem) = pktlen

/-- The event's data is as long as the handler of its type takes it to be. -/
structure LongEnough (env : Env) (mem : Mem) (type datalen : Nat) : Prop where
  creditMap : type = WLC_E_FIFO_CREDIT_MAP →
    (env.wlfc = true → 5 ≤ datalen) ∧ (env.dbgMesg = true → 6 ≤ datalen)
  creditBorrow : type = WLC_E_ALLOW_CREDIT_BORROW → 4 ≤ datalen
  ifData : type = WLC_E_IF → 3 ≤ datalen ∧ (be mem (SIZEOF_BCM_EVENT + 2) 1 % 2 ≠ 1 → 5 ≤ datalen)

/-! ## Reads -/

section
variable {mem : Mem} {p d i n : Nat} {env : Env}

theorem be_lt (mem : Mem) (i n : Nat) : be mem i n < 0x100 ^ n := by
  induction n with
  | zero => exact Nat.one_pos
  | succ n ih =>
    have hb := (mem (i + n)).toNat_lt
    unfold be
    rw [Nat.pow_succ]
    omega

theorem all_span (at' : Nat → Access) {e : Nat} (h : ∀ k, (at' k).Inside p d ↔ k < e) (i n : Nat) :
    (∀ a ∈ (List.range n).map fun k => at' (i + k), a.Inside p d) ↔ n = 0 ∨ i + n ≤ e := by
  simp only [List.forall_mem_map, List.mem_range, h]
  constructor
  · intro hall
    by_cases hn : n = 0
    · exact .inl hn
    · have hlast := hall (n - 1) (by omega)
      omega
  · intro hle k hk
    omega

@[simp] theorem all_ntohAt :
    (ntohAt mem i n).All (Access.Inside p d) ↔ n = 0 ∨ i + n ≤ p :=
  all_span .frame (fun _ => Iff.rfl) i n

@[simp] theorem all_dataAt :
    (dataAt mem i n).All (Access.Inside p d) ↔ n = 0 ∨ i + n ≤ d :=
  all_span .data (fun _ => Iff.rfl) i n

@[simp] theorem all_copyEvent :
    (copyEvent mem).All (Access.Inside p d) ↔ EVENT_OFFSET + 48 ≤ p :=
  (all_span .frame (fun _ => Iff.rfl) EVENT_OFFSET 48).trans (or_iff_right (by decide))

@[simp] theorem all_readAll (fields : List (Nat × Nat)) :
    (readAll mem fields).All (Access.Inside p d) ↔ ∀ f ∈ fields, f.2 = 0 ∨ f.1 + f.2 ≤ d := by
  induction fields with
  | nil => simp [readAll]
  | cons f fields ih =>
    unfold readAll
    rw [Logged.all_bind, all_dataAt, ih, List.forall_mem_cons]

@[simp] theorem all_dbgMesg {args : Logged Access Unit} :
    (dbgMesg env args).All (Access.Inside p d) ↔
      (env.dbgMesg = true → args.All (Access.Inside p d)) := by
  unfold dbgMesg
  simp

theorem evend_eq_iff (h : VERSION_OFFSET ≤ p) : evend p = p ↔ p - VERSION_OFFSET < 0x10000 := by
  unfold evend
  omega

end

/-! ## The check -/

section
variable {mem : Mem} {pktlen d : Nat} {arch : Arch}

theorem all_isShort : (isShort mem pktlen).All (Access.Inside pktlen d) := by
  unfold isShort
  simp only [Logged.all_ite, Logged.all_bind, all_ntohAt, Logged.all_pure, and_true, implies_true]
  intro h
  exact .inr h

theorem all_checkEvent : (checkEvent arch mem pktlen 0 true).All (Access.Inside pktlen d) := by
  unfold checkEvent
  simp only [Logged.all_ite, Logged.all_bind, all_ntohAt, Logged.all_pure, all_copyEvent]
  refine ⟨fun _ => trivial, ?_⟩
  intro hlen
  have hD : DATALEN_OFFSET = 44 := rfl
  have hE : EVENT_OFFSET = 24 := rfl
  have hS : SIZEOF_BCM_EVENT = 72 := rfl
  refine ⟨.inr (by omega), fun _ => trivial, fun _ => ⟨fun _ => trivial, fun _ => ⟨?_, ?_⟩⟩⟩
  · exact fun _ => ⟨by omega, trivial⟩
  · exact fun _ => trivial

theorem all_isWlcEventFrame :
    (isWlcEventFrame arch mem pktlen 0 true).All (Access.Inside pktlen d) := by
  unfold isWlcEventFrame
  simp only [Logged.all_ite, Logged.all_bind, all_ntohAt, Logged.all_pure, all_isShort,
    all_checkEvent]
  simp only [implies_true, true_and, and_true]
  intro _ hlen _
  have hE : EVENT_OFFSET = 24 := rfl
  have hH : ETHER_HDR_LEN = 14 := rfl
  have hO : OUI_OFFSET = 19 := rfl
  have hU : USR_SUBTYPE_OFFSET = 22 := rfl
  exact ⟨.inr (by omega), fun _ => ⟨.inr (by omega), fun _ => .inr (by omega)⟩⟩

theorem isShort_eq_false (h : be mem ETHER_HDR_LEN 2 = SUBTYPE_VENDOR_LONG) :
    (isShort mem pktlen).val = false := by
  have hb := (mem (ETHER_HDR_LEN + 1)).toNat_lt
  have hbyte : be mem ETHER_HDR_LEN 2 =
      0x100 * be mem ETHER_HDR_LEN 1 + (mem (ETHER_HDR_LEN + 1)).toNat := rfl
  unfold isShort
  rw [Logged.val_ite]
  split
  · show decide (be mem ETHER_HDR_LEN 1 / 0x80 % 2 = 0) = false
    unfold SUBTYPE_VENDOR_LONG at h
    rw [decide_eq_false_iff_not]
    omega
  · rfl

/-- What the check lets through is copied. -/
theorem val_of_isEvent (h : IsEvent arch mem pktlen) :
    (isWlcEventFrame arch mem pktlen 0 true).val =
      (BCME_OK, some fun k => mem (EVENT_OFFSET + k)) := by
  have hlen := h.hdr
  have hE : EVENT_OFFSET = 24 := rfl
  have hV : VERSION_OFFSET = 18 := rfl
  have hS : SIZEOF_BCM_EVENT = 72 := rfl
  have hend := (evend_eq_iff (by omega)).2 h.short
  have hsize : eventSize arch (be mem DATALEN_OFFSET 4) = pktlen := h.size
  have hcheck : (checkEvent arch mem pktlen 0 true).val =
      (BCME_OK, some fun k => mem (EVENT_OFFSET + k)) := by
    unfold checkEvent
    simp only [Logged.val_ite, Logged.val_bind, Logged.val_pure]
    rw [if_neg (by omega), if_neg (not_not_intro hsize), if_neg (by simp), if_pos trivial]
    rfl
  unfold isWlcEventFrame
  simp only [Logged.val_ite, Logged.val_bind, Logged.val_pure]
  rw [isShort_eq_false h.subtype, if_neg Bool.false_ne_true, if_neg (by omega),
    if_neg (not_not_intro hend), if_neg (not_not_intro h.subtype), if_neg (not_not_intro h.oui),
    if_pos h.usrSubtype, hcheck]

/-- A check that was passed, where it fails with an error. -/
theorem passed {c : Prop} [Decidable c] {β : Type} {x y : Int × β}
    (h : (if c then x else y).1 = BCME_OK) (hx : x.1 ≠ BCME_OK) : ¬c ∧ y.1 = BCME_OK := by
  by_cases hc : c
  · rw [if_pos hc] at h
    exact absurd h hx
  · rw [if_neg hc] at h
    exact ⟨hc, h⟩

theorem isEvent_of_ok (h : (isWlcEventFrame arch mem pktlen 0 true).val.1 = BCME_OK) :
    IsEvent arch mem pktlen := by
  have hE : EVENT_OFFSET = 24 := rfl
  have hV : VERSION_OFFSET = 18 := rfl
  unfold isWlcEventFrame checkEvent at h
  simp only [Logged.val_ite, Logged.val_bind, Logged.val_pure] at h
  obtain ⟨-, h⟩ := passed h (by decide)
  obtain ⟨hshort, h⟩ := passed h (by decide)
  obtain ⟨hend, h⟩ := passed h (by decide)
  obtain ⟨hsub, h⟩ := passed h (by decide)
  obtain ⟨houi, h⟩ := passed h (by decide)
  by_cases husr : be mem USR_SUBTYPE_OFFSET 2 = SUBTYPE_EVENT
  · rw [if_pos husr] at h
    obtain ⟨hhdr, h⟩ := passed h (by decide)
    obtain ⟨hsize, -⟩ := passed h (by decide)
    refine ⟨by omega, ?_, not_not.1 hsub, not_not.1 houi, husr, not_not.1 hsize⟩
    exact (evend_eq_iff (by omega)).1 (not_not.1 hend)
  · rw [if_neg husr] at h
    obtain ⟨-, h⟩ := passed h (by decide)
    exact absurd h (by decide)

end

/-! ## The handlers' reads -/

section
variable {mem : Mem} {p d ifidx type : Nat} {env : Env}

/-- Fields of which the last one ends at `e`. -/
theorem all_readAll_iff {fields : List (Nat × Nat)} {e : Nat} (hall : ∀ f ∈ fields, f.1 + f.2 ≤ e)
    (hlast : ∃ f ∈ fields, f.2 ≠ 0 ∧ f.1 + f.2 = e) :
    (readAll mem fields).All (Access.Inside p d) ↔ e ≤ d := by
  rw [all_readAll]
  constructor
  · intro h
    obtain ⟨f, hf, hne, heq⟩ := hlast
    rw [← heq]
    exact (h f hf).resolve_left hne
  · intro hle f hf
    exact .inr (Nat.le_trans (hall f hf) hle)

theorem all_fifoCreditmapEvent : (fifoCreditmapEvent env mem).All (Access.Inside p d) ↔
    (env.wlfc = true → 5 ≤ d) ∧ (env.dbgMesg = true → 6 ≤ d) := by
  have hcredits : (readAll mem [(0, 1), (1, 1), (2, 1), (3, 1), (4, 1), (0, 1), (1, 1), (2, 1),
      (3, 1), (4, 1)]).All (Access.Inside p d) ↔ 5 ≤ d := all_readAll_iff (by decide) (by decide)
  have hmesg : (readAll mem [(0, 1), (1, 1), (2, 1), (3, 1), (4, 1), (5, 1)]).All
      (Access.Inside p d) ↔ 6 ≤ d := all_readAll_iff (by decide) (by decide)
  unfold fifoCreditmapEvent
  cases hw : env.wlfc with
  | false => simp [hmesg]
  | true => simp [hmesg, hcredits]

/-! Nothing behind the five bytes of `struct wl_event_data_if` is read. -/

theorem all_readAll_of_le (mem : Mem) (p : Nat) {fields : List (Nat × Nat)} (hd : 5 ≤ d)
    (hall : ∀ f ∈ fields, f.1 + f.2 ≤ 5) : (readAll mem fields).All (Access.Inside p d) := by
  rw [all_readAll]
  intro f hf
  exact .inr (Nat.le_trans (hall f hf) hd)

theorem all_eventIfadd (hd : 5 ≤ d) : (eventIfadd env mem).All (Access.Inside p d) := by
  have hargs := all_readAll_of_le mem p hd
    (show ∀ f ∈ [(0, 1), (3, 1), (4, 1)], f.1 + f.2 ≤ 5 by decide)
  have hcopy := all_readAll_of_le mem p hd
    (show ∀ f ∈ [(0, 5)], f.1 + f.2 ≤ 5 by decide)
  unfold eventIfadd
  simp only [Logged.all_bind, Logged.all_ite, Logged.all_pure, all_dataAt, hargs, hcopy]
  simp only [implies_true, true_and, and_true]
  exact fun _ => .inr (by omega)

theorem all_eventIfdel (hd : 5 ≤ d) : (eventIfdel env mem).All (Access.Inside p d) := by
  have hargs := all_readAll_of_le mem p hd
    (show ∀ f ∈ [(0, 1), (3, 1)], f.1 + f.2 ≤ 5 by decide)
  have hcopy := all_readAll_of_le mem p hd
    (show ∀ f ∈ [(0, 5)], f.1 + f.2 ≤ 5 by decide)
  unfold eventIfdel
  simp only [Logged.all_bind, Logged.all_ite, Logged.all_pure, hargs, hcopy, implies_true, and_true]

theorem all_eventIfchange (hd : 5 ≤ d) : (eventIfchange mem).All (Access.Inside p d) :=
  all_readAll_of_le mem p hd (by decide)

theorem all_eventIfidx (hd : 5 ≤ d) : (eventIfidx env mem ifidx).All (Access.Inside p d) := by
  have hidx := all_readAll_of_le mem p hd
    (show ∀ f ∈ [(0, 1)], f.1 + f.2 ≤ 5 by decide)
  unfold eventIfidx
  simp only [Logged.all_bind, Logged.all_ite, Logged.all_pure, all_dataAt, hidx, all_eventIfadd hd,
    all_eventIfdel hd, all_eventIfchange hd]
  simp only [implies_true, and_true]
  exact fun _ => .inr (by omega)

theorem all_ifEvent : (ifEvent env mem).All (Access.Inside p d) ↔
    3 ≤ d ∧ (be mem (SIZEOF_BCM_EVENT + 2) 1 % 2 ≠ 1 → 5 ≤ d) := by
  have hargs : (readAll mem [(1, 1), (0, 1), (4, 1)]).All (Access.Inside p d) ↔ 5 ≤ d :=
    all_readAll_iff (by decide) (by decide)
  have hmesg : (readAll mem [(0, 1), (1, 1), (4, 1)]).All (Access.Inside p d) ↔ 5 ≤ d :=
    all_readAll_iff (by decide) (by decide)
  unfold ifEvent
  simp only [Logged.all_bind, Logged.all_ite, Logged.all_pure, all_dataAt, all_dbgMesg, hargs,
    hmesg]
  constructor
  · rintro ⟨hflags, -, hrest⟩
    exact ⟨by omega, fun h => (hrest h).2.1⟩
  · rintro ⟨hflags, hrest⟩
    refine ⟨.inr hflags, fun _ => trivial, fun h => ?_⟩
    have hd := hrest h
    exact ⟨fun _ => hd, hd, .inr (by omega), fun _ => trivial, fun _ => all_eventIfidx hd⟩

theorem all_handleEvent : (handleEvent env mem type).All (Access.Inside p d) ↔
    LongEnough env mem type d := by
  have hborrow : (disableCreditBorrowEvent mem).All (Access.Inside p d) ↔ 4 ≤ d :=
    all_readAll_iff (by decide) (by decide)
  unfold handleEvent
  simp only [Logged.all_ite, Logged.all_bind, Logged.all_pure, all_fifoCreditmapEvent, hborrow,
    all_ifEvent, and_true, implies_true]
  constructor
  · rintro ⟨hmap, hother⟩
    refine ⟨hmap, ?_, ?_⟩
    · intro ht
      subst ht
      exact (hother (by decide)).1 rfl
    · intro ht
      subst ht
      exact (hother (by decide)).2 (by decide) rfl
  · intro h
    exact ⟨h.creditMap, fun _ => ⟨h.creditBorrow, fun _ => h.ifData⟩⟩

end

/-! ## The frame -/

section
variable {mem : Mem} {pktlen : Nat} {env : Env}

theorem all_wlProcessHostEvent : (wlProcessHostEvent env mem pktlen).All
    (Access.Inside pktlen (datalen mem)) ↔
      (IsEvent env.arch mem pktlen → LongEnough env mem (eventType mem) (datalen mem)) := by
  unfold wlProcessHostEvent
  rw [Logged.all_bind, and_iff_right all_isWlcEventFrame, Logged.all_ite]
  by_cases h : IsEvent env.arch mem pktlen
  · have hlen := h.hdr
    have hU : USR_SUBTYPE_OFFSET = 22 := rfl
    have hS : SIZEOF_BCM_EVENT = 72 := rfl
    rw [val_of_isEvent h, Logged.all_bind, all_ntohAt, Logged.all_ite]
    simp only [h.usrSubtype, forall_const, Logged.all_pure]
    have htype : be (fun k => mem (EVENT_OFFSET + k)) 4 4 = eventType mem := rfl
    rw [htype, all_handleEvent]
    constructor
    · rintro ⟨-, hrest⟩ -
      exact (hrest (by simp)).2.1
    · intro hlong
      exact ⟨fun _ => trivial, fun _ => ⟨.inr (by omega), hlong h, fun _ => trivial⟩⟩
  · have hno : ¬(isWlcEventFrame env.arch mem pktlen 0 true).val.1 = BCME_OK :=
      fun hok => h (isEvent_of_ok hok)
    simp [hno, h]

theorem exact_iff (h : IsEvent env.arch mem pktlen) :
    SIZEOF_BCM_EVENT + datalen mem + EVENT_DATA_PAD = pktlen ↔
      ¬(env.arch = .bits32 ∧ 0xFFFFFFFE ≤ datalen mem) := by
  have hlt : datalen mem < 0x100000000 := be_lt mem DATALEN_OFFSET 4
  have hlen := h.hdr
  have hsize := h.size
  unfold eventSize SIZEOF_BCM_EVENT EVENT_DATA_PAD at *
  cases harch : env.arch with
  | bits32 =>
    have hwidth : Arch.bits32.sizeT = 0x100000000 := rfl
    rw [harch, hwidth] at hsize
    simp only [true_and]
    omega
  | bits64 =>
    have hwidth : Arch.bits64.sizeT = 0x10000000000000000 := rfl
    rw [harch, hwidth] at hsize
    simp only [reduceCtorEq, false_and, not_false_eq_true, iff_true]
    omega

/-- **The events are read inside their frames exactly when their data is as long as they need.** -/
theorem event_read_inside_iff (env : Env) (mem : Mem) (pktlen : Nat) :
    ReadInside env mem pktlen ↔
      (IsEvent env.arch mem pktlen → ¬(env.arch = .bits32 ∧ 0xFFFFFFFE ≤ datalen mem) ∧
        LongEnough env mem (eventType mem) (datalen mem)) := by
  unfold ReadInside
  rw [all_wlProcessHostEvent]
  constructor
  · rintro ⟨hexact, hlong⟩ h
    refine ⟨(exact_iff h).1 (hexact ?_), hlong h⟩
    rw [val_of_isEvent h]
  · intro hall
    refine ⟨?_, fun h => (hall h).2⟩
    intro hok
    have h := isEvent_of_ok hok
    exact (exact_iff h).2 (hall h).1

/-- The bytes of a list, and zeros behind them. -/
def memOf (bytes : List UInt8) : Mem := fun i => bytes.getD i 0

/-- WLC_E_FIFO_CREDIT_MAP, WLC_E_ALLOW_CREDIT_BORROW or WLC_E_IF without data. -/
def emptyEvent (type : UInt8) : Mem :=
  memOf ([0, 0, 0, 0, 0, 0, 0, 0, 0, 0, 0, 0, 0x88, 0x6c, 0x80, 1, 0, 0, 0, 0, 0x10, 0x18, 0, 1] ++
    [0, 2, 0, 0, 0, 0, 0, type])

def exampleEnv : Env := ⟨.bits64, false, true, true, false⟩

theorem not_readInside {i : Nat} (hlog : .data i ∈ (wlProcessHostEvent env mem pktlen).log)
    (hlen : datalen mem ≤ i) : ¬ReadInside env mem pktlen := by
  rintro ⟨-, hall⟩
  have hin : i < datalen mem := hall (.data i) hlog
  omega

/-- No data, and the first bytes behind the event are read; and a length of 2^32 - 2, which makes 72
bytes a whole event where a `size_t` has 32 bits. -/
theorem event_not_read_inside :
    ¬ReadInside exampleEnv (emptyEvent 74) 74 ∧ ¬ReadInside exampleEnv (emptyEvent 117) 74 ∧
    ¬ReadInside exampleEnv (emptyEvent 54) 74 ∧
    ¬ReadInside { exampleEnv with arch := .bits32 }
      (fun i => if i = 47 then 0xFE else if 44 ≤ i ∧ i < 47 then 0xFF else emptyEvent 0 i) 72 := by
  refine ⟨?_, ?_, ?_, ?_⟩
  · exact not_readInside (i := 0) (by decide +kernel) (by decide +kernel)
  · exact not_readInside (i := 0) (by decide +kernel) (by decide +kernel)
  · exact not_readInside (i := 2) (by decide +kernel) (by decide +kernel)
  · rintro ⟨hexact, -⟩
    exact absurd (hexact (by decide +kernel)) (by decide +kernel)

end

end Bcmdhd.EventFrame
