import Bcmdhd.EventLog.Parse

/-!
# Roam logs (`print_roam_enhanced_log`)

The words of a roam record are a structure, which its id and its version name.  Each structure has a
printer, that reads it however many words there are.

    the printer reads nothing behind the words  ↔  RoamFits on mem log count     (print_roam_within)

Offsets are from the first word, at `log`; `on` says that `DHD_ERROR_ROAM` prints.  The build is one
without WL_CFGVENDOR_CUST_ADVLOG.
-/

namespace Bcmdhd.EventLog.RoamLog

open Records

/-! ## Structures -/

/-- A field of a structure, of one byte at least. -/
structure Field where
  off : Nat
  width : Nat
  pos : 0 < width

theorem u32_pos : 0 < 4 := Nat.succ_pos 3

theorem ether_pos : 0 < 6 := Nat.succ_pos 5

def u8 (off : Nat) : Field := ⟨off, 1, Nat.one_pos⟩
def u16 (off : Nat) : Field := ⟨off, 2, Nat.two_pos⟩
def u32 (off : Nat) : Field := ⟨off, 4, u32_pos⟩
/-- `struct ether_addr` -/
def ether (off : Nat) : Field := ⟨off, 6, ether_pos⟩

namespace PrsvPeriodicLogHdr
def version : Field := u8 0
def id : Field := u8 1
def length : Field := u16 2
end PrsvPeriodicLogHdr

/- Of `v1` and `v2` -/
namespace RoamLogTrig
def rssi : Field := u8 4
def currentCu : Field := u8 5
def fullScan : Field := u8 6
def reason : Field := u32 8
def result : Field := u32 12
def rcvdReason : Field := u32 16
def rssiThreshold : Field := u32 16
def reqMode : Field := u8 16
def token : Field := u8 17
def nbrlistSize : Field := u16 18
def disassocDur : Field := u32 20
def validityDur : Field := u32 24
def bssTermDur : Field := u32 28
end RoamLogTrig

/- The structure is at `off`. -/
namespace RoamScanApInfo
def rssi (off : Nat) : Field := u8 off
def cu (off : Nat) : Field := u8 (off + 1)
def cuAvail (off : Nat) : Field := u8 (off + 2)
def score (off : Nat) : Field := u32 (off + 4)
def chanspec (off : Nat) : Field := u16 (off + 8)
def addr (off : Nat) : Field := ether (off + 10)
def estmTput (off : Nat) : Field := u32 (off + 16)
end RoamScanApInfo

namespace RoamLogScanCmpltV1
def fullScan : Field := u8 4
def scanCount : Field := u8 5
def scanListSize : Field := u8 6
def scoreDelta : Field := u32 8
def curInfo : Nat := 12
def scanList (i : Nat) : Nat := 32 + 20 * i
end RoamLogScanCmpltV1

namespace RoamLogScanCmpltV2
def scanCount : Field := u8 4
def scanListSize : Field := u8 5
def chanNum : Field := u8 6
def band2gChanList : Field := u16 8
def uni2aChanList : Field := u16 10
def uni2cChanList (i : Nat) : Field := u8 (12 + i)
def uni3ChanList : Field := u8 15
def scoreDelta : Field := u32 16
def curInfo : Nat := 20
def scanList (i : Nat) : Nat := 40 + 20 * i
end RoamLogScanCmpltV2

namespace RoamLogCmplt
def status : Field := u32 4
def reason : Field := u32 8
def chanspec : Field := u16 12
def addr : Field := ether 14
def retry : Field := u8 23
end RoamLogCmplt

namespace RoamLogNbrrep
def channelNum : Field := u32 4
def band2gChanList : Field := u16 8
def uni2aChanList : Field := u16 10
def uni2cChanList (i : Nat) : Field := u8 (12 + i)
def uni3ChanList : Field := u8 15
end RoamLogNbrrep

namespace RoamLogNbrreq
def token : Field := u32 4
end RoamLogNbrreq

/- Of `v1` and `v3` -/
namespace RoamLogBcnrptReq
def result : Field := u32 4
def reg : Field := u8 8
def channel : Field := u8 9
def mode : Field := u8 10
def bssidWild : Field := u8 11
def ssidLen : Field := u8 12
def duration : Field := u16 14
def channelNum : Field := u32 48
def band2gChanList : Field := u16 52
def uni2aChanList : Field := u16 54
def uni2cChanList (i : Nat) : Field := u8 (56 + i)
def uni3ChanList : Field := u8 59
end RoamLogBcnrptReq

namespace RoamLogBcnrptRepV1
def count : Field := u32 4
end RoamLogBcnrptRepV1

/- Of `v2` and `v3` -/
namespace RoamLogBcnrptRep
def scanStatus : Field := u8 4
def reason : Field := u8 5
def reasonDetail : Field := u16 6
def count : Field := u32 8
def duration : Field := u16 12
end RoamLogBcnrptRep

/- Of `v2` and `v3`; the result is at the end. -/
namespace RoamLogBtmRep
def reqMode : Field := u8 4
def status : Field := u8 5
def resultV2 : Field := u32 12
def targetAddr : Field := ether 10
def result : Field := u32 16
end RoamLogBtmRep

namespace RoamLog6gNovlp
def bssid : Field := ether 4
def chanspec : Field := u16 10
end RoamLog6gNovlp

namespace RoamLogWtcBtmrep
def wtcType : Field := u8 4
def ieLength : Field := u8 5
def wtcVer : Field := u8 6
def reqMode : Field := u8 8
def scantype : Field := u8 9
def rssithresh (band : Nat) : Field := u8 (10 + band)
def apRssithresh (band : Nat) : Field := u8 (13 + band)
def reqRsnCode : Field := u8 16
def subcode : Field := u8 17
def duration : Field := u8 18
def reqStatus : Field := u8 19
def respRsnCode : Field := u8 8
def respStatus : Field := u8 9
end RoamLogWtcBtmrep

namespace RoamLogBtmQuery
def token : Field := u8 4
def reason : Field := u8 5
end RoamLogBtmQuery

namespace RoamLogBtmResp
def reqMode : Field := u8 4
def status : Field := u8 5
def token : Field := u8 6
def termDelay : Field := u8 7
def targetAddr : Field := ether 8
def result : Field := u32 16
end RoamLogBtmResp

namespace RoamLogBtmReq
def reqMode : Field := u8 4
def token : Field := u8 5
def nbrlistSize : Field := u16 6
def disassocDur : Field := u32 8
def validityDur : Field := u32 12
def bssTermDur : Field := u32 16
def bssid (i : Nat) : Field := ether (20 + 8 * i)
def preference (i : Nat) : Field := u8 (26 + 8 * i)
end RoamLogBtmReq

/-! ## Algorithm -/

def WLC_E_REASON_LOW_RSSI : Nat := 1
def WLC_E_REASON_DEAUTH : Nat := 2
def WLC_E_REASON_DISASSOC : Nat := 3
def WLC_E_REASON_BSSTRANS_REQ : Nat := 11
def BCNRPT_RSN_SCAN_FAIL : Nat := 3
def WTC_BTMREQ : Nat := 0
def WTC_BTMRESP : Nat := 1
def WTC_BAND_2G : Nat := 0
def WTC_BAND_5G : Nat := 1
def WTC_BAND_6G : Nat := 2
def ROAM_NBR_RPT_LIST_SIZE : Nat := 4
def EL_LOG_STR_LEN : Nat := 512

abbrev Printer := Bool → Mem → Nat → Logged Nat Unit

def get (mem : Mem) (log : Nat) (f : Field) : Logged Nat Nat := readLe mem (log + f.off) f.width

def readFields (log : Nat) (fs : List Field) : Logged Nat Unit :=
  ⟨(), fs.flatMap fun f => (List.range f.width).map (log + f.off + ·)⟩

/-- `DHD_ERROR_ROAM`: the fields are read if it prints. -/
def roamError (on : Bool) (log : Nat) (fs : List Field) : Logged Nat Unit :=
  if on then readFields log fs else pure ()

/-- A printer that only prints. -/
def printFields (fs : List Field) : Printer := fun on _ log => roamError on log fs

def forEach : Nat → (Nat → Logged Nat Unit) → Logged Nat Unit
  | 0, _ => pure ()
  | k + 1, body => do
    forEach k body
    body k

open PrsvPeriodicLogHdr (version)

section
open RoamLogTrig

def prRoamScanStartV1 : Printer := fun on mem log => do
  roamError on log [version, reason, rssi, currentCu, result]
  let r ← get mem log reason
  if r = WLC_E_REASON_DEAUTH ∨ r = WLC_E_REASON_DISASSOC then roamError on log [rcvdReason]
  else if r = WLC_E_REASON_BSSTRANS_REQ then
    roamError on log [reqMode, nbrlistSize, token, disassocDur, validityDur, bssTermDur]

def prRoamScanStartV2 : Printer := fun on mem log => do
  roamError on log [version, reason, rssi, currentCu, result]
  roamError (on ∧ load mem (log + result.off) result.width = 0) log [fullScan]
  let r ← get mem log reason
  if r = WLC_E_REASON_DEAUTH ∨ r = WLC_E_REASON_DISASSOC then roamError on log [rcvdReason]
  else if r = WLC_E_REASON_LOW_RSSI then roamError on log [rssiThreshold]

end

section
open RoamScanApInfo

/-- An access point, in a message. -/
def apInfo (off : Nat) : List Field := [addr off, rssi off, score off, chanspec off]

def prRoamScanCmplV1 : Printer := fun on mem log => do
  roamError on log [version, RoamLogScanCmpltV1.fullScan, RoamLogScanCmpltV1.scanCount,
    RoamLogScanCmpltV1.scoreDelta]
  roamError on log (apInfo RoamLogScanCmpltV1.curInfo)
  let size ← get mem log RoamLogScanCmpltV1.scanListSize
  forEach size fun i =>
    let off := RoamLogScanCmpltV1.scanList i
    roamError on log (apInfo off ++ [estmTput off])

open RoamLogScanCmpltV2 in
def prRoamScanCmplV2 : Printer := fun on mem log => do
  roamError on log [version, scanCount, scoreDelta]
  roamError on log (apInfo curInfo)
  let size ← get mem log scanListSize
  forEach size fun i => do
    let off := scanList i
    roamError on log (apInfo off ++ [estmTput off, cuAvail off])
    roamError (on ∧ load mem (log + (cuAvail off).off) (cuAvail off).width ≠ 0) log [cu off]
  let num ← get mem log chanNum
  if num ≠ 0 then
    readFields log [band2gChanList, uni2aChanList, uni3ChanList, uni2cChanList 0, uni2cChanList 1,
      uni2cChanList 2]

end

open RoamLogCmplt in
def prRoamCmplV1 : Printer := printFields [version, status, reason, chanspec, retry, addr]

open RoamLogNbrreq in
def prRoamNbrReqV1 : Printer := printFields [version, token]

open RoamLogNbrrep in
def prRoamNbrRepV1 : Printer := printFields [version, channelNum]

open RoamLogNbrrep in
def prRoamNbrRepV2 : Printer := fun on mem log => do
  roamError on log [version, channelNum]
  let num ← get mem log channelNum
  if num ≠ 0 then
    readFields log [band2gChanList, uni2aChanList, uni3ChanList, uni2cChanList 0, uni2cChanList 1,
      uni2cChanList 2]

open RoamLogBcnrptReq in
/-- The two messages of a beacon request. -/
def bcnReqFields : List Field :=
  [version, result, reg, channel] ++ [mode, bssidWild, duration, ssidLen]

def prRoamBcnReqV1 : Printer := printFields bcnReqFields

open RoamLogBcnrptReq in
def prRoamBcnReqV3 : Printer := fun on mem log => do
  roamError on log bcnReqFields
  let num ← get mem log channelNum
  if num ≠ 0 then
    readFields log [band2gChanList, uni2aChanList, uni3ChanList, uni2cChanList 0, uni2cChanList 1,
      uni2cChanList 2]

def prRoamBcnRepV1 : Printer := printFields [version, RoamLogBcnrptRepV1.count]

open RoamLogBcnrptRep in
def prRoamBcnRepV2 : Printer := printFields [version, count, reason]

open RoamLogBcnrptRep in
def prRoamBcnRepV3 : Printer := fun on mem log => do
  roamError on log [version, count, reason]
  roamError on log [reasonDetail, duration]
  roamError (on ∧ load mem (log + reasonDetail.off) reasonDetail.width = BCNRPT_RSN_SCAN_FAIL) log
    [scanStatus]

open RoamLogBtmRep in
def prRoamBtmRepV2 : Printer := printFields [version, reqMode, status, resultV2]

open RoamLogBtmRep in
def prRoamBtmRepV3 : Printer := printFields [version, reqMode, status, result, targetAddr]

open RoamLogBtmQuery in
def prRoamBtmQueryV3 : Printer := printFields [version, token, reason]

open RoamLog6gNovlp in
def prRoam6gNovlpRepV3 : Printer := printFields [version, chanspec, bssid]

open RoamLogWtcBtmrep in
def prRoamWtcBtmRepV3 : Printer := fun on mem log => do
  roamError on log [version, wtcType]
  let type ← get mem log wtcType
  if type = WTC_BTMREQ then do
    roamError on log [reqMode, scantype, rssithresh WTC_BAND_2G, apRssithresh WTC_BAND_2G,
      apRssithresh WTC_BAND_5G, apRssithresh WTC_BAND_6G]
    let status ← get mem log reqStatus
    if status ≠ 0 then roamError on log [ieLength, wtcVer]
    else roamError on log [ieLength, wtcVer, reqRsnCode, subcode, duration]
  else if type = WTC_BTMRESP then roamError on log [ieLength, wtcVer, respRsnCode, respStatus]

open RoamLogBtmReq in
def prRoamBtmReqV4 : Printer := fun on mem log => do
  roamError on log [version, reqMode, token, nbrlistSize, disassocDur, validityDur, bssTermDur]
  let size ← get mem log nbrlistSize
  forEach (min size ROAM_NBR_RPT_LIST_SIZE) fun i => roamError on log [bssid i, preference i]

open RoamLogBtmResp in
def prRoamBtmRespV4 : Printer :=
  printFields [version, reqMode, status, token, termDelay, result, targetAddr]

/-- `pr_roam_tbl_t` -/
structure PrRoamTbl where
  version : Nat
  id : Nat
  prFunc : Printer

/-- Will find an entity which has highest version of that ROAM_LOG id. -/
def roamLogPrintTbl : List PrRoamTbl :=
  [⟨2, 1, prRoamScanStartV2⟩, ⟨1, 1, prRoamScanStartV1⟩,
    ⟨2, 2, prRoamScanCmplV2⟩, ⟨1, 2, prRoamScanCmplV1⟩,
    ⟨1, 3, prRoamCmplV1⟩,
    ⟨1, 4, prRoamNbrReqV1⟩,
    ⟨2, 5, prRoamNbrRepV2⟩, ⟨1, 5, prRoamNbrRepV1⟩,
    ⟨3, 6, prRoamBcnReqV3⟩, ⟨1, 6, prRoamBcnReqV1⟩,
    ⟨3, 7, prRoamBcnRepV3⟩, ⟨2, 7, prRoamBcnRepV2⟩, ⟨1, 7, prRoamBcnRepV1⟩,
    ⟨4, 8, prRoamBtmRespV4⟩, ⟨3, 8, prRoamBtmRepV3⟩, ⟨2, 8, prRoamBtmRepV2⟩,
    ⟨3, 10, prRoam6gNovlpRepV3⟩,
    ⟨3, 11, prRoamWtcBtmRepV3⟩,
    ⟨3, 12, prRoamBtmQueryV3⟩,
    ⟨4, 13, prRoamBtmReqV4⟩]

/-- `%d` of a `uint32` -/
def decimal (n : Nat) : List Char :=
  if n < 0x80000000 then Nat.toDigits 10 n else '-' :: Nat.toDigits 10 (0x100000000 - n)

def unknownText (id ver armcycle : Nat) : List Char :=
  "ROAM_LOG_UNKNOWN ID:".toList ++ decimal id ++ " ver:".toList ++ decimal ver ++
    " armcycle:".toList ++ decimal armcycle

/-- `%x`, and what is before it -/
def wordText (w : Nat) : List Char := ' ' :: Nat.toDigits 16 w

/-- The loop over the words of an unknown log, from word `i` on; `size` is what is left of
`pr_buf`. -/
def unknownWords (mem : Mem) (log : Nat) : Nat → Nat → Nat → Logged Nat Unit
  | 0, _, _ => pure ()
  | k + 1, i, size =>
    if 0 < size then do
      let w ← get mem log (u32 (4 * i))
      unknownWords mem log k (i + 1) (size - (wordText w).length)
    else pure ()

def printRoamEnhancedLog (on : Bool) (mem : Mem) (log armcycle : Nat) : Logged Nat Unit := do
  let len ← get mem log PrsvPeriodicLogHdr.length
  let ver ← get mem log version
  let logId ← get mem log PrsvPeriodicLogHdr.id
  match roamLogPrintTbl.find? fun e => e.version ≤ ver ∧ e.id = logId with
  | some e => e.prFunc on mem log
  | none =>
    unknownWords mem log (len / 4) 0 (EL_LOG_STR_LEN - (unknownText logId ver armcycle).length)

/-! ## Specification -/

/-- How many bytes of the record are read. -/
abbrev Size := Bool → Mem → Nat → Nat

def printedSize (n : Nat) : Size := fun on _ _ => if on then n else 0

def reasonAt (mem : Mem) (log : Nat) : Nat := load mem (log + 8) 4

def scanStartV1Size : Size := fun on mem log =>
  if on then
    if reasonAt mem log = 2 ∨ reasonAt mem log = 3 then 20
    else if reasonAt mem log = 11 then 32
    else 16
  else 12

def scanStartV2Size : Size := fun on mem log =>
  if on then
    if reasonAt mem log = 1 ∨ reasonAt mem log = 2 ∨ reasonAt mem log = 3 then 20 else 16
  else 12

/-- The list has as many access points as `scan_list_size` says, not 3. -/
def scanCmplV1Size : Size := fun on mem log =>
  if on then if load mem (log + 6) 1 = 0 then 28 else 32 + 20 * load mem (log + 6) 1 else 7

def scanCmplV2Size : Size := fun on mem log =>
  if on then if load mem (log + 5) 1 = 0 then 36 else 40 + 20 * load mem (log + 5) 1
  else if load mem (log + 6) 1 = 0 then 7
  else 16

def nbrRepV2Size : Size := fun _ mem log => if load mem (log + 4) 4 = 0 then 8 else 16

def bcnReqV3Size : Size := fun _ mem log => if load mem (log + 48) 4 = 0 then 52 else 60

def wtcBtmRepV3Size : Size := fun on mem log =>
  if load mem (log + 4) 1 = 0 then 20
  else if on then if load mem (log + 4) 1 = 1 then 10 else 5
  else 5

def btmReqV4Size : Size := fun on mem log =>
  if on then
    if load mem (log + 6) 2 = 0 then 20 else 19 + 8 * min (load mem (log + 6) 2) 4
  else 8

structure RoamLogSize where
  version : Nat
  id : Nat
  size : Size

def roamLogSizes : List RoamLogSize :=
  [⟨2, 1, scanStartV2Size⟩, ⟨1, 1, scanStartV1Size⟩,
    ⟨2, 2, scanCmplV2Size⟩, ⟨1, 2, scanCmplV1Size⟩,
    ⟨1, 3, printedSize 24⟩,
    ⟨1, 4, printedSize 8⟩,
    ⟨2, 5, nbrRepV2Size⟩, ⟨1, 5, printedSize 8⟩,
    ⟨3, 6, bcnReqV3Size⟩, ⟨1, 6, printedSize 16⟩,
    ⟨3, 7, printedSize 14⟩, ⟨2, 7, printedSize 12⟩, ⟨1, 7, printedSize 8⟩,
    ⟨4, 8, printedSize 20⟩, ⟨3, 8, printedSize 20⟩, ⟨2, 8, printedSize 16⟩,
    ⟨3, 10, printedSize 12⟩,
    ⟨3, 11, wtcBtmRepV3Size⟩,
    ⟨3, 12, printedSize 6⟩,
    ⟨4, 13, btmReqV4Size⟩]

/-- How long the text of the words from `i` on is. -/
def wordsLength (mem : Mem) (log i : Nat) : Nat → Nat
  | 0 => 0
  | k + 1 => (wordText (load mem (log + 4 * i) 4)).length + wordsLength mem log (i + 1) k

/-- The `count` words of the record hold what is read of it.  The last of them is the time. -/
def RoamFits (on : Bool) (mem : Mem) (log count : Nat) : Prop :=
  match roamLogSizes.find? fun e => e.version ≤ load mem log 1 ∧ e.id = load mem (log + 1) 1 with
  | some e => e.size on mem log ≤ 4 * count
  | none =>
    load mem (log + 2) 2 / 4 ≤ count ∨
      EL_LOG_STR_LEN ≤ (unknownText (load mem (log + 1) 1) (load mem log 1)
        (load mem (log + 4 * count - 4) 4)).length + wordsLength mem log 0 count

/-- Byte `a` is one of the `n` from `log` on. -/
def Of (log n a : Nat) : Prop := log ≤ a ∧ a < log + n

/-! ## What is read -/

section
variable {on : Bool} {mem : Mem} {log n : Nat} {f : Field} {fs : List Field}

def extent (fs : List Field) : Nat := fs.foldr (fun f n => max (f.off + f.width) n) 0

theorem of_bytes {off w : Nat} (hw : 0 < w) :
    (∀ a ∈ (List.range w).map (log + off + ·), Of log n a) ↔ off + w ≤ n := by
  constructor
  · intro h
    have hlast := (h (log + off + (w - 1)) (List.mem_map_of_mem (List.mem_range.mpr (by omega)))).2
    omega
  · intro h a ha
    obtain ⟨i, hi, rfl⟩ := List.mem_map.mp ha
    have hlt := List.mem_range.mp hi
    exact ⟨by omega, by omega⟩

@[simp] theorem all_get : (get mem log f).All (Of log n) ↔ f.off + f.width ≤ n := of_bytes f.pos

@[simp] theorem all_readFields : (readFields log fs).All (Of log n) ↔ extent fs ≤ n := by
  induction fs with
  | nil => exact iff_of_true (fun a ha => by cases ha) (Nat.zero_le n)
  | cons f fs ih =>
    have hbytes := @of_bytes log n f.off f.width f.pos
    exact List.forall_mem_append.trans ((and_congr hbytes ih).trans Nat.max_le.symm)

@[simp] theorem all_roamError :
    (roamError on log fs).All (Of log n) ↔ (on = true → extent fs ≤ n) := by
  unfold roamError
  rw [Logged.all_ite, all_readFields]
  exact and_iff_left fun _ => Logged.all_pure _

@[simp] theorem all_forEach {P : Nat → Prop} {k : Nat} {body : Nat → Logged Nat Unit} :
    (forEach k body).All P ↔ ∀ i < k, (body i).All P := by
  induction k with
  | zero => exact iff_of_true (Logged.all_pure _) fun i hi => absurd hi (Nat.not_lt_zero i)
  | succ k ih =>
    unfold forEach
    rw [Logged.all_bind, ih]
    constructor
    · rintro ⟨hk, hlast⟩ i hi
      rcases Nat.lt_succ_iff_lt_or_eq.mp hi with hi | rfl
      · exact hk i hi
      · exact hlast
    · exact fun h => ⟨fun i hi => h i (Nat.lt_succ_of_lt hi), h k (Nat.lt_succ_self k)⟩

end

/-! ## Printers -/

section
variable {on : Bool} {mem : Mem} {log n : Nat}

theorem printFields_within (mem : Mem) {fs : List Field} {e : Nat} (h : extent fs = e) :
    (printFields fs on mem log).All (Of log n) ↔ printedSize e on mem log ≤ n := by
  unfold printFields printedSize
  rw [all_roamError, h]
  cases on with
  | true => exact forall_prop_of_true rfl
  | false => exact iff_of_true (fun h => by cases h) (Nat.zero_le n)

theorem scanStartV1_within :
    (prRoamScanStartV1 on mem log).All (Of log n) ↔ scanStartV1Size on mem log ≤ n := by
  unfold prRoamScanStartV1 scanStartV1Size
  simp only [Logged.all_bind, Logged.all_ite, Logged.all_pure, all_roamError, all_get]
  change (on = true → 16 ≤ n) ∧ 12 ≤ n ∧
    (reasonAt mem log = 2 ∨ reasonAt mem log = 3 → on = true → 20 ≤ n) ∧
    (¬ (reasonAt mem log = 2 ∨ reasonAt mem log = 3) →
      (reasonAt mem log = 11 → on = true → 32 ≤ n) ∧ (¬ reasonAt mem log = 11 → True)) ↔ _
  grind

theorem scanStartV2_within :
    (prRoamScanStartV2 on mem log).All (Of log n) ↔ scanStartV2Size on mem log ≤ n := by
  unfold prRoamScanStartV2 scanStartV2Size
  simp only [Logged.all_bind, Logged.all_ite, Logged.all_pure, all_roamError, all_get,
    decide_eq_true_iff]
  change (on = true → 16 ≤ n) ∧ (on = true ∧ load mem (log + 12) 4 = 0 → 7 ≤ n) ∧ 12 ≤ n ∧
    (reasonAt mem log = 2 ∨ reasonAt mem log = 3 → on = true → 20 ≤ n) ∧
    (¬ (reasonAt mem log = 2 ∨ reasonAt mem log = 3) →
      (reasonAt mem log = 1 → on = true → 20 ≤ n) ∧ (¬ reasonAt mem log = 1 → True)) ↔ _
  grind

/-- A list of access points, of 20 bytes each. -/
theorem list_within {k start : Nat} :
    (∀ i < k, on = true → start + 20 * i + 20 ≤ n) ↔ on = true → k = 0 ∨ start + 20 * k ≤ n := by
  constructor
  · intro h hon
    rcases Nat.eq_zero_or_pos k with hk | hk
    · exact Or.inl hk
    · have hlast := h (k - 1) (by omega) hon
      omega
  · intro h i hi hon
    have hk := h hon
    omega

theorem extent_apInfo (off : Nat) (fs : List Field) :
    extent (apInfo off ++ fs) = max (off + 16) (extent fs) := by
  unfold extent apInfo RoamScanApInfo.addr RoamScanApInfo.rssi RoamScanApInfo.score
    RoamScanApInfo.chanspec u8 u16 u32 ether
  simp only [List.cons_append, List.nil_append, List.foldr_cons]
  omega

theorem scanCmplV1_within :
    (prRoamScanCmplV1 on mem log).All (Of log n) ↔ scanCmplV1Size on mem log ≤ n := by
  have hlast : ∀ i, extent (apInfo (RoamLogScanCmpltV1.scanList i) ++
      [RoamScanApInfo.estmTput (RoamLogScanCmpltV1.scanList i)]) = 32 + 20 * i + 20 := by
    intro i
    rw [extent_apInfo]
    show max (32 + 20 * i + 16) (max (32 + 20 * i + 16 + 4) 0) = 32 + 20 * i + 20
    omega
  unfold prRoamScanCmplV1 scanCmplV1Size
  simp only [Logged.all_bind, all_forEach, all_roamError, all_get, hlast]
  rw [list_within]
  change (on = true → 12 ≤ n) ∧ (on = true → 28 ≤ n) ∧ 7 ≤ n ∧
    (on = true → load mem (log + 6) 1 = 0 ∨ 32 + 20 * load mem (log + 6) 1 ≤ n) ↔ _
  grind

theorem scanCmplV2_within :
    (prRoamScanCmplV2 on mem log).All (Of log n) ↔ scanCmplV2Size on mem log ≤ n := by
  have hlast : ∀ i, ((on = true → extent (apInfo (RoamLogScanCmpltV2.scanList i) ++
      [RoamScanApInfo.estmTput (RoamLogScanCmpltV2.scanList i),
        RoamScanApInfo.cuAvail (RoamLogScanCmpltV2.scanList i)]) ≤ n) ∧
      (on = true ∧ load mem (log + (RoamScanApInfo.cuAvail (RoamLogScanCmpltV2.scanList i)).off)
        (RoamScanApInfo.cuAvail (RoamLogScanCmpltV2.scanList i)).width ≠ 0 →
        extent [RoamScanApInfo.cu (RoamLogScanCmpltV2.scanList i)] ≤ n)) ↔
      (on = true → 40 + 20 * i + 20 ≤ n) := by
    intro i
    rw [extent_apInfo]
    change ((on = true → max (40 + 20 * i + 16) (max (40 + 20 * i + 16 + 4)
      (max (40 + 20 * i + 2 + 1) 0)) ≤ n) ∧ (_ → max (40 + 20 * i + 1 + 1) 0 ≤ n)) ↔ _
    constructor
    · intro h hon
      have hle := h.1 hon
      omega
    · intro h
      exact ⟨fun hon => by have hle := h hon; omega, fun hon => by have hle := h hon.1; omega⟩
  unfold prRoamScanCmplV2 scanCmplV2Size
  simp only [Logged.all_bind, Logged.all_ite, Logged.all_pure, all_forEach, all_roamError, all_get,
    all_readFields, decide_eq_true_iff, hlast]
  rw [list_within]
  change (on = true → 20 ≤ n) ∧ (on = true → 36 ≤ n) ∧ 6 ≤ n ∧
    (on = true → load mem (log + 5) 1 = 0 ∨ 40 + 20 * load mem (log + 5) 1 ≤ n) ∧ 7 ≤ n ∧
    (load mem (log + 6) 1 ≠ 0 → 16 ≤ n) ∧ (¬ load mem (log + 6) 1 ≠ 0 → True) ↔ _
  grind

theorem nbrRepV2_within :
    (prRoamNbrRepV2 on mem log).All (Of log n) ↔ nbrRepV2Size on mem log ≤ n := by
  unfold prRoamNbrRepV2 nbrRepV2Size
  simp only [Logged.all_bind, Logged.all_ite, Logged.all_pure, all_roamError, all_get,
    all_readFields]
  change (on = true → 8 ≤ n) ∧ 8 ≤ n ∧ (load mem (log + 4) 4 ≠ 0 → 16 ≤ n) ∧
    (¬ load mem (log + 4) 4 ≠ 0 → True) ↔ _
  grind

theorem bcnReqV3_within :
    (prRoamBcnReqV3 on mem log).All (Of log n) ↔ bcnReqV3Size on mem log ≤ n := by
  unfold prRoamBcnReqV3 bcnReqV3Size
  simp only [Logged.all_bind, Logged.all_ite, Logged.all_pure, all_roamError, all_get,
    all_readFields]
  change (on = true → 16 ≤ n) ∧ 52 ≤ n ∧ (load mem (log + 48) 4 ≠ 0 → 60 ≤ n) ∧
    (¬ load mem (log + 48) 4 ≠ 0 → True) ↔ _
  grind

theorem bcnRepV3_within :
    (prRoamBcnRepV3 on mem log).All (Of log n) ↔ printedSize 14 on mem log ≤ n := by
  unfold prRoamBcnRepV3 printedSize
  simp only [Logged.all_bind, all_roamError, decide_eq_true_iff]
  change (on = true → 12 ≤ n) ∧ (on = true → 14 ≤ n) ∧
    (on = true ∧ load mem (log + 6) 2 = 3 → 5 ≤ n) ↔ _
  grind

theorem wtcBtmRepV3_within :
    (prRoamWtcBtmRepV3 on mem log).All (Of log n) ↔ wtcBtmRepV3Size on mem log ≤ n := by
  unfold prRoamWtcBtmRepV3 wtcBtmRepV3Size
  simp only [Logged.all_bind, Logged.all_ite, Logged.all_pure, all_roamError, all_get]
  change (on = true → 5 ≤ n) ∧ 5 ≤ n ∧
    (load mem (log + 4) 1 = 0 → (on = true → 16 ≤ n) ∧ 20 ≤ n ∧
      (load mem (log + 19) 1 ≠ 0 → on = true → 7 ≤ n) ∧
      (¬ load mem (log + 19) 1 ≠ 0 → on = true → 19 ≤ n)) ∧
    (¬ load mem (log + 4) 1 = 0 → (load mem (log + 4) 1 = 1 → on = true → 10 ≤ n) ∧
      (¬ load mem (log + 4) 1 = 1 → True)) ↔ _
  grind

theorem btmReqV4_within :
    (prRoamBtmReqV4 on mem log).All (Of log n) ↔ btmReqV4Size on mem log ≤ n := by
  have hlist : ∀ k, (∀ i < k, on = true →
      extent [RoamLogBtmReq.bssid i, RoamLogBtmReq.preference i] ≤ n) ↔
        (on = true → k = 0 ∨ 19 + 8 * k ≤ n) := by
    intro k
    have hext : ∀ i, extent [RoamLogBtmReq.bssid i, RoamLogBtmReq.preference i] = 27 + 8 * i := by
      intro i
      show max (20 + 8 * i + 6) (max (26 + 8 * i + 1) 0) = 27 + 8 * i
      omega
    simp only [hext]
    constructor
    · intro h hon
      rcases Nat.eq_zero_or_pos k with hk | hk
      · exact Or.inl hk
      · have hlast := h (k - 1) (by omega) hon
        omega
    · intro h i hi hon
      have hk := h hon
      omega
  unfold prRoamBtmReqV4 btmReqV4Size
  simp only [Logged.all_bind, all_forEach, all_roamError, all_get, hlist]
  change (on = true → 20 ≤ n) ∧ 8 ≤ n ∧ (on = true → min (load mem (log + 6) 2) 4 = 0 ∨
    19 + 8 * min (load mem (log + 6) 2) 4 ≤ n) ↔ _
  grind

end

/-! ## The table -/

/-- A row of the table, and what its printer needs. -/
structure Sized (e : PrRoamTbl) (s : RoamLogSize) : Prop where
  version : e.version = s.version
  id : e.id = s.id
  within : ∀ on mem log n, (e.prFunc on mem log).All (Of log n) ↔ s.size on mem log ≤ n

theorem table_sized : List.Forall₂ Sized roamLogPrintTbl roamLogSizes := by
  unfold roamLogPrintTbl roamLogSizes
  repeat' constructor
  all_goals intro on mem log n
  · exact scanStartV2_within
  · exact scanStartV1_within
  · exact scanCmplV2_within
  · exact scanCmplV1_within
  · exact printFields_within mem rfl
  · exact printFields_within mem rfl
  · exact nbrRepV2_within
  · exact printFields_within mem rfl
  · exact bcnReqV3_within
  · exact printFields_within mem rfl
  · exact bcnRepV3_within
  · exact printFields_within mem rfl
  · exact printFields_within mem rfl
  · exact printFields_within mem rfl
  · exact printFields_within mem rfl
  · exact printFields_within mem rfl
  · exact printFields_within mem rfl
  · exact wtcBtmRepV3_within
  · exact printFields_within mem rfl
  · exact btmReqV4_within

theorem find_sized {es : List PrRoamTbl} {ss : List RoamLogSize} (h : List.Forall₂ Sized es ss)
    (ver i : Nat) :
    ((es.find? fun e => e.version ≤ ver ∧ e.id = i) = none ∧
      (ss.find? fun s => s.version ≤ ver ∧ s.id = i) = none) ∨
    ∃ e s, (es.find? fun e => e.version ≤ ver ∧ e.id = i) = some e ∧
      (ss.find? fun s => s.version ≤ ver ∧ s.id = i) = some s ∧ Sized e s := by
  induction h with
  | nil => exact Or.inl ⟨rfl, rfl⟩
  | @cons e s es ss hes h ih =>
    by_cases hit : e.version ≤ ver ∧ e.id = i
    · have hit' : s.version ≤ ver ∧ s.id = i := hes.version ▸ hes.id ▸ hit
      exact Or.inr ⟨e, s, List.find?_cons_of_pos (decide_eq_true hit),
        List.find?_cons_of_pos (decide_eq_true hit'), hes⟩
    · have hit' : ¬ (s.version ≤ ver ∧ s.id = i) := hes.version ▸ hes.id ▸ hit
      rw [List.find?_cons_of_neg (by simpa using hit), List.find?_cons_of_neg (by simpa using hit')]
      exact ih

/-- The words of an unknown log are read until there are `k` of them, or the text is full. -/
theorem unknownWords_within {mem : Mem} {log k i c size : Nat} (hi : i ≤ c) :
    (unknownWords mem log k i size).All (Of log (4 * c)) ↔
      i + k ≤ c ∨ size ≤ wordsLength mem log i (c - i) := by
  induction k generalizing i size with
  | zero => exact iff_of_true (Logged.all_pure _) (Or.inl hi)
  | succ k ih =>
    unfold unknownWords
    split
    · next hsize =>
      rw [Logged.all_bind, all_get]
      by_cases hlt : i < c
      · rw [ih (Nat.succ_le_of_lt hlt), show c - i = c - (i + 1) + 1 by omega, wordsLength]
        change 4 * i + 4 ≤ 4 * c ∧ (_ ∨
          size - (wordText (load mem (log + 4 * i) 4)).length ≤
            wordsLength mem log (i + 1) (c - (i + 1))) ↔ _
        omega
      · obtain rfl : i = c := by omega
        rw [Nat.sub_self]
        change 4 * i + 4 ≤ 4 * i ∧ _ ↔ i + (k + 1) ≤ i ∨ size ≤ 0
        omega
    · next hsize => exact iff_of_true (Logged.all_pure _) (Or.inr (by omega))

/-! ## Top theorem -/

/-- **Roam logs.**  What is printed of a record is inside its words just if its structure is. -/
theorem print_roam_within (on : Bool) (mem : Mem) (log count : Nat) (hcount : 0 < count) :
    (printRoamEnhancedLog on mem log (load mem (log + 4 * count - 4) 4)).All (Of log (4 * count)) ↔
      RoamFits on mem log count := by
  unfold printRoamEnhancedLog RoamFits
  rw [Logged.all_bind, Logged.all_bind, Logged.all_bind, all_get, all_get, all_get]
  have hlen : PrsvPeriodicLogHdr.length.off + PrsvPeriodicLogHdr.length.width ≤ 4 * count := by
    show 4 ≤ 4 * count
    omega
  have hver : version.off + version.width ≤ 4 * count := by
    show 1 ≤ 4 * count
    omega
  have hid : PrsvPeriodicLogHdr.id.off + PrsvPeriodicLogHdr.id.width ≤ 4 * count := by
    show 2 ≤ 4 * count
    omega
  rw [and_iff_right hlen, and_iff_right hver, and_iff_right hid]
  change Logged.All _ (match roamLogPrintTbl.find?
    (fun e => e.version ≤ load mem log 1 ∧ e.id = load mem (log + 1) 1) with
    | some e => e.prFunc on mem log
    | none => unknownWords mem log (load mem (log + 2) 2 / 4) 0 (EL_LOG_STR_LEN -
        (unknownText (load mem (log + 1) 1) (load mem log 1)
          (load mem (log + 4 * count - 4) 4)).length)) ↔ _
  rcases find_sized table_sized (load mem log 1) (load mem (log + 1) 1) with
    ⟨he, hs⟩ | ⟨e, s, he, hs, hsized⟩
  · rw [he, hs]
    dsimp only
    rw [unknownWords_within (Nat.zero_le count), Nat.sub_zero]
    omega
  · rw [he, hs]
    exact hsized.within on mem log (4 * count)

end Bcmdhd.EventLog.RoamLog
